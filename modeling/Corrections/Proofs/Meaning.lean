/-
  The value of a content.

  * `Content.HasValue names c v`: by direct evaluation the content has the value `v`, where `names` are
    the values of its inputs. At a binning the bin counts that the input is in, and outside of the edges
    the flow.
  * `Content.Numeric`: constants and binnings of constants, and so on.
  * `execute_compile_iff_hasValue`: the code of such a content returns its value.
-/
import Corrections.Proofs.Acceptance
import Corrections.Proofs.Selection

namespace Corrections

open Code DecisionTree

/-- Built from constants and from binnings with numbers as edges, of which none counts an input outside
of the edges as an error. -/
inductive Content.Numeric : Content → Prop
  | constant (x : Binary64) : Numeric (.constant x)
  | clamp {input : String} {xs : List Binary64} {bins : List Content} :
    (∀ c ∈ bins, Numeric c) → Numeric (.binning input (.ofNumbers xs) bins .clamp)
  | value {input : String} {xs : List Binary64} {bins : List Content} {c : Content} :
    (∀ c ∈ bins, Numeric c) → Numeric c → Numeric (.binning input (.ofNumbers xs) bins (.value c))

/-- By direct evaluation the content has the value `v`. -/
inductive Content.HasValue (names : Names) : Content → Binary64 → Prop
  | constant (x : Binary64) : HasValue names (.constant x) x
  | inside {input : String} {xs : List Binary64} {bins : List Content} {flow : Flow Content} {i : Nat}
    {a b : Binary64} {c : Content} {v : Binary64} (ha : xs[i]? = some a) (hb : xs[i + 1]? = some b)
    (hle : a.le (names input) = true) (hlt : (names input).lt b = true) (hc : bins[i]? = some c)
    (hv : HasValue names c v) : HasValue names (.binning input (.ofNumbers xs) bins flow) v
  | clampBelow {input : String} {xs : List Binary64} {bins : List Content} {a : Binary64} {c : Content}
    {v : Binary64} (ha : xs[0]? = some a) (hlt : (names input).lt a = true) (hc : bins[0]? = some c)
    (hv : HasValue names c v) : HasValue names (.binning input (.ofNumbers xs) bins .clamp) v
  | clampAbove {input : String} {xs : List Binary64} {bins : List Content} {b : Binary64} {c : Content}
    {v : Binary64} (hb : xs[xs.length - 1]? = some b) (hle : b.le (names input) = true)
    (hc : bins[xs.length - 2]? = some c) (hv : HasValue names c v) :
    HasValue names (.binning input (.ofNumbers xs) bins .clamp) v
  | outside {input : String} {xs : List Binary64} {bins : List Content} {a b : Binary64} {c : Content}
    {v : Binary64} (ha : xs[0]? = some a) (hb : xs[xs.length - 1]? = some b)
    (hout : (names input).lt a = true ∨ b.le (names input) = true) (hv : HasValue names c v) :
    HasValue names (.binning input (.ofNumbers xs) bins (.value c)) v

/-! ## Edges that are numbers -/

/-- Well-formed numbers increase. -/
theorem Edges.WellFormed.pairwise {xs : List Binary64} {n : Nat}
    (h : (Edges.ofNumbers xs).WellFormed n) :
    n = xs.length ∧ 2 ≤ xs.length ∧ Binary64.nan ∉ xs ∧ xs.Pairwise fun x y => x.lt y = true := by
  obtain ⟨es, hread, hasc, hlen, rfl⟩ := Edges.wellFormed_iff.1 h
  rw [Edges.read_ofNumbers] at hread
  cases hread
  rw [List.length_map] at hlen
  have hlt : xs.Pairwise fun x y => x.lt y = true := by
    simpa [Edge.ascending_eq_ok_iff, List.pairwise_map, Edge.below_iff] using hasc
  exact ⟨List.length_map _, hlen, Binary64.nan_notMem_of_pairwise_lt hlt hlen, hlt⟩

theorem map_value_number (names : Names) (xs : List Binary64) :
    (xs.map Edge.number).map (Edge.value names) = xs := by
  simp [Edge.value, Function.comp_def]

theorem getD_of_getElem? {xs : List Binary64} {i : Nat} {a : Binary64} (h : xs[i]? = some a) :
    xs.getD i .nan = a ∧ i < xs.length := by
  obtain ⟨hi, -⟩ := List.getElem?_eq_some_iff.1 h
  rw [List.getD_eq_getElem?_getD, h]
  exact ⟨rfl, hi⟩

section
variable {xs : List Binary64} {x : Binary64} (hlt : xs.Pairwise fun x y => x.lt y = true)
  (hnan : Binary64.nan ∉ xs)

include hlt hnan

/-- An input that is in a bin is not outside of the edges. -/
theorem not_outside {i : Nat} {a b : Binary64} (ha : xs[i]? = some a) (hb : xs[i + 1]? = some b)
    (hax : a.le x = true) (hxb : x.lt b = true) :
    x.lt (xs.getD 0 .nan) = false ∧ (xs.getD (xs.length - 1) .nan).le x = false := by
  obtain ⟨rfl, hi⟩ := getD_of_getElem? ha
  obtain ⟨rfl, hi'⟩ := getD_of_getElem? hb
  constructor
  · by_contra h
    have hle := Binary64.getD_le_getD hlt hnan (Nat.zero_le i) hi
    have hxa := Binary64.lt_of_lt_of_le (by simpa using h) hle
    rw [Binary64.lt_eq_false_of_le hax] at hxa
    cases hxa
  · by_contra h
    have hle := @Binary64.getD_le_getD xs hlt hnan (i + 1) (xs.length - 1) (by omega) (by omega)
    have hxlast := Binary64.lt_of_lt_of_le hxb hle
    rw [Binary64.lt_eq_false_of_le (by simpa using h)] at hxlast
    cases hxlast

/-- The bin that is found is the one that the input is in. -/
theorem binOf_eq {i : Nat} {a b : Binary64} (ha : xs[i]? = some a) (hb : xs[i + 1]? = some b)
    (hax : a.le x = true) (hxb : x.lt b = true) : binOf xs x = i := by
  obtain ⟨rfl, hi⟩ := getD_of_getElem? ha
  obtain ⟨rfl, hi'⟩ := getD_of_getElem? hb
  obtain ⟨hend, hleft, hright⟩ := binOf_spec (show 2 ≤ xs.length by omega) x
  rcases Nat.lt_trichotomy (binOf xs x) i with h | h | h
  · -- Then the input is below the right edge of a bin to the left.
    have hxc := hright.resolve_left (by omega)
    have hle := Binary64.getD_le_getD hlt hnan (show binOf xs x + 1 ≤ i by omega) hi
    have hxa := Binary64.lt_of_lt_of_le hxc hle
    rw [Binary64.lt_eq_false_of_le hax] at hxa
    cases hxa
  · exact h
  · -- Then the input is not below the left edge of a bin to the right.
    have hxc := hleft.resolve_left (by omega)
    have hle := Binary64.getD_le_getD hlt hnan (show i + 1 ≤ binOf xs x by omega) (by omega)
    rw [Binary64.lt_of_lt_of_le hxb hle] at hxc
    cases hxc

end

/-- What a well-formed binning with numbers as edges consists of. -/
theorem Content.WellFormed.of_numbers {input : String} {xs : List Binary64} {bins : List Content}
    {flow : Flow Content} (h : (Content.binning input (.ofNumbers xs) bins flow).WellFormed) :
    (2 ≤ xs.length ∧ Binary64.nan ∉ xs ∧ xs.Pairwise fun x y => x.lt y = true) ∧
      xs.length - 1 ≤ bins.length ∧ (∀ i c, i < xs.length - 1 → bins[i]? = some c → c.WellFormed) ∧
      ∀ c, flow = .value c → c.WellFormed := by
  rcases h with _ | _ | ⟨hedges, hcount, hbins, hflow⟩
  obtain ⟨rfl, hlen, hnan, hlt⟩ := hedges.pairwise
  refine ⟨⟨hlen, hnan, hlt⟩, hcount, fun i c hi hc => hbins c ?_, hflow⟩
  exact List.mem_of_getElem? (by rw [List.getElem?_take, if_pos hi, hc])

section
variable {names : Names} {target : Target} {input : String} {xs : List Binary64} {bins : List Content}
  {flow : Flow Content} {h : Halt} (hinput : InputName input)
  (hwf : (Content.binning input (.ofNumbers xs) bins flow).WellFormed)

include hinput hwf

theorem Content.halts_below {a : Binary64} (ha : xs[0]? = some a) (hlt : (names input).lt a = true)
    (hblock : Halts names (Binning.belowBlock input target (Content.programs target bins)
      (Content.flowProgram target flow)) h) :
    Halts names ((Content.binning input (.ofNumbers xs) bins flow).program target) h := by
  obtain ⟨⟨hlen, -, -⟩, -, -, -⟩ := hwf.of_numbers
  obtain ⟨rfl, -⟩ := getD_of_getElem? ha
  exact Content.halts_binning_below hinput (Edges.read_ofNumbers xs) (by simpa using hlen)
    (map_value_number names xs).symm hlt hblock

theorem Content.halts_above {b : Binary64} (hb : xs[xs.length - 1]? = some b)
    (hle : b.le (names input) = true)
    (hblock : Halts names (Binning.aboveBlock xs.length (Content.programs target bins)
      (Content.flowProgram target flow)) h) :
    Halts names ((Content.binning input (.ofNumbers xs) bins flow).program target) h := by
  obtain ⟨⟨hlen, hnan, hsorted⟩, -, -, -⟩ := hwf.of_numbers
  obtain ⟨rfl, -⟩ := getD_of_getElem? hb
  have hlt : (names input).lt (xs.getD 0 .nan) = false := by
    by_contra hlt
    have hfirst := @Binary64.getD_le_getD xs hsorted hnan 0 (xs.length - 1) (by omega) (by omega)
    have hlast := Binary64.lt_of_lt_of_le (by simpa using hlt) hfirst
    rw [Binary64.lt_eq_false_of_le hle] at hlast
    cases hlast
  rw [← List.length_map Edge.number] at hblock
  exact Content.halts_binning_above hinput (Edges.read_ofNumbers xs) (by simpa using hlen)
    (map_value_number names xs).symm hlt hle hblock

theorem Content.halts_inside {i : Nat} {a b : Binary64} {c : Content} (ha : xs[i]? = some a)
    (hb : xs[i + 1]? = some b) (hle : a.le (names input) = true) (hlt : (names input).lt b = true)
    (hc : bins[i]? = some c) (hbin : Halts names (c.program target) h) :
    Halts names ((Content.binning input (.ofNumbers xs) bins flow).program target) h := by
  obtain ⟨⟨hlen, hnan, hsorted⟩, hcount, -, -⟩ := hwf.of_numbers
  obtain ⟨hfirst, hlast⟩ := not_outside hsorted hnan ha hb hle hlt
  rw [← binOf_eq hsorted hnan ha hb hle hlt] at hc
  exact Content.halts_binning_inside hinput (Edges.read_ofNumbers xs) (by simpa using hlen)
    (map_value_number names xs).symm (by simpa using hcount) hfirst hlast hc hbin

end

/-- **The statements of a content return its value.** -/
theorem Content.HasValue.halts {names : Names} {target : Target} {c : Content} {v : Binary64}
    (hv : c.HasValue names v) (hwf : c.WellFormed) (hinputs : c.AllInputs InputName) :
    Halts names (c.program target) (.returned v) := by
  induction hv with
  | constant x => exact halts_constant names target x
  | @inside input xs bins flow i a b c v ha hb hle hlt hc _ ih =>
    obtain ⟨-, -, hbins, -⟩ := hwf.of_numbers
    obtain ⟨hinput, hbins', -⟩ := hinputs.of_binning
    have hi := (getD_of_getElem? hb).2
    refine Content.halts_inside hinput hwf ha hb hle hlt hc ?_
    exact ih (hbins i c (by omega) hc) (hbins' c (List.mem_of_getElem? hc))
  | @clampBelow input xs bins a c v ha hlt hc _ ih =>
    obtain ⟨⟨hlen, -, -⟩, -, hbins, -⟩ := hwf.of_numbers
    obtain ⟨hinput, hbins', -⟩ := hinputs.of_binning
    refine Content.halts_below hinput hwf ha hlt ?_
    rw [Content.flowProgram, Binning.belowBlock, getD_programs hc]
    exact ih (hbins 0 c (by omega) hc) (hbins' c (List.mem_of_getElem? hc))
  | @clampAbove input xs bins b c v hb hle hc _ ih =>
    obtain ⟨⟨hlen, -, -⟩, -, hbins, -⟩ := hwf.of_numbers
    obtain ⟨hinput, hbins', -⟩ := hinputs.of_binning
    refine Content.halts_above hinput hwf hb hle ?_
    rw [Content.flowProgram, Binning.aboveBlock, getD_programs hc]
    exact ih (hbins _ c (by omega) hc) (hbins' c (List.mem_of_getElem? hc))
  | @outside input xs bins a b c v ha hb hout _ ih =>
    obtain ⟨-, -, -, hflow⟩ := hwf.of_numbers
    obtain ⟨hinput, -, hflow'⟩ := hinputs.of_binning
    have hhalts := ih (hflow c rfl) (hflow' c rfl)
    rcases hout with hlt | hle
    · exact Content.halts_below hinput hwf ha hlt hhalts
    · exact Content.halts_above hinput hwf hb hle hhalts

/-- An input is below the edges, above them, or in a bin. -/
theorem place_cases {xs : List Binary64} {x : Binary64} (hx : x ≠ .nan) (hlen : 2 ≤ xs.length)
    (hnan : Binary64.nan ∉ xs) :
    (∃ a, xs[0]? = some a ∧ x.lt a = true) ∨ (∃ b, xs[xs.length - 1]? = some b ∧ b.le x = true) ∨
      ∃ i a b, xs[i]? = some a ∧ xs[i + 1]? = some b ∧ a.le x = true ∧ x.lt b = true := by
  have hget : ∀ i, i < xs.length → xs[i]? = some (xs.getD i .nan) ∧ xs.getD i .nan ≠ .nan := by
    intro i hi
    rw [List.getD_eq_getElem?_getD, List.getElem?_eq_getElem hi]
    refine ⟨rfl, fun h => hnan ?_⟩
    rw [← h]
    exact List.getElem_mem hi
  by_cases hfirst : x.lt (xs.getD 0 .nan) = true
  · exact .inl ⟨_, (hget 0 (by omega)).1, hfirst⟩
  by_cases hlast : (xs.getD (xs.length - 1) .nan).le x = true
  · exact .inr (.inl ⟨_, (hget _ (by omega)).1, hlast⟩)
  obtain ⟨hend, hleft, hright⟩ := binOf_spec hlen x
  obtain ⟨ha, ha'⟩ := hget (binOf xs x) (by omega)
  obtain ⟨hb, -⟩ := hget (binOf xs x + 1) (by omega)
  refine .inr (.inr ⟨binOf xs x, _, _, ha, hb, Binary64.le_of_lt_eq_false hx ha' ?_, ?_⟩)
  · rcases hleft with h | h
    · rw [h]
      simpa using hfirst
    · exact h
  · rcases hright with h | h
    · rw [h]
      exact Binary64.lt_of_le_eq_false hx (hget _ (by omega)).2 (by simpa using hlast)
    · exact h

/-- **Every content of numbers has a value,** if no input is a NaN. -/
theorem Content.Numeric.exists_hasValue {names : Names} {c : Content} (hc : c.Numeric)
    (hwf : c.WellFormed) (hnames : c.AllInputs fun q => names q ≠ .nan) : ∃ v, c.HasValue names v := by
  induction hc with
  | constant x => exact ⟨x, .constant x⟩
  | @clamp input xs bins _ ih =>
    obtain ⟨⟨hlen, hnan, -⟩, hcount, hbins, -⟩ := hwf.of_numbers
    obtain ⟨hinput, hnames', -⟩ := hnames.of_binning
    have hbin : ∀ i, i < xs.length - 1 → ∃ c v, bins[i]? = some c ∧ c.HasValue names v := by
      intro i hi
      have hc : bins[i]? = some bins[i] := List.getElem?_eq_getElem (by omega)
      obtain ⟨v, hv⟩ :=
        ih _ (List.mem_of_getElem? hc) (hbins i _ hi hc) (hnames' _ (List.mem_of_getElem? hc))
      exact ⟨_, v, hc, hv⟩
    rcases place_cases hinput hlen hnan with
      ⟨a, ha, hlt⟩ | ⟨b, hb, hle⟩ | ⟨i, a, b, ha, hb, hle, hlt⟩
    · obtain ⟨c, v, hc, hv⟩ := hbin 0 (by omega)
      exact ⟨v, .clampBelow ha hlt hc hv⟩
    · obtain ⟨c, v, hc, hv⟩ := hbin (xs.length - 2) (by omega)
      exact ⟨v, .clampAbove hb hle hc hv⟩
    · have hi := (getD_of_getElem? hb).2
      obtain ⟨c, v, hc, hv⟩ := hbin i (by omega)
      exact ⟨v, .inside ha hb hle hlt hc hv⟩
  | @value input xs bins c _ _ ih ihflow =>
    obtain ⟨⟨hlen, hnan, -⟩, hcount, hbins, hflow⟩ := hwf.of_numbers
    obtain ⟨hinput, hnames', hvalue⟩ := hnames.of_binning
    obtain ⟨v, hv⟩ := ihflow (hflow c rfl) (hvalue c rfl)
    have ha : xs[0]? = some xs[0] := List.getElem?_eq_getElem (by omega)
    have hb : xs[xs.length - 1]? = some xs[xs.length - 1] := List.getElem?_eq_getElem (by omega)
    rcases place_cases hinput hlen hnan with
      ⟨a, ha', hlt⟩ | ⟨b, hb', hle⟩ | ⟨i, a, b, ha', hb', hle, hlt⟩
    · exact ⟨v, .outside ha' hb (.inl hlt) hv⟩
    · exact ⟨v, .outside ha hb' (.inr hle) hv⟩
    · have hi := (getD_of_getElem? hb').2
      have hc : bins[i]? = some bins[i] := List.getElem?_eq_getElem (by omega)
      obtain ⟨v, hv⟩ := ih _ (List.mem_of_getElem? hc) (hbins i _ (by omega) hc)
        (hnames' _ (List.mem_of_getElem? hc))
      exact ⟨v, .inside ha' hb' hle hlt hc hv⟩

/-- **The code of a content of numbers returns its value.** That value is the only one it has. -/
theorem execute_compile_iff_hasValue {target : Target} {c : Content} {text : String} {names : Names}
    (hnumeric : c.Numeric) (hinputs : c.AllInputs InputName)
    (hnames : c.AllInputs fun q => names q ≠ .nan) (htext : c.compile target = .ok text) :
    ∃ v, (execute names text).result = .error (.returned v) ∧ ∀ w, c.HasValue names w ↔ w = v := by
  have hwf := Content.wellFormed_of_compile htext
  have hreturns : ∀ w, c.HasValue names w → (execute names text).result = .error (.returned w) :=
    fun w hw => (ends_execute hinputs htext (hw.halts hwf hinputs)).result
  obtain ⟨v, hv⟩ := hnumeric.exists_hasValue hwf hnames
  refine ⟨v, hreturns v hv, fun w => ⟨fun hw => ?_, fun h => h ▸ hv⟩⟩
  have heq := (hreturns w hw).symm.trans (hreturns v hv)
  cases heq
  rfl

/-- Two inputs, a binning inside of a binning, and a flow that is a binning of its own. -/
theorem execute_nested_binning :
    let number := Binary64.ofRank false
    let inner := Content.binning "y" (.ofNumbers [number 1, number 2]) [.constant (number 7)] .clamp
    let outer := Content.binning "x" (.ofNumbers [number 10, number 20, number 30])
      [.constant (number 8), inner] (.value inner)
    let names := fun q => if q = "x" then number 25 else number 4
    outer.Numeric ∧ outer.AllInputs InputName ∧ (outer.AllInputs fun q => names q ≠ .nan) ∧
      ∃ text, outer.compile .cuda = .ok text ∧
        (execute names text).result = .error (.returned (number 7)) := by
  intro number inner outer names
  have hconstant : ∀ n, (Content.constant (number n)).Numeric := fun n => .constant _
  have hinner : inner.Numeric := .clamp (by simpa using hconstant 7)
  have hnumeric : outer.Numeric := .value (by simpa using ⟨hconstant 8, hinner⟩) hinner
  have hall : ∀ P : String → Prop, P "x" → P "y" → outer.AllInputs P := by
    intro P hPx hPy
    have hi : inner.AllInputs P := .binning hPy (by simpa using .datum _) (by rintro c ⟨⟩)
    exact .binning hPx (by simpa using ⟨.datum _, hi⟩) (by rintro c ⟨⟩; exact hi)
  have hnames : outer.AllInputs fun q => names q ≠ .nan :=
    hall _ (by decide +kernel) (by decide +kernel)
  have hwf : outer.WellFormed := by
    have hi : inner.WellFormed :=
      .binning (.numbers (by decide) (by decide +kernel) (by decide +kernel))
      (by decide) (by simpa using .constant _) (by rintro c ⟨⟩)
    exact .binning (.numbers (by decide) (by decide +kernel) (by decide +kernel)) (by decide)
      (by simpa using ⟨.constant _, hi⟩) (by rintro c ⟨⟩; exact hi)
  have hvalue : outer.HasValue names (number 7) :=
    .inside (i := 1) rfl rfl (by decide +kernel) (by decide +kernel) rfl
      (.clampAbove rfl (by decide +kernel) rfl (.constant _))
  obtain ⟨text, htext⟩ := hwf.exists_compile .cuda
  obtain ⟨v, hrun, hiff⟩ :=
    execute_compile_iff_hasValue hnumeric (hall _ inputName_x inputName_y) hnames htext
  refine ⟨hnumeric, hall _ inputName_x inputName_y, hnames, text, htext, ?_⟩
  rw [(hiff _).1 hvalue]
  exact hrun

end Corrections
