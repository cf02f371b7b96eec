/-
  Binnings that count an input outside of the edges as an error.

  * `execute_errorFlow_iff`: the failure is reached exactly for the inputs below the first edge. An
    input above the last edge, or a NaN, gets the value of the last bin.
  * `execute_errorFlow_above`: so an input above the edges is no error.
-/
import Corrections.Proofs.Meaning
import Corrections.Proofs.Safety

namespace Corrections

open Code

/-- A binning of constants for which an input outside of the edges is an error. -/
abbrev Content.errorFlow (input : String) (xs vs : List Binary64) : Content :=
  .binning input (.ofNumbers xs) (vs.map .constant) .error

theorem getElem?_constants {vs : List Binary64} {i : Nat} {v : Binary64} (hv : vs[i]? = some v) :
    (vs.map Content.constant)[i]? = some (.constant v) := by
  rw [List.getElem?_map, hv]
  rfl

theorem Content.allInputs_constants {P : String → Prop} {input : String} (hinput : P input)
    (edges : Edges) (vs : List Binary64) {flow : Flow Content}
    (hflow : ∀ c, flow = .value c → c.AllInputs P) :
    (Content.binning input edges (vs.map .constant) flow).AllInputs P := by
  refine .binning hinput ?_ hflow
  intro c hc
  obtain ⟨v, -, rfl⟩ := List.mem_map.1 hc
  exact .datum _

theorem Content.allInputs_errorFlow {input : String} (hinput : InputName input)
    (xs vs : List Binary64) :
    (Content.errorFlow input xs vs).AllInputs InputName :=
  Content.allInputs_constants hinput _ vs (by rintro c ⟨⟩)

/-- A NaN falls into the last bin. -/
theorem binOf_nan {xs : List Binary64} (hlen : 2 ≤ xs.length) : binOf xs .nan = xs.length - 2 := by
  obtain ⟨-, -, hright⟩ := binOf_spec hlen .nan
  rcases hright with h | h
  · omega
  · cases h

section
variable {names : Names} {target : Target} {input : String} {xs vs : List Binary64}
  (hinput : InputName input) (hwf : (Content.errorFlow input xs vs).WellFormed)

include hinput hwf

theorem Content.halts_errorFlow_below {a : Binary64} (ha : xs[0]? = some a)
    (hlt : (names input).lt a = true) :
    Halts names ((Content.errorFlow input xs vs).program target) (.stopped target.failCall) :=
  Content.halts_below hinput hwf ha hlt (Binning.halts_failure names input target)

theorem Content.halts_errorFlow_inside {i : Nat} {a b v : Binary64} (ha : xs[i]? = some a)
    (hb : xs[i + 1]? = some b) (hle : a.le (names input) = true) (hlt : (names input).lt b = true)
    (hv : vs[i]? = some v) :
    Halts names ((Content.errorFlow input xs vs).program target) (.returned v) :=
  Content.halts_inside hinput hwf ha hb hle hlt (getElem?_constants hv) (halts_constant names target v)

/-- The branch for inputs above the edges is the last bin. -/
theorem Content.halts_errorFlow_above {b v : Binary64} (hb : xs[xs.length - 1]? = some b)
    (hle : b.le (names input) = true) (hv : vs[xs.length - 2]? = some v) :
    Halts names ((Content.errorFlow input xs vs).program target) (.returned v) := by
  refine Content.halts_above hinput hwf hb hle ?_
  rw [Content.flowProgram, Binning.aboveBlock, getD_programs (getElem?_constants hv)]
  exact halts_constant names target v

theorem Content.halts_errorFlow_nan (hx : names input = .nan) {v : Binary64}
    (hv : vs[xs.length - 2]? = some v) :
    Halts names ((Content.errorFlow input xs vs).program target) (.returned v) := by
  obtain ⟨⟨hlen, -, -⟩, hcount, -, -⟩ := hwf.of_numbers
  have hlt : ∀ y, (names input).lt y = false := by
    intro y
    rw [hx]
    rfl
  have hle : ∀ y : Binary64, y.le (names input) = false := by
    intro y
    rw [hx]
    cases y <;> rfl
  have hc := getElem?_constants hv
  rw [← binOf_nan hlen, ← hx] at hc
  exact Content.halts_binning_inside hinput (Edges.read_ofNumbers xs) (by simpa using hlen)
    (map_value_number names xs).symm (by simpa using hcount) (hlt _) (hle _) hc
    (halts_constant names target v)

end

/-- **The failure is reached exactly below the edges.** Above them, and for a NaN, the value of the last
bin is returned, and inside of them the value of the bin that the input is in. -/
theorem execute_errorFlow_iff {target : Target} {input : String} {xs vs : List Binary64} {text : String}
    (hinput : InputName input)
    (htext : (Content.errorFlow input xs vs).compile target = .ok text) (names : Names) :
    ∃ first last v, xs[0]? = some first ∧ xs[xs.length - 1]? = some last ∧
      vs[xs.length - 2]? = some v ∧
      ((execute names text).result = .error (.stopped target.failCall) ↔
        (names input).lt first = true) ∧
      (last.le (names input) = true ∨ names input = .nan →
        (execute names text).result = .error (.returned v)) ∧
      ∀ i a b, xs[i]? = some a → xs[i + 1]? = some b → a.le (names input) = true →
        (names input).lt b = true →
        ∃ w, vs[i]? = some w ∧ (execute names text).result = .error (.returned w) := by
  have hwf := Content.wellFormed_of_compile htext
  obtain ⟨⟨hlen, hnan, -⟩, hcount, -, -⟩ := hwf.of_numbers
  rw [List.length_map] at hcount
  have hresult : ∀ h, Halts names ((Content.errorFlow input xs vs).program target) h →
      (execute names text).result = .error h :=
    fun h hhalts => (ends_execute (Content.allInputs_errorFlow hinput xs vs) htext hhalts).result
  have hfirst : xs[0]? = some xs[0] := List.getElem?_eq_getElem (by omega)
  have hlast : xs[xs.length - 1]? = some xs[xs.length - 1] := List.getElem?_eq_getElem (by omega)
  have hv : vs[xs.length - 2]? = some vs[xs.length - 2] := List.getElem?_eq_getElem (by omega)
  have hbelow : (names input).lt xs[0] = true →
      (execute names text).result = .error (.stopped target.failCall) :=
    fun hlt => hresult _ (Content.halts_errorFlow_below hinput hwf hfirst hlt)
  have habove : xs[xs.length - 1].le (names input) = true ∨ names input = .nan →
      (execute names text).result = .error (.returned vs[xs.length - 2]) := by
    rintro (hle | hx)
    · exact hresult _ (Content.halts_errorFlow_above hinput hwf hlast hle hv)
    · exact hresult _ (Content.halts_errorFlow_nan hinput hwf hx hv)
  have hinside : ∀ i a b, xs[i]? = some a → xs[i + 1]? = some b → a.le (names input) = true →
      (names input).lt b = true →
      ∃ w, vs[i]? = some w ∧ (execute names text).result = .error (.returned w) := by
    intro i a b ha hb hle hlt
    have hi := (getD_of_getElem? hb).2
    have hw : vs[i]? = some vs[i] := List.getElem?_eq_getElem (by omega)
    exact ⟨_, hw, hresult _ (Content.halts_errorFlow_inside hinput hwf ha hb hle hlt hw)⟩
  refine ⟨_, _, _, hfirst, hlast, hv, ⟨fun hstop => ?_, hbelow⟩, habove, hinside⟩
  by_cases hx : names input = .nan
  · rw [habove (.inr hx)] at hstop
    cases hstop
  rcases place_cases hx hlen hnan with ⟨a, ha, hlt⟩ | ⟨b, hb, hle⟩ | ⟨i, a, b, ha, hb, hle, hlt⟩
  · cases hfirst.symm.trans ha
    exact hlt
  · cases hlast.symm.trans hb
    rw [habove (.inl hle)] at hstop
    cases hstop
  · obtain ⟨w, -, hw⟩ := hinside i a b ha hb hle hlt
    rw [hw] at hstop
    cases hstop

/-- Below the edges, above them and in the second bin. -/
theorem execute_errorFlow_places :
    let number := Binary64.ofRank false
    InputName "x" ∧ ∃ text, (Content.errorFlow "x" [number 10, number 20, number 30]
        [number 7, number 8]).compile .cuda = .ok text ∧
      (execute (fun _ => number 5) text).result = .error (.stopped Target.cuda.failCall) ∧
      (execute (fun _ => number 30) text).result = .error (.returned (number 8)) ∧
      (execute (fun _ => number 20) text).result = .error (.returned (number 8)) := by
  intro number
  have hwf : (Content.errorFlow "x" [number 10, number 20, number 30]
      [number 7, number 8]).WellFormed :=
    .binning (.numbers (by decide) (by decide +kernel) (by decide +kernel)) (by decide)
      (by simpa using ⟨.constant _, .constant _⟩) (by rintro c ⟨⟩)
  obtain ⟨text, htext⟩ := hwf.exists_compile .cuda
  refine ⟨inputName_x, text, htext, ?_, ?_, ?_⟩
  · obtain ⟨first, last, v, ⟨⟩, ⟨⟩, ⟨⟩, hbelow, -⟩ :=
      execute_errorFlow_iff inputName_x htext fun _ => number 5
    exact hbelow.2 (by decide +kernel)
  · obtain ⟨first, last, v, ⟨⟩, ⟨⟩, ⟨⟩, -, habove, -⟩ :=
      execute_errorFlow_iff inputName_x htext fun _ => number 30
    exact habove (.inl (by decide +kernel))
  · obtain ⟨first, last, v, ⟨⟩, ⟨⟩, ⟨⟩, -, -, hinside⟩ :=
      execute_errorFlow_iff inputName_x htext fun _ => number 20
    obtain ⟨w, ⟨⟩, hw⟩ := hinside 1 _ _ rfl rfl (by decide +kernel) (by decide +kernel)
    exact hw

/-- **An input above the edges is no error.** The code for the one bin from 0 to 1 returns its value
at 2. -/
theorem execute_errorFlow_above :
    ∃ one two text, Binary64.read? "1.0" = some one ∧ Binary64.read? "2.0" = some two ∧
      (Content.errorFlow "x" [.zero false, one] [one]).compile .c = .ok text ∧ one.le two = true ∧
      (execute (fun _ => two) text).result = .error (.returned one) ∧
      (execute (fun _ => two) text).result ≠ .error (.stopped Target.c.failCall) := by
  have hwf : (Content.errorFlow "x" [.zero false, .ofRank false (1023 * 2 ^ 52)]
      [.ofRank false (1023 * 2 ^ 52)]).WellFormed :=
    .binning (.numbers (by decide) (by decide +kernel) (by decide +kernel)) (by decide)
      (by simpa using .constant _) (by rintro c ⟨⟩)
  obtain ⟨text, htext⟩ := hwf.exists_compile .c
  have hle : (Binary64.ofRank false (1023 * 2 ^ 52)).le (.ofRank false (1024 * 2 ^ 52)) = true := by
    decide +kernel
  have hresult := (ends_execute (Content.allInputs_errorFlow inputName_x _ _) htext
    (@Content.halts_errorFlow_above (fun _ => .ofRank false (1024 * 2 ^ 52)) _ _ _ _ inputName_x hwf
      _ _ rfl hle rfl)).result
  refine ⟨_, _, text, by decide +kernel, by decide +kernel, htext, hle, hresult, ?_⟩
  rw [hresult]
  rintro ⟨⟩

end Corrections
