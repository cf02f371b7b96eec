/-
  Clamped binnings without their guards.

  * `ClampedBin xs x i`: a clamped binning with the edges `xs` puts the input `x` into the bin `i`.
  * `binOf_eq_iff_clampedBin`: that is the bin which the decision tree finds. It never looks at the two outer
    edges, but below the edges it finds the first bin, and above them the last one.
  * `Binning.searchCode` is the code of a binning from which the lines of the two guards are taken away.
  * `clamp_guards_redundant`: with and without the guards the same bin is executed.
-/
import Corrections.Proofs.Meaning
import Corrections.Proofs.Safety

namespace Corrections

open Code
open DecisionTree (query)

/-! ## The bin of an input -/

/-- A clamped binning puts the input into the bin at `i`. -/
inductive ClampedBin (xs : List Binary64) (x : Binary64) : (i : Nat) → Prop
  | below {a : Binary64} (ha : xs[0]? = some a) (hx : x.lt a = true) : ClampedBin xs x 0
  | above {b : Binary64} (hb : xs[xs.length - 1]? = some b) (hx : b.le x = true) :
    ClampedBin xs x (xs.length - 2)
  | inside {i : Nat} {a b : Binary64} (ha : xs[i]? = some a) (hb : xs[i + 1]? = some b)
    (hle : a.le x = true) (hx : x.lt b = true) : ClampedBin xs x i

section
variable {xs : List Binary64} {x : Binary64} (hlt : xs.Pairwise fun x y => x.lt y = true)
  (hlen : 2 ≤ xs.length)

include hlt hlen

/-- Below the edges the first bin is found. -/
theorem binOf_eq_first {a : Binary64} (ha : xs[0]? = some a) (hx : x.lt a = true) : binOf xs x = 0 := by
  have hnan := Binary64.nan_notMem_of_pairwise_lt hlt hlen
  obtain ⟨rfl, -⟩ := getD_of_getElem? ha
  obtain ⟨hend, hleft, -⟩ := binOf_spec hlen x
  refine hleft.resolve_right fun hnot => ?_
  have hle := Binary64.getD_le_getD hlt hnan (Nat.zero_le (binOf xs x)) (by omega)
  rw [Binary64.lt_of_lt_of_le hx hle] at hnot
  cases hnot

/-- Above the edges the last bin is found. -/
theorem binOf_eq_last {b : Binary64} (hb : xs[xs.length - 1]? = some b) (hx : b.le x = true) :
    binOf xs x = xs.length - 2 := by
  have hnan := Binary64.nan_notMem_of_pairwise_lt hlt hlen
  obtain ⟨rfl, -⟩ := getD_of_getElem? hb
  obtain ⟨hend, -, hright⟩ := binOf_spec hlen x
  have hlast : binOf xs x + 1 = xs.length - 1 := by
    refine hright.resolve_right fun hbelow => ?_
    have hle := @Binary64.getD_le_getD xs hlt hnan (binOf xs x + 1) (xs.length - 1) (by omega) (by omega)
    have hxlast := Binary64.lt_of_lt_of_le hbelow hle
    rw [Binary64.lt_eq_false_of_le hx] at hxlast
    cases hxlast
  omega

theorem ClampedBin.binOf_eq {i : Nat} (h : ClampedBin xs x i) : binOf xs x = i := by
  cases h with
  | below ha hx => exact binOf_eq_first hlt hlen ha hx
  | above hb hx => exact binOf_eq_last hlt hlen hb hx
  | inside ha hb hle hx =>
    exact Corrections.binOf_eq hlt (Binary64.nan_notMem_of_pairwise_lt hlt hlen) ha hb hle hx

/-- **The decision tree clamps by itself.** -/
theorem binOf_eq_iff_clampedBin (hx : x ≠ .nan) (i : Nat) : binOf xs x = i ↔ ClampedBin xs x i := by
  refine ⟨?_, ClampedBin.binOf_eq hlt hlen⟩
  rintro rfl
  have hplace : ∃ i, ClampedBin xs x i := by
    rcases place_cases hx hlen (Binary64.nan_notMem_of_pairwise_lt hlt hlen) with
      ⟨a, ha, hbelow⟩ | ⟨b, hb, habove⟩ | ⟨i, a, b, ha, hb, hle, hbelow⟩
    · exact ⟨_, .below ha hbelow⟩
    · exact ⟨_, .above hb habove⟩
    · exact ⟨i, .inside ha hb hle hbelow⟩
  obtain ⟨i, hi⟩ := hplace
  rwa [hi.binOf_eq hlt hlen]

end

/-! ## Statements -/

section
variable {names : Names} {target : Target} {input : String} {xs : List Binary64} {bins : List Content}
  {c : Content} {h : Halt} (hinput : InputName input)
  (hwf : (Content.binning input (.ofNumbers xs) bins .clamp).WellFormed)
  (hc : bins[binOf xs (names input)]? = some c) (hhalts : Halts names (c.program target) h)

include hinput hwf hc hhalts

/-- With the guards a clamped binning does what the bin does that the decision tree finds. The three places
that an input can be in go different ways through the statements. -/
theorem Content.halts_clamp (hx : names input ≠ .nan) :
    Halts names ((Content.binning input (.ofNumbers xs) bins .clamp).program target) h := by
  obtain ⟨⟨hlen, -, hlt⟩, -, -, -⟩ := hwf.of_numbers
  have hplace := (binOf_eq_iff_clampedBin hlt hlen hx _).1 rfl
  generalize binOf xs (names input) = i at hc hplace
  cases hplace with
  | below ha hbelow =>
    refine Content.halts_below hinput hwf ha hbelow ?_
    rwa [Content.flowProgram, Binning.belowBlock, getD_programs hc]
  | above hb habove =>
    refine Content.halts_above hinput hwf hb habove ?_
    rwa [Content.flowProgram, Binning.aboveBlock, getD_programs hc]
  | inside ha hb hle hbelow => exact Content.halts_inside hinput hwf ha hb hle hbelow hc hhalts

/-- Without them it does the same, whatever the input is. -/
theorem Content.halts_search :
    Halts names (Binning.arrays (xs.map .number) ++
      Binning.search input ((Content.programs target bins).take (xs.length - 1))) h := by
  obtain ⟨⟨hlen, -, -⟩, hcount, -, -⟩ := hwf.of_numbers
  obtain ⟨hin, -⟩ := binOf_spec hlen (names input)
  have hblocks : ((Content.programs target bins).take (xs.length - 1)).length = xs.length - 1 := by
    rw [Content.programs_eq_map, List.length_take, List.length_map, Nat.min_eq_left hcount]
  have hblock : ((Content.programs target bins).take (xs.length - 1)).getD (binOf xs (names input)) [] =
      c.program target := by
    rw [List.getD_eq_getElem?_getD, List.getElem?_take_of_lt hin, ← List.getD_eq_getElem?_getD,
      getD_programs hc]
  intro σ hσ
  refine ends_arrays hinput hσ fun σ' hσ' hsees => ?_
  rw [map_value_number] at hsees
  exact Binning.ends_search hsees hlen hblocks (hblock ▸ hhalts σ' hσ')

end

/-! ## Code -/

namespace Binning

/-- The code of a binning without the lines of its guards. -/
def searchCode (input : String) (edges : List Edge) (codes : List String) : String :=
  Text.fill query input ("\n".intercalate (arrayLines edges ++ searchLines query codes))

variable {input : String} {codes : List String} {bins : List Block}

theorem searchCode_eq (edges : List Edge) (hcodes : ∀ code ∈ codes, Text.Clean code) :
    searchCode input edges codes = "\n".intercalate (arrayLines edges ++ searchLines input codes) := by
  have hsame : codes.map (Text.fill query input) = codes :=
    map_eq_self fun code hcode => Text.fill_of_clean (hcodes code hcode) input
  rw [searchCode, Text.fill_intercalate, List.map_append, map_fill_arrayLines, map_fill_searchLines,
    Text.fill_query, hsame]

/-- The code without the guards is read as the statements without them. -/
theorem statements?_searchCode (hq : Identifier input) (edges : List Edge)
    (hclean : ∀ code ∈ codes, Text.Clean code) (hlen : bins.length = codes.length) (hne : codes ≠ [])
    (hcodes : ∀ i < codes.length, Emits (codes.getD i "") (bins.getD i [])) :
    statements? (searchCode input edges codes) = some (arrays edges ++ search input bins) := by
  have hsearch := reads_searchLines hq hlen hne hcodes (follows_newline _)
  have h := reads_append_lines (reads_arrayLines edges) (by simp [arrayLines]) (by simp [searchLines])
    hsearch
  rw [List.append_nil, ← blockTokens_append] at h
  rw [searchCode_eq edges hclean]
  exact statements?_eq (tokens?_eq h)

end Binning

namespace Content
variable {target : Target} {bins : List Content} {n : Nat} {codes : List String}
  (hcodes : Binning.firstBins (compileBins target bins) n = .ok codes)

include hcodes

/-- The codes that are put into a binning are those of its bins. -/
theorem exists_of_firstBins {i : Nat} (hi : i < n) :
    ∃ c code, bins[i]? = some c ∧ codes[i]? = some code ∧ c.compile target = .ok code := by
  obtain ⟨htake, rfl⟩ := Binning.firstBins_eq_ok_iff.1 hcodes
  rw [compileBins_eq_map] at htake
  have hget := congrArg (·[i]?) htake
  simp only [List.getElem?_take_of_lt hi, List.getElem?_map, List.getElem?_eq_getElem hi,
    Option.map_some, Option.map_eq_some_iff] at hget
  obtain ⟨c, hc, hcode⟩ := hget
  exact ⟨c, _, hc, List.getElem?_eq_getElem hi, hcode⟩

/-- They have no holes, and each is made of the statements of its bin. -/
theorem emits_codes (hinputs : ∀ c ∈ bins, c.AllInputs InputName) :
    (∀ code ∈ codes, Text.Clean code) ∧ ((programs target bins).take n).length = codes.length ∧
      ∀ i < codes.length, Emits (codes.getD i "") (((programs target bins).take n).getD i []) := by
  have hclean : ∀ code, .ok code ∈ compileBins target bins → Text.Clean code :=
    forall_compileBins fun c hmem _ hcode =>
      (((hinputs c hmem).mono fun _ => InputName.clean).usedInputs.clean_written hcode).1
  obtain ⟨-, hlen, hemits⟩ := emits_firstBins (fun c hmem =>
    emits_compile ((hinputs c (List.mem_of_mem_take hmem)).mono fun _ => InputName.cleanName))
    (compileBins_eq_map target bins ▸ hcodes)
  refine ⟨fun code hcode => hclean code ?_, hlen, hemits⟩
  have hmem : Except.ok code ∈ (compileBins target bins).take n := by
    rw [(Binning.firstBins_eq_ok_iff.1 hcodes).1]
    exact List.mem_map_of_mem hcode
  exact List.mem_of_mem_take hmem

/-- If the bins have code, a clamped binning over increasing numbers has code that is put together from
theirs. -/
theorem exists_compile_clamp {xs : List Binary64} (hlen : 2 ≤ xs.length)
    (hlt : xs.Pairwise fun x y => x.lt y = true) (hn : n = xs.length - 1) (input : String) :
    ∃ text g, (Content.binning input (.ofNumbers xs) bins .clamp).compile target = .ok text ∧
      text = Text.fill query input
        ("\n".intercalate (Binning.listing query (xs.map .number) g codes)) := by
  have hlen' : 2 ≤ (xs.map Edge.number).length := by rwa [List.length_map]
  rw [hn, ← List.length_map Edge.number] at hcodes
  have hascending : Edge.ascending (xs.map .number) = .ok () := by
    simpa [Edge.ascending_eq_ok_iff, List.pairwise_map, Edge.below_iff] using hlt
  obtain ⟨g, hg⟩ := (@Binning.exists_guards_iff query target _ _ .clamp _ hlen' hcodes).2 (by rintro c ⟨⟩)
  exact ⟨_, g, Binning.assemble_eq_ok_iff.2
    ⟨_, g, codes, Edges.read_ofNumbers xs, hlen', hascending, hg, hcodes, rfl⟩, rfl⟩

end Content

/-! ## With and without the guards -/

/-- **The guards of a clamped binning change nothing.** The decision tree over the bins finds by itself the bin
that the input is clamped to. So if the bins have code, the code of the binning and what is left of it without
the lines of the guards both do what the code of that bin does. -/
theorem clamp_guards_redundant {xs : List Binary64} (hlen : 2 ≤ xs.length)
    (hlt : xs.Pairwise fun x y => x.lt y = true) :
    (∀ x ≠ .nan, ∀ i, (DecisionTree.build 0 (xs.length - 1)).choose
        (fun edge => x.lt (xs.getD edge .nan)) = i ↔ ClampedBin xs x i) ∧
    ∀ (target : Target) (input : String) (bins : List Content) (codes : List String) (names : Names),
      (Content.binning input (.ofNumbers xs) bins .clamp).AllInputs InputName → names input ≠ .nan →
      (bins.take (xs.length - 1)).map (Content.compile target) = codes.map .ok →
      codes.length = xs.length - 1 →
      ∃ text g i code h,
        (Content.binning input (.ofNumbers xs) bins .clamp).compile target = .ok text ∧
        text = Text.fill query input
          ("\n".intercalate (Binning.listing query (xs.map .number) g codes)) ∧
        ClampedBin xs (names input) i ∧ codes[i]? = some code ∧ (execute names code).Ends h ∧
        (execute names text).Ends h ∧
        (execute names (Binning.searchCode input (xs.map .number) codes)).Ends h := by
  refine ⟨fun x hx i => binOf_eq_iff_clampedBin hlt hlen hx i, ?_⟩
  intro target input bins codes names hinputs hx hbins hcount
  obtain ⟨hinput, hinputs', -⟩ := hinputs.of_binning
  have hcodes : Binning.firstBins (Content.compileBins target bins) (xs.length - 1) = .ok codes := by
    rw [Binning.firstBins_eq_ok_iff, Content.compileBins_eq_map, ← List.map_take]
    exact ⟨hbins, hcount⟩
  obtain ⟨text, g, htext, hfill⟩ := Content.exists_compile_clamp hcodes hlen hlt rfl input
  have hwf := Content.wellFormed_of_compile htext
  -- The bin that is found, and how its code ends.
  obtain ⟨hin, -⟩ := binOf_spec hlen (names input)
  obtain ⟨c, code, hc, hcode, hcompile⟩ := Content.exists_of_firstBins hcodes hin
  have hc' := hinputs' c (List.mem_of_getElem? hc)
  obtain ⟨h, hhalts, -⟩ := (Content.wellFormed_of_compile hcompile).exists_halts hc' names target
  refine ⟨text, g, _, code, h, htext, hfill, (binOf_eq_iff_clampedBin hlt hlen hx _).1 rfl, hcode,
    ends_execute hc' hcompile hhalts, ?_, ?_⟩
  · exact ends_execute hinputs htext (Content.halts_clamp hinput hwf hc hhalts hx)
  · obtain ⟨hclean, hblocks, hemits⟩ := Content.emits_codes hcodes hinputs'
    have hread := Binning.statements?_searchCode hinput.cleanName.toIdentifier (xs.map .number) hclean
      hblocks (List.length_pos_iff.1 (by omega)) hemits
    rw [execute_eq hread]
    exact Content.halts_search hinput hwf hc hhalts [] (by rintro p ⟨⟩)

/-- Above three edges, where the second bin is a binning of its own. -/
theorem clamp_guards_redundant_above :
    let number := Binary64.ofRank false
    let xs := [number 10, number 20, number 30]
    let inner := Content.binning "y" (.ofNumbers [number 1, number 2]) [.constant (number 7)] .clamp
    let bins := [.constant (number 8), inner]
    let names : Names := fun _ => number 35
    (DecisionTree.build 0 2).choose (fun edge => (number 35).lt (xs.getD edge .nan)) = 1 ∧
      ∃ text codes code h, (Content.binning "x" (.ofNumbers xs) bins .clamp).compile .c = .ok text ∧
        inner.compile .c = .ok code ∧ codes[1]? = some code ∧ (execute names code).Ends h ∧
        (execute names text).Ends h ∧
        (execute names (Binning.searchCode "x" (xs.map .number) codes)).Ends h := by
  intro number xs inner bins names
  have hlt : xs.Pairwise fun x y => x.lt y = true := by decide +kernel
  have hx : number 35 ≠ .nan := by decide +kernel
  have hinner : inner.AllInputs InputName := .binning inputName_y (by simpa using .datum _) (by rintro c ⟨⟩)
  have hinputs : (Content.binning "x" (.ofNumbers xs) bins .clamp).AllInputs InputName :=
    .binning inputName_x (by simpa [bins] using ⟨.datum _, hinner⟩) (by rintro c ⟨⟩)
  have hwf : inner.WellFormed :=
    .binning (.numbers (by decide) (by decide +kernel) (by decide +kernel)) (by decide)
      (by simpa using .constant _) (by rintro c ⟨⟩)
  obtain ⟨code, hcode⟩ := hwf.exists_compile .c
  have hcodes : (bins.take (xs.length - 1)).map (Content.compile .c) =
      [(Datum.scalar (.real (number 8))).returned, code].map .ok := by
    simp [bins, xs, hcode, Content.compile]
  obtain ⟨htree, hguards⟩ := clamp_guards_redundant (by decide : 2 ≤ xs.length) hlt
  have hfound := (htree _ hx 1).2 (.above (b := number 30) rfl (by decide +kernel))
  obtain ⟨text, g, i, code', h, htext, -, hi, hcode', hends⟩ :=
    hguards .c "x" bins _ names hinputs hx hcodes rfl
  cases hfound.symm.trans ((htree _ hx i).2 hi)
  cases hcode'
  exact ⟨hfound, text, _, code, h, htext, hcode, rfl, hends⟩

end Corrections
