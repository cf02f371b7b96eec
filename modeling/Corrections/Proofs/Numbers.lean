/-
  The numbers in generated code.

  * `numbers b` are the elements of the arrays in a block and the numbers that it returns.
  * `Content.Finite`: in what is compiled every number is finite, and no edge is the name of an infinity.
  * `Content.WellFormed.forall_numbers_iff`: the numbers of a content are numerals of the language exactly if
    the content is finite.
  * `compile_numerals_iff`: the same for its code. The names of the inputs do not matter, as long as they are
    names in the code as well (`input_returns_word`).
-/
import Corrections.Proofs.Acceptance
import Corrections.Proofs.Code.Floating
import Corrections.Proofs.Emission

namespace Corrections

namespace Code

mutual

def Statement.numbers : Statement → List Literal
  | .array _ _ values => values
  | .ifThen _ yes => Code.numbers yes
  | .ifElse _ yes no => Code.numbers yes ++ Code.numbers no
  | .return_ l => [l]
  | .call _ | .empty => []

/-- The elements of all arrays, and the operands of all `return`s. -/
def numbers : List Statement → List Literal
  | [] => []
  | s :: rest => s.numbers ++ numbers rest

end

theorem numbers_append (a b : List Statement) : numbers (a ++ b) = numbers a ++ numbers b := by
  induction a with
  | nil => rfl
  | cons s a ih => simp [numbers, ih]

end Code

open Code DecisionTree

/-! ## Statements -/

theorem numbers_closed (b : Block) : numbers (closed b) = numbers b :=
  collect_closed numbers_append rfl b

theorem numbers_ifElse (c : Condition) (yes no : Block) :
    numbers [.ifElse c yes no] = numbers yes ++ numbers no :=
  List.append_nil _

section
variable {P : Literal → Prop}

/-- The numbers of a binning are those of its two arrays and those of its parts. -/
theorem Binning.forall_numbers_program {q : String} {edges : List Edge} {below above : Block}
    {bins : List Block} (hne : bins ≠ []) :
    (∀ l ∈ numbers (program q edges below above bins), P l) ↔
      (∀ e ∈ edges, P e.literal) ∧ (∀ bin < edges.length - 1, P (binLiteral bin)) ∧
        (∀ l ∈ numbers below, P l) ∧ (∀ l ∈ numbers above, P l) ∧
          ∀ b ∈ bins, ∀ l ∈ numbers b, P l := by
  have hnumbers : numbers (program q edges below above bins) =
      edges.map Edge.literal ++ ((List.range (edges.length - 1)).map binLiteral ++
        (numbers below ++ (numbers above ++ numbers (search q bins)))) := by
    simp [program, arrays, guardBranches, numbers, Statement.numbers, numbers_closed]
  have hsearch : (∀ l ∈ numbers (search q bins), P l) ↔ ∀ b ∈ bins, ∀ l ∈ numbers b, P l := by
    refine @search_iff (fun b => ∀ l ∈ numbers b, P l) (fun b => ?_) (fun c yes no => ?_) q bins hne
    · rw [numbers_closed]
    · rw [numbers_ifElse, List.forall_mem_append]
  rw [hnumbers, List.forall_mem_append, List.forall_mem_append, List.forall_mem_append,
    List.forall_mem_append, hsearch, List.forall_mem_map, List.forall_mem_map]
  simp only [List.mem_range]

end

/-! ## Literals -/

theorem numeral_ofNumber_iff {suffix : String} (hsuffix : suffix = "" ∨ suffix = "f") (x : Binary64) :
    Numeral (Literal.ofNumber suffix x).text ↔ x.isFinite = true := by
  rw [Literal.text_ofNumber, numeral_text_iff hsuffix]

theorem numeral_binLiteral (bin : Nat) : Numeral (binLiteral bin).text := by
  have htext : (binLiteral bin).text = String.ofList (Nat.toDigits 10 bin ++ ['.', '0']) ++ "f" := by
    rw [← String.toList_inj]
    simp [Literal.text, binLiteral, Atom.text, toString]
  rw [htext]
  exact .unsigned (.floating (floating_point (.inr rfl) Nat.toDigits_ne_nil
    (fun c => Binary64.isDigit_toDigits) (List.forall_mem_singleton.2 rfl)))

theorem numeral_categoryLiteral : Numeral categoryLiteral.text := by
  have htext : categoryLiteral.text = String.ofList (['4', '2'] ++ ['.']) ++ "f" := by decide
  rw [htext]
  exact .unsigned (.floating (floating_point (.inr rfl) (List.cons_ne_nil _ _)
    (List.forall_mem_cons.2 ⟨rfl, List.forall_mem_singleton.2 rfl⟩) (by rintro c ⟨⟩)))

/-- The name of an infinity is not one of the language. -/
theorem not_numeral_highest : ¬Numeral Edge.highest.literal.text := by
  have hname : isName "MAX_FLOAT" = true := by decide
  have hne : "MAX_FLOAT" ≠ "FLT_MAX" := by decide
  exact fun h => hne ((magnitude_iff_of_isName hname).1 ((numeral_signed_iff false (.inr hname)).1 h))

/-- Edges that compile are written as numerals exactly if they are finite numbers. -/
theorem Edges.WellFormed.forall_numeral_iff {edges : Edges} {n : Nat} (h : edges.WellFormed n)
    {es : List Edge} (hread : edges.read = .ok es) :
    (∀ e ∈ es, Numeral e.literal.text) ↔
      ∃ xs, edges = .ofNumbers xs ∧ ∀ x ∈ xs, x.isFinite = true := by
  constructor
  · intro hall
    rcases h with ⟨-, -, -⟩ | ⟨hs⟩
    · next xs =>
      rw [Edges.read_ofNumbers] at hread
      cases hread
      rw [List.forall_mem_map] at hall
      exact ⟨xs, rfl, fun x hx => (numeral_ofNumber_iff (.inr rfl) x).1 (hall x hx)⟩
    · have hes : es = [.lowest, .highest] := by
        rcases hs with rfl | rfl <;> (cases hread; rfl)
      exact absurd (hall .highest (by simp [hes])) not_numeral_highest
  · rintro ⟨xs, rfl, hfinite⟩
    rw [Edges.read_ofNumbers] at hread
    cases hread
    rw [List.forall_mem_map]
    exact fun x hx => (numeral_ofNumber_iff (.inr rfl) x).2 (hfinite x hx)

/-! ## Contents -/

/-- Every number in what is compiled is finite. -/
inductive Content.Finite : Content → Prop
  | constant {x : Binary64} (hx : x.isFinite = true) : Finite (.constant x)
  | category (input : String) (items : List (CategoryItem Content)) (fallback : Option Content) :
      Finite (.category input items fallback)
  | binning {input : String} {xs : List Binary64} {bins : List Content} {flow : Flow Content}
      (hedges : ∀ x ∈ xs, x.isFinite = true) (hbins : ∀ c ∈ bins.take (xs.length - 1), Finite c)
      (hflow : ∀ c, flow = .value c → Finite c) :
      Finite (.binning input (.ofNumbers xs) bins flow)

theorem Content.finite_binning_iff {input : String} {edges : Edges} {bins : List Content}
    {flow : Flow Content} :
    (Content.binning input edges bins flow).Finite ↔
      (∃ xs, edges = .ofNumbers xs ∧ ∀ x ∈ xs, x.isFinite = true) ∧
        (∀ c ∈ bins.take (edges.size - 1), c.Finite) ∧ ∀ c, flow = .value c → c.Finite := by
  have hsize : ∀ xs, (Edges.ofNumbers xs).size = xs.length := fun xs => List.length_map _
  constructor
  · rintro (_ | _ | ⟨hedges, hbins, hflow⟩)
    exact ⟨⟨_, rfl, hedges⟩, by rwa [hsize], hflow⟩
  · rintro ⟨⟨xs, rfl, hedges⟩, hbins, hflow⟩
    rw [hsize] at hbins
    exact .binning hedges hbins hflow

theorem Content.finite_renamed_iff (f : String → String) (c : Content) :
    (c.renamed f).Finite ↔ c.Finite := by
  induction c using Content.induction with
  | constant x => exact Iff.rfl
  | datum d hd => exact Iff.rfl
  | binning input edges bins flow ihbins ihflow =>
    rw [renamed_binning_eq, finite_binning_iff, finite_binning_iff, forall_take_renamed,
      forall_value_renamed]
    refine and_congr_right fun _ => and_congr (forall₂_congr fun c hc => ?_) (forall₂_congr ihflow)
    exact ihbins c (List.mem_of_mem_take hc)
  | category input items fallback => exact Iff.rfl
  | unsupported kind => exact Iff.rfl

/-- **The numbers of a content.** They are numerals exactly if the content is finite. -/
theorem Content.WellFormed.forall_numbers_iff {c : Content} (hc : c.WellFormed) (target : Target) :
    (∀ l ∈ numbers (c.program target), Numeral l.text) ↔ c.Finite := by
  induction hc with
  | constant x =>
    have hnumbers : numbers ((Content.constant x).program target) = [.ofNumber "" x] := rfl
    rw [hnumbers, List.forall_mem_singleton, numeral_ofNumber_iff (.inl rfl)]
    exact ⟨.constant, fun h => by cases h; assumption⟩
  | category input items fallback =>
    exact iff_of_true (List.forall_mem_singleton.2 numeral_categoryLiteral) (.category _ _ _)
  | @binning input edges bins flow n hedges hlen hbins hflow ihbins ihflow =>
    obtain ⟨es, hread, -, hes, rfl⟩ := Edges.wellFormed_iff.1 hedges
    have hne := Content.take_programs_ne_nil target hes hlen
    have hfailure : ∀ l ∈ numbers (Binning.failure input target), Numeral l.text := by
      rintro l ⟨⟩
    rw [Content.program_binning hread, Binning.forall_numbers_program hne,
      hedges.forall_numeral_iff hread, Content.finite_binning_iff, Edges.size_of_read hread,
      Content.forall_parts_iff (P := fun b => ∀ l ∈ numbers b, Numeral l.text) input flow hfailure
        hes hlen]
    refine and_congr_right fun _ => (and_iff_right fun bin _ => numeral_binLiteral bin).trans ?_
    exact and_congr (forall₂_congr ihbins) (forall₂_congr ihflow)

/-- **When the numbers in generated code are constants.** The code of a content is read as statements in which
the elements of the arrays and the operands of `return` are all numerals of the language, exactly if all
numbers in what is compiled are finite. The statements are those of the content if no input has a hole, and
otherwise those of its printed form. -/
theorem compile_numerals_iff {target : Target} {c : Content} {text : String}
    (h : c.compile target = .ok text) :
    ((∀ l ∈ numbers (c.program target), Numeral l.text) ↔ c.Finite) ∧
      (c.AllInputs CleanName → statements? text = some (c.program target)) ∧
      (c.printed.UsedInputs Identifier → ∃ b, statements? text = some b ∧
        ((∀ l ∈ numbers b, Numeral l.text) ↔ c.Finite)) := by
  have hwf := Content.wellFormed_of_compile h
  have hwf' := (Content.printed_iff Content.wellFormed_renamed_iff c).2 hwf
  refine ⟨hwf.forall_numbers_iff target, fun hc => statements?_compile hc h, fun hc => ?_⟩
  refine ⟨_, statements?_printed hc h, ?_⟩
  rw [hwf'.forall_numbers_iff target]
  exact Content.printed_iff Content.finite_renamed_iff c

/-- The least and the greatest of the finite numbers, a number with an exponent and a negative zero. -/
theorem compile_extreme_numerals :
    let number := Binary64.ofRank false
    let greatest := Binary64.ofRank true (Binary64.finiteRanks - 1)
    let inner := Content.binning "y" (.ofNumbers [.zero true, number 1])
      [.constant (number (Binary64.finiteRanks - 1))] .error
    let outer := Content.binning "x" (.ofNumbers [greatest, number 1, number (1100 * 2 ^ 52)])
      [.constant (.zero true), inner] (.value (.category "k" [] none))
    outer.Finite ∧ outer.AllInputs CleanName ∧ ∃ text, outer.compile .cuda = .ok text ∧
      statements? text = some (outer.program .cuda) ∧
      (number 1).text = "5e-324" ∧ greatest.text = "-1.7976931348623157e+308" ∧
      ∀ l ∈ numbers (outer.program .cuda), Numeral l.text := by
  intro number greatest inner outer
  have hinner : inner.Finite := by
    refine .binning ?_ ?_ (by rintro c ⟨⟩)
    · decide +kernel
    · simpa using .constant (by decide +kernel)
  have hfinite : outer.Finite := by
    refine .binning (by decide +kernel) ?_ ?_
    · simpa using ⟨.constant rfl, hinner⟩
    · rintro c ⟨⟩
      exact .category _ _ _
  have hinputs : outer.AllInputs CleanName := by
    have hi : inner.AllInputs CleanName :=
      .binning inputName_y.cleanName (by simpa using .datum _) (by rintro c ⟨⟩)
    exact .binning inputName_x.cleanName (by simpa using ⟨.datum _, hi⟩) (by rintro c ⟨⟩; exact .category)
  have hwf : outer.WellFormed := by
    have hi : inner.WellFormed :=
      .binning (.numbers (by decide) (by decide +kernel) (by decide +kernel)) (by decide)
        (by simpa using .constant _) (by rintro c ⟨⟩)
    exact .binning (.numbers (by decide) (by decide +kernel) (by decide +kernel)) (by decide)
      (by simpa using ⟨.constant _, hi⟩) (by rintro c ⟨⟩; exact .category _ _ _)
  obtain ⟨text, htext⟩ := hwf.exists_compile .cuda
  obtain ⟨hiff, hread, -⟩ := compile_numerals_iff htext
  exact ⟨hfinite, hinputs, text, htext, hread hinputs, by decide +kernel, by decide +kernel, hiff.2 hfinite⟩

/-- **An infinite edge is no constant.** It is written as a word, where the language has a name for the
greatest number. -/
theorem infinite_edge_word :
    ∃ one, Binary64.read? "1.0" = some one ∧
      let c := Content.binning "x" (.ofNumbers [.zero false, .infinity false]) [.constant one] .clamp
      ∃ text b, c.compile .c = .ok text ∧ statements? text = some b ∧
        ∃ l ∈ numbers b, l.text = "inff" ∧ ¬Numeral l.text := by
  refine ⟨.ofRank false (1023 * 2 ^ 52), by decide +kernel, ?_⟩
  intro c
  have hwf : c.WellFormed :=
    .binning (.numbers (by decide) (by decide +kernel) (by decide +kernel)) (by decide)
      (by simpa using .constant _) (by rintro c ⟨⟩)
  have hinputs : c.AllInputs CleanName :=
    .binning inputName_x.cleanName (by simpa using .datum _) (by rintro c ⟨⟩)
  obtain ⟨text, htext⟩ := hwf.exists_compile .c
  refine ⟨text, _, htext, statements?_compile hinputs htext, .ofNumber "f" (.infinity false), ?_,
    by decide, ?_⟩
  · rw [Content.program_binning (Edges.read_ofNumbers _), Binning.program, List.append_assoc, numbers_append]
    refine List.mem_append_left _ ?_
    simp [Binning.arrays, numbers, Statement.numbers, Edge.literal]
  · rw [numeral_ofNumber_iff (.inr rfl)]
    exact Bool.false_ne_true

/-- The end of one condition, a `return` and the beginning of another condition. -/
def returningInput : String := "x < 0) \x7b return inf; \x7d if (x"

/-- What the guards of a binning over this input are, with the return of a word before each of them. -/
def returningGuards : Block :=
  let returned : Statement :=
    .ifThen ⟨⟨"x", .less, .literal ⟨false, .number "0"⟩⟩, []⟩ [.return_ (.ofNumber "" (.infinity false))]
  let zero : Block := [.return_ ⟨false, .number "0.0"⟩]
  [returned, .ifThen (edgeCondition "x" .less 0) zero, returned, .ifThen (edgeCondition "x" .atLeast 1) zero]

theorem reads_returningGuards :
    Reads ("\n".intercalate (Binning.guardLines returningInput 2 ⟨"return 0.0", "return 0.0"⟩) ++ "\n")
      (blockTokens returningGuards) := by
  simp only [Binning.guardLines, edgeAt, returningInput, String.intercalate_cons_cons,
    String.intercalate_singleton, Reads, String.toList_append]
  decide +kernel

theorem reads_returningInput_search :
    Reads ("\n".intercalate (Binning.searchLines returningInput ["return 0.0"]) ++ "\n")
      (blockTokens [.return_ ⟨false, .number "0.0"⟩]) := by
  have hbuild : build 0 ["return 0.0"].length = .leaf 0 := build_of_le (Nat.le_refl 1)
  simp only [Binning.searchLines, hbuild, entries, binLine, edgeAt, returningInput, List.map_cons,
    List.map_nil, List.cons_append, List.nil_append, String.intercalate_cons_cons,
    String.intercalate_singleton, Reads, String.toList_append]
  decide +kernel

/-- **An input that is no name can return a word**, though all numbers are finite. -/
theorem input_returns_word :
    let c := Content.binning returningInput
      (.ofNumbers [.zero false, .ofRank false (1023 * 2 ^ 52)]) [.constant (.zero false)] .clamp
    c.Finite ∧ ∃ text b, c.compile .c = .ok text ∧ statements? text = some b ∧
      ∃ l ∈ numbers b, l.text = "inf" ∧ ¬Numeral l.text := by
  intro c
  have hfinite : c.Finite :=
    .binning (by decide +kernel) (by simpa using .constant rfl) (by rintro c ⟨⟩)
  have hcode : (Datum.scalar (.real (.zero false))).returned = "return 0.0" := by decide +kernel
  have hcompile : c.compile .c = .ok ("\n".intercalate (Binning.listing returningInput
      ([.zero false, .ofRank false (1023 * 2 ^ 52)].map .number) ⟨"return 0.0", "return 0.0"⟩
      ["return 0.0"])) := by
    rw [c.compile_eq_written]
    exact Binning.template_eq_ok_iff.2 ⟨_, _, _, Edges.read_ofNumbers _, by decide, by decide +kernel,
      rfl, rfl, by rw [← hcode]; rfl⟩
  have harrays := Binning.reads_arrayLines ([.zero false, .ofRank false (1023 * 2 ^ 52)].map .number)
  have hread := reads_append_lines (reads_append_lines harrays (by simp [Binning.arrayLines])
    (by simp [Binning.guardLines]) reads_returningGuards) (by simp [Binning.arrayLines])
    (by simp [Binning.searchLines]) reads_returningInput_search
  rw [← blockTokens_append, ← blockTokens_append] at hread
  refine ⟨hfinite, _, _, hcompile, statements?_eq (tokens?_eq hread), .ofNumber "" (.infinity false), ?_,
    by decide, ?_⟩
  · simp [returningGuards, numbers_append, numbers, Statement.numbers]
  · rw [numeral_ofNumber_iff (.inl rfl)]
    exact Bool.false_ne_true

end Corrections
