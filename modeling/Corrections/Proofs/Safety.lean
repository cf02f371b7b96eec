/-
  Generated code always ends.

  * `Content.WellFormed.exists_halts`: the statements of a content end in a `return` or in the call that
    stops the program.
  * `execute_compile_safe`: so does its code, and it looks only at elements of arrays that are there.
-/
import Corrections.Proofs.Acceptance
import Corrections.Proofs.Selection

namespace Corrections

open Code DecisionTree

/-- The ends that generated code is made for. -/
def Target.Ending (target : Target) (h : Halt) : Prop :=
  (∃ x, h = .returned x) ∨ h = .stopped target.failCall

theorem Target.stops_failCall (target : Target) : target.failCall.stops = true := by
  cases target <;> decide

theorem Binning.halts_failure (names : Names) (q : String) (target : Target) :
    Halts names (Binning.failure q target) (.stopped target.failCall) := by
  intro σ _
  have hprint : ((Statement.call ⟨"fprintf", [.literal ⟨false, .name "stderr"⟩,
      .text ("ERROR: " ++ q ++ " is out of bounds.\\n")]⟩).exec names σ).Gives σ := by
    refine ⟨?_, rfl⟩
    have hevents : ((Statement.call ⟨"fprintf", [.literal ⟨false, .name "stderr"⟩,
      .text ("ERROR: " ++ q ++ " is out of bounds.\\n")]⟩).exec names σ).events =
        [.print ("ERROR: " ++ q ++ " is out of bounds.\\n")] := rfl
    intro access haccess
    rw [hevents] at haccess
    simp at haccess
  exact ends_cons_of_gives hprint (ends_cons (ends_call target.stops_failCall))

/-- The number that every category gives. -/
def categoryValue : Binary64 := .ofDecimal false 42 0

theorem constant?_category : constant? "42.f" = some categoryValue := by decide +kernel

theorem halts_category (names : Names) :
    Halts names [.return_ categoryLiteral] (.returned categoryValue) := by
  have hvalue : ∀ x, constant? "42.f" = some x → categoryLiteral.value? names = some x := by
    intro x hx
    rw [categoryLiteral, Literal.value?, Atom.value?, hx]
    rfl
  exact halts_return (hvalue _ constant?_category)

/-- A binning ends in one of the ways that its parts end in. -/
theorem Content.exists_halts_binning {names : Names} {target : Target} {input : String}
    (hq : InputName input) {edges : Edges} {es : List Edge} (hread : edges.read = .ok es)
    (hlen : 2 ≤ es.length) {bins : List Content} (hcount : es.length - 1 ≤ bins.length)
    {flow : Flow Content} {P : Halt → Prop}
    (hbelow : ∃ h, Halts names (Binning.belowBlock input target (Content.programs target bins)
      (Content.flowProgram target flow)) h ∧ P h)
    (habove : ∃ h, Halts names (Binning.aboveBlock es.length (Content.programs target bins)
      (Content.flowProgram target flow)) h ∧ P h)
    (hbin : ∀ i c, i < es.length - 1 → bins[i]? = some c →
      ∃ h, Halts names (c.program target) h ∧ P h) :
    ∃ h, Halts names ((Content.binning input edges bins flow).program target) h ∧ P h := by
  cases hlt : (names input).lt ((es.map (Edge.value names)).getD 0 .nan) with
  | true =>
    obtain ⟨h, hhalts, hP⟩ := hbelow
    exact ⟨h, Content.halts_binning_below hq hread hlen rfl hlt hhalts, hP⟩
  | false =>
    cases hle : ((es.map (Edge.value names)).getD ((es.map (Edge.value names)).length - 1) .nan).le
        (names input) with
    | true =>
      obtain ⟨h, hhalts, hP⟩ := habove
      exact ⟨h, Content.halts_binning_above hq hread hlen rfl hlt hle hhalts, hP⟩
    | false =>
      have hxlen : (es.map (Edge.value names)).length = es.length := List.length_map _
      obtain ⟨hin, -⟩ := binOf_spec (hxlen ▸ hlen) (names input)
      rw [hxlen] at hin
      have hc := List.getElem?_eq_getElem (Nat.lt_of_lt_of_le hin hcount)
      obtain ⟨h, hhalts, hP⟩ := hbin _ _ hin hc
      exact ⟨h, Content.halts_binning_inside hq hread hlen rfl hcount hlt hle hc hhalts, hP⟩

/-- **The statements of a well-formed content end** in a `return` or in a failure. -/
theorem Content.WellFormed.exists_halts {c : Content} (hwf : c.WellFormed)
    (hinputs : c.AllInputs InputName) (names : Names) (target : Target) :
    ∃ h, Halts names (c.program target) h ∧ target.Ending h := by
  induction hwf with
  | constant x => exact ⟨_, halts_constant names target x, .inl ⟨x, rfl⟩⟩
  | category input items fallback => exact ⟨_, halts_category names, .inl ⟨_, rfl⟩⟩
  | @binning input edges bins flow n hedges hcount _ _ ihbins ihflow =>
    obtain ⟨es, hread, -, hlen, rfl⟩ := Edges.wellFormed_iff.1 hedges
    obtain ⟨hinput, hbins, hflow⟩ := hinputs.of_binning
    have hbin : ∀ i c, i < es.length - 1 → bins[i]? = some c →
        ∃ h, Halts names (c.program target) h ∧ target.Ending h := by
      intro i c hi hc
      have hmem : c ∈ bins.take (es.length - 1) :=
        List.mem_of_getElem? (by rw [List.getElem?_take, if_pos hi, hc])
      exact ihbins c hmem (hbins c (List.mem_of_mem_take hmem))
    have hblock : ∀ i, i < es.length - 1 →
        ∃ h, Halts names ((Content.programs target bins).getD i []) h ∧ target.Ending h := by
      intro i hi
      have hc : bins[i]? = some bins[i] := List.getElem?_eq_getElem (by omega)
      rw [getD_programs hc]
      exact hbin i _ hi hc
    refine Content.exists_halts_binning hinput hread hlen hcount ?_ ?_ hbin
    · cases flow with
      | clamp => exact hblock 0 (by omega)
      | error => exact ⟨_, Binning.halts_failure names input target, .inr rfl⟩
      | value c => exact ihflow c rfl (hflow c rfl)
    · cases flow with
      | clamp => exact hblock (es.length - 2) (by omega)
      | error => exact hblock (es.length - 2) (by omega)
      | value c => exact ihflow c rfl (hflow c rfl)

/-- **Generated code always ends,** in a `return` or in the call that stops the program, and looks only
at elements that are there, in arrays of which every element was given. -/
theorem execute_compile_safe {target : Target} {c : Content} {text : String} {names : Names}
    (hinputs : c.AllInputs InputName) (htext : c.compile target = .ok text) :
    ((∃ x, (execute names text).result = .error (.returned x)) ∨
        (execute names text).result = .error (.stopped target.failCall)) ∧
      ∀ a, .read a ∈ (execute names text).events → a.index < a.size ∧ a.initialisers = a.size := by
  have hwf := Content.wellFormed_of_compile htext
  obtain ⟨h, hhalts, hending⟩ := hwf.exists_halts hinputs names target
  have hends := ends_execute hinputs htext hhalts
  refine ⟨?_, hends.safe⟩
  rcases hending with ⟨x, rfl⟩ | rfl
  · exact .inl ⟨x, hends.result⟩
  · exact .inr hends.result

/-- Every input is a NaN, and one pair of edges is infinite. -/
theorem execute_nan_safe :
    let number := Binary64.ofRank false
    let inner := Content.binning "y" (.listed [.scalar (.str "-inf"), .scalar (.str "inf")])
      [.category "k" [] none] .clamp
    let outer := Content.binning "x" (.ofNumbers [number 10, number 20, number 30])
      [.constant (number 8), inner] .error
    let names : Names := fun _ => .nan
    outer.AllInputs InputName ∧ ∃ text, outer.compile .cuda = .ok text ∧
      ((∃ x, (execute names text).result = .error (.returned x)) ∨
          (execute names text).result = .error (.stopped Target.cuda.failCall)) ∧
        ∀ a, .read a ∈ (execute names text).events → a.index < a.size ∧ a.initialisers = a.size := by
  intro number inner outer names
  have hinner : inner.AllInputs InputName :=
    .binning inputName_y (by simpa using .category) (by rintro c ⟨⟩)
  have houter : outer.AllInputs InputName :=
    .binning inputName_x (by simpa using ⟨.datum _, hinner⟩) (by rintro c ⟨⟩)
  have hwf : outer.WellFormed := by
    have hi : inner.WellFormed := .binning (.infinities (.inl rfl)) (by decide)
      (by simpa using .category _ _ _) (by rintro c ⟨⟩)
    exact .binning (.numbers (by decide) (by decide +kernel) (by decide +kernel)) (by decide)
      (by simpa using ⟨.constant _, hi⟩) (by rintro c ⟨⟩)
  obtain ⟨text, htext⟩ := hwf.exists_compile .cuda
  exact ⟨houter, text, htext, execute_compile_safe houter htext⟩

end Corrections
