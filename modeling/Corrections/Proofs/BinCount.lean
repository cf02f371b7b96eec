/-
  Binnings whose bins do not fit their edges.

  * `Content.constants`: a binning of constants between increasing numbers, with a flow that is no
    binning.
  * `compile_constants_iff`: too few bins are a missing bin and not a wrong count, and what is left
    over of too many is ignored. The count that is checked is the one of the edges themselves.
-/
import Corrections.Binary64.Reading
import Corrections.Proofs.Outcome

namespace Corrections

/-- The flow with a constant for its value. -/
def Flow.constant : Flow Binary64 → Flow Content
  | .clamp => .clamp
  | .error => .error
  | .value x => .value (.constant x)

/-- A binning of constants between numbers. -/
abbrev Content.constants (input : String) (xs vs : List Binary64) (flow : Flow Binary64) : Content :=
  .binning input (.ofNumbers xs) (vs.map .constant) flow.constant

/-- Numbers that increase are edges in order. -/
theorem Edges.exists_read_ofNumbers {xs : List Binary64} (hlen : 2 ≤ xs.length)
    (hlt : xs.Pairwise fun x y => x.lt y = true) :
    ∃ es, (Edges.ofNumbers xs).read = .ok es ∧ Edge.ascending es = .ok () ∧ es.length = xs.length := by
  obtain ⟨es, hread, hasc, -, hes⟩ :=
    Edges.wellFormed_iff.1 (.numbers hlen (Binary64.nan_notMem_of_pairwise_lt hlt hlen) hlt)
  exact ⟨es, hread, hasc, hes⟩

namespace Content
variable {target : Target} {input : String} {xs vs : List Binary64} {flow : Flow Binary64}

/-- The value of the flow has code. -/
theorem exists_of_compileFlow_constant {r : Compiled}
    (h : compileFlow target flow.constant = .value r) : ∃ code, r = .ok code := by
  cases flow with
  | clamp => cases h
  | error => cases h
  | value x =>
    cases h
    exact ⟨_, rfl⟩

/-- Nothing but a missing bin can be wrong. -/
theorem eq_missingBin_of_mem_attempts {n : Nat} {e : CompileError} (hn : 2 ≤ n)
    (h : .error e ∈ Binning.attempts n (compileBins target (vs.map .constant))
      (compileFlow target flow.constant)) : e = .missingBin := by
  rcases (Binning.mem_attempts_iff hn).1 h with ⟨i, -, hi⟩ | hflow
  · rw [binAt_compileBins, List.getElem?_map] at hi
    cases hv : vs[i]? with
    | none =>
      rw [hv] at hi
      exact Except.error.inj hi
    | some v =>
      rw [hv] at hi
      cases hi
  · obtain ⟨code, ⟨⟩⟩ := exists_of_compileFlow_constant hflow

/-- All attempts succeed exactly if there are enough bins. -/
theorem firstFault?_constants_iff {n : Nat} (hn : 2 ≤ n) :
    firstFault? (Binning.attempts n (compileBins target (vs.map .constant))
      (compileFlow target flow.constant)) = none ↔ n ≤ vs.length + 1 := by
  rw [firstFault?_eq_none_iff]
  constructor
  · intro h
    by_contra hlt
    obtain ⟨code, hcode⟩ := h _ ((Binning.mem_attempts_iff hn).2 (.inl ⟨vs.length, by omega, rfl⟩))
    rw [binAt_compileBins, List.getElem?_map, List.getElem?_eq_none (Nat.le_refl _)] at hcode
    cases hcode
  · intro hle r hr
    rcases (Binning.mem_attempts_iff hn).1 hr with ⟨i, hi, rfl⟩ | hflow
    · rw [binAt_compileBins, List.getElem?_map,
        List.getElem?_eq_getElem (show i < vs.length by omega)]
      exact ⟨_, rfl⟩
    · exact exists_of_compileFlow_constant hflow

section
variable (hlen : 2 ≤ xs.length) (hlt : xs.Pairwise fun x y => x.lt y = true)
include hlen hlt

theorem exists_compile_constants_iff :
    (∃ text, (constants input xs vs flow).compile target = .ok text) ↔ xs.length ≤ vs.length + 1 := by
  obtain ⟨es, hread, hasc, hes⟩ := Edges.exists_read_ofNumbers hlen hlt
  have hne : es ≠ [] := List.ne_nil_of_length_pos (by omega)
  rw [← hes] at hlen ⊢
  exact (Binning.exists_assemble_iff hread hne hasc).trans (firstFault?_constants_iff hlen)

theorem compile_constants_error {e : CompileError}
    (h : (constants input xs vs flow).compile target = .error e) : e = .missingBin := by
  obtain ⟨es, hread, hasc, hes⟩ := Edges.exists_read_ofNumbers hlen hlt
  have hne : es ≠ [] := List.ne_nil_of_length_pos (by omega)
  obtain ⟨before, after, heq, -⟩ :=
    firstFault?_eq_some_iff.1 ((Binning.assemble_eq_error_iff hread hne hasc).1 h)
  have hmem : .error e ∈ Binning.attempts es.length (compileBins target (vs.map .constant))
      (compileFlow target flow.constant) := by
    rw [heq]
    exact List.mem_append_right _ List.mem_cons_self
  exact eq_missingBin_of_mem_attempts (by omega) hmem

theorem compile_constants_eq_missingBin_iff :
    (constants input xs vs flow).compile target = .error .missingBin ↔ vs.length + 1 < xs.length := by
  rw [← Nat.not_le, ← exists_compile_constants_iff hlen hlt]
  cases h : (constants input xs vs flow).compile target with
  | ok text => simp
  | error e => simp [compile_constants_error hlen hlt h]

omit hlt in
/-- Bins beyond the last edge change nothing. -/
theorem compile_constants_take :
    (constants input xs (vs.take (xs.length - 1)) flow).compile target =
      (constants input xs vs flow).compile target := by
  have hsize : (Edges.ofNumbers xs).size = xs.length := by simp [Edges.ofNumbers, Edges.size]
  have h := @Binning.assemble_take input target (.ofNumbers xs)
    (compileBins target (vs.map .constant)) (compileFlow target flow.constant) (by omega)
  rw [hsize] at h
  rw [compile, compile, ← h]
  simp only [compileBins_eq_map, List.map_take]

end

end Content

/-- **How the number of bins decides.** With at least one bin for every range between neighbouring
edges there is code, the same as without the bins that are left over. With fewer bins one is
missing. A wrong count is never reported. -/
theorem compile_constants_iff (target : Target) (input : String) {xs : List Binary64}
    (vs : List Binary64) (flow : Flow Binary64) (hlen : 2 ≤ xs.length)
    (hlt : xs.Pairwise fun x y => x.lt y = true) :
    ((∃ text, (Content.constants input xs vs flow).compile target = .ok text) ↔
        xs.length ≤ vs.length + 1) ∧
      ((Content.constants input xs vs flow).compile target = .error .missingBin ↔
        vs.length + 1 < xs.length) ∧
      (∀ edges values,
        (Content.constants input xs vs flow).compile target ≠ .error (.edgeCount edges values)) ∧
      (Content.constants input xs (vs.take (xs.length - 1)) flow).compile target =
        (Content.constants input xs vs flow).compile target := by
  refine ⟨Content.exists_compile_constants_iff hlen hlt,
    Content.compile_constants_eq_missingBin_iff hlen hlt, fun edges values h => ?_,
    Content.compile_constants_take hlen⟩
  cases Content.compile_constants_error hlen hlt h

/-- Three edges with one bin, with two bins and with three. -/
theorem compile_constants_counts :
    let number := Binary64.ofRank false
    let xs := [number 10, number 20, number 30]
    2 ≤ xs.length ∧ (xs.Pairwise fun x y => x.lt y = true) ∧
      (Content.constants "x" xs [number 1] .error).compile .cuda = .error .missingBin ∧
      (∃ text, (Content.constants "x" xs [number 1, number 2] (.value (number 0))).compile .cuda =
        .ok text) ∧
      (Content.constants "x" xs [number 1, number 2] .clamp).compile .cuda =
        (Content.constants "x" xs [number 1, number 2, number 3] .clamp).compile .cuda := by
  intro number xs
  have hlen : 2 ≤ xs.length := by decide
  have hlt : xs.Pairwise fun x y => x.lt y = true := by decide +kernel
  obtain ⟨-, hfew, -⟩ := compile_constants_iff .cuda "x" [number 1] .error hlen hlt
  obtain ⟨hfit, -⟩ := compile_constants_iff .cuda "x" [number 1, number 2] (.value (number 0)) hlen hlt
  obtain ⟨-, -, -, hmany⟩ :=
    compile_constants_iff .cuda "x" [number 1, number 2, number 3] .clamp hlen hlt
  exact ⟨hlen, hlt, hfew.2 (by decide), hfit.2 (by decide), hmany⟩

/-- **A bin too many is accepted.** Two edges with two bins have code, and no wrong count is
reported. -/
theorem surplus_bin_accepted :
    ∃ one two text, Binary64.read? "1.0" = some one ∧ Binary64.read? "2.0" = some two ∧
      [.zero false, one].length ≠ [one, two].length + 1 ∧
      (Content.constants "x" [.zero false, one] [one, two] .clamp).compile .c = .ok text ∧
      ∀ edges values, (Content.constants "x" [.zero false, one] [one, two] .clamp).compile .c ≠
        .error (.edgeCount edges values) := by
  obtain ⟨text, htext⟩ := (@Content.exists_compile_constants_iff .c "x"
    [.zero false, .ofRank false (1023 * 2 ^ 52)]
    [.ofRank false (1023 * 2 ^ 52), .ofRank false (1024 * 2 ^ 52)] .clamp (by decide)
    (by decide +kernel)).2 (by decide)
  refine ⟨_, _, text, by decide +kernel, by decide +kernel, by decide, htext, fun edges values h => ?_⟩
  rw [htext] at h
  cases h

end Corrections
