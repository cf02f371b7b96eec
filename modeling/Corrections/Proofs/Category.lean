/-
  Categories in generated code.

  * `Content.skeleton` leaves out what the categories of a content say: their inputs, their items and
    their fallbacks.
  * `compile_eq_of_skeleton_eq`: nothing of that reaches the code, and every category gives 42.
  * `category_values_conflated`: so two categories with different values can have the same code.
-/
import Corrections.Proofs.Safety

namespace Corrections

open Code

mutual

/-- The content with empty categories. -/
def Content.skeleton : Content → Content
  | .datum d => .datum d
  | .binning input edges bins flow =>
    .binning input edges (Content.skeletons bins) (Content.flowSkeleton flow)
  | .category _ _ _ => .category "" [] none
  | .unsupported kind => .unsupported kind

def Content.skeletons : List Content → List Content
  | [] => []
  | c :: rest => c.skeleton :: Content.skeletons rest

def Content.flowSkeleton : Flow Content → Flow Content
  | .clamp => .clamp
  | .error => .error
  | .value c => .value c.skeleton

end

namespace Content
variable {target : Target}

theorem compileBins_skeletons {bins : List Content}
    (h : ∀ c ∈ bins, c.skeleton.compile target = c.compile target) :
    compileBins target (skeletons bins) = compileBins target bins := by
  induction bins with
  | nil => rfl
  | cons c rest ih =>
    rw [List.forall_mem_cons] at h
    rw [skeletons, compileBins, compileBins, h.1, ih h.2]

theorem compileFlow_flowSkeleton {flow : Flow Content}
    (h : ∀ c, flow = .value c → c.skeleton.compile target = c.compile target) :
    compileFlow target (flowSkeleton flow) = compileFlow target flow := by
  cases flow with
  | clamp => rfl
  | error => rfl
  | value c => rw [flowSkeleton, compileFlow, compileFlow, h c rfl]

/-- **The code of a content is that of its skeleton.** -/
theorem compile_skeleton (target : Target) (c : Content) :
    c.skeleton.compile target = c.compile target := by
  induction c using Content.induction with
  | constant x => rfl
  | datum d hd => rw [skeleton]
  | binning input edges bins flow ihbins ihflow =>
    rw [skeleton, compile, compile, compileBins_skeletons ihbins, compileFlow_flowSkeleton ihflow]
  | category input items fallback => rfl
  | unsupported kind => rfl

end Content

/-- The code of a category returns 42, whatever its items are. -/
theorem execute_category (target : Target) (input : String) (items : List (CategoryItem Content))
    (fallback : Option Content) (names : Names) :
    ∃ text, (Content.category input items fallback).compile target = .ok text ∧
      (execute names text).result = .error (.returned categoryValue) := by
  have hinputs : (Content.category input items fallback).AllInputs InputName := .category
  have htext : (Content.category input items fallback).compile target = .ok categoryCode := rfl
  exact ⟨categoryCode, htext, (ends_execute hinputs htext (halts_category names)).result⟩

/-- **What a category says does not reach the code.** Contents that differ only in their categories, at
any depth, have the same code, and every category gives 42. -/
theorem compile_eq_of_skeleton_eq {c c' : Content} (h : c.skeleton = c'.skeleton) (target : Target) :
    c.compile target = c'.compile target ∧
      ∀ (input : String) (items : List (CategoryItem Content)) (fallback : Option Content)
        (names : Names), ∃ text, (Content.category input items fallback).compile target = .ok text ∧
          (execute names text).result = .error (.returned categoryValue) := by
  refine ⟨?_, execute_category target⟩
  rw [← Content.compile_skeleton, h, Content.compile_skeleton]

/-- The category of `k` with two keys and the given values for them. -/
def Content.twoKeys (first second : Binary64) : Content :=
  .category "k" [⟨.scalar (.str "a"), .constant first⟩, ⟨.scalar (.str "b"), .constant second⟩] none

/-- Two binnings whose bins are categories with other values have one code. -/
theorem compile_binned_categories :
    let number := Binary64.ofRank false
    let binned := fun c => Content.binning "x" (.ofNumbers [number 10, number 20]) [c] .clamp
    (binned (.twoKeys (number 1) (number 2))).skeleton =
        (binned (.twoKeys (number 3) (number 4))).skeleton ∧
      (binned (.twoKeys (number 1) (number 2))).compile .cuda =
        (binned (.twoKeys (number 3) (number 4))).compile .cuda := by
  intro number binned
  have h : (binned (.twoKeys (number 1) (number 2))).skeleton =
      (binned (.twoKeys (number 3) (number 4))).skeleton := rfl
  exact ⟨h, (compile_eq_of_skeleton_eq h .cuda).1⟩

/-- **The values of a category are lost.** Two categories with the same input and the same keys, one
with the values 1 and 2, the other with 1 and 3, have the same code. -/
theorem category_values_conflated :
    ∃ one two three text, Binary64.read? "1.0" = some one ∧ Binary64.read? "2.0" = some two ∧
      Binary64.read? "3.0" = some three ∧ [one, two] ≠ [one, three] ∧
      (Content.twoKeys one two).compile .c = .ok text ∧
      (Content.twoKeys one three).compile .c = .ok text := by
  refine ⟨.ofDecimal false 1 0, .ofDecimal false 2 0, .ofDecimal false 3 0, categoryCode,
    by decide +kernel, by decide +kernel, by decide +kernel, by decide +kernel, rfl, rfl⟩

end Corrections
