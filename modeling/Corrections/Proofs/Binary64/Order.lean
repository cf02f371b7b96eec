/-
  The order of double-precision numbers.

  * `le` is the other comparison. A NaN is in no relation to anything, so `le_of_lt_eq_false` is about
    numbers that are no NaNs.
  * `getD_le_getD`: the elements of an increasing list, in terms of their places.
-/
import Corrections.Binary64.Basic
import Mathlib.Data.List.GetD
import Mathlib.Tactic.Common

namespace Corrections.Binary64

/-- `x` is not above `y`. -/
def le (x y : Binary64) : Bool :=
  match x.position?, y.position? with
  | some i, some j => decide (i ≤ j)
  | _, _ => false

variable {x y z : Binary64}

theorem le_iff : x.le y = true ↔ ∃ i j, x.position? = some i ∧ y.position? = some j ∧ i ≤ j := by
  unfold le
  split
  next i j hx hy => simp [hx, hy]
  next h =>
    constructor
    · simp
    · rintro ⟨i, j, hx, hy, -⟩
      exact absurd hy (h i j hx)

theorem exists_position? (h : x ≠ nan) : ∃ i, x.position? = some i := by
  cases x with
  | nan => exact absurd rfl h
  | infinity negative => exact ⟨_, rfl⟩
  | finite negative rank => exact ⟨_, rfl⟩

theorem le_refl (h : x ≠ nan) : x.le x = true := by
  obtain ⟨i, hi⟩ := exists_position? h
  exact le_iff.2 ⟨i, i, hi, hi, Int.le_refl i⟩

theorem le_of_lt (h : x.lt y = true) : x.le y = true := by
  obtain ⟨i, j, hi, hj, hij⟩ := lt_iff.1 h
  exact le_iff.2 ⟨i, j, hi, hj, Int.le_of_lt hij⟩

theorem lt_of_lt_of_le (hxy : x.lt y = true) (hyz : y.le z = true) : x.lt z = true := by
  obtain ⟨i, j, hi, hj, hij⟩ := lt_iff.1 hxy
  obtain ⟨j', k, hj', hk, hjk⟩ := le_iff.1 hyz
  cases hj.symm.trans hj'
  exact lt_iff.2 ⟨i, k, hi, hk, Int.lt_of_lt_of_le hij hjk⟩

/-- The two comparisons exclude each other. -/
theorem lt_eq_false_of_le (h : y.le x = true) : x.lt y = false := by
  by_contra hlt
  obtain ⟨j, i, hj, hi, hji⟩ := le_iff.1 h
  obtain ⟨i', j', hi', hj', hij⟩ := lt_iff.1 (by simpa using hlt)
  cases hi.symm.trans hi'
  cases hj.symm.trans hj'
  omega

/-- One of the two comparisons holds. -/
theorem le_of_lt_eq_false (hx : x ≠ nan) (hy : y ≠ nan) (h : x.lt y = false) : y.le x = true := by
  obtain ⟨i, hi⟩ := exists_position? hx
  obtain ⟨j, hj⟩ := exists_position? hy
  refine le_iff.2 ⟨j, i, hj, hi, ?_⟩
  by_contra hij
  rw [lt_iff.2 ⟨i, j, hi, hj, by omega⟩] at h
  cases h

theorem lt_of_le_eq_false (hx : x ≠ nan) (hy : y ≠ nan) (h : y.le x = false) : x.lt y = true := by
  by_contra hlt
  rw [le_of_lt_eq_false hx hy (by simpa using hlt)] at h
  cases h

/-- Numbers that increase are no NaNs, if there are at least two. -/
theorem nan_notMem_of_pairwise_lt {xs : List Binary64}
    (h : xs.Pairwise fun x y => x.lt y = true) (hlen : 2 ≤ xs.length) : nan ∉ xs := by
  have hnan : ∀ x : Binary64, x.lt nan = false := by
    intro x
    cases x <;> rfl
  rcases xs with _ | ⟨a, _ | ⟨b, rest⟩⟩
  · simp at hlen
  · simp at hlen
  · have ha := (List.pairwise_cons.1 h).1
    intro hmem
    rcases List.mem_cons.1 hmem with rfl | hmem
    · exact absurd (ha b (by simp)) (by simp [lt, position?])
    · exact absurd (ha nan hmem) (by simp [hnan])

/-- An increasing list goes up with the places. -/
theorem getD_le_getD {xs : List Binary64} (h : xs.Pairwise fun x y => x.lt y = true)
    (hnan : nan ∉ xs) {i j : Nat} (hij : i ≤ j) (hj : j < xs.length) :
    (xs.getD i nan).le (xs.getD j nan) = true := by
  rw [List.getD_eq_getElem _ _ (by omega), List.getD_eq_getElem _ _ hj]
  rcases Nat.eq_or_lt_of_le hij with rfl | hlt
  · refine le_refl fun heq => hnan ?_
    rw [← heq]
    exact List.getElem_mem _
  · exact le_of_lt (List.pairwise_iff_getElem.1 h i j _ hj hlt)

end Corrections.Binary64
