/-
  The balanced decision tree.

  * `leaves` and `nodes` are the bins and the edges of a tree, from left to right.
  * `choose below t` is the bin that the tree decides on, if `below k` says whether the input is below
    the edge `k`.
  * `choose_build`: the bin that is found has the input on the right side of its two edges, as far as
    they are edges of the tree.
-/
import Corrections.DecisionTree
import Mathlib.Tactic.Common

namespace Corrections.DecisionTree

/-- The bins of a tree. -/
def leaves : DecisionTree → List Nat
  | .leaf bin => [bin]
  | .node _ below above => below.leaves ++ above.leaves

/-- The edges that a tree looks at. -/
def nodes : DecisionTree → List Nat
  | .leaf _ => []
  | .node edge below above => below.nodes ++ edge :: above.nodes

/-- The bin that a tree decides on. -/
def choose (below : Nat → Bool) : DecisionTree → Nat
  | .leaf bin => bin
  | .node edge left right => if below edge then left.choose below else right.choose below

variable {start size : Nat}

theorem build_of_le (h : size ≤ 1) : build start size = .leaf start := by
  rw [build, dif_pos h]

theorem build_of_lt (h : 1 < size) :
    build start size = .node (start + size / 2) (build start (size / 2))
      (build (start + size / 2) (size - size / 2)) := by
  rw [build, dif_neg (by omega)]

/-- Both halves of a tree are trees of the same kind. -/
@[elab_as_elim]
theorem build_induction {motive : (start size : Nat) → 1 ≤ size → Prop}
    (leaf : ∀ start, motive start 1 (Nat.le_refl _))
    (node : ∀ start size (h : 1 < size), motive start (size / 2) (by omega) →
      motive (start + size / 2) (size - size / 2) (by omega) → motive start size (by omega))
    (start size : Nat) (h : 1 ≤ size) : motive start size h := by
  induction size using Nat.strongRecOn generalizing start with
  | _ size ih =>
    rcases Nat.eq_or_lt_of_le h with rfl | hsize
    · exact leaf start
    · exact node start size hsize (ih _ (by omega) _ (by omega)) (ih _ (by omega) _ (by omega))

theorem leaves_build (h : 1 ≤ size) : (build start size).leaves = List.range' start size := by
  induction start, size, h using build_induction with
  | leaf start =>
    rw [build_of_le (Nat.le_refl _)]
    rfl
  | node start size hsize ihbelow ihabove =>
    rw [build_of_lt hsize, leaves, ihbelow, ihabove, List.range'_append_1]
    congr 1
    omega

/-- What holds of the items at all leaves holds of all items. -/
theorem forall_leaves_build {α : Type} {items : List α} (hne : items ≠ []) (d : α) {P : α → Prop} :
    (∀ i ∈ (build 0 items.length).leaves, P (items.getD i d)) ↔ ∀ a ∈ items, P a := by
  have hget : ∀ i (hi : i < items.length), items.getD i d = items.get ⟨i, hi⟩ := by
    intro i hi
    rw [List.getD_eq_getElem?_getD, List.getElem?_eq_getElem hi]
    rfl
  rw [leaves_build (List.length_pos_iff.2 hne)]
  simp only [List.mem_range'_1, Nat.zero_le, Nat.zero_add, true_and]
  constructor
  · intro h a ha
    obtain ⟨⟨i, hi⟩, rfl⟩ := List.mem_iff_get.1 ha
    exact hget i hi ▸ h i hi
  · intro h i hi
    exact hget i hi ▸ h _ (List.get_mem _ _)

/-- Between the first and the last edge every edge is looked at once. -/
theorem nodes_build (h : 1 ≤ size) : (build start size).nodes = List.range' (start + 1) (size - 1) := by
  induction start, size, h using build_induction with
  | leaf start =>
    rw [build_of_le (Nat.le_refl _)]
    rfl
  | node start size hsize ihbelow ihabove =>
    have hedge : (start + size / 2) :: List.range' (start + size / 2 + 1) (size - size / 2 - 1) =
        List.range' (start + size / 2) (size - size / 2) := by
      rw [← List.range'_succ]
      congr 1
      omega
    have hfirst : start + size / 2 = start + 1 + (size / 2 - 1) := by omega
    rw [build_of_lt hsize, nodes, ihbelow, ihabove, hedge]
    rw [hfirst, List.range'_append_1]
    congr 1
    omega

/-- **The bin that is found has the input on the right side of its edges.** At the two ends of the tree
there is no edge to look at. -/
theorem choose_build (below : Nat → Bool) (h : 1 ≤ size) :
    let bin := (build start size).choose below
    start ≤ bin ∧ bin < start + size ∧ (bin = start ∨ below bin = false) ∧
      (bin + 1 = start + size ∨ below (bin + 1) = true) := by
  induction start, size, h using build_induction with
  | leaf start =>
    rw [build_of_le (Nat.le_refl _)]
    exact ⟨Nat.le_refl _, Nat.lt_succ_self _, .inl rfl, .inl rfl⟩
  | node start size hsize ihbelow ihabove =>
    rw [build_of_lt hsize]
    simp only [choose] at *
    by_cases hedge : below (start + size / 2) = true
    · rw [if_pos hedge]
      obtain ⟨hstart, hend, hleft, hright⟩ := ihbelow
      refine ⟨hstart, by omega, hleft, .inr ?_⟩
      rcases hright with hright | hright
      · rw [hright, hedge]
      · exact hright
    · rw [if_neg hedge]
      obtain ⟨hstart, hend, hleft, hright⟩ := ihabove
      refine ⟨by omega, by omega, .inr ?_, ?_⟩
      · rcases hleft with hleft | hleft
        · rw [hleft]
          simpa using hedge
        · exact hleft
      · rcases hright with hright | hright
        · exact .inl (by omega)
        · exact .inr hright

end Corrections.DecisionTree
