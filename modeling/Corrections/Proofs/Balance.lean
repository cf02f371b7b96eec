/-
  The shape of a decision, as it is written.

  * `Nested q depth lines edges leaves`: the lines are properly nested `if` statements with two
    branches each. From left to right, `q` is compared with `edges`, and `leaves` are decided on.
    Each `Leaf` knows its code, the bin that its comment names, and the edges on the way to it.
  * `length_lines`: `n` leaves take `4 * n - 3` lines.
  * `nested_entries`: the entries of every tree are nested.
  * `length_path_build`: on the way to a leaf of the balanced tree, the number of comparisons is the
    logarithm of the number of bins, rounded down or up.
  * `Binning.treeLines` writes the decision between the bins of a range by halving the range, and
    compiles the bins on the way. `treeLines_of_generate`: it writes the entries of the tree.
  * `treeLines_shape`: what the lines of a range look like, how many there are, and how far each leaf
    is away.
-/
import Corrections.Proofs.Termination
import Mathlib.Data.Nat.Log

namespace Corrections

namespace DecisionTree

/-! ## Nested lines -/

/-- A leaf of a written decision. -/
structure Leaf where
  code : String
  bin : Nat
  path : List Nat
  deriving DecidableEq

/-- The leaf behind one more comparison. -/
def Leaf.under (edge : Nat) (l : Leaf) : Leaf := { l with path := edge :: l.path }

/-- Lines at a depth that are properly nested. A leaf may be set in by one more blank. -/
inductive Nested (q : String) :
    (depth : Nat) → (lines : List String) → (edges : List Nat) → (leaves : List Leaf) → Prop
  | leaf {depth : Nat} {indent : String} (code : String) (bin : Nat)
      (h : indent = blanks (4 * depth) ∨ indent = blanks (4 * depth) ++ " ") :
      Nested q depth
        [indent ++ (code ++ "; // " ++ edgeAt bin ++ " <= " ++ q ++ " < " ++ edgeAt (bin + 1))]
        [] [⟨code, bin, []⟩]
  | node {depth : Nat} {below above : List String} {edges₁ edges₂ : List Nat}
      {leaves₁ leaves₂ : List Leaf} (edge : Nat)
      (hbelow : Nested q (depth + 1) below edges₁ leaves₁)
      (habove : Nested q (depth + 1) above edges₂ leaves₂) :
      Nested q depth
        ((blanks (4 * depth) ++ ifLine q edge) :: below ++
          (blanks (4 * depth) ++ elseLine) :: above ++ [blanks (4 * depth) ++ "\x7d"])
        (edges₁ ++ edge :: edges₂) ((leaves₁ ++ leaves₂).map (Leaf.under edge))

/-- **A leaf takes a line, and a comparison three more.** -/
theorem Nested.length_lines {q : String} {depth : Nat} {lines : List String} {edges : List Nat}
    {leaves : List Leaf} (h : Nested q depth lines edges leaves) :
    lines.length + 3 = 4 * leaves.length := by
  induction h with
  | leaf code bin h => rfl
  | node edge hbelow habove ihbelow ihabove =>
    simp only [List.length_append, List.length_cons, List.length_nil, List.length_map]
    omega

variable (q : String) (code : Nat → String)

/-- The leaves of a tree, with the edges on the way. -/
def reached : DecisionTree → List Leaf
  | .leaf bin => [⟨code bin, bin, []⟩]
  | .node edge below above => (below.reached ++ above.reached).map (Leaf.under edge)

theorem map_reached (t : DecisionTree) :
    (t.reached code).map (fun l => (l.code, l.bin)) = t.leaves.map fun i => (code i, i) := by
  induction t with
  | leaf bin => rfl
  | node edge below above ihbelow ihabove =>
    have hunder : (fun l => (l.code, l.bin)) ∘ Leaf.under edge = fun l => (l.code, l.bin) := rfl
    rw [reached, leaves, List.map_map, hunder, List.map_append, List.map_append, ihbelow, ihabove]

/-- **The entries of a tree are properly nested.** -/
theorem nested_entries (depth : Nat) (t : DecisionTree) :
    Nested q depth (t.entries q code depth) t.nodes (t.reached code) := by
  induction t generalizing depth with
  | leaf bin => exact .leaf _ _ (.inr rfl)
  | node edge below above ihbelow ihabove =>
    -- Only a node with two leaves does not write its branches as if they stood alone.
    cases below with
    | node => exact .node edge (ihbelow _) (ihabove _)
    | leaf first =>
      cases above with
      | node => exact .node edge (ihbelow _) (ihabove _)
      | leaf second =>
        exact .node edge (.leaf (code first) first (.inl rfl))
          (.leaf (code second) second (.inr rfl))

/-! ## Balance -/

/-- **All leaves of the balanced tree are about equally far away.** -/
theorem length_path_build {start size : Nat} (h : 1 ≤ size) :
    ∀ l ∈ (build start size).reached code,
      Nat.log 2 size ≤ l.path.length ∧ l.path.length ≤ Nat.clog 2 size := by
  induction start, size, h using build_induction with
  | leaf start =>
    rw [build_of_le (Nat.le_refl _)]
    simp [reached]
  | node start size hsize ihbelow ihabove =>
    rw [build_of_lt hsize, reached]
    intro l hl
    obtain ⟨l, hmem, rfl⟩ := List.mem_map.1 hl
    -- The first half is the smaller one, so it bounds the way from below and the second from above.
    have hlog : Nat.log 2 size = Nat.log 2 (size / 2) + 1 := Nat.log_of_one_lt_of_le (by decide) hsize
    have hclog : Nat.clog 2 size = Nat.clog 2 (size - size / 2) + 1 := by
      rw [Nat.clog_of_two_le (by decide) hsize]
      congr 2
      omega
    have hlogs : Nat.log 2 (size / 2) ≤ Nat.log 2 (size - size / 2) := Nat.log_mono_right (by omega)
    have hclogs : Nat.clog 2 (size / 2) ≤ Nat.clog 2 (size - size / 2) :=
      Nat.clog_mono_right 2 (by omega)
    have hlength : (l.under (start + size / 2)).path.length = l.path.length + 1 := rfl
    rw [hlength, hlog, hclog]
    rcases List.mem_append.1 hmem with hbelow | habove
    · obtain ⟨hle, hge⟩ := ihbelow l hbelow
      omega
    · obtain ⟨hle, hge⟩ := ihabove l habove
      omega

end DecisionTree

/-! ## Writing the decision -/

namespace Binning

open DecisionTree

/-- The lines of the decision between the bins from `start` to `stop`. With more than `limit` calls
inside each other the range counts as split for ever. -/
def treeLines (bins : List Compiled) :
    (limit start stop depth : Nat) → Except CompileError (List String)
  | 0, _, _, _ => .error .endlessSplit
  | limit + 1, start, stop, depth =>
    if stop - start = 1 then do
      let code ← binAt bins start
      return [blanks (4 * depth) ++ " " ++ binLine query (fun _ => code) start]
    else if stop - start = 2 then do
      let first ← binAt bins start
      let second ← binAt bins (start + 1)
      return [blanks (4 * depth) ++ ifLine query (start + 1),
        blanks (4 * (depth + 1)) ++ binLine query (fun _ => first) start,
        blanks (4 * depth) ++ elseLine,
        blanks (4 * (depth + 1)) ++ " " ++ binLine query (fun _ => second) (start + 1),
        blanks (4 * depth) ++ "\x7d"]
    else do
      let mid := start + (stop - start) / 2
      let below ← treeLines bins limit start mid (depth + 1)
      let above ← treeLines bins limit mid stop (depth + 1)
      return (blanks (4 * depth) ++ ifLine query mid) :: below ++
        (blanks (4 * depth) ++ elseLine) :: above ++ [blanks (4 * depth) ++ "\x7d"]

variable {bins : List Compiled} {code : Nat → String}

/-- Up to two bins are written at once. -/
theorem treeLines_of_le_two {start size : Nat} (hpos : 1 ≤ size) (hle : size ≤ 2)
    (hcode : ∀ i, start ≤ i → i < start + size → binAt bins i = .ok (code i)) (limit depth : Nat) :
    treeLines bins (limit + 1) start (start + size) depth =
      .ok ((build start size).entries query code depth) := by
  have hfirst := hcode start (Nat.le_refl _) (by omega)
  rw [treeLines, Nat.add_sub_cancel_left]
  rcases Nat.eq_or_lt_of_le hle with rfl | hlt
  · have hsecond := hcode (start + 1) (by omega) (by omega)
    rw [if_neg (by decide), if_pos rfl, hfirst, hsecond, build_of_lt (by decide),
      build_of_le (by decide), build_of_le (by decide)]
    rfl
  · obtain rfl : size = 1 := by omega
    rw [if_pos rfl, hfirst, build_of_le (by decide)]
    rfl

/-- A limit that is enough for the tree is enough for its lines, if all bins have code. -/
theorem treeLines_of_generate {limit start size : Nat} {t : DecisionTree} (hpos : 1 ≤ size)
    (h : generate limit start ((start : Int) + size) = some t)
    (hcode : ∀ i, start ≤ i → i < start + size → binAt bins i = .ok (code i)) (depth : Nat) :
    treeLines bins limit start (start + size) depth = .ok (t.entries query code depth) := by
  induction limit generalizing start size t depth with
  | zero => cases h
  | succ limit ih =>
    rcases Nat.lt_or_ge 2 size with htwo | htwo
    · have hstop : start + size / 2 + (size - size / 2) = start + size := by omega
      rw [generate_of_two_lt _ _ htwo] at h
      obtain ⟨below, hbelow, h⟩ := Option.bind_eq_some_iff.1 h
      obtain ⟨above, habove, ⟨⟩⟩ := Option.bind_eq_some_iff.1 h
      have hlower := ih (by omega) hbelow (fun i hi hlt => hcode i hi (by omega)) (depth + 1)
      have hupper := ih (by omega) habove (fun i hi hlt => hcode i (by omega) (by omega)) (depth + 1)
      rw [hstop] at hupper
      -- The second half has at least two bins, so this is not the node with two leaves.
      have hnode := eq_build_of_generate (by omega) habove
      rw [build_of_lt (by omega)] at hnode
      subst hnode
      rw [treeLines, Nat.add_sub_cancel_left, if_neg (by omega), if_neg (by omega)]
      dsimp only
      rw [hlower, hupper]
      cases below <;> rfl
    · rw [generate_of_le_two _ _ hpos htwo] at h
      obtain rfl := Option.some.inj h
      exact treeLines_of_le_two hpos htwo hcode limit depth

/-- Few calls are enough, one for each halving and the first. -/
theorem treeLines_eq {start stop : Nat} (hlt : start < stop)
    (hcode : ∀ i, start ≤ i → i < stop → binAt bins i = .ok (code i)) (depth : Nat) {limit : Nat}
    (hlimit : Nat.clog 2 (stop - start) < limit) :
    treeLines bins limit start stop depth =
      .ok ((build start (stop - start)).entries query code depth) := by
  obtain ⟨size, rfl⟩ := Nat.exists_eq_add_of_le (Nat.le_of_lt hlt)
  obtain ⟨limit, rfl⟩ := Nat.exists_eq_add_of_lt hlimit
  rw [Nat.add_sub_cancel_left]
  have hpow : size ≤ 2 ^ (Nat.clog 2 size + limit) :=
    (Nat.le_pow_clog (by decide) size).trans (Nat.pow_le_pow_right (by decide) (by omega))
  exact treeLines_of_generate (by omega) (generate_eq_build (by omega) hpow) hcode depth

end Binning

/-- **The shape and the balance of a decision.** Let the contents from `start` to before `stop` have
code. Then the lines of the decision between them are written, and there are `4 * n - 3` of them for
`n` bins. They are properly nested. From left to right, the comparisons are with the edges strictly
between `start` and `stop`, each one once, and the leaves are the bins, each one once, with its own
code and in its comment its own two edges. The number of comparisons on the way to a leaf is at
least the logarithm of `n` rounded down, and at most the logarithm rounded up. -/
theorem treeLines_shape (target : Target) (bins : List Content) (code : Nat → String)
    {start stop : Nat} (depth : Nat) (hlt : start < stop)
    (hcode : ∀ i, start ≤ i → i < stop →
      ∃ c, bins[i]? = some c ∧ c.compile target = .ok (code i)) :
    let lines := (DecisionTree.build start (stop - start)).entries DecisionTree.query code depth
    (∀ limit, Nat.clog 2 (stop - start) < limit →
        Binning.treeLines (Content.compileBins target bins) limit start stop depth = .ok lines) ∧
      lines.length = 4 * (stop - start) - 3 ∧
      ∃ leaves, DecisionTree.Nested DecisionTree.query depth lines
          (List.range' (start + 1) (stop - start - 1)) leaves ∧
        leaves.map (fun l => (l.code, l.bin)) =
          (List.range' start (stop - start)).map (fun i => (code i, i)) ∧
        ∀ l ∈ leaves, Nat.log 2 (stop - start) ≤ l.path.length ∧
          l.path.length ≤ Nat.clog 2 (stop - start) := by
  intro lines
  have hpos : 1 ≤ stop - start := by omega
  have hbins : ∀ i, start ≤ i → i < stop →
      Binning.binAt (Content.compileBins target bins) i = .ok (code i) := by
    intro i hi hstop
    obtain ⟨c, hc, hcompile⟩ := hcode i hi hstop
    rw [Content.binAt_compileBins, hc]
    exact hcompile
  have hnested := DecisionTree.nested_entries DecisionTree.query code depth
    (DecisionTree.build start (stop - start))
  have hleaves := DecisionTree.map_reached code (DecisionTree.build start (stop - start))
  rw [DecisionTree.nodes_build hpos] at hnested
  rw [DecisionTree.leaves_build hpos] at hleaves
  have hcount := congrArg List.length hleaves
  rw [List.length_map, List.length_map, List.length_range'] at hcount
  have hlength : lines.length + 3 = _ := hnested.length_lines
  refine ⟨fun limit => Binning.treeLines_eq hlt hbins depth, ?_, _, hnested, hleaves,
    DecisionTree.length_path_build code hpos⟩
  omega

/-- Three of five constants: the first one is behind one comparison and the others behind two. -/
theorem three_bins_written :
    let number := Binary64.ofRank false
    let bins := (List.range 5).map fun i => Content.constant (number i)
    let code := fun i => (Datum.scalar (.real (number i))).returned
    let lines := (DecisionTree.build 1 3).entries DecisionTree.query code 2
    (∀ i, 1 ≤ i → i < 4 → ∃ c, bins[i]? = some c ∧ c.compile .c = .ok (code i)) ∧
      Binning.treeLines (Content.compileBins .c bins) 3 1 4 2 = .ok lines ∧ lines.length = 9 ∧
      ∃ leaves, DecisionTree.Nested DecisionTree.query 2 lines [2, 3] leaves ∧
        leaves.map (fun l => (l.code, l.bin)) = [(code 1, 1), (code 2, 2), (code 3, 3)] ∧
        ∀ l ∈ leaves, 1 ≤ l.path.length ∧ l.path.length ≤ 2 := by
  intro number bins code lines
  have hcode : ∀ i, 1 ≤ i → i < 4 → ∃ c, bins[i]? = some c ∧ c.compile .c = .ok (code i) := by
    intro i _ hi
    refine ⟨.constant (number i), ?_, rfl⟩
    rw [List.getElem?_map, List.getElem?_range (by omega)]
    rfl
  have hlog : Nat.log 2 (4 - 1) = 1 := by decide
  have hclog : Nat.clog 2 (4 - 1) = 2 := by decide
  obtain ⟨hlines, hlength, leaves, hnested, hleaves, hpath⟩ :=
    treeLines_shape .c bins code 2 (by decide) hcode
  rw [hlog, hclog] at hpath
  exact ⟨hcode, hlines 3 (by rw [hclog]; decide), hlength, leaves, hnested, hleaves, hpath⟩

end Corrections
