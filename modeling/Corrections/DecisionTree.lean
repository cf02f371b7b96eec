/-
  Decision trees over the bins of a binning.

  * `DecisionTree` asks at a node whether the input is below an edge, and names a bin at a leaf.
  * `build start size` decides between the bins `start`, …, `start + size - 1`, halving them at each
    node.
  * `entries q` is the tree as nested `if` statements about `q`, one entry for each line of the tree
    itself. The code of a bin may go over several lines, of which only the first is indented.
-/
namespace Corrections

/-- A decision between bins. -/
inductive DecisionTree where
  | leaf (bin : Nat)
  | node (edge : Nat) (below above : DecisionTree)
  deriving DecidableEq, Inhabited

namespace DecisionTree

/-- The balanced tree over `size` bins from `start` on. The first half has `size / 2` of them. -/
def build (start size : Nat) : DecisionTree :=
  if h : size ≤ 1 then .leaf start
  else
    .node (start + size / 2) (build start (size / 2)) (build (start + size / 2) (size - size / 2))
termination_by size
decreasing_by all_goals omega

/-- The place of the input's name in a template. -/
def query : String := "___QUERY___"

/-- `n` blanks. -/
def blanks (n : Nat) : String := String.ofList (List.replicate n ' ')

/-- An element of the array of edges. -/
def edgeAt (i : Nat) : String := "edges[" ++ toString i ++ "]"

/-- The statement of a bin, with the range it is for. -/
def binLine (q : String) (code : Nat → String) (bin : Nat) : String :=
  code bin ++ "; // " ++ edgeAt bin ++ " <= " ++ q ++ " < " ++ edgeAt (bin + 1)

/-- The first line of a node. -/
def ifLine (q : String) (edge : Nat) : String := "if (" ++ q ++ " < " ++ edgeAt edge ++ ") \x7b"

/-- The line between the two branches of a node. -/
def elseLine : String := "\x7d else \x7b"

/-- The entries of a tree at the given depth. A leaf is set in by one more blank, except as the first
branch of a node with two leaves. -/
def entries (q : String) (code : Nat → String) : (depth : Nat) → DecisionTree → List String
  | depth, .leaf bin => [blanks (4 * depth) ++ " " ++ binLine q code bin]
  | depth, .node edge (.leaf first) (.leaf second) =>
    [blanks (4 * depth) ++ ifLine q edge,
      blanks (4 * (depth + 1)) ++ binLine q code first,
      blanks (4 * depth) ++ elseLine,
      blanks (4 * (depth + 1)) ++ " " ++ binLine q code second,
      blanks (4 * depth) ++ "\x7d"]
  | depth, .node edge below above =>
    (blanks (4 * depth) ++ ifLine q edge) :: entries q code (depth + 1) below ++
      (blanks (4 * depth) ++ elseLine) :: entries q code (depth + 1) above ++
      [blanks (4 * depth) ++ "\x7d"]

end DecisionTree

end Corrections
