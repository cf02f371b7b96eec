/-
  The edges of a binning.

  * `Edge` is a number or one of the two named constants that stand for the infinities.
  * `Edge.below` compares two edges of one kind; edges of different kinds are not comparable.
  * `Edges.read` reads the edges of a binning from left to right, and `ascending` looks at neighbours
    from left to right. Both stop at the first fault.
-/
import Corrections.CompileError

namespace Corrections

/-- An edge of a binning. -/
inductive Edge where
  | number (x : Binary64)
  | lowest
  | highest
  deriving DecidableEq

namespace Edge

/-- The kind of an edge. -/
def kind : Edge → EdgeKind
  | .number _ => .number
  | .lowest | .highest => .name

/-- An edge as it is given. -/
def ofDatum? : Datum → Option Edge
  | .scalar (.real x) => some (.number x)
  | .scalar (.str s) =>
    if s = "inf" ∨ s = "+inf" then some .highest
    else if s = "-inf" then some .lowest
    else none
  | _ => none

/-- The edge in an array of the generated code. -/
def code : Edge → String
  | .number x => x.text ++ "f"
  | .lowest => "-MAX_FLOAT"
  | .highest => "MAX_FLOAT"

/-- `a` is below `b`. A number cannot be compared with a name. -/
def below (a b : Edge) : Except CompileError Bool :=
  match a, b with
  | .number x, .number y => .ok (x.lt y)
  | .lowest, .highest => .ok true
  | .lowest, .lowest | .highest, .lowest | .highest, .highest => .ok false
  | a, b => .error (.incomparable a.kind b.kind)

/-- Each edge is below the next one. -/
def ascending : List Edge → Except CompileError Unit
  | a :: b :: rest =>
    match a.below b with
    | .error e => .error e
    | .ok false => .error .unsorted
    | .ok true => ascending (b :: rest)
  | _ => .ok ()

/-- The edges as they are given, the first unreadable one being the fault. -/
def readAll : List Datum → Except CompileError (List Edge)
  | [] => .ok []
  | d :: rest =>
    match ofDatum? d with
    | none => .error .unreadableEdge
    | some e => (readAll rest).map (e :: ·)

end Edge

/-- The edges of a binning, in order. -/
def Edges.read : Edges → Except CompileError (List Edge)
  | .uniform => .error .uniformEdges
  | .unknown => .error .unknownEdges
  | .listed entries => Edge.readAll entries

end Corrections
