/-
  Why no code can be generated for a content.

  * `CompileError` lists the causes.
  * `CompileError.complaint?` is the line that goes to the error stream for the causes that end the
    whole program; for the others `CompileError.message?` is the text of the error. Splitting a range
    without bins never ends, and has neither.
-/
import Corrections.Content

namespace Corrections

/-- An edge is a number or the name of a constant. -/
inductive EdgeKind where
  | number
  | name
  deriving DecidableEq

/-- The kind of an edge as messages call it. -/
def EdgeKind.word : EdgeKind → String
  | .number => "float"
  | .name => "str"

/-- The kind of a content as messages call it. -/
def UnsupportedKind.word : UnsupportedKind → String
  | .multiBinning => "MultiBinning"
  | .formula => "Formula"
  | .formulaRef => "FormulaRef"
  | .transform => "Transform"
  | .hashPrng => "HashPRNG"

/-- Why no code can be generated. -/
inductive CompileError where
  /-- The content is of no known kind. -/
  | unknownContent
  /-- The edges are of no known kind. -/
  | unknownEdges
  /-- An edge is neither a number nor the name of an infinity. -/
  | unreadableEdge
  | unsupported (kind : UnsupportedKind)
  | uniformEdges
  | edgeCount (edges values : Nat)
  | unsorted
  /-- Two neighbouring edges are of different kinds. -/
  | incomparable (left right : EdgeKind)
  /-- A bin that the edges ask for is missing. -/
  | missingBin
  /-- There is no bin to decide for. -/
  | endlessSplit
  deriving DecidableEq

namespace CompileError

/-- The line on the error stream, if the error ends the whole program. -/
def complaint? : CompileError → Option String
  | .unknownContent => some "ERROR: Could not identify content type."
  | .unknownEdges => some "ERROR: Could not identify binning type."
  | .unreadableEdge => some "ERROR: Could not parse \x7bedge\x7d."
  | _ => none

/-- A kind of content or edges that is not supported. -/
def notImplemented (word : String) : String :=
  word ++ ": This functionality has not been implemented yet."

/-- The text of the error, if it does not end the whole program. -/
def message? : CompileError → Option String
  | .unsupported kind => some (notImplemented kind.word)
  | .uniformEdges => some (notImplemented "UniformBinning")
  | .edgeCount edges values =>
    some ("Invalid input: edges must have exactly one more element than values. Got " ++
      toString edges ++ " edges and " ++ toString values ++ " values")
  | .unsorted => some "Edges must be sorted in ascending order"
  | .incomparable left right =>
    some ("'<' not supported between instances of '" ++ left.word ++ "' and '" ++ right.word ++ "'")
  | .missingBin => some "list index out of range"
  | .unknownContent | .unknownEdges | .unreadableEdge | .endlessSplit => none

end CompileError

end Corrections
