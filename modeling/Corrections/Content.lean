/-
  The content of a correction.

  * `Content` is a constant, a binning of one input, a category of one input, or one of the kinds for
    which no code is generated. What is none of these is kept as a plain value.
  * `Edges` are the edges of a binning as they are given, and `Flow` says what holds outside of them.
-/
import Corrections.Datum

namespace Corrections

/-- The kinds of content for which no code is generated. -/
inductive UnsupportedKind where
  | multiBinning
  | formula
  | formulaRef
  | transform
  | hashPrng
  deriving DecidableEq

/-- The edges of a binning: their list, a uniform division, or something that is neither. -/
inductive Edges where
  | listed (entries : List Datum)
  | uniform
  | unknown
  deriving DecidableEq

/-- What a binning gives outside of its edges: the nearest bin, a failure, or a value of its own. -/
inductive Flow (α : Type) where
  | clamp
  | error
  | value (a : α)

/-- One case of a category. -/
structure CategoryItem (α : Type) where
  key : Datum
  value : α

/-- The content of a correction. -/
inductive Content where
  | datum (d : Datum)
  | binning (input : String) (edges : Edges) (bins : List Content) (flow : Flow Content)
  | category (input : String) (items : List (CategoryItem Content)) (fallback : Option Content)
  | unsupported (kind : UnsupportedKind)
  deriving Inhabited

/-- The content that is one number. -/
@[match_pattern]
abbrev Content.constant (x : Binary64) : Content := .datum (.scalar (.real x))

/-- The content counts as absent. -/
def Content.isBlank : Content → Bool
  | .datum d => d.isBlank
  | _ => false

end Corrections
