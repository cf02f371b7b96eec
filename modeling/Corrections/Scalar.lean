/-
  Single values, as they stand in the data of a correction.

  * `Scalar` is nothing, a truth value, an integer, a double-precision number or a text.
  * `Scalar.text` is a value as generated code shows it.
  * `Scalar.isBlank` holds of the values that count as absent: nothing, false, any zero and the empty
    text.
-/
import Corrections.Binary64.Literal

namespace Corrections

/-- A single value. -/
inductive Scalar where
  | null
  | bool (b : Bool)
  | int (n : Int)
  | real (x : Binary64)
  | str (s : String)
  deriving DecidableEq, Inhabited

namespace Scalar

/-- The value as generated code shows it. -/
def text : Scalar → String
  | .null => "None"
  | .bool true => "True"
  | .bool false => "False"
  | .int n => toString n
  | .real x => x.text
  | .str s => s

/-- The value counts as absent. -/
def isBlank : Scalar → Bool
  | .null => true
  | .bool b => !b
  | .int n => n == 0
  | .real x => x.isZero
  | .str s => s.isEmpty

end Scalar

end Corrections
