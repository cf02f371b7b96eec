/-
  The parameters of a generated function.

  * `Declaration` is a parameter as it is asked for, and `Variable` as it is kept.
  * `Variable.declare` checks the type. A real parameter becomes a `float` whose infinite bounds are
    replaced by named constants, and a string parameter gets an enumeration type of its own, named
    after the parameter and the correction. An empty list of values counts as none.
-/
import Corrections.Failure

namespace Corrections

/-- The type of a parameter in the generated code. -/
inductive VariableType where
  | float
  | int
  | enumeration (name : String)
  deriving DecidableEq

/-- The type as the generated code names it. -/
def VariableType.code : VariableType → String
  | .float => "float"
  | .int => "int"
  | .enumeration name => name

/-- A parameter as it is asked for. -/
structure Declaration where
  type : String
  name : String
  min : Datum
  max : Datum
  values : List Datum
  deriving DecidableEq

/-- A parameter of the generated function. -/
structure Variable where
  name : String
  type : VariableType
  min : Datum
  max : Datum
  values : Option (List Datum)
  deriving DecidableEq

namespace Variable

/-- The parameter stands for a string. -/
def isString (v : Variable) : Bool :=
  match v.type with
  | .enumeration _ => true
  | _ => false

/-- The least value of a real parameter. -/
def lowerBound : Datum → Datum
  | .scalar (.real (.infinity true)) => .scalar (.str "-FLT_MAX")
  | d => d

/-- The greatest value of a real parameter. -/
def upperBound : Datum → Datum
  | .scalar (.real (.infinity false)) => .scalar (.str "FLT_MAX")
  | d => d

/-- The values of a parameter, if any are given. -/
def givenValues (values : List Datum) : Option (List Datum) :=
  if values.isEmpty then none else some values

/-- The parameter of the correction `correction` that a declaration asks for. -/
def declare (correction : String) (d : Declaration) : Except Failure Variable :=
  if d.type = "real" then
    .ok ⟨d.name, .float, lowerBound d.min, upperBound d.max, givenValues d.values⟩
  else if d.type = "string" then
    .ok ⟨d.name, .enumeration (d.name ++ "_" ++ correction), d.min, d.max, givenValues d.values⟩
  else if d.type = "int" then
    .ok ⟨d.name, .int, d.min, d.max, givenValues d.values⟩
  else .error (.unknownType d.type d.name)

/-- What is printed when the parameter is declared. -/
def notices (v : Variable) : List String :=
  if v.type = .int then ["WARINING: Validation of int variables is not implemented."] else []

end Variable

end Corrections
