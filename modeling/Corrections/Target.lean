/-
  The two kinds of code that can be generated.

  * `Target.ofName?` finds a target by its name.
  * `Target.failCode` is the expression that stops the generated program.
-/
namespace Corrections

/-- The kind of code that is generated. -/
inductive Target where
  | c
  | cuda
  deriving DecidableEq, Inhabited

namespace Target

/-- The name of a target. -/
def name : Target → String
  | .c => "C"
  | .cuda => "CUDA"

/-- The target with the given name. -/
def ofName? (s : String) : Option Target :=
  if s = c.name then some c else if s = cuda.name then some cuda else none

/-- The expression that stops the generated program. -/
def failCode : Target → String
  | .c => "exit(-1)"
  | .cuda => "assert(0)"

end Target

end Corrections
