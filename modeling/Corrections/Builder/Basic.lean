/-
  The state of a correction that is being built.

  * `Builder` holds the name, the target, the description, the parameters and the content.
  * The setters each change one part. An empty description changes nothing, and a parameter that is
    declared again keeps its place.
-/
import Corrections.Table
import Corrections.Target
import Corrections.Variable

namespace Corrections

/-- A correction that is being built. -/
structure Builder where
  name : String
  target : Target
  description : String
  params : Table String Variable
  content : Content
  deriving Inhabited

namespace Builder

/-- A correction of which only the name and the target are known. -/
def new (name : String) (target : Target) : Builder :=
  ⟨name, target, "", .empty, .datum (.scalar .null)⟩

/-- The correction for the target with the given name. -/
def setTarget (b : Builder) (name : String) : Except Failure Builder :=
  (Target.find name).map fun t => { b with target := t }

/-- The correction with the given description, if there is one. -/
def setDescription (b : Builder) (description : Option String) : Builder :=
  match description with
  | some d => if d.isEmpty then b else { b with description := d }
  | none => b

/-- The correction with a further parameter. -/
def setVariable (b : Builder) (v : Variable) : Builder :=
  { b with params := b.params.insert v.name v }

/-- The correction with the given content. -/
def setContent (b : Builder) (c : Content) : Builder := { b with content := c }

end Builder

end Corrections
