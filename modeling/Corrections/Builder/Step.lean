/-
  Steps on a correction that is being built.

  * `Step` is one request to a builder, and `Answer` what a successful one gives back.
  * `perform` does a step. A failed step leaves the builder as it was.
-/
import Corrections.Builder.Save

namespace Corrections

/-- A request to a builder. -/
inductive Step where
  | setTarget (name : String)
  | setDescription (description : Option String)
  | addVariable (d : Declaration)
  | setContent (c : Content)
  | enums
  | validation
  | body
  | dump
  | save (directory : String) (formatted : Bool)

/-- What a step gives back: nothing but the new state, a text, or nothing at all. -/
inductive Answer where
  | state
  | text (s : String)
  | saved
  deriving DecidableEq

namespace Builder

/-- Does a step. -/
def step (b : Builder) : Step → Session (Answer × Builder)
  | .setTarget name => do return (.state, ← Session.ofExcept (b.setTarget name))
  | .setDescription description => return (.state, b.setDescription description)
  | .addVariable d => do return (.state, ← b.addVariable d)
  | .setContent c => return (.state, b.setContent c)
  | .enums => return (.text b.enums, b)
  | .validation => return (.text b.validation, b)
  | .body => do return (.text (← Session.ofExcept b.body), b)
  | .dump => do return (.text (← Session.ofExcept b.dump), b)
  | .save directory formatted => do
    b.save directory formatted
    return (.saved, b)

/-- Does a step and goes on, whether or not it fails. -/
def perform (s : Step) (b : Builder) (w : World) : Except Failure Answer × Builder × World :=
  match b.step s w with
  | .ok (answer, b') w' => (.ok answer, b', w')
  | .error e w' => (.error e, b, w')

/-- Does steps one after the other. -/
def performAll : List Step → Builder → World → Builder × World
  | [], b, w => (b, w)
  | s :: rest, b, w =>
    let after := perform s b w
    performAll rest after.2.1 after.2.2

end Builder

end Corrections
