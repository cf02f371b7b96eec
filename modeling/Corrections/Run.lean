/-
  The run over a set of corrections.

  * `Correction` is a correction as a file of corrections gives it, together with what is known about
    the values of its inputs.
  * `Correction.process` builds a correction and saves its header.
  * `run` reads the command line and processes the selected corrections in order. The first failure
    ends the run.
-/
import Corrections.Builder.Save

namespace Corrections

/-- An input of a correction. -/
structure Input where
  name : String
  type : String
  deriving DecidableEq

/-- What is known about the values of an input. -/
structure Summary where
  min : Datum
  max : Datum
  values : List Datum
  deriving DecidableEq

/-- A correction of a set. -/
structure Correction where
  name : String
  description : Option String
  inputs : List Input
  summary : Table String Summary
  data : Content

namespace Correction

/-- The declaration of an input as a parameter. -/
def declaration (c : Correction) (i : Input) : Except Failure Declaration :=
  match c.summary.get? i.name with
  | some s => .ok ⟨i.type, i.name, s.min, s.max, s.values⟩
  | none => .error (.noSummary i.name)

/-- Declares the inputs in order. -/
def addInputs (c : Correction) : Builder → List Input → Session Builder
  | b, [] => return b
  | b, i :: rest => do
    let d ← Session.ofExcept (c.declaration i)
    let b ← b.addVariable d
    c.addInputs b rest

/-- Builds a correction and saves its header. -/
def process (c : Correction) : Session Unit := do
  Session.print ("Processing: " ++ c.name)
  let b ← c.addInputs ((Builder.new c.name .c).setDescription c.description) c.inputs
  (b.setContent c.data).save Builder.defaultDirectory true

/-- Processes corrections in order. -/
def processAll : List Correction → Session Unit
  | [] => return ()
  | c :: rest => do
    c.process
    processAll rest

end Correction

/-- The run of a command line on the corrections of its file. -/
def run (line : List String) (corrections : List Correction) : Session Unit := do
  let options ← Session.ofExcept ((CommandLine.parse line).mapError .commandLine)
  Session.openInput options.file
  Correction.processAll (corrections.filter (options.selects ·.name))

end Corrections
