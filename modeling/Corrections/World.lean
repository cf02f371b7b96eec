/-
  What a run changes and what it meets.

  * `World` is the workspace, what was printed, which correction files were opened, and the formatter
    with the texts that it was given.
  * `Session` is a computation that may fail. What it did before a failure stays done.
-/
import Corrections.Failure
import Corrections.Workspace.Directories

namespace Corrections

/-- How a program ends that is given a text to format: with a code, after it has written a text, or it
cannot be run. -/
inductive Formatting where
  | ended (code : Int) (output : String)
  | failed (status : Int)
  deriving DecidableEq

/-- The program that formats headers: it is not there, or it ends for every text in some way. -/
inductive Formatter where
  | absent
  | runs (program : String → Formatting)

/-- What a run changes and what it meets. -/
structure World where
  formatter : Formatter
  workspace : Workspace
  out : String
  err : String
  opened : List String
  formatted : List String

/-- The world before anything happened, with an empty working directory. -/
def World.start (formatter : Formatter) (home : Place) : World :=
  ⟨formatter, .empty home, "", "", [], []⟩

/-- The same world with nothing printed, opened or formatted. -/
def World.quiet (w : World) : World := { w with out := "", err := "", opened := [], formatted := [] }

/-- A computation in the world. -/
abbrev Session : Type → Type := EStateM Failure World

namespace Session

/-- A computation that does not touch the world. -/
def ofExcept {α : Type} (x : Except Failure α) : Session α :=
  match x with
  | .ok a => pure a
  | .error e => throw e

/-- Prints a line. -/
def print (line : String) : Session Unit := modify fun w => { w with out := w.out ++ line ++ "\n" }

/-- Prints a line on the error stream. -/
def complain (line : String) : Session Unit :=
  modify fun w => { w with err := w.err ++ line ++ "\n" }

/-- Opens a correction file. -/
def openInput (path : String) : Session Unit :=
  modify fun w => { w with opened := w.opened ++ [path] }

/-- Gives a text to the formatter. -/
def format (text : String) : Session Unit :=
  modify fun w => { w with formatted := w.formatted ++ [text] }

/-- Makes a directory and those above it. -/
def makeDirectories (path : String) : Session Unit := fun w =>
  match w.workspace.makeDirectories path with
  | (.ok (), ws) => .ok () { w with workspace := ws }
  | (.error e, ws) => .error (.file e) { w with workspace := ws }

/-- Makes a file, or empties it, and tells its place. -/
def openFile (path : String) : Session Place := fun w =>
  match w.workspace.openFile path with
  | .ok (p, ws) => .ok p { w with workspace := ws }
  | .error e => .error (.file e) w

/-- Gives a file its text. -/
def write (p : Place) (text : String) : Session Unit :=
  modify fun w => { w with workspace := w.workspace.write p text }

end Session

end Corrections
