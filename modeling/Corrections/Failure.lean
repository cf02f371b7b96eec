/-
  How an operation fails.

  * `Failure` lists the causes.
  * `Failure.ending` says what is seen of a failure: the program exits with a code after it has written
    something, or an error with a text is raised, or the computation does not end.
  * `Target.find` and `Target.failCodeOf` look a target up where any value may stand for one.
-/
import Corrections.CommandLine.Parse
import Corrections.CompileError
import Corrections.Target
import Corrections.Workspace.FileError

namespace Corrections

/-- Why an operation fails. -/
inductive Failure where
  | compile (e : CompileError)
  | noVariables
  | noContent
  | unknownType (type name : String)
  /-- A target is asked for by a name that none has. -/
  | noSuchTarget (name : String)
  /-- Code is asked for a target that is none. -/
  | unknownTarget
  | file (e : FileError)
  /-- Nothing is known about the values of an input. -/
  | noSummary (input : String)
  | commandLine (stop : CommandLine.Stop)
  deriving DecidableEq

/-- What is seen of a failure. -/
inductive Ending where
  | exits (code : Int) (out err : String)
  | raises (message : String)
  | diverges
  deriving DecidableEq

/-- The program complains in one line and exits. -/
def Ending.complaint (line : String) : Ending := .exits (-1) "" (line ++ "\n")

/-- What is seen of an error in a content. -/
def CompileError.ending (e : CompileError) : Ending :=
  match e.complaint?, e.message? with
  | some line, _ => .complaint line
  | none, some message => .raises message
  | none, none => .diverges

/-- What is seen of a command line without a request. -/
def CommandLine.Stop.ending : CommandLine.Stop → Ending
  | .help => .exits 0 CommandLine.helpText ""
  | .usage e => .exits 2 "" e.report

/-- What is seen of a failure. -/
def Failure.ending : Failure → Ending
  | .compile e => e.ending
  | .noVariables => .complaint "ERROR: No variables have been added."
  | .noContent => .complaint "ERROR: No content have been added."
  | .unknownType type name =>
    .complaint ("ERROR: Could not identify type " ++ type ++ " for parameter " ++ name ++ ".")
  | .noSuchTarget name => .raises (Text.quoted name ++ " is not a valid Target")
  | .unknownTarget => .complaint "ERROR: Unknown target."
  | .file e => .raises e.message
  | .noSummary input => .raises (Text.quoted input)
  | .commandLine stop => stop.ending

namespace Target

/-- The target with the given name. -/
def find (name : String) : Except Failure Target :=
  match ofName? name with
  | some t => .ok t
  | none => .error (.noSuchTarget name)

/-- The expression that stops a program for the target that a value names. -/
def failCodeOf (d : Datum) : Except Failure String :=
  match d with
  | .scalar (.str name) =>
    match ofName? name with
    | some t => .ok t.failCode
    | none => .error .unknownTarget
  | _ => .error .unknownTarget

end Target

end Corrections
