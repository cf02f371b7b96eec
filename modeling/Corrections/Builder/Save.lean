/-
  Building a correction and saving its header.

  * `addVariable` declares a parameter.
  * `save` writes the header into a directory. With a formatter the header is generated first and
    written only if the formatter succeeds. Without one the file is opened before the header is
    generated, so a correction that cannot be compiled leaves an empty file.
-/
import Corrections.Builder.Header
import Corrections.ExitStatus
import Corrections.World

namespace Corrections.Builder

/-- Declares a parameter. -/
def addVariable (b : Builder) (d : Declaration) : Session Builder := do
  let v ← Session.ofExcept (Variable.declare b.name d)
  v.notices.forM Session.print
  return b.setVariable v

/-- The path of the header in a directory. -/
def headerPath (b : Builder) (directory : String) : String := directory ++ "/" ++ b.name ++ ".h"

/-- The directory that headers go to. -/
def defaultDirectory : String := "corrections"

/-- The line that is printed when there is no formatter. -/
def formatterMissing : String :=
  "WARNING: Could not format correction file. Try to install clang-format with: " ++
    "python3 -m pip install --user clang-format"

/-- The line that is printed when the formatter cannot be run. -/
def formatterFailed (status : Int) : String :=
  "ERROR: Could not run clang-format failed with error: " ++
    "Command 'clang-format' " ++ exitStatusText status ++ "."

/-- Opens the file, generates the header and writes it. -/
def savePlain (b : Builder) (path : String) : Session Unit := do
  let p ← Session.openFile path
  let text ← Session.ofExcept b.dump
  Session.write p text

/-- Generates the header and writes what the formatter makes of it. -/
def saveFormatted (b : Builder) (path : String) (program : String → Formatting) : Session Unit := do
  let text ← Session.ofExcept b.dump
  Session.format text
  match program text with
  | .ended code output =>
    if code = 0 then
      let p ← Session.openFile path
      Session.write p output
  | .failed status => Session.complain (formatterFailed status)

/-- Saves the header in a directory, formatted if that is asked for. -/
def save (b : Builder) (directory : String) (formatted : Bool) : Session Unit := do
  Session.makeDirectories directory
  let path := b.headerPath directory
  if formatted then
    match (← get).formatter with
    | .runs program => b.saveFormatted path program
    | .absent => do
      Session.print formatterMissing
      b.savePlain path
  else b.savePlain path

end Corrections.Builder
