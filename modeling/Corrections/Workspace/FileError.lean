/-
  Why a file or a directory cannot be made.

  * `FileFault` lists the causes, each with its number and its text.
  * `FileError` is a cause together with the path as it was asked for.
-/
import Corrections.Text.Quoted

namespace Corrections

/-- Why a path cannot be used. -/
inductive FileFault where
  | missing
  | occupied
  | notDirectory
  | isDirectory
  | nameTooLong
  deriving DecidableEq

namespace FileFault

/-- The number of a fault. -/
def number : FileFault → Nat
  | .missing => 2
  | .occupied => 17
  | .notDirectory => 20
  | .isDirectory => 21
  | .nameTooLong => 36

/-- The text of a fault. -/
def text : FileFault → String
  | .missing => "No such file or directory"
  | .occupied => "File exists"
  | .notDirectory => "Not a directory"
  | .isDirectory => "Is a directory"
  | .nameTooLong => "File name too long"

end FileFault

/-- A failed operation on a path. A path with a null character is refused as such. -/
inductive FileError where
  | fault (cause : FileFault) (path : String)
  | nullCharacter
  deriving DecidableEq

/-- The text of the error. -/
def FileError.message : FileError → String
  | .fault cause path =>
    "[Errno " ++ toString cause.number ++ "] " ++ cause.text ++ ": " ++ Text.quoted path
  | .nullCharacter => "embedded null byte"

end Corrections
