/-
  Making a directory together with those above it.

  * `Level` is a directory on the way of a path, and `levels` lists them from the path itself up to
    its first name.
  * `makeDirectories` makes the levels that are missing, the upper ones first. It succeeds when the
    directory is there in the end, also if it was there before. What was made before a failure stays.
-/
import Corrections.Workspace.Basic

namespace Corrections

/-- A directory on the way of a path: the path up to it and its own name. -/
structure Level where
  path : String
  name : String
  deriving DecidableEq

namespace Workspace

/-- The level that ends here, if a name does. Both parts are reversed. -/
def levelHere (read name : List Char) : List Level :=
  if name.isEmpty then [] else [⟨String.ofList read.reverse, String.ofList name.reverse⟩]

/-- The levels of a path from the first name on. `read` is what was read so far and `name` the part
of it since the last slash, both reversed. -/
def levelsFrom (read name : List Char) : List Char → List Level
  | [] => levelHere read name
  | c :: rest =>
    if c = '/' then levelHere read name ++ levelsFrom (c :: read) [] rest
    else levelsFrom (c :: read) (c :: name) rest

/-- The levels of a path, the path itself first. -/
def levels (path : String) : List Level :=
  match (levelsFrom [] [] path.toList).reverse with
  | [] => [⟨path, ""⟩]
  | level :: upper => ⟨path, level.name⟩ :: upper

/-- Makes a directory unless there is one. -/
def ensureDirectory (ws : Workspace) (path : String) : Except FileError Unit × Workspace :=
  match ws.makeDirectory path with
  | .ok ws' => (.ok (), ws')
  | .error e => if ws.reachesDirectory path then (.ok (), ws) else (.error e, ws)

/-- The error says that something is there already. -/
def isOccupied : FileError → Bool
  | .fault .occupied _ => true
  | _ => false

/-- Makes the first level, and before it the upper ones if they are missing. -/
def makeLevels (ws : Workspace) : List Level → Except FileError Unit × Workspace
  | [] => (.ok (), ws)
  | [level] => ws.ensureDirectory level.path
  | level :: next :: upper =>
    if ws.reaches next.path then ws.ensureDirectory level.path
    else
      match ws.makeLevels (next :: upper) with
      | (.error e, ws') =>
        if isOccupied e then
          if level.name = "." then (.ok (), ws') else ws'.ensureDirectory level.path
        else (.error e, ws')
      | (.ok (), ws') =>
        if level.name = "." then (.ok (), ws') else ws'.ensureDirectory level.path

/-- Makes a directory and those above it. -/
def makeDirectories (ws : Workspace) (path : String) : Except FileError Unit × Workspace :=
  ws.makeLevels (levels path)

end Workspace

end Corrections
