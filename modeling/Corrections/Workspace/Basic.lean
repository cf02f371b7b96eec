/-
  The directories and files that a run can see.

  * `Workspace` holds directories and files by their places, a place being the names on the way from
    the root. The working directory `home` and the directories above it are always there.
  * `resolve` walks along a path: an empty name and `.` stay, `..` goes up, and the root is above
    itself.
  * `makeDirectory` and `openFile` are the two ways to change what exists; `write` changes the text of
    a file. All three put down one node, and `node?_set` says what is there afterwards.
-/
import Corrections.Table
import Corrections.Workspace.FileError

namespace Corrections

/-- The names on the way from the root. -/
abbrev Place : Type := List String

/-- What stands at a place. -/
inductive Node where
  | directory
  | file (text : String)
  deriving DecidableEq

/-- Directories and files. -/
structure Workspace where
  home : Place
  nodes : Table Place Node
  deriving DecidableEq

namespace Workspace

/-- The workspace with an empty working directory. -/
def empty (home : Place) : Workspace := ⟨home, .empty⟩

/-- What stands at a place. -/
def node? (ws : Workspace) (p : Place) : Option Node :=
  if p.isPrefixOf ws.home then some .directory else ws.nodes.get? p

/-- The workspace with `n` at the place `p`. -/
def set (ws : Workspace) (p : Place) (n : Node) : Workspace :=
  { ws with nodes := ws.nodes.insert p n }

/-- A node that is put down is there, unless the place belongs to the working directory and those above
it. -/
theorem node?_set (ws : Workspace) (p q : Place) (n : Node) :
    (ws.set p n).node? q =
      if q.isPrefixOf ws.home then some .directory else if p = q then some n else ws.node? q := by
  unfold node? set
  by_cases h : q.isPrefixOf ws.home
  · simp [h]
  · simp [h, Table.get?_insert]

/-- The text of the file at a place. -/
def text? (ws : Workspace) (p : Place) : Option String :=
  match ws.node? p with
  | some (.file text) => some text
  | _ => none

/-! ## Paths -/

/-- The parts of a path between its slashes. -/
def parts : List Char → List (List Char)
  | [] => [[]]
  | c :: rest =>
    if c = '/' then [] :: parts rest
    else
      match parts rest with
      | [] => [[c]]
      | name :: names => (c :: name) :: names

/-- The names on a path, of which some may be empty. -/
def names (path : String) : List String := (parts path.toList).map String.ofList

/-- Where a path starts: at the root or in the working directory. -/
def start (ws : Workspace) (path : String) : Place :=
  if path.toList.head? = some '/' then [] else ws.home

/-- The longest name in bytes. -/
def nameLimit : Nat := 255

/-- The longest path in bytes. -/
def pathLimit : Nat := 4095

/-- One step of a walk, from a directory to what `name` means there. -/
def step (ws : Workspace) (here : Place) (name : String) : Except FileFault Place :=
  if ws.node? here ≠ some .directory then .error .notDirectory
  else if name = "" ∨ name = "." then .ok here
  else if name = ".." then .ok here.dropLast
  else if nameLimit < name.utf8ByteSize then .error .nameTooLong
  else if (ws.node? (here ++ [name])).isSome then .ok (here ++ [name])
  else .error .missing

/-- A walk along names. -/
def walk (ws : Workspace) : Place → List String → Except FileFault Place
  | here, [] => .ok here
  | here, name :: rest =>
    match ws.step here name with
    | .ok next => ws.walk next rest
    | .error fault => .error fault

/-- What is wrong with a path before any walk. -/
def pathFault? (path : String) : Option FileFault :=
  if path = "" then some .missing
  else if pathLimit < path.utf8ByteSize then some .nameTooLong
  else none

/-- A path holds a null character. -/
def hasNull (path : String) : Bool := path.toList.contains '\x00'

/-- The place that a path leads to, if something is there. -/
def resolve? (ws : Workspace) (path : String) : Option Place :=
  if hasNull path then none
  else
    match pathFault? path with
    | some _ => none
    | none => (ws.walk (ws.start path) (names path)).toOption

/-- The path leads to something. -/
def reaches (ws : Workspace) (path : String) : Bool := (ws.resolve? path).isSome

/-- The path leads to a directory. -/
def reachesDirectory (ws : Workspace) (path : String) : Bool :=
  match ws.resolve? path with
  | some p => ws.node? p == some .directory
  | none => false

/-! ## Making directories and files -/

/-- The directory in which the last of `names` is to stand, and that last name. -/
def target (ws : Workspace) (path : String) (names : List String) :
    Except FileFault (Place × String) :=
  match pathFault? path with
  | some fault => .error fault
  | none =>
    match ws.walk (ws.start path) names.dropLast with
    | .error fault => .error fault
    | .ok here =>
      if ws.node? here ≠ some .directory then .error .notDirectory
      else .ok (here, names.getLastD "")

/-- The name stays in the directory or leaves it, and so names no entry of it. -/
def isDots (name : String) : Bool := name == "" || name == "." || name == ".."

/-- The names on a path without the empty ones at its end. -/
def trimmedNames (path : String) : List String :=
  ((names path).reverse.dropWhile String.isEmpty).reverse

/-- A new directory at the end of a path. -/
def newDirectory (ws : Workspace) (path : String) : Except FileFault Workspace :=
  match ws.target path (trimmedNames path) with
  | .error fault => .error fault
  | .ok (here, name) =>
    if isDots name then .error .occupied
    else if nameLimit < name.utf8ByteSize then .error .nameTooLong
    else if (ws.node? (here ++ [name])).isSome then .error .occupied
    else .ok (ws.set (here ++ [name]) .directory)

/-- An empty file at the end of a path, in the place of one that is there. -/
def newFile (ws : Workspace) (path : String) : Except FileFault (Place × Workspace) :=
  match ws.target path (names path) with
  | .error fault => .error fault
  | .ok (here, name) =>
    if isDots name then .error .isDirectory
    else if nameLimit < name.utf8ByteSize then .error .nameTooLong
    else if ws.node? (here ++ [name]) = some .directory then .error .isDirectory
    else .ok (here ++ [name], ws.set (here ++ [name]) (.file ""))

/-- The path is free of null characters, and then the operation decides. -/
def guarded {α : Type} (path : String) (operation : Except FileFault α) : Except FileError α :=
  if hasNull path then .error .nullCharacter
  else operation.mapError (.fault · path)

/-- Makes a directory. -/
def makeDirectory (ws : Workspace) (path : String) : Except FileError Workspace :=
  guarded path (ws.newDirectory path)

/-- Makes a file, or empties it, and tells its place. -/
def openFile (ws : Workspace) (path : String) : Except FileError (Place × Workspace) :=
  guarded path (ws.newFile path)

/-- Gives the file at a place its text. -/
def write (ws : Workspace) (p : Place) (text : String) : Workspace := ws.set p (.file text)

/-- The files of the working directory with their paths from there. -/
def files (ws : Workspace) : List (String × String) :=
  ws.nodes.entries.filterMap fun e =>
    match e.2 with
    | .file text =>
      if ws.home.isPrefixOf e.1 then some ("/".intercalate (e.1.drop ws.home.length), text) else none
    | .directory => none

end Workspace

end Corrections
