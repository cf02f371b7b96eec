/-
  What a command line asks for.

  * `Layout` is a command line cut at its options: the plain words in front, each option with the plain
    words behind it, and the words behind a separator, which are all plain.
  * `Options` is a well-formed request, and `Stop` why there is none: help was asked for, or the line
    is wrong.
  * `parse` reads a line. The options act from left to right, the first free plain word is the file,
    and words that nothing takes are reported only at the end.
-/
import Corrections.CommandLine.Word

namespace Corrections.CommandLine

/-- The request of a command line. -/
structure Options where
  file : String
  corrections : Option (List String)
  deriving DecidableEq

/-- The correction is selected. Without a selection all are. -/
def Options.selects (o : Options) (name : String) : Bool :=
  match o.corrections with
  | none => true
  | some names => names.isEmpty || names.contains name

/-- Why a command line gives no request. -/
inductive Stop where
  | help
  | usage (e : UsageError)
  deriving DecidableEq

/-! ## Layout -/

/-- The word behind which all words are plain. -/
def separator : String := "--"

/-- A command line cut at its options. -/
structure Layout where
  lead : List String
  groups : List (Flag × List String)
  tail : Option (List String)
  deriving DecidableEq

/-- The layout of a list of words. The words behind the separator are not looked at. -/
def Layout.ofWords : List String → Except UsageError Layout
  | [] => .ok ⟨[], [], none⟩
  | word :: rest =>
    if word = separator then .ok ⟨[], [], some rest⟩
    else
      match Word.read word, Layout.ofWords rest with
      | .error e, _ => .error e
      | _, .error e => .error e
      | .ok (.plain s), .ok l => .ok { l with lead := s :: l.lead }
      | .ok (.flag f), .ok l => .ok ⟨[], (f, l.lead) :: l.groups, l.tail⟩

/-! ## Reading a layout -/

/-- What was read of a command line so far. `fileLast` says that the file was the last word read. -/
structure Reading where
  file : Option String
  corrections : Option (List String)
  surplus : List String
  fileLast : Bool
  deriving DecidableEq

namespace Reading

/-- Nothing was read. -/
def start : Reading := ⟨none, none, [], false⟩

/-- A word that no option takes: the file, if there is none yet. -/
def word (r : Reading) (s : String) : Reading :=
  match r.file with
  | none => { r with file := some s, fileLast := true }
  | some _ => { r with surplus := r.surplus ++ [s], fileLast := false }

/-- Words that no option takes. -/
def words (r : Reading) (ss : List String) : Reading := ss.foldl word r

/-- What is left of the letters behind a short option when each of them is an option too; nothing is
left when the last one is. -/
def unbundle : List Char → Option (List Char)
  | 'h' :: [] => none
  | 'h' :: c :: rest => unbundle (c :: rest)
  | rest => some rest

/-- How a request for help ends. It takes no value. -/
def helpStop (short : Bool) : Option String → Stop
  | none => .help
  | some value =>
    if short then
      match unbundle value.toList with
      | none => .help
      | some rest => .usage (.helpValue (String.ofList rest))
    else .usage (.helpValue value)

/-- The selection that the value of an option makes. A separator selects nothing. -/
def selection (value : String) : List String := if value = separator then [] else [value]

/-- An option and the plain words behind it. The selection takes them all unless it has a value of
its own. -/
def group (r : Reading) (f : Flag) (ss : List String) : Except Stop Reading :=
  match f with
  | .help short value => .error (helpStop short value)
  | .corrections (some value) =>
    .ok ({ r with corrections := some (selection value), fileLast := false }.words ss)
  | .corrections none =>
    if ss.isEmpty then .error (.usage .missingCorrections)
    else .ok { r with corrections := some ss, fileLast := false }
  | .unknown w => .ok ({ r with surplus := r.surplus ++ [w], fileLast := false }.words ss)

/-- The options from left to right. -/
def groups (r : Reading) : List (Flag × List String) → Except Stop Reading
  | [] => .ok r
  | g :: rest =>
    match r.group g.1 g.2 with
    | .error stop => .error stop
    | .ok r' => r'.groups rest

/-- The separator and the words behind it. The separator itself is surplus unless the file stands
right before or behind it. -/
def tail (r : Reading) : Option (List String) → Reading
  | none => r
  | some ss =>
    if r.fileLast || (r.file.isNone && !ss.isEmpty) then r.words ss
    else { r with surplus := r.surplus ++ separator :: ss }

/-- The request, if the line is complete and nothing is left over. -/
def finish (r : Reading) : Except Stop Options :=
  match r.file with
  | none => .error (.usage .missingFile)
  | some file =>
    if r.surplus.isEmpty then .ok ⟨file, r.corrections⟩
    else .error (.usage (.unrecognized r.surplus))

end Reading

/-- The request of a command line. -/
def parse (line : List String) : Except Stop Options :=
  match Layout.ofWords line with
  | .error e => .error (.usage e)
  | .ok l =>
    match (Reading.start.words l.lead).groups l.groups with
    | .error stop => .error stop
    | .ok r => (r.tail l.tail).finish

/-! ## Texts -/

/-- How the program is called. -/
def usageText : String :=
  "usage: corrcc [-h] [--corrections CORRECTIONS [CORRECTIONS ...]]\n" ++
  "              input_json_file\n"

/-- The help. -/
def helpText : String :=
  usageText ++ "\n" ++
  "A correctionlib JSON to C compiler.\n" ++ "\n" ++
  "positional arguments:\n" ++
  "  input_json_file       Input JSON file\n" ++ "\n" ++
  "options:\n" ++
  "  -h, --help            show this help message and exit\n" ++
  "  --corrections CORRECTIONS [CORRECTIONS ...]\n" ++
  "                        List of corrections to compile\n"

/-- The report of a wrong command line. -/
def UsageError.report (e : UsageError) : String :=
  usageText ++ "corrcc: error: " ++ e.message ++ "\n"

end Corrections.CommandLine
