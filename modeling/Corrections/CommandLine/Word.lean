/-
  The words of a command line.

  * `Word` is a plain word or a `Flag`. A flag is one of the two options, possibly with a value of its
    own, or an option that is not known.
  * `Word.read` decides which. A word is plain if it does not start with `-`, is `-` itself, is a
    negative number, or is no known option and holds a blank. Long options may be cut short as long as
    one option is meant.
-/
import Corrections.Text.DecimalDigit
import Corrections.Text.Quoted

namespace Corrections.CommandLine

/-- Why a command line is refused. -/
inductive UsageError where
  | missingFile
  | missingCorrections
  | unrecognized (words : List String)
  | helpValue (value : String)
  | ambiguous (word : String)
  deriving DecidableEq

/-- The text of the error. -/
def UsageError.message : UsageError → String
  | .missingFile => "the following arguments are required: input_json_file"
  | .missingCorrections => "argument --corrections: expected at least one argument"
  | .unrecognized words => "unrecognized arguments: " ++ " ".intercalate words
  | .helpValue value => "argument -h/--help: ignored explicit argument " ++ Text.quoted value
  | .ambiguous word => "ambiguous option: " ++ word ++ " could match --help, --corrections"

/-- An option with the value that its own word gives it. -/
inductive Flag where
  | help (short : Bool) (value : Option String)
  | corrections (value : Option String)
  | unknown (word : String)
  deriving DecidableEq

/-- A word of a command line. -/
inductive Word where
  | plain (s : String)
  | flag (f : Flag)
  deriving DecidableEq

/-- The long option that asks for help. -/
def helpOption : String := "--help"

/-- The option that selects corrections. -/
def correctionsOption : String := "--corrections"

/-- The flag that is spelled exactly so. -/
def exactFlag? (word : String) (value : Option String) : Option Flag :=
  if word = "-h" then some (.help true value)
  else if word = helpOption then some (.help false value)
  else if word = correctionsOption then some (.corrections value)
  else none

/-- The part of a word before its first equals sign, and the part after it if there is one. -/
def splitValue : List Char → List Char × Option (List Char)
  | [] => ([], none)
  | c :: rest =>
    if c = '=' then ([], some rest)
    else ((c :: (splitValue rest).1), (splitValue rest).2)

/-- Digits, or a number with a point in it. -/
def isUnsignedNumber (s : List Char) : Bool :=
  let tail := s.dropWhile Text.isDecimalDigit
  match tail with
  | [] => !s.isEmpty
  | c :: rest => c == '.' && !rest.isEmpty && rest.all Text.isDecimalDigit

/-- A text without the line feed at its end. -/
def dropLineFeed (s : List Char) : List Char :=
  if s.getLast? = some '\n' then s.dropLast else s

/-- The word is a negative number; one line feed may follow it. -/
def isNegativeNumber : List Char → Bool
  | '-' :: rest => isUnsignedNumber rest || isUnsignedNumber (dropLineFeed rest)
  | _ => false

/-- The flag of a word that starts with two dashes: the option that `stem` begins. -/
def longFlag? (word stem : String) (value : Option String) : Except UsageError (Option Flag) :=
  let isHelp := stem.toList.isPrefixOf helpOption.toList
  let isCorrections := stem.toList.isPrefixOf correctionsOption.toList
  if isHelp && isCorrections then .error (.ambiguous word)
  else if isHelp then .ok (some (.help false value))
  else if isCorrections then .ok (some (.corrections value))
  else .ok none

/-- The flag that a word with a dash in front stands for, if it is a known one. -/
def knownFlag? (word : String) : Except UsageError (Option Flag) :=
  let stem := String.ofList (splitValue word.toList).1
  let value := (splitValue word.toList).2.map String.ofList
  match exactFlag? stem value with
  | some f => .ok (some f)
  | none =>
    match word.toList with
    | '-' :: '-' :: _ => longFlag? word stem value
    | '-' :: 'h' :: rest => .ok (some (.help true (some (String.ofList rest))))
    | _ => .ok none

/-- What a word is. -/
def Word.read (word : String) : Except UsageError Word :=
  match word.toList with
  | '-' :: _ :: _ =>
    match knownFlag? word with
    | .error e => .error e
    | .ok (some f) => .ok (.flag f)
    | .ok none =>
      if isNegativeNumber word.toList || word.toList.contains ' ' then .ok (.plain word)
      else .ok (.flag (.unknown word))
  | _ => .ok (.plain word)

end Corrections.CommandLine
