/-
  Texts in quotes, as messages show them.

  * `quoted s` stands in apostrophes, or in double quotes if `s` holds an apostrophe and no double
    quote. The quote itself and the backslash are escaped by a backslash; tab, line feed and carriage
    return have escapes of one letter; every other character that is not printable is written by its
    code point.
-/
import Corrections.Text.Printable

namespace Corrections.Text

/-- The lowest `width` hexadecimal digits of `n`. -/
def hexDigits : (width : Nat) → (n : Nat) → List Char
  | 0, _ => []
  | width + 1, n => hexDigits width (n / 16) ++ [Nat.digitChar (n % 16)]

/-- A character by its code point, in the narrowest of the three forms. -/
def codeEscape (c : Char) : List Char :=
  if c.toNat < 0x100 then ['\\', 'x'] ++ hexDigits 2 c.toNat
  else if c.toNat < 0x10000 then ['\\', 'u'] ++ hexDigits 4 c.toNat
  else ['\\', 'U'] ++ hexDigits 8 c.toNat

/-- A character inside the quotes `quote`. -/
def escaped (quote c : Char) : List Char :=
  if c == quote || c == '\\' then ['\\', c]
  else if c == '\t' then ['\\', 't']
  else if c == '\n' then ['\\', 'n']
  else if c == '\r' then ['\\', 'r']
  else if printable c then [c]
  else codeEscape c

/-- The quote that stands around a text. -/
def quoteOf (s : List Char) : Char :=
  if s.contains '\x27' && !s.contains '\x22' then '\x22' else '\x27'

/-- `s` in quotes. -/
def quoted (s : String) : String :=
  let quote := quoteOf s.toList
  String.ofList (quote :: s.toList.flatMap (escaped quote) ++ [quote])

example : quoted "it's\n" = "\"it's\\n\"" := by decide +kernel

end Corrections.Text
