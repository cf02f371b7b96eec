/-
  Reading a double-precision number.

  * `nearest num den` is the rank of the number nearest to `num / den`; of two equally near ones it is
    the one with the even significand. Ranks from `finiteRanks` on mean infinity.
  * `ofDecimal` rounds `digits · 10 ^ exponent`.
  * `read? s` reads a decimal literal, `inf` or `nan`, each with an optional sign.
-/
import Corrections.Binary64.Literal

namespace Corrections.Binary64

/-- The quotient rounded to an integer, a half going to the even neighbour. -/
def roundDiv (num den : Nat) : Nat :=
  let d := num / den
  let rest := num % den
  if 2 * rest < den then d
  else if den < 2 * rest then d + 1
  else if d % 2 == 0 then d else d + 1

/-- `num / den` in units of `2 ^ q`, as numerator and denominator. -/
def inUnits (num den : Nat) (q : Int) : Nat × Nat :=
  if q < 0 then (num * Nat.pow 2 (-q).toNat, den) else (num, den * Nat.pow 2 q.toNat)

/-- The least exponent with which the significand of `num / den` has no more than 53 bits, but not
below the exponent of the smallest numbers. -/
def unitExponent (num den : Nat) : Int :=
  let q : Int := num.log2 - den.log2 - 53
  let scaled := inUnits num den q
  max (if scaled.1 / scaled.2 < 2 * ranksPerExponent then q else q + 1) (-1074)

/-- The rank of the number nearest to `num / den`. A significand that rounds up to the next power of
two carries into the exponent. -/
def nearest (num den : Nat) : Nat :=
  if num = 0 then 0
  else
    let q := unitExponent num den
    let scaled := inUnits num den q
    (q + 1074).toNat * ranksPerExponent + roundDiv scaled.1 scaled.2

/-- The number nearest to `digits * 10 ^ exponent`. Beyond `10 ^ 400` and below `2 ^ -1080` the result
is known without the powers. -/
def ofDecimal (negative : Bool) (digits : Nat) (exponent : Int) : Binary64 :=
  if digits = 0 then zero negative
  else if 400 < exponent then .infinity negative
  else if digits.log2 + 1 + 3 * exponent < -1080 ∧ exponent < 0 then zero negative
  else if exponent < 0 then ofRank negative (nearest digits (Nat.pow 10 (-exponent).toNat))
  else ofRank negative (nearest (digits * Nat.pow 10 exponent.toNat) 1)

/-- The value of decimal digits. -/
def digitsValue (ds : List Char) : Nat :=
  ds.foldl (fun n c => 10 * n + (c.toNat - '0'.toNat)) 0

/-- The sign in front of a text, and the rest. -/
def splitSign : List Char → Bool × List Char
  | '-' :: rest => (true, rest)
  | '+' :: rest => (false, rest)
  | rest => (false, rest)

/-- An exponent part: nothing, or `e` and a signed integer. -/
def readExponent? : List Char → Option Int
  | [] => some 0
  | c :: rest =>
    let (negative, ds) := splitSign rest
    if (c == 'e' || c == 'E') && !ds.isEmpty && ds.all Char.isDigit then
      some (signed negative (digitsValue ds))
    else none

/-- A decimal literal without its sign. -/
def readMagnitude? (negative : Bool) (s : List Char) : Option Binary64 :=
  let whole := s.takeWhile Char.isDigit
  let rest := s.dropWhile Char.isDigit
  let tail := if rest.head? == some '.' then rest.drop 1 else []
  let fraction := tail.takeWhile Char.isDigit
  let after := if rest.head? == some '.' then tail.dropWhile Char.isDigit else rest
  let ds := whole ++ fraction
  if ds.isEmpty then none
  else (readExponent? after).map fun e => ofDecimal negative (digitsValue ds) (e - fraction.length)

/-- A number as a text gives it. -/
def read? (s : String) : Option Binary64 :=
  let (negative, rest) := splitSign s.toList
  if rest == ['i', 'n', 'f'] then some (.infinity negative)
  else if rest == ['n', 'a', 'n'] then some .nan
  else readMagnitude? negative rest

-- What is written is read back, at the ends of positional writing too.
example : (read? "0.1").map text = some "0.1" := by decide +kernel
example : (read? "0.00001").map text = some "1e-05" := by decide +kernel
example : (read? "10000000000000000").map text = some "1e+16" := by decide +kernel
example : (read? "-0").map text = some "-0.0" := by decide +kernel

end Corrections.Binary64
