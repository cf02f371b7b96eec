/-
  How a double-precision number is written.

  * `Style` holds the decisions of the format, and `Style.standard` the ones taken here: positional
    from `0.0001` up to below `10 ^ 16`, always with a digit after the point; otherwise one digit
    before the point and a signed exponent of at least two digits.
  * `text x` is the shortest decimal of `x` in that format. The infinities and NaN are words, and a NaN
    has no sign.
-/
import Corrections.Binary64.Shortest

namespace Corrections.Binary64

/-- Where positional writing begins and ends, and how wide an exponent is at least. A decimal
`d.ddd * 10 ^ e` is positional when `positionalFrom ≤ e < positionalBelow`. -/
structure Style where
  positionalFrom : Int
  positionalBelow : Int
  exponentWidth : Nat

/-- Positional from `10 ^ -4` up to below `10 ^ 16`; exponents of two digits. -/
def Style.standard : Style := ⟨-4, 16, 2⟩

/-- The digits `ds` with the point behind the first one shifted by `e` places. -/
def positional (ds : List Char) (e : Int) : List Char :=
  if e < 0 then
    ['0', '.'] ++ List.replicate (-e - 1).toNat '0' ++ ds
  else
    let whole := e.toNat + 1
    if ds.length ≤ whole then
      ds ++ List.replicate (whole - ds.length) '0' ++ ['.', '0']
    else
      ds.take whole ++ '.' :: ds.drop whole

/-- The digits `ds` with one digit before the point and the exponent `e`. -/
def scientific (width : Nat) (ds : List Char) (e : Int) : List Char :=
  let tail := ds.drop 1
  let fraction := if tail.isEmpty then [] else '.' :: tail
  let places := Nat.toDigits 10 e.natAbs
  let sign := if e < 0 then '-' else '+'
  ds.take 1 ++ fraction ++ 'e' :: sign :: List.replicate (width - places.length) '0' ++ places

/-- A decimal in the given style. -/
def Style.decimal (style : Style) (d : Decimal) : List Char :=
  let ds := Nat.toDigits 10 d.digits
  let e := d.exponent + ds.length - 1
  if style.positionalFrom ≤ e ∧ e < style.positionalBelow then positional ds e
  else scientific style.exponentWidth ds e

/-- The text of a number. -/
def text : Binary64 → String
  | .nan => "nan"
  | .infinity negative => if negative then "-inf" else "inf"
  | .finite negative rank =>
    let magnitude := Style.standard.decimal (if rank.val = 0 then ⟨0, 0⟩ else shortest rank)
    String.ofList (if negative then '-' :: magnitude else magnitude)

-- The smallest number has one digit, although more digits are nearer to it.
example : (ofRank false 1).text = "5e-324" := by decide +kernel

end Corrections.Binary64
