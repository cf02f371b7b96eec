/-
  The shortest decimal of a double-precision number.

  * `Decimal` is a number `digits · 10 ^ exponent`.
  * `Rounding` is the interval of the reals that round to one number, on a decimal grid fine enough to
    hold the number itself. Its ends belong to it exactly when the significand is even.
  * `shortest rank` is the decimal with the fewest digits in that interval; of two with as many digits
    the nearer one, and of two equally near ones the even one.

  The grids are tried from the coarsest on. A grid that meets the interval has one of the two
  neighbours of the number in it, so two tests decide each grid.
-/
import Corrections.Binary64.Basic

namespace Corrections.Binary64

/-- The number `digits * 10 ^ exponent`. -/
structure Decimal where
  digits : Nat
  exponent : Int
  deriving DecidableEq

/-- The reals that round to `value * 10 ^ scale`, with ends in quarters of `10 ^ scale`. -/
structure Rounding where
  value : Nat
  low : Nat
  high : Nat
  closed : Bool
  scale : Int

namespace Rounding

/-- The interval of the finite number with the given rank. Below a power of two the numbers stand
twice as close. -/
def ofRank (rank : Nat) : Rounding :=
  let m := significand rank
  let q := exponent rank
  let unit := if q < 0 then Nat.pow 5 (-q).toNat else Nat.pow 2 q.toNat
  let narrow := m == ranksPerExponent && decide (2 * ranksPerExponent ≤ rank)
  { value := m * unit
    low := 4 * m * unit - (if narrow then unit else 2 * unit)
    high := 4 * m * unit + 2 * unit
    closed := m % 2 == 0
    scale := if q < 0 then q else 0 }

/-- `n * 10 ^ scale` lies in the interval. -/
def contains (r : Rounding) (n : Nat) : Bool :=
  if r.closed then decide (r.low ≤ 4 * n ∧ 4 * n ≤ r.high)
  else decide (r.low < 4 * n ∧ 4 * n < r.high)

/-- Of the neighbours `d` and `d + 1` of the value on the grid of width `width` the nearer one, and of
equally near ones the even one. -/
def nearer (r : Rounding) (width d : Nat) : Nat :=
  let above := r.value - d * width
  let below := (d + 1) * width - r.value
  if above < below then d
  else if below < above then d + 1
  else if d % 2 == 0 then d else d + 1

/-- The neighbour of the value on the grid of width `width` that lies in the interval. -/
def pick? (r : Rounding) (width : Nat) : Option Nat :=
  let d := r.value / width
  match r.contains (d * width), r.contains ((d + 1) * width) with
  | true, true => some (r.nearer width d)
  | true, false => some d
  | false, true => some (d + 1)
  | false, false => none

/-- The coarsest hit among the grids that drop at most `dropped` digits. -/
def coarsest (r : Rounding) : (dropped : Nat) → Decimal
  | 0 => ⟨r.value, r.scale⟩
  | dropped + 1 =>
    match r.pick? (Nat.pow 10 (dropped + 1)) with
    | some d => ⟨d, r.scale + (dropped + 1 : Nat)⟩
    | none => r.coarsest dropped

end Rounding

/-- The shortest decimal that rounds to the number of the given rank. No grid wider than the value
meets the interval, so the search starts at a power of ten above it. -/
def shortest (rank : Nat) : Decimal :=
  let r := Rounding.ofRank rank
  r.coarsest (r.value.log2 / 3 + 1)

end Corrections.Binary64
