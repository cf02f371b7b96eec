/-
  Double-precision numbers.

  * `Binary64` is a number of the binary interchange format with 64 bits. A finite number is a sign and
    a rank: its place in the increasing list of the nonnegative finite numbers.
  * `significand` and `exponent` give the magnitude of a rank as `significand · 2 ^ exponent`.
  * `lt` is the order of the numbers. The two zeros are equal, and a NaN is not below and not above
    anything; `lt_iff` says so through the place of a number on the line, `position?`.
-/
namespace Corrections

namespace Binary64

/-- The ranks with one exponent. -/
def ranksPerExponent : Nat := Nat.pow 2 52

/-- The number of finite ranks; the rank where infinity would be. -/
def finiteRanks : Nat := 2047 * ranksPerExponent

end Binary64

/-- A number of the binary format with 64 bits. All NaNs are one. -/
inductive Binary64 where
  | nan
  | infinity (negative : Bool)
  | finite (negative : Bool) (rank : Fin Binary64.finiteRanks)
  deriving DecidableEq

namespace Binary64

theorem finiteRanks_pos : 0 < finiteRanks := by decide

/-- The zero with the given sign. -/
def zero (negative : Bool) : Binary64 := .finite negative ⟨0, finiteRanks_pos⟩

instance : Inhabited Binary64 := ⟨zero false⟩

/-- The magnitude of rank `rank` is `significand rank * 2 ^ exponent rank`. -/
def significand (rank : Nat) : Nat :=
  if rank < ranksPerExponent then rank else ranksPerExponent + rank % ranksPerExponent

@[inherit_doc significand]
def exponent (rank : Nat) : Int :=
  if rank < ranksPerExponent then -1074 else (rank / ranksPerExponent : Nat) - 1075

/-- The number of the given rank; beyond the finite ranks it is infinity. -/
def ofRank (negative : Bool) (rank : Nat) : Binary64 :=
  if h : rank < finiteRanks then .finite negative ⟨rank, h⟩ else .infinity negative

/-- `n` or its negation. -/
def signed (negative : Bool) (n : Nat) : Int := if negative then -n else n

/-- The place of a number on the line; both zeros are at `0`, and a NaN has no place. -/
def position? : Binary64 → Option Int
  | .nan => none
  | .infinity negative => some (signed negative finiteRanks)
  | .finite negative rank => some (signed negative rank)

/-- `x` is below `y`. -/
def lt (x y : Binary64) : Bool :=
  match x.position?, y.position? with
  | some i, some j => decide (i < j)
  | _, _ => false

/-- `x` is a zero of either sign. -/
def isZero (x : Binary64) : Bool := x.position? == some 0

theorem lt_iff {x y : Binary64} :
    x.lt y = true ↔ ∃ i j, x.position? = some i ∧ y.position? = some j ∧ i < j := by
  unfold lt
  split
  next i j hx hy => simp [hx, hy]
  next h =>
    constructor
    · simp
    · rintro ⟨i, j, hx, hy, -⟩
      exact absurd hy (h i j hx)

theorem lt_trans {x y z : Binary64} (hxy : x.lt y = true) (hyz : y.lt z = true) :
    x.lt z = true := by
  obtain ⟨i, j, hi, hj, hij⟩ := lt_iff.1 hxy
  obtain ⟨j', k, hj', hk, hjk⟩ := lt_iff.1 hyz
  cases hj.symm.trans hj'
  exact lt_iff.2 ⟨i, k, hi, hk, Int.lt_trans hij hjk⟩

end Binary64

end Corrections
