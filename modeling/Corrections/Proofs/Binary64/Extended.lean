/-
  Double-precision numbers as extended reals.

  * `magnitude rank` is the real number of the given rank. It goes up by one unit of the last place
    from a rank to the next, across the exponents as well (`magnitude_succ`).
  * `toEReal` gives every number its value, the two infinities included.
  * `lt_iff_toEReal_lt`: the order of the numbers that are no NaNs is the order of their values.
-/
import Corrections.Proofs.Binary64.Rounding
import Mathlib.Data.EReal.Basic

namespace Corrections.Binary64

/-- The nonnegative number of the given rank. -/
noncomputable def magnitude (rank : Nat) : ℝ := significand rank * 2 ^ exponent rank

theorem magnitude_zero : magnitude 0 = 0 := by
  have h : significand 0 = 0 := by decide
  rw [magnitude, h, Nat.cast_zero, zero_mul]

/-- A rank and the next one have the same exponent, or the next one begins a new exponent. -/
theorem succ_cases (rank : Nat) :
    (exponent (rank + 1) = exponent rank ∧ significand (rank + 1) = significand rank + 1) ∨
      (exponent (rank + 1) = exponent rank + 1 ∧ significand (rank + 1) = ranksPerExponent ∧
        significand rank + 1 = 2 * ranksPerExponent) := by
  have hpos : 0 < ranksPerExponent := by decide
  obtain ⟨k, m, hm, rfl⟩ : ∃ k m, m < ranksPerExponent ∧ rank = ranksPerExponent * k + m :=
    ⟨_, _, Nat.mod_lt rank hpos, (Nat.div_add_mod rank _).symm⟩
  have hsmall : ∀ j < ranksPerExponent, (ranksPerExponent * k + j) / ranksPerExponent = k ∧
      (ranksPerExponent * k + j) % ranksPerExponent = j := by
    intro j hj
    rw [Nat.mul_add_div hpos, Nat.div_eq_of_lt hj, Nat.mul_add_mod, Nat.mod_eq_of_lt hj]
    exact ⟨Nat.add_zero k, rfl⟩
  obtain ⟨hdiv, hmod⟩ := hsmall m hm
  unfold exponent significand
  rw [hdiv, hmod]
  rcases Nat.eq_zero_or_pos k with rfl | hk
  · -- The ranks below the first full significand.
    rw [Nat.mul_zero, Nat.zero_add, if_pos hm, if_pos hm]
    rcases Nat.lt_or_eq_of_le hm with hlt | heq
    · rw [if_pos hlt, if_pos hlt]
      exact .inl ⟨rfl, rfl⟩
    · rw [show m + 1 = ranksPerExponent from heq, if_neg (Nat.lt_irrefl _), if_neg (Nat.lt_irrefl _),
        Nat.div_self hpos, Nat.mod_self]
      exact .inl ⟨by decide, rfl⟩
  · have hwide : ∀ j, ¬ ranksPerExponent * k + j < ranksPerExponent := by
      intro j
      have := Nat.le_mul_of_pos_right ranksPerExponent hk
      omega
    rw [if_neg (hwide m), if_neg (hwide m), Nat.add_assoc, if_neg (hwide _), if_neg (hwide _)]
    rcases Nat.lt_or_eq_of_le hm with hlt | heq
    · obtain ⟨hdiv', hmod'⟩ := hsmall (m + 1) hlt
      rw [hdiv', hmod']
      exact .inl ⟨rfl, rfl⟩
    · rw [show m + 1 = ranksPerExponent from heq, ← Nat.mul_succ, Nat.mul_div_cancel_left _ hpos,
        Nat.mul_mod_right]
      refine .inr ⟨by push_cast; omega, rfl, by omega⟩

theorem magnitude_succ (rank : Nat) :
    magnitude (rank + 1) = magnitude rank + 2 ^ exponent rank := by
  unfold magnitude
  rcases succ_cases rank with ⟨he, hs⟩ | ⟨he, hs, hs'⟩
  · rw [he, hs]
    push_cast
    ring
  · have hs' : (significand rank : ℝ) + 1 = 2 * ranksPerExponent := by exact_mod_cast hs'
    rw [he, hs, zpow_add_one₀ two_ne_zero]
    calc (ranksPerExponent : ℝ) * (2 ^ exponent rank * 2)
        = 2 * ranksPerExponent * 2 ^ exponent rank := by ring
      _ = significand rank * 2 ^ exponent rank + 2 ^ exponent rank := by rw [← hs']; ring

theorem magnitude_strictMono : StrictMono magnitude := by
  refine strictMono_nat_of_lt_succ fun rank => ?_
  rw [magnitude_succ]
  have : (0 : ℝ) < 2 ^ exponent rank := by positivity
  linarith

/-- The real number at the given place on the line. -/
noncomputable def atPosition (i : Int) : ℝ := if i < 0 then -magnitude i.natAbs else magnitude i.natAbs

theorem atPosition_lt_iff {i j : Int} : atPosition i < atPosition j ↔ i < j := by
  have hnonneg : ∀ n, 0 ≤ magnitude n := fun n =>
    magnitude_zero ▸ magnitude_strictMono.monotone (Nat.zero_le n)
  have hpos : ∀ {n}, 0 < n → 0 < magnitude n := fun hn =>
    magnitude_zero ▸ magnitude_strictMono hn
  unfold atPosition
  split_ifs with hi hj hj
  · rw [neg_lt_neg_iff, magnitude_strictMono.lt_iff_lt]
    omega
  · refine iff_of_true ?_ (by omega)
    linarith [hpos (show 0 < i.natAbs by omega), hnonneg j.natAbs]
  · refine iff_of_false ?_ (by omega)
    linarith [hpos (show 0 < j.natAbs by omega), hnonneg i.natAbs]
  · rw [magnitude_strictMono.lt_iff_lt]
    omega

/-- The value of a number. A NaN has none, and counts as zero. -/
noncomputable def toEReal : Binary64 → EReal
  | .nan => 0
  | .infinity negative => if negative then ⊥ else ⊤
  | .finite negative rank => (atPosition (signed negative rank) : ℝ)

variable {x y : Binary64}

/-- **Numbers are ordered as their values.** -/
theorem lt_iff_toEReal_lt (hx : x ≠ nan) (hy : y ≠ nan) :
    x.lt y = true ↔ x.toEReal < y.toEReal := by
  have hbound : ∀ (negative : Bool) (rank : Fin finiteRanks),
      -(finiteRanks : Int) < signed negative rank ∧ signed negative rank < finiteRanks := by
    intro negative rank
    have := rank.isLt
    cases negative <;> simp only [signed] <;> omega
  cases x with
  | nan => exact absurd rfl hx
  | infinity a =>
    cases y with
    | nan => exact absurd rfl hy
    | infinity b => cases a <;> cases b <;> simp [lt, position?, signed, toEReal, finiteRanks_pos]
    | finite b j =>
      obtain ⟨hlow, hhigh⟩ := hbound b j
      cases a
      · simpa [lt, position?, toEReal, signed] using hhigh.le
      · simpa [lt, position?, toEReal, signed, EReal.bot_lt_coe] using hlow
  | finite a i =>
    obtain ⟨hlow, hhigh⟩ := hbound a i
    cases y with
    | nan => exact absurd rfl hy
    | infinity b =>
      cases b
      · simpa [lt, position?, toEReal, signed, EReal.coe_lt_top] using hhigh
      · simpa [lt, position?, toEReal, signed] using hlow.le
    | finite b j =>
      simp [lt, position?, toEReal, atPosition_lt_iff]

end Corrections.Binary64
