/-
  Rounding to the nearest double-precision number.

  * `RoundsTo x rank`: the number of the given rank is the nearest one to `x`, and of two equally near
    ones the one with the even significand.
  * `nearest_eq`: `nearest` finds that rank.
-/
import Corrections.Binary64.Reading
import Mathlib.Algebra.Order.Field.Power
import Mathlib.Data.Rat.Cast.Order
import Mathlib.Tactic.FieldSimp
import Mathlib.Tactic.Linarith
import Mathlib.Tactic.Positivity
import Mathlib.Tactic.Ring

namespace Corrections.Binary64

theorem ranksPerExponent_eq : ranksPerExponent = 2 ^ 52 := rfl

/-! ## Rounding a quotient to an integer -/

/-- The rounded quotient is the integer within a half of it; of two such integers it is the even one. -/
theorem roundDiv_eq {num den m : Nat} (hden : 0 < den) (hlo : (m : ℚ) - 1 / 2 ≤ num / den)
    (hhi : (num : ℚ) / den ≤ m + 1 / 2)
    (hodd : m % 2 = 1 → (m : ℚ) - 1 / 2 ≠ num / den ∧ (num : ℚ) / den ≠ m + 1 / 2) :
    roundDiv num den = m := by
  have hden' : (0 : ℚ) < den := by exact_mod_cast hden
  -- The hypotheses without fractions.
  rw [le_div_iff₀ hden'] at hlo
  rw [div_le_iff₀ hden'] at hhi
  rw [ne_eq, ne_eq, eq_div_iff hden'.ne', div_eq_iff hden'.ne'] at hodd
  have hlo : 2 * (m * den) ≤ 2 * num + den := by
    have : (2 * (m * den) : ℚ) ≤ 2 * num + den := by linarith
    exact_mod_cast this
  have hhi : 2 * num ≤ 2 * (m * den) + den := by
    have : (2 * num : ℚ) ≤ 2 * (m * den) + den := by linarith
    exact_mod_cast this
  have hodd : m % 2 = 1 → 2 * (m * den) ≠ 2 * num + den ∧ 2 * num ≠ 2 * (m * den) + den := by
    intro h
    refine ⟨fun h' => (hodd h).1 ?_, fun h' => (hodd h).2 ?_⟩
    · have : (2 * (m * den) : ℚ) = 2 * num + den := by exact_mod_cast h'
      linarith
    · have : (2 * num : ℚ) = 2 * (m * den) + den := by exact_mod_cast h'
      linarith
  have hnum := Nat.div_add_mod num den
  have hrest := Nat.mod_lt num hden
  have hle : num / den ≤ m := by
    by_contra h
    have := Nat.mul_le_mul_right den (show m + 1 ≤ num / den by omega)
    rw [Nat.add_mul, Nat.mul_comm (num / den)] at this
    omega
  have hge : m ≤ num / den + 1 := by
    by_contra h
    have := Nat.mul_le_mul_right den (show num / den + 2 ≤ m by omega)
    rw [Nat.add_mul, Nat.mul_comm (num / den)] at this
    omega
  unfold roundDiv
  simp only [beq_iff_eq]
  obtain rfl | rfl : m = num / den ∨ m = num / den + 1 := by omega
  · rw [Nat.mul_comm (num / den)] at hlo hhi hodd
    split_ifs <;> omega
  · rw [Nat.add_mul, Nat.mul_comm (num / den)] at hlo hhi hodd
    split_ifs <;> omega

/-! ## The unit of a quotient -/

theorem inUnits_pos (num : Nat) {den : Nat} (hden : 0 < den) (q : Int) : 0 < (inUnits num den q).2 := by
  unfold inUnits
  split_ifs
  · exact hden
  · exact Nat.mul_pos hden (Nat.pow_pos (by decide))

/-- `inUnits` divides by `2 ^ q`. -/
theorem inUnits_div (num den : Nat) (q : Int) :
    ((inUnits num den q).1 : ℚ) / (inUnits num den q).2 = num / den / 2 ^ q := by
  unfold inUnits
  split_ifs with h
  · obtain ⟨k, rfl⟩ : ∃ k : Nat, q = -k := ⟨q.natAbs, by omega⟩
    rw [zpow_neg, zpow_natCast, div_inv_eq_mul, neg_neg, Int.toNat_natCast]
    simp only [Nat.pow_eq, Nat.cast_mul, Nat.cast_pow, Nat.cast_ofNat]
    rw [mul_div_right_comm]
  · obtain ⟨k, rfl⟩ : ∃ k : Nat, q = k := ⟨q.toNat, by omega⟩
    rw [zpow_natCast, Int.toNat_natCast, div_div]
    simp only [Nat.pow_eq, Nat.cast_mul, Nat.cast_pow, Nat.cast_ofNat]

/-- The quotient in units of `2 ^ q`, rounded down, has at most 53 bits exactly when it is below
`2 ^ 53`. -/
theorem inUnits_div_lt_iff {num den : Nat} (hden : 0 < den) (q : Int) :
    (inUnits num den q).1 / (inUnits num den q).2 < 2 * ranksPerExponent ↔
      (num : ℚ) / den / 2 ^ q < 2 ^ 53 := by
  have hpos := inUnits_pos num hden q
  rw [Nat.div_lt_iff_lt_mul hpos, ← inUnits_div, div_lt_iff₀ (by exact_mod_cast hpos),
    ranksPerExponent_eq]
  norm_cast

/-- The unit is the one in which the quotient has 53 bits, unless that is too small. -/
theorem unitExponent_spec {num den : Nat} (hnum : 0 < num) (hden : 0 < den) :
    ∃ q : Int, unitExponent num den = max q (-1074) ∧ (2 : ℚ) ^ 52 ≤ num / den / 2 ^ q ∧
      (num : ℚ) / den / 2 ^ q < 2 ^ 53 := by
  have hnum' : (0 : ℚ) < num := by exact_mod_cast hnum
  have hden' : (0 : ℚ) < den := by exact_mod_cast hden
  -- The logarithms leave a factor of four.
  have hlow : (2 : ℚ) ^ 52 ≤ num / den / 2 ^ ((num.log2 : Int) - den.log2 - 53) := by
    have h1 : (2 : ℚ) ^ num.log2 ≤ num := by exact_mod_cast Nat.log2_self_le hnum.ne'
    have h2 : (den : ℚ) ≤ 2 ^ (den.log2 + 1) := by exact_mod_cast Nat.lt_log2_self.le
    rw [le_div_iff₀ (by positivity), le_div_iff₀ hden']
    calc (2 : ℚ) ^ 52 * 2 ^ ((num.log2 : Int) - den.log2 - 53) * den
        ≤ 2 ^ 52 * 2 ^ ((num.log2 : Int) - den.log2 - 53) * 2 ^ (den.log2 + 1) := by gcongr
      _ = 2 ^ num.log2 := by
        rw [← zpow_natCast, ← zpow_natCast, ← zpow_natCast, ← zpow_add₀ (by norm_num),
          ← zpow_add₀ (by norm_num)]
        congr 1
        push_cast
        omega
      _ ≤ num := h1
  have hhigh : (num : ℚ) / den / 2 ^ ((num.log2 : Int) - den.log2 - 53) < 2 ^ 54 := by
    have h1 : (num : ℚ) < 2 ^ (num.log2 + 1) := by exact_mod_cast Nat.lt_log2_self
    have h2 : (2 : ℚ) ^ den.log2 ≤ den := by exact_mod_cast Nat.log2_self_le hden.ne'
    rw [div_lt_iff₀ (by positivity), div_lt_iff₀ hden']
    calc (num : ℚ) < 2 ^ (num.log2 + 1) := h1
      _ = 2 ^ 54 * 2 ^ ((num.log2 : Int) - den.log2 - 53) * 2 ^ den.log2 := by
        rw [← zpow_natCast, ← zpow_natCast, ← zpow_natCast, ← zpow_add₀ (by norm_num),
          ← zpow_add₀ (by norm_num)]
        congr 1
        push_cast
        omega
      _ ≤ 2 ^ 54 * 2 ^ ((num.log2 : Int) - den.log2 - 53) * den := by gcongr
  unfold unitExponent
  simp only [inUnits_div_lt_iff hden]
  split_ifs with h
  · exact ⟨_, rfl, hlow, h⟩
  · refine ⟨_, rfl, ?_, ?_⟩
    · rw [zpow_add_one₀ (by norm_num), ← div_div, le_div_iff₀ (by norm_num)]
      linarith
    · rw [zpow_add_one₀ (by norm_num), ← div_div, div_lt_iff₀ (by norm_num)]
      linarith

theorem lt_of_mul_zpow_lt {a b : Nat} {q e : Int} {x : ℚ} (ha : (2 : ℚ) ^ a ≤ x / 2 ^ q)
    (hb : x / 2 ^ e < 2 ^ b) : a + q < b + e := by
  rw [le_div_iff₀ (by positivity)] at ha
  rw [div_lt_iff₀ (by positivity)] at hb
  have h := ha.trans_lt hb
  rw [← zpow_natCast, ← zpow_natCast, ← zpow_add₀ (by norm_num), ← zpow_add₀ (by norm_num)] at h
  exact (zpow_lt_zpow_iff_right₀ (by norm_num)).1 h

/-- Any exponent with which the quotient has 53 bits is the unit, and so is the least one if the
quotient has no more than that. -/
theorem unitExponent_eq {num den : Nat} {e : Int} (hnum : 0 < num) (hden : 0 < den)
    (he : -1074 ≤ e) (hlow : e = -1074 ∨ (2 : ℚ) ^ 52 ≤ num / den / 2 ^ e)
    (hhigh : (num : ℚ) / den / 2 ^ e < 2 ^ 53) : unitExponent num den = e := by
  obtain ⟨q, hq, hqlow, hqhigh⟩ := unitExponent_spec hnum hden
  have hle : q ≤ e := by
    have := lt_of_mul_zpow_lt hqlow hhigh
    omega
  rcases hlow with rfl | hlow
  · omega
  · have := lt_of_mul_zpow_lt hlow hqhigh
    omega

/-! ## The nearest number -/

theorem significand_lt (rank : Nat) : significand rank < 2 * ranksPerExponent := by
  have := Nat.mod_lt rank (show 0 < ranksPerExponent by decide)
  unfold significand
  split_ifs <;> omega

theorem exponent_ge (rank : Nat) : -1074 ≤ exponent rank := by
  unfold exponent
  split_ifs with h
  · exact le_rfl
  · have := Nat.div_pos (not_lt.1 h) (by decide)
    omega

/-- Beyond the least exponent the significand has its full width. -/
theorem wide_of_exponent_gt {rank : Nat} (h : -1074 < exponent rank) :
    2 * ranksPerExponent ≤ rank ∧ ranksPerExponent ≤ significand rank := by
  unfold exponent at h
  split_ifs at h with hlt
  · exact absurd h (lt_irrefl _)
  · refine ⟨(Nat.le_div_iff_mul_le (by decide)).1 (by omega), ?_⟩
    unfold significand
    rw [if_neg hlt]
    exact Nat.le_add_right _ _

/-- The rank by its exponent and its significand. -/
theorem rank_eq (rank : Nat) :
    (exponent rank + 1074).toNat * ranksPerExponent + significand rank = rank := by
  unfold exponent significand
  split_ifs with h
  · simp
  · have hpos := Nat.div_pos (not_lt.1 h) (show 0 < ranksPerExponent by decide)
    have hrank := Nat.div_add_mod rank ranksPerExponent
    obtain ⟨k, hk⟩ : ∃ k, rank / ranksPerExponent = k + 1 := ⟨_, (Nat.succ_pred_eq_of_pos hpos).symm⟩
    rw [hk] at hrank ⊢
    rw [show ((k + 1 : Nat) : Int) - 1075 + 1074 = k by omega, Int.toNat_natCast]
    rw [Nat.mul_add, Nat.mul_comm] at hrank
    omega

/-- Below a power of two the numbers stand twice as close as above it. -/
def narrow (rank : Nat) : Prop :=
  significand rank = ranksPerExponent ∧ 2 * ranksPerExponent ≤ rank

/-- The number of the given rank is the nearest one to `x`; if another one is as near, its significand
is even. Distances are in units of the last place. -/
structure RoundsTo (x : ℚ) (rank : Nat) : Prop where
  low : (significand rank : ℚ) - 1 / 2 ≤ x / 2 ^ exponent rank
  high : x / 2 ^ exponent rank ≤ significand rank + 1 / 2
  odd : significand rank % 2 = 1 → (significand rank : ℚ) - 1 / 2 ≠ x / 2 ^ exponent rank ∧
    x / 2 ^ exponent rank ≠ significand rank + 1 / 2
  narrow : narrow rank → (significand rank : ℚ) - 1 / 4 ≤ x / 2 ^ exponent rank

/-- **`nearest` rounds to the nearest number.** -/
theorem nearest_eq {num den rank : Nat} (hnum : 0 < num) (hden : 0 < den)
    (h : RoundsTo (num / den) rank) : nearest num den = rank := by
  have hR : (ranksPerExponent : ℚ) = 2 ^ 52 := by rw [ranksPerExponent_eq]; norm_cast
  have hm : (significand rank : ℚ) + 1 ≤ 2 * 2 ^ 52 := by
    rw [← hR]
    exact_mod_cast significand_lt rank
  unfold nearest
  rw [if_neg hnum.ne']
  by_cases hx : exponent rank = -1074 ∨ (2 : ℚ) ^ 52 ≤ num / den / 2 ^ exponent rank
  · -- The quotient has the exponent of the number.
    have hq : unitExponent num den = exponent rank :=
      unitExponent_eq hnum hden (exponent_ge rank) hx (by linarith [h.high])
    simp only [hq]
    rw [roundDiv_eq (m := significand rank) (inUnits_pos num hden _), rank_eq] <;> rw [inUnits_div]
    · exact h.low
    · exact h.high
    · exact h.odd
  · -- The number is a power of two, and the quotient is below it, where the exponent is smaller.
    obtain ⟨he, hx⟩ := not_or.1 hx
    have he : -1074 < exponent rank := lt_of_le_of_ne (exponent_ge rank) (Ne.symm he)
    obtain ⟨hwide, hle⟩ := wide_of_exponent_gt he
    have heq : significand rank = ranksPerExponent := by
      have : (significand rank : ℚ) < ranksPerExponent + 1 := by linarith [h.low]
      have : significand rank < ranksPerExponent + 1 := by exact_mod_cast this
      omega
    have hlow := h.narrow ⟨heq, hwide⟩
    rw [heq, hR] at hlow
    have htwice : (num : ℚ) / den / 2 ^ (exponent rank - 1) = 2 * (num / den / 2 ^ exponent rank) := by
      rw [zpow_sub_one₀ (by norm_num)]
      field_simp
    have hq : unitExponent num den = exponent rank - 1 :=
      unitExponent_eq hnum hden (by omega) (.inr (by linarith)) (by linarith)
    simp only [hq]
    rw [roundDiv_eq (m := 2 * ranksPerExponent) (inUnits_pos num hden _)]
    · have hrank := rank_eq rank
      rw [heq] at hrank
      rw [show (exponent rank + 1074).toNat = (exponent rank - 1 + 1074).toNat + 1 by omega,
        Nat.add_mul] at hrank
      omega
    · rw [inUnits_div, htwice]
      push_cast
      linarith
    · rw [inUnits_div, htwice]
      push_cast
      linarith
    · omega

/-! ## Decimals -/

theorem significand_pos {rank : Nat} (h : 0 < rank) : 0 < significand rank := by
  have hR : 0 < ranksPerExponent := by decide
  unfold significand
  split_ifs <;> omega

theorem exponent_le {rank : Nat} (h : rank < finiteRanks) : exponent rank ≤ 971 := by
  unfold exponent
  split_ifs
  · decide
  · have : rank / ranksPerExponent < 2047 := (Nat.div_lt_iff_lt_mul (by decide)).2 h
    omega

/-- What rounds to a finite number is not too great. -/
theorem RoundsTo.lt {x : ℚ} {rank : Nat} (h : RoundsTo x rank) (hrank : rank < finiteRanks) :
    x < 2 ^ (1024 : Int) := by
  have hm : (significand rank : ℚ) + 1 / 2 < 2 ^ (53 : Int) := by
    have hlt : (significand rank : ℚ) + 1 ≤ (2 * ranksPerExponent : Nat) := by
      exact_mod_cast significand_lt rank
    rw [ranksPerExponent_eq] at hlt
    norm_num at hlt ⊢
    linarith
  have h := h.high
  rw [div_le_iff₀ (by positivity)] at h
  calc x ≤ (significand rank + 1 / 2) * 2 ^ exponent rank := h
    _ < 2 ^ (53 : Int) * 2 ^ exponent rank := by gcongr
    _ = 2 ^ (53 + exponent rank) := (zpow_add₀ (by norm_num) _ _).symm
    _ ≤ 2 ^ (1024 : Int) :=
      zpow_le_zpow_right₀ (by norm_num) (by have := exponent_le hrank; omega)

/-- What rounds to a number other than zero is not too small. -/
theorem RoundsTo.ge {x : ℚ} {rank : Nat} (h : RoundsTo x rank) (hrank : 0 < rank) :
    2 ^ (-1075 : Int) ≤ x := by
  have hm : (1 : ℚ) ≤ significand rank := by exact_mod_cast significand_pos hrank
  have h := h.low
  rw [le_div_iff₀ (by positivity)] at h
  calc (2 : ℚ) ^ (-1075 : Int) = 1 / 2 * 2 ^ (-1074 : Int) := by
        rw [show (-1075 : Int) = -1074 - 1 by norm_num, zpow_sub_one₀ (by norm_num)]
        ring
    _ ≤ (significand rank - 1 / 2) * 2 ^ exponent rank := by
      gcongr
      · linarith
      · linarith
      · norm_num
      · exact exponent_ge rank
    _ ≤ x := h

/-- **A decimal is read as the nearest number.** -/
theorem ofDecimal_eq {negative : Bool} {digits : Nat} {exponent : Int} {rank : Nat}
    (hdigits : 0 < digits) (hpos : 0 < rank) (hrank : rank < finiteRanks)
    (h : RoundsTo (digits * 10 ^ exponent) rank) :
    ofDecimal negative digits exponent = .finite negative ⟨rank, hrank⟩ := by
  have hnotHigh : ¬ 400 < exponent := by
    intro hexp
    have hdigits' : (1 : ℚ) ≤ digits := by exact_mod_cast hdigits
    refine absurd (h.lt hrank) (not_lt.2 ?_)
    calc (2 : ℚ) ^ (1024 : Int) ≤ 2 ^ (3 * exponent) :=
          zpow_le_zpow_right₀ (by norm_num) (by omega)
      _ ≤ 10 ^ exponent := by
        obtain ⟨k, rfl⟩ : ∃ k : Nat, exponent = k := ⟨exponent.toNat, by omega⟩
        rw [zpow_mul, zpow_natCast, zpow_natCast]
        gcongr
        norm_num
      _ ≤ digits * 10 ^ exponent := le_mul_of_one_le_left (by positivity) hdigits'
  have hnotLow : ¬ (digits.log2 + 1 + 3 * exponent < -1080 ∧ exponent < 0) := by
    rintro ⟨hexp, hneg⟩
    have hlog : (digits : ℚ) < 2 ^ ((digits.log2 + 1 : Nat) : Int) := by
      rw [zpow_natCast]
      exact_mod_cast Nat.lt_log2_self
    have hten : (10 : ℚ) ^ exponent ≤ 2 ^ (3 * exponent) := by
      obtain ⟨k, rfl⟩ : ∃ k : Nat, exponent = -k := ⟨exponent.natAbs, by omega⟩
      rw [zpow_mul, zpow_neg, zpow_neg, zpow_natCast, zpow_natCast]
      gcongr
      norm_num
    refine absurd (h.ge hpos) (not_le.2 ?_)
    calc (digits : ℚ) * 10 ^ exponent ≤ digits * 2 ^ (3 * exponent) := by gcongr
      _ < 2 ^ ((digits.log2 + 1 : Nat) : Int) * 2 ^ (3 * exponent) := by gcongr
      _ = 2 ^ ((digits.log2 + 1 : Nat) + 3 * exponent) := (zpow_add₀ (by norm_num) _ _).symm
      _ ≤ 2 ^ (-1075 : Int) := zpow_le_zpow_right₀ (by norm_num) (by push_cast; omega)
  have hten : ∀ n, 0 < 10 ^ n := fun n => Nat.pow_pos (by decide)
  unfold ofDecimal
  rw [if_neg hdigits.ne', if_neg hnotHigh, if_neg hnotLow]
  simp only [Nat.pow_eq]
  split_ifs with hneg
  · obtain ⟨k, rfl⟩ : ∃ k : Nat, exponent = -k := ⟨exponent.natAbs, by omega⟩
    rw [zpow_neg, zpow_natCast, ← div_eq_mul_inv] at h
    have hnearest : nearest digits (10 ^ k) = rank :=
      nearest_eq hdigits (hten k) (by exact_mod_cast h)
    rw [neg_neg, Int.toNat_natCast, hnearest, ofRank, dif_pos hrank]
  · obtain ⟨k, rfl⟩ : ∃ k : Nat, exponent = k := ⟨exponent.toNat, by omega⟩
    rw [zpow_natCast] at h
    have hnearest : nearest (digits * 10 ^ k) 1 = rank := by
      refine nearest_eq (Nat.mul_pos hdigits (hten k)) Nat.one_pos ?_
      rw [Nat.cast_one, div_one]
      exact_mod_cast h
    rw [Int.toNat_natCast, hnearest, ofRank, dif_pos hrank]

end Corrections.Binary64
