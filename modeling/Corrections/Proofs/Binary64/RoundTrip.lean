/-
  What is written is read back.

  * `roundsTo_shortest`: the shortest decimal of a number rounds to it.
  * `readMagnitude?_decimal`: the format does not change the value of a decimal.
  * `read?_text`: every number is read back from its text.
-/
import Corrections.Proofs.Binary64.Rounding

namespace Corrections.Binary64

/-! ## The shortest decimal -/

namespace Rounding

theorem contains_of_pick? {r : Rounding} {width d : Nat} (h : r.pick? width = some d) :
    r.contains (d * width) = true := by
  unfold pick? at h
  simp only at h
  split at h
  · next h1 h2 =>
    obtain rfl := Option.some.inj h
    unfold nearer
    simp only [beq_iff_eq]
    split_ifs <;> assumption
  · next h1 h2 => exact Option.some.inj h ▸ h1
  · next h1 h2 => exact Option.some.inj h ▸ h2
  · cases h

/-- The search stops at a decimal of the interval, at the latest at the number itself. -/
theorem coarsest_contains {r : Rounding} (h : r.contains r.value = true) (dropped : Nat) :
    ∃ k : Nat, (r.coarsest dropped).exponent = r.scale + k ∧
      r.contains ((r.coarsest dropped).digits * 10 ^ k) = true := by
  induction dropped with
  | zero => exact ⟨0, by simp [coarsest], by simpa [coarsest] using h⟩
  | succ dropped ih =>
    rw [coarsest]
    cases hp : r.pick? (Nat.pow 10 (dropped + 1)) with
    | none => exact ih
    | some d => exact ⟨dropped + 1, rfl, contains_of_pick? hp⟩

/-- The unit in the last place of a number, on the decimal grid of its interval. -/
def unit (rank : Nat) : Nat :=
  if exponent rank < 0 then Nat.pow 5 (-exponent rank).toNat else Nat.pow 2 (exponent rank).toNat

theorem unit_pos (rank : Nat) : 0 < unit rank := by
  unfold unit
  split_ifs
  · exact Nat.pow_pos (by decide)
  · exact Nat.pow_pos (by decide)

theorem unit_mul_scale (rank : Nat) :
    (unit rank : ℚ) * 10 ^ (ofRank rank).scale = 2 ^ exponent rank := by
  unfold unit ofRank
  simp only [Nat.pow_eq]
  split_ifs with h
  · obtain ⟨k, hk⟩ : ∃ k : Nat, exponent rank = -k := ⟨(exponent rank).natAbs, by omega⟩
    rw [hk, neg_neg, Int.toNat_natCast, zpow_neg, zpow_neg, zpow_natCast, zpow_natCast,
      show (10 : ℚ) = 5 * 2 by norm_num, mul_pow]
    push_cast
    field_simp
  · obtain ⟨k, hk⟩ : ∃ k : Nat, exponent rank = k := ⟨(exponent rank).toNat, by omega⟩
    rw [hk, Int.toNat_natCast, zpow_natCast]
    simp

/-- How far the interval of a number goes down, in quarters of the grid. -/
theorem low_add {rank : Nat} (hrank : 0 < rank) :
    ∃ w, (ofRank rank).low + w = 4 * (significand rank * unit rank) ∧ 0 < w ∧ w ≤ 2 * unit rank ∧
      (narrow rank → w = unit rank) := by
  have hu := unit_pos rank
  have hm : unit rank ≤ significand rank * unit rank :=
    Nat.le_mul_of_pos_left _ (significand_pos hrank)
  have hlow : (ofRank rank).low = 4 * significand rank * unit rank -
      (if significand rank == ranksPerExponent && decide (2 * ranksPerExponent ≤ rank)
        then unit rank else 2 * unit rank) := rfl
  rw [Nat.mul_assoc] at hlow
  by_cases h : narrow rank
  · rw [if_pos (by simpa [narrow] using h)] at hlow
    exact ⟨unit rank, by omega, hu, by omega, fun _ => rfl⟩
  · rw [if_neg (by simpa [narrow] using h)] at hlow
    exact ⟨2 * unit rank, by omega, by omega, le_rfl, fun h' => absurd h' h⟩

theorem contains_iff {rank n : Nat} :
    (ofRank rank).contains n = true ↔
      (ofRank rank).low ≤ 4 * n ∧ 4 * n ≤ 4 * (significand rank * unit rank) + 2 * unit rank ∧
        (significand rank % 2 = 1 → (ofRank rank).low ≠ 4 * n ∧
          4 * n ≠ 4 * (significand rank * unit rank) + 2 * unit rank) := by
  have hclosed : (ofRank rank).closed = (significand rank % 2 == 0) := rfl
  have hhigh : (ofRank rank).high = 4 * significand rank * unit rank + 2 * unit rank := rfl
  rw [Nat.mul_assoc] at hhigh
  unfold contains
  rw [hclosed, hhigh]
  split_ifs with h
  · simp only [beq_iff_eq] at h
    simp only [decide_eq_true_eq]
    omega
  · simp only [beq_iff_eq] at h
    simp only [decide_eq_true_eq]
    omega

theorem contains_value {rank : Nat} (hrank : 0 < rank) :
    (ofRank rank).contains (ofRank rank).value = true := by
  have hu := unit_pos rank
  obtain ⟨w, hw, hpos, -⟩ := low_add hrank
  have hvalue : (ofRank rank).value = significand rank * unit rank := rfl
  rw [contains_iff, hvalue]
  omega

/-- What lies in the interval of a number rounds to it. -/
theorem roundsTo_of_contains {rank n : Nat} (hrank : 0 < rank)
    (h : (ofRank rank).contains n = true) : RoundsTo (n * 10 ^ (ofRank rank).scale) rank := by
  have hu : (0 : ℚ) < unit rank := by exact_mod_cast unit_pos rank
  have hdiv : (n : ℚ) * 10 ^ (ofRank rank).scale / 2 ^ exponent rank = n / unit rank := by
    rw [← unit_mul_scale]
    field_simp
  obtain ⟨w, hw, -, hle, hnarrow⟩ := low_add hrank
  obtain ⟨hlow, hhigh, hodd⟩ := contains_iff.1 h
  -- The same bounds over the rationals.
  have hw' : ((ofRank rank).low : ℚ) + w = 4 * (significand rank * unit rank) := by exact_mod_cast hw
  have hle' : (w : ℚ) ≤ 2 * unit rank := by exact_mod_cast hle
  have hlow' : ((ofRank rank).low : ℚ) ≤ 4 * n := by exact_mod_cast hlow
  have hhigh' : (4 * n : ℚ) ≤ 4 * (significand rank * unit rank) + 2 * unit rank := by
    exact_mod_cast hhigh
  constructor
  · rw [hdiv, le_div_iff₀ hu]
    linarith
  · rw [hdiv, div_le_iff₀ hu]
    linarith
  · intro hm
    obtain ⟨hne, hne'⟩ := hodd hm
    rw [hdiv, ne_eq, ne_eq, eq_div_iff hu.ne', div_eq_iff hu.ne']
    refine ⟨fun heq => hne ?_, fun heq => hne' ?_⟩
    · have : (4 * n : ℚ) ≤ (ofRank rank).low := by linarith
      exact le_antisymm hlow (by exact_mod_cast this)
    · have : (4 * n : ℚ) = 4 * (significand rank * unit rank) + 2 * unit rank := by
        rw [heq]
        ring
      exact_mod_cast this
  · intro hn
    have hw'' : (w : ℚ) = unit rank := by exact_mod_cast hnarrow hn
    rw [hdiv, le_div_iff₀ hu]
    linarith

end Rounding

/-- The shortest decimal of a number rounds to it. -/
theorem roundsTo_shortest {rank : Nat} (hrank : 0 < rank) :
    RoundsTo ((shortest rank).digits * 10 ^ (shortest rank).exponent) rank := by
  obtain ⟨k, hk, hcontains⟩ := Rounding.coarsest_contains (Rounding.contains_value hrank)
    ((Rounding.ofRank rank).value.log2 / 3 + 1)
  have h := Rounding.roundsTo_of_contains hrank hcontains
  rw [shortest, hk, zpow_add₀ (by norm_num), zpow_natCast, mul_left_comm, mul_comm]
  push_cast at h
  exact h

/-! ## Reading a decimal -/

theorem digitsValue_append (a b : List Char) :
    digitsValue (a ++ b) = digitsValue a * 10 ^ b.length + digitsValue b := by
  change Nat.ofDigitChars 10 (a ++ b) 0 = _
  rw [Nat.ofDigitChars_append, Nat.ofDigitChars_eq_ofDigitChars_zero, Nat.mul_comm]
  rfl

theorem digitsValue_zeros (n : Nat) : digitsValue (List.replicate n '0') = 0 := by
  change Nat.ofDigitChars 10 (List.replicate n '0') 0 = 0
  simp

theorem digitsValue_toDigits (n : Nat) : digitsValue (Nat.toDigits 10 n) = n :=
  Nat.ofDigitChars_ten_toDigits

theorem isDigit_toDigits {n : Nat} {c : Char} (h : c ∈ Nat.toDigits 10 n) : c.isDigit = true :=
  Nat.isDigit_of_mem_toDigits (by decide) (by decide) h

theorem isDigit_zeros {n : Nat} {c : Char} (h : c ∈ List.replicate n '0') : c.isDigit = true := by
  rw [List.eq_of_mem_replicate h]
  decide

/-- A magnitude: digits, perhaps a point with digits behind it, and what is left for the exponent. -/
theorem readMagnitude?_append (negative : Bool) (whole point fraction tail : List Char) {e : Int}
    (hwhole : ∀ c ∈ whole, c.isDigit = true) (hfraction : ∀ c ∈ fraction, c.isDigit = true)
    (hne : whole ≠ []) (hpoint : point = ['.'] ∨ point = [] ∧ fraction = [])
    (htail : readExponent? tail = some e)
    (hstop : ∀ c ∈ tail.head?, c.isDigit = false ∧ c ≠ '.') :
    readMagnitude? negative (whole ++ point ++ fraction ++ tail) =
      some (ofDecimal negative (digitsValue (whole ++ fraction)) (e - fraction.length)) := by
  have htake : tail.takeWhile Char.isDigit = [] := by
    cases tail with
    | nil => rfl
    | cons c tail => simp [(hstop c rfl).1]
  have hdrop : tail.dropWhile Char.isDigit = tail := by
    cases tail with
    | nil => rfl
    | cons c tail => simp [(hstop c rfl).1]
  have hdot : Char.isDigit '.' = false := by decide
  unfold readMagnitude?
  rcases hpoint with rfl | ⟨rfl, rfl⟩
  · simp only [List.append_assoc, List.cons_append, List.nil_append]
    rw [List.takeWhile_append_of_pos hwhole, List.dropWhile_append_of_pos hwhole]
    simp [hdot, List.takeWhile_append_of_pos hfraction, List.dropWhile_append_of_pos hfraction,
      htake, hdrop, htail, hne]
  · have hhead : tail.head? ≠ some '.' := fun h => (hstop '.' h).2 rfl
    simp only [List.append_nil]
    rw [List.takeWhile_append_of_pos hwhole, List.dropWhile_append_of_pos hwhole]
    simp [htake, hdrop, htail, hne, hhead]

theorem readExponent?_scientific (width : Nat) (e : Int) :
    readExponent? ('e' :: (if e < 0 then '-' else '+') ::
      (List.replicate (width - (Nat.toDigits 10 e.natAbs).length) '0' ++ Nat.toDigits 10 e.natAbs)) =
      some e := by
  set ds := List.replicate (width - (Nat.toDigits 10 e.natAbs).length) '0' ++
    Nat.toDigits 10 e.natAbs with hds
  have hne : ds ≠ [] := by simp [hds]
  have hall : ds.all Char.isDigit = true := by
    rw [List.all_eq_true]
    intro c hc
    rcases List.mem_append.1 hc with hc | hc
    · exact isDigit_zeros hc
    · exact isDigit_toDigits hc
  have hvalue : digitsValue ds = e.natAbs := by
    rw [hds, digitsValue_append, digitsValue_zeros, digitsValue_toDigits]
    omega
  by_cases h : e < 0
  · have hsplit : splitSign ('-' :: ds) = (true, ds) := rfl
    simp only [readExponent?, h, if_true, hsplit]
    simp [hne, hall, hvalue, signed, abs_of_neg h]
  · have hsplit : splitSign ('+' :: ds) = (false, ds) := rfl
    simp only [readExponent?, h, if_false, hsplit]
    simp [hne, hall, hvalue, signed, abs_of_nonneg (not_lt.1 h)]

/-- Positional writing keeps the value of a decimal. -/
theorem readMagnitude?_positional (negative : Bool) {ds : List Char} (e : Int)
    (hds : ∀ c ∈ ds, c.isDigit = true) (hne : ds ≠ []) :
    ∃ (digits : Nat) (e' : Int),
      (digits : ℚ) * 10 ^ e' = digitsValue ds * 10 ^ (e - (ds.length - 1 : Int)) ∧
      readMagnitude? negative (positional ds e) = some (ofDecimal negative digits e') := by
  have hlen : 0 < ds.length := List.length_pos_iff.2 hne
  have hzeros : ∀ n, ∀ c ∈ List.replicate n '0', c.isDigit = true := fun _ _ => isDigit_zeros
  have hzero : digitsValue ['0'] = 0 := rfl
  have hend : readExponent? [] = some 0 := rfl
  by_cases hneg : e < 0
  · -- The point stands before all digits.
    rw [positional, if_pos hneg]
    have hread := readMagnitude?_append negative ['0'] ['.']
      (List.replicate (-e - 1).toNat '0' ++ ds) [] (hzeros 1)
      (List.forall_mem_append.2 ⟨hzeros _, hds⟩) (by simp) (.inl rfl) hend (by simp)
    have hvalue :
        digitsValue (['0'] ++ (List.replicate (-e - 1).toNat '0' ++ ds)) = digitsValue ds := by
      rw [digitsValue_append, digitsValue_append, digitsValue_zeros, hzero]
      omega
    rw [hvalue, List.length_append, List.length_replicate, List.append_nil] at hread
    refine ⟨_, _, ?_, hread⟩
    congr 2
    omega
  · rw [positional, if_neg hneg]
    by_cases hlong : ds.length ≤ e.toNat + 1
    · -- The point stands behind all digits.
      simp only [hlong, if_true]
      have hread := readMagnitude?_append negative
        (ds ++ List.replicate (e.toNat + 1 - ds.length) '0') ['.'] ['0'] []
        (List.forall_mem_append.2 ⟨hds, hzeros _⟩) (hzeros 1) (by simp [hne]) (.inl rfl) hend (by simp)
      rw [digitsValue_append, digitsValue_append, digitsValue_zeros, hzero, List.length_replicate,
        List.append_nil] at hread
      refine ⟨digitsValue ds * 10 ^ (e.toNat + 1 - ds.length) * 10, -1, ?_, by simpa using hread⟩
      have hexp : e - (ds.length - 1 : Int) = (e.toNat + 1 - ds.length : Nat) := by omega
      rw [hexp, zpow_natCast, zpow_neg_one]
      push_cast
      field_simp
    · -- The point stands between two digits.
      simp only [hlong, if_false]
      have hread := readMagnitude?_append negative (ds.take (e.toNat + 1)) ['.']
        (ds.drop (e.toNat + 1)) [] (fun c hc => hds c (List.mem_of_mem_take hc))
        (fun c hc => hds c (List.mem_of_mem_drop hc)) (by simp [hne]) (.inl rfl) hend (by simp)
      rw [List.take_append_drop, List.length_drop, List.append_nil, List.append_assoc] at hread
      refine ⟨_, _, ?_, hread⟩
      congr 2
      omega

/-- Writing with an exponent keeps the value of a decimal. -/
theorem readMagnitude?_scientific (negative : Bool) (width : Nat) {ds : List Char} (e : Int)
    (hds : ∀ c ∈ ds, c.isDigit = true) (hne : ds ≠ []) :
    readMagnitude? negative (scientific width ds e) =
      some (ofDecimal negative (digitsValue ds) (e - (ds.length - 1 : Int))) := by
  obtain ⟨c, ds, rfl⟩ := List.exists_cons_of_ne_nil hne
  have hpoint : (if ds.isEmpty then [] else '.' :: ds : List Char) =
      (if ds.isEmpty then [] else ['.']) ++ ds := by
    cases ds <;> simp
  have hread := readMagnitude?_append negative [c] (if ds.isEmpty then [] else ['.']) ds _
    (by simpa using hds c (by simp)) (fun c' hc' => hds c' (by simp [hc'])) (by simp)
    (by cases ds <;> simp) (readExponent?_scientific width e) (by simp)
  simp only [scientific, List.drop_succ_cons, List.drop_zero, List.take_succ_cons, List.take_zero,
    hpoint]
  rw [show ((c :: ds).length - 1 : Int) = ds.length by simp]
  simpa using hread

/-- **The format of a decimal keeps its value.** -/
theorem readMagnitude?_decimal (negative : Bool) (d : Decimal) :
    ∃ (digits : Nat) (e : Int), (digits : ℚ) * 10 ^ e = d.digits * 10 ^ d.exponent ∧
      readMagnitude? negative (Style.standard.decimal d) = some (ofDecimal negative digits e) := by
  have hds : ∀ c ∈ Nat.toDigits 10 d.digits, c.isDigit = true := fun c => isDigit_toDigits
  have hne : Nat.toDigits 10 d.digits ≠ [] := Nat.toDigits_ne_nil
  have hexp : d.exponent + (Nat.toDigits 10 d.digits).length - 1 -
      ((Nat.toDigits 10 d.digits).length - 1 : Int) = d.exponent := by omega
  unfold Style.decimal
  simp only
  split_ifs
  · obtain ⟨digits, e, hvalue, hread⟩ := readMagnitude?_positional negative
      (d.exponent + (Nat.toDigits 10 d.digits).length - 1) hds hne
    rw [digitsValue_toDigits, hexp] at hvalue
    exact ⟨digits, e, hvalue, hread⟩
  · have hread := readMagnitude?_scientific negative Style.standard.exponentWidth
      (d.exponent + (Nat.toDigits 10 d.digits).length - 1) hds hne
    rw [digitsValue_toDigits, hexp] at hread
    exact ⟨_, _, rfl, hread⟩

/-! ## Reading a number -/

/-- Positional writing is digits with a point between them. -/
theorem positional_eq {ds : List Char} (e : Int) (hds : ∀ c ∈ ds, c.isDigit = true) (hne : ds ≠ []) :
    ∃ whole fraction, positional ds e = whole ++ '.' :: fraction ∧ whole ≠ [] ∧
      (∀ c ∈ whole, c.isDigit = true) ∧ ∀ c ∈ fraction, c.isDigit = true := by
  have hzeros : ∀ n, ∀ c ∈ List.replicate n '0', c.isDigit = true := fun _ _ => isDigit_zeros
  unfold positional
  simp only
  split_ifs
  · refine ⟨['0'], List.replicate (-e - 1).toNat '0' ++ ds, by simp, by simp, hzeros 1, ?_⟩
    exact List.forall_mem_append.2 ⟨hzeros _, hds⟩
  · refine ⟨ds ++ List.replicate (e.toNat + 1 - ds.length) '0', ['0'], by simp, by simp [hne], ?_, hzeros 1⟩
    exact List.forall_mem_append.2 ⟨hds, hzeros _⟩
  · refine ⟨ds.take (e.toNat + 1), ds.drop (e.toNat + 1), rfl, by simp [hne], ?_, ?_⟩
    · exact fun c hc => hds c (List.mem_of_mem_take hc)
    · exact fun c hc => hds c (List.mem_of_mem_drop hc)

/-- Writing with an exponent is a digit, perhaps a point and digits, and then a signed exponent. -/
theorem scientific_eq (width : Nat) {ds : List Char} (e : Int) (hds : ∀ c ∈ ds, c.isDigit = true)
    (hne : ds ≠ []) : ∃ c fraction sign places,
      scientific width ds e = c :: fraction ++ 'e' :: sign :: places ∧ c.isDigit = true ∧
      (fraction = [] ∨ ∃ ds', fraction = '.' :: ds' ∧ ∀ c ∈ ds', c.isDigit = true) ∧
      (sign = '+' ∨ sign = '-') ∧ places ≠ [] ∧ ∀ x ∈ places, x.isDigit = true := by
  obtain ⟨c, ds, rfl⟩ := List.exists_cons_of_ne_nil hne
  rw [List.forall_mem_cons] at hds
  refine ⟨c, if ds.isEmpty then [] else '.' :: ds, if e < 0 then '-' else '+',
    List.replicate (width - (Nat.toDigits 10 e.natAbs).length) '0' ++ Nat.toDigits 10 e.natAbs,
    by simp [scientific], hds.1, ?_, by split_ifs <;> simp, by simp, ?_⟩
  · split_ifs
    · exact .inl rfl
    · exact .inr ⟨ds, rfl, hds.2⟩
  · intro x hx
    rcases List.mem_append.1 hx with hx | hx
    · exact isDigit_zeros hx
    · exact isDigit_toDigits hx

/-- A decimal is a digit, then a point and digits, and perhaps a signed exponent. -/
theorem decimal_eq (d : Decimal) : ∃ c cs exponent, Style.standard.decimal d = c :: cs ++ exponent ∧
    c.isDigit = true ∧ (∀ x ∈ cs, x.isDigit = true ∨ x = '.') ∧
    (exponent = [] ∨ ∃ sign places, exponent = 'e' :: sign :: places ∧ (sign = '+' ∨ sign = '-') ∧
      ∀ x ∈ places, x.isDigit = true) := by
  have hds : ∀ c ∈ Nat.toDigits 10 d.digits, c.isDigit = true := fun c => isDigit_toDigits
  unfold Style.decimal
  simp only
  split
  · obtain ⟨whole, fraction, heq, hne, hwhole, hfraction⟩ := positional_eq _ hds Nat.toDigits_ne_nil
    obtain ⟨c, cs, rfl⟩ := List.exists_cons_of_ne_nil hne
    rw [List.forall_mem_cons] at hwhole
    refine ⟨c, cs ++ '.' :: fraction, [], by rw [heq]; simp, hwhole.1, ?_, .inl rfl⟩
    intro x hx
    rcases List.mem_append.1 hx with hx | hx
    · exact .inl (hwhole.2 x hx)
    · rcases List.mem_cons.1 hx with rfl | hx
      · exact .inr rfl
      · exact .inl (hfraction x hx)
  · obtain ⟨c, fraction, sign, places, heq, hc, hfraction, hsign, -, hplaces⟩ :=
      scientific_eq _ _ hds Nat.toDigits_ne_nil
    refine ⟨c, fraction, _, heq, hc, ?_, .inr ⟨sign, places, rfl, hsign, hplaces⟩⟩
    intro x hx
    rcases hfraction with rfl | ⟨ds, rfl, hds⟩
    · cases hx
    · rcases List.mem_cons.1 hx with rfl | hx
      · exact .inr rfl
      · exact .inl (hds x hx)

/-- The characters of a decimal. -/
theorem mem_decimal {d : Decimal} {c : Char} (h : c ∈ Style.standard.decimal d) :
    c.isDigit = true ∨ c ∈ ['.', 'e', '+', '-'] := by
  obtain ⟨c', cs, exponent, heq, hc', hcs, hexponent⟩ := decimal_eq d
  rw [heq, List.cons_append, List.mem_cons, List.mem_append] at h
  rcases h with rfl | h | h
  · exact .inl hc'
  · exact (hcs c h).imp_right fun h => by simp [h]
  · rcases hexponent with rfl | ⟨sign, places, rfl, hsign, hplaces⟩
    · cases h
    · simp only [List.mem_cons] at h
      rcases h with rfl | rfl | h
      · exact .inr (by simp)
      · exact .inr (by rcases hsign with rfl | rfl <;> simp)
      · exact .inl (hplaces c h)

theorem readMagnitude?_shortest {negative : Bool} {rank : Nat} (hpos : 0 < rank)
    (hrank : rank < finiteRanks) :
    readMagnitude? negative (Style.standard.decimal (shortest rank)) =
      some (.finite negative ⟨rank, hrank⟩) := by
  obtain ⟨digits, e, hvalue, hread⟩ := readMagnitude?_decimal negative (shortest rank)
  have hrounds := roundsTo_shortest hpos
  rw [← hvalue] at hrounds
  have hdigits : 0 < digits := by
    by_contra h
    have hge := hrounds.ge hpos
    rw [Nat.eq_zero_of_not_pos h, Nat.cast_zero, zero_mul] at hge
    exact absurd hge (not_le.2 (by positivity))
  rw [hread, ofDecimal_eq hdigits hpos hrank hrounds]

/-- What begins with a digit is no word and has no sign. -/
theorem read?_ofList {negative : Bool} {m : List Char} (h : ∃ c cs, m = c :: cs ∧ c.isDigit = true) :
    read? (String.ofList (if negative then '-' :: m else m)) = readMagnitude? negative m := by
  obtain ⟨c, cs, rfl, hc⟩ := h
  have hne : ∀ c', c'.isDigit = false → c ≠ c' := by
    rintro c' hc' rfl
    rw [hc] at hc'
    cases hc'
  have hsplit : splitSign (if negative then '-' :: c :: cs else c :: cs) = (negative, c :: cs) := by
    cases negative with
    | true => rfl
    | false =>
      have hminus := hne '-' (by decide)
      have hplus := hne '+' (by decide)
      simp only [Bool.false_eq_true, if_false, splitSign]
      split <;> simp_all
  have hi := hne 'i' (by decide)
  have hn := hne 'n' (by decide)
  rw [read?, String.toList_ofList, hsplit]
  simp [hi, hn]

/-- **Every number is read back from its text.** -/
theorem read?_text (x : Binary64) : read? x.text = some x := by
  cases x with
  | nan => decide
  | infinity negative => cases negative <;> decide
  | finite negative rank =>
    have hhead : ∀ d, ∃ c cs, Style.standard.decimal d = c :: cs ∧ c.isDigit = true := by
      intro d
      obtain ⟨c, cs, exponent, heq, hc, -⟩ := decimal_eq d
      exact ⟨c, _, heq, hc⟩
    rw [text, read?_ofList (hhead _)]
    split_ifs with h
    · have hzero : rank = ⟨0, finiteRanks_pos⟩ := Fin.ext h
      have htext : Style.standard.decimal ⟨0, 0⟩ = ['0', '.', '0'] := by decide
      rw [hzero, htext]
      rfl
    · exact readMagnitude?_shortest (Nat.pos_of_ne_zero h) rank.isLt

/-- The digits of a natural number are read as the number nearest to it. -/
theorem read?_toString (n : Nat) : read? (toString n) = some (ofDecimal false n 0) := by
  have hdigits : ∀ c ∈ Nat.toDigits 10 n, c.isDigit = true := fun c => isDigit_toDigits
  have hne : Nat.toDigits 10 n ≠ [] := Nat.toDigits_ne_nil
  have hhead : ∃ c cs, Nat.toDigits 10 n = c :: cs ∧ c.isDigit = true := by
    obtain ⟨c, cs, hcs⟩ := List.exists_cons_of_ne_nil hne
    exact ⟨c, cs, hcs, hdigits c (by simp [hcs])⟩
  have htext : toString n =
      String.ofList (if false then '-' :: Nat.toDigits 10 n else Nat.toDigits 10 n) := by
    simp [toString, Nat.repr]
  have hread := readMagnitude?_append false (Nat.toDigits 10 n) [] [] [] hdigits (by simp) hne
    (.inr ⟨rfl, rfl⟩) rfl (by simp)
  rw [htext, read?_ofList hhead]
  simpa [digitsValue_toDigits] using hread

end Corrections.Binary64
