import FormulaSearch.Proofs.Number.Size
import Mathlib.Data.Nat.Size

/-!
# Powers within a budget

What a power answers, case by case, and how long the powers are that it refuses. Within the budget
the answer is the exact power. The budget counts the size of the base times the exponent, which may
be almost twice the size of the power, so a refused power may be within the budget itself.
-/

namespace FormulaSearch.Exact

/-! ## Powers to integer exponents -/

theorem zpow_eq (b : Rat) (n : Int) :
    b ^ n = if n < 0 then (b ^ n.natAbs)⁻¹ else b ^ n.natAbs := by
  split
  · next hn =>
    have hneg : n = -(n.natAbs : Int) := by omega
    conv_lhs => rw [hneg, zpow_neg, zpow_natCast]
  · next hn =>
    have hpos : n = (n.natAbs : Int) := by omega
    conv_lhs => rw [hpos, zpow_natCast]

theorem sign_pow (a : Int) (k : Nat) : (a ^ k).sign = a.sign ^ k := by
  induction k with
  | zero => simp
  | succ k ih => rw [pow_succ, pow_succ, Int.sign_mul, ih]

/-- The fraction is the power of the base, in lowest terms. Under a negative exponent numerator and
denominator change places, and the sign stays above. -/
structure IsPower (b : Rat) (n : Int) (q : Rat) : Prop where
  num_eq : q.num = if n < 0 then b.num.sign ^ n.natAbs * b.den ^ n.natAbs else b.num ^ n.natAbs
  den_eq : q.den = if n < 0 then b.num.natAbs ^ n.natAbs else b.den ^ n.natAbs

theorem isPower_zpow {b : Rat} {n : Int} (h : b ≠ 0 ∨ 0 ≤ n) : IsPower b n (b ^ n) := by
  rw [zpow_eq]
  split
  · next hn =>
    have hb : b ^ n.natAbs ≠ 0 := pow_ne_zero _ (h.resolve_right (not_le.mpr hn))
    constructor
    · rw [if_pos hn, Rat.num_inv, Rat.num_pow, Rat.den_pow, sign_pow]
      push_cast
      rfl
    · rw [if_pos hn, Rat.den_inv_of_ne_zero hb, Rat.num_pow, Int.natAbs_pow]
  · next hn =>
    constructor
    · rw [if_neg hn, Rat.num_pow]
    · rw [if_neg hn, Rat.den_pow]

theorem power_intCast (b : Rat) (n : Int) : power b n = integerPower b n := by
  rw [power, if_pos (Rat.den_intCast n), Rat.num_intCast]

theorem integerPower_ne_fractionalExponent (b : Rat) (n : Int) :
    integerPower b n ≠ .error .fractionalExponent := by
  unfold integerPower
  split_ifs <;> simp

theorem power_eq_fractionalExponent_iff {b e : Rat} :
    power b e = .error .fractionalExponent ↔ ∀ n : Int, e ≠ n := by
  constructor
  · rintro h n rfl
    rw [power_intCast] at h
    exact integerPower_ne_fractionalExponent b n h
  · intro h
    refine power_eq_fractionalExponent fun hden => h e.num ?_
    exact (Rat.coe_int_num_of_den_eq_one hden).symm

theorem integerPower_zero (n : Int) : integerPower 0 n =
    if n < 0 then .error .divisionByZero else if n = 0 then .ok 1 else .ok 0 := by
  unfold integerPower
  rw [if_pos rfl]
  rcases lt_trichotomy n 0 with hn | rfl | hn
  · rw [if_neg hn.ne, if_pos hn, if_pos hn]
  · rfl
  · rw [if_neg hn.ne', if_neg hn.not_gt, if_neg hn.not_gt, if_neg hn.ne']

/-- The powers of the units are told by the parity of the exponent. -/
theorem integerPower_of_unit {b : Rat} (h : b = 1 ∨ b = -1) (n : Int) :
    integerPower b n = .ok (b ^ n) := by
  have hne : (1 : Rat) ≠ -1 := by norm_num
  rcases h with rfl | rfl
  · simp [integerPower, hne]
  · rcases Int.even_or_odd n with hn | hn
    · have hodd : ¬ n % 2 = 1 := by
        rw [Int.even_iff] at hn
        omega
      simp [integerPower, hn.neg_one_zpow, hodd]
    · simp [integerPower, hn.neg_one_zpow, Int.odd_iff.mp hn]

theorem integerPower_of_not_unit {b : Rat} (hzero : b ≠ 0) (hone : b ≠ 1) (hneg : b ≠ -1)
    (n : Int) : integerPower b n =
      if powerBudget < bitSize b * n.natAbs then .error .powerTooLarge else .ok (b ^ n) := by
  unfold integerPower
  rw [if_neg hzero, if_neg (by simp [hone, hneg])]
  simp only [exceedsBudget_iff (bitSize_pos b) n, zpow_eq]

theorem eq_zpow_of_integerPower {b q : Rat} {n : Int} (h : integerPower b n = .ok q) :
    q = b ^ n ∧ (b ≠ 0 ∨ 0 ≤ n) := by
  by_cases hzero : b = 0
  · subst hzero
    rw [integerPower_zero] at h
    split_ifs at h with hneg hn
    · subst hn
      exact ⟨by simpa using h.symm, .inr le_rfl⟩
    · exact ⟨by simpa [zero_zpow n hn] using h.symm, .inr (not_lt.mp hneg)⟩
  · refine ⟨?_, .inl hzero⟩
    by_cases hunit : b = 1 ∨ b = -1
    · rw [integerPower_of_unit hunit] at h
      exact (Except.ok.inj h).symm
    · obtain ⟨hone, hneg⟩ := not_or.mp hunit
      rw [integerPower_of_not_unit hzero hone hneg] at h
      split_ifs at h
      exact (Except.ok.inj h).symm

theorem bitLength_eq_size (n : Nat) : bitLength n = n.size := by
  apply le_antisymm
  · exact bitLength_le_iff.mpr n.lt_size_self
  · exact Nat.size_le.mpr (bitLength_le_iff.mp le_rfl)

theorem bitSize_eq_size (q : Rat) : bitSize q = max q.num.natAbs.size q.den.size := by
  rw [bitSize, bitLength_eq_size, bitLength_eq_size]

/-- What a power answers. An exponent has to be an integer, whatever the base is. Zero has no power
to a negative exponent, the units have all powers, and any other base has those for which its
longer part in bits, times the exponent, is within the budget. An answer is the exact power in
lowest terms. -/
theorem power_answers (b e : Rat) :
    (power b e = .error .fractionalExponent ↔ ∀ n : Int, e ≠ n) ∧
    ∀ n : Int, e = n →
      (b = 0 → power b e =
        if n < 0 then .error .divisionByZero else if n = 0 then .ok 1 else .ok 0) ∧
      (b = 1 ∨ b = -1 → power b e = .ok (b ^ n)) ∧
      (b ≠ 0 → b ≠ 1 → b ≠ -1 →
        (power b e = .error .powerTooLarge ↔
          65536 < max b.num.natAbs.size b.den.size * n.natAbs) ∧
        (max b.num.natAbs.size b.den.size * n.natAbs ≤ 65536 → power b e = .ok (b ^ n))) ∧
      ∀ q, power b e = .ok q → q.num.natAbs.Coprime q.den ∧ 0 < q.den ∧ IsPower b n q := by
  refine ⟨power_eq_fractionalExponent_iff, ?_⟩
  rintro n rfl
  rw [power_intCast, ← bitSize_eq_size]
  refine ⟨?_, fun hunit => integerPower_of_unit hunit n, fun hzero hone hneg => ?_, fun q hq => ?_⟩
  · rintro rfl
    exact integerPower_zero n
  · rw [integerPower_of_not_unit hzero hone hneg, powerBudget]
    constructor
    · split_ifs <;> simp_all
    · exact fun hle => if_neg (not_lt.mpr hle)
  · obtain ⟨rfl, hdefined⟩ := eq_zpow_of_integerPower hq
    exact ⟨Rat.reduced _, Rat.den_pos _, isPower_zpow hdefined⟩

theorem power_answers_negative_base :
    power (-2 / 3) (-3 : Int) = .ok ((-2 / 3) ^ (-3 : Int)) ∧
      IsPower (-2 / 3) (-3) ((-2 / 3) ^ (-3 : Int)) := by
  obtain ⟨-, -, hproper, hlowest⟩ := (power_answers (-2 / 3) (-3 : Int)).2 (-3) rfl
  have hanswer := (hproper (by norm_num) (by norm_num) (by norm_num)).2 (by decide +kernel)
  exact ⟨hanswer, (hlowest _ hanswer).2.2⟩

/-! ## Refused powers -/

theorem lt_bitSize_iff {q : Rat} {k : Nat} :
    k < bitSize q ↔ 2 ^ k ≤ q.num.natAbs ∨ 2 ^ k ≤ q.den := by
  rw [← not_le, bitSize_le_iff, not_and_or, not_lt, not_lt]

theorem lt_bitSize_pow {q : Rat} {k : Nat} (h : k < bitSize q) (n : Nat) :
    k * n < bitSize (q ^ n) := by
  rw [lt_bitSize_iff, Rat.num_pow, Rat.den_pow, Int.natAbs_pow, pow_mul]
  rcases lt_bitSize_iff.mp h with hnum | hden
  · exact .inl (Nat.pow_le_pow_left hnum n)
  · exact .inr (Nat.pow_le_pow_left hden n)

theorem bitSize_zpow (b : Rat) (n : Int) : bitSize (b ^ n) = bitSize (b ^ n.natAbs) := by
  rw [zpow_eq]
  split
  · exact bitSize_inv _
  · rfl

theorem bitSize_two_pow (k : Nat) : bitSize (2 ^ k) = k + 1 := by
  have hnum : ((2 : Rat) ^ k).num.natAbs = 2 ^ k := by
    rw [Rat.num_pow, Int.natAbs_pow]
    rfl
  have hden : ((2 : Rat) ^ k).den = 1 := by
    rw [Rat.den_pow]
    exact one_pow k
  rw [bitSize_eq_size, hnum, hden, Nat.size_pow, Nat.size_one]
  exact max_eq_left (Nat.le_add_left 1 k)

/-- Only zero and the units are a single bit long. -/
theorem one_lt_bitSize_iff {b : Rat} : 1 < bitSize b ↔ b ≠ 0 ∧ b ≠ 1 ∧ b ≠ -1 := by
  constructor
  · intro hlong
    have hshort : bitSize 0 = 1 ∧ bitSize 1 = 1 ∧ bitSize (-1) = 1 := by decide
    refine ⟨?_, ?_, ?_⟩
    all_goals
      rintro rfl
      omega
  · rintro ⟨hzero, hone, hneg⟩
    rw [lt_bitSize_iff]
    by_contra hshort
    push Not at hshort
    have hden : b.den = 1 := by
      have := b.den_pos
      omega
    have hb : b = b.num := (Rat.coe_int_num_of_den_eq_one hden).symm
    have hnum : b.num = 0 ∨ b.num = 1 ∨ b.num = -1 := by omega
    rcases hnum with h | h | h <;> rw [h] at hb
    · exact hzero (by simpa using hb)
    · exact hone (by simpa using hb)
    · exact hneg (by simpa using hb)

theorem power_eq_powerTooLarge_iff {b : Rat} {n : Int} :
    power b n = .error .powerTooLarge ↔ 1 < bitSize b ∧ powerBudget < bitSize b * n.natAbs := by
  rw [power_intCast, one_lt_bitSize_iff]
  constructor
  · intro h
    have hzero : b ≠ 0 := by
      rintro rfl
      rw [integerPower_zero] at h
      split_ifs at h
      simp at h
    have hunit : ¬ (b = 1 ∨ b = -1) := fun hunit => by
      simp [integerPower_of_unit hunit] at h
    obtain ⟨hone, hneg⟩ := not_or.mp hunit
    rw [integerPower_of_not_unit hzero hone hneg] at h
    split_ifs at h with hlong
    exact ⟨⟨hzero, hone, hneg⟩, hlong⟩
  · rintro ⟨⟨hzero, hone, hneg⟩, hlong⟩
    rw [integerPower_of_not_unit hzero hone hneg, if_pos hlong]

theorem bitSize_zpow_le (b : Rat) {n : Int} (hn : n ≠ 0) :
    bitSize (b ^ n) ≤ bitSize b * n.natAbs := by
  rw [bitSize_zpow]
  exact bitSize_pow_le b (Int.natAbs_ne_zero.mpr hn)

theorem lt_bitSize_zpow (b : Rat) (n : Int) :
    (bitSize b - 1) * n.natAbs < bitSize (b ^ n) := by
  rw [bitSize_zpow]
  exact lt_bitSize_pow (Nat.sub_one_lt_of_lt (bitSize_pos b)) n.natAbs

theorem one_lt_bitSize_of_zpow {b : Rat} {n : Int} (h : 1 < bitSize (b ^ n)) : 1 < bitSize b := by
  rw [one_lt_bitSize_iff] at h ⊢
  obtain ⟨hzero, hone, hneg⟩ := h
  refine ⟨?_, ?_, ?_⟩
  · rintro rfl
    rcases eq_or_ne n 0 with rfl | hn
    · exact hone (zpow_zero 0)
    · exact hzero (zero_zpow n hn)
  · rintro rfl
    exact hone (one_zpow n)
  · rintro rfl
    exact (Int.even_or_odd n).elim (fun hn => hone hn.neg_one_zpow) fun hn => hneg hn.neg_one_zpow

/-- Which powers are refused. The size of the base times the exponent is at least the size of the
power, so no power longer than the budget is computed. It may also be almost twice that size: all
that is certain of a refused power is that it is longer than half the budget and one bit. -/
theorem power_refusal (b : Rat) (n : Int) :
    (power b n = .error .powerTooLarge ↔
      1 < bitSize b ∧ powerBudget < bitSize b * n.natAbs) ∧
    (bitSize b - 1) * n.natAbs < bitSize (b ^ n) ∧
    (n ≠ 0 → bitSize (b ^ n) ≤ bitSize b * n.natAbs) ∧
    (powerBudget < bitSize (b ^ n) → power b n = .error .powerTooLarge) ∧
    (power b n = .error .powerTooLarge → powerBudget / 2 + 1 < bitSize (b ^ n)) := by
  have hlower := lt_bitSize_zpow b n
  refine ⟨power_eq_powerTooLarge_iff, hlower, bitSize_zpow_le b, fun hlong => ?_, fun h => ?_⟩
  · have hn : n ≠ 0 := by
      rintro rfl
      rw [zpow_zero] at hlong
      exact absurd hlong (by decide)
    have hbase := one_lt_bitSize_of_zpow ((by decide : 1 < powerBudget).trans hlong)
    exact power_eq_powerTooLarge_iff.mpr ⟨hbase, hlong.trans_le (bitSize_zpow_le b hn)⟩
  · obtain ⟨hbase, hlong⟩ := power_eq_powerTooLarge_iff.mp h
    have hhalf : bitSize b * n.natAbs ≤ 2 * ((bitSize b - 1) * n.natAbs) := by
      rw [← mul_assoc]
      exact Nat.mul_le_mul_right _ (by omega)
    omega

/-- The least refused power of two has half the digits that the budget allows, and two more. -/
theorem power_refused_within_budget :
    power 2 (32769 : Int) = .error .powerTooLarge ∧
      bitSize ((2 : Rat) ^ (32769 : Int)) = 32770 ∧ 32770 ≤ powerBudget := by
  have hbase : bitSize 2 = 2 := by decide
  refine ⟨power_eq_powerTooLarge_iff.mpr ?_, ?_, by decide⟩
  · rw [hbase]
    decide
  · exact (bitSize_zpow 2 32769).trans (bitSize_two_pow 32769)

end FormulaSearch.Exact
