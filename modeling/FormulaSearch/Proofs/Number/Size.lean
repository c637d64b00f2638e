import FormulaSearch.Number.Power
import Mathlib.Tactic

/-!
# Sizes of exact values

How long the numerator and the denominator of a result can be. Sums, products and quotients are no
longer than their operands together, up to one bit, as reduction to lowest terms only shortens
them. A power keeps to the budget whatever its base is.
-/

namespace FormulaSearch.Exact

theorem bitLength_le_iff {n k : Nat} : bitLength n ≤ k ↔ n < 2 ^ k := by
  unfold bitLength
  split_ifs with h
  · simp [h]
  · exact Nat.log2_lt h

theorem bitSize_le_iff {q : Rat} {k : Nat} :
    bitSize q ≤ k ↔ q.num.natAbs < 2 ^ k ∧ q.den < 2 ^ k := by
  simp [bitSize, bitLength_le_iff]

theorem num_lt_two_pow (q : Rat) : q.num.natAbs < 2 ^ bitSize q :=
  (bitSize_le_iff.mp le_rfl).1

theorem den_lt_two_pow (q : Rat) : q.den < 2 ^ bitSize q :=
  (bitSize_le_iff.mp le_rfl).2

@[simp] theorem bitSize_neg (q : Rat) : bitSize (-q) = bitSize q := by simp [bitSize]

/-- Reduction to lowest terms makes a fraction no longer. -/
theorem bitSize_fraction_le {n : Int} {d k : Nat} (hd : 0 < d) (hn : n.natAbs < 2 ^ k)
    (hdk : d < 2 ^ k) : bitSize (n / d) ≤ k := by
  have hden : ((n / d : Rat).den : Int) ∣ d := by
    simpa [Rat.divInt_eq_div] using Rat.den_dvd n d
  have hnum : (n / d : Rat).num ∣ n := by
    simpa [Rat.divInt_eq_div] using Rat.num_dvd n (b := d) (by omega)
  rw [bitSize_le_iff]
  constructor
  · rcases eq_or_ne n 0 with rfl | hzero
    · simp
    · have := Nat.le_of_dvd (by omega) (Int.natAbs_dvd_natAbs.mpr hnum)
      omega
  · have := Nat.le_of_dvd hd (Int.natCast_dvd_natCast.mp hden)
    omega

theorem bitSize_add_le (a b : Rat) : bitSize (a + b) ≤ bitSize a + bitSize b + 1 := by
  have hsum : a + b = (a.num * b.den + b.num * a.den : Int) / (a.den * b.den : Nat) := by
    conv_lhs => rw [← Rat.num_div_den a, ← Rat.num_div_den b]
    push_cast
    have ha : (a.den : Rat) ≠ 0 := Nat.cast_ne_zero.mpr a.den_nz
    have hb : (b.den : Rat) ≠ 0 := Nat.cast_ne_zero.mpr b.den_nz
    field_simp
  have hleft : a.num.natAbs * b.den < 2 ^ (bitSize a + bitSize b) := by
    rw [pow_add]
    exact Nat.mul_lt_mul'' (num_lt_two_pow a) (den_lt_two_pow b)
  have hright : b.num.natAbs * a.den < 2 ^ (bitSize a + bitSize b) := by
    rw [pow_add, mul_comm]
    exact Nat.mul_lt_mul'' (den_lt_two_pow a) (num_lt_two_pow b)
  have hden : a.den * b.den < 2 ^ (bitSize a + bitSize b) := by
    rw [pow_add]
    exact Nat.mul_lt_mul'' (den_lt_two_pow a) (den_lt_two_pow b)
  rw [hsum]
  apply bitSize_fraction_le (Nat.mul_pos a.den_pos b.den_pos)
  · have habs := Int.natAbs_add_le (a.num * b.den) (b.num * a.den)
    rw [Int.natAbs_mul, Int.natAbs_mul, Int.natAbs_natCast, Int.natAbs_natCast] at habs
    rw [pow_succ]
    omega
  · rw [pow_succ]
    omega

theorem bitSize_sub_le (a b : Rat) : bitSize (a - b) ≤ bitSize a + bitSize b + 1 := by
  rw [sub_eq_add_neg, ← bitSize_neg b]
  exact bitSize_add_le a (-b)

theorem bitSize_mul_le (a b : Rat) : bitSize (a * b) ≤ bitSize a + bitSize b := by
  have hproduct : a * b = (a.num * b.num : Int) / (a.den * b.den : Nat) := by
    conv_lhs => rw [← Rat.num_div_den a, ← Rat.num_div_den b]
    push_cast
    exact div_mul_div_comm _ _ _ _
  rw [hproduct]
  apply bitSize_fraction_le (Nat.mul_pos a.den_pos b.den_pos)
  · rw [Int.natAbs_mul, pow_add]
    exact Nat.mul_lt_mul'' (num_lt_two_pow a) (num_lt_two_pow b)
  · rw [pow_add]
    exact Nat.mul_lt_mul'' (den_lt_two_pow a) (den_lt_two_pow b)

theorem bitSize_inv (q : Rat) : bitSize q⁻¹ = bitSize q := by
  rcases eq_or_ne q 0 with rfl | hq
  · simp
  · rw [bitSize, bitSize, Rat.num_inv, Rat.den_inv_of_ne_zero hq, max_comm]
    simp [Int.natAbs_mul, Int.natAbs_sign_of_ne_zero (Rat.num_ne_zero.mpr hq)]

theorem bitSize_div_le (a b : Rat) : bitSize (a / b) ≤ bitSize a + bitSize b := by
  rw [div_eq_mul_inv, ← bitSize_inv b]
  exact bitSize_mul_le a b⁻¹

theorem bitSize_pow_le (q : Rat) {n : Nat} (hn : n ≠ 0) : bitSize (q ^ n) ≤ bitSize q * n := by
  rw [bitSize_le_iff, Rat.num_pow, Rat.den_pow, Int.natAbs_pow, pow_mul]
  exact ⟨Nat.pow_lt_pow_left (num_lt_two_pow q) hn, Nat.pow_lt_pow_left (den_lt_two_pow q) hn⟩

theorem bitSize_pow_le_budget {q : Rat} {n : Nat} (h : bitSize q * n ≤ powerBudget) :
    bitSize (q ^ n) ≤ powerBudget := by
  rcases eq_or_ne n 0 with rfl | hn
  · rw [pow_zero]
    decide
  · exact (bitSize_pow_le q hn).trans h

theorem mul_le_budget {b : Rat} {e : Int} (h : ¬ exceedsBudget (bitSize b) e = true) :
    bitSize b * e.natAbs ≤ powerBudget :=
  not_lt.mp fun hlt => h ((exceedsBudget_iff (bitSize_pos b) e).mpr hlt)

/-- Zero and the units have short powers; every other base is held to the budget. -/
theorem bitSize_integerPower_le {b q : Rat} {e : Int} (h : integerPower b e = .ok q) :
    bitSize q ≤ powerBudget := by
  unfold integerPower at h
  split_ifs at h with hbase hexponent hnegative hunit hodd hbudget hnegative
  · exact Except.ok.inj h ▸ by decide
  · exact Except.ok.inj h ▸ by decide
  · exact Except.ok.inj h ▸ by decide
  · exact Except.ok.inj h ▸ by decide
  · rw [← Except.ok.inj h, bitSize_inv]
    exact bitSize_pow_le_budget (mul_le_budget hbudget)
  · rw [← Except.ok.inj h]
    exact bitSize_pow_le_budget (mul_le_budget hbudget)

theorem bitSize_power_le {b e q : Rat} (h : power b e = .ok q) : bitSize q ≤ powerBudget := by
  unfold power at h
  split_ifs at h
  exact bitSize_integerPower_le h

end FormulaSearch.Exact
