import FormulaSearch.Genome.FeatureText
import Mathlib.Tactic

/-!
# Magnitudes and exact values

The exact values of finite patterns grow with their magnitudes, so a comparison of magnitudes is a
comparison of values. This tells which features are written without an exponent.
-/

namespace FormulaSearch.Binary64

/-- The exact value of a finite pattern without a sign. -/
def magnitudeValue (m : Nat) : Rat :=
  if m / 2 ^ 52 = 0 then (m % 2 ^ 52 : Nat) * 2 ^ (-1074 : Int)
  else (2 ^ 52 + m % 2 ^ 52 : Nat) * 2 ^ ((m / 2 ^ 52 : Nat) - 1075 : Int)

theorem exponentField_eq (x : Binary64) : x.exponentField = x.magnitude.toNat / 2 ^ 52 := by
  simp [exponentField, UInt64.toNat_shiftRight, Nat.shiftRight_eq_div_pow]

theorem fractionField_eq (x : Binary64) : x.fractionField = x.magnitude.toNat % 2 ^ 52 := by
  have := Nat.and_two_pow_sub_one_eq_mod x.magnitude.toNat 52
  simpa [fractionField, UInt64.toNat_and] using this

theorem mkRat_shiftLeft (n : Nat) (e : Int) :
    mkRat (n <<< e.toNat : Nat) (1 <<< (-e).toNat) = n * 2 ^ e := by
  obtain ⟨k, rfl | rfl⟩ := e.eq_nat_or_neg
  · simp [Rat.mkRat_eq_div, Nat.shiftLeft_eq]
  · simp [Rat.mkRat_eq_div, Nat.shiftLeft_eq, div_eq_mul_inv]

theorem magnitudeValue_nonneg (m : Nat) : 0 ≤ magnitudeValue m := by
  unfold magnitudeValue
  split <;> positivity

theorem mkRat_fraction (x : Binary64) :
    mkRat x.fraction.1 x.fraction.2 = magnitudeValue x.magnitude.toNat := by
  unfold fraction
  rw [mkRat_shiftLeft]
  unfold significand exponent magnitudeValue
  rw [exponentField_eq, fractionField_eq]
  split <;> simp

theorem toRat_eq (x : Binary64) : x.toRat =
    if x.isNegative then -magnitudeValue x.magnitude.toNat
    else magnitudeValue x.magnitude.toNat := by
  rw [toRat, mkRat_fraction]

theorem abs_toRat (x : Binary64) : |x.toRat| = magnitudeValue x.magnitude.toNat := by
  rw [toRat_eq]
  split
  · rw [abs_neg, abs_of_nonneg (magnitudeValue_nonneg _)]
  · exact abs_of_nonneg (magnitudeValue_nonneg _)

theorem magnitudeValue_lt_succ (m : Nat) : magnitudeValue m < magnitudeValue (m + 1) := by
  have hdiv := Nat.div_add_mod m (2 ^ 52)
  have hmod := Nat.mod_lt m (show 0 < 2 ^ 52 by decide)
  by_cases hcarry : m % 2 ^ 52 + 1 < 2 ^ 52
  · -- the exponent stays and the fraction grows by one
    have hdiv' : (m + 1) / 2 ^ 52 = m / 2 ^ 52 := by omega
    have hmod' : (m + 1) % 2 ^ 52 = m % 2 ^ 52 + 1 := by omega
    unfold magnitudeValue
    rw [hdiv', hmod']
    split
    · gcongr
      omega
    · gcongr
      omega
  · -- the fraction is full and carries into the exponent
    have hdiv' : (m + 1) / 2 ^ 52 = m / 2 ^ 52 + 1 := by omega
    have hmod' : (m + 1) % 2 ^ 52 = 0 := by omega
    have hfull : m % 2 ^ 52 = 2 ^ 52 - 1 := by omega
    unfold magnitudeValue
    rw [hdiv', hmod', hfull, if_neg (Nat.succ_ne_zero _)]
    split
    · next h =>
      rw [h]
      norm_num
    · have hpower : (2 : Rat) ^ ((m / 2 ^ 52 + 1 : Nat) - 1075 : Int) =
          2 ^ ((m / 2 ^ 52 : Nat) - 1075 : Int) * 2 := by
        rw [← zpow_add_one₀ (by norm_num)]
        congr 1
        push_cast
        ring
      have hpositive : (0 : Rat) < 2 ^ ((m / 2 ^ 52 : Nat) - 1075 : Int) := by positivity
      rw [hpower]
      generalize (2 : Rat) ^ ((m / 2 ^ 52 : Nat) - 1075 : Int) = unit at hpositive
      norm_num
      linarith

theorem strictMono_magnitudeValue : StrictMono magnitudeValue :=
  strictMono_nat_of_lt_succ magnitudeValue_lt_succ

/-! ## Features without an exponent -/

/-- Zero, or a finite number from a thousandth up to below ten million, with either sign. -/
def IsPlain (x : Binary64) : Prop :=
  x.isFinite = true ∧ (x.toRat = 0 ∨ 1 / 1000 ≤ |x.toRat| ∧ |x.toRat| < 10000000)

theorem toRat_eq_zero_iff (x : Binary64) : x.toRat = 0 ↔ x.magnitude = 0 := by
  have hzero : magnitudeValue 0 = 0 := by simp [magnitudeValue]
  rw [← abs_eq_zero, abs_toRat, ← hzero, strictMono_magnitudeValue.injective.eq_iff,
    ← UInt64.toNat_inj]
  rfl

/-- The bound is the least binary number that is not below a thousandth. -/
theorem positionalFrom_le_iff (x : Binary64) :
    positionalFrom.magnitude ≤ x.magnitude ↔ 1 / 1000 ≤ |x.toRat| := by
  have hbits : positionalFrom.magnitude.toNat = 0x3F50624DD2F1A9FC := by
    rw [magnitude, positionalFrom_bits]
    rfl
  rw [UInt64.le_iff_toNat_le, hbits, abs_toRat]
  constructor
  · intro h
    refine le_trans ?_ (strictMono_magnitudeValue.monotone h)
    norm_num [magnitudeValue]
  · intro h
    by_contra hlt
    have hbelow : x.magnitude.toNat ≤ 0x3F50624DD2F1A9FB := by omega
    have := h.trans (strictMono_magnitudeValue.monotone hbelow)
    norm_num [magnitudeValue] at this

theorem lt_positionalBelow_iff (x : Binary64) :
    x.magnitude < positionalBelow.magnitude ↔ |x.toRat| < 10000000 := by
  have hbits : positionalBelow.magnitude.toNat = 0x416312D000000000 := by
    rw [magnitude, positionalBelow_bits]
    rfl
  have hvalue : magnitudeValue 0x416312D000000000 = 10000000 := by norm_num [magnitudeValue]
  rw [UInt64.lt_iff_toNat_lt, hbits, abs_toRat, ← hvalue, strictMono_magnitudeValue.lt_iff_lt]

theorem isPlain_iff (x : Binary64) :
    x.IsPlain ↔ x.isFinite = true ∧ (x.magnitude = 0 ∨ x.isPositional = true) := by
  simp only [IsPlain, isPositional, Bool.and_eq_true, decide_eq_true_eq, toRat_eq_zero_iff,
    positionalFrom_le_iff, lt_positionalBelow_iff]

end FormulaSearch.Binary64
