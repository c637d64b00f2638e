import FormulaSearch.Proofs.Number.Magnitude
import FormulaSearch.Proofs.Number.Order
import Mathlib.Data.Int.Log
import Mathlib.Data.Nat.Bitwise

/-!
# Rounding as a function of the quotient

The nearest value does not depend on how a quotient is written, so it is a function of a rational.
It gives back every finite magnitude. What is above the range goes to infinity, and what is below
half of the smallest magnitude goes to zero.
-/

namespace FormulaSearch

theorem div_scaled {b : Nat} (hb : b ≠ 0) (n d : Nat) (e : Int) :
    ((n * b ^ (-e).toNat : Nat) : Rat) / (d * b ^ e.toNat : Nat) = n / d / b ^ e := by
  have hb' : (b : Rat) ≠ 0 := Nat.cast_ne_zero.mpr hb
  obtain ⟨k, rfl | rfl⟩ := e.eq_nat_or_neg
  · simp [div_div]
  · simp [div_eq_mul_inv]
    ring

theorem mul_pow_div_pow {b : Nat} (hb : b ≠ 0) (n : Nat) (e : Int) :
    ((n * b ^ e.toNat : Nat) : Rat) / (b ^ (-e).toNat : Nat) = n * b ^ e := by
  have h := div_scaled hb n 1 (-e)
  rwa [neg_neg, one_mul, Nat.cast_one, div_one, zpow_neg, div_inv_eq_mul] at h

theorem natAbs_num_div_den (q : Rat) : (q.num.natAbs : Rat) / q.den = |q| := by
  conv_rhs => rw [← Rat.num_div_den q]
  rw [abs_div, Nat.abs_cast, Nat.cast_natAbs, Int.cast_abs]

theorem pow_log_le {q : Rat} (hq : 0 < q) : (2 : Rat) ^ Int.log 2 q ≤ q := by
  exact_mod_cast Int.zpow_log_le_self one_lt_two hq

theorem le_log_iff {q : Rat} (hq : 0 < q) {e : Int} : e ≤ Int.log 2 q ↔ (2 : Rat) ^ e ≤ q := by
  exact_mod_cast (Int.zpow_le_iff_le_log one_lt_two hq).symm

theorem log_lt_iff {q : Rat} (hq : 0 < q) {e : Int} : Int.log 2 q < e ↔ q < (2 : Rat) ^ e := by
  exact_mod_cast (Int.lt_zpow_iff_log_lt one_lt_two hq).symm

/-! ## The nearest integer -/

theorem roundHalfEven_mul_right (n d : Nat) {k : Nat} (hk : 0 < k) :
    roundHalfEven (n * k) (d * k) = roundHalfEven n d := by
  have hlt (a b : Nat) : 2 * (a * k) < b * k ↔ 2 * a < b := by
    rw [← Nat.mul_assoc, Nat.mul_lt_mul_right hk]
  have hgt (a b : Nat) : b * k < 2 * (a * k) ↔ b < 2 * a := by
    rw [← Nat.mul_assoc, Nat.mul_lt_mul_right hk]
  simp only [roundHalfEven, Nat.mul_div_mul_right _ _ hk, Nat.mul_mod_mul_right, hlt, hgt]

theorem roundHalfEven_congr {n d n' d' : Nat} (hd : 0 < d) (hd' : 0 < d')
    (h : (n : Rat) / d = n' / d') : roundHalfEven n d = roundHalfEven n' d' := by
  have hcross : n * d' = n' * d := by
    rw [div_eq_div_iff (by positivity) (by positivity)] at h
    exact_mod_cast h
  calc roundHalfEven n d = roundHalfEven (n * d') (d * d') :=
        (roundHalfEven_mul_right n d hd').symm
    _ = roundHalfEven (n' * d) (d' * d) := by rw [hcross, Nat.mul_comm d d']
    _ = roundHalfEven n' d' := roundHalfEven_mul_right n' d' hd

/-- The integer nearest to the magnitude of a rational, a tie going to the even one. -/
def nearestInteger (q : Rat) : Nat := roundHalfEven q.num.natAbs q.den

theorem roundHalfEven_eq_nearestInteger (n : Nat) {d : Nat} (hd : 0 < d) :
    roundHalfEven n d = nearestInteger (n / d) := by
  apply roundHalfEven_congr hd (Rat.den_pos _)
  rw [natAbs_num_div_den, abs_of_nonneg (by positivity)]

@[simp] theorem nearestInteger_natCast (n : Nat) : nearestInteger n = n := roundHalfEven_one n

theorem even_roundHalfEven {n d : Nat} (hd : 0 < d)
    (h : 2 * (roundHalfEven n d * d) = 2 * n + d ∨ 2 * n = 2 * (roundHalfEven n d * d) + d) :
    roundHalfEven n d % 2 = 0 := by
  have hn := Nat.div_add_mod n d
  have hr := Nat.mod_lt n hd
  rw [Nat.mul_comm] at hn
  unfold roundHalfEven at h ⊢
  dsimp only at h ⊢
  split_ifs at h ⊢
  · omega
  · rw [Nat.add_mul] at h
    omega
  · omega

section Nearest

variable {q : Rat}

theorem mul_den_eq_natAbs (hq : 0 ≤ q) : q * q.den = q.num.natAbs := by
  have hden : (q.den : Rat) ≠ 0 := Nat.cast_ne_zero.mpr q.den_ne_zero
  have h := natAbs_num_div_den q
  rw [abs_of_nonneg hq, div_eq_iff hden] at h
  exact h.symm

theorem abs_nearestInteger_sub_le (hq : 0 ≤ q) : |nearestInteger q - q| ≤ 1 / 2 := by
  have hden : (0 : Rat) < q.den := by exact_mod_cast q.den_pos
  obtain ⟨hupper, hlower⟩ := roundHalfEven_near q.num.natAbs q.den_pos
  rw [← nearestInteger, ← Nat.cast_le (α := Rat)] at hupper hlower
  push_cast [← mul_den_eq_natAbs hq] at hupper hlower
  have hupper' : 2 * (nearestInteger q : Rat) ≤ 2 * q + 1 :=
    le_of_mul_le_mul_right (by linarith) hden
  have hlower' : 2 * q ≤ 2 * nearestInteger q + 1 := le_of_mul_le_mul_right (by linarith) hden
  rw [abs_le]
  constructor <;> linarith

theorem even_nearestInteger (hq : 0 ≤ q) (h : |nearestInteger q - q| = 1 / 2) :
    nearestInteger q % 2 = 0 := by
  have hnum := mul_den_eq_natAbs hq
  apply even_roundHalfEven q.den_pos
  rw [← nearestInteger, ← Nat.cast_inj (R := Rat), ← Nat.cast_inj (R := Rat)]
  push_cast
  rcases (abs_eq (by norm_num)).mp h with h | h
  · left
    linear_combination 2 * q.den * h + 2 * hnum
  · right
    linear_combination -2 * q.den * h - 2 * hnum

theorem nearestInteger_mono {q' : Rat} (hq : 0 ≤ q) (h : q ≤ q') :
    nearestInteger q ≤ nearestInteger q' := by
  rcases h.eq_or_lt with rfl | hlt
  · exact le_rfl
  · have hnear := abs_le.mp (abs_nearestInteger_sub_le hq)
    have hnear' := abs_le.mp (abs_nearestInteger_sub_le (hq.trans h))
    have hcast : (nearestInteger q : Rat) < nearestInteger q' + 1 := by linarith
    exact Nat.lt_succ_iff.mp (by exact_mod_cast hcast)

theorem le_nearestInteger {m : Nat} (h : m ≤ q) : m ≤ nearestInteger q := by
  simpa using nearestInteger_mono (Nat.cast_nonneg m) h

theorem nearestInteger_le {m : Nat} (hq : 0 ≤ q) (h : q ≤ m) : nearestInteger q ≤ m := by
  simpa using nearestInteger_mono hq h

theorem nearestInteger_eq_zero (hq : 0 ≤ q) (h : q < 1 / 2) : nearestInteger q = 0 := by
  have hnear := abs_le.mp (abs_nearestInteger_sub_le hq)
  have hcast : (nearestInteger q : Rat) < 1 := by linarith
  exact Nat.lt_one_iff.mp (by exact_mod_cast hcast)

end Nearest

namespace Binary64

/-! ## The place of the last digit -/

theorem log_div_bounds {n d : Nat} (hn : 0 < n) (hd : 0 < d) :
    (n.log2 : Int) - d.log2 - 1 ≤ Int.log 2 (n / d : Rat) ∧
      Int.log 2 (n / d : Rat) ≤ n.log2 - d.log2 := by
  have hpos : (0 : Rat) < n / d := by positivity
  have hbelow {k : Nat} (hk : 0 < k) : (2 : Rat) ^ (k.log2 : Int) ≤ k := by
    rw [zpow_natCast]
    exact_mod_cast Nat.log2_self_le hk.ne'
  have habove {k : Nat} : (k : Rat) < 2 ^ (k.log2 + 1 : Int) := by
    rw [← Int.natCast_succ, zpow_natCast]
    exact_mod_cast Nat.lt_log2_self
  constructor
  · rw [le_log_iff hpos, le_div_iff₀ (by positivity)]
    calc (2 : Rat) ^ ((n.log2 : Int) - d.log2 - 1) * d
        ≤ 2 ^ ((n.log2 : Int) - d.log2 - 1) * 2 ^ (d.log2 + 1 : Int) := by
          gcongr
          exact habove.le
      _ = 2 ^ (n.log2 : Int) := by
          rw [← zpow_add₀ two_ne_zero]
          congr 1
          ring
      _ ≤ n := hbelow hn
  · rw [← Int.lt_add_one_iff, log_lt_iff hpos, div_lt_iff₀ (by positivity)]
    calc (n : Rat) < 2 ^ (n.log2 + 1 : Int) := habove
      _ = 2 ^ ((n.log2 : Int) - d.log2 + 1) * 2 ^ (d.log2 : Int) := by
          rw [← zpow_add₀ two_ne_zero]
          congr 1
          ring
      _ ≤ 2 ^ ((n.log2 : Int) - d.log2 + 1) * d := by
          gcongr
          exact hbelow hd

/-- A shift of one side or of the other compares a quotient with a power of two. -/
theorem shiftLeft_le_shiftLeft_iff (n : Nat) {d : Nat} (hd : 0 < d) (e : Int) :
    d <<< e.toNat ≤ n <<< (-e).toNat ↔ (2 : Rat) ^ e ≤ n / d := by
  have hdenominator : (0 : Rat) < (d * 2 ^ e.toNat : Nat) := by positivity
  have hscaled := div_scaled two_ne_zero n d e
  rw [Nat.cast_ofNat] at hscaled
  rw [Nat.shiftLeft_eq, Nat.shiftLeft_eq, ← Nat.cast_le (α := Rat), ← one_le_div hdenominator,
    hscaled, one_le_div (by positivity)]

theorem leadingExponent_eq_log {n d : Nat} (hn : 0 < n) (hd : 0 < d) :
    leadingExponent n d = Int.log 2 (n / d : Rat) := by
  have hpos : (0 : Rat) < n / d := by positivity
  obtain ⟨hlower, hupper⟩ := log_div_bounds hn hd
  have htest := shiftLeft_le_shiftLeft_iff n hd (n.log2 - d.log2)
  rw [← le_log_iff hpos] at htest
  unfold leadingExponent
  dsimp only
  split_ifs with h
  · have := htest.mp h
    omega
  · have := mt htest.mpr h
    omega

/-- The exponent of the last place kept when a positive rational is rounded. -/
def place (q : Rat) : Int := max (Int.log 2 q - 52) (-1074)

theorem lastPlace_eq {n d : Nat} (hn : 0 < n) (hd : 0 < d) : lastPlace n d = place (n / d) := by
  rw [lastPlace, place, leadingExponent_eq_log hn hd]

/-- The place of a number with a full significand, or with the smallest exponent. -/
theorem place_mul_pow {m : Nat} {e : Int} (hm : 0 < m) (hfits : m < 2 ^ 53) (he : -1074 ≤ e)
    (hfull : 2 ^ 52 ≤ m ∨ e = -1074) : place (m * 2 ^ e) = e := by
  have hpos : (0 : Rat) < m * 2 ^ e := by positivity
  have hupper : Int.log 2 ((m : Rat) * 2 ^ e) < 53 + e := by
    rw [log_lt_iff hpos, zpow_add₀ two_ne_zero]
    gcongr
    exact_mod_cast hfits
  unfold place
  rcases hfull with hfull | rfl
  · have hlower : 52 + e ≤ Int.log 2 ((m : Rat) * 2 ^ e) := by
      rw [le_log_iff hpos, zpow_add₀ two_ne_zero]
      gcongr
      exact_mod_cast hfull
    omega
  · omega

/-! ## The nearest magnitude -/

def nearestTo (q : Rat) : Nat := nearestMagnitude q.num.natAbs q.den

@[simp] theorem nearestTo_zero : nearestTo 0 = 0 := nearestMagnitude_zero _

@[simp] theorem nearestTo_neg (q : Rat) : nearestTo (-q) = nearestTo q := by simp [nearestTo]

theorem nearestMagnitude_eq_min {n d : Nat} (hn : 0 < n) (hd : 0 < d) : nearestMagnitude n d =
    min ((place (n / d) + 1074).toNat * 2 ^ 52 + nearestInteger (n / d / 2 ^ place (n / d)))
      infinityBits.toNat := by
  rw [nearestMagnitude, if_neg hn.ne', lastPlace_eq hn hd]
  simp only [Nat.shiftLeft_eq]
  rw [roundHalfEven_eq_nearestInteger _ (by positivity), div_scaled two_ne_zero, Nat.cast_ofNat]

theorem nearestTo_of_pos {q : Rat} (hq : 0 < q) : nearestTo q =
    min ((place q + 1074).toNat * 2 ^ 52 + nearestInteger (q / 2 ^ place q))
      infinityBits.toNat := by
  have hnum : 0 < q.num.natAbs := Int.natAbs_pos.mpr (Rat.num_pos.mpr hq).ne'
  rw [nearestTo, nearestMagnitude_eq_min hnum q.den_pos, natAbs_num_div_den, abs_of_pos hq]

theorem nearestMagnitude_eq_nearestTo (n : Nat) {d : Nat} (hd : 0 < d) :
    nearestMagnitude n d = nearestTo (n / d) := by
  rcases Nat.eq_zero_or_pos n with rfl | hn
  · simp
  · rw [nearestMagnitude_eq_min hn hd, nearestTo_of_pos (by positivity)]

/-- A finite magnitude is the nearest one to its own value. -/
theorem nearestTo_magnitudeValue {m : Nat} (hm : m < infinityBits.toNat) :
    nearestTo (magnitudeValue m) = m := by
  have hexact {k : Nat} {e : Int} (hk : 0 < k) (hfits : k < 2 ^ 53) (he : -1074 ≤ e)
      (hfull : 2 ^ 52 ≤ k ∨ e = -1074) : nearestTo (k * 2 ^ e) =
        min ((e + 1074).toNat * 2 ^ 52 + k) infinityBits.toNat := by
    rw [nearestTo_of_pos (by positivity), place_mul_pow hk hfits he hfull,
      mul_div_cancel_right₀ _ (by positivity), nearestInteger_natCast]
  have hdiv := Nat.div_add_mod m (2 ^ 52)
  have hmod := Nat.mod_lt m (show 0 < 2 ^ 52 by decide)
  unfold magnitudeValue
  split_ifs with hfield
  · rcases Nat.eq_zero_or_pos m with rfl | hpos
    · simp
    · rw [hexact (by omega) (by omega) (by omega) (.inr rfl)]
      omega
  · rw [hexact (by omega) (by omega) (by omega) (.inl (by omega))]
    omega

theorem nearestTo_of_large {q : Rat} (h : 2 ^ 1024 ≤ q) : nearestTo q = infinityBits.toNat := by
  have hpos : 0 < q := lt_of_lt_of_le (by positivity) h
  have hlog : 1024 ≤ Int.log 2 q := (le_log_iff hpos).mpr (by exact_mod_cast h)
  have hplace : place q = Int.log 2 q - 52 := max_eq_left (by omega)
  have hrounded : 2 ^ 52 ≤ nearestInteger (q / 2 ^ place q) := by
    apply le_nearestInteger
    rw [le_div_iff₀ (by positivity), hplace]
    calc ((2 ^ 52 : Nat) : Rat) * 2 ^ (Int.log 2 q - 52)
        = 2 ^ (52 : Int) * 2 ^ (Int.log 2 q - 52) := by norm_num
      _ = 2 ^ Int.log 2 q := by
          rw [← zpow_add₀ two_ne_zero]
          congr 1
          ring
      _ ≤ q := pow_log_le hpos
  have hinfinity : infinityBits.toNat = 2047 * 2 ^ 52 := rfl
  rw [nearestTo_of_pos hpos]
  omega

theorem nearestTo_of_small {q : Rat} (hq : 0 ≤ q) (h : q < 2 ^ (-1075 : Int)) :
    nearestTo q = 0 := by
  rcases hq.eq_or_lt with rfl | hpos
  · exact nearestTo_zero
  · have hlog : Int.log 2 q < -1075 := (log_lt_iff hpos).mpr h
    have hplace : place q = -1074 := max_eq_right (by omega)
    have hrounded : nearestInteger (q / 2 ^ (-1074 : Int)) = 0 := by
      apply nearestInteger_eq_zero (by positivity)
      rw [div_lt_iff₀ (by positivity)]
      calc q < 2 ^ (-1075 : Int) := h
        _ = 1 / 2 * 2 ^ (-1074 : Int) := by
            rw [one_div, ← zpow_neg_one, ← zpow_add₀ two_ne_zero]
            rfl
    rw [nearestTo_of_pos hpos, hplace, hrounded]
    rfl

/-! ## Signs -/

theorem isNegative_eq (x : Binary64) : x.isNegative = decide (2 ^ 63 ≤ x.bits.toNat) := by
  have hlt := x.bits.toNat_lt
  have hbit : (x.bits &&& signBit).toNat = 2 ^ 63 * (x.bits.toNat / 2 ^ 63 % 2) := by
    rw [UInt64.toNat_and, Nat.and_comm, show signBit.toNat = 2 ^ 63 from rfl, Nat.two_pow_and,
      Nat.toNat_testBit]
  have hzero : x.bits &&& signBit = 0 ↔ x.bits.toNat < 2 ^ 63 := by
    rw [← UInt64.toNat_inj, hbit, UInt64.toNat_zero]
    omega
  rw [isNegative, Bool.eq_iff_iff, bne_iff_ne, Ne, hzero, decide_eq_true_iff, Nat.not_lt]

theorem toNat_bits_ofMagnitude (negative : Bool) {m : UInt64} (hm : m.toNat < 2 ^ 63) :
    (ofMagnitude negative m).bits.toNat = if negative then 2 ^ 63 + m.toNat else m.toNat := by
  cases negative with
  | false => rfl
  | true =>
    have hor := Nat.two_pow_add_eq_or_of_lt hm 1
    rw [Nat.mul_one] at hor
    exact (UInt64.toNat_or signBit m).trans hor.symm

theorem ofMagnitude_isNegative_magnitude (x : Binary64) :
    ofMagnitude x.isNegative x.magnitude = x := by
  have hlt := x.bits.toNat_lt
  have hmagnitude := toNat_magnitude x
  have hbits := toNat_bits_ofMagnitude x.isNegative (m := x.magnitude) (by omega)
  have hsame : (ofMagnitude x.isNegative x.magnitude).bits = x.bits := by
    apply UInt64.toNat_inj.mp
    rw [hbits, isNegative_eq, hmagnitude]
    simp only [decide_eq_true_eq]
    split_ifs <;> omega
  exact congrArg Binary64.mk hsame

section Patterns

variable {m : Nat}

theorem toNat_magnitude_ofMagnitude (negative : Bool) (hm : m < 2 ^ 63) :
    (ofMagnitude negative (.ofNat m)).magnitude.toNat = m := by
  have hofNat : (UInt64.ofNat m).toNat = m := UInt64.toNat_ofNat_of_lt' (hm.trans (by decide))
  rw [toNat_magnitude, toNat_bits_ofMagnitude negative (by omega), hofNat]
  split <;> omega

theorem isNegative_ofMagnitude (negative : Bool) (hm : m < 2 ^ 63) :
    (ofMagnitude negative (.ofNat m)).isNegative = negative := by
  have hofNat : (UInt64.ofNat m).toNat = m := UInt64.toNat_ofNat_of_lt' (hm.trans (by decide))
  rw [isNegative_eq, toNat_bits_ofMagnitude negative (by omega), hofNat]
  cases negative <;> simp
  omega

end Patterns

theorem ofRat_eq_ofMagnitude (q : Rat) :
    ofRat q = ofMagnitude (decide (q < 0)) (.ofNat (nearestTo q)) := by
  rw [ofRat, nearestQuotient, ← nearestTo]
  simp only [Rat.num_neg]

/-- A positive rational nearest to the magnitude of `x` gives `x` with its sign. -/
theorem ofRat_of_nearestTo {x : Binary64} {q : Rat} (hq : 0 < q)
    (h : nearestTo q = x.magnitude.toNat) :
    ofRat (if x.isNegative then -q else q) = x := by
  have hx := ofMagnitude_isNegative_magnitude x
  cases hsign : x.isNegative <;> rw [hsign] at hx
  · simp [ofRat_eq_ofMagnitude, h, hq.not_gt, hx]
  · simp [ofRat_eq_ofMagnitude, h, hq, hx]

end Binary64

end FormulaSearch
