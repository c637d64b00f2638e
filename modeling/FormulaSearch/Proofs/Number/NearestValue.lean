import FormulaSearch.Proofs.Number.CorrectRounding
import FormulaSearch.Proofs.Number.Numeral

/-!
# The value nearest to a rational

A rational is rounded to the nearest value, a tie to the even significand, and to an infinity from
half a place above the largest finite value on. That determines the value. Rounding is monotone and
makes no NaN. A decimal literal that is read as a float gives the same value as one that is read
exactly and then rounded.
-/

namespace FormulaSearch.Binary64

/-! ## Rounding at a place -/

/-- How a magnitude is rounded: the place of the last digit that is kept, and the integer nearest at
that place. -/
structure RoundsAt (v : Rat) (place : Int) (k : Nat) : Prop where
  least_le : -1074 ≤ place
  above : (2 : Rat) ^ (place + 52) ≤ v ∨ place = -1074
  full : 2 ^ 52 ≤ k ∨ place = -1074
  le : k ≤ 2 ^ 53
  near : |k - v / 2 ^ place| ≤ 1 / 2
  even : |k - v / 2 ^ place| = 1 / 2 → k % 2 = 0
  nearestTo_eq : nearestTo v = min ((place + 1074).toNat * 2 ^ 52 + k) infinityBits.toNat

theorem roundsAt_zero : RoundsAt 0 (-1074) 0 := by
  constructor <;> simp

theorem roundsAt_place {v : Rat} (hv : 0 < v) :
    RoundsAt v (place v) (nearestInteger (v / 2 ^ place v)) := by
  have hscaled : 0 ≤ v / 2 ^ place v := by positivity
  have habove : (2 : Rat) ^ (place v + 52) ≤ v ∨ place v = -1074 := by
    rcases le_total (-1074) (Int.log 2 v - 52) with h | h
    · left
      rw [place, max_eq_left h, sub_add_cancel]
      exact pow_log_le hv
    · exact .inr (max_eq_right h)
  have hbelow : v < 2 ^ (place v + 53) := by
    rw [← log_lt_iff hv]
    unfold place
    omega
  constructor
  · exact le_max_right _ _
  · exact habove
  · refine habove.imp_left fun h => le_nearestInteger ?_
    rw [zpow_add₀ two_ne_zero, mul_comm] at h
    rw [le_div_iff₀ (by positivity)]
    exact_mod_cast h
  · apply nearestInteger_le hscaled
    rw [zpow_add₀ two_ne_zero, mul_comm] at hbelow
    rw [div_le_iff₀ (by positivity)]
    exact_mod_cast hbelow.le
  · exact abs_nearestInteger_sub_le hscaled
  · exact even_nearestInteger hscaled
  · exact nearestTo_of_pos hv

theorem exists_roundsAt {v : Rat} (hv : 0 ≤ v) : ∃ place k, RoundsAt v place k := by
  rcases hv.eq_or_lt with rfl | hpos
  · exact ⟨-1074, 0, roundsAt_zero⟩
  · exact ⟨_, _, roundsAt_place hpos⟩

/-- Digits that fill up the significand carry into the exponent. -/
theorem magnitudeValue_place {place : Int} {k : Nat} (hleast : -1074 ≤ place) (hk : k ≤ 2 ^ 53)
    (hfull : 2 ^ 52 ≤ k ∨ place = -1074) :
    magnitudeValue ((place + 1074).toNat * 2 ^ 52 + k) = k * 2 ^ place := by
  obtain ⟨j, rfl⟩ : ∃ j : Nat, place = j - 1074 := ⟨(place + 1074).toNat, by omega⟩
  have hj : ((j : Int) - 1074 + 1074).toNat = j := by omega
  rw [hj]
  unfold magnitudeValue
  rcases Nat.lt_or_ge k (2 ^ 52) with hsubnormal | hnormal
  · obtain rfl : j = 0 := by omega
    rw [if_pos (by omega), Nat.mod_eq_of_lt (by omega)]
    norm_num
  · rcases hk.eq_or_lt with rfl | hlt
    · have hdiv : (j * 2 ^ 52 + 2 ^ 53) / 2 ^ 52 = j + 2 := by omega
      have hmod : (j * 2 ^ 52 + 2 ^ 53) % 2 ^ 52 = 0 := by omega
      have hcarry : ((j + 2 : Nat) : Int) - 1075 = j - 1074 + 1 := by omega
      rw [hdiv, hmod, if_neg (by omega), hcarry, zpow_add_one₀ two_ne_zero]
      push_cast
      ring
    · have hdiv : (j * 2 ^ 52 + k) / 2 ^ 52 = j + 1 := by omega
      have hmod : 2 ^ 52 + (j * 2 ^ 52 + k) % 2 ^ 52 = k := by omega
      have hexponent : ((j + 1 : Nat) : Int) - 1075 = j - 1074 := by omega
      rw [hdiv, hmod, if_neg (by omega), hexponent]

namespace RoundsAt

variable {v y : Rat} {place : Int} {k : Nat}

theorem real (h : RoundsAt v place k) :
    ((2 : ℝ) ^ (place + 52) ≤ v ∨ place = -1074) ∧ |(k : ℝ) - v / 2 ^ place| ≤ 1 / 2 := by
  constructor
  · refine h.above.imp_left fun habove => ?_
    rw [← Rat.cast_le (K := ℝ)] at habove
    push_cast at habove
    exact habove
  · have hnear := h.near
    rw [← Rat.cast_le (K := ℝ)] at hnear
    push_cast at hnear
    exact hnear

theorem nearest (h : RoundsAt v place k) (hy : IsRepresentable y) :
    |k * 2 ^ place - v| ≤ |y - v| := by
  have hnearest := nearest_of_place h.real.1 h.real.2 hy
  rw [← Rat.cast_le (K := ℝ)]
  push_cast
  exact hnearest

/-- Another one is as near only if the digits were rounded to even. -/
theorem even_of_tie (h : RoundsAt v place k) (hy : IsRepresentable y) (hne : y ≠ k * 2 ^ place)
    (htie : |k * 2 ^ place - v| = |y - v|) : k % 2 = 0 := by
  rw [Ne, ← Rat.cast_inj (α := ℝ)] at hne
  rw [← Rat.cast_inj (α := ℝ)] at htie
  push_cast at hne htie
  have hhalf := half_of_tie h.real.1 h.real.2 hy hne htie
  apply h.even
  rw [← Rat.cast_inj (α := ℝ)]
  push_cast
  exact hhalf

theorem nearestTo_of_lt (h : RoundsAt v place k) (hfinite : nearestTo v < infinityBits.toNat) :
    nearestTo v = (place + 1074).toNat * 2 ^ 52 + k := by
  have := h.nearestTo_eq
  omega

theorem magnitudeValue_nearestTo (h : RoundsAt v place k)
    (hfinite : nearestTo v < infinityBits.toNat) :
    magnitudeValue (nearestTo v) = k * 2 ^ place := by
  rw [h.nearestTo_of_lt hfinite, magnitudeValue_place h.least_le h.le h.full]

end RoundsAt

/-! ## The end of the range -/

/-- Half a place above the largest finite value. -/
def overflowBound : Rat := 2 ^ 1024 - 2 ^ 970

theorem magnitudeValue_infinityBits : magnitudeValue infinityBits.toNat = 2 ^ 1024 := by
  have hleast : (-1074 : Int) ≤ 971 := by decide
  have h := magnitudeValue_place hleast (Nat.le_refl (2 ^ 53)) (.inl (by decide))
  rw [show infinityBits.toNat = (971 + 1074 : Int).toNat * 2 ^ 52 + 2 ^ 53 from rfl, h,
    Nat.cast_pow, Nat.cast_ofNat, zpow_ofNat, ← pow_add]

theorem magnitudeValue_largest :
    magnitudeValue (infinityBits.toNat - 1) = 2 ^ 1024 - 2 * 2 ^ 970 := by
  have hleast : (-1074 : Int) ≤ 971 := by decide
  have hk : 2 ^ 53 - 1 ≤ 2 ^ 53 := Nat.sub_le _ _
  have h := magnitudeValue_place hleast hk (.inl (by decide))
  have hdigits : ((2 ^ 53 - 1 : Nat) : Rat) = 2 ^ 53 - 1 := by norm_num
  have htop : (2 : Rat) ^ 53 * 2 ^ 971 = 2 ^ 1024 := (pow_add 2 53 971).symm
  rw [show infinityBits.toNat - 1 = (971 + 1074 : Int).toNat * 2 ^ 52 + (2 ^ 53 - 1) from rfl, h,
    hdigits, zpow_ofNat, sub_mul, one_mul, htop, ← pow_succ']

theorem isRepresentable_magnitudeValue (m : Nat) : IsRepresentable (magnitudeValue m) := by
  have hmod := Nat.mod_lt m (show 0 < 2 ^ 52 by decide)
  have hdigits {k : Nat} (hk : k ≤ 2 ^ 53) {e : Int} (he : -1074 ≤ e) :
      IsRepresentable ((k * 2 ^ e : Rat) : ℝ) := by
    refine ⟨k, e, ?_, he, by push_cast; rfl⟩
    rw [Nat.abs_cast]
    exact_mod_cast hk
  unfold magnitudeValue
  split_ifs
  · exact hdigits (by omega) le_rfl
  · exact hdigits (by omega) (by omega)

/-- At the bound the end of the range is as near as the largest value, whose significand is odd. -/
theorem RoundsAt.lt_overflowBound {v : Rat} {place : Int} {k : Nat} (h : RoundsAt v place k)
    (hfinite : nearestTo v < infinityBits.toNat) : v < overflowBound := by
  have hunit : (0 : Rat) < 2 ^ 970 := by positivity
  have hbelow := strictMono_magnitudeValue.monotone (Nat.le_sub_one_of_lt hfinite)
  have htop := h.nearest (isRepresentable_magnitudeValue infinityBits.toNat)
  have hlargest := magnitudeValue_largest
  rw [h.magnitudeValue_nearestTo hfinite, hlargest] at hbelow
  rw [magnitudeValue_infinityBits] at htop
  by_contra hlarge
  rw [not_lt, overflowBound] at hlarge
  have heven := h.even_of_tie (isRepresentable_magnitudeValue infinityBits.toNat)
  rw [magnitudeValue_infinityBits] at heven
  generalize (2 : Rat) ^ 1024 = top at *
  generalize (2 : Rat) ^ 970 = unit at *
  rw [abs_of_nonpos (by linarith)] at htop
  have hbound : v ≤ top - unit := by
    rcases abs_cases (top - v) with ⟨habs, -⟩ | ⟨habs, -⟩ <;> linarith
  obtain rfl : v = top - unit := le_antisymm hbound hlarge
  rw [abs_of_nonneg (by linarith)] at htop
  have hdigits : k * 2 ^ place = top - 2 * unit := by linarith
  have hk : k % 2 = 0 := by
    rw [hdigits] at heven
    apply heven (by linarith)
    rw [abs_of_nonpos (by linarith), abs_of_nonneg (by linarith)]
    ring
  have hlast : nearestTo (top - unit) = infinityBits.toNat - 1 := by
    apply strictMono_magnitudeValue.injective
    rw [h.magnitudeValue_nearestTo hfinite, hdigits, hlargest]
  rw [h.nearestTo_of_lt hfinite, show infinityBits.toNat = 2047 * 2 ^ 52 from rfl] at hlast
  omega

/-- Below the bound the largest value is nearer than the end of the range. -/
theorem RoundsAt.nearestTo_lt {v : Rat} {place : Int} {k : Nat} (h : RoundsAt v place k)
    (hsmall : v < overflowBound) : nearestTo v < infinityBits.toNat := by
  have hunit : (0 : Rat) < 2 ^ 970 := by positivity
  have hlargest := h.nearest (isRepresentable_magnitudeValue (infinityBits.toNat - 1))
  have heq := h.nearestTo_eq
  by_contra hinfinite
  have habove : infinityBits.toNat ≤ (place + 1074).toNat * 2 ^ 52 + k := by omega
  have htop := strictMono_magnitudeValue.monotone habove
  rw [magnitudeValue_infinityBits, magnitudeValue_place h.least_le h.le h.full] at htop
  rw [magnitudeValue_largest] at hlargest
  rw [overflowBound] at hsmall
  generalize (2 : Rat) ^ 1024 = top at *
  generalize (2 : Rat) ^ 970 = unit at *
  rw [abs_of_nonneg (by linarith)] at hlargest
  rcases abs_cases (top - 2 * unit - v) with ⟨habs, -⟩ | ⟨habs, -⟩ <;> linarith

theorem nearestTo_lt_iff {v : Rat} (hv : 0 ≤ v) :
    nearestTo v < infinityBits.toNat ↔ v < overflowBound := by
  obtain ⟨place, k, h⟩ := exists_roundsAt hv
  exact ⟨h.lt_overflowBound, h.nearestTo_lt⟩

/-! ## Rounded values -/

theorem significand_mod_two (x : Binary64) : x.significand % 2 = x.magnitude.toNat % 2 := by
  unfold significand
  rw [fractionField_eq]
  split <;> omega

section Rounded

variable (q : Rat)

theorem nearestTo_lt_two_pow : nearestTo q < 2 ^ 63 :=
  (nearestMagnitude_le _ _).trans_lt (by decide)

theorem toNat_magnitude_ofRat : (ofRat q).magnitude.toNat = nearestTo q := by
  rw [ofRat_eq_ofMagnitude, toNat_magnitude_ofMagnitude _ (nearestTo_lt_two_pow q)]

theorem isNegative_ofRat : (ofRat q).isNegative = decide (q < 0) := by
  rw [ofRat_eq_ofMagnitude, isNegative_ofMagnitude _ (nearestTo_lt_two_pow q)]

theorem isNaN_ofRat : (ofRat q).isNaN = false := by
  rw [isNaN, decide_eq_false_iff_not, UInt64.lt_iff_toNat_lt, toNat_magnitude_ofRat, not_lt]
  exact nearestMagnitude_le _ _

theorem nearestTo_abs : nearestTo |q| = nearestTo q := by
  rcases abs_choice q with h | h <;> simp [h]

theorem isFinite_ofRat_iff : (ofRat q).isFinite = true ↔ |q| < overflowBound := by
  rw [isFinite_iff, toNat_magnitude_ofRat, ← nearestTo_abs, nearestTo_lt_iff (abs_nonneg q)]

theorem toRat_ofRat : (ofRat q).toRat =
    if q < 0 then -magnitudeValue (nearestTo q) else magnitudeValue (nearestTo q) := by
  simp [toRat_eq, isNegative_ofRat, toNat_magnitude_ofRat]

theorem abs_signed_sub (a : Rat) : |(if q < 0 then -a else a) - q| = |a - (|q|)| := by
  split_ifs with hq
  · rw [abs_of_neg hq, ← abs_neg]
    congr 1
    ring
  · rw [abs_of_nonneg (not_lt.mp hq)]

end Rounded

/-- What it means that a value is a rational rounded to nearest: no finite value is nearer, and one
that is as near leaves the even significand. -/
structure IsRounded (q : Rat) (x : Binary64) : Prop where
  isNaN : x.isNaN = false
  isFinite : |q| < overflowBound → x.isFinite = true
  infinite : overflowBound ≤ |q| → x = if q < 0 then negInfinity else infinity
  nearest : x.isFinite = true → ∀ y : Binary64, y.isFinite = true → |x.toRat - q| ≤ |y.toRat - q|
  even : x.isFinite = true → ∀ y : Binary64, y.isFinite = true → y.toRat ≠ x.toRat →
    |x.toRat - q| = |y.toRat - q| → x.significand % 2 = 0
  zero : q = 0 → x = ofMagnitude false 0
  underflow : q ≠ 0 → x.toRat = 0 → x = ofMagnitude (decide (q < 0)) 0

theorem ofRat_of_large {q : Rat} (h : overflowBound ≤ |q|) :
    ofRat q = if q < 0 then negInfinity else infinity := by
  have hinfinity : nearestTo q = infinityBits.toNat := by
    apply (nearestMagnitude_le _ _).antisymm
    rwa [← not_lt, ← nearestTo, ← nearestTo_abs, nearestTo_lt_iff (abs_nonneg q), not_lt]
  rw [ofRat_eq_ofMagnitude, hinfinity]
  split_ifs with hq
  · rw [decide_eq_true hq]
    rfl
  · rw [decide_eq_false hq]
    rfl

theorem ofRat_of_toRat_eq_zero {q : Rat} (h : (ofRat q).toRat = 0) :
    ofRat q = ofMagnitude (decide (q < 0)) 0 := by
  rw [← ofMagnitude_isNegative_magnitude (ofRat q), isNegative_ofRat,
    (toRat_eq_zero_iff _).mp h]

theorem exists_signed (q : Rat) {y : Binary64} (hy : y.isFinite = true) :
    ∃ a : Rat, IsRepresentable a ∧ y.toRat = if q < 0 then -a else a := by
  have hrepresentable := isRepresentable_toReal hy
  by_cases hq : q < 0
  · refine ⟨-y.toRat, ?_, by rw [if_pos hq, neg_neg]⟩
    rw [Rat.cast_neg]
    exact hrepresentable.neg
  · exact ⟨y.toRat, hrepresentable, by rw [if_neg hq]⟩

namespace RoundsAt

variable {q : Rat} {place : Int} {k : Nat}

theorem nearestTo_lt_of_isFinite (hx : (ofRat q).isFinite = true) :
    nearestTo |q| < infinityBits.toNat := by
  rwa [nearestTo_abs, ← toNat_magnitude_ofRat, ← isFinite_iff]

theorem toRat_ofRat (h : RoundsAt |q| place k) (hx : (ofRat q).isFinite = true) :
    (ofRat q).toRat = if q < 0 then -((k : Rat) * 2 ^ place) else k * 2 ^ place := by
  rw [← h.magnitudeValue_nearestTo (nearestTo_lt_of_isFinite hx), nearestTo_abs,
    Binary64.toRat_ofRat]

theorem significand_ofRat (h : RoundsAt |q| place k) (hx : (ofRat q).isFinite = true) :
    (ofRat q).significand % 2 = k % 2 := by
  rw [significand_mod_two, toNat_magnitude_ofRat, ← nearestTo_abs,
    h.nearestTo_of_lt (nearestTo_lt_of_isFinite hx)]
  omega

end RoundsAt

theorem isRounded_ofRat (q : Rat) : IsRounded q (ofRat q) := by
  obtain ⟨place, k, h⟩ := exists_roundsAt (abs_nonneg q)
  constructor
  · exact isNaN_ofRat q
  · exact (isFinite_ofRat_iff q).mpr
  · exact ofRat_of_large
  · intro hx y hy
    obtain ⟨a, ha, hya⟩ := exists_signed q hy
    rw [h.toRat_ofRat hx, hya, abs_signed_sub, abs_signed_sub]
    exact h.nearest ha
  · intro hx y hy hne htie
    obtain ⟨a, ha, hya⟩ := exists_signed q hy
    have hdistinct : a ≠ k * 2 ^ place := by
      rintro rfl
      exact hne (hya.trans (h.toRat_ofRat hx).symm)
    rw [h.toRat_ofRat hx, hya, abs_signed_sub, abs_signed_sub] at htie
    rw [h.significand_ofRat hx]
    exact h.even_of_tie ha hdistinct htie
  · rintro rfl
    exact ofRat_zero
  · intro _ hzero
    exact ofRat_of_toRat_eq_zero hzero

/-! ## Uniqueness -/

def signedValue (n : Int) : Rat :=
  if n < 0 then -magnitudeValue n.natAbs else magnitudeValue n.natAbs

theorem strictMono_signedValue : StrictMono signedValue := by
  intro n n' hlt
  have hnonneg := magnitudeValue_nonneg n'.natAbs
  unfold signedValue
  split_ifs with hn hn' hn'
  · exact neg_lt_neg (strictMono_magnitudeValue (by omega))
  · have hpos : magnitudeValue 0 < magnitudeValue n.natAbs :=
      strictMono_magnitudeValue (by omega)
    have := magnitudeValue_nonneg 0
    linarith
  · omega
  · exact strictMono_magnitudeValue (by omega)

theorem toRat_eq_signedValue (x : Binary64) : x.toRat = signedValue x.signedMagnitude := by
  have hzero : magnitudeValue 0 = 0 := by simp [magnitudeValue]
  rw [toRat_eq, signedValue, signedMagnitude]
  cases x.isNegative
  · simp
  · rcases Nat.eq_zero_or_pos x.magnitude.toNat with h | h <;> simp [h, hzero]

theorem exists_signedMagnitude_eq {n : Int} (hn : n.natAbs < infinityBits.toNat) :
    ∃ z : Binary64, z.isFinite = true ∧ z.signedMagnitude = n := by
  have hlt : n.natAbs < 2 ^ 63 := hn.trans (by decide)
  refine ⟨ofMagnitude (decide (n < 0)) (.ofNat n.natAbs), ?_, ?_⟩
  · rwa [isFinite_iff, toNat_magnitude_ofMagnitude _ hlt]
  · rw [signedMagnitude, isNegative_ofMagnitude _ hlt, toNat_magnitude_ofMagnitude _ hlt]
    simp only [decide_eq_true_eq]
    split_ifs <;> omega

/-- Two values with even significands have another one between them. -/
theorem exists_between {x y : Binary64} (hx : x.isFinite = true) (hy : y.isFinite = true)
    (heven : x.significand % 2 = 0) (heven' : y.significand % 2 = 0) (hlt : x.toRat < y.toRat) :
    ∃ z : Binary64, z.isFinite = true ∧ x.toRat < z.toRat ∧ z.toRat < y.toRat := by
  rw [significand_mod_two] at heven heven'
  rw [isFinite_iff] at hx hy
  rw [toRat_eq_signedValue x, toRat_eq_signedValue y, strictMono_signedValue.lt_iff_lt] at hlt
  have hparity : x.signedMagnitude % 2 = 0 ∧ x.signedMagnitude.natAbs < infinityBits.toNat := by
    unfold signedMagnitude
    split_ifs <;> omega
  have hparity' : y.signedMagnitude % 2 = 0 ∧ y.signedMagnitude.natAbs < infinityBits.toNat := by
    unfold signedMagnitude
    split_ifs <;> omega
  obtain ⟨z, hz, hsigned⟩ := exists_signedMagnitude_eq (n := x.signedMagnitude + 1) (by omega)
  refine ⟨z, hz, ?_, ?_⟩
  · rw [toRat_eq_signedValue x, toRat_eq_signedValue z, hsigned]
    exact strictMono_signedValue (by omega)
  · rw [toRat_eq_signedValue y, toRat_eq_signedValue z, hsigned]
    exact strictMono_signedValue (by omega)

theorem eq_of_toRat_eq {x y : Binary64} (h : x.toRat = y.toRat) (hne : x.toRat ≠ 0) : x = y := by
  have hsigned : x.signedMagnitude = y.signedMagnitude := by
    apply strictMono_signedValue.injective
    rwa [← toRat_eq_signedValue, ← toRat_eq_signedValue]
  have hmagnitude : x.magnitude.toNat ≠ 0 := by
    rw [Ne, toRat_eq_zero_iff, ← UInt64.toNat_inj] at hne
    exact hne
  have hsame : x.isNegative = y.isNegative ∧ x.magnitude.toNat = y.magnitude.toNat := by
    unfold signedMagnitude at hsigned
    cases hsign : x.isNegative <;> cases hsign' : y.isNegative <;>
      simp only [hsign, hsign', if_true, if_false, Bool.false_eq_true, Bool.true_eq_false,
        true_and, false_and] at hsigned ⊢ <;> omega
  rw [← ofMagnitude_isNegative_magnitude x, ← ofMagnitude_isNegative_magnitude y, hsame.1,
    UInt64.toNat_inj.mp hsame.2]

namespace IsRounded

variable {q : Rat} {x y : Binary64}

theorem not_lt_of_tie (h : IsRounded q x) (h' : IsRounded q y) (hx : x.isFinite = true)
    (hy : y.isFinite = true) (htie : |x.toRat - q| = |y.toRat - q|) : ¬ x.toRat < y.toRat := by
  intro hlt
  have heven := h.even hx y hy hlt.ne' htie
  have heven' := h'.even hy x hx hlt.ne htie.symm
  -- the exact number lies in the middle, so whatever lies between is nearer
  obtain ⟨z, hz, hxz, hzy⟩ := exists_between hx hy heven heven' hlt
  have hnear := h.nearest hx z hz
  rcases abs_eq_abs.mp htie with hsame | hmiddle
  · linarith
  · rw [abs_of_neg (by linarith)] at hnear
    have hnearer : |z.toRat - q| < -(x.toRat - q) := abs_lt.mpr ⟨by linarith, by linarith⟩
    exact absurd hnear (not_le.mpr hnearer)

theorem toRat_eq (h : IsRounded q x) (h' : IsRounded q y) (hx : x.isFinite = true)
    (hy : y.isFinite = true) : x.toRat = y.toRat := by
  have htie : |x.toRat - q| = |y.toRat - q| :=
    le_antisymm (h.nearest hx y hy) (h'.nearest hy x hx)
  have hle := not_lt.mp (h.not_lt_of_tie h' hx hy htie)
  have hge := not_lt.mp (h'.not_lt_of_tie h hy hx htie.symm)
  exact le_antisymm hge hle

theorem unique (h : IsRounded q x) (h' : IsRounded q y) : x = y := by
  rcases lt_or_ge |q| overflowBound with hsmall | hlarge
  · have hvalue := h.toRat_eq h' (h.isFinite hsmall) (h'.isFinite hsmall)
    by_cases hzero : x.toRat = 0
    · by_cases hq : q = 0
      · rw [h.zero hq, h'.zero hq]
      · rw [h.underflow hq hzero, h'.underflow hq (hvalue ▸ hzero)]
    · exact eq_of_toRat_eq hvalue hzero
  · rw [h.infinite hlarge, h'.infinite hlarge]

end IsRounded

theorem isRounded_iff (q : Rat) (x : Binary64) : IsRounded q x ↔ x = ofRat q := by
  constructor
  · intro h
    exact h.unique (isRounded_ofRat q)
  · rintro rfl
    exact isRounded_ofRat q

/-! ## Monotonicity -/

theorem place_mono {v v' : Rat} (hv : 0 < v) (h : v ≤ v') : place v ≤ place v' := by
  have hlog : Int.log 2 v ≤ Int.log 2 v' := Int.log_mono_right hv h
  unfold place
  omega

theorem nearestTo_mono {v v' : Rat} (hv : 0 ≤ v) (h : v ≤ v') : nearestTo v ≤ nearestTo v' := by
  rcases hv.eq_or_lt with rfl | hpos
  · rw [nearestTo_zero]
    exact Nat.zero_le _
  · have hrounds := roundsAt_place hpos
    have hrounds' := roundsAt_place (hpos.trans_le h)
    rw [hrounds.nearestTo_eq, hrounds'.nearestTo_eq]
    apply min_le_min_right
    rcases (place_mono hpos h).eq_or_lt with hplace | hplace
    · have hscaled : v / 2 ^ place v ≤ v' / 2 ^ place v := by gcongr
      rw [← hplace]
      exact Nat.add_le_add_left (nearestInteger_mono (by positivity) hscaled) _
    · -- digits that are rounded up reach at most the next place
      have hle := hrounds.le
      have hleast := hrounds.least_le
      have hfull := hrounds'.full
      omega

theorem signedMagnitude_ofRat (q : Rat) : (ofRat q).signedMagnitude =
    if q < 0 then -(nearestTo q : Int) else nearestTo q := by
  simp [signedMagnitude, isNegative_ofRat, toNat_magnitude_ofRat]

theorem ofRat_mono {q q' : Rat} (h : q ≤ q') : ofRat q ≤ ofRat q' := by
  apply le_of_signedMagnitude_le (isNaN_ofRat q) (isNaN_ofRat q')
  rw [signedMagnitude_ofRat, signedMagnitude_ofRat]
  split_ifs with hq hq'
  · have hmono := nearestTo_mono (abs_nonneg q') (abs_le_abs_of_nonpos hq'.le h)
    rw [nearestTo_abs, nearestTo_abs] at hmono
    omega
  · omega
  · exact absurd (h.trans_lt ‹q' < 0›) hq
  · exact_mod_cast nearestTo_mono (not_lt.mp hq) h

/-! ## The two readings of a literal -/

/-- A literal read as a float is its exact value rounded, but for the sign of a zero. -/
theorem exists_read_of_decimal? {cs : List Char} {q : Rat} (h : decimal? cs = some q) :
    ∃ x, read cs = .ok x ∧
      (x = ofRat q ∨ q = 0 ∧ cs.head? = some '-' ∧ x = ofMagnitude true 0) := by
  obtain ⟨negative, us, hsign⟩ : ∃ negative us, splitSign cs = (negative, us) := ⟨_, _, rfl⟩
  have hsome : (decimal? cs).isSome = true := by rw [h]; rfl
  obtain ⟨hdecimal, hplaces⟩ := (decimal?_isSome_iff cs).mp hsome
  rw [hsign] at hdecimal hplaces
  have hmark : ∀ c ∈ us, Numeral.isExponentMark c = false := fun c hc =>
    Numeral.isExponentMark_of_continuesLiteral
      (((Decimal.wellFormed_split_iff us).mp hdecimal).1 c hc)
  have hread := read_of_splitSign hsign (Numeral.ofChars?_of_no_mark hmark hdecimal)
  have hvalue : Numeral.value ⟨Decimal.split us, 0⟩ = (Decimal.split us).value := by
    simp [Numeral.value]
  have hnonneg : 0 ≤ (Decimal.split us).value := by
    rw [Decimal.value_eq]
    positivity
  rw [Numeral.toBinary64_eq hdecimal, hvalue] at hread
  refine ⟨_, hread, ?_⟩
  simp only [decimal?, hsign, hdecimal, hplaces, decide_true, Bool.and_true, if_true,
    Option.some_inj] at h
  subst h
  cases negative with
  | false =>
    left
    simp [ofRat_eq_ofMagnitude, hnonneg.not_gt]
  | true =>
    rcases hnonneg.eq_or_lt with hzero | hpos
    · right
      have hhead : cs.head? = some '-' := by
        unfold splitSign at hsign
        split at hsign
        · rfl
        · cases hsign
        · cases hsign
      rw [← hzero]
      exact ⟨by simp, hhead, rfl⟩
    · left
      simp [ofRat_eq_ofMagnitude, hpos]

/-- Rounding a rational gives its one nearest value and is monotone. A decimal literal has the same
number as a float and as a rounded rational, and the same pattern unless it is a zero with a
minus. -/
theorem readings_agree :
    (∀ q x, IsRounded q x ↔ x = ofRat q) ∧ (∀ q q', q ≤ q' → ofRat q ≤ ofRat q') ∧
      ∀ cs q, decimal? cs = some q → ∃ x, read cs = .ok x ∧ x ≤ ofRat q ∧ ofRat q ≤ x ∧
        (x = ofRat q ∨ q = 0 ∧ cs.head? = some '-' ∧ x = ofMagnitude true 0) := by
  refine ⟨isRounded_iff, fun q q' => ofRat_mono, fun cs q h => ?_⟩
  obtain ⟨x, hread, hx⟩ := exists_read_of_decimal? h
  refine ⟨x, hread, ?_⟩
  rcases hx with rfl | ⟨rfl, hhead, rfl⟩
  · exact ⟨le_refl (isNaN_ofRat q), le_refl (isNaN_ofRat q), .inl rfl⟩
  · rw [ofRat_zero]
    exact ⟨by decide +kernel, by decide +kernel, .inr ⟨rfl, hhead, rfl⟩⟩

theorem readings_agree_on_half :
    decimal? "-.5".toList = some (-1 / 2) ∧
      (∃ x, read "-.5".toList = .ok x ∧ x = ofRat (-1 / 2)) ∧
    (-1 / 2 : Rat) ≤ 1 / 3 ∧ ofRat (-1 / 2) ≤ ofRat (1 / 3) ∧
      IsRounded (1 / 3) (ofRat (1 / 3)) := by
  have hdecimal : decimal? "-.5".toList = some (-1 / 2) := by decide +kernel
  have hne : (-1 / 2 : Rat) ≠ 0 := by decide +kernel
  have hle : (-1 / 2 : Rat) ≤ 1 / 3 := by decide +kernel
  obtain ⟨x, hread, -, -, hx⟩ := readings_agree.2.2 _ _ hdecimal
  have hsame : x = ofRat (-1 / 2) := hx.resolve_right fun h => hne h.1
  exact ⟨hdecimal, ⟨x, hread, hsame⟩, hle, readings_agree.2.1 _ _ hle,
    (readings_agree.1 _ _).mpr rfl⟩

/-- A number halfway between two values, one past the range, one below half of the smallest, and a
literal of zero with a minus. -/
example : ofRat 9007199254740993 = ofRat 9007199254740992 ∧ ofRat (10 ^ 400) = infinity ∧
    ofRat (-1 / 10 ^ 400) = ofMagnitude true 0 ∧ ofRat 0 = ofMagnitude false 0 ∧
    read "-0.0".toList = .ok (ofMagnitude true 0) := by decide +kernel

end FormulaSearch.Binary64
