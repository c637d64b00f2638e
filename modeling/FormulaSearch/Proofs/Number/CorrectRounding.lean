import FormulaSearch.Proofs.Number.Value

/-!
# Correctly rounded results

A finite result is correctly rounded if no representable number is nearer to the exact one. This is
all that error bounds need: a representable exact result is not changed, a representable bound of the
exact result is kept, and the relative error is at most `2 ^ (-53)` except below the normal range.
Which of two nearest numbers is taken plays no part.
-/

open Float.Model (Format UnpackedFloat)
open Float.Model.UnpackedFloat (Sign Accuracy ExtendedMantissa)

namespace FormulaSearch.Binary64

noncomputable section

def toReal (x : Binary64) : ℝ := (x.toRat : ℝ)

/-- An integer of at most 53 binary digits at a place that is not below the least one. There is no
greatest place. -/
def IsRepresentable (y : ℝ) : Prop := ∃ k e : Int, |k| ≤ 2 ^ 53 ∧ -1074 ≤ e ∧ y = k * 2 ^ e

theorem isRepresentable_intCast {k : Int} (h : |k| ≤ 2 ^ 53) : IsRepresentable k :=
  ⟨k, 0, h, by decide, by simp⟩

theorem isRepresentable_natCast {n : Nat} (h : n ≤ 2 ^ 53) : IsRepresentable n := by
  have := isRepresentable_intCast (k := n) (by rw [Nat.abs_cast]; exact_mod_cast h)
  simpa using this

theorem isRepresentable_zero : IsRepresentable 0 := by
  simpa using isRepresentable_natCast (n := 0) (by decide)

theorem isRepresentable_one : IsRepresentable 1 := by
  simpa using isRepresentable_natCast (n := 1) (by decide)

theorem isRepresentable_two_zpow {e : Int} (he : -1074 ≤ e) : IsRepresentable (2 ^ e) :=
  ⟨1, e, by decide, he, by simp⟩

theorem IsRepresentable.neg {y : ℝ} (hy : IsRepresentable y) : IsRepresentable (-y) := by
  obtain ⟨k, e, hk, he, rfl⟩ := hy
  exact ⟨-k, e, by rwa [abs_neg], he, by push_cast; ring⟩

theorem isRepresentable_toReal {x : Binary64} (hx : x.isFinite = true) :
    IsRepresentable x.toReal := by
  have hfits := fits hx
  refine ⟨x.sign.apply x.significand, x.exponent, ?_, hfits.least_le, ?_⟩
  · have habs : |x.sign.apply x.significand| = x.significand := by
      cases x.sign <;> simp [Sign.apply]
    rw [habs]
    exact_mod_cast hfits.lt.le
  · rw [toReal, toRat_eq_exactValue hx, unpacked_eq_ofParts hx, exactValue_ofParts]
    push_cast
    rfl

/-- The greatest relative error of a rounding in the normal range. -/
def unitRoundoff : ℝ := 2 ^ (-53 : Int)

theorem unitRoundoff_pos : 0 < unitRoundoff := by
  unfold unitRoundoff
  positivity

theorem unitRoundoff_le_half : unitRoundoff ≤ 1 / 2 := by
  unfold unitRoundoff
  norm_num

/-- Zero, or at least a power of two away from it. -/
def Clears (e : Int) (t : ℝ) : Prop := t = 0 ∨ 2 ^ e ≤ |t|

theorem Clears.mono {e e' : Int} {t : ℝ} (h : Clears e t) (hle : e' ≤ e) : Clears e' t :=
  h.imp_right (zpow_le_zpow_right₀ one_le_two hle).trans

theorem Clears.mul {e e' : Int} {t t' : ℝ} (h : Clears e t) (h' : Clears e' t') :
    Clears (e + e') (t * t') := by
  rcases h with rfl | h
  · exact .inl (zero_mul _)
  rcases h' with rfl | h'
  · exact .inl (mul_zero _)
  · right
    rw [zpow_add₀ two_ne_zero, abs_mul]
    gcongr

theorem Clears.div {e e' : Int} {t w : ℝ} (h : Clears e t) (hw : 0 < w) (hw' : w ≤ 2 ^ e') :
    Clears (e - e') (t / w) := by
  rcases h with rfl | h
  · exact .inl (zero_div _)
  · right
    rw [zpow_sub₀ two_ne_zero, abs_div, abs_of_pos hw]
    gcongr

theorem Clears.sqrt {e : Int} {t : ℝ} (h : Clears (e + e) t) (ht : 0 ≤ t) : Clears e √t := by
  rcases h with rfl | h
  · exact .inl Real.sqrt_zero
  · right
    rw [abs_of_nonneg ht, zpow_add₀ two_ne_zero] at h
    rw [abs_of_nonneg (Real.sqrt_nonneg t)]
    exact Real.le_sqrt_of_sq_le (by rwa [sq])

theorem Clears.add {e : Int} {t t' : ℝ} (h : Clears e t) (h' : Clears e t') (ht : 0 ≤ t)
    (ht' : 0 ≤ t') : Clears e (t + t') := by
  rcases h with rfl | h
  · rwa [zero_add]
  · right
    rw [abs_of_nonneg (add_nonneg ht ht')]
    rw [abs_of_nonneg ht] at h
    linarith

theorem exists_isRepresentable_near {r M : ℝ} (hr : |r| ≤ M) (hM : 2 ^ (-1022 : Int) ≤ M) :
    ∃ y, IsRepresentable y ∧ |y - r| ≤ unitRoundoff * M := by
  have hpos : 0 < M := lt_of_lt_of_le (by positivity) hM
  have hlog : -1022 ≤ Int.log 2 M := by
    rw [← Int.zpow_le_iff_le_log one_lt_two hpos]
    exact_mod_cast hM
  have hlower : (2 : ℝ) ^ Int.log 2 M ≤ M := by exact_mod_cast Int.zpow_log_le_self one_lt_two hpos
  have hupper : M < (2 : ℝ) ^ (Int.log 2 M + 1) := by
    exact_mod_cast Int.lt_zpow_succ_log_self one_lt_two M
  generalize Int.log 2 M = e at hlog hlower hupper
  -- the nearest multiple of the last place that the bound has
  have hunit : (0 : ℝ) < 2 ^ (e - 52) := by positivity
  have hnear : |r / 2 ^ (e - 52) - round (r / 2 ^ (e - 52))| ≤ 1 / 2 := abs_sub_round _
  have hquotient : |r / 2 ^ (e - 52)| < 2 ^ 53 := by
    rw [abs_div, abs_of_pos hunit, div_lt_iff₀ hunit, ← zpow_natCast, ← zpow_add₀ two_ne_zero]
    calc |r| ≤ M := hr
      _ < 2 ^ (e + 1) := hupper
      _ = 2 ^ (((53 : Nat) : Int) + (e - 52)) := by
        congr 1
        push_cast
        ring
  generalize round (r / 2 ^ (e - 52)) = k at hnear
  have hdigits : |k| ≤ 2 ^ 53 := by
    have hk : |(k : ℝ)| < 2 ^ 53 + 1 := by
      have := abs_sub_abs_le_abs_sub (k : ℝ) (r / 2 ^ (e - 52))
      rw [abs_sub_comm] at hnear
      linarith
    rw [← Int.lt_add_one_iff]
    exact_mod_cast hk
  refine ⟨k * 2 ^ (e - 52), ⟨k, e - 52, hdigits, by omega, rfl⟩, ?_⟩
  calc |k * 2 ^ (e - 52) - r| = |r / 2 ^ (e - 52) - k| * 2 ^ (e - 52) := by
        conv_rhs => rw [← abs_of_pos hunit, ← abs_mul, abs_of_pos hunit, sub_mul,
          div_mul_cancel₀ r hunit.ne', abs_sub_comm]
    _ ≤ 1 / 2 * 2 ^ (e - 52) := by gcongr
    _ = unitRoundoff * 2 ^ e := by
      rw [unitRoundoff, one_div, ← zpow_neg_one, ← zpow_add₀ two_ne_zero, ← zpow_add₀ two_ne_zero]
      congr 1
      ring
    _ ≤ unitRoundoff * M := by
      unfold unitRoundoff
      gcongr

/-- The pattern is that of a representable number nearest to `r`. It is finite unless `r` is near the
end of the range or beyond. -/
structure RoundsTo (r : ℝ) (x : Binary64) : Prop where
  isFinite : |r| ≤ 2 ^ 1023 → x.isFinite = true
  nearest : x.isFinite = true → ∀ y, IsRepresentable y → |x.toReal - r| ≤ |y - r|

namespace RoundsTo

variable {r y M : ℝ} {x : Binary64}

theorem eq (h : RoundsTo r x) (hx : x.isFinite = true) (hr : IsRepresentable r) : x.toReal = r := by
  have hnear := h.nearest hx r hr
  rw [sub_self, abs_zero] at hnear
  exact sub_eq_zero.mp (abs_nonpos_iff.mp hnear)

theorem le (h : RoundsTo r x) (hx : x.isFinite = true) (hy : IsRepresentable y) (hry : r ≤ y) :
    x.toReal ≤ y := by
  by_contra hlt
  have hnear := h.nearest hx y hy
  rw [abs_of_nonneg (by linarith), abs_of_nonneg (by linarith)] at hnear
  linarith

theorem ge (h : RoundsTo r x) (hx : x.isFinite = true) (hy : IsRepresentable y) (hyr : y ≤ r) :
    y ≤ x.toReal := by
  by_contra hlt
  have hnear := h.nearest hx y hy
  rw [abs_of_nonpos (by linarith), abs_of_nonpos (by linarith)] at hnear
  linarith

/-- The error relative to a bound of the exact result that is in the normal range. -/
theorem error_le (h : RoundsTo r x) (hx : x.isFinite = true) (hr : |r| ≤ M)
    (hM : 2 ^ (-1022 : Int) ≤ M) : |x.toReal - r| ≤ unitRoundoff * M := by
  obtain ⟨y, hy, hnear⟩ := exists_isRepresentable_near hr hM
  exact (h.nearest hx y hy).trans hnear

theorem clears (h : RoundsTo r x) (hx : x.isFinite = true) {e : Int} (hr : Clears e r)
    (he : -1074 ≤ e) : Clears e x.toReal := by
  have hpower := isRepresentable_two_zpow he
  rcases hr with rfl | hr
  · exact .inl (h.eq hx isRepresentable_zero)
  · right
    rcases le_abs.mp hr with hpos | hneg
    · exact (h.ge hx hpower hpos).trans (le_abs_self _)
    · have hbelow := h.le hx hpower.neg (by linarith)
      exact (le_neg_of_le_neg hbelow).trans (neg_le_abs _)

/-- The error relative to an exact result that is zero or in the normal range. -/
theorem abs_sub_le (h : RoundsTo r x) (hx : x.isFinite = true) (hr : Clears (-1022) r) :
    |x.toReal - r| ≤ unitRoundoff * |r| := by
  rcases hr with rfl | hr
  · rw [h.eq hx isRepresentable_zero]
    simp
  · exact h.error_le hx le_rfl hr

theorem lower (h : RoundsTo r x) (hx : x.isFinite = true) (hr : Clears (-1022) r) (hpos : 0 ≤ r) :
    (1 - unitRoundoff) * r ≤ x.toReal := by
  have herror := (abs_le.mp (h.abs_sub_le hx hr)).1
  rw [abs_of_nonneg hpos] at herror
  linarith

theorem abs_le_of_clears (h : RoundsTo r x) (hx : x.isFinite = true) (hr : Clears (-1022) r) :
    |x.toReal| ≤ (1 + unitRoundoff) * |r| := by
  have herror := h.abs_sub_le hx hr
  have htriangle := abs_sub_abs_le_abs_sub x.toReal r
  linarith

theorem abs_upper (h : RoundsTo r x) (hx : x.isFinite = true) (hr : |r| ≤ M)
    (hM : 2 ^ (-1022 : Int) ≤ M) : |x.toReal| ≤ (1 + unitRoundoff) * M := by
  have herror := h.error_le hx hr hM
  have htriangle := abs_sub_abs_le_abs_sub x.toReal r
  linarith

end RoundsTo

/-! ## Rounding at a place -/

theorem abs_sub_le_of_abs_sub_le_half {k i : Int} {t : ℝ} (h : |k - t| ≤ 1 / 2) :
    |k - t| ≤ |i - t| := by
  rcases eq_or_ne i k with rfl | hne
  · exact le_rfl
  · have hdistance : (1 : ℝ) ≤ |(i : ℝ) - k| := by
      exact_mod_cast Int.one_le_abs (sub_ne_zero.mpr hne)
    have htriangle := abs_sub_le (i : ℝ) t k
    rw [abs_sub_comm t] at htriangle
    linarith

theorem abs_mul_zpow_sub (a v : ℝ) (place : Int) :
    |a * 2 ^ place - v| = |a - v / 2 ^ place| * 2 ^ place := by
  have hunit : (0 : ℝ) < 2 ^ place := by positivity
  rw [← abs_of_pos hunit, ← abs_mul, abs_of_pos hunit, sub_mul, div_mul_cancel₀ v hunit.ne']

/-- A representable number is a multiple of the place that a positive number has in the format,
unless it has digits at lower places. Then some multiple is nearer. -/
theorem exists_multiple_near {v y : ℝ} {place : Int}
    (hplace : 2 ^ (place + 52) ≤ v ∨ place = -1074) (hy : IsRepresentable y) :
    ∃ j : Int, y = j * 2 ^ place ∨ |j * 2 ^ place - v| < |y - v| := by
  obtain ⟨i, e, hi, he, rfl⟩ := hy
  rcases le_or_gt place e with hle | hlt
  · refine ⟨i * 2 ^ (e - place).toNat, .inl ?_⟩
    push_cast
    rw [mul_assoc, ← zpow_natCast, ← zpow_add₀ two_ne_zero]
    congr 2
    omega
  · -- a number with digits at lower places is not above the power of two below the exact one
    have hpower : (2 : ℝ) ^ (place + 52) ≤ v := hplace.resolve_right (by omega)
    have hbelow : (i : ℝ) * 2 ^ e ≤ 2 ^ (place + 52) := by
      have hi' : (i : ℝ) ≤ 2 ^ (53 : Int) := by exact_mod_cast (le_abs_self i).trans hi
      calc (i : ℝ) * 2 ^ e ≤ 2 ^ (53 : Int) * 2 ^ e := by gcongr
        _ = 2 ^ (53 + e) := (zpow_add₀ two_ne_zero _ _).symm
        _ ≤ 2 ^ (place + 52) := zpow_le_zpow_right₀ one_le_two (by omega)
    have hmultiple : (((2 : Int) ^ 52 : Int) : ℝ) * 2 ^ place = 2 ^ (place + 52) := by
      rw [zpow_add₀ two_ne_zero, mul_comm]
      norm_num
    refine ⟨2 ^ 52, ?_⟩
    rw [hmultiple]
    rcases hbelow.eq_or_lt with heq | hlt
    · exact .inl heq
    · right
      rw [abs_of_nonpos (by linarith), abs_of_nonpos (by linarith)]
      linarith

section Place

variable {v y : ℝ} {k : Nat} {place : Int}

theorem nearest_multiple (hk : |k - v / 2 ^ place| ≤ 1 / 2) (j : Int) :
    |k * 2 ^ place - v| ≤ |j * 2 ^ place - v| := by
  rw [abs_mul_zpow_sub, abs_mul_zpow_sub]
  exact mul_le_mul_of_nonneg_right (abs_sub_le_of_abs_sub_le_half (k := k) hk) (by positivity)

/-- An integer is rounded at the place that a positive number has in the format: no representable
number is nearer, not even one that has digits at lower places. -/
theorem nearest_of_place (hplace : 2 ^ (place + 52) ≤ v ∨ place = -1074)
    (hk : |k - v / 2 ^ place| ≤ 1 / 2) (hy : IsRepresentable y) :
    |k * 2 ^ place - v| ≤ |y - v| := by
  obtain ⟨j, rfl | hnearer⟩ := exists_multiple_near hplace hy
  · exact nearest_multiple hk j
  · exact (nearest_multiple hk j).trans hnearer.le

/-- Another representable number is as near only if the exact one lies halfway between integers. -/
theorem half_of_tie (hplace : 2 ^ (place + 52) ≤ v ∨ place = -1074)
    (hk : |k - v / 2 ^ place| ≤ 1 / 2) (hy : IsRepresentable y) (hne : y ≠ k * 2 ^ place)
    (htie : |k * 2 ^ place - v| = |y - v|) : |k - v / 2 ^ place| = 1 / 2 := by
  obtain ⟨j, rfl | hnearer⟩ := exists_multiple_near hplace hy
  · rw [abs_mul_zpow_sub, abs_mul_zpow_sub, mul_left_inj' (by positivity)] at htie
    have hdistinct : j ≠ k := by
      rintro rfl
      exact hne (by push_cast; rfl)
    have hdistance : (1 : ℝ) ≤ |(j : ℝ) - k| := by
      exact_mod_cast Int.one_le_abs (sub_ne_zero.mpr hdistinct)
    have htriangle := abs_sub_le (j : ℝ) (v / 2 ^ place) k
    rw [abs_sub_comm (v / 2 ^ place)] at htriangle
    linarith
  · exact absurd (nearest_multiple hk j) (by linarith)

end Place

theorem isFinite_ofUnpacked_of_large {s : Sign} {m : Nat} {e : Int} (hm : 0 < m) (he : 972 ≤ e) :
    (ofUnpacked (ofParts s m e)).isFinite = false := by
  have hbiased : e + (Format.binary64.exponentBias : Int) +
      Format.binary64.mantissaBitsWithoutImplicit = e + 1075 := by
    simp [Format.exponentBias]
    omega
  have hpack : UnpackedFloat.pack .binary64 (ofParts s m e) =
      UnpackedFloat.pack .binary64 (.infinity s) := by
    rw [ofParts, dif_pos hm]
    unfold UnpackedFloat.pack
    dsimp only
    rw [hbiased, if_pos (by simp; omega)]
  rw [← Bool.not_eq_true, isFinite_iff_not_isSpecial, not_not, unpacked_ofUnpacked, stored, hpack]
  exact IsSpecial.stored (u := .infinity s) True.intro

theorem toReal_ofUnpacked {s : Sign} {m : Nat} {e : Int} (h : Fits m e) :
    (ofUnpacked (ofParts s m e)).toReal = (s.apply 1 : Int) * (m * 2 ^ e) := by
  rw [toReal, toRat_ofUnpacked h]
  cases s <;> simp [Sign.apply]

theorem abs_apply_one_mul (s : Sign) (x : ℝ) : |((s.apply 1 : Int) : ℝ) * x| = |x| := by
  cases s <;> simp [Sign.apply]

theorem lt_of_nearest_large {v w bound : ℝ} (hbound : 0 < bound) (hnear : |w - v| ≤ |bound - v|)
    (hlarge : 2 * bound ≤ w) : bound < v := by
  by_contra hle
  rw [abs_of_nonneg (by linarith), abs_of_nonneg (by linarith)] at hnear
  linarith

/-- The rounding of a positive number at its place, with a sign, in the form of the format. -/
theorem roundsTo_ofParts {v : ℝ} {k m : Nat} {place e : Int} (s : Sign) (hv : 0 ≤ v)
    (hplace : 2 ^ (place + 52) ≤ v ∨ place = -1074) (hk : |k - v / 2 ^ place| ≤ 1 / 2)
    (hvalue : (m : ℝ) * 2 ^ e = k * 2 ^ place) (hm : m < 2 ^ 53) (hleast : -1074 ≤ e)
    (hfull : 2 ^ 52 ≤ m ∨ e = -1074) :
    RoundsTo ((s.apply 1 : Int) * v) (ofUnpacked (ofParts s m e)) := by
  have hnearest {y : ℝ} (hy : IsRepresentable y) := nearest_of_place hplace hk hy
  rcases le_or_gt e 971 with he | he
  · have hfits : Fits m e := ⟨hm, hleast, he, hfull⟩
    have hreal : (ofUnpacked (ofParts s m e)).toReal = (s.apply 1 : Int) * (k * 2 ^ place) := by
      rw [toReal_ofUnpacked hfits, hvalue]
    refine ⟨fun _ => isFinite_ofUnpacked hfits, fun _ y hy => ?_⟩
    rw [hreal, ← mul_sub, abs_apply_one_mul]
    cases s with
    | positive => simpa [Sign.apply] using hnearest hy
    | negative =>
      have := hnearest hy.neg
      rw [← abs_neg (y - _)]
      simpa [Sign.apply, sub_eq_add_neg, add_comm] using this
  · have hm' : 2 ^ 52 ≤ m := hfull.resolve_right (by omega)
    have hinfinite : (ofUnpacked (ofParts s m e)).isFinite = false :=
      isFinite_ofUnpacked_of_large (by omega) (by omega)
    refine ⟨fun hr => ?_, fun hx => by rw [hinfinite] at hx; cases hx⟩
    have hlarge : 2 * (2 : ℝ) ^ (1023 : Int) ≤ k * 2 ^ place := by
      rw [← hvalue]
      calc 2 * (2 : ℝ) ^ (1023 : Int) = 2 ^ (52 : Int) * 2 ^ (972 : Int) := by
            rw [← zpow_one_add₀ two_ne_zero, ← zpow_add₀ two_ne_zero]
            rfl
        _ ≤ m * 2 ^ e := by
          gcongr
          · exact_mod_cast hm'
          · exact one_le_two
          · omega
    -- the power of two at the end of the range would be nearer
    have hnear := hnearest (isRepresentable_two_zpow (e := 1023) (by decide))
    have hrange := lt_of_nearest_large (by positivity) hnear hlarge
    rw [abs_apply_one_mul, abs_of_nonneg hv] at hr
    exact absurd (hrange.trans_le hr) (by rw [zpow_ofNat]; exact lt_irrefl _)

end

end FormulaSearch.Binary64
