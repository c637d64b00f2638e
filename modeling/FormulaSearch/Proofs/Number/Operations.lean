import FormulaSearch.Proofs.Number.CorrectRounding

/-!
# The arithmetic operations

An operation on floats has an exact result, of which it keeps a mantissa, an exponent and whether
what is cut off is less than, equal to or more than half a unit. Rounding goes by these, and gives a
representable number nearest to the exact result. So sums, differences, products, quotients, square
roots and the conversion of natural numbers are correctly rounded.
-/

open Float.Model (Format UnpackedFloat)
open Float.Model.UnpackedFloat

namespace FormulaSearch.Binary64

/-! ## Rounding by round bit and sticky bit -/

/-- The mantissa with its round bit counts the halves, and the sticky bit tells whether more than
them has been cut off. -/
def Represents (em : ExtendedMantissa) (t : ℝ) : Prop :=
  let halves : Nat := 2 * em.mantissa + em.roundBit.toNat
  if em.stickyBit then (halves : ℝ) < t + t ∧ t + t < halves + 1 else t + t = halves

namespace Represents

variable {em : ExtendedMantissa} {t : ℝ}

theorem floor_le (h : Represents em t) : (em.mantissa : ℝ) ≤ t := by
  obtain ⟨m, roundBit, stickyBit⟩ := em
  cases roundBit <;> cases stickyBit <;> simp [Represents] at h <;> dsimp only <;> linarith

theorem lt_floor_add_one (h : Represents em t) : t < em.mantissa + 1 := by
  obtain ⟨m, roundBit, stickyBit⟩ := em
  cases roundBit <;> cases stickyBit <;> simp [Represents] at h <;> dsimp only <;> linarith

theorem abs_rounded_sub_le (h : Represents em t) : |(em.roundedMantissa : ℝ) - t| ≤ 1 / 2 := by
  obtain ⟨m, roundBit, stickyBit⟩ := em
  rw [abs_le]
  cases roundBit <;> cases stickyBit <;> simp [Represents] at h
  · change _ ≤ (m : ℝ) - t ∧ (m : ℝ) - t ≤ _
    constructor <;> linarith
  · change _ ≤ (m : ℝ) - t ∧ (m : ℝ) - t ≤ _
    constructor <;> linarith
  · change _ ≤ ((m + m % 2 : Nat) : ℝ) - t ∧ ((m + m % 2 : Nat) : ℝ) - t ≤ _
    rcases Nat.mod_two_eq_zero_or_one m with hm | hm <;> rw [hm] <;> push_cast <;>
      constructor <;> linarith
  · change _ ≤ ((m + 1 : Nat) : ℝ) - t ∧ ((m + 1 : Nat) : ℝ) - t ≤ _
    push_cast
    constructor <;> linarith

theorem shiftRightOne (h : Represents em t) : Represents em.shiftRightOne (t / 2) := by
  obtain ⟨m, roundBit, stickyBit⟩ := em
  -- the halves of the shifted mantissa are the old mantissa
  have hhalves : 2 * (m / 2) + (m % 2 != 0).toNat = m := by
    have := Nat.div_add_mod m 2
    rcases Nat.mod_two_eq_zero_or_one m with hm | hm <;> rw [hm] at this ⊢ <;> simpa using this
  change Represents ⟨m / 2, m % 2 != 0, roundBit || stickyBit⟩ (t / 2)
  unfold Represents
  dsimp only
  rw [hhalves, add_halves]
  cases roundBit <;> cases stickyBit <;> simp [Represents] at h ⊢ <;> first
    | linarith
    | constructor <;> linarith

theorem shiftRight (h : Represents em t) (n : Nat) : Represents (em >>> n) (t / 2 ^ n) := by
  induction n with
  | zero =>
    rw [pow_zero, div_one]
    exact h
  | succ n ih =>
    rw [pow_succ, ← div_div]
    exact ih.shiftRightOne

end Represents

section Accuracy

variable {m : Nat} {t : ℝ}

theorem represents_exact (m : Nat) : Represents (.ofMantissaAndAccuracy m .exact) m := by
  change (m : ℝ) + m = (2 * m + 0 : Nat)
  push_cast
  ring

theorem represents_below_half (hlower : m < t) (hupper : t < m + 1 / 2) :
    Represents (.ofMantissaAndAccuracy m (.inexact .lt)) t := by
  change ((2 * m + 0 : Nat) : ℝ) < t + t ∧ t + t < (2 * m + 0 : Nat) + 1
  push_cast
  constructor <;> linarith

theorem represents_half (h : t = m + 1 / 2) :
    Represents (.ofMantissaAndAccuracy m (.inexact .eq)) t := by
  change t + t = (2 * m + 1 : Nat)
  push_cast
  linarith

theorem represents_above_half (hlower : m + 1 / 2 < t) (hupper : t < m + 1) :
    Represents (.ofMantissaAndAccuracy m (.inexact .gt)) t := by
  change ((2 * m + 1 : Nat) : ℝ) < t + t ∧ t + t < (2 * m + 1 : Nat) + 1
  push_cast
  constructor <;> linarith

end Accuracy

/-! ## Rounding of a mantissa with an exponent -/

/-- The place of the last digit that is kept. -/
def keptPlace (m : Nat) (e : Int) : Int := max (m.log2 + 1 + e - 53) (-1074)

theorem dite_eq_ofParts (s : Sign) (m : Nat) (e : Int) :
    (if h : m = 0 then UnpackedFloat.zero s else .finite s m e (Nat.pos_of_ne_zero h)) =
      ofParts s m e := by
  unfold ofParts
  split_ifs <;> first
    | rfl
    | omega

/-- A first shift goes to the place that is kept. A second one is needed only if rounding has
carried into a further digit. -/
theorem roundWithAccuracy_eq (s : Sign) (m : Nat) (e : Int) (accuracy : Accuracy) :
    let n := (keptPlace m e - e).toNat
    let k := (ExtendedMantissa.ofMantissaAndAccuracy m accuracy >>> n).roundedMantissa
    let n' := (keptPlace k (e + n) - (e + n)).toNat
    roundWithAccuracy .binary64 s m e accuracy =
      ofParts s (ExtendedMantissa.ofMantissaAndAccuracy k .exact >>> n').mantissa (e + n + n') :=
  dite_eq_ofParts _ _ _

/-- The second shift is exact. -/
theorem exists_fits_of_rounded {k : Nat} {place : Int} (hk : k ≤ 2 ^ 53) (hplace : -1074 ≤ place)
    (hfull : 2 ^ 52 ≤ k ∨ place = -1074) :
    let n := (keptPlace k place - place).toNat
    let m := (ExtendedMantissa.ofMantissaAndAccuracy k .exact >>> n).mantissa
    (m : ℝ) * 2 ^ (place + n) = k * 2 ^ place ∧ m < 2 ^ 53 ∧
      (2 ^ 52 ≤ m ∨ place + n = -1074) := by
  rcases Nat.lt_or_ge k (2 ^ 53) with hlt | hge
  · have hshift : (keptPlace k place - place).toNat = 0 := by
      have hlog : k.log2 < 53 := by
        rcases Nat.eq_zero_or_pos k with rfl | hpos
        · decide
        · exact (Nat.log2_lt hpos.ne').mpr hlt
      unfold keptPlace
      omega
    rw [hshift]
    have hsame : (ExtendedMantissa.ofMantissaAndAccuracy k .exact >>> 0).mantissa = k := rfl
    simp only [hsame]
    exact ⟨by simp, hlt, by simpa using hfull⟩
  · obtain rfl : k = 2 ^ 53 := le_antisymm hk hge
    have hshift : (keptPlace (2 ^ 53) place - place).toNat = 1 := by
      unfold keptPlace
      rw [Nat.log2_two_pow]
      omega
    rw [hshift]
    have hhalf : (ExtendedMantissa.ofMantissaAndAccuracy (2 ^ 53) .exact >>> 1).mantissa =
        2 ^ 52 := rfl
    simp only [hhalf]
    refine ⟨?_, by decide, .inl le_rfl⟩
    rw [zpow_add₀ two_ne_zero]
    norm_num
    ring

section KeptPlace

variable {m n : Nat} {e : Int} {t : ℝ}

theorem div_kept_lt (hn : keptPlace m e = e + n) (ht : t < m + 1) : t / 2 ^ n < 2 ^ 53 := by
  have hlog : t < 2 ^ (m.log2 + 1) := by
    have : ((m + 1 : Nat) : ℝ) ≤ (2 ^ (m.log2 + 1) : Nat) := by
      exact_mod_cast Nat.lt_log2_self
    push_cast at this
    linarith
  rw [div_lt_iff₀ (by positivity), ← pow_add]
  refine hlog.trans_le (pow_le_pow_right₀ one_le_two ?_)
  have := le_max_left (m.log2 + 1 + e - 53) (-1074)
  unfold keptPlace at hn
  omega

/-- Unless the least place is kept, the leading digit is 52 places above it. -/
theorem le_div_kept_or (hn : keptPlace m e = e + n) (ht : m ≤ t) :
    2 ^ 52 ≤ t / 2 ^ n ∨ e + n = -1074 := by
  rcases eq_or_ne (e + n) (-1074) with hleast | hleast
  · exact .inr hleast
  · left
    have hlog : m.log2 = n + 52 := by
      unfold keptPlace at hn
      omega
    have hm : m ≠ 0 := by
      rintro rfl
      simp at hlog
    have hleading : ((2 ^ m.log2 : Nat) : ℝ) ≤ m := by exact_mod_cast Nat.log2_self_le hm
    rw [le_div_iff₀ (by positivity), ← pow_add, Nat.add_comm, ← hlog]
    exact_mod_cast hleading.trans ht

/-- An integer next to what is kept has no more digits, and as many unless the least place is kept. -/
theorem digits_of_near {k : Nat} (hn : keptPlace m e = e + n) (ht : m ≤ t) (ht' : t < m + 1)
    (hnear : |k - t / 2 ^ n| ≤ 1 / 2) : k ≤ 2 ^ 53 ∧ (2 ^ 52 ≤ k ∨ e + n = -1074) := by
  obtain ⟨hlower, hupper⟩ := abs_le.mp hnear
  refine ⟨?_, (le_div_kept_or hn ht).imp_left fun h => ?_⟩
  · have hlt : (k : ℝ) < 2 ^ 53 + 1 := by linarith [div_kept_lt hn ht']
    exact Nat.lt_succ_iff.mp (by exact_mod_cast hlt)
  · have hlt : (2 : ℝ) ^ 52 < k + 1 := by linarith
    exact Nat.lt_succ_iff.mp (by exact_mod_cast hlt)

theorem roundsTo_roundWithAccuracy {accuracy : Accuracy} (s : Sign)
    (h : Represents (.ofMantissaAndAccuracy m accuracy) t) (he : e ≤ keptPlace m e) :
    RoundsTo ((s.apply 1 : Int) * (t * 2 ^ e))
      (ofUnpacked (roundWithAccuracy .binary64 s m e accuracy)) := by
  have hmantissa : (ExtendedMantissa.ofMantissaAndAccuracy m accuracy).mantissa = m := by
    rcases accuracy with _ | (_ | _ | _) <;> rfl
  have hm := h.floor_le
  have hm' := h.lt_floor_add_one
  rw [hmantissa] at hm hm'
  have hround := roundWithAccuracy_eq s m e accuracy
  obtain ⟨n, hn⟩ : ∃ n : Nat, keptPlace m e = e + n := Int.le.dest he |>.imp fun _ h => h.symm
  dsimp only at hround
  rw [hn, add_sub_cancel_left, Int.toNat_natCast] at hround
  have hnear := (h.shiftRight n).abs_rounded_sub_le
  generalize (ExtendedMantissa.ofMantissaAndAccuracy m accuracy >>> n).roundedMantissa = k
    at hround hnear
  obtain ⟨hk, hfull⟩ := digits_of_near hn hm hm' hnear
  have hleast : -1074 ≤ e + n := hn ▸ le_max_right _ _
  obtain ⟨hvalue, hlt, hfits⟩ := exists_fits_of_rounded hk hleast hfull
  rw [hround]
  refine roundsTo_ofParts s ?_ ((le_div_kept_or hn hm).imp_left fun h => ?_) ?_ hvalue hlt ?_ hfits
  · have ht : 0 ≤ t := m.cast_nonneg.trans hm
    positivity
  · rw [le_div_iff₀ (by positivity)] at h
    calc (2 : ℝ) ^ (e + n + 52) = 2 ^ 52 * 2 ^ n * 2 ^ e := by
          rw [show e + n + 52 = ((52 + n : Nat) : Int) + e by push_cast; ring,
            zpow_add₀ two_ne_zero, zpow_natCast, pow_add]
      _ ≤ t * 2 ^ e := by gcongr
  · have hquotient : t * 2 ^ e / 2 ^ (e + n) = t / 2 ^ n := by
      rw [zpow_add₀ two_ne_zero, zpow_natCast, mul_comm t, mul_div_mul_left _ _ (by positivity)]
    rwa [hquotient]
  · omega

end KeptPlace

theorem log2_add_le_log2_shiftLeft {m : Nat} (hm : 0 < m) (n : Nat) :
    m.log2 + n ≤ (m <<< n).log2 := by
  have hpos : m <<< n ≠ 0 := by
    rw [Nat.shiftLeft_eq]
    positivity
  rw [Nat.le_log2 hpos, Nat.shiftLeft_eq, pow_add]
  exact Nat.mul_le_mul_right _ (Nat.log2_self_le hm.ne')

/-- A mantissa is first moved down to the kept place, if it does not reach it. -/
theorem roundsTo_round {m : Nat} (hm : 0 < m) (e : Int) (s : Sign) :
    RoundsTo ((s.apply 1 : Int) * (m * 2 ^ e)) (ofUnpacked (UnpackedFloat.round .binary64 s m e)) := by
  let n := (e - keptPlace m e).toNat
  have hplace : e - n ≤ keptPlace (m <<< n) (e - n) := by
    have := log2_add_le_log2_shiftLeft hm n
    unfold n keptPlace at *
    omega
  have hrounds := roundsTo_roundWithAccuracy s (represents_exact (m <<< n)) hplace
  have hvalue : ((m <<< n : Nat) : ℝ) * 2 ^ (e - n) = m * 2 ^ e := by
    rw [Nat.shiftLeft_eq, zpow_sub₀ two_ne_zero]
    push_cast
    rw [zpow_natCast]
    field_simp
  rw [hvalue] at hrounds
  exact hrounds

theorem roundsTo_of_fits {m : Nat} {e : Int} (s : Sign) (h : Fits m e) :
    RoundsTo ((s.apply 1 : Int) * (m * 2 ^ e)) (ofUnpacked (ofParts s m e)) := by
  refine ⟨fun _ => isFinite_ofUnpacked h, fun _ y _ => ?_⟩
  rw [toReal_ofUnpacked h, sub_self, abs_zero]
  exact abs_nonneg _

theorem roundsTo_zero (s : Sign) : RoundsTo 0 (ofUnpacked (.zero s)) := by
  have hrounds := roundsTo_of_fits (m := 0) (e := -1074) s ⟨by decide, by decide, by decide, .inr rfl⟩
  have hzero : ofParts s 0 (-1074) = .zero s := rfl
  simpa [hzero] using hrounds

/-- The rounding of an integer at a place. A sum that is zero has the sign that it is given. -/
theorem roundsTo_normalize (m e : Int) (s : Sign) :
    RoundsTo (m * 2 ^ e) (ofUnpacked (UnpackedFloat.normalize .binary64 m e s)) := by
  unfold UnpackedFloat.normalize
  rcases lt_trichotomy m 0 with hneg | rfl | hpos
  · rw [compare_lt_iff_lt.mpr hneg]
    have hrounds := roundsTo_round (m := (-m).toNat) (by omega) e .negative
    have hcast : (((-m).toNat : Nat) : ℝ) = -m := by
      exact_mod_cast Int.toNat_of_nonneg (show 0 ≤ -m by omega)
    rw [hcast] at hrounds
    simpa [Sign.apply] using hrounds
  · rw [compare_eq_iff_eq.mpr rfl, Int.cast_zero, zero_mul]
    exact roundsTo_zero s
  · rw [compare_gt_iff_gt.mpr hpos]
    have hrounds := roundsTo_round (m := m.toNat) (by omega) e .positive
    have hcast : ((m.toNat : Nat) : ℝ) = m := by
      exact_mod_cast Int.toNat_of_nonneg hpos.le
    rw [hcast] at hrounds
    simpa [Sign.apply] using hrounds

/-! ## Sums and differences -/

section Parts

variable {s s' : Sign} {m m' : Nat} {e e' : Int}

theorem ofParts_of_pos (s : Sign) (e : Int) (hm : 0 < m) : ofParts s m e = .finite s m e hm :=
  dif_pos hm

theorem apply_decreaseExponent (s : Sign) (m : Nat) {e least : Int} (h : least ≤ e) :
    ((s.apply (decreaseExponent m e least).1 : Int) : ℝ) * 2 ^ least =
      (s.apply 1 : Int) * (m * 2 ^ e) := by
  have hshift : ((m <<< (e - least).toNat : Nat) : ℝ) * 2 ^ least = m * 2 ^ e := by
    rw [Nat.shiftLeft_eq]
    push_cast
    rw [mul_assoc, ← zpow_natCast, ← zpow_add₀ two_ne_zero, Int.toNat_of_nonneg (by omega),
      sub_add_cancel]
  change ((s.apply (m <<< (e - least).toNat : Nat) : Int) : ℝ) * 2 ^ least = _
  rw [← hshift]
  generalize m <<< (e - least).toNat = k
  cases s <;> simp [Sign.apply]

theorem roundsTo_add_ofParts (h : Fits m e) (h' : Fits m' e') :
    RoundsTo ((s.apply 1 : Int) * (m * 2 ^ e) + (s'.apply 1 : Int) * (m' * 2 ^ e'))
      (ofUnpacked (UnpackedFloat.add .binary64 (ofParts s m e) (ofParts s' m' e'))) := by
  rcases Nat.eq_zero_or_pos m with rfl | hm <;> rcases Nat.eq_zero_or_pos m' with rfl | hm'
  · obtain ⟨t, ht⟩ : ∃ t, UnpackedFloat.add .binary64 (.zero s) (.zero s') = .zero t := by
      cases s <;> cases s' <;> exact ⟨_, rfl⟩
    change RoundsTo _ (ofUnpacked (UnpackedFloat.add .binary64 (.zero s) (.zero s')))
    rw [ht]
    simpa using roundsTo_zero t
  · have hsum : UnpackedFloat.add .binary64 (ofParts s 0 e) (ofParts s' m' e') =
        ofParts s' m' e' := by
      rw [ofParts_of_pos s' e' hm']
      rfl
    simpa [hsum] using roundsTo_of_fits s' h'
  · have hsum : UnpackedFloat.add .binary64 (ofParts s m e) (ofParts s' 0 e') =
        ofParts s m e := by
      rw [ofParts_of_pos s e hm]
      rfl
    simpa [hsum] using roundsTo_of_fits s h
  · rw [ofParts_of_pos s e hm, ofParts_of_pos s' e' hm',
      ← apply_decreaseExponent s m (min_le_left e e'),
      ← apply_decreaseExponent s' m' (min_le_right e e'), ← add_mul, ← Int.cast_add]
    exact roundsTo_normalize _ _ .positive

theorem sub_ofParts : UnpackedFloat.sub .binary64 (ofParts s m e) (ofParts s' m' e') =
    UnpackedFloat.add .binary64 (ofParts s m e) (ofParts (-s') m' e') := by
  have hneg (k : Int) (x : Int) : x - s'.apply k = x + (-s').apply k := by
    cases s'
    · exact Int.sub_neg x k
    · exact Int.sub_eq_add_neg
  rcases Nat.eq_zero_or_pos m with rfl | hm <;> rcases Nat.eq_zero_or_pos m' with rfl | hm'
  · rfl
  · rw [ofParts_of_pos s' e' hm', ofParts_of_pos (-s') e' hm']
    rfl
  · rw [ofParts_of_pos s e hm]
    rfl
  · rw [ofParts_of_pos s e hm, ofParts_of_pos s' e' hm', ofParts_of_pos (-s') e' hm']
    exact congrArg (UnpackedFloat.normalize .binary64 · (min e e') .positive) (hneg _ _)

/-! ## Products, quotients and roots -/

theorem apply_one_mul (s s' : Sign) :
    (((s * s').apply 1 : Int) : ℝ) = (s.apply 1 : Int) * (s'.apply 1 : Int) := by
  cases s <;> cases s' <;> norm_cast

theorem apply_one_div (s s' : Sign) :
    (((s / s').apply 1 : Int) : ℝ) = (s.apply 1 : Int) / (s'.apply 1 : Int) := by
  have hmul : s / s' = s * s' := by cases s <;> cases s' <;> rfl
  rw [hmul, apply_one_mul]
  cases s <;> cases s' <;> norm_num [Sign.apply]

theorem le_keptPlace_mul (hm : 0 < m) (hm' : 0 < m') (h : Fits m e) (h' : Fits m' e') :
    e + e' ≤ keptPlace (m * m') (e + e') := by
  have hlog : 2 ^ 52 ≤ m ∨ 2 ^ 52 ≤ m' → 52 ≤ (m * m').log2 := by
    intro hfull
    rw [Nat.le_log2 (Nat.mul_pos hm hm').ne']
    rcases hfull with hfull | hfull
    · exact hfull.trans (Nat.le_mul_of_pos_right m hm')
    · exact hfull.trans (Nat.le_mul_of_pos_left m' hm)
  obtain ⟨-, hleast, -, hfull⟩ := h
  obtain ⟨-, hleast', -, hfull'⟩ := h'
  unfold keptPlace
  rcases hfull with hfull | rfl
  · have := hlog (.inl hfull)
    omega
  · rcases hfull' with hfull' | rfl
    · have := hlog (.inr hfull')
      omega
    · omega

theorem roundsTo_mul_ofParts (h : Fits m e) (h' : Fits m' e') :
    RoundsTo ((s.apply 1 : Int) * (m * 2 ^ e) * ((s'.apply 1 : Int) * (m' * 2 ^ e')))
      (ofUnpacked (UnpackedFloat.mul .binary64 (ofParts s m e) (ofParts s' m' e'))) := by
  rcases Nat.eq_zero_or_pos m with rfl | hm
  · have hproduct : UnpackedFloat.mul .binary64 (ofParts s 0 e) (ofParts s' m' e') =
        .zero (s * s') := by
      rcases Nat.eq_zero_or_pos m' with rfl | hm'
      · rfl
      · rw [ofParts_of_pos s' e' hm']
        rfl
    simpa [hproduct] using roundsTo_zero (s * s')
  rcases Nat.eq_zero_or_pos m' with rfl | hm'
  · have hproduct : UnpackedFloat.mul .binary64 (ofParts s m e) (ofParts s' 0 e') =
        .zero (s * s') := by
      rw [ofParts_of_pos s e hm]
      rfl
    simpa [hproduct] using roundsTo_zero (s * s')
  have hrounds := roundsTo_roundWithAccuracy (s * s') (represents_exact (m * m'))
    (le_keptPlace_mul hm hm' h h')
  have hvalue : (((s * s').apply 1 : Int) : ℝ) * ((m * m' : Nat) * 2 ^ (e + e')) =
      (s.apply 1 : Int) * (m * 2 ^ e) * ((s'.apply 1 : Int) * (m' * 2 ^ e')) := by
    rw [apply_one_mul, zpow_add₀ two_ne_zero]
    push_cast
    ring
  rw [hvalue] at hrounds
  rw [ofParts_of_pos s e hm, ofParts_of_pos s' e' hm']
  exact hrounds

/-- The remainder of a division tells where the quotient lies above its integer part. -/
theorem represents_accuracyOfFraction (n : Nat) {d : Nat} (hd : 0 < d) :
    Represents (.ofMantissaAndAccuracy (n / d) (accuracyOfFraction (n % d) d)) (n / d : ℝ) := by
  have hd' : (0 : ℝ) < d := by exact_mod_cast hd
  have hquotient : (n : ℝ) / d = (n / d : Nat) + (n % d : Nat) / d := by
    field_simp
    exact_mod_cast (Nat.div_add_mod n d).symm
  have hlt : ((n % d : Nat) : ℝ) < d := by exact_mod_cast Nat.mod_lt n hd
  rw [hquotient]
  generalize n / d = q
  generalize n % d = r at hlt
  rcases Nat.eq_zero_or_pos r with rfl | hr
  · have haccuracy : accuracyOfFraction 0 d = .exact := rfl
    rw [haccuracy, Nat.cast_zero, zero_div, add_zero]
    exact represents_exact q
  · have haccuracy : accuracyOfFraction r d = .inexact (compare (2 * r) d) := if_neg hr.ne'
    have hpos : (0 : ℝ) < r / d := by positivity
    have hone : (r : ℝ) / d < 1 := (div_lt_one hd').mpr hlt
    rw [haccuracy]
    rcases lt_trichotomy (2 * r) d with hhalf | hhalf | hhalf
    · rw [compare_lt_iff_lt.mpr hhalf]
      have : (r : ℝ) / d < 1 / 2 := by
        rw [div_lt_div_iff₀ hd' two_pos]
        exact_mod_cast (by omega : r * 2 < 1 * d)
      exact represents_below_half (by linarith) (by linarith)
    · rw [compare_eq_iff_eq.mpr hhalf]
      have : (r : ℝ) / d = 1 / 2 := by
        rw [div_eq_div_iff hd'.ne' two_ne_zero]
        exact_mod_cast (by omega : r * 2 = 1 * d)
      exact represents_half (by linarith)
    · rw [compare_gt_iff_gt.mpr hhalf]
      have : 1 / 2 < (r : ℝ) / d := by
        rw [div_lt_div_iff₀ two_pos hd']
        exact_mod_cast (by omega : 1 * d < r * 2)
      exact represents_above_half (by linarith) (by linarith)

/-- The place to which a quotient is calculated. -/
def quotientPlace (m : Nat) (e : Int) (m' : Nat) (e' : Int) : Int :=
  min (e - e') (max (m.log2 + 1 + e - (m'.log2 + 1 + e') - 53) (-1074))

theorem le_keptPlace_div (hm : 0 < m) (hm' : 0 < m') :
    let n := (e - e' - quotientPlace m e m' e').toNat
    quotientPlace m e m' e' ≤ keptPlace (m <<< n / m') (quotientPlace m e m' e') := by
  intro n
  rcases le_or_gt (quotientPlace m e m' e') (-1074) with hleast | hleast
  · exact hleast.trans (le_max_right _ _)
  · -- the dividend is shifted so far that the quotient has all its digits
    have hn : 53 + m'.log2 ≤ m.log2 + n := by
      unfold n quotientPlace at *
      omega
    have hdigits : 2 ^ 52 ≤ m <<< n / m' := by
      rw [Nat.le_div_iff_mul_le hm', Nat.shiftLeft_eq]
      calc 2 ^ 52 * m' ≤ 2 ^ 52 * 2 ^ (m'.log2 + 1) := by
            gcongr
            exact Nat.lt_log2_self.le
        _ = 2 ^ (53 + m'.log2) := by
            rw [← pow_add]
            congr 1
            omega
        _ ≤ 2 ^ (m.log2 + n) := Nat.pow_le_pow_right two_pos hn
        _ = 2 ^ m.log2 * 2 ^ n := pow_add _ _ _
        _ ≤ m * 2 ^ n := Nat.mul_le_mul_right _ (Nat.log2_self_le hm.ne')
    have hlog := (Nat.le_log2 (by omega)).mpr hdigits
    have := le_max_left ((m <<< n / m').log2 + 1 + quotientPlace m e m' e' - 53) (-1074)
    unfold keptPlace
    omega

theorem roundsTo_div_ofParts (hm' : 0 < m') :
    RoundsTo ((s.apply 1 : Int) * (m * 2 ^ e) / ((s'.apply 1 : Int) * (m' * 2 ^ e')))
      (ofUnpacked (UnpackedFloat.div .binary64 (ofParts s m e) (ofParts s' m' e'))) := by
  rcases Nat.eq_zero_or_pos m with rfl | hm
  · have hquotient : UnpackedFloat.div .binary64 (ofParts s 0 e) (ofParts s' m' e') =
        .zero (s / s') := by
      rw [ofParts_of_pos s' e' hm']
      rfl
    simpa [hquotient] using roundsTo_zero (s / s')
  have hplace := @le_keptPlace_div m m' e e' hm hm'
  dsimp only at hplace
  have hle : quotientPlace m e m' e' ≤ e - e' := min_le_left _ _
  obtain ⟨n, hn⟩ : ∃ n : Nat, e - e' = quotientPlace m e m' e' + n :=
    Int.le.dest hle |>.imp fun _ h => h.symm
  have hrounds := roundsTo_roundWithAccuracy (s / s') (represents_accuracyOfFraction _ hm') hplace
  have hvalue : (((s / s').apply 1 : Int) : ℝ) *
      (((m <<< (e - e' - quotientPlace m e m' e').toNat : Nat) : ℝ) / m' *
        2 ^ quotientPlace m e m' e') =
      (s.apply 1 : Int) * (m * 2 ^ e) / ((s'.apply 1 : Int) * (m' * 2 ^ e')) := by
    have hpower : (2 : ℝ) ^ n * 2 ^ quotientPlace m e m' e' = 2 ^ e / 2 ^ e' := by
      rw [← zpow_natCast, ← zpow_add₀ two_ne_zero, add_comm, ← hn, zpow_sub₀ two_ne_zero]
    rw [hn, add_sub_cancel_left, Int.toNat_natCast, Nat.shiftLeft_eq, apply_one_div]
    push_cast
    rw [mul_div_mul_comm, mul_div_mul_comm, ← hpower]
    ring
  rw [hvalue] at hrounds
  rw [ofParts_of_pos s e hm, ofParts_of_pos s' e' hm']
  exact hrounds

/-- The remainder of a square root tells where the root lies above its integer part. -/
theorem represents_sqrt (m : Nat) : Represents (.ofMantissaAndAccuracy m.sqrt
    (if m - m.sqrt * m.sqrt = 0 then .exact
      else .inexact (if m - m.sqrt * m.sqrt ≤ m.sqrt then .lt else .gt))) (√(m : ℝ)) := by
  have hlower := m.sqrt_le
  have hupper := m.lt_succ_sqrt
  generalize m.sqrt = k at hlower hupper
  obtain ⟨r, rfl⟩ := Nat.exists_eq_add_of_le hlower
  rw [Nat.add_sub_cancel_left]
  have hroot (a : ℝ) (ha : 0 ≤ a) : √(a * a) = a := Real.sqrt_mul_self ha
  have hk : (0 : ℝ) ≤ k := k.cast_nonneg
  rcases Nat.eq_zero_or_pos r with rfl | hr
  · rw [if_pos rfl, Nat.add_zero, Nat.cast_mul, hroot k hk]
    exact represents_exact k
  · have hr' : (0 : ℝ) < r := by exact_mod_cast hr
    rw [if_neg hr.ne']
    push_cast
    by_cases hhalf : r ≤ k
    · have hhalf' : (r : ℝ) ≤ k := by exact_mod_cast hhalf
      rw [if_pos hhalf]
      apply represents_below_half
      · rw [Real.lt_sqrt hk]
        nlinarith
      · rw [Real.sqrt_lt' (by positivity)]
        nlinarith
    · have hhalf' : (k : ℝ) + 1 ≤ r := by exact_mod_cast not_le.mp hhalf
      have hupper' : (k * k + r : ℝ) < (k + 1) * (k + 1) := by exact_mod_cast hupper
      rw [if_neg hhalf]
      apply represents_above_half
      · rw [Real.lt_sqrt (by positivity)]
        nlinarith
      · rw [Real.sqrt_lt' (by positivity)]
        nlinarith

/-- The place to which a square root is calculated. -/
def rootPlace (m : Nat) (e : Int) : Int :=
  min (e / 2) (max ((m.log2 + 1 + e + 1) / 2 - 53) (-1074))

theorem le_keptPlace_sqrt (hm : 0 < m) :
    let n := (e - 2 * rootPlace m e).toNat
    rootPlace m e ≤ keptPlace (m <<< n).sqrt (rootPlace m e) := by
  intro n
  rcases le_or_gt (rootPlace m e) (-1074) with hleast | hleast
  · exact hleast.trans (le_max_right _ _)
  · -- the radicand is shifted so far that the root has all its digits
    have hn : 104 ≤ m.log2 + n := by
      unfold n rootPlace at *
      omega
    have hdigits : 2 ^ 52 ≤ (m <<< n).sqrt := by
      rw [Nat.le_sqrt, Nat.shiftLeft_eq]
      calc 2 ^ 52 * 2 ^ 52 = 2 ^ 104 := rfl
        _ ≤ 2 ^ (m.log2 + n) := Nat.pow_le_pow_right two_pos hn
        _ = 2 ^ m.log2 * 2 ^ n := pow_add _ _ _
        _ ≤ m * 2 ^ n := Nat.mul_le_mul_right _ (Nat.log2_self_le hm.ne')
    have hlog := (Nat.le_log2 (by omega)).mpr hdigits
    have := le_max_left ((m <<< n).sqrt.log2 + 1 + rootPlace m e - 53) (-1074)
    unfold keptPlace
    omega

theorem roundsTo_sqrt_ofParts (hm : 0 < m) :
    RoundsTo (√(m * 2 ^ e)) (ofUnpacked (UnpackedFloat.sqrt .binary64 (.finite .positive m e hm))) := by
  have hplace := le_keptPlace_sqrt (e := e) hm
  dsimp only at hplace
  have hle : 2 * rootPlace m e ≤ e := by
    unfold rootPlace
    omega
  obtain ⟨n, hn⟩ : ∃ n : Nat, e = 2 * rootPlace m e + n :=
    Int.le.dest hle |>.imp fun _ h => h.symm
  have hrounds := roundsTo_roundWithAccuracy .positive (represents_sqrt _) hplace
  have hvalue : (((Sign.positive).apply 1 : Int) : ℝ) *
      (√((m <<< (e - 2 * rootPlace m e).toNat : Nat) : ℝ) * 2 ^ rootPlace m e) =
      √(m * 2 ^ e) := by
    have hshift : (e - 2 * rootPlace m e).toNat = n := by omega
    have hpower : (m : ℝ) * 2 ^ e = (m * 2 ^ n) * (2 ^ rootPlace m e) ^ 2 := by
      conv_lhs => rw [hn]
      rw [zpow_add₀ two_ne_zero, zpow_natCast, two_mul, zpow_add₀ two_ne_zero]
      ring
    rw [hshift, hpower, Real.sqrt_mul (by positivity), Real.sqrt_sq (by positivity),
      Nat.shiftLeft_eq]
    push_cast
    simp [Sign.apply]
  rw [hvalue] at hrounds
  exact hrounds

end Parts

variable {x y : Binary64}

theorem toReal_eq (hx : x.isFinite = true) :
    x.toReal = (x.sign.apply 1 : Int) * (x.significand * 2 ^ x.exponent) := by
  rw [toReal, toRat_eq_exactValue hx, unpacked_eq_ofParts hx, exactValue_ofParts]
  cases x.sign <;> simp [Sign.apply]

theorem roundsTo_add (hx : x.isFinite = true) (hy : y.isFinite = true) :
    RoundsTo (x.toReal + y.toReal) (x + y) := by
  change RoundsTo _ (ofUnpacked (UnpackedFloat.add .binary64 x.unpacked y.unpacked))
  rw [toReal_eq hx, toReal_eq hy, unpacked_eq_ofParts hx, unpacked_eq_ofParts hy]
  exact roundsTo_add_ofParts (fits hx) (fits hy)

theorem roundsTo_sub (hx : x.isFinite = true) (hy : y.isFinite = true) :
    RoundsTo (x.toReal - y.toReal) (x - y) := by
  change RoundsTo _ (ofUnpacked (UnpackedFloat.sub .binary64 x.unpacked y.unpacked))
  rw [toReal_eq hx, toReal_eq hy, unpacked_eq_ofParts hx, unpacked_eq_ofParts hy, sub_ofParts]
  have hadd := @roundsTo_add_ofParts x.sign (-y.sign) _ _ _ _ (fits hx) (fits hy)
  have hneg : (((-y.sign).apply 1 : Int) : ℝ) = -(y.sign.apply 1 : Int) := by
    cases y.sign <;> simp [Sign.apply]
  rwa [hneg, neg_mul, ← sub_eq_add_neg] at hadd

theorem roundsTo_mul (hx : x.isFinite = true) (hy : y.isFinite = true) :
    RoundsTo (x.toReal * y.toReal) (x * y) := by
  change RoundsTo _ (ofUnpacked (UnpackedFloat.mul .binary64 x.unpacked y.unpacked))
  rw [toReal_eq hx, toReal_eq hy, unpacked_eq_ofParts hx, unpacked_eq_ofParts hy]
  exact roundsTo_mul_ofParts (fits hx) (fits hy)

theorem toReal_nonzero_iff (hx : x.isFinite = true) : x.toReal ≠ 0 ↔ 0 < x.significand := by
  rw [toReal_eq hx]
  have hpower : (2 : ℝ) ^ x.exponent ≠ 0 := by positivity
  cases x.sign <;> simp [Sign.apply, hpower, Nat.pos_iff_ne_zero]

theorem roundsTo_div (hx : x.isFinite = true) (hy : y.isFinite = true) (hne : y.toReal ≠ 0) :
    RoundsTo (x.toReal / y.toReal) (x / y) := by
  have hpos := (toReal_nonzero_iff hy).mp hne
  change RoundsTo _ (ofUnpacked (UnpackedFloat.div .binary64 x.unpacked y.unpacked))
  rw [toReal_eq hx, toReal_eq hy, unpacked_eq_ofParts hx, unpacked_eq_ofParts hy]
  exact roundsTo_div_ofParts hpos

theorem roundsTo_sqrt (hx : x.isFinite = true) (hnonneg : 0 ≤ x.toReal) :
    RoundsTo (√x.toReal) x.sqrt := by
  change RoundsTo _ (ofUnpacked (UnpackedFloat.sqrt .binary64 x.unpacked))
  rw [unpacked_eq_ofParts hx]
  rw [toReal_eq hx] at hnonneg ⊢
  generalize x.sign = s at hnonneg
  rcases Nat.eq_zero_or_pos x.significand with hzero | hpos
  · have hroot : UnpackedFloat.sqrt .binary64 (ofParts s 0 x.exponent) = .zero s := rfl
    rw [hzero, hroot]
    simpa using roundsTo_zero s
  · rw [ofParts_of_pos _ _ hpos]
    cases s with
    | positive => simpa [Sign.apply] using roundsTo_sqrt_ofParts hpos
    | negative =>
      have : (0 : ℝ) < x.significand * 2 ^ x.exponent := by positivity
      simp [Sign.apply] at hnonneg
      linarith

/-! ## Finite results -/

theorem isFinite_of_add (h : (x + y).isFinite = true) :
    x.isFinite = true ∧ y.isFinite = true := by
  simp only [isFinite_iff_not_isSpecial, unpacked_add] at h ⊢
  exact ⟨fun hx => h hx.add_right.stored, fun hy => h hy.add_left.stored⟩

theorem isFinite_of_sub (h : (x - y).isFinite = true) :
    x.isFinite = true ∧ y.isFinite = true := by
  simp only [isFinite_iff_not_isSpecial, unpacked_sub] at h ⊢
  exact ⟨fun hx => h hx.sub_right.stored, fun hy => h hy.sub_left.stored⟩

theorem isFinite_of_mul (h : (x * y).isFinite = true) :
    x.isFinite = true ∧ y.isFinite = true := by
  simp only [isFinite_iff_not_isSpecial, unpacked_mul] at h ⊢
  exact ⟨fun hx => h hx.mul_right.stored, fun hy => h hy.mul_left.stored⟩

theorem isFinite_of_sqrt (h : x.sqrt.isFinite = true) : x.isFinite = true := by
  simp only [isFinite_iff_not_isSpecial, unpacked_sqrt] at h ⊢
  exact fun hx => h hx.sqrt.stored

theorem toReal_of_unpacked_zero {s : Sign} (h : x.unpacked = .zero s) : x.toReal = 0 := by
  have hx : x.isFinite = true := by
    rw [isFinite_iff_not_isSpecial, h]
    exact id
  rw [toReal, toRat_eq_exactValue hx, h]
  exact Rat.cast_zero

/-- A finite quotient has a finite divisor that is not zero, or is zero itself. -/
theorem isFinite_of_div (h : (x / y).isFinite = true) :
    x.isFinite = true ∧ (y.isFinite = true ∧ y.toReal ≠ 0 ∨ (x / y).toReal = 0) := by
  have hquotient := h
  rw [isFinite_iff_not_isSpecial, unpacked_div] at hquotient
  refine ⟨?_, ?_⟩
  · rw [isFinite_iff_not_isSpecial]
    exact fun hx => hquotient hx.div.stored
  · by_cases hy : y.isFinite = true
    · refine .inl ⟨hy, (toReal_nonzero_iff hy).mpr (Nat.pos_of_ne_zero fun hzero => hquotient ?_)⟩
      rw [unpacked_eq_ofParts hy, hzero]
      exact (IsSpecial.div_zero x.unpacked y.sign).stored
    · right
      rcases (isSpecial_of_not_isFinite hy).div_eq_zero (u := x.unpacked) with hspecial | ⟨s, hs⟩
      · exact absurd hspecial.stored hquotient
      · exact toReal_of_unpacked_zero (by rw [unpacked_div, hs, stored_zero])

/-! ## Natural numbers -/

/-- A number of at most 53 digits is multiplied by one after the conversion. -/
theorem natCast_eq_mul {n : Nat} (hn : n < 2 ^ 53) : (n : Binary64) =
    ofUnpacked (UnpackedFloat.normalize .binary64 n 0 .positive) * ⟨0x3FF0000000000000⟩ := by
  have hcast : Float.ofScientific n false 0 = n.toUInt64.toFloat * Float.ofBits 0x3FF0000000000000 :=
    dif_pos ⟨hn, by decide⟩
  have hword : n.toUInt64.toNat = n := Nat.mod_eq_of_lt (by omega)
  change ofFloat (Float.ofScientific n false 0) = ofUnpacked (UnpackedFloat.mul .binary64
    (unpacked (ofUnpacked _)) (unpacked ⟨0x3FF0000000000000⟩))
  rw [hcast, unpacked_ofUnpacked]
  conv_rhs => rw [← hword]
  rfl

/-- A longer one is multiplied by one before it is rounded. -/
theorem natCast_eq_round {n : Nat} (hn : 2 ^ 53 ≤ n) : (n : Binary64) =
    ofUnpacked (roundWithAccuracy .binary64 .positive (n <<< 53) (-53) .exact) := by
  have hcast : Float.ofScientific n false 0 = ⟨Float.Model.ofScientific n (Int.ofNat 0)⟩ :=
    dif_neg (by omega)
  have hpos : 0 < n <<< 53 := by
    rw [Nat.shiftLeft_eq]
    positivity
  have hproduct : UnpackedFloat.ofScientific .binary64 n 0 = UnpackedFloat.mul .binary64
      (.finite .positive (n <<< 53) (-53) hpos) (.finite .positive 1 0 one_pos) := by
    unfold UnpackedFloat.ofScientific
    rw [dif_neg (by omega), if_neg (by decide), if_neg (by simp), if_pos le_rfl]
    rfl
  change ofFloat (Float.ofScientific n false 0) = _
  rw [hcast]
  change ofUnpacked (UnpackedFloat.ofScientific .binary64 n 0) = _
  rw [hproduct]
  change ofUnpacked (roundWithAccuracy .binary64 .positive (n <<< 53 * 1) (-53) .exact) = _
  rw [Nat.mul_one]

theorem roundsTo_natCast (n : Nat) : RoundsTo n (n : Binary64) := by
  rcases Nat.lt_or_ge n (2 ^ 53) with hn | hn
  · have hone : (⟨0x3FF0000000000000⟩ : Binary64).toReal = 1 := by
      rw [toReal, show (⟨0x3FF0000000000000⟩ : Binary64).toRat = 1 by decide +kernel, Rat.cast_one]
    have hconverted := roundsTo_normalize n 0 .positive
    rw [Int.cast_natCast, zpow_zero, mul_one] at hconverted
    have hfinite := hconverted.isFinite (by
      rw [Nat.abs_cast]
      calc (n : ℝ) ≤ 2 ^ 53 := by exact_mod_cast hn.le
        _ ≤ 2 ^ 1023 := pow_le_pow_right₀ one_le_two (by decide))
    have hexact := hconverted.eq hfinite (isRepresentable_natCast hn.le)
    have hproduct := roundsTo_mul hfinite (y := ⟨0x3FF0000000000000⟩) (by decide +kernel)
    rwa [hexact, hone, mul_one, ← natCast_eq_mul hn] at hproduct
  · have hplace : (-53 : Int) ≤ keptPlace (n <<< 53) (-53) := by
      have := log2_add_le_log2_shiftLeft (m := n) (by omega) 53
      unfold keptPlace
      omega
    have hrounds := roundsTo_roundWithAccuracy .positive (represents_exact (n <<< 53)) hplace
    rw [← natCast_eq_round hn] at hrounds
    have hvalue : (((Sign.positive).apply 1 : Int) : ℝ) * ((n <<< 53 : Nat) * 2 ^ (-53 : Int)) = n := by
      rw [Nat.shiftLeft_eq]
      push_cast
      norm_num [Sign.apply]
      ring
    rwa [hvalue] at hrounds

/-! ## Exact integers -/

/-- The value is exactly an integer. -/
structure Holds (x : Binary64) (k : Int) : Prop where
  isFinite : x.isFinite = true
  toReal : x.toReal = k

variable {j k : Int}

theorem holds_of_roundsTo {r : ℝ} (h : RoundsTo r x) (hr : r = k) (hk : |k| ≤ 2 ^ 53) :
    x.Holds k := by
  subst hr
  have hsmall : |(k : ℝ)| ≤ 2 ^ 1023 := by
    calc |(k : ℝ)| ≤ 2 ^ 53 := by exact_mod_cast hk
      _ ≤ 2 ^ 1023 := pow_le_pow_right₀ one_le_two (by decide)
  exact ⟨h.isFinite hsmall, h.eq (h.isFinite hsmall) (isRepresentable_intCast hk)⟩

theorem holds_natCast {n : Nat} (hn : n ≤ 2 ^ 53) : (n : Binary64).Holds n := by
  apply holds_of_roundsTo (roundsTo_natCast n) (by push_cast; rfl)
  rw [Nat.abs_cast]
  exact_mod_cast hn

theorem holds_zero : (0 : Binary64).Holds 0 := holds_natCast (n := 0) (by decide)

theorem holds_one : (1 : Binary64).Holds 1 := holds_natCast (n := 1) (by decide)

theorem Holds.add (hx : x.Holds j) (hy : y.Holds k) (h : |j + k| ≤ 2 ^ 53) :
    (x + y).Holds (j + k) := by
  apply holds_of_roundsTo (roundsTo_add hx.isFinite hy.isFinite) _ h
  rw [hx.toReal, hy.toReal, Int.cast_add]

theorem Holds.sub (hx : x.Holds j) (hy : y.Holds k) (h : |j - k| ≤ 2 ^ 53) :
    (x - y).Holds (j - k) := by
  apply holds_of_roundsTo (roundsTo_sub hx.isFinite hy.isFinite) _ h
  rw [hx.toReal, hy.toReal, Int.cast_sub]

theorem Holds.mul (hx : x.Holds j) (hy : y.Holds k) (h : |j * k| ≤ 2 ^ 53) :
    (x * y).Holds (j * k) := by
  apply holds_of_roundsTo (roundsTo_mul hx.isFinite hy.isFinite) _ h
  rw [hx.toReal, hy.toReal, Int.cast_mul]

end FormulaSearch.Binary64
