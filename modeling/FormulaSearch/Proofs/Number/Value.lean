import FormulaSearch.Proofs.Number.Arithmetic
import FormulaSearch.Proofs.Number.Rounding

/-!
# Exact values of unpacked floats

The exact value of a finite pattern is that of the float which it unpacks to. A mantissa and an
exponent that fit the format survive packing, so the value of a result that fits is kept exactly.
-/

open Float.Model (Format UnpackedFloat)
open Float.Model.UnpackedFloat

namespace FormulaSearch.Binary64

/-- The exact value of an unpacked float, zero for an infinity and NaN. -/
def exactValue : UnpackedFloat → Rat
  | .finite s m e _ => (s.apply m : Int) * 2 ^ e
  | _ => 0

def ofUnpacked (u : UnpackedFloat) : Binary64 := ⟨.ofBitVec (pack .binary64 u)⟩

@[simp] theorem unpacked_ofUnpacked (u : UnpackedFloat) : (ofUnpacked u).unpacked = stored u :=
  stored_stored u

def ofParts (s : Sign) (m : Nat) (e : Int) : UnpackedFloat :=
  if h : 0 < m then .finite s m e h else .zero s

@[simp] theorem exactValue_ofParts (s : Sign) (m : Nat) (e : Int) :
    exactValue (ofParts s m e) = (s.apply m : Int) * 2 ^ e := by
  unfold ofParts
  split
  · rfl
  · next h =>
    obtain rfl : m = 0 := by omega
    cases s <;> simp [exactValue, Sign.apply]

/-! ## The fields of a pattern -/

section Fields

variable {b : BitVec Format.binary64.numBits}

/-- What the fields of a pattern stand for, unless the exponent is the greatest one. -/
theorem unpack_eq_ofParts (hexponent : unpackExponent b ≠ -1#_) :
    unpack .binary64 b = ofParts (Sign.ofBitVec (unpackSign b))
      (if (unpackExponent b).toNat = 0 then (unpackMantissa b).toNat
        else 2 ^ 52 + (unpackMantissa b).toNat)
      (if (unpackExponent b).toNat = 0 then -1074 else (unpackExponent b).toNat - 1075) := by
  have hbias : (Format.binary64.exponentBias : Int) +
      (Format.binary64.mantissaBitsWithoutImplicit : Int) = 1075 := rfl
  have hleading : (1#1 ++ unpackMantissa b).toNat = 2 ^ 52 + (unpackMantissa b).toNat := by
    have hor := Nat.two_pow_add_eq_or_of_lt (unpackMantissa b).isLt 1
    rw [Nat.mul_one] at hor
    exact (BitVec.toNat_append _ _).trans hor.symm
  have hzero : unpackExponent b = 0#_ ↔ (unpackExponent b).toNat = 0 := by
    rw [← BitVec.toNat_inj]
    rfl
  have hzero' : unpackMantissa b = 0#_ ↔ (unpackMantissa b).toNat = 0 := by
    rw [← BitVec.toNat_inj]
    rfl
  unfold unpack ofParts
  dsimp only
  rw [if_neg hexponent, hbias]
  by_cases hsubnormal : (unpackExponent b).toNat = 0
  · rw [if_pos (hzero.mpr hsubnormal), if_pos hsubnormal, if_pos hsubnormal]
    by_cases hmantissa : (unpackMantissa b).toNat = 0
    · rw [dif_pos (hzero'.mpr hmantissa), dif_neg (by omega)]
    · rw [dif_neg (mt hzero'.mp hmantissa), dif_pos (by omega)]
      congr 1
      omega
  · rw [if_neg (mt hzero.mp hsubnormal), if_neg hsubnormal, if_neg hsubnormal,
      dif_pos (by omega)]
    congr 1

end Fields

/-- A mantissa and an exponent as a pattern holds them: the mantissa is full, unless the exponent is
the least one. -/
structure Fits (m : Nat) (e : Int) : Prop where
  lt : m < 2 ^ 53
  least_le : -1074 ≤ e
  le : e ≤ 971
  full : 2 ^ 52 ≤ m ∨ e = -1074

theorem pack_of_fits {s : Sign} {m : Nat} {e : Int} (h : Fits m e) :
    pack .binary64 (ofParts s m e) = packComponents .binary64 s
      (.ofNat 11 (if 2 ^ 52 ≤ m then (e + 1075).toNat else 0)) (.ofNat 52 m) := by
  obtain ⟨hlt, hleast, hle, -⟩ := h
  have hbiased : e + (Format.binary64.exponentBias : Int) +
      Format.binary64.mantissaBitsWithoutImplicit = e + 1075 := by
    simp [Format.exponentBias]
    omega
  unfold ofParts
  split
  · next hm =>
    have hfull : m.log2 + 1 = Format.binary64.mantissaBits ↔ 2 ^ 52 ≤ m := by
      rw [← Nat.le_log2 hm.ne']
      have := (Nat.log2_lt hm.ne').mpr hlt
      change m.log2 + 1 = 53 ↔ _
      omega
    unfold pack
    dsimp only
    rw [hbiased, if_neg (by simp; omega)]
    by_cases hnormal : 2 ^ 52 ≤ m
    · rw [if_pos (hfull.mpr hnormal), if_pos hnormal]
    · rw [if_neg (mt hfull.mp hnormal), if_neg hnormal]
  · obtain rfl : m = 0 := by omega
    rfl

theorem stored_ofParts {s : Sign} {m : Nat} {e : Int} (h : Fits m e) :
    stored (ofParts s m e) = ofParts s m e := by
  have hpack := pack_of_fits (s := s) h
  obtain ⟨hlt, hleast, hle, hfull⟩ := h
  have hbiased : (BitVec.ofNat 11 (if 2 ^ 52 ≤ m then (e + 1075).toNat else 0)).toNat =
      if 2 ^ 52 ≤ m then (e + 1075).toNat else 0 := by
    apply Nat.mod_eq_of_lt
    split <;> omega
  have hexponent : unpackExponent (pack .binary64 (ofParts s m e)) ≠ -1#_ := by
    rw [hpack, unpackExponent_packComponents, Ne, ← BitVec.toNat_inj]
    change ¬ (BitVec.ofNat 11 _).toNat = 2047
    rw [hbiased]
    split <;> omega
  have hmantissa : (BitVec.ofNat 52 m).toNat = m % 2 ^ 52 := rfl
  unfold stored
  rw [unpack_eq_ofParts hexponent, hpack, unpackExponent_packComponents,
    unpackMantissa_packComponents, unpackSign_packComponents, Sign.ofBitVec_toBitVec]
  simp only [hbiased, hmantissa]
  congr 1 <;> split_ifs <;> omega

/-! ## Finite patterns -/

def sign (x : Binary64) : Sign := if x.isNegative then .negative else .positive

theorem toNat_unpackMantissa (x : Binary64) :
    (@unpackMantissa .binary64 x.bits.toBitVec).toNat = x.fractionField := by
  rw [fractionField_eq, toNat_magnitude]
  simp [unpackMantissa]

theorem ofBitVec_unpackSign (x : Binary64) :
    Sign.ofBitVec (@unpackSign .binary64 x.bits.toBitVec) = x.sign := by
  have hbit : (@unpackSign .binary64 x.bits.toBitVec).toNat = x.bits.toNat / 2 ^ 63 % 2 := by
    simp [unpackSign, Nat.shiftRight_eq_div_pow]
  have hlt := x.bits.toNat_lt
  have hpositive : @unpackSign .binary64 x.bits.toBitVec = 0#1 ↔ ¬ 2 ^ 63 ≤ x.bits.toNat := by
    rw [← BitVec.toNat_inj, hbit, BitVec.toNat_zero]
    omega
  rw [Sign.ofBitVec, sign, isNegative_eq]
  by_cases hnegative : 2 ^ 63 ≤ x.bits.toNat
  · rw [if_neg (by rwa [hpositive, not_not]), if_pos (decide_eq_true hnegative)]
  · rw [if_pos (hpositive.mpr hnegative), if_neg (by simpa using hnegative)]

theorem exponentField_lt {x : Binary64} (hx : x.isFinite = true) : x.exponentField < 2047 := by
  rw [isFinite_iff] at hx
  rw [exponentField_eq, Nat.div_lt_iff_lt_mul (by positivity)]
  exact hx

theorem fits {x : Binary64} (hx : x.isFinite = true) : Fits x.significand x.exponent := by
  have hexponent := exponentField_lt hx
  have hfraction : x.fractionField < 2 ^ 52 := fractionField_eq x ▸ Nat.mod_lt _ (by positivity)
  unfold significand exponent
  constructor <;> split_ifs <;> omega

theorem unpack_bits {x : Binary64} (hx : x.isFinite = true) :
    unpack .binary64 x.bits.toBitVec = ofParts x.sign x.significand x.exponent := by
  have hfield : (@unpackExponent .binary64 x.bits.toBitVec).toNat = x.exponentField := by
    rw [toNat_unpackExponent, exponentField_eq]
  have hexponent : @unpackExponent .binary64 x.bits.toBitVec ≠ -1#_ := by
    have := exponentField_lt hx
    rw [Ne, ← BitVec.toNat_inj, hfield]
    exact this.ne
  rw [unpack_eq_ofParts hexponent, hfield, toNat_unpackMantissa, ofBitVec_unpackSign]
  rfl

theorem unpacked_eq_ofParts {x : Binary64} (hx : x.isFinite = true) :
    x.unpacked = ofParts x.sign x.significand x.exponent := by
  change stored (unpack .binary64 x.bits.toBitVec) = _
  rw [unpack_bits hx, stored_ofParts (fits hx)]

theorem toRat_eq_exactValue {x : Binary64} (hx : x.isFinite = true) :
    x.toRat = exactValue x.unpacked := by
  rw [unpacked_eq_ofParts hx, exactValue_ofParts, toRat, fraction, mkRat_shiftLeft, sign]
  cases x.isNegative <;> simp [Sign.apply]

/-! ## Patterns of results -/

theorem isSpecial_of_not_isFinite {x : Binary64} (hx : ¬ x.isFinite = true) :
    IsSpecial x.unpacked := by
  have hexponent : @unpackExponent .binary64 x.bits.toBitVec = -1#_ := by
    have hlt := Nat.mod_lt x.bits.toNat (show 0 < 2 ^ 63 by decide)
    rw [isFinite_iff, toNat_magnitude] at hx
    rw [← BitVec.toNat_inj, toNat_unpackExponent, toNat_magnitude]
    change ¬ _ < 2047 * 2 ^ 52 at hx
    change _ = 2047
    omega
  change IsSpecial (stored (unpack .binary64 x.bits.toBitVec))
  apply IsSpecial.stored
  unfold unpack
  dsimp only
  rw [if_pos hexponent]
  split <;> exact True.intro

theorem isFinite_iff_not_isSpecial (x : Binary64) : x.isFinite = true ↔ ¬ IsSpecial x.unpacked := by
  constructor
  · intro hx
    rw [unpacked_eq_ofParts hx, ofParts]
    split <;> exact id
  · exact not_imp_comm.mp isSpecial_of_not_isFinite

theorem isFinite_ofUnpacked {s : Sign} {m : Nat} {e : Int} (h : Fits m e) :
    (ofUnpacked (ofParts s m e)).isFinite = true := by
  rw [isFinite_iff_not_isSpecial, unpacked_ofUnpacked, stored_ofParts h, ofParts]
  split <;> exact id

theorem toRat_ofUnpacked {s : Sign} {m : Nat} {e : Int} (h : Fits m e) :
    (ofUnpacked (ofParts s m e)).toRat = (s.apply m : Int) * 2 ^ e := by
  rw [toRat_eq_exactValue (isFinite_ofUnpacked h), unpacked_ofUnpacked, stored_ofParts h,
    exactValue_ofParts]

/-! ## The order of patterns -/

theorem unpacked_of_isInfinite {x : Binary64} (hx : x.isInfinite = true) :
    x.unpacked = .infinity x.sign := by
  have hmagnitude : x.magnitude = infinityBits := beq_iff_eq.mp hx
  rw [← ofMagnitude_isNegative_magnitude x, hmagnitude]
  cases x.isNegative <;> rfl

theorem rank_le_infinity (u : UnpackedFloat) : rank u ≤ rank (.infinity .positive) := by
  rcases u with (_ | _) | _ | _ | ⟨_ | _, m, e, hm⟩
  all_goals
    dsimp only [rank]
    simp [Prod.Lex.toLex_le_toLex]

theorem infinity_le_rank (u : UnpackedFloat) : rank (.infinity .negative) ≤ rank u := by
  rcases u with (_ | _) | _ | _ | ⟨_ | _, m, e, hm⟩
  all_goals
    dsimp only [rank]
    simp [Prod.Lex.toLex_le_toLex]

def signedMagnitude (x : Binary64) : Int :=
  if x.isNegative then -(x.magnitude.toNat : Int) else x.magnitude.toNat

theorem rank_unpacked {x : Binary64} (hx : x.isFinite = true) : rank x.unpacked =
    if x.significand = 0 then toLex (0, toLex (0, 0))
    else if x.isNegative then toLex (-1, toLex (-x.exponent, -(x.significand : Int)))
    else toLex (1, toLex (x.exponent, (x.significand : Int))) := by
  rw [unpacked_eq_ofParts hx, ofParts, sign]
  rcases Nat.eq_zero_or_pos x.significand with hzero | hpos
  · rw [dif_neg (by omega), if_pos hzero]
    rfl
  · rw [dif_pos hpos, if_neg hpos.ne']
    cases x.isNegative <;> rfl

theorem significand_eq_zero_iff (x : Binary64) : x.significand = 0 ↔ x.magnitude.toNat = 0 := by
  unfold significand
  rw [exponentField_eq, fractionField_eq]
  split_ifs <;> omega

theorem exponent_lt_or_of_magnitude_le {x y : Binary64}
    (h : x.magnitude.toNat ≤ y.magnitude.toNat) :
    x.exponent < y.exponent ∨ x.exponent = y.exponent ∧ x.significand ≤ y.significand := by
  unfold exponent significand
  rw [exponentField_eq, exponentField_eq, fractionField_eq, fractionField_eq]
  split_ifs <;> omega

theorem rank_le_of_isFinite {x y : Binary64} (hx : x.isFinite = true) (hy : y.isFinite = true)
    (h : x.signedMagnitude ≤ y.signedMagnitude) : rank x.unpacked ≤ rank y.unpacked := by
  have hzero := significand_eq_zero_iff x
  have hzero' := significand_eq_zero_iff y
  rw [rank_unpacked hx, rank_unpacked hy]
  unfold signedMagnitude at h
  cases hsign : x.isNegative <;> cases hsign' : y.isNegative <;>
    simp only [hsign, hsign', if_true, if_false, Bool.false_eq_true] at h ⊢
  · have hfields := exponent_lt_or_of_magnitude_le (x := x) (y := y) (by omega)
    split_ifs <;> simp [Prod.Lex.toLex_le_toLex] <;> omega
  · rw [if_pos (by omega), if_pos (by omega)]
  · split_ifs <;> simp [Prod.Lex.toLex_le_toLex]
  · have hfields := exponent_lt_or_of_magnitude_le (x := y) (y := x) (by omega)
    split_ifs <;> simp [Prod.Lex.toLex_le_toLex] <;> omega

theorem isInfinite_iff (x : Binary64) :
    x.isInfinite = true ↔ x.magnitude.toNat = infinityBits.toNat := by
  rw [isInfinite, beq_iff_eq, ← UInt64.toNat_inj]

theorem le_of_signedMagnitude_le {x y : Binary64} (hx : x.isNaN = false) (hy : y.isNaN = false)
    (h : x.signedMagnitude ≤ y.signedMagnitude) : x ≤ y := by
  have hxle := magnitude_le_of_isNaN hx
  have hyle := magnitude_le_of_isNaN hy
  rw [le_iff hx hy]
  by_cases hfinite : x.isFinite = true ∧ y.isFinite = true
  · exact rank_le_of_isFinite hfinite.1 hfinite.2 h
  · rw [isFinite_iff, isFinite_iff] at hfinite
    unfold signedMagnitude at h
    by_cases hpositive : y.isNegative = false ∧ y.magnitude.toNat = infinityBits.toNat
    · rw [unpacked_of_isInfinite ((isInfinite_iff y).mpr hpositive.2), sign, hpositive.1]
      exact rank_le_infinity _
    · have hnegative : x.isNegative = true ∧ x.magnitude.toNat = infinityBits.toNat := by
        have htop : infinityBits.toNat = 2047 * 2 ^ 52 := rfl
        cases hsign : x.isNegative <;> cases hsign' : y.isNegative <;>
          simp only [hsign, hsign', if_true, if_false, Bool.false_eq_true, Bool.true_eq_false,
            true_and, false_and] at h hpositive ⊢ <;> omega
      rw [unpacked_of_isInfinite ((isInfinite_iff x).mpr hnegative.2), sign, hnegative.1]
      exact infinity_le_rank _

end FormulaSearch.Binary64
