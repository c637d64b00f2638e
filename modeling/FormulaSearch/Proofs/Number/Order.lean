import FormulaSearch.Number.Binary64
import Mathlib.Tactic

/-!
# The order of floats

On values that are not NaN the comparison of floats is a total preorder. Only the two zeros are
equal without being the same. Negative infinity is below every finite value.
-/

open Float.Model (Format UnpackedFloat)
open Float.Model.UnpackedFloat

namespace FormulaSearch.Binary64

/-! ## Unpacked floats -/

/-- The place of a number among the others. NaN has none. -/
def rank : UnpackedFloat → Int ×ₗ Int ×ₗ Int
  | .infinity .negative => toLex (-2, toLex (0, 0))
  | .finite .negative m e _ => toLex (-1, toLex (-e, -m))
  | .zero _ => toLex (0, toLex (0, 0))
  | .finite .positive m e _ => toLex (1, toLex (e, m))
  | .infinity .positive => toLex (2, toLex (0, 0))
  | .notANumber => toLex (0, toLex (0, 0))

theorem isLE_then_compare (e e' : Int) (m m' : Nat) :
    ((compare e e').then (compare m m')).isLE = true ↔ e < e' ∨ e = e' ∧ m ≤ m' := by
  rw [Ordering.isLE_then_iff_or, compare_lt_iff_lt, compare_eq_iff_eq, Nat.isLE_compare]

theorem swap_then_compare (e e' : Int) (m m' : Nat) :
    ((compare e e').then (compare m m')).swap = (compare e' e).then (compare m' m) := by
  rw [Ordering.swap_then, ← Std.OrientedOrd.eq_swap, ← Std.OrientedOrd.eq_swap]

theorem le_iff_rank_le {a b : UnpackedFloat} (ha : a ≠ .notANumber) (hb : b ≠ .notANumber) :
    a.le b = true ↔ rank a ≤ rank b := by
  rcases a with (_ | _) | _ | _ | ⟨_ | _, m, e, hm⟩ <;>
    rcases b with (_ | _) | _ | _ | ⟨_ | _, m', e', hm'⟩
  -- one of them is NaN, or their kinds and signs decide, or both are finite and of one sign
  all_goals first
    | contradiction
    | dsimp only [UnpackedFloat.le, UnpackedFloat.compare, rank, Option.any_some]
      simp [Prod.Lex.toLex_le_toLex, isLE_then_compare, swap_then_compare, -Ordering.isLE_swap]
  all_goals first
    | decide
    | omega

theorem lt_eq_not_le {a b : UnpackedFloat} (ha : a ≠ .notANumber) (hb : b ≠ .notANumber) :
    a.lt b = !b.le a := by
  rcases a with (_ | _) | _ | _ | ⟨_ | _, m, e, hm⟩ <;>
    rcases b with (_ | _) | _ | _ | ⟨_ | _, m', e', hm'⟩
  all_goals first
    | contradiction
    | rfl
    | rw [Bool.eq_iff_iff]
      dsimp only [UnpackedFloat.le, UnpackedFloat.lt, UnpackedFloat.compare, Option.any_some]
      simp [← swap_then_compare e e' m m']

theorem unpack_eq_notANumber_iff {spec : Format} {b : BitVec spec.numBits} :
    unpack spec b = .notANumber ↔ unpackExponent b = -1#_ ∧ unpackMantissa b ≠ 0#_ := by
  unfold unpack
  dsimp only
  by_cases hexponent : unpackExponent b = -1#_
  · rw [if_pos hexponent]
    by_cases hmantissa : unpackMantissa b = 0#_
    · rw [if_pos hmantissa]
      constructor
      · intro h
        cases h
      · intro h
        exact absurd hmantissa h.2
    · rw [if_neg hmantissa]
      exact ⟨fun _ => ⟨hexponent, hmantissa⟩, fun _ => rfl⟩
  · rw [if_neg hexponent]
    constructor
    · intro h
      by_cases hzero : unpackExponent b = 0#_
      · rw [if_pos hzero] at h
        by_cases hmantissa : unpackMantissa b = 0#_
        · rw [dif_pos hmantissa] at h
          cases h
        · rw [dif_neg hmantissa] at h
          cases h
      · rw [if_neg hzero] at h
        cases h
    · intro h
      exact absurd h.1 hexponent

/-- Packing may overflow to an infinity, but it makes no NaN. -/
theorem unpack_pack_ne_notANumber {spec : Format} {u : UnpackedFloat} (hu : u ≠ .notANumber) :
    unpack spec (pack spec u) ≠ .notANumber := by
  rw [Ne, unpack_eq_notANumber_iff]
  fun_cases pack spec u with
  | case1 => exact absurd rfl hu
  | case2 s => simp [packedInfinity]
  | case3 s => simp [packedZero]
  | case4 s m e hm _ h => simp [packedInfinity]
  | case5 s m e hm _ biasedExponent hfits =>
    have hmod : biasedExponent % 2 ^ spec.exponentBits = biasedExponent :=
      Nat.mod_eq_of_lt (by omega)
    simp [BitVec.neg_one_eq_allOnes, ← BitVec.toNat_inj, hmod]
    omega
  | case6 s m e hm => simp [spec.he.ne']

/-- A zero, or a number whose exponent is too small for packing to overflow. -/
def StaysFinite : UnpackedFloat → Prop
  | .zero _ => True
  | .finite _ _ e _ => e < 972
  | _ => False

theorem StaysFinite.unpackExponent_pack {u : UnpackedFloat} (hu : StaysFinite u) :
    unpackExponent (pack .binary64 u) ≠ -1#_ := by
  rcases u with s | _ | s | ⟨s, m, e, hm⟩
  · exact hu.elim
  · exact hu.elim
  · cases s <;> decide
  · have he : e < 972 := hu
    have hbiased : e + (Format.binary64.exponentBias : Int) +
        Format.binary64.mantissaBitsWithoutImplicit = e + 1075 := by
      simp [Format.exponentBias]
      omega
    have hfits : ¬ 2 ^ Format.binary64.exponentBits ≤ (e + 1075).toNat + 1 := by
      simp
      omega
    unfold pack
    dsimp only
    rw [hbiased, if_neg hfits]
    split
    · simp [← BitVec.toNat_inj]
      omega
    · simp [← BitVec.toNat_inj]

theorem StaysFinite.rank_lt {u : UnpackedFloat} (hu : StaysFinite u) :
    rank (.infinity .negative) < rank u := by
  rcases u with s | _ | s | ⟨_ | _, m, e, hm⟩
  · exact hu.elim
  · exact hu.elim
  all_goals
    dsimp only [rank]
    simp [Prod.Lex.toLex_lt_toLex]

/-- Unless its exponent is the greatest one, a pattern stands for a finite number. -/
theorem staysFinite_unpack {b : BitVec Format.binary64.numBits} (h : unpackExponent b ≠ -1#_) :
    StaysFinite (unpack .binary64 b) := by
  have htop : (unpackExponent b).toNat < 2047 := by
    have hlt : (unpackExponent b).toNat < 2048 := (unpackExponent b).isLt
    have hne : (unpackExponent b).toNat ≠ 2047 := fun hmax => h (BitVec.eq_of_toNat_eq hmax)
    omega
  have hbias : (Format.binary64.exponentBias : Int) +
      (Format.binary64.mantissaBitsWithoutImplicit : Int) = 1075 := rfl
  unfold unpack
  dsimp only
  rw [if_neg h, hbias]
  by_cases hzero : unpackExponent b = 0#_
  · rw [if_pos hzero]
    by_cases hmantissa : unpackMantissa b = 0#_
    · rw [dif_pos hmantissa]
      exact True.intro
    · have hexponent : (unpackExponent b).toNat = 0 := congrArg BitVec.toNat hzero
      rw [dif_neg hmantissa]
      change _ < (972 : Int)
      omega
  · rw [if_neg hzero]
    change _ < (972 : Int)
    omega

/-! ## Patterns -/

/-- The number that a pattern stands for, as the comparison of floats reads it. -/
def unpacked (x : Binary64) : UnpackedFloat := (Float.Model.ofBits x.bits).unpack

theorem toNat_magnitude (x : Binary64) : x.magnitude.toNat = x.bits.toNat % 2 ^ 63 := by
  have := Nat.and_two_pow_sub_one_eq_mod x.bits.toNat 63
  simpa [magnitude, UInt64.toNat_and] using this

theorem magnitude_le_of_isNaN {x : Binary64} (hx : x.isNaN = false) :
    x.magnitude.toNat ≤ infinityBits.toNat := by
  rw [isNaN, decide_eq_false_iff_not, UInt64.lt_iff_toNat_lt] at hx
  exact not_lt.mp hx

theorem unpacked_ne_notANumber {x : Binary64} (hx : x.isNaN = false) :
    x.unpacked ≠ .notANumber := by
  apply unpack_pack_ne_notANumber
  rw [Ne, unpack_eq_notANumber_iff]
  intro ⟨hexponent, hmantissa⟩
  have hexponent' := congrArg BitVec.toNat hexponent
  have hmantissa' : (@unpackMantissa .binary64 x.bits.toBitVec).toNat ≠ 0 :=
    fun h => hmantissa (BitVec.eq_of_toNat_eq h)
  have hle : x.magnitude.toNat ≤ 2047 * 2 ^ 52 := magnitude_le_of_isNaN hx
  rw [toNat_magnitude] at hle
  simp [unpackExponent, unpackMantissa, Nat.shiftRight_eq_div_pow] at hexponent' hmantissa'
  omega

theorem unpacked_eq_notANumber {x : Binary64} (hx : x.isNaN = true) :
    x.unpacked = .notANumber := by
  have hunpack : unpack .binary64 x.bits.toBitVec = .notANumber := by
    rw [unpack_eq_notANumber_iff]
    have hlt : 2047 * 2 ^ 52 < x.magnitude.toNat := by
      rw [isNaN, decide_eq_true_iff, UInt64.lt_iff_toNat_lt] at hx
      exact hx
    rw [toNat_magnitude] at hlt
    constructor
    · apply BitVec.eq_of_toNat_eq
      simp [unpackExponent, Nat.shiftRight_eq_div_pow]
      omega
    · intro hzero
      have := congrArg BitVec.toNat hzero
      simp [unpackMantissa] at this
      omega
  change unpack .binary64 (pack .binary64 (unpack .binary64 x.bits.toBitVec)) = _
  rw [hunpack]
  rfl

theorem le_iff {x y : Binary64} (hx : x.isNaN = false) (hy : y.isNaN = false) :
    x ≤ y ↔ rank x.unpacked ≤ rank y.unpacked := by
  rw [← le_iff_rank_le (unpacked_ne_notANumber hx) (unpacked_ne_notANumber hy)]
  exact decide_eq_true_iff

variable {x y z : Binary64}

theorem le_refl (hx : x.isNaN = false) : x ≤ x := (le_iff hx hx).mpr le_rfl

theorem isNaN_of_le (h : x ≤ y) : x.isNaN = false ∧ y.isNaN = false := by
  have hiff : x ≤ y ↔ x.unpacked.le y.unpacked = true := decide_eq_true_iff
  have hle := hiff.mp h
  constructor
  · by_contra hx
    rw [unpacked_eq_notANumber (eq_true_of_ne_false hx)] at hle
    cases hle
  · by_contra hy
    rw [unpacked_eq_notANumber (eq_true_of_ne_false hy)] at hle
    cases hx : x.unpacked <;> rw [hx] at hle <;> cases hle

theorem le_trans (hx : x.isNaN = false) (hy : y.isNaN = false) (hz : z.isNaN = false)
    (hxy : x ≤ y) (hyz : y ≤ z) : x ≤ z := by
  rw [le_iff hx hy] at hxy
  rw [le_iff hy hz] at hyz
  exact (le_iff hx hz).mpr (hxy.trans hyz)

theorem not_le_iff_lt (hx : x.isNaN = false) (hy : y.isNaN = false) : ¬ y ≤ x ↔ x < y := by
  have hle : y ≤ x ↔ y.unpacked.le x.unpacked = true := decide_eq_true_iff
  have hlt : x < y ↔ x.unpacked.lt y.unpacked = true := decide_eq_true_iff
  rw [hle, hlt, lt_eq_not_le (unpacked_ne_notANumber hx) (unpacked_ne_notANumber hy)]
  simp

theorem lt_iff (hx : x.isNaN = false) (hy : y.isNaN = false) :
    x < y ↔ rank x.unpacked < rank y.unpacked := by
  rw [← not_le_iff_lt hx hy, le_iff hy hx, not_le]

theorem le_of_lt (hx : x.isNaN = false) (hy : y.isNaN = false) (h : x < y) : x ≤ y := by
  rw [lt_iff hx hy] at h
  exact (le_iff hx hy).mpr h.le

theorem lt_of_le_of_lt (hx : x.isNaN = false) (hy : y.isNaN = false) (hz : z.isNaN = false)
    (hxy : x ≤ y) (hyz : y < z) : x < z := by
  rw [le_iff hx hy] at hxy
  rw [lt_iff hy hz] at hyz
  exact (lt_iff hx hz).mpr (hxy.trans_lt hyz)

theorem le_of_not_lt (hx : x.isNaN = false) (hy : y.isNaN = false) (h : ¬ x < y) : y ≤ x := by
  rw [lt_iff hx hy] at h
  exact (le_iff hy hx).mpr (not_lt.mp h)

/-! ## Finite values -/

theorem isFinite_iff (x : Binary64) :
    x.isFinite = true ↔ x.magnitude.toNat < infinityBits.toNat := by
  rw [isFinite, decide_eq_true_iff, UInt64.lt_iff_toNat_lt]

theorem isNaN_of_isFinite (hx : x.isFinite = true) : x.isNaN = false := by
  rw [isFinite_eq_not, Bool.not_eq_true', Bool.or_eq_false_iff] at hx
  exact hx.1

theorem isNaN_negInfinity : negInfinity.isNaN = false := by decide

theorem toNat_unpackExponent (x : Binary64) :
    (@unpackExponent .binary64 x.bits.toBitVec).toNat = x.magnitude.toNat / 2 ^ 52 := by
  rw [toNat_magnitude]
  simp [unpackExponent, Nat.shiftRight_eq_div_pow]
  omega

theorem negInfinity_lt (hx : x.isFinite = true) : negInfinity < x := by
  rw [lt_iff isNaN_negInfinity (isNaN_of_isFinite hx)]
  apply (staysFinite_unpack (StaysFinite.unpackExponent_pack (staysFinite_unpack ?_))).rank_lt
  intro hexponent
  have hmagnitude := congrArg BitVec.toNat hexponent
  rw [toNat_unpackExponent] at hmagnitude
  rw [isFinite_iff] at hx
  simp [infinityBits] at hmagnitude hx
  omega

end FormulaSearch.Binary64
