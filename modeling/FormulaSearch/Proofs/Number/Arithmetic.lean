import FormulaSearch.Proofs.Number.Order
import Mathlib

/-!
# Arithmetic on unpacked floats

A result is packed into a pattern, and the next operation unpacks it. Only the first packing can
change a number, so a calculation is followed on unpacked floats, with one `stored` for each
operation. Two kinds of numbers are followed here: zeros and NaN, which sums, products, quotients
and roots do not leave, and infinities and NaN, from which no sum, product or root is finite.
-/

open Float.Model (Format UnpackedFloat)
open Float.Model.UnpackedFloat

namespace FormulaSearch.Binary64

/-! ## Packing -/

/-- What is left of a result once it is packed. -/
def stored (u : UnpackedFloat) : UnpackedFloat := unpack .binary64 (pack .binary64 u)

@[simp] theorem stored_stored (u : UnpackedFloat) : stored (stored u) = stored u := by
  unfold stored
  rw [pack_unpack_of_valid valid_pack]

@[simp] theorem stored_notANumber : stored .notANumber = .notANumber := unpack_packedNaN

@[simp] theorem stored_zero (s : Sign) : stored (.zero s) = .zero s := unpack_packedZero

@[simp] theorem stored_unpacked (x : Binary64) : stored x.unpacked = x.unpacked :=
  stored_stored (unpack .binary64 x.bits.toBitVec)

@[simp] theorem unpacked_add (x y : Binary64) :
    (x + y).unpacked = stored (UnpackedFloat.add .binary64 x.unpacked y.unpacked) :=
  stored_stored _

@[simp] theorem unpacked_sub (x y : Binary64) :
    (x - y).unpacked = stored (UnpackedFloat.sub .binary64 x.unpacked y.unpacked) :=
  stored_stored _

@[simp] theorem unpacked_mul (x y : Binary64) :
    (x * y).unpacked = stored (UnpackedFloat.mul .binary64 x.unpacked y.unpacked) :=
  stored_stored _

@[simp] theorem unpacked_div (x y : Binary64) :
    (x / y).unpacked = stored (UnpackedFloat.div .binary64 x.unpacked y.unpacked) :=
  stored_stored _

@[simp] theorem unpacked_sqrt (x : Binary64) :
    x.sqrt.unpacked = stored (UnpackedFloat.sqrt .binary64 x.unpacked) :=
  stored_stored _

/-! ## Zeros and NaN -/

/-- A zero of either sign, or NaN. -/
def IsVoid : UnpackedFloat → Prop
  | .zero _ => True
  | .notANumber => True
  | _ => False

namespace IsVoid

variable {u v : UnpackedFloat}

theorem stored (hu : IsVoid u) : IsVoid (stored u) := by
  cases u with
  | notANumber => rwa [stored_notANumber]
  | zero s => rwa [stored_zero]
  | infinity s => exact hu.elim
  | finite s m e hm => exact hu.elim

/-- Such a number added to another one changes at most the sign of a zero, or leaves NaN. -/
theorem add_cases (hv : IsVoid v) (u : UnpackedFloat) :
    UnpackedFloat.add .binary64 u v = u ∨ UnpackedFloat.add .binary64 u v = .notANumber ∨
      ∃ s t, u = .zero s ∧ UnpackedFloat.add .binary64 u v = .zero t := by
  cases v with
  | notANumber => cases u <;> exact .inr (.inl rfl)
  | zero t =>
    cases u with
    | zero s => cases s <;> cases t <;> exact .inr (.inr ⟨_, _, rfl, rfl⟩)
    | _ => exact .inl rfl
  | infinity s => exact hv.elim
  | finite s m e hm => exact hv.elim

theorem add (hu : IsVoid u) (hv : IsVoid v) : IsVoid (UnpackedFloat.add .binary64 u v) := by
  rcases hv.add_cases u with h | h | ⟨s, t, -, h⟩ <;> rw [h]
  · exact hu
  · exact True.intro
  · exact True.intro

theorem sub_self (u : UnpackedFloat) : IsVoid (UnpackedFloat.sub .binary64 u u) := by
  cases u with
  | notANumber => exact True.intro
  | infinity s => cases s <;> exact True.intro
  | zero s => cases s <;> exact True.intro
  | finite s m e hm =>
    let aligned : Int := s.apply (decreaseExponent m e (min e e)).1
    change IsVoid (normalize .binary64 (aligned - aligned) (min e e) .positive)
    rw [Int.sub_self]
    exact True.intro

theorem mul_right (hu : IsVoid u) : IsVoid (UnpackedFloat.mul .binary64 u v) := by
  cases u <;> cases v <;> first
    | exact True.intro
    | exact hu.elim

theorem mul_left (hv : IsVoid v) : IsVoid (UnpackedFloat.mul .binary64 u v) := by
  cases u <;> cases v <;> first
    | exact True.intro
    | exact hv.elim

theorem div (hu : IsVoid u) : IsVoid (UnpackedFloat.div .binary64 u v) := by
  cases u <;> cases v <;> first
    | exact True.intro
    | exact hu.elim

theorem sqrt (hu : IsVoid u) : IsVoid (UnpackedFloat.sqrt .binary64 u) := by
  cases u <;> first
    | exact True.intro
    | exact hu.elim

theorem div_eq_notANumber (hu : IsVoid u) (hv : IsVoid v) :
    UnpackedFloat.div .binary64 u v = .notANumber := by
  cases u <;> cases v <;> first
    | rfl
    | exact hu.elim
    | exact hv.elim

end IsVoid

/-! ## Infinities and NaN -/

@[simp] theorem stored_infinity (s : Sign) : stored (.infinity s) = .infinity s := by
  cases s <;> rfl

/-- An infinity of either sign, or NaN. -/
def IsSpecial : UnpackedFloat → Prop
  | .infinity _ => True
  | .notANumber => True
  | _ => False

namespace IsSpecial

variable {u v : UnpackedFloat}

theorem stored (hu : IsSpecial u) : IsSpecial (stored u) := by
  cases u with
  | notANumber => rwa [stored_notANumber]
  | infinity s => rwa [stored_infinity]
  | zero s => exact hu.elim
  | finite s m e hm => exact hu.elim

theorem add_right (hu : IsSpecial u) : IsSpecial (UnpackedFloat.add .binary64 u v) := by
  cases u <;> cases v
  case infinity.infinity s t => cases s <;> cases t <;> exact True.intro
  all_goals first
    | exact True.intro
    | exact hu.elim

theorem add_left (hv : IsSpecial v) : IsSpecial (UnpackedFloat.add .binary64 u v) := by
  cases u <;> cases v
  case infinity.infinity s t => cases s <;> cases t <;> exact True.intro
  all_goals first
    | exact True.intro
    | exact hv.elim

theorem sub_right (hu : IsSpecial u) : IsSpecial (UnpackedFloat.sub .binary64 u v) := by
  cases u <;> cases v
  case infinity.infinity s t => cases s <;> cases t <;> exact True.intro
  all_goals first
    | exact True.intro
    | exact hu.elim

theorem sub_left (hv : IsSpecial v) : IsSpecial (UnpackedFloat.sub .binary64 u v) := by
  cases u <;> cases v
  case infinity.infinity s t => cases s <;> cases t <;> exact True.intro
  all_goals first
    | exact True.intro
    | exact hv.elim

theorem mul_right (hu : IsSpecial u) : IsSpecial (UnpackedFloat.mul .binary64 u v) := by
  cases u <;> cases v <;> first
    | exact True.intro
    | exact hu.elim

theorem mul_left (hv : IsSpecial v) : IsSpecial (UnpackedFloat.mul .binary64 u v) := by
  cases u <;> cases v <;> first
    | exact True.intro
    | exact hv.elim

theorem div (hu : IsSpecial u) : IsSpecial (UnpackedFloat.div .binary64 u v) := by
  cases u <;> cases v <;> first
    | exact True.intro
    | exact hu.elim

/-- Nothing finite comes from a division by zero. -/
theorem div_zero (u : UnpackedFloat) (s : Sign) :
    IsSpecial (UnpackedFloat.div .binary64 u (.zero s)) := by
  cases u <;> exact True.intro

theorem div_eq_zero (hv : IsSpecial v) : IsSpecial (UnpackedFloat.div .binary64 u v) ∨
    ∃ s, UnpackedFloat.div .binary64 u v = .zero s := by
  cases u <;> cases v <;> first
    | exact .inl True.intro
    | exact .inr ⟨_, rfl⟩
    | exact hv.elim

theorem sqrt (hu : IsSpecial u) : IsSpecial (UnpackedFloat.sqrt .binary64 u) := by
  cases u with
  | infinity s => cases s <;> exact True.intro
  | notANumber => exact True.intro
  | zero s => exact hu.elim
  | finite s m e hm => exact hu.elim

end IsSpecial

end FormulaSearch.Binary64
