/-!
# Binary floating point

Numbers of tables, scores and rates are IEEE 754 binary64 values, kept as their bit patterns, so
that the sign and payload of a NaN from a table survive. Arithmetic and comparison are those of
Lean's `Float`; what the format says about a pattern is read off its bits.
-/

namespace FormulaSearch

structure Binary64 where
  bits : UInt64
deriving DecidableEq, Inhabited

namespace Binary64

def ofFloat (x : Float) : Binary64 := ⟨x.toBits⟩

def toFloat (x : Binary64) : Float := Float.ofBits x.bits

instance : Add Binary64 := ⟨fun a b => ofFloat (a.toFloat + b.toFloat)⟩
instance : Sub Binary64 := ⟨fun a b => ofFloat (a.toFloat - b.toFloat)⟩
instance : Mul Binary64 := ⟨fun a b => ofFloat (a.toFloat * b.toFloat)⟩
instance : Div Binary64 := ⟨fun a b => ofFloat (a.toFloat / b.toFloat)⟩
instance : LT Binary64 := ⟨fun a b => a.toFloat < b.toFloat⟩
instance : LE Binary64 := ⟨fun a b => a.toFloat ≤ b.toFloat⟩
instance : NatCast Binary64 := ⟨fun n => ofFloat (Float.ofNat n)⟩
instance (n : Nat) : OfNat Binary64 n := ⟨(n : Binary64)⟩
instance : OfScientific Binary64 := ⟨fun m s e => ofFloat (Float.ofScientific m s e)⟩

instance (a b : Binary64) : Decidable (a < b) := inferInstanceAs (Decidable (a.toFloat < b.toFloat))
instance (a b : Binary64) : Decidable (a ≤ b) := inferInstanceAs (Decidable (a.toFloat ≤ b.toFloat))

def sqrt (x : Binary64) : Binary64 := ofFloat x.toFloat.sqrt

/-! ## The format -/

/-- The pattern of positive infinity. A larger magnitude is a NaN, a smaller one is finite. -/
def infinityBits : UInt64 := 0x7FF0000000000000

def signBit : UInt64 := 0x8000000000000000

/-- The pattern without its sign. -/
def magnitude (x : Binary64) : UInt64 := x.bits &&& 0x7FFFFFFFFFFFFFFF

def isNegative (x : Binary64) : Bool := x.bits &&& signBit != 0

def isNaN (x : Binary64) : Bool := infinityBits < x.magnitude

def isInfinite (x : Binary64) : Bool := x.magnitude == infinityBits

def isFinite (x : Binary64) : Bool := x.magnitude < infinityBits

theorem isFinite_eq_not (x : Binary64) : x.isFinite = !(x.isNaN || x.isInfinite) := by
  simp only [isFinite, isNaN, isInfinite]
  rcases Nat.lt_trichotomy x.magnitude.toNat infinityBits.toNat with h | h | h
  · have := UInt64.lt_iff_toNat_lt.mpr h
    simp [this, UInt64.ne_of_lt this, UInt64.le_of_lt this]
  · have := UInt64.toNat_inj.mp h
    simp [this]
  · have := UInt64.lt_iff_toNat_lt.mpr h
    simp [this, UInt64.le_of_lt this]

theorem isFinite_zero : (0 : Binary64).isFinite = true := by decide +kernel

def infinity : Binary64 := ⟨infinityBits⟩

def negInfinity : Binary64 := ⟨signBit ||| infinityBits⟩

/-- The quiet NaN with no payload and no sign. -/
def nan : Binary64 := ⟨0x7FF8000000000000⟩

def ofMagnitude (negative : Bool) (magnitude : UInt64) : Binary64 :=
  ⟨if negative then signBit ||| magnitude else magnitude⟩

def exponentField (x : Binary64) : Nat := (x.magnitude >>> 52).toNat

def fractionField (x : Binary64) : Nat := (x.magnitude &&& 0xFFFFFFFFFFFFF).toNat

/-- The integer significand of a finite value. -/
def significand (x : Binary64) : Nat :=
  if x.exponentField = 0 then x.fractionField else 0x10000000000000 + x.fractionField

/-- The binary exponent that goes with `significand`. -/
def exponent (x : Binary64) : Int :=
  if x.exponentField = 0 then -1074 else (x.exponentField : Int) - 1075

/-- Numerator and denominator of the magnitude of a finite value. -/
def fraction (x : Binary64) : Nat × Nat :=
  (x.significand <<< x.exponent.toNat, 1 <<< (-x.exponent).toNat)

/-- The exact value of a finite pattern. -/
def toRat (x : Binary64) : Rat :=
  let magnitude := mkRat x.fraction.1 x.fraction.2
  if x.isNegative then -magnitude else magnitude

/-- The place of a value in the total order of patterns: negative NaNs first, then the numbers from
negative to positive infinity with `-0.0` below `0.0`, then positive NaNs. -/
def orderKey (x : Binary64) : Int :=
  if x.isNegative then -(x.magnitude.toNat : Int) - 1 else x.magnitude.toNat

end Binary64

end FormulaSearch
