/-!
# Exact powers within a budget

Powers of rationals to integer exponents. A chain of powers can ask for numbers of billions of
digits, so the size of the base times the exponent is held to a budget before anything is
multiplied. Sizes and exponents are counted in machine words for that.
-/

namespace FormulaSearch

inductive ArithmeticFault where
  | divisionByZero
  | fractionalExponent
  | powerTooLarge
deriving DecidableEq, Repr

namespace Exact

def powerBudget : Nat := 65536

/-- The number of binary digits of a natural number; zero has none. -/
def bitLength (n : Nat) : Nat := if n = 0 then 0 else n.log2 + 1

theorem lt_shiftLeft_bitLength (n : Nat) : n < 1 <<< bitLength n := by
  rw [Nat.one_shiftLeft]
  unfold bitLength
  split
  · omega
  · exact Nat.lt_log2_self

/-- The longer of numerator and denominator in lowest terms, in bits. -/
def bitSize (q : Rat) : Nat := max (bitLength q.num.natAbs) (bitLength q.den)

theorem bitSize_pos (q : Rat) : 0 < bitSize q := by
  have hden : 0 < bitLength q.den := by
    unfold bitLength
    rw [if_neg q.den_nz]
    exact Nat.succ_pos _
  exact Nat.lt_of_lt_of_le hden (Nat.le_max_right _ _)

/-- Whether the power of a base of the given size is refused. The magnitude of the exponent has to
fit in a word of 64 bits. A product that does not fit counts as the largest word, and the exponent
that is left in the end has to fit in 32 bits. -/
def exceedsBudget (size : Nat) (e : Int) : Bool :=
  if UInt64.size ≤ e.natAbs then true
  else
    let magnitude := UInt64.ofNat e.natAbs
    let product := UInt64.ofNatClamp ((UInt64.ofNatClamp size).toNat * magnitude.toNat)
    UInt64.ofNat powerBudget < product || decide (UInt32.size ≤ magnitude.toNat)

theorem toNat_ofNatClamp (n : Nat) :
    (UInt64.ofNatClamp n).toNat = min n (UInt64.size - 1) := by
  by_cases h : n < UInt64.size
  · rw [UInt64.toNat_ofNatClamp_of_lt h]
    omega
  · rw [UInt64.toNat_ofNatClamp_of_le (Nat.le_of_not_lt h)]
    omega

/-- A clamped factor is far above the budget already. -/
theorem powerBudget_lt_clamped_mul_iff (size n : Nat) :
    powerBudget < min size (UInt64.size - 1) * n ↔ powerBudget < size * n := by
  have hbudget : powerBudget < UInt64.size - 1 := by decide
  by_cases h : size ≤ UInt64.size - 1
  · rw [Nat.min_eq_left h]
  · rw [Nat.min_eq_right (by omega)]
    rcases Nat.eq_zero_or_pos n with rfl | hn
    · simp
    · have hclamped := Nat.le_mul_of_pos_right (UInt64.size - 1) hn
      have hexact := Nat.le_mul_of_pos_right size hn
      omega

/-- Counting in words decides the exact comparison. -/
theorem exceedsBudget_iff {size : Nat} (h : 0 < size) (e : Int) :
    exceedsBudget size e = true ↔ powerBudget < size * e.natAbs := by
  have hbudget : powerBudget < UInt32.size := by decide
  have hsizes : UInt32.size < UInt64.size := by decide
  have hle : e.natAbs ≤ size * e.natAbs := Nat.le_mul_of_pos_left _ h
  unfold exceedsBudget
  split
  · simp only [true_iff]
    omega
  · have hmagnitude : (UInt64.ofNat e.natAbs).toNat = e.natAbs :=
      UInt64.toNat_ofNat_of_lt' (by omega)
    have hword : (UInt64.ofNat powerBudget).toNat = powerBudget := rfl
    simp only [Bool.or_eq_true, decide_eq_true_eq, UInt64.lt_iff_toNat_lt, toNat_ofNatClamp,
      hmagnitude, hword, Nat.lt_min, powerBudget_lt_clamped_mul_iff]
    omega

def quotient (a b : Rat) : Except ArithmeticFault Rat :=
  if b = 0 then .error .divisionByZero else .ok (a / b)

theorem quotient_eq_ok_iff {a b q : Rat} : quotient a b = .ok q ↔ b ≠ 0 ∧ q = a / b := by
  unfold quotient
  split <;> simp_all [eq_comm]

/-- The power to an integer exponent. Zero and the two units need no budget. -/
def integerPower (b : Rat) (e : Int) : Except ArithmeticFault Rat :=
  if b = 0 then
    if e = 0 then .ok 1 else if e < 0 then .error .divisionByZero else .ok 0
  else if b = 1 || b = -1 then
    .ok (if b = -1 && e % 2 = 1 then -1 else 1)
  else if exceedsBudget (bitSize b) e then .error .powerTooLarge
  else .ok (if e < 0 then (b ^ e.natAbs)⁻¹ else b ^ e.natAbs)

/-- The power to a rational exponent, which has to be an integer. -/
def power (b e : Rat) : Except ArithmeticFault Rat :=
  if e.den = 1 then integerPower b e.num else .error .fractionalExponent

theorem power_eq_fractionalExponent {b e : Rat} (h : e.den ≠ 1) :
    power b e = .error .fractionalExponent := if_neg h

end Exact

end FormulaSearch
