/-!
# Decimal literals

The literals of formulas: an optional sign, then digits with at most one point among them and at
least one digit in all. Their value is exact. There may be any number of digits before the point,
but the number of those after it has to be a word of 32 bits.
-/

namespace FormulaSearch

/-- The number spelled by a list of decimal digits; the empty list spells zero. -/
def digitsValue (cs : List Char) : Nat := Nat.ofDigitChars 10 cs 0

@[simp] theorem digitsValue_nil : digitsValue [] = 0 := rfl

theorem digitsValue_toDigits (n : Nat) : digitsValue (Nat.toDigits 10 n) = n :=
  Nat.ofDigitChars_toDigits (by decide) (by decide)

/-- An unsigned literal, cut at its first point into the digits before it and those after. -/
structure Decimal where
  whole : List Char
  fraction : List Char
deriving DecidableEq

namespace Decimal

def split (cs : List Char) : Decimal where
  whole := cs.takeWhile (· != '.')
  fraction := (cs.dropWhile (· != '.')).drop 1

theorem split_of_point {w f : List Char} (h : ∀ c ∈ w, c ≠ '.') : split (w ++ '.' :: f) = ⟨w, f⟩ := by
  have hw : ∀ c ∈ w, (c != '.') = true := fun c hc => by simpa using h c hc
  simp [split, List.takeWhile_append_of_pos hw, List.dropWhile_append_of_pos hw]

theorem split_of_no_point {w : List Char} (h : ∀ c ∈ w, c ≠ '.') : split w = ⟨w, []⟩ := by
  have hw : w.takeWhile (· != '.') = w ∧ w.dropWhile (· != '.') = [] := by
    induction w with
    | nil => simp
    | cons c w ih => simp_all
  simp [split, hw.1, hw.2]

/-- Both parts hold digits only, and one of them is not empty. -/
def wellFormed (d : Decimal) : Bool :=
  !(d.whole.isEmpty && d.fraction.isEmpty) && d.whole.all Char.isDigit &&
    d.fraction.all Char.isDigit

/-- The most digits that may stand after the point. -/
def maxPlaces : Nat := 0xFFFFFFFF

def digits (d : Decimal) : Nat := digitsValue (d.whole ++ d.fraction)

def value (d : Decimal) : Rat := mkRat d.digits (Nat.pow 10 d.fraction.length)

end Decimal

/-- A text without its sign, and whether that sign was a minus. -/
def splitSign : List Char → Bool × List Char
  | '-' :: cs => (true, cs)
  | '+' :: cs => (false, cs)
  | cs => (false, cs)

/-- The value of a signed decimal literal, `none` for any other text. -/
def decimal? (cs : List Char) : Option Rat :=
  let (negative, unsigned) := splitSign cs
  let d := Decimal.split unsigned
  if d.wellFormed && d.fraction.length ≤ Decimal.maxPlaces then
    some (if negative then -d.value else d.value)
  else none

/-- The text of a rational: its numerator, and its denominator after a slash unless it is one. -/
def fractionText (q : Rat) : String :=
  if q.den = 1 then toString q.num else toString q.num ++ "/" ++ toString q.den

end FormulaSearch
