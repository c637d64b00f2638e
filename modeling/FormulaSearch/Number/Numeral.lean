import FormulaSearch.Number.Decimal
import FormulaSearch.Number.Nearest

/-!
# Numerals of row files

The numbers of row files and of the command line: a decimal literal with an optional exponent, or
the name of an infinity or a NaN in any case. The value is the nearest representable one, however
long the digits or the exponent.
-/

namespace FormulaSearch

inductive NumeralFault where
  | empty
  | invalid
deriving DecidableEq, Repr

def NumeralFault.message : NumeralFault → String
  | .empty => "cannot parse float from empty string"
  | .invalid => "invalid float literal"

structure Numeral where
  decimal : Decimal
  exponent : Int

namespace Numeral

/-- An exponent with its sign; at least one digit. -/
def exponent? (cs : List Char) : Option Int :=
  let (negative, digits) := splitSign cs
  if digits.isEmpty || !digits.all Char.isDigit then none
  else some (if negative then -(digitsValue digits : Int) else digitsValue digits)

def isExponentMark (c : Char) : Bool := c == 'e' || c == 'E'

def ofChars? (cs : List Char) : Option Numeral :=
  let decimal := Decimal.split (cs.takeWhile (!isExponentMark ·))
  if decimal.wellFormed then
    match cs.dropWhile (!isExponentMark ·) with
    | [] => some ⟨decimal, 0⟩
    | _ :: rest => (exponent? rest).map fun e => ⟨decimal, e⟩
  else none

/-- The exponent of ten that goes with the digits read as an integer. -/
def scale (n : Numeral) : Int := n.exponent - n.decimal.fraction.length

/-- One more than the decimal exponent of the leading digit that is not zero. -/
def reach (n : Numeral) : Int :=
  ((n.decimal.whole ++ n.decimal.fraction).dropWhile (· == '0')).length + n.scale

/-- The nearest value. A reach above 310 is past the largest finite value, and one below -330 is
less than half the smallest subnormal, so neither is multiplied out. -/
def toBinary64 (negative : Bool) (n : Numeral) : Binary64 :=
  let digits := n.decimal.digits
  if digits = 0 || n.reach < -330 then .ofMagnitude negative 0
  else if 310 < n.reach then .ofMagnitude negative Binary64.infinityBits
  else .nearestQuotient negative (digits * Nat.pow 10 n.scale.toNat)
      (Nat.pow 10 (-n.scale).toNat)

end Numeral

namespace Binary64

/-- The values that have names; case does not matter. -/
def named? (negative : Bool) (cs : List Char) : Option Binary64 :=
  let lower := cs.map Char.toLower
  if lower = "inf".toList || lower = "infinity".toList then
    some (.ofMagnitude negative infinityBits)
  else if lower = "nan".toList then some (.ofMagnitude negative nan.bits)
  else none

def read (cs : List Char) : Except NumeralFault Binary64 :=
  if cs.isEmpty then .error .empty
  else
    let (negative, unsigned) := splitSign cs
    match Numeral.ofChars? unsigned with
    | some n => .ok (n.toBinary64 negative)
    | none =>
      match named? negative unsigned with
      | some x => .ok x
      | none => .error .invalid

end Binary64

end FormulaSearch
