import FormulaSearch.Number.Shortest

/-!
# Texts of features

A feature of a row stands in a formula as its shortest decimal: with a point from a thousandth up
to below ten million, and otherwise in powers of ten, which formulas do not read.
-/

namespace FormulaSearch

/-- Digits with a point before the digit of exponent -1; at least one digit on both sides. -/
def positional (digits : List Char) (exponent : Int) : List Char :=
  if exponent < 0 then
    '0' :: '.' :: (List.replicate (-exponent - 1).toNat '0' ++ digits)
  else
    let whole := exponent.toNat + 1
    let padded := digits ++ List.replicate (whole - digits.length) '0'
    padded.take whole ++ '.' :: (if digits.length ≤ whole then ['0'] else padded.drop whole)

/-- One digit before the point, at least one after it, and the exponent of ten. -/
def scientific (digits : List Char) (exponent : Int) : List Char :=
  let rest := digits.drop 1
  digits.take 1 ++ '.' :: ((if rest.isEmpty then ['0'] else rest) ++
    'E' :: (toString exponent).toList)

namespace Binary64

/-- The least magnitude written without an exponent, zero apart. -/
def positionalFrom : Binary64 := ofRat (mkRat 1 1000)

def positionalBelow : Binary64 := ofRat 10000000

def isPositional (x : Binary64) : Bool :=
  positionalFrom.magnitude ≤ x.magnitude && x.magnitude < positionalBelow.magnitude

theorem positionalFrom_bits : positionalFrom.bits = 0x3F50624DD2F1A9FC := by decide +kernel

theorem positionalBelow_bits : positionalBelow.bits = 0x416312D000000000 := by decide +kernel

def featureText (x : Binary64) : List Char :=
  if x.isNaN then "NaN".toList
  else
    let unsigned :=
      if x.isInfinite then "Infinity".toList
      else if x.magnitude = 0 then ['0', '.', '0']
      else
        let d := x.shortest
        if x.isPositional then positional d.text d.exponent else scientific d.text d.exponent
    if x.isNegative then '-' :: unsigned else unsigned

end Binary64

end FormulaSearch
