import FormulaSearch.Number.Nearest

/-!
# Shortest decimals

Among the decimals that round to a given value, the ones with the fewest digits, and of those the
nearest to it. A decimal with `p` digits can round to the value only if one of the value's two
neighbours on the grid of `p` digits does, so each grid needs two tests.
-/

namespace FormulaSearch

/-- A positive decimal `digits * 10 ^ scale`. -/
structure ShortDecimal where
  digits : Nat
  scale : Int
deriving DecidableEq

namespace ShortDecimal

def fraction (d : ShortDecimal) : Nat × Nat :=
  (d.digits * Nat.pow 10 d.scale.toNat, Nat.pow 10 (-d.scale).toNat)

/-- A power of ten is written with one digit. -/
def normalize (d : ShortDecimal) : ShortDecimal :=
  if d.digits = 10 then ⟨1, d.scale + 1⟩ else d

def text (d : ShortDecimal) : List Char := Nat.toDigits 10 d.digits

def exponent (d : ShortDecimal) : Int := d.text.length - 1 + d.scale

end ShortDecimal

namespace Binary64

def readsBack (x : Binary64) (d : ShortDecimal) : Bool :=
  nearestMagnitude d.fraction.1 d.fraction.2 == x.magnitude.toNat

/-- The exponent of the leading decimal digit of `n / d`, for positive `n` and `d`. -/
def leadingPower (n d : Nat) : Int :=
  if d ≤ n then (Nat.toDigits 10 (n / d)).length - 1
  else -(Nat.toDigits 10 ((d - 1) / n)).length

/-- The shortest decimal on the grid of multiples of `10 ^ scale`: the nearer of the two
neighbours that read back, the upper one on a tie. -/
def onGrid (x : Binary64) (scale : Int) : Option ShortDecimal :=
  let (n, d) := x.fraction
  let n := n * Nat.pow 10 (-scale).toNat
  let d := d * Nat.pow 10 scale.toNat
  let below : ShortDecimal := ⟨n / d, scale⟩
  let above : ShortDecimal := ⟨n / d + 1, scale⟩
  match x.readsBack below, x.readsBack above with
  | true, true => some (if 2 * (n % d) < d then below else above)
  | true, false => some below
  | false, true => some above
  | false, false => none

/-- All digits of the value: a binary fraction is a decimal one. -/
def allDigits (x : Binary64) : ShortDecimal :=
  ⟨x.fraction.1 * Nat.pow 5 (-x.exponent).toNat, min 0 x.exponent⟩

/-- The shortest decimal of a positive finite value. The first grid is that of the leading digit
and the last has seventeen digits. -/
def shortest (x : Binary64) : ShortDecimal :=
  let leading := leadingPower x.fraction.1 x.fraction.2
  let found := (List.range 17).findSome? fun (p : Nat) => x.onGrid (leading - p)
  (found.getD x.allDigits).normalize

end Binary64

end FormulaSearch
