import FormulaSearch.Number.Binary64

/-!
# Random draws

A draw takes words from a source and leaves the source changed. Everything random in a search is
made of the draws below, so a search is determined by its source.
-/

namespace FormulaSearch

/-- A source of random words, with the source that is left after each. -/
class WordSource (ρ : Type) where
  word32 : ρ → UInt32 × ρ
  word64 : ρ → UInt64 × ρ

abbrev Draw (ρ α : Type) := StateM ρ α

namespace Draw

variable {ρ α : Type}

/-- The draws of a list, made in order. -/
def times : Nat → Draw ρ α → Draw ρ (List α)
  | 0, _ => pure []
  | n + 1, d => do
    let a ← d
    let rest ← times n d
    return a :: rest

theorem length_times (n : Nat) (d : Draw ρ α) (r : ρ) : (times n d r).1.length = n := by
  induction n generalizing r with
  | zero => rfl
  | succ n ih => exact congrArg (· + 1) (ih (d r).2)

/-- The draws of a vector, made in order of position. -/
def vector : (n : Nat) → Draw ρ α → Draw ρ (Vector α n)
  | 0, _ => pure #v[]
  | n + 1, d => do
    let v ← vector n d
    let a ← d
    return v.push a

variable [WordSource ρ]

def word32 : Draw ρ UInt32 := WordSource.word32

def word64 : Draw ρ UInt64 := WordSource.word64

/-- A word of the given width, in bits. -/
def word (width : Nat) : Draw ρ Nat :=
  if width = 32 then return (← word32).toNat else return (← word64).toNat

/-- The narrower word width if `n` itself can be written in it. -/
def widthFor (n : Nat) : Nat := if n < UInt32.size then 32 else 64

/-- A number below `n`, which is positive and at most `2 ^ 64`. The word times `n` has its result
above the word width; where the part below comes close to a carry, a second word extends the first
and decides it. -/
def below (n : Nat) : Draw ρ Nat := do
  let range := 1 <<< widthFor n
  let product := (← word (widthFor n)) * n
  let high := product / range
  let low := product % range
  if range - n < low then
    let second := (← word (widthFor n)) * n / range
    return if range ≤ low + second then high + 1 else high
  else return high

/-- A multiple of `2 ^ -53` from zero up to below one. -/
def unit : Draw ρ Binary64 := do
  return ((← word64) >>> 11).toNat / 9007199254740992

def chance (rate : Binary64) : Draw ρ Bool := do
  return decide ((← unit) ≤ rate)

end Draw

end FormulaSearch
