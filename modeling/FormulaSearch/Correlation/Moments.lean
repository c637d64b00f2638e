/-!
# Running moments

Means, sums of squared deviations and the sum of the products of deviations of two columns, kept up
to date point by point. The update is generic in the arithmetic.
-/

namespace FormulaSearch

/-- The moments of `count` points. -/
structure Moments (α : Type) where
  count : Nat
  meanX : α
  meanY : α
  squaresX : α
  squaresY : α
  products : α

namespace Moments

variable {α : Type} [NatCast α]

def ofPoint (x y : α) : Moments α :=
  { count := 1, meanX := x, meanY := y
    squaresX := (0 : Nat), squaresY := (0 : Nat), products := (0 : Nat) }

variable [Add α] [Sub α] [Mul α] [Div α]

/-- The moments with one more point. The deviations are taken from the old means, so each product
counts with the share of the old points. -/
def add (m : Moments α) (p : α × α) : Moments α :=
  let count : α := (m.count + 1 : Nat)
  let share := (m.count : α) / count
  let dx := p.1 - m.meanX
  let dy := p.2 - m.meanY
  { count := m.count + 1
    meanX := m.meanX + dx / count
    meanY := m.meanY + dy / count
    squaresX := m.squaresX + dx * dx * share
    squaresY := m.squaresY + dy * dy * share
    products := m.products + dx * dy * share }

def ofPoints (p : α × α) (rest : List (α × α)) : Moments α :=
  rest.foldl add (ofPoint p.1 p.2)

theorem count_foldl_add (rest : List (α × α)) (m : Moments α) :
    (rest.foldl add m).count = m.count + rest.length := by
  induction rest generalizing m with
  | nil => rfl
  | cons p rest ih =>
    have h : (m.add p).count = m.count + 1 := rfl
    rw [List.foldl_cons, ih, List.length_cons, h]
    omega

theorem count_ofPoints (p : α × α) (rest : List (α × α)) :
    (ofPoints p rest).count = rest.length + 1 := by
  rw [ofPoints, count_foldl_add]
  exact Nat.add_comm 1 _

end Moments

end FormulaSearch
