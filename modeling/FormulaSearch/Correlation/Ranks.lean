import FormulaSearch.Number.Binary64

/-!
# Ranks

The rank of a value in a column is its place, counted from one, when the column is sorted by the
total order of patterns. Equal values keep their order, so all ranks differ.
-/

namespace FormulaSearch

/-- A value with its position in the column. -/
abbrev Placed := Binary64 × Nat

/-- The positions of a column in the order of their values. -/
def sortedPositions (xs : List Binary64) : List Nat :=
  (xs.zipIdx.mergeSort fun a b => decide (a.1.orderKey ≤ b.1.orderKey)).map Prod.snd

theorem sortedPositions_perm (xs : List Binary64) :
    (sortedPositions xs).Perm (List.range xs.length) := by
  have h := (List.mergeSort_perm xs.zipIdx
    (fun a b => decide (a.1.orderKey ≤ b.1.orderKey))).map Prod.snd
  have e : xs.zipIdx.map Prod.snd = List.range xs.length := by
    simp [List.zipIdx_map_snd, List.range_eq_range']
  exact e ▸ h

/-- The ranks of a column, by position: every position is paired with its rank and the pairs are
put back in the order of the positions. -/
def ranks (xs : List Binary64) : List Nat :=
  (((sortedPositions xs).zipIdx 1).mergeSort fun a b => decide (a.1 ≤ b.1)).map Prod.snd

theorem ranks_perm (xs : List Binary64) : (ranks xs).Perm (List.range' 1 xs.length) := by
  have h := (List.mergeSort_perm ((sortedPositions xs).zipIdx 1)
    (fun a b => decide (a.1 ≤ b.1))).map Prod.snd
  have e : ((sortedPositions xs).zipIdx 1).map Prod.snd = List.range' 1 xs.length := by
    simp [List.zipIdx_map_snd, (sortedPositions_perm xs).length_eq]
  exact e ▸ h

theorem length_ranks (xs : List Binary64) : (ranks xs).length = xs.length := by
  simpa using (ranks_perm xs).length_eq

/-! ## The distance of two lists of ranks -/

section Distance

variable {α : Type} [NatCast α] [Add α] [Sub α] [Mul α]

def squaredGap (a b : Nat) : α :=
  let gap := (a : α) - (b : α)
  gap * gap

/-- The sum of the squared differences of two lists of ranks, added up in the order of the rows. -/
def rankDistance (as bs : List Nat) : α :=
  (as.zip bs).foldl (fun sum pair => sum + squaredGap pair.1 pair.2) ((0 : Nat) : α)

end Distance

end FormulaSearch
