import FormulaSearch.Number.Binary64

/-!
# Tables

A row has a target, four features that formulas refer to, and a spare number. A table is a list of
rows.
-/

namespace FormulaSearch

structure Row where
  target : Binary64
  features : Vector Binary64 4
  spare : Binary64
deriving DecidableEq

/-- The six numbers of a row in the order of their columns. -/
def Row.toList (r : Row) : List Binary64 := r.target :: (r.features.toList ++ [r.spare])

theorem Row.length_toList (r : Row) : r.toList.length = 6 := by simp [Row.toList]

def Row.ofColumns (target a b c d spare : Binary64) : Row := ⟨target, #v[a, b, c, d], spare⟩

def Row.ofList? : List Binary64 → Option Row
  | [target, a, b, c, d, spare] => some (.ofColumns target a b c d spare)
  | _ => none

structure Table where
  rows : List Row
deriving DecidableEq

namespace Table

def size (t : Table) : Nat := t.rows.length

def isEmpty (t : Table) : Bool := t.rows.isEmpty

def targets (t : Table) : List Binary64 := t.rows.map Row.target

@[simp] theorem length_targets (t : Table) : t.targets.length = t.size := by simp [targets, size]

def features? (t : Table) (index : Nat) : Option (Vector Binary64 4) :=
  (t.rows[index]?).map Row.features

end Table

end FormulaSearch
