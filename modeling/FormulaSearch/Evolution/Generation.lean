import FormulaSearch.Number.Binary64

/-!
# Generations

What a search records of each generation, and why it ends.
-/

namespace FormulaSearch

/-- The scores of the fittest individual at the start of a generation; generations are numbered
from one. -/
structure Generation where
  number : Nat
  training : Binary64
  validation : Option Binary64
deriving DecidableEq

inductive Termination where
  /-- The fittest individual reached the target. -/
  | converged
  /-- The limit of generations was met. -/
  | generationCap
deriving DecidableEq, Repr

def Termination.name : Termination → String
  | converged => "Converged"
  | generationCap => "GenerationCap"

end FormulaSearch
