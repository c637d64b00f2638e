/-!
# Roles

A model has one table to train on and one to validate with.
-/

namespace FormulaSearch

inductive Role where
  | training
  | validation
deriving DecidableEq, Repr

def Role.name : Role → String
  | training => "training"
  | validation => "validation"

end FormulaSearch
