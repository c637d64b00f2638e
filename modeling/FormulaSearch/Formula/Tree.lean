import FormulaSearch.Formula.Operator
import FormulaSearch.Number.Decimal

/-!
# Formulas

A formula is a tree of operators over rational numbers. Its value is exact.
-/

namespace FormulaSearch

inductive Formula where
  | number (value : Rat)
  | binary (op : Operator) (left right : Formula)
deriving DecidableEq

namespace Formula

/-- The value of a formula, or the first fault met when operands are evaluated from the left. -/
def eval : Formula → Except ArithmeticFault Rat
  | number q => .ok q
  | binary op left right => do
    let a ← left.eval
    let b ← right.eval
    op.apply a b

theorem eval_binary_of_ok {op : Operator} {l r : Formula} {a b : Rat} (hl : l.eval = .ok a)
    (hr : r.eval = .ok b) : (binary op l r).eval = op.apply a b := by
  simp [eval, hl, hr, bind, Except.bind]

def operatorCount : Formula → Nat
  | number _ => 0
  | binary _ left right => 1 + left.operatorCount + right.operatorCount

def leaves : Formula → List Rat
  | number q => [q]
  | binary _ left right => left.leaves ++ right.leaves

theorem length_leaves (f : Formula) : f.leaves.length = f.operatorCount + 1 := by
  induction f with
  | number _ => rfl
  | binary op l r hl hr => simp [leaves, operatorCount, hl, hr]; omega

/-- Every application stands in parentheses, its operator between spaces. -/
def text : Formula → String
  | number q => fractionText q
  | binary op left right =>
    "(" ++ left.text ++ " " ++ String.singleton op.symbol ++ " " ++ right.text ++ ")"

end Formula

end FormulaSearch
