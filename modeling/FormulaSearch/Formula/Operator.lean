import FormulaSearch.Number.Power

/-!
# Operators

The seven binary operators of formulas, each written with one character.
-/

namespace FormulaSearch

inductive Operator where
  | add | sub | mul | div | max | min | pow
deriving DecidableEq, Repr

namespace Operator

/-- All operators, in the order in which genes number them. -/
def all : List Operator := [add, sub, mul, div, max, min, pow]

theorem mem_all (op : Operator) : op ∈ all := by cases op <;> decide

def symbol : Operator → Char
  | add => '+'
  | sub => '-'
  | mul => '*'
  | div => '/'
  | max => 'm'
  | min => 'n'
  | pow => 'p'

def ofSymbol? (c : Char) : Option Operator := all.find? (·.symbol == c)

theorem ofSymbol?_symbol (op : Operator) : ofSymbol? op.symbol = some op := by
  cases op <;> decide

theorem symbol_of_ofSymbol? {c : Char} {op : Operator} (h : ofSymbol? c = some op) :
    op.symbol = c := by
  have := List.find?_some h
  simpa using this

/-- Operators of a higher binding are applied first, those of equal binding from left to right. -/
def binding : Operator → Nat
  | mul | div => 3
  | pow => 2
  | max | min => 1
  | add | sub => 0

/-- The position of an operator in `all`. -/
def slot (op : Operator) : Nat := all.idxOf op

theorem all_getElem?_slot (op : Operator) : all[op.slot]? = some op := by cases op <;> decide

def apply (op : Operator) (a b : Rat) : Except ArithmeticFault Rat :=
  match op with
  | add => .ok (a + b)
  | sub => .ok (a - b)
  | mul => .ok (a * b)
  | div => Exact.quotient a b
  | max => .ok (if b ≤ a then a else b)
  | min => .ok (if a ≤ b then a else b)
  | pow => Exact.power a b

end Operator

end FormulaSearch
