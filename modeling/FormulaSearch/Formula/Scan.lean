import FormulaSearch.Formula.Tree
import FormulaSearch.Text.Blank
import FormulaSearch.Text.Quoted

/-!
# Reading formulas

A formula is read in one pass with two stacks: the operands built so far, and the operators and
open parentheses that wait for their right side. An operator takes effect once one that binds no
more tightly follows it, or a closing parenthesis, or the end. A closing parenthesis without a
partner closes everything before it.
-/

namespace FormulaSearch

inductive ReadFault where
  | invalidLiteral (text : List Char)
  | unknownOperator (symbol : Char)
  | mismatchedParentheses
  | malformed
deriving DecidableEq

inductive FormulaFault where
  | reading (fault : ReadFault)
  | arithmetic (fault : ArithmeticFault)
deriving DecidableEq

def ReadFault.message : ReadFault → String
  | invalidLiteral text => "invalid numeric literal " ++ Text.quote text
  | unknownOperator symbol => "unknown operator symbol " ++ Text.quoteChar symbol
  | mismatchedParentheses => "mismatched parentheses"
  | malformed => "malformed expression"

def ArithmeticFault.message : ArithmeticFault → String
  | divisionByZero => "division by zero"
  | fractionalExponent => "exponent is not an integer"
  | powerTooLarge => "power result exceeds " ++ toString Exact.powerBudget ++ " bits"

def FormulaFault.message : FormulaFault → String
  | reading fault => fault.message
  | arithmetic fault => fault.message

def readLiteral (cs : List Char) : Except ReadFault Rat :=
  match decimal? cs with
  | some q => .ok q
  | none => .error (.invalidLiteral cs)

theorem readLiteral_eq_error_iff (cs : List Char) (e : ReadFault) :
    readLiteral cs = .error e ↔ decimal? cs = none ∧ e = .invalidLiteral cs := by
  unfold readLiteral
  split <;> simp_all [eq_comm]

/-- What waits for its right side. -/
inductive Pending where
  | opening
  | operator (op : Operator)
deriving DecidableEq

/-- The two stacks, tops first, and whether an operator is expected next. -/
structure Scan where
  operands : List Formula := []
  pending : List Pending := []
  afterOperand : Bool := false

namespace Scan

def reduce (op : Operator) : List Formula → Except ReadFault (List Formula)
  | right :: left :: rest => .ok (.binary op left right :: rest)
  | _ => .error .malformed

/-- Reduces down to the last open parenthesis and removes it, or else reduces everything. -/
def reduceToOpening : List Pending → List Formula → Except ReadFault (List Pending × List Formula)
  | [], operands => .ok ([], operands)
  | .opening :: rest, operands => .ok (rest, operands)
  | .operator op :: rest, operands => do reduceToOpening rest (← reduce op operands)

/-- Reduces the pending operators that bind at least as tightly as `op`. -/
def reduceTighter (op : Operator) :
    List Pending → List Formula → Except ReadFault (List Pending × List Formula)
  | .operator top :: rest, operands =>
    if top.binding < op.binding then .ok (.operator top :: rest, operands)
    else do reduceTighter op rest (← reduce top operands)
  | pending, operands => .ok (pending, operands)

/-- Reduces everything; one operand has to remain. -/
def reduceAll : List Pending → List Formula → Except ReadFault Formula
  | .opening :: _, _ => .error .mismatchedParentheses
  | .operator op :: rest, operands => do reduceAll rest (← reduce op operands)
  | [], [formula] => .ok formula
  | [], _ => .error .malformed

/-- A character after an operand: a closing parenthesis or an operator. -/
def afterOperandStep (s : Scan) (c : Char) : Except ReadFault Scan :=
  if c = ')' then do
    let (pending, operands) ← reduceToOpening s.pending s.operands
    return { s with pending, operands }
  else if c.isDigit || c = '.' then .error .malformed
  else
    match Operator.ofSymbol? c with
    | none => .error (.unknownOperator c)
    | some op => do
      let (pending, operands) ← reduceTighter op s.pending s.operands
      return { pending := .operator op :: pending, operands, afterOperand := false }

def pushLiteral (s : Scan) (cs : List Char) : Except ReadFault Scan := do
  let q ← readLiteral cs
  return { s with operands := .number q :: s.operands, afterOperand := true }

/-- The characters over which a literal extends after its first one. -/
def continuesLiteral (c : Char) : Bool := c.isDigit || c == '.'

/-- Where an operand is expected, any character other than a blank and an open parenthesis starts a
literal. -/
def run (s : Scan) : List Char → Except ReadFault Scan
  | [] => .ok s
  | c :: cs =>
    if Text.isBlank c then run s cs
    else if s.afterOperand then do run (← s.afterOperandStep c) cs
    else if c = '(' then run { s with pending := .opening :: s.pending } cs
    else do
      run (← s.pushLiteral (c :: cs.takeWhile continuesLiteral)) (cs.dropWhile continuesLiteral)
termination_by cs => cs.length
decreasing_by
  all_goals simp only [List.length_cons]
  · exact Nat.lt_succ_self _
  · exact Nat.lt_succ_self _
  · exact Nat.lt_succ_self _
  · exact Nat.lt_succ_of_le (List.dropWhile_sublist _).length_le

end Scan

namespace Formula

def read (cs : List Char) : Except ReadFault Formula := do
  let final ← Scan.run {} cs
  Scan.reduceAll final.pending final.operands

def evaluate (cs : List Char) : Except FormulaFault Rat :=
  match read cs with
  | .error fault => .error (.reading fault)
  | .ok formula => formula.eval.mapError .arithmetic

end Formula

end FormulaSearch
