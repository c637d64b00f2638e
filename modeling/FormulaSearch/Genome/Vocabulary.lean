import FormulaSearch.Formula.Operator
import FormulaSearch.Genome.Basic

/-!
# What genes name

An operand is one of the four features of a row or one of four literals. The genes at odd positions
below twelve name operators. No operator is named between the last three operands, so their texts
run together.
-/

namespace FormulaSearch

inductive Literal where
  | one | zero | third | twoThirds
deriving DecidableEq, Repr

def Literal.text : Literal → List Char
  | one => ['1']
  | zero => ['0']
  | third => ['0', '.', '3', '3', '3']
  | twoThirds => ['0', '.', '6', '6', '6']

inductive Piece where
  | feature (index : Fin 4)
  | literal (value : Literal)
  | operator (op : Operator)
deriving DecidableEq

namespace Piece

/-- The operands, in the order in which genes number them. -/
def operands : List Piece :=
  [.feature 0, .feature 1, .feature 2, .feature 3,
    .literal .one, .literal .zero, .literal .third, .literal .twoThirds]

def text (features : Vector (List Char) 4) : Piece → List Char
  | feature i => features[i]
  | literal l => l.text
  | operator op => [op.symbol]

end Piece

/-- A gene without an entry in the vocabulary of its position. -/
structure OutOfVocabulary where
  index : Nat
  value : UInt8
deriving DecidableEq

def OutOfVocabulary.message (e : OutOfVocabulary) : String :=
  "gene " ++ toString e.index ++ " has value " ++ toString e.value.toNat ++
    ", outside its vocabulary"

namespace Genome

/-- The position of the first of the three operands at the end. -/
def tailStart : Nat := 12

def vocabulary (index : Nat) : List Piece :=
  if index % 2 = 1 && index < tailStart then Operator.all.map .operator else Piece.operands

def pieceAt (index : Nat) (value : UInt8) : Except OutOfVocabulary Piece :=
  match (vocabulary index)[value.toNat]? with
  | some piece => .ok piece
  | none => .error ⟨index, value⟩

/-- What the genes of a genome name, or the first that names nothing. -/
def pieces (g : Genome) : Except OutOfVocabulary (List Piece) :=
  g.toList.zipIdx.mapM fun (value, index) => pieceAt index value

def spell (features : Vector (List Char) 4) (g : Genome) : Except OutOfVocabulary (List Char) := do
  return (← g.pieces).flatMap (Piece.text features)

/-- The text of a genome with the letters `a` to `d` for the features. -/
def describe (g : Genome) : Except OutOfVocabulary (List Char) :=
  g.spell #v[['a'], ['b'], ['c'], ['d']]

end Genome

end FormulaSearch
