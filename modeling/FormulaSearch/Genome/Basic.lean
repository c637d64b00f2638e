/-!
# Genomes

A genome is fifteen bytes. Those at even positions name operands and those at odd positions name
operators, up to the three at the end, which all name operands.
-/

namespace FormulaSearch

structure Genome where
  genes : Vector UInt8 15
deriving DecidableEq

namespace Genome

/-- Genes are drawn below this value. -/
def drawnBelow : Nat := 7

/-- Why a list of bytes, or a change to one, makes no genome. -/
inductive Fault where
  | wrongLength (length : Nat)
  | noSuchGene (index : Nat)
deriving DecidableEq

def Fault.message : Fault → String
  | wrongLength length => "gene sequence has length " ++ toString length ++ ", expected 15"
  | noSuchGene index => "gene index " ++ toString index ++ " out of bounds"

def zero : Genome := ⟨.replicate 15 0⟩

def toList (g : Genome) : List UInt8 := g.genes.toList

@[simp] theorem length_toList (g : Genome) : g.toList.length = 15 := by simp [toList]

theorem ext_toList {g h : Genome} (e : g.toList = h.toList) : g = h := by
  cases g; cases h
  simpa [toList, Vector.toList_inj] using e

def ofList (values : List UInt8) : Except Fault Genome :=
  if h : values.length = 15 then .ok ⟨⟨values.toArray, by simp [h]⟩⟩
  else .error (.wrongLength values.length)

theorem ofList_toList (g : Genome) : ofList g.toList = .ok g := by
  simp only [ofList, length_toList, ↓reduceDIte, Except.ok.injEq]
  apply ext_toList
  simp [toList]

def withGene (g : Genome) (index : Nat) (value : UInt8) : Except Fault Genome :=
  if h : index < 15 then .ok ⟨g.genes.set index value⟩ else .error (.noSuchGene index)

/-- The largest value that clamping leaves at a position. It is one more than the vocabulary of
most positions holds, so a clamped genome may still name nothing. -/
def clampLimit (index : Nat) : UInt8 := if index % 2 = 0 then 8 else 7

/-- Genes above the limit of their position become zero. -/
def clamped (g : Genome) : Genome :=
  ⟨g.genes.mapIdx fun i v => if clampLimit i < v then 0 else v⟩

theorem clamped_clamped (g : Genome) : g.clamped.clamped = g.clamped := by
  simp only [clamped, mk.injEq]
  ext i hi
  simp only [Vector.getElem_mapIdx]
  split <;> simp

def text (g : Genome) : String :=
  "[" ++ ", ".intercalate (g.toList.map fun v => toString v.toNat) ++ "]"

end Genome

end FormulaSearch
