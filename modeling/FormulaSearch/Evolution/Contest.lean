import FormulaSearch.Evolution.Problem

/-!
# Contests

Individuals are scored when a contest first needs their scores, which are kept from then on. A
contest runs through a list of indices and is won by the last of the fittest.
-/

namespace FormulaSearch

/-- A population in front of a problem. -/
structure Arena (σ : Type) where
  population : Population
  problem : σ

abbrev Scoring (σ : Type) := Trial SearchFault (Arena σ)

namespace Scoring

variable {σ : Type} (p : Problem σ)

def ask {α : Type} (t : Trial Model.Fault σ α) : Scoring σ α :=
  Trial.focus Arena.problem (fun problem a => { a with problem }) .unscored t

/-- The score of the individual at an index. Where it cannot be had, nothing is kept. -/
def score (index : Nat) : Scoring σ Binary64 := do
  let a ← Trial.get
  let i ← Trial.ofExcept (a.population.member index)
  match i.score with
  | some known => return known
  | none => do
    let value ← ask (p.training i.genome)
    Trial.modify fun a => { a with population := a.population.setScore index value }
    return value

/-- Goes on with a contest whose leader and leading score are given. -/
def challenge (best : Nat) (bestScore : Binary64) : List Nat → Scoring σ (Nat × Binary64)
  | [] => return (best, bestScore)
  | index :: rest => do
    let value ← score p index
    if bestScore ≤ value then challenge index value rest else challenge best bestScore rest

/-- The winner of a contest and its score. -/
def contest : List Nat → Scoring σ (Nat × Binary64)
  | [] => Trial.fail .emptyPopulation
  | index :: rest => do
    let value ← score p index
    challenge p index value rest

/-- A copy of the winner, with its score. -/
def winner (indices : List Nat) : Scoring σ (Individual × Binary64) := do
  let (index, value) ← contest p indices
  let a ← Trial.get
  return (← Trial.ofExcept (a.population.member index), value)

def fittestIndex : Scoring σ Nat := do
  let a ← Trial.get
  return (← contest p (List.range a.population.size)).1

def fittest : Scoring σ (Individual × Binary64) := do
  let a ← Trial.get
  winner p (List.range a.population.size)

def scoreEach : List Nat → Scoring σ Unit
  | [] => return
  | index :: rest => do
    let _ ← score p index
    scoreEach rest

def evaluate : Scoring σ Unit := do
  let a ← Trial.get
  scoreEach p (List.range a.population.size)

end Scoring

end FormulaSearch
