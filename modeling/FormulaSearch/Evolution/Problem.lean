import FormulaSearch.Evolution.Population
import FormulaSearch.Model.Scoring

/-!
# Problems

A problem scores genomes, and may keep a state while it does. The training score drives a search;
the validation score is only reported.
-/

namespace FormulaSearch

structure Problem (σ : Type) where
  training : Genome → Trial Model.Fault σ Binary64
  validation : Genome → Trial Model.Fault σ (Option Binary64) := fun _ => pure none
  /-- Hears of every generation before it is bred. -/
  onGeneration : Generation → σ → σ := fun _ s => s

def Model.problem : Problem Model where
  training := Model.calculate .training
  validation := Model.calculateValidation

/-- A problem whose score is a weighted sum of the genes. A genome with the forbidden gene has no
training score. -/
structure WeightedGenes where
  weights : List Binary64
  validationWeights : Option (List Binary64) := none
  forbidden : Option (Nat × UInt8) := none

namespace WeightedGenes

/-- The terms are added from the left. -/
def sum (weights : List Binary64) (g : Genome) : Binary64 :=
  (weights.zip g.toList).foldl (fun total (w, v) => total + w * (v.toNat : Binary64)) 0

def training (p : WeightedGenes) (g : Genome) : Except Model.Fault Binary64 :=
  match p.forbidden with
  | some (index, value) =>
    if g.toList[index]? = some value then .error (.unspellable ⟨index, value⟩)
    else .ok (sum p.weights g)
  | none => .ok (sum p.weights g)

def problem (p : WeightedGenes) : Problem Unit where
  training g := Trial.ofExcept (p.training g)
  validation g := pure (p.validationWeights.map fun weights => sum weights g)

end WeightedGenes

/-- What a search asks of a problem, with the answer, and what it tells it. -/
inductive Event where
  | scored (g : Genome) (answer : Except Model.Fault Binary64)
  | validated (g : Genome) (answer : Except Model.Fault (Option Binary64))
  | generation (g : Generation)

/-- A state with the events so far, the oldest first. -/
structure Observed (σ : Type) where
  state : σ
  events : Array Event := #[]

namespace Observed

variable {σ : Type}

def scorings (o : Observed σ) : Nat :=
  o.events.countP fun
    | .scored _ _ => true
    | _ => false

def generations (o : Observed σ) : List Generation :=
  o.events.toList.filterMap fun
    | .generation g => some g
    | _ => none

end Observed

namespace Problem

variable {σ : Type}

/-- A trial on the state, kept with its result as an event. -/
def recorded {α : Type} (event : Except Model.Fault α → Event) (t : Trial Model.Fault σ α) :
    Trial Model.Fault (Observed σ) α := fun o j =>
  let outcome := t o.state j
  ⟨outcome.result, ⟨outcome.state, o.events.push (event outcome.result)⟩, outcome.journal⟩

def observed (p : Problem σ) : Problem (Observed σ) where
  training g := recorded (.scored g) (p.training g)
  validation g := recorded (.validated g) (p.validation g)
  onGeneration g o :=
    { state := p.onGeneration g o.state, events := o.events.push (.generation g) }

end Problem

end FormulaSearch
