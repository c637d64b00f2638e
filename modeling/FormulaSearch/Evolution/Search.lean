import FormulaSearch.Evolution.Breeding
import FormulaSearch.Random.Keystream

/-!
# Searches

A search breeds generation after generation until the fittest individual reaches the target or the
limit of generations is met. At the start of each generation the scores of the fittest individual
are recorded.
-/

namespace FormulaSearch

structure SearchResult where
  /-- The fittest individual of the last population. -/
  best : Individual
  bestFitness : Binary64
  generations : Nat
  termination : Termination
  history : List Generation
deriving DecidableEq

namespace Search

open Breeding

variable {σ ρ : Type} [WordSource ρ] (p : Problem σ) (settings : SearchSettings)

/-- Ends a search. The fittest individual of the last population is looked up anew, and its score
tells why the search ends. -/
def finish (history : Array Generation) : Breeding σ ρ SearchResult := do
  let (best, fitness) ← scoring (Scoring.fittest p)
  let termination : Termination :=
    if settings.targetFitness ≤ fitness then .converged else .generationCap
  Trial.note (.searchFinished history.size termination fitness)
  return ⟨best, fitness, history.size, termination, history.toList⟩

def generation (g : Generation) : Breeding σ ρ Unit := do
  Trial.note (.generationStarted g)
  Trial.modify fun s =>
    { s with arena := { s.arena with problem := p.onGeneration g s.arena.problem } }
  succeed (← evolve p settings)

/-- Goes on for at most the given number of generations. -/
def advance : Nat → Array Generation → Breeding σ ρ SearchResult
  | remaining, history => do
    let (best, fitness) ← scoring (Scoring.fittest p)
    if settings.targetFitness ≤ fitness then finish p settings history
    else
      match remaining with
      | 0 => finish p settings history
      | n + 1 => do
        let validation ← scoring (Scoring.ask (p.validation best.genome))
        let g : Generation := ⟨history.size + 1, fitness, validation⟩
        generation p settings g
        advance n (history.push g)

/-- A search from the population on the stage. Room for the history is set aside before the first
generation. -/
def search : Breeding σ ρ SearchResult := do
  Trial.ofExcept (settings.check.mapError .invalidSettings)
  reserve recordWidth settings.generationLimit
  advance p settings settings.generationLimit #[]

def onStage {α : Type} (population : Population) (random : ρ) (t : Breeding σ ρ α) :
    Trial SearchFault σ α := fun problem j =>
  let o := t ⟨⟨population, problem⟩, random⟩ j
  ⟨o.result, o.state.arena.problem, o.journal⟩

def run (random : ρ) : Trial SearchFault σ SearchResult := do
  Trial.ofExcept (settings.check.mapError .invalidSettings)
  reserve recordWidth settings.populationSize
  let (population, random) := Population.draw settings.populationSize random
  onStage population random (search p settings)

/-- A search from a random population with a given genome in its first slot. -/
def transplant (random : ρ) (genome : Genome) : Trial SearchFault σ SearchResult := do
  Trial.ofExcept (settings.check.mapError .invalidSettings)
  Trial.note (.transplanted genome)
  reserve recordWidth settings.populationSize
  let (population, random) :=
    Population.drawAround settings.populationSize (.ofGenome genome) random
  onStage population random (search p settings)

end Search

/-- The source of a search: that of its seed, or of the given one if it has none. -/
def SearchSettings.source (s : SearchSettings) (freshSeed : UInt64) : Keystream :=
  .ofSeed (s.seed.getD freshSeed)

end FormulaSearch
