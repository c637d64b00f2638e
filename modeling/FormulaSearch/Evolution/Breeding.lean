import FormulaSearch.Evolution.Capacity
import FormulaSearch.Evolution.Contest

/-!
# Breeding

The next generation has the size of the last one. Its first slot may be taken by a given
individual; every other slot gets a child of two tournament winners. The children are mutated once
all of them are there.
-/

namespace FormulaSearch

/-- A population in front of a problem, beside a source of random words. -/
structure Stage (σ ρ : Type) where
  arena : Arena σ
  random : ρ

abbrev Breeding (σ ρ : Type) := Trial SearchFault (Stage σ ρ)

namespace Breeding

variable {σ ρ α : Type}

def scoring (t : Scoring σ α) : Breeding σ ρ α :=
  Trial.focus Stage.arena (fun arena s => { s with arena }) id t

def drawing (d : Draw ρ α) : Breeding σ ρ α := fun s j =>
  let (a, random) := d s.random
  ⟨.ok a, { s with random }, j⟩

def populationSize : Breeding σ ρ Nat := do
  let s ← Trial.get
  return s.arena.population.size

variable [WordSource ρ] (p : Problem σ) (settings : SearchSettings)

/-- The winner of a contest of individuals drawn with replacement. All are drawn before any is
scored. -/
def tournament (size : Nat) : Breeding σ ρ Individual := do
  let n ← populationSize
  if n = 0 then Trial.fail .emptyPopulation
  else do
    reserve indexWidth size
    let sample ← drawing (Draw.times size (Draw.below n))
    let (winner, _) ← scoring (Scoring.winner p sample)
    return winner

/-- A child of two tournament winners, before mutation. -/
def child : Breeding σ ρ Genome := do
  let first ← tournament p settings.tournamentSize
  let second ← tournament p settings.tournamentSize
  drawing (Genome.crossover settings.crossoverRate first.genome second.genome)

def children : Nat → Breeding σ ρ (List Genome)
  | 0 => return []
  | n + 1 => do
    let g ← child p settings
    let rest ← children n
    return g :: rest

def mutateEach (rate : Binary64) : List Genome → Draw ρ (List Genome)
  | [] => return []
  | g :: rest => do
    let g' ← Genome.mutate rate g
    let rest' ← mutateEach rate rest
    return g' :: rest'

/-- The next generation, with the given individual in its first slot if there is one. -/
def breed (head : Option Individual) : Breeding σ ρ Population := do
  let n ← populationSize
  if n = 0 then Trial.fail .emptyPopulation
  else
    let bred ← children p settings (n - head.toList.length)
    let mutated ← drawing (mutateEach settings.mutationRate bred)
    return .ofList (head.toList ++ mutated.map Individual.ofGenome)

/-- The next generation. With elitism, its first slot has the fittest individual. -/
def evolve : Breeding σ ρ Population := do
  if settings.elitism then
    let (best, _) ← scoring (Scoring.fittest p)
    breed p settings (some best)
  else breed p settings none

/-- The next generation with a seed in its first slot; with elitism the fittest individual goes
before the seed. -/
def evolveWithSeed (seed : Individual) : Breeding σ ρ Population := do
  if settings.elitism then
    let (best, _) ← scoring (Scoring.fittest p)
    breed p settings (some best)
  else breed p settings (some seed)

def succeed (next : Population) : Breeding σ ρ Unit :=
  Trial.modify fun s => { s with arena := { s.arena with population := next } }

end Breeding

end FormulaSearch
