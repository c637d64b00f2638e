import FormulaSearch.Evolution.Search

/-!
# Searches that keep no scores

The searches of this module work on bare genomes. Whenever two genomes are compared, both are scored
anew. Everything else is done as in a search that keeps the scores it knows.
-/

namespace FormulaSearch

/-- Genomes in front of a problem, beside a source of random words. -/
structure Bare (σ ρ : Type) where
  genomes : Array Genome
  problem : σ
  random : ρ

/-- A computation on genomes without scores. -/
abbrev Uncached (σ ρ : Type) := Trial SearchFault (Bare σ ρ)

namespace Uncached

variable {σ ρ α : Type} (p : Problem σ) (settings : SearchSettings)

def ask (t : Trial Model.Fault σ α) : Uncached σ ρ α :=
  Trial.focus Bare.problem (fun problem s => { s with problem }) .unscored t

def drawing (d : Draw ρ α) : Uncached σ ρ α := fun s j =>
  let (a, random) := d s.random
  ⟨.ok a, { s with random }, j⟩

def size : Uncached σ ρ Nat := do
  let s ← Trial.get
  return s.genomes.size

def genome (index : Nat) : Uncached σ ρ Genome := do
  let s ← Trial.get
  match s.genomes[index]? with
  | some g => return g
  | none => Trial.fail (.noSuchMember index s.genomes.size)

/-- Goes on with a contest whose leader is given. Every comparison scores both genomes. -/
def challenge (best : Genome) : List Nat → Uncached σ ρ Genome
  | [] => return best
  | index :: rest => do
    let g ← genome index
    let leading ← ask (p.training best)
    let value ← ask (p.training g)
    if leading ≤ value then challenge g rest else challenge best rest

def contest : List Nat → Uncached σ ρ Genome
  | [] => Trial.fail .emptyPopulation
  | index :: rest => do
    let g ← genome index
    challenge p g rest

def fittest : Uncached σ ρ Genome := do
  let s ← Trial.get
  contest p (List.range s.genomes.size)

variable [WordSource ρ]

def tournament (contestants : Nat) : Uncached σ ρ Genome := do
  let n ← size
  if n = 0 then Trial.fail .emptyPopulation
  else do
    reserve indexWidth contestants
    let sample ← drawing (Draw.times contestants (Draw.below n))
    contest p sample

def child : Uncached σ ρ Genome := do
  let first ← tournament p settings.tournamentSize
  let second ← tournament p settings.tournamentSize
  drawing (Genome.crossover settings.crossoverRate first second)

def children : Nat → Uncached σ ρ (List Genome)
  | 0 => return []
  | n + 1 => do
    let g ← child p settings
    let rest ← children n
    return g :: rest

def breed (head : Option Genome) : Uncached σ ρ (Array Genome) := do
  let n ← size
  if n = 0 then Trial.fail .emptyPopulation
  else
    let bred ← children p settings (n - head.toList.length)
    let mutated ← drawing (Breeding.mutateEach settings.mutationRate bred)
    return (head.toList ++ mutated).toArray

def evolve : Uncached σ ρ (Array Genome) := do
  if settings.elitism then
    let best ← fittest p
    breed p settings (some best)
  else breed p settings none

def evolveWithSeed (seed : Genome) : Uncached σ ρ (Array Genome) := do
  if settings.elitism then
    let best ← fittest p
    breed p settings (some best)
  else breed p settings (some seed)

def finish (history : Array Generation) : Uncached σ ρ SearchResult := do
  let best ← fittest p
  let fitness ← ask (p.training best)
  let termination : Termination :=
    if settings.targetFitness ≤ fitness then .converged else .generationCap
  return ⟨.ofGenome best, fitness, history.size, termination, history.toList⟩

def generation (g : Generation) : Uncached σ ρ Unit := do
  Trial.modify fun s => { s with problem := p.onGeneration g s.problem }
  let genomes ← evolve p settings
  Trial.modify fun s => { s with genomes }

def advance : Nat → Array Generation → Uncached σ ρ SearchResult
  | remaining, history => do
    let best ← fittest p
    let fitness ← ask (p.training best)
    if settings.targetFitness ≤ fitness then finish p settings history
    else
      match remaining with
      | 0 => finish p settings history
      | n + 1 => do
        let validation ← ask (p.validation best)
        let g : Generation := ⟨history.size + 1, fitness, validation⟩
        generation p settings g
        advance n (history.push g)

def search : Uncached σ ρ SearchResult := do
  Trial.ofExcept (settings.check.mapError .invalidSettings)
  reserve recordWidth settings.generationLimit
  advance p settings settings.generationLimit #[]

end Uncached

end FormulaSearch
