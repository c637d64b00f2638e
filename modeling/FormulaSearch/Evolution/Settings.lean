import FormulaSearch.Number.Binary64

/-!
# Settings of a search
-/

namespace FormulaSearch

structure SearchSettings where
  populationSize : Nat := 25
  generationLimit : Nat := 300
  tournamentSize : Nat := 5
  /-- The probability that a child takes a gene from its first parent. -/
  crossoverRate : Binary64 := 0.7
  /-- The probability that a gene of a child is drawn anew. -/
  mutationRate : Binary64 := 0.2
  /-- Whether the fittest individual is kept unchanged. -/
  elitism : Bool := true
  /-- The search stops once the fittest individual reaches this score. -/
  targetFitness : Binary64 := 99999999
  seed : Option UInt64 := none
deriving DecidableEq

namespace SearchSettings

inductive Fault where
  | populationTooSmall
  | noGenerations
  | emptyTournament
  | crossoverRateOutOfRange
  | mutationRateOutOfRange
  | targetNotANumber
deriving DecidableEq

def Fault.message : Fault → String
  | populationTooSmall => "population_size must be at least 2"
  | noGenerations => "max_generations must be at least 1"
  | emptyTournament => "tournament_size must be at least 1"
  | crossoverRateOutOfRange => "uniform_rate must be within [0, 1]"
  | mutationRateOutOfRange => "mutation_rate must be within [0, 1]"
  | targetNotANumber => "max_fitness must not be NaN"

/-- A rate moved into the range of probabilities; a NaN stays one. -/
def clampRate (rate : Binary64) : Binary64 :=
  if rate < 0 then 0 else if 1 < rate then 1 else rate

def isRate (rate : Binary64) : Bool := decide (0 ≤ rate) && decide (rate ≤ 1)

def check (s : SearchSettings) : Except Fault Unit :=
  if s.populationSize < 2 then .error .populationTooSmall
  else if s.generationLimit = 0 then .error .noGenerations
  else if s.tournamentSize = 0 then .error .emptyTournament
  else if !isRate s.crossoverRate then .error .crossoverRateOutOfRange
  else if !isRate s.mutationRate then .error .mutationRateOutOfRange
  else if s.targetFitness.isNaN then .error .targetNotANumber
  else .ok ()

theorem check_eq_ok_iff (s : SearchSettings) : s.check = .ok () ↔
    2 ≤ s.populationSize ∧ 1 ≤ s.generationLimit ∧ 1 ≤ s.tournamentSize ∧
      isRate s.crossoverRate = true ∧ isRate s.mutationRate = true ∧
      s.targetFitness.isNaN = false := by
  unfold check
  repeat' split
  all_goals simp_all
  all_goals omega

end SearchSettings

end FormulaSearch
