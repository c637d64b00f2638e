import FormulaSearch.Evolution.Search
import FormulaSearch.Proofs.Trial

/-!
# Watching a search

A search uses its problem only through its scores. So it runs in the same way in front of a problem
that holds more in its state, and watching a problem does not change a search.
-/

namespace FormulaSearch

open Trial (Forgets)

variable {σ τ ρ α : Type} {keep : τ → σ}

def Arena.map (keep : τ → σ) (a : Arena τ) : Arena σ := ⟨a.population, keep a.problem⟩

def Stage.map (keep : τ → σ) (s : Stage τ ρ) : Stage σ ρ := ⟨s.arena.map keep, s.random⟩

/-- The second problem scores like the first one, on what `keep` leaves of the state. -/
structure Problem.Forgets (keep : τ → σ) (p : Problem τ) (p' : Problem σ) : Prop where
  training : ∀ g, Trial.Forgets keep (p.training g) (p'.training g)
  validation : ∀ g, Trial.Forgets keep (p.validation g) (p'.validation g)
  onGeneration : ∀ g s, keep (p.onGeneration g s) = p'.onGeneration g (keep s)

theorem Problem.forgets_observed (p : Problem σ) : p.observed.Forgets Observed.state p where
  training _ _ _ := rfl
  validation _ _ _ := rfl
  onGeneration _ _ := rfl

variable {p : Problem τ} {p' : Problem σ} {settings : SearchSettings}

namespace Scoring

theorem forgets_ask {t : Trial Model.Fault τ α} {t' : Trial Model.Fault σ α}
    (h : Forgets keep t t') : Forgets (Arena.map keep) (ask t) (ask t') :=
  h.focus (fun _ => rfl) fun _ _ => rfl

variable (h : p.Forgets keep p')

include h

theorem forgets_score (index : Nat) :
    Forgets (Arena.map keep) (score p index) (score p' index) := by
  refine Forgets.get_bind fun a => Forgets.bind (Forgets.ofExcept _) fun i => ?_
  split
  · exact Forgets.pure _
  · refine (forgets_ask (h.training i.genome)).bind fun v => Forgets.bind ?_ fun _ => ?_
    · exact Forgets.modify fun _ => rfl
    · exact Forgets.pure v

theorem forgets_challenge (best : Nat) (bestScore : Binary64) (indices : List Nat) :
    Forgets (Arena.map keep) (challenge p best bestScore indices)
      (challenge p' best bestScore indices) := by
  induction indices generalizing best bestScore with
  | nil => exact Forgets.pure _
  | cons index rest ih =>
    refine (forgets_score h index).bind fun v => ?_
    split
    · exact ih index v
    · exact ih best bestScore

theorem forgets_contest (indices : List Nat) :
    Forgets (Arena.map keep) (contest p indices) (contest p' indices) := by
  cases indices with
  | nil => exact Forgets.fail _
  | cons index rest =>
    exact (forgets_score h index).bind fun v => forgets_challenge h index v rest

theorem forgets_winner (indices : List Nat) :
    Forgets (Arena.map keep) (winner p indices) (winner p' indices) := by
  refine (forgets_contest h indices).bind fun r => Forgets.get_bind fun a => ?_
  exact (Forgets.ofExcept _).bind fun i => Forgets.pure _

theorem forgets_fittest : Forgets (Arena.map keep) (fittest p) (fittest p') :=
  Forgets.get_bind fun a => forgets_winner h (List.range a.population.size)

end Scoring

namespace Breeding

theorem forgets_scoring {t : Scoring τ α} {t' : Scoring σ α} (h : Forgets (Arena.map keep) t t') :
    Forgets (Stage.map (ρ := ρ) keep) (scoring t) (scoring t') :=
  h.focus (fun _ => rfl) fun _ _ => rfl

theorem forgets_drawing (d : Draw ρ α) :
    Forgets (Stage.map keep) (drawing d) (drawing d : Breeding σ ρ α) := fun _ _ => rfl

theorem forgets_populationSize :
    Forgets (Stage.map (ρ := ρ) keep) populationSize populationSize :=
  Forgets.get_bind fun _ => Forgets.pure _

theorem forgets_reserve (width count : Nat) :
    Forgets keep (reserve width count) (reserve width count) := by
  by_cases hroom : HasRoom width count
  · rw [reserve_of_hasRoom hroom, reserve_of_hasRoom hroom]
    exact Forgets.pure _
  · rw [reserve_of_not_hasRoom hroom, reserve_of_not_hasRoom hroom]
    exact Forgets.fail _

theorem forgets_succeed (next : Population) :
    Forgets (Stage.map (ρ := ρ) keep) (succeed next) (succeed next) :=
  Forgets.modify fun _ => rfl

variable [WordSource ρ] (h : p.Forgets keep p')

include h

theorem forgets_tournament (size : Nat) :
    Forgets (Stage.map (ρ := ρ) keep) (tournament p size) (tournament p' size) := by
  refine forgets_populationSize.bind fun n => ?_
  split
  · exact Forgets.fail _
  · refine (forgets_reserve _ _).bind fun _ => (forgets_drawing _).bind fun sample => ?_
    exact (forgets_scoring (Scoring.forgets_winner h sample)).bind fun r => Forgets.pure _

theorem forgets_child :
    Forgets (Stage.map (ρ := ρ) keep) (child p settings) (child p' settings) :=
  (forgets_tournament h _).bind fun _ => (forgets_tournament h _).bind fun _ => forgets_drawing _

theorem forgets_children (n : Nat) :
    Forgets (Stage.map (ρ := ρ) keep) (children p settings n) (children p' settings n) := by
  induction n with
  | zero => exact Forgets.pure _
  | succ n ih => exact (forgets_child h).bind fun g => ih.bind fun rest => Forgets.pure _

theorem forgets_breed (head : Option Individual) :
    Forgets (Stage.map (ρ := ρ) keep) (breed p settings head) (breed p' settings head) := by
  refine forgets_populationSize.bind fun n => ?_
  split
  · exact Forgets.fail _
  · refine (forgets_children h _).bind fun bred => ?_
    exact (forgets_drawing _).bind fun mutated => Forgets.pure _

theorem forgets_evolve :
    Forgets (Stage.map (ρ := ρ) keep) (evolve p settings) (evolve p' settings) := by
  unfold evolve
  split
  · exact (forgets_scoring (Scoring.forgets_fittest h)).bind fun r => forgets_breed h _
  · exact forgets_breed h none

end Breeding

namespace Search

open Breeding

variable (h : p.Forgets keep p')

include h

theorem forgets_finish (history : Array Generation) :
    Forgets (Stage.map (ρ := ρ) keep) (finish p settings history) (finish p' settings history) :=
  (forgets_scoring (Scoring.forgets_fittest h)).bind fun _ =>
    (Forgets.note _).bind fun _ => Forgets.pure _

variable [WordSource ρ]

theorem forgets_generation (g : Generation) :
    Forgets (Stage.map (ρ := ρ) keep) (generation p settings g) (generation p' settings g) := by
  refine (Forgets.note _).bind fun _ => (Forgets.modify fun s => ?_).bind fun _ => ?_
  · simp only [Stage.map, Arena.map, h.onGeneration]
  · exact (forgets_evolve h).bind fun next => forgets_succeed next

theorem forgets_advance (remaining : Nat) (history : Array Generation) :
    Forgets (Stage.map (ρ := ρ) keep) (advance p settings remaining history)
      (advance p' settings remaining history) := by
  induction remaining generalizing history with
  | zero =>
    refine (forgets_scoring (Scoring.forgets_fittest h)).bind fun r => ?_
    split <;> exact forgets_finish h history
  | succ remaining ih =>
    refine (forgets_scoring (Scoring.forgets_fittest h)).bind fun r => ?_
    split
    · exact forgets_finish h history
    · have hask := Scoring.forgets_ask (h.validation r.1.genome)
      refine (forgets_scoring hask).bind fun validation => ?_
      exact (forgets_generation h _).bind fun _ => ih _

theorem forgets_search :
    Forgets (Stage.map (ρ := ρ) keep) (search p settings) (search p' settings) :=
  (Forgets.ofExcept _).bind fun _ => (forgets_reserve _ _).bind fun _ => forgets_advance h _ _

end Search

end FormulaSearch
