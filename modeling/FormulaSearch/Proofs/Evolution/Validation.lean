import FormulaSearch.Proofs.Evolution.Comparison
import FormulaSearch.Proofs.Evolution.Safety
import FormulaSearch.Proofs.Model.Record
import FormulaSearch.Random.Streams

/-!
# Validation does not influence a search

Two models that train alike may have different tables for validation, or none. Searches of the two
from the same population and the same source take the same course, and train the models in the same
way. Validation is asked for between the scans of the generations, and touches nothing of this.
-/

namespace FormulaSearch

open Trial (Agree Ensures)

def Generation.blind (g : Generation) : Generation := { g with validation := none }

def SearchResult.blind (r : SearchResult) : SearchResult :=
  { r with history := r.history.map Generation.blind }

namespace Model

variable {m₀ m₀' m m' : Model} {role : Role} {g : Genome} {first P : Population}

/-- The models have the same settings, the same training table and the same training record. -/
structure TrainsLike (m m' : Model) : Prop where
  settings : m.settings = m'.settings
  sheet : m.training.sheet = m'.training.sheet
  best : m.training.best = m'.training.best

namespace TrainsLike

variable (h : m.TrainsLike m')

include h

theorem column_eq (g : Genome) : m.column .training g = m'.column .training g :=
  column_congr .training h.settings h.sheet g

theorem coefficient_eq (produced : List Binary64) :
    m.coefficient .training produced = m'.coefficient .training produced :=
  coefficient_congr .training h.settings h.sheet produced

theorem after (g : Genome) (produced : List Binary64) (v : Binary64) :
    (m.setTrack .training (m.training.after g produced v)).TrainsLike
      (m'.setTrack .training (m'.training.after g produced v)) where
  settings := h.settings
  sheet := h.sheet
  best := congrArg (Best.after · g v) h.best

end TrainsLike

/-- The models train alike on renderable genomes. Their training columns are the same, unless their
training is still that of the models `m₀` and `m₀'` that the search of `first` began with. This is
so as long as some score of the population is not known, and beyond only if all were from the
start. -/
structure Paired (first : Population) (m₀ m₀' : Model) (P : Population) (m m' : Model) :
    Prop where
  trains : m.TrainsLike m'
  renderable : ∀ g ∈ P.genomes, g.IsRenderable
  produced : m.training.produced = m'.training.produced ∨
    (m.training = m₀.training ∧ m'.training = m₀'.training) ∧ (P.AllScored → first.AllScored)

/-- What is left of this when a search fails. -/
def Parted (m₀ m₀' m m' : Model) : Prop :=
  m.TrainsLike m' ∧ (m.training.produced = m'.training.produced ∨
    m.training = m₀.training ∧ m'.training = m₀'.training)

theorem Paired.produced_of_allScored (h : Paired first m₀ m₀' P m m') (hscored : P.AllScored) :
    m.training.produced = m'.training.produced ∨
      (m.training = m₀.training ∧ m'.training = m₀'.training) ∧ first.AllScored :=
  h.produced.imp_right fun ⟨hstart, hfirst⟩ => ⟨hstart, hfirst hscored⟩

/-- Only the settings and the training of the models matter. -/
theorem Paired.congr {n n' : Model} (h : Paired first m₀ m₀' P m m')
    (hleft : n.settings = m.settings ∧ n.training = m.training)
    (hright : n'.settings = m'.settings ∧ n'.training = m'.training) :
    Paired first m₀ m₀' P n n' := by
  obtain ⟨⟨hsettings, hsheet, hbest⟩, hrenderable, hproduced⟩ := h
  rw [← hleft.1, ← hright.1] at hsettings
  rw [← hleft.2, ← hright.2] at hsheet hbest hproduced
  exact ⟨⟨hsettings, hsheet, hbest⟩, hrenderable, hproduced⟩

/-- On models that train alike the same is scored, and then they have the same column. -/
theorem agree_problem (first : Population) (m₀ m₀' : Model) :
    Model.problem.Agree Model.problem (Paired first m₀ m₀') (Parted m₀ m₀') where
  training P i ind hind hnone := by
    apply Agree.of_forall
    intro m m' h
    have hleft := ensures_calculate_after m .training ind.genome
    have hright := ensures_calculate_after m' .training ind.genome
    simp only [h.trains.column_eq, h.trains.coefficient_eq] at hleft
    apply (Agree.of_ensures hleft hright ?_ ?_ ?_ ?_).of_pre fun _ _ h => h
    · rintro v _ v' _ ⟨produced, hcolumn, rfl, rfl⟩ ⟨produced', hcolumn', rfl, rfl⟩
      obtain rfl : produced = produced' := Except.ok.inj (hcolumn.symm.trans hcolumn')
      refine ⟨rfl, h.trains.after _ _ _, ?_, .inl rfl⟩
      rw [Population.genomes_setScore]
      exact h.renderable
    · rintro e _ e' _ ⟨hcolumn, rfl⟩ ⟨hcolumn', rfl⟩
      have he : e = e' := Except.error.inj (hcolumn.symm.trans hcolumn')
      exact ⟨he, h.trains, h.produced.imp_right And.left⟩
    · rintro v _ e _ ⟨produced, hcolumn, -⟩ ⟨hcolumn', -⟩
      cases hcolumn.symm.trans hcolumn'
    · rintro e _ v _ ⟨hcolumn, -⟩ ⟨produced, hcolumn', -⟩
      cases hcolumn.symm.trans hcolumn'
  of_fault P m m' h := ⟨h.trains, h.produced.imp_right And.left⟩

/-- Validation never fails on a genome that can be rendered, and leaves the training alone. -/
theorem ensures_calculateValidation_training (m : Model) (hg : g.IsRenderable) :
    Ensures (· = m) (calculateValidation g)
      (fun _ m' => m'.settings = m.settings ∧ m'.training = m.training) fun _ _ => False := by
  apply (ensures_calculateValidation_after m g).weaken (fun _ h => h)
  · intro v m' hm'
    split at hm'
    · obtain ⟨w, produced, -, -, rfl⟩ := hm'
      exact ⟨rfl, rfl⟩
    · rw [hm'.2]
      exact ⟨rfl, rfl⟩
  · rintro e m' ⟨hloaded, hcolumn, -⟩
    obtain ⟨produced, hproduced⟩ := exists_column .validation hloaded hg
    rw [hproduced] at hcolumn
    cases hcolumn

theorem agree_validation (hg : g.IsRenderable) :
    Agree (Paired first m₀ m₀' P) (calculateValidation g) (calculateValidation g)
      (fun _ _ => Paired first m₀ m₀' P) (Parted m₀ m₀') := by
  apply Agree.of_forall
  intro m m' h
  apply (Agree.of_ensures (ensures_calculateValidation_training m hg)
    (ensures_calculateValidation_training m' hg) ?_ ?_ ?_ ?_).of_pre fun _ _ h => h
  · intro _ n _ n' hn hn'
    exact h.congr hn hn'
  · exact fun _ _ _ _ hfalse => hfalse.elim
  · exact fun _ _ _ _ _ => id
  · exact fun _ _ _ _ hfalse => hfalse.elim

end Model

namespace Search

open Breeding
open Model (Paired Parted agree_problem)

variable {ρ : Type} {settings : SearchSettings} {m₀ m₀' : Model} {first : Population}

/-- After a scan all scores are known, and the fittest individual is the one that was found. -/
def Scanned (first : Population) (m₀ m₀' : Model) (r : Individual × Binary64)
    (s s' : Stage Model ρ) : Prop :=
  s.Alike (Paired first m₀ m₀') s' ∧ s.arena.population.AllScored ∧
    s.arena.population.IsFittest r.1 r.2

theorem agree_scan :
    Agree (Stage.Alike (ρ := ρ) (Paired first m₀ m₀')) (scoring (Scoring.fittest Model.problem))
      (scoring (Scoring.fittest Model.problem))
      (fun r r' s s' => r = r' ∧ Scanned first m₀ m₀' r s s') (Failed (Parted m₀ m₀')) := by
  have hagree := agree_scoring_alike (ρ := ρ) (Scoring.agree_fittest (agree_problem first m₀ m₀'))
  apply (hagree.and_ensures ensures_fittest_scored).weaken
  · exact fun _ _ h => ⟨h, trivial⟩
  · rintro r r' s s' ⟨⟨hr, hs⟩, hscored, hbest⟩
    exact ⟨hr, hs, hscored, hbest⟩
  · exact fun _ _ h => h

/-- The searches reported the same, but for the validation scores, and trained in the same way. -/
def Concludes (first : Population) (m₀ m₀' : Model) (r r' : SearchResult)
    (s s' : Stage Model ρ) : Prop :=
  r.blind = r'.blind ∧ s.random = s'.random ∧ s.arena.problem.TrainsLike s'.arena.problem ∧
    (s.arena.problem.training.produced = s'.arena.problem.training.produced ∨
      (s.arena.problem.training = m₀.training ∧ s'.arena.problem.training = m₀'.training) ∧
        first.AllScored)

theorem agree_finish {history history' : Array Generation}
    (hhistory : history.toList.map Generation.blind = history'.toList.map Generation.blind) :
    Agree (Stage.Alike (ρ := ρ) (Paired first m₀ m₀')) (finish Model.problem settings history)
      (finish Model.problem settings history') (Concludes first m₀ m₀')
      (Failed (Parted m₀ m₀')) := by
  refine agree_scan.bind_eq fun r => Agree.note_bind (Agree.pure ?_)
  rintro s s' ⟨⟨⟨-, hpaired⟩, hrandom⟩, hscored, -⟩
  have hsize : history.size = history'.size := by simpa using congrArg List.length hhistory
  refine ⟨?_, hrandom, hpaired.trains, hpaired.produced_of_allScored hscored⟩
  simp only [SearchResult.blind, hsize, hhistory]

variable [WordSource ρ]

/-- Breeding from a population whose scores are all known asks for no score. -/
theorem agree_generation (r : Individual × Binary64) (g g' : Generation) :
    Agree (Scanned (ρ := ρ) first m₀ m₀' r) (generation Model.problem settings g)
      (generation Model.problem settings g') (fun _ _ => Stage.Alike (Paired first m₀ m₀'))
      (Failed (Parted m₀ m₀')) := by
  refine Agree.note_bind ?_
  refine Agree.bind (S := fun _ _ => Scanned first m₀ m₀' r) ?_ fun _ _ => ?_
  · exact Agree.modify fun _ _ h => h
  · apply Agree.of_forall
    intro s s' ⟨hs, hscored, hbest⟩
    have hkeeps := Scoring.keeps_of_allScored (p := Model.problem) (E := fun _ _ => True) hscored
      s.arena.problem
    refine Agree.bind_eq (S := fun next s₁ s₁' =>
      Paired first m₀ m₀' next s₁.arena.problem s₁'.arena.problem ∧ s₁.random = s₁'.random)
      ?_ fun next => Agree.modify ?_
    · have hevolve := (agree_evolve (agree_problem first m₀ m₀') settings).and_ensures
        (ensures_evolve (ρ := ρ) hkeeps (P := s.arena.population) (.inr fun _ _ => trivial))
      apply (hevolve.at_states ⟨hs, rfl, rfl, rfl⟩).and_post
      rintro next next' s₁ s₁' ⟨⟨rfl, ⟨-, hpaired⟩, hrandom⟩, ⟨-, hpopulation, -⟩, head, hfollows,
        hhead⟩
      rw [hpopulation] at hhead hpaired
      refine ⟨rfl, ⟨hpaired.trains, ?_, ?_⟩, hrandom⟩
      · apply hfollows.forall_genomes _ (harmless_model.breeds _ hpaired.renderable)
        intro i hi
        exact hpaired.renderable _ (Population.genome_mem_of_head hhead hi)
      · exact (hpaired.produced_of_allScored hscored).imp_right fun ⟨hstart, hfirst⟩ =>
          ⟨hstart, fun _ => hfirst⟩
    · intro s₁ s₁' ⟨hpaired, hrandom⟩
      exact ⟨⟨rfl, hpaired⟩, hrandom⟩

theorem agree_advance (remaining : Nat) {history history' : Array Generation}
    (hhistory : history.toList.map Generation.blind = history'.toList.map Generation.blind) :
    Agree (Stage.Alike (ρ := ρ) (Paired first m₀ m₀'))
      (advance Model.problem settings remaining history)
      (advance Model.problem settings remaining history') (Concludes first m₀ m₀')
      (Failed (Parted m₀ m₀')) := by
  induction remaining generalizing history history' with
  | zero =>
    refine agree_scan.bind_eq fun r => ?_
    split <;> exact (agree_finish hhistory).of_pre fun _ _ h => h.1
  | succ remaining ih =>
    refine agree_scan.bind_eq fun r => ?_
    split
    · exact (agree_finish hhistory).of_pre fun _ _ h => h.1
    · apply Agree.of_forall
      intro s s' ⟨⟨⟨hpopulation, hpaired⟩, hrandom⟩, hscored, hbest⟩
      have hg := hpaired.renderable _ (Population.genome_mem hbest.1)
      have hvalidation : Agree (Paired first m₀ m₀' s.arena.population)
          (Model.problem.validation r.1.genome) (Model.problem.validation r.1.genome)
          (fun _ _ => Paired first m₀ m₀' s.arena.population) (Parted m₀ m₀') :=
        Model.agree_validation hg
      have hask := agree_scoring (ρ := ρ) (Scoring.agree_ask s.arena.population
        s.arena.population hvalidation)
      refine (hask.at_states ⟨⟨rfl, hpopulation.symm, hpaired⟩, hrandom⟩).bind
        fun validation validation' => ?_
      refine ((agree_generation r _ _).of_pre ?_).bind fun _ _ => ih ?_
      · rintro s₁ s₁' ⟨⟨hleft, hright, hpaired'⟩, hrandom'⟩
        rw [Scanned, Stage.Alike, Arena.Alike, hleft, hright]
        exact ⟨⟨⟨rfl, hpaired'⟩, hrandom'⟩, hscored, hbest⟩
      · have hsize : history.size = history'.size := by simpa using congrArg List.length hhistory
        simp [hhistory, hsize, Generation.blind]

theorem agree_search (settings : SearchSettings) :
    Agree (Stage.Alike (ρ := ρ) (Paired first m₀ m₀')) (search Model.problem settings)
      (search Model.problem settings) (Concludes first m₀ m₀') (Failed (Parted m₀ m₀')) := by
  have hfailed (s s' : Stage Model ρ) (hs : s.Alike (Paired first m₀ m₀') s') :
      Failed (Parted m₀ m₀') s s' := failed_of_alike (agree_problem first m₀ m₀') hs
  refine Agree.bind (S := fun _ _ => Stage.Alike (Paired first m₀ m₀')) ?_ fun _ _ => ?_
  · exact Agree.ofExcept (fun _ _ _ _ hs => hs) hfailed
  · exact (agree_reserve hfailed _ _).bind fun _ _ => agree_advance _ rfl

/-- Two searches took the same course, but for validation. Their models end with the same training
column, unless nothing was scored for training: then each is still trained as it was. -/
structure DifferOnlyInValidation (P : Population) (m m' : Model)
    (o o' : Outcome SearchFault (Stage Model ρ) SearchResult) : Prop where
  result : o.result.map SearchResult.blind = o'.result.map SearchResult.blind
  random : o.state.random = o'.state.random
  trains : o.state.arena.problem.TrainsLike o'.state.arena.problem
  produced : o.state.arena.problem.training.produced = o'.state.arena.problem.training.produced ∨
    o.state.arena.problem.training = m.training ∧ o'.state.arena.problem.training = m'.training
  produced_of_result : ∀ r, o.result = .ok r → ¬ P.AllScored →
    o.state.arena.problem.training.produced = o'.state.arena.problem.training.produced

/-- Searches of two models that train alike take the same course, whatever the models have for
validation. -/
theorem search_ignores_validation {m m' : Model} (h : m.TrainsLike m') {P : Population}
    (hrenderable : ∀ g ∈ P.genomes, g.IsRenderable) (settings : SearchSettings) (random : ρ)
    (j j' : Journal) :
    DifferOnlyInValidation P m m' (search Model.problem settings ⟨⟨P, m⟩, random⟩ j)
      (search Model.problem settings ⟨⟨P, m'⟩, random⟩ j') := by
  have hstart : Stage.Alike (Paired P m m') ⟨⟨P, m⟩, random⟩ ⟨⟨P, m'⟩, random⟩ :=
    ⟨⟨rfl, h, hrenderable, .inr ⟨⟨rfl, rfl⟩, id⟩⟩, rfl⟩
  obtain ⟨r, r', s, s', j₁, j₁', hrun, hrun', hresult, hrandom, htrains, hproduced⟩ |
    ⟨e, s, s', j₁, j₁', hrun, hrun', ⟨htrains, hproduced⟩, hrandom⟩ :=
    (agree_search settings).cases hstart j j'
  · rw [hrun, hrun']
    constructor
    · exact congrArg Except.ok hresult
    · exact hrandom
    · exact htrains
    · exact hproduced.imp_right And.left
    · intro _ _ hP
      exact hproduced.resolve_right fun hscored => hP hscored.2
  · rw [hrun, hrun']
    constructor
    · rfl
    · exact hrandom
    · exact htrains
    · exact hproduced
    · intro r hr
      cases hr

/-- One model has a table to validate with, the other one has none. The histories differ. -/
theorem search_ignores_validation_missing_table :
    let table : Table := ⟨[.ofColumns 1 1 0 0 0 0, .ofColumns 202 2 2 0 0 0,
      .ofColumns 103 3 1 0 0 0]⟩
    let m : Model := { training := { sheet := some (.ofTable table) } }
    let m' : Model := { m with validation := { sheet := some (.ofTable table) } }
    let settings : SearchSettings := { generationLimit := 1, tournamentSize := 1 }
    let P : Population := .ofList [.ofGenome ⟨#v[0, 0, 1, 2, 4, 2, 4, 2, 4, 2, 4, 2, 4, 5, 5]⟩,
      ⟨⟨.replicate 15 0⟩, some 0⟩]
    let words : RepeatedWords := { words := #[] }
    m.TrainsLike m' ∧ (∀ g ∈ P.genomes, g.IsRenderable) ∧
      DifferOnlyInValidation P m m' (search Model.problem settings ⟨⟨P, m⟩, words⟩ #[])
        (search Model.problem settings ⟨⟨P, m'⟩, words⟩ #[]) ∧
      (search Model.problem settings ⟨⟨P, m⟩, words⟩ #[]).result.map SearchResult.history ≠
        (search Model.problem settings ⟨⟨P, m'⟩, words⟩ #[]).result.map SearchResult.history := by
  intro table m m' settings P words
  have htrains : m.TrainsLike m' := ⟨rfl, rfl, rfl⟩
  have hrenderable : ∀ g ∈ P.genomes, g.IsRenderable := by decide +kernel
  refine ⟨htrains, hrenderable, ?_, by decide +kernel⟩
  exact search_ignores_validation htrains hrenderable settings words #[] #[]

/-- One model has scored a genome, in the other one the table was then bound again. A search of an
individual whose score is known and high enough leaves their columns as they are. So does a search
of nobody. -/
theorem columns_stay_apart_unscored :
    let table : Table := ⟨[.ofColumns 1 1 0 0 0 0, .ofColumns 202 2 2 0 0 0,
      .ofColumns 103 3 1 0 0 0]⟩
    let g : Genome := ⟨#v[0, 0, 1, 2, 4, 2, 4, 2, 4, 2, 4, 2, 4, 5, 5]⟩
    let m : Model := { training := {
      sheet := some (.ofTable table), produced := [1, 202, 103], best := ⟨1, some g⟩ } }
    let m' := (Model.load .training table m #[] : Outcome Model.Fault Model Unit).state
    let settings : SearchSettings := { targetFitness := 1 }
    let known : Population := .ofList [⟨g, some 1⟩]
    let words : RepeatedWords := { words := #[] }
    let o (P : Population) := search Model.problem settings ⟨⟨P, m⟩, words⟩ #[]
    let o' (P : Population) := search Model.problem settings ⟨⟨P, m'⟩, words⟩ #[]
    (m.TrainsLike m' ∧ g.IsRenderable ∧ settings.check = .ok ()) ∧
      (o known).result.map SearchResult.generations = .ok 0 ∧
      ∀ P ∈ [known, .ofList []],
        (o P).state.arena.problem.training.produced = [1, 202, 103] ∧
          (o' P).state.arena.problem.training.produced = [] := by
  intro table g m m' settings known words o o'
  have htrains : m.TrainsLike m' := ⟨rfl, rfl, rfl⟩
  have hcolumns : ∀ P ∈ [known, .ofList []],
      (o P).state.arena.problem.training.produced = [1, 202, 103] ∧
        (o' P).state.arena.problem.training.produced = [] := by decide +kernel
  exact ⟨⟨htrains, by decide +kernel, by decide +kernel⟩, by decide +kernel, hcolumns⟩

end Search

end FormulaSearch
