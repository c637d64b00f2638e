import FormulaSearch.Proofs.Evolution.Grading
import FormulaSearch.Proofs.Evolution.Records

/-!
# What a seed is worth

If the score of a genome never changes and elitism keeps the fittest individual, no generation falls
behind a genome of the first population. So a search that is seeded starts at least at the score of
its seed, and it ends at least there.
-/

namespace FormulaSearch

open Trial (Ensures)

variable {σ ρ : Type} {p : Problem σ} {A : σ → Prop} {f : Genome → Except Model.Fault Binary64}
  {settings : SearchSettings} {P next : Population} {v : Binary64}

def NeverNaN (f : Genome → Except Model.Fault Binary64) : Prop :=
  ∀ g w, f g = .ok w → w.isNaN = false

namespace Population.IsGradedBy

variable (h : P.IsGradedBy f)

include h

theorem noNaN (hf : NeverNaN f) : P.NoNaN := by
  intro i w hw
  obtain ⟨ind, hind, hscore⟩ := Option.bind_eq_some_iff.mp hw
  exact hf ind.genome w (h ind (Array.mem_of_getElem? hind) w hscore)

theorem exists_score? (hscored : P.AllScored) {g : Genome} (hg : g ∈ P.genomes) {w : Binary64}
    (hw : f g = .ok w) : ∃ i, P.score? i = some w := by
  obtain ⟨ind, hind, rfl⟩ := Array.mem_map.mp hg
  obtain ⟨i, hi⟩ := Array.getElem?_of_mem hind
  obtain ⟨u, hu⟩ := Option.isSome_iff_exists.mp (hscored i (lt_size_of_getElem? hi))
  rw [score?_of_getElem? hi] at hu
  obtain rfl : w = u := Except.ok.inj (hw.symm.trans (h ind hind u hu))
  exact ⟨i, (score?_of_getElem? hi).trans hu⟩

end Population.IsGradedBy

namespace Search

/-- The known scores are right, and the genome of some member has a score of at least `v`. -/
structure Reaches (A : σ → Prop) (f : Genome → Except Model.Fault Binary64) (v : Binary64)
    (P : Population) (s : σ) : Prop where
  graded : P.IsGradedBy f
  member : ∃ g ∈ P.genomes, ∃ w, f g = .ok w ∧ v ≤ w
  problem : A s

/-- No generation of the result falls behind `v`, and neither does its best individual. -/
def StaysAbove (v : Binary64) (r : SearchResult) : Prop :=
  v ≤ r.bestFitness ∧ ∀ entry ∈ r.history, v ≤ entry.training

theorem Reaches.le_fittest {s : σ} (h : Reaches A f v P s) (hf : NeverNaN f)
    (hv : v.isNaN = false) (hscored : P.AllScored) {best : Individual} {w : Binary64}
    (hbest : P.IsFittest best w) : v ≤ w := by
  obtain ⟨g, hg, u, hu, hle⟩ := h.member
  obtain ⟨i, hi⟩ := h.graded.exists_score? hscored hg hu
  have hnan := h.graded.noNaN hf
  exact Binary64.le_trans hv (hf g u hu) (hnan _ w hbest.score_eq) hle (hbest.le hnan hi)

/-- The fittest individual in front is as good as the population behind it. -/
theorem Reaches.follows {s s' : σ} (h : Reaches A f v P s) (hf : NeverNaN f)
    (hv : v.isNaN = false) (hs' : A s') {P' : Population} {best : Individual} {w : Binary64}
    (hscored : P.AllScored) (hbest : P.IsFittest best w) (hfollows : P'.Follows (some best) next) :
    Reaches A f v next s' := by
  have hright : f best.genome = .ok w :=
    h.graded best (Array.mem_of_getElem? hbest.1) w hbest.2
  have hle := h.le_fittest hf hv hscored hbest
  obtain ⟨bred, rfl, -, -⟩ := hfollows
  constructor
  · apply Population.isGradedBy_bred
    intro i hi
    cases hi
    exact h.graded best (Array.mem_of_getElem? hbest.1)
  · exact ⟨best.genome, by simp [Population.genomes, Population.ofList], w, hright, hle⟩
  · exact hs'

theorem keeps_reaches (hp : p.IsGradedBy A f) (v : Binary64) :
    Scoring.Keeps p (Reaches A f v) fun _ _ => True := by
  intro P i ind hind hnone
  apply Ensures.of_forall
  intro s ⟨hgraded, hmember, hs⟩
  apply ((hp.training ind.genome).at_state hs).weaken (fun _ h => h) _ fun _ _ _ => trivial
  intro w s' ⟨hw, hs'⟩
  refine ⟨hgraded.setScore hind hw, ?_, hs'⟩
  rwa [Population.genomes_setScore]

theorem ensures_scan_reaches (hp : p.IsGradedBy A f) :
    Ensures (fun s : Stage σ ρ => Reaches A f v s.arena.population s.arena.problem)
      (Breeding.scoring (Scoring.fittest p))
      (fun r s => Reaches A f v s.arena.population s.arena.problem ∧
        s.arena.population.AllScored ∧ s.arena.population.IsFittest r.1 r.2)
      fun _ _ => True :=
  Breeding.ensures_fittest (keeps_reaches hp v) fun _ _ _ => .inr fun _ _ => trivial

theorem ensures_finish_staysAbove (hf : NeverNaN f) (hv : v.isNaN = false)
    {history : Array Generation} (hhistory : ∀ entry ∈ history.toList, v ≤ entry.training)
    {best : Individual} {w : Binary64} :
    Ensures (fun s : Stage σ ρ => Reaches A f v s.arena.population s.arena.problem ∧
        s.arena.population.AllScored ∧ s.arena.population.IsFittest best w)
      (finish p settings history) (fun r _ => StaysAbove v r) fun _ _ => True := by
  apply Ensures.of_forall
  intro s ⟨hreaches, hscored, hbest⟩
  apply ((ensures_finish_fittest (E := fun _ _ => True) hscored hbest history).at_state
    rfl).and_post
  rintro _ s' ⟨-, rfl⟩
  exact ⟨hreaches.le_fittest hf hv hscored hbest, hhistory⟩

section

variable [WordSource ρ] (hp : p.IsGradedBy A f) (hf : NeverNaN f) (hv : v.isNaN = false)
  (helitism : settings.elitism = true)

include hf hv helitism

theorem ensures_generation_reaches {s : σ} (h : Reaches A f v P s) (hscored : P.AllScored)
    {entry : Generation} (hgeneration : ∀ s, A s → A (p.onGeneration entry s)) :
    Ensures (fun s : Stage σ ρ => s.arena.population = P ∧ A s.arena.problem)
      (generation p settings entry)
      (fun _ s => Reaches A f v s.arena.population s.arena.problem) fun _ _ => True := by
  refine Ensures.note_bind (Ensures.modify_bind (Ensures.of_forall ?_))
  rintro _ ⟨s, ⟨rfl, hs⟩, rfl⟩
  have hkeeps := Scoring.keeps_of_allScored (p := p) (E := fun _ _ => True) hscored
    (p.onGeneration entry s.arena.problem)
  refine ((Breeding.ensures_evolve hkeeps (P := s.arena.population)
    (.inr fun _ _ => trivial)).at_state ?_).bind fun next => Ensures.modify ?_
  · exact ⟨rfl, rfl, rfl⟩
  rintro s' ⟨⟨-, hpopulation, hproblem⟩, head, hfollows, hhead⟩
  rw [if_pos helitism, hpopulation] at hhead
  obtain ⟨best, w, rfl, -, hbest⟩ := hhead
  apply h.follows hf hv _ hscored hbest hfollows
  rw [hproblem]
  exact hgeneration _ hs

include hp

theorem ensures_advance_staysAbove
    (hvalidation : ∀ g, Ensures A (p.validation g) (fun _ => A) fun _ _ => True)
    (hgeneration : ∀ entry s, A s → A (p.onGeneration entry s)) (remaining : Nat)
    {history : Array Generation} (hhistory : ∀ entry ∈ history.toList, v ≤ entry.training) :
    Ensures (fun s : Stage σ ρ => Reaches A f v s.arena.population s.arena.problem)
      (advance p settings remaining history) (fun r _ => StaysAbove v r) fun _ _ => True := by
  induction remaining generalizing history with
  | zero =>
    refine (ensures_scan_reaches hp).bind fun r => ?_
    split <;> exact ensures_finish_staysAbove hf hv hhistory
  | succ remaining ih =>
    refine (ensures_scan_reaches hp).bind fun r => ?_
    split
    · exact ensures_finish_staysAbove hf hv hhistory
    · apply Ensures.of_forall
      intro s ⟨hreaches, hscored, hbest⟩
      have hask := Breeding.ensures_scoring (ρ := ρ) (Scoring.ensures_ask
        (P := s.arena.population) (E := fun _ _ => True) (hvalidation r.1.genome))
      refine (hask.at_state ⟨rfl, hreaches.problem⟩).bind fun validation => ?_
      refine (ensures_generation_reaches hf hv helitism hreaches hscored
        (hgeneration ⟨history.size + 1, r.2, validation⟩)).bind fun _ => ih ?_
      rw [Array.toList_push]
      refine List.forall_mem_append.mpr ⟨hhistory, ?_⟩
      simpa using hreaches.le_fittest hf hv hscored hbest

theorem ensures_transplant_staysAbove
    (hvalidation : ∀ g, Ensures A (p.validation g) (fun _ => A) fun _ _ => True)
    (hgeneration : ∀ entry s, A s → A (p.onGeneration entry s)) {seed : Genome}
    (hseed : f seed = .ok v) (random : ρ) :
    Ensures A (transplant p settings random seed) (fun r _ => StaysAbove v r)
      fun _ _ => True := by
  refine Ensures.bind (Ensures.ofExcept (fun _ _ _ h => h) fun _ _ _ _ => trivial) fun _ => ?_
  refine Ensures.note_bind ?_
  refine (ensures_reserve (.inr fun _ _ => trivial)).bind fun _ => ensures_onStage ?_
  have hunscored := yields_unscored (settings.populationSize - 1) random
  refine (ensures_search_of_advance (ensures_advance_staysAbove hp hf hv helitism hvalidation
    hgeneration _ (by simp))).of_pre ?_
  intro s ⟨hpopulation, hs⟩
  rw [hpopulation]
  constructor
  · exact Population.isGradedBy_of_unscored
      (score?_ofList_eq_none (List.forall_mem_cons.mpr ⟨rfl, hunscored⟩))
  · exact ⟨seed, by simp [Population.genomes, Population.ofList], v, hseed, Binary64.le_refl hv⟩
  · exact hs

end

end Search

end FormulaSearch
