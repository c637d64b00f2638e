import FormulaSearch.Proofs.Evolution.History
import FormulaSearch.Proofs.Evolution.Safety
import FormulaSearch.Proofs.Model.Record
import FormulaSearch.Random.Streams

/-!
# Searches and the records of their model

A model records the scores that it returns, and a search looks for the fittest individual of each
population. The two agree: every individual that is scored belongs to a population that is scanned
as a whole, so its score is at most that of the fittest one there. With elitism this one is kept.
-/

namespace FormulaSearch

open Trial (Ensures)
open Model (IsRecord)

/-- The value is the greatest of a list, up to the sign of a zero. -/
def Binary64.IsMaximum (values : List Binary64) (x : Binary64) : Prop :=
  (∃ y ∈ values, x ≤ y) ∧ ∀ y ∈ values, y ≤ x

namespace Model.IsRecord

variable {scores : List (Genome × Binary64)} {b : Best}

theorem eq_of_nil (h : IsRecord [] b) : b = ⟨.negInfinity, none⟩ := by
  generalize hscores : [] = scores at h
  cases h with
  | empty => rfl
  | first => simp at hscores

theorem exists_eq (h : IsRecord scores b) (hne : scores ≠ []) : ∃ s ∈ scores, s.2 = b.value := by
  cases h with
  | empty => exact absurd rfl hne
  | @first earlier later g v => exact ⟨(g, v), by simp, rfl⟩

theorem isMaximum (h : IsRecord scores b) (hfinite : ∀ s ∈ scores, s.2.isFinite = true)
    (hne : scores ≠ []) : Binary64.IsMaximum (scores.map Prod.snd) b.value := by
  obtain ⟨s, hs, heq⟩ := h.exists_eq hne
  constructor
  · refine ⟨s.2, List.mem_map_of_mem hs, ?_⟩
    rw [← heq]
    exact Binary64.le_refl (Binary64.isNaN_of_isFinite (hfinite s hs))
  · intro y hy
    obtain ⟨s', hs', rfl⟩ := List.mem_map.mp hy
    exact h.le hfinite s' hs'

end Model.IsRecord

namespace Search

variable {ρ : Type} {settings : SearchSettings} {history : List Generation}
  {P next : Population} {b : Best} {scores : List (Genome × Binary64)}

/-! ## Training -/

/-- The score of a member or, without elitism, of an earlier generation. -/
def Counts (settings : SearchSettings) (history : List Generation) (P : Population)
    (v : Binary64) : Prop :=
  (∃ i, P.score? i = some v) ∨ settings.elitism = false ∧ ∃ entry ∈ history, entry.training = v

/-- All scores for training: the known ones are among them, and none is above all that count. -/
structure Tallied (settings : SearchSettings) (history : List Generation) (P : Population)
    (b : Best) (scores : List (Genome × Binary64)) : Prop where
  record : IsRecord scores b
  finite : ∀ s ∈ scores, s.2.isFinite = true
  known : ∀ i v, P.score? i = some v → ∃ g, (g, v) ∈ scores
  listed : ∀ entry ∈ history, ∃ g, (g, entry.training) ∈ scores
  covered : ∀ s ∈ scores, ∃ v, Counts settings history P v ∧ s.2 ≤ v

namespace Tallied

theorem start (hnone : ∀ i, P.score? i = none) : Tallied settings [] P {} [] where
  record := .empty
  finite := by simp
  known i v hv := by simp [hnone i] at hv
  listed := by simp
  covered := by simp

variable (h : Tallied settings history P b scores)

include h

theorem isNaN_eq_false {g : Genome} {v : Binary64} (hv : (g, v) ∈ scores) : v.isNaN = false :=
  Binary64.isNaN_of_isFinite (h.finite (g, v) hv)

theorem noNaN : P.NoNaN := by
  intro i v hv
  obtain ⟨g, hg⟩ := h.known i v hv
  exact h.isNaN_eq_false hg

theorem le_record {g : Genome} {v : Binary64} (hv : (g, v) ∈ scores) : v ≤ b.value :=
  h.record.le h.finite (g, v) hv

theorem setScore {i : Nat} {ind : Individual} (hind : P.members[i]? = some ind)
    (hnone : ind.score = none) {v : Binary64} (hv : v.isFinite = true) :
    Tallied settings history (P.setScore i v) (b.after ind.genome v)
      (scores ++ [(ind.genome, v)]) where
  record := h.record.after h.finite hv ind.genome
  finite := List.forall_mem_append.mpr ⟨h.finite, by simpa using hv⟩
  known k w hw := by
    rw [Population.score?_setScore (Population.lt_size_of_getElem? hind)] at hw
    split at hw
    · cases hw
      exact ⟨ind.genome, by simp⟩
    · obtain ⟨g, hg⟩ := h.known k w hw
      exact ⟨g, List.mem_append_left _ hg⟩
  listed entry hentry := by
    obtain ⟨g, hg⟩ := h.listed entry hentry
    exact ⟨g, List.mem_append_left _ hg⟩
  covered s hs := by
    have hi := Population.lt_size_of_getElem? hind
    have hfills := Population.fills_setScore hi
      ((Population.score?_of_getElem? hind).trans hnone) v
    rcases List.mem_append.mp hs with hs | hs
    · obtain ⟨w, hw, hle⟩ := h.covered s hs
      exact ⟨w, hw.imp_left fun ⟨k, hk⟩ => ⟨k, hfills.score_eq k w hk⟩, hle⟩
    · obtain rfl := List.mem_singleton.mp hs
      refine ⟨v, .inl ⟨i, ?_⟩, Binary64.le_refl (Binary64.isNaN_of_isFinite hv)⟩
      rw [Population.score?_setScore hi, if_pos rfl]

/-- No score is above that of the fittest individual and, without elitism, those of the earlier
generations. -/
theorem le_fittest {best : Individual} {v : Binary64} (hbest : P.IsFittest best v)
    {s : Genome × Binary64} (hs : s ∈ scores) :
    s.2 ≤ v ∨ settings.elitism = false ∧ ∃ entry ∈ history, s.2 ≤ entry.training := by
  obtain ⟨w, ⟨i, hi⟩ | ⟨helitism, entry, hentry, rfl⟩, hle⟩ := h.covered s hs
  · obtain ⟨g, hg⟩ := h.known i w hi
    obtain ⟨g', hg'⟩ := h.known _ v hbest.score_eq
    exact .inl (Binary64.le_trans (h.isNaN_eq_false hs) (h.isNaN_eq_false hg)
      (h.isNaN_eq_false hg') hle (hbest.le h.noNaN hi))
  · exact .inr ⟨helitism, entry, hentry, hle⟩

/-- With elitism the fittest individual carries its score into the next generation, and without it
the history does. -/
theorem follows {best : Individual} {v : Binary64} (hbest : P.IsFittest best v) (number : Nat)
    (validation : Option Binary64) {P' : Population} {head : Option Individual}
    (hfollows : P'.Follows head next)
    (hhead : if settings.elitism then ∃ best v, head = some best ∧ P.AllScored ∧
      P.IsFittest best v else head = none) :
    Tallied settings (history ++ [⟨number, v, validation⟩]) next b scores where
  record := h.record
  finite := h.finite
  known i w hw := by
    obtain ⟨ind, hhead', hscore⟩ := hfollows.exists_head hw
    split at hhead
    · obtain ⟨best', v', rfl, -, hbest'⟩ := hhead
      cases hhead'
      exact h.known _ w ((Population.score?_of_getElem? hbest'.1).trans hscore)
    · rw [hhead] at hhead'
      cases hhead'
  listed entry hentry := by
    rcases List.mem_append.mp hentry with hentry | hentry
    · exact h.listed entry hentry
    · obtain rfl := List.mem_singleton.mp hentry
      exact h.known _ v hbest.score_eq
  covered s hs := by
    rcases h.le_fittest hbest hs with hle | ⟨helitism, entry, hentry, hle⟩
    · refine ⟨v, ?_, hle⟩
      by_cases helitism : settings.elitism = true
      · rw [if_pos helitism] at hhead
        obtain ⟨best', v', rfl, -, hbest'⟩ := hhead
        obtain ⟨-, rfl⟩ := hbest.eq hbest'
        exact .inl ⟨0, hfollows.score?_zero.trans hbest'.2⟩
      · exact .inr ⟨by simpa using helitism, ⟨number, v, validation⟩, by simp, rfl⟩
    · exact ⟨_, .inr ⟨helitism, entry, List.mem_append_left _ hentry, rfl⟩, hle⟩

end Tallied

/-! ## Validation -/

/-- All scores for validation: one for each generation, or none at all if there is no data. -/
structure Validated (loaded : Bool) (history : List Generation) (m : Model)
    (scores : List (Genome × Binary64)) : Prop where
  isLoaded : m.validation.isLoaded = loaded
  record : IsRecord scores m.validation.best
  finite : ∀ s ∈ scores, s.2.isFinite = true
  of_loaded : loaded = true → history.map Generation.validation = scores.map fun s => some s.2
  of_unloaded : loaded = false → scores = [] ∧ ∀ entry ∈ history, entry.validation = none

theorem Validated.start {m : Model} (hbest : m.validation.best = {}) :
    Validated m.validation.isLoaded [] m [] where
  isLoaded := rfl
  record := hbest ▸ .empty
  finite := by simp
  of_loaded := by simp
  of_unloaded := by simp

theorem ensures_validation_validated {loaded : Bool} {m : Model}
    (h : Validated loaded history m scores) (g : Genome) (number : Nat) (training : Binary64) :
    Ensures (· = m) (Model.calculateValidation g)
      (fun v m' => m'.training = m.training ∧
        ∃ scores, Validated loaded (history ++ [⟨number, training, v⟩]) m' scores)
      fun _ _ => True := by
  apply (Model.ensures_calculateValidation_after m g).weaken (fun _ h => h) _ fun _ _ _ => trivial
  intro v m' hm'
  split at hm'
  · next hloaded =>
    obtain ⟨w, produced, rfl, hw, rfl⟩ := hm'
    refine ⟨rfl, scores ++ [(g, w)], ?_⟩
    constructor
    case isLoaded => exact h.isLoaded
    case record => exact h.record.after h.finite hw g
    case finite => exact List.forall_mem_append.mpr ⟨h.finite, by simpa using hw⟩
    case of_loaded =>
      intro hl
      simp [h.of_loaded hl]
    case of_unloaded =>
      intro hl
      rw [h.isLoaded, hl] at hloaded
      cases hloaded
  · next hunloaded =>
    obtain ⟨rfl, rfl⟩ := hm'
    have hloaded : loaded = false := by simpa [h.isLoaded] using hunloaded
    obtain ⟨hscores, hnone⟩ := h.of_unloaded hloaded
    refine ⟨rfl, scores, ?_⟩
    constructor
    case isLoaded => exact h.isLoaded
    case record => exact h.record
    case finite => exact h.finite
    case of_loaded =>
      intro hl
      rw [hloaded] at hl
      cases hl
    case of_unloaded =>
      intro _
      exact ⟨hscores, List.forall_mem_append.mpr ⟨hnone, by simp⟩⟩

/-! ## Runs -/

def Matches (settings : SearchSettings) (loaded : Bool) (history : List Generation)
    (P : Population) (m : Model) : Prop :=
  (∃ scores, Tallied settings history P m.training.best scores) ∧
    ∃ scores, Validated loaded history m scores

structure RecordsAgree (settings : SearchSettings) (loaded : Bool) (r : SearchResult) (m : Model) :
    Prop where
  training : Binary64.IsMaximum (r.bestFitness :: r.history.map Generation.training)
    m.training.best.value
  elitist : settings.elitism = true →
    m.training.best.value ≤ r.bestFitness ∧ r.bestFitness ≤ m.training.best.value
  validated : loaded = true → r.history ≠ [] →
    ∃ values, r.history.map Generation.validation = values.map some ∧
      Binary64.IsMaximum values m.validation.best.value
  not_validated : loaded = true → r.history = [] → m.validation.best = ⟨.negInfinity, none⟩
  unloaded : loaded = false →
    (∀ entry ∈ r.history, entry.validation = none) ∧ m.validation.best = ⟨.negInfinity, none⟩

theorem Matches.recordsAgree {loaded : Bool} {m : Model} {best : Individual} {v : Binary64}
    (h : Matches settings loaded history P m) (hbest : P.IsFittest best v) (generations : Nat)
    (termination : Termination) :
    RecordsAgree settings loaded ⟨best, v, generations, termination, history⟩ m := by
  obtain ⟨⟨scores, htallied⟩, validations, hvalidated⟩ := h
  obtain ⟨g, hg⟩ := htallied.known _ v hbest.score_eq
  obtain ⟨top, htop, heq⟩ := htallied.record.exists_eq (List.ne_nil_of_mem hg)
  have hle := htallied.le_fittest hbest htop
  rw [heq] at hle
  constructor
  case training =>
    constructor
    · rcases hle with hle | ⟨-, entry, hentry, hle⟩
      · exact ⟨v, by simp, hle⟩
      · exact ⟨entry.training, List.mem_cons_of_mem _ (List.mem_map_of_mem hentry), hle⟩
    · intro y hy
      rcases List.mem_cons.mp hy with rfl | hy
      · exact htallied.le_record hg
      · obtain ⟨entry, hentry, rfl⟩ := List.mem_map.mp hy
        obtain ⟨g', hg'⟩ := htallied.listed entry hentry
        exact htallied.le_record hg'
  case elitist =>
    intro helitism
    refine ⟨?_, htallied.le_record hg⟩
    exact hle.resolve_right fun ⟨hnot, _⟩ => by simp [helitism] at hnot
  case validated =>
    intro hloaded hne
    have hlisted := hvalidated.of_loaded hloaded
    refine ⟨validations.map Prod.snd, by rw [hlisted, List.map_map]; rfl, ?_⟩
    apply hvalidated.record.isMaximum hvalidated.finite
    rintro rfl
    exact hne (List.map_eq_nil_iff.mp hlisted)
  case not_validated =>
    rintro hloaded rfl
    obtain rfl : validations = [] := by simpa using (hvalidated.of_loaded hloaded).symm
    exact hvalidated.record.eq_of_nil
  case unloaded =>
    intro hunloaded
    obtain ⟨rfl, hnone⟩ := hvalidated.of_unloaded hunloaded
    exact ⟨hnone, hvalidated.record.eq_of_nil⟩

theorem keeps_matches (settings : SearchSettings) (loaded : Bool) (history : List Generation) :
    Scoring.Keeps Model.problem (Matches settings loaded history) fun _ _ => True := by
  intro P i ind hind hnone
  apply Ensures.of_forall
  rintro m ⟨⟨scores, htallied⟩, validations, hvalidated⟩
  apply (Model.ensures_calculate_after m .training ind.genome).weaken (fun _ h => h) _
    fun _ _ _ => trivial
  rintro v _ ⟨produced, -, rfl, rfl⟩
  have hfinite := Model.isFinite_coefficient m .training produced
  exact ⟨⟨_, htallied.setScore hind hnone hfinite⟩, validations, hvalidated.isLoaded,
    hvalidated.record, hvalidated.finite, hvalidated.of_loaded, hvalidated.of_unloaded⟩

theorem ensures_scan_matches {loaded : Bool} :
    Ensures (fun s : Stage Model ρ =>
        Matches settings loaded history s.arena.population s.arena.problem)
      (Breeding.scoring (Scoring.fittest Model.problem))
      (fun r s => Matches settings loaded history s.arena.population s.arena.problem ∧
        s.arena.population.AllScored ∧ s.arena.population.IsFittest r.1 r.2)
      fun _ _ => True :=
  Breeding.ensures_fittest (keeps_matches settings loaded history) fun _ _ _ =>
    .inr fun _ _ => trivial

theorem ensures_finish_agrees {loaded : Bool} {history : Array Generation} {best : Individual}
    {v : Binary64} :
    Ensures (fun s : Stage Model ρ =>
        Matches settings loaded history.toList s.arena.population s.arena.problem ∧
          s.arena.population.AllScored ∧ s.arena.population.IsFittest best v)
      (finish Model.problem settings history)
      (fun r s => RecordsAgree settings loaded r s.arena.problem) fun _ _ => True := by
  apply Ensures.of_forall
  intro s ⟨hmatches, hscored, hbest⟩
  apply ((ensures_finish_fittest (E := fun _ _ => True) hscored hbest history).at_state
    rfl).and_post
  rintro _ s' ⟨harena, rfl⟩
  rw [harena]
  exact hmatches.recordsAgree hbest _ _

variable [WordSource ρ]

/-- Nothing is scored while a population is bred whose scores are all known. -/
theorem ensures_generation_matches (loaded : Bool) {best : Individual} {v : Binary64}
    (htallied : Tallied settings history P b scores) (hscored : P.AllScored)
    (hbest : P.IsFittest best v) (number : Nat) (validation : Option Binary64) :
    Ensures (fun s : Stage Model ρ => s.arena.population = P ∧ s.arena.problem.training.best = b ∧
        ∃ validations, Validated loaded (history ++ [⟨number, v, validation⟩]) s.arena.problem
          validations)
      (generation Model.problem settings ⟨number, v, validation⟩)
      (fun _ s => Matches settings loaded (history ++ [⟨number, v, validation⟩])
        s.arena.population s.arena.problem)
      fun _ _ => True := by
  refine Ensures.note_bind (Ensures.modify_bind (Ensures.of_forall ?_))
  rintro _ ⟨s, ⟨rfl, rfl, hvalidated⟩, rfl⟩
  have hkeeps := Scoring.keeps_of_allScored (p := Model.problem) (E := fun _ _ => True) hscored
    s.arena.problem
  refine ((Breeding.ensures_evolve hkeeps (P := s.arena.population)
    (.inr fun _ _ => trivial)).at_state ⟨rfl, rfl, rfl⟩).bind fun next => Ensures.modify ?_
  rintro s' ⟨⟨-, hpopulation, hproblem⟩, head, hfollows, hhead⟩
  rw [hpopulation] at hhead
  have hnext := htallied.follows hbest number validation hfollows hhead
  rw [← hproblem] at hnext hvalidated
  exact ⟨⟨scores, hnext⟩, hvalidated⟩

theorem ensures_advance_agrees {loaded : Bool} (remaining : Nat) (history : Array Generation) :
    Ensures (fun s : Stage Model ρ =>
        Matches settings loaded history.toList s.arena.population s.arena.problem)
      (advance Model.problem settings remaining history)
      (fun r s => RecordsAgree settings loaded r s.arena.problem) fun _ _ => True := by
  induction remaining generalizing history with
  | zero =>
    refine ensures_scan_matches.bind fun r => ?_
    split <;> exact ensures_finish_agrees
  | succ remaining ih =>
    refine ensures_scan_matches.bind fun r => ?_
    split
    · exact ensures_finish_agrees
    · apply Ensures.of_forall
      rintro s ⟨⟨⟨scores, htallied⟩, validations, hvalidated⟩, hscored, hbest⟩
      have hvalidation := Breeding.ensures_scoring (ρ := ρ) (Scoring.ensures_ask
        (P := s.arena.population) (E := fun _ _ => True)
        (ensures_validation_validated hvalidated r.1.genome (history.size + 1) r.2))
      refine (hvalidation.at_state ⟨rfl, rfl⟩).bind fun validation => ?_
      have hgeneration := ensures_generation_matches (ρ := ρ) loaded htallied hscored hbest
        (history.size + 1) validation
      refine (hgeneration.of_pre ?_).bind fun _ => ?_
      · rintro s' ⟨hpopulation, htraining, hvalidated'⟩
        exact ⟨hpopulation, by rw [htraining], hvalidated'⟩
      · rw [← Array.toList_push]
        exact ih _

theorem ensures_search_agrees (m : Model) (htraining : m.training.best = {})
    (hvalidation : m.validation.best = {}) (hnone : ∀ i, P.score? i = none) (random : ρ) :
    Ensures (· = m) (onStage P random (search Model.problem settings))
      (fun r m' => RecordsAgree settings m.validation.isLoaded r m') fun _ _ => True := by
  apply ensures_onStage
  have hstart (s : Stage Model ρ) (hs : s.arena.population = P ∧ s.arena.problem = m) :
      Matches settings m.validation.isLoaded (#[] : Array Generation).toList s.arena.population
        s.arena.problem := by
    rw [hs.1, hs.2]
    refine ⟨⟨[], ?_⟩, [], Validated.start hvalidation⟩
    rw [htraining]
    exact Tallied.start hnone
  exact ensures_search_of_advance ((ensures_advance_agrees _ _).of_pre hstart)

theorem yields_unscored (n : Nat) :
    Draw.Yields (Draw.times n Individual.draw : Draw ρ (List Individual))
      fun individuals => ∀ i ∈ individuals, i.score = none := by
  apply Draw.Yields.times
  exact (Draw.Yields.trivial _).bind fun g _ => Draw.Yields.pure rfl

theorem score?_ofList_eq_none {individuals : List Individual}
    (h : ∀ i ∈ individuals, i.score = none) (k : Nat) :
    (Population.ofList individuals).score? k = none := by
  unfold Population.score? Population.ofList
  cases hk : individuals[k]? with
  | none => simp [hk]
  | some i => simp [hk, h i (List.mem_of_getElem? hk)]

/-- The result of a search of a fresh model agrees with the records of the model. -/
theorem records_agree {m : Model} (htraining : m.training.best = {})
    (hvalidation : m.validation.best = {}) (random : ρ) (j : Journal) :
    (∀ r, (run Model.problem settings random m j).result = .ok r →
      RecordsAgree settings m.validation.isLoaded r
        (run Model.problem settings random m j).state) ∧
    ∀ seed r, (transplant Model.problem settings random seed m j).result = .ok r →
      RecordsAgree settings m.validation.isLoaded r
        (transplant Model.problem settings random seed m j).state := by
  have hsearch {P : Population} (hnone : ∀ i, P.score? i = none) (random : ρ) :
      Ensures (· = m) (onStage P random (search Model.problem settings))
        (fun r m' => RecordsAgree settings m.validation.isLoaded r m') fun _ _ => True :=
    ensures_search_agrees m htraining hvalidation hnone random
  have hrun : Ensures (· = m) (run Model.problem settings random)
      (fun r m' => RecordsAgree settings m.validation.isLoaded r m') fun _ _ => True := by
    refine Ensures.bind (Ensures.ofExcept (fun _ _ _ h => h) fun _ _ _ _ => trivial) fun _ => ?_
    refine (ensures_reserve (.inr fun _ _ => trivial)).bind fun _ => ?_
    exact hsearch (score?_ofList_eq_none (yields_unscored settings.populationSize random)) _
  have htransplant (seed : Genome) : Ensures (· = m)
      (transplant Model.problem settings random seed)
      (fun r m' => RecordsAgree settings m.validation.isLoaded r m') fun _ _ => True := by
    refine Ensures.bind (Ensures.ofExcept (fun _ _ _ h => h) fun _ _ _ _ => trivial) fun _ => ?_
    refine Ensures.note_bind ?_
    refine (ensures_reserve (.inr fun _ _ => trivial)).bind fun _ => ?_
    refine hsearch (score?_ofList_eq_none (List.forall_mem_cons.mpr ⟨rfl, ?_⟩)) _
    exact yields_unscored (settings.populationSize - 1) random
  constructor
  · intro r hr
    exact hrun.of_ok rfl hr
  · intro seed r hr
    exact (htransplant seed).of_ok rfl hr

/-- The seed fits the targets exactly and its mutated children do not. Without elitism it is lost,
but the records keep it. -/
theorem records_agree_lost_seed :
    let table : Table := ⟨[.ofColumns 1 1 0 0 0 0, .ofColumns 202 2 2 0 0 0,
      .ofColumns 103 3 1 0 0 0]⟩
    let m : Model := {
      training := { sheet := some (.ofTable table) }
      validation := { sheet := some (.ofTable table) } }
    let settings : SearchSettings :=
      { populationSize := 2, generationLimit := 1, tournamentSize := 1, elitism := false }
    let words : RepeatedWords := { words := #[] }
    let seed : Genome := ⟨#v[0, 0, 1, 2, 4, 2, 4, 2, 4, 2, 4, 2, 4, 5, 5]⟩
    let r : SearchResult :=
      ⟨⟨⟨.replicate 15 0⟩, some 0⟩, 0, 1, .generationCap, [⟨1, 1, some 1⟩]⟩
    (transplant Model.problem settings words seed m #[]).result = .ok r ∧
      RecordsAgree settings true r (transplant Model.problem settings words seed m #[]).state := by
  intro table m settings words seed r
  have hrun : (transplant Model.problem settings words seed m #[]).result = .ok r := by
    decide +kernel
  have htraining : m.training.best = {} := rfl
  have hvalidation : m.validation.best = {} := rfl
  exact ⟨hrun, (records_agree htraining hvalidation words #[]).2 seed r hrun⟩

end Search

end FormulaSearch
