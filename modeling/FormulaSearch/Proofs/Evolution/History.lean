import FormulaSearch.Proofs.Evolution.Breeding
import FormulaSearch.Proofs.Evolution.Observation
import FormulaSearch.Random.Streams

/-!
# What a search reports

The report of a search is read against the events of its problem: what was scored, with which
answers, and what the problem was told. Nothing is assumed of the problem, whose answers may change
from one call to the next. With elitism the fittest individual is kept with its score, so a score
that was reached once is never lost.
-/

namespace FormulaSearch

open Trial (Ensures)

def Event.score? : Event → Option Binary64
  | .scored _ (.ok v) => some v
  | _ => none

namespace Search

variable {σ ρ : Type} {p : Problem σ} {settings : SearchSettings} {first P next : Population}
  {events events' : List Event} {history : List Generation}

/-! ## Reports -/

/-- The score of the genome is known: an individual of the first population came with it, or the
problem returned it. -/
def Known (first : Population) (events : List Event) (g : Genome) (v : Binary64) : Prop :=
  ⟨g, some v⟩ ∈ first.members ∨ .scored g (.ok v) ∈ events

def Numeric (first : Population) (events : List Event) : Prop :=
  ∀ g v, Known first events g v → v.isNaN = false

/-- The entry was made of the known score of a genome and of its validation score. -/
def Recorded (first : Population) (events : List Event) (entry : Generation) : Prop :=
  ∃ g before after, Known first before g entry.training ∧
    events = before ++ .validated g (.ok entry.validation) :: .generation entry :: after

structure IsHistory (settings : SearchSettings) (first : Population) (events : List Event)
    (history : List Generation) : Prop where
  numbered : ∀ i entry, history[i]? = some entry → entry.number = i + 1
  below_target : ∀ entry ∈ history, ¬ settings.targetFitness ≤ entry.training
  recorded : ∀ entry ∈ history, Recorded first events entry
  ascending : settings.elitism = true → Numeric first events →
    history.Pairwise fun entry entry' => entry.training ≤ entry'.training

structure Reports (settings : SearchSettings) (first : Population) (events : List Event)
    (r : SearchResult) : Prop where
  generations_eq : r.generations = r.history.length
  generations_le : r.generations ≤ settings.generationLimit
  history : IsHistory settings first events r.history
  converged_iff : r.termination = .converged ↔ settings.targetFitness ≤ r.bestFitness
  generations_of_cap : r.termination ≠ .converged → r.generations = settings.generationLimit
  le_best : settings.elitism = true → Numeric first events →
    ∀ g v, Known first events g v → v ≤ r.bestFitness

theorem Known.mono {g : Genome} {v : Binary64} (h : Known first events g v)
    (hle : events <+: events') : Known first events' g v :=
  h.imp_right fun hmem => hle.subset hmem

theorem Numeric.of_prefix (h : Numeric first events') (hle : events <+: events') :
    Numeric first events := fun g v hknown => h g v (hknown.mono hle)

theorem Recorded.mono {entry : Generation} (h : Recorded first events entry)
    (hle : events <+: events') : Recorded first events' entry := by
  obtain ⟨g, before, after, hknown, rfl⟩ := h
  obtain ⟨more, rfl⟩ := hle
  exact ⟨g, before, after ++ more, hknown, by simp⟩

theorem IsHistory.mono (h : IsHistory settings first events history) (hle : events <+: events') :
    IsHistory settings first events' history where
  numbered := h.numbered
  below_target := h.below_target
  recorded entry hentry := (h.recorded entry hentry).mono hle
  ascending helitism hnumeric := h.ascending helitism (hnumeric.of_prefix hle)

theorem Recorded.known {entry : Generation} (h : Recorded first events entry) :
    ∃ g, Known first events g entry.training := by
  obtain ⟨g, before, after, hknown, rfl⟩ := h
  exact ⟨g, hknown.mono (List.prefix_append _ _)⟩

theorem IsHistory.append (h : IsHistory settings first events history) {entry : Generation}
    (hnumber : entry.number = history.length + 1)
    (hbelow : ¬ settings.targetFitness ≤ entry.training) (hrecorded : Recorded first events entry)
    (hgreatest : settings.elitism = true → Numeric first events →
      ∀ g v, Known first events g v → v ≤ entry.training) :
    IsHistory settings first events (history ++ [entry]) where
  numbered i entry' hentry' := by
    rw [List.getElem?_append] at hentry'
    split at hentry'
    · exact h.numbered i entry' hentry'
    · next hi =>
      obtain ⟨hzero, rfl⟩ : i - history.length = 0 ∧ entry = entry' := by
        simpa [List.getElem?_singleton] using hentry'
      omega
  below_target := List.forall_mem_append.mpr ⟨h.below_target, by simpa using hbelow⟩
  recorded := List.forall_mem_append.mpr ⟨h.recorded, by simpa using hrecorded⟩
  ascending helitism hnumeric := by
    rw [List.pairwise_append]
    refine ⟨h.ascending helitism hnumeric, List.pairwise_singleton _ _, ?_⟩
    intro earlier hearlier later hlater
    rw [List.mem_singleton.mp hlater]
    obtain ⟨g, hknown⟩ := (h.recorded earlier hearlier).known
    exact hgreatest helitism hnumeric g earlier.training hknown

/-! ## What scoring and breeding keep -/

/-- The scores in the population are known ones. With elitism, and unless there is a NaN, no known
score is above all of them. -/
structure Sound (settings : SearchSettings) (first : Population) (events : List Event)
    (P : Population) : Prop where
  known : ∀ (i : Nat) (ind : Individual) (v : Binary64), P.members[i]? = some ind →
    ind.score = some v → Known first events ind.genome v
  covered : settings.elitism = true → Numeric first events →
    ∀ g v, Known first events g v → ∃ i w, P.score? i = some w ∧ v ≤ w

theorem Sound.start : Sound settings first [] first where
  known i ind v hind hscore := by
    obtain ⟨g, score⟩ := ind
    obtain rfl : score = some v := hscore
    exact .inl (Array.mem_of_getElem? hind)
  covered _ hnumeric g v hknown := by
    have hmem := hknown.resolve_right List.not_mem_nil
    obtain ⟨i, hi⟩ := Array.getElem?_of_mem hmem
    exact ⟨i, v, Population.score?_of_getElem? hi, Binary64.le_refl (hnumeric g v hknown)⟩

theorem Sound.known_score? (h : Sound settings first events P) {i : Nat} {v : Binary64}
    (hv : P.score? i = some v) : ∃ g, Known first events g v := by
  obtain ⟨ind, hind, hscore⟩ := Option.bind_eq_some_iff.mp hv
  exact ⟨ind.genome, h.known i ind v hind hscore⟩

theorem Sound.noNaN (h : Sound settings first events P) (hnumeric : Numeric first events) :
    P.NoNaN := by
  intro i v hv
  obtain ⟨g, hknown⟩ := h.known_score? hv
  exact hnumeric g v hknown

theorem Sound.le_fittest (h : Sound settings first events P) {best : Individual} {w : Binary64}
    (hbest : P.IsFittest best w) (helitism : settings.elitism = true)
    (hnumeric : Numeric first events) {g : Genome} {v : Binary64}
    (hknown : Known first events g v) : v ≤ w := by
  obtain ⟨i, u, hu, hle⟩ := h.covered helitism hnumeric g v hknown
  obtain ⟨g', hknown'⟩ := h.known_score? hu
  obtain ⟨g'', hknown''⟩ := h.known_score? hbest.score_eq
  exact Binary64.le_trans (hnumeric g v hknown) (hnumeric g' u hknown') (hnumeric g'' w hknown'')
    hle (hbest.le (h.noNaN hnumeric) hu)

/-- An event that returns no training score. -/
theorem Sound.append (h : Sound settings first events P) {e : Event}
    (he : ∀ g v, e ≠ .scored g (.ok v)) : Sound settings first (events ++ [e]) P where
  known i ind v hind hscore := (h.known i ind v hind hscore).mono (List.prefix_append _ _)
  covered helitism hnumeric g v hknown := by
    apply h.covered helitism (hnumeric.of_prefix (List.prefix_append _ _)) g v
    refine hknown.imp_right fun hmem => ?_
    rcases List.mem_append.mp hmem with hmem | hmem
    · exact hmem
    · exact absurd (List.mem_singleton.mp hmem).symm (he g v)

theorem Sound.setScore (h : Sound settings first events P) {i : Nat} {ind : Individual}
    (hind : P.members[i]? = some ind) (hnone : ind.score = none) (v : Binary64) :
    Sound settings first (events ++ [.scored ind.genome (.ok v)]) (P.setScore i v) where
  known k ind' w hind' hscore := by
    rw [Population.getElem?_setScore hind] at hind'
    split at hind'
    · cases hind'
      cases hscore
      exact .inr (by simp)
    · exact (h.known k ind' w hind' hscore).mono (List.prefix_append _ _)
  covered helitism hnumeric g w hknown := by
    have hi := Population.lt_size_of_getElem? hind
    have hnew : (P.setScore i v).score? i = some v := by
      rw [Population.score?_setScore hi, if_pos rfl]
    have hcases : Known first events g w ∨ w = v := by
      rcases hknown with hmem | hmem
      · exact .inl (.inl hmem)
      · rcases List.mem_append.mp hmem with hmem | hmem
        · exact .inl (.inr hmem)
        · cases List.mem_singleton.mp hmem
          exact .inr rfl
    rcases hcases with hold | rfl
    · -- the score that covers an old one is that of another individual
      have hnumeric' := hnumeric.of_prefix (List.prefix_append _ _)
      obtain ⟨k, u, hu, hle⟩ := h.covered helitism hnumeric' g w hold
      refine ⟨k, u, ?_, hle⟩
      exact (Population.fills_setScore hi
        ((Population.score?_of_getElem? hind).trans hnone) v).score_eq k u hu
    · exact ⟨i, w, hnew, Binary64.le_refl (hnumeric g w hknown)⟩

/-- The fittest individual takes its score along. -/
theorem Sound.follows (h : Sound settings first events P) {P' : Population}
    {head : Option Individual} (hfollows : P'.Follows head next)
    (hhead : if settings.elitism then ∃ best v, head = some best ∧ P.AllScored ∧
      P.IsFittest best v else head = none) : Sound settings first events next := by
  obtain ⟨bred, rfl, -, -⟩ := hfollows
  constructor
  · intro i ind v hind hscore
    have hmem : ind ∈ head.toList ++ bred.map Individual.ofGenome :=
      List.mem_toArray.mp (Array.mem_of_getElem? hind)
    rcases List.mem_append.mp hmem with hmem | hmem
    · split at hhead
      · obtain ⟨best, w, rfl, -, hbest⟩ := hhead
        obtain rfl : ind = best := by simpa using hmem
        exact h.known _ ind v hbest.1 hscore
      · subst hhead
        cases hmem
    · obtain ⟨g, -, rfl⟩ := List.mem_map.mp hmem
      cases hscore
  · intro helitism hnumeric g v hknown
    rw [if_pos helitism] at hhead
    obtain ⟨best, w, rfl, -, hbest⟩ := hhead
    refine ⟨0, w, ?_, h.le_fittest hbest helitism hnumeric hknown⟩
    exact (Population.score?_of_getElem? rfl).trans hbest.2

/-! ## Runs -/

def Kept (settings : SearchSettings) (first : Population) (past : List Event) (P : Population)
    (o : Observed σ) : Prop :=
  past <+: o.events.toList ∧ Sound settings first o.events.toList P

def Underway (settings : SearchSettings) (first : Population) (history : Array Generation)
    (s : Stage (Observed σ) ρ) : Prop :=
  Sound settings first s.arena.problem.events.toList s.arena.population ∧
    IsHistory settings first s.arena.problem.events.toList history.toList

theorem ensures_recorded {α : Type} {event : Except Model.Fault α → Event}
    {t : Trial Model.Fault σ α} {A : List Event → Prop} {B : α → List Event → Prop}
    (h : ∀ events v, A events → B v (events ++ [event (.ok v)])) :
    Ensures (fun o : Observed σ => A o.events.toList) (Problem.recorded event t)
      (fun v o => B v o.events.toList) fun _ _ => True := by
  intro o j ho
  unfold Problem.recorded
  rcases hrun : t o.state j with ⟨e | v, s', j'⟩
  · trivial
  · simpa using h o.events.toList v ho

theorem keeps_kept (past : List Event) :
    Scoring.Keeps p.observed (Kept settings first past) fun _ _ => True := by
  intro P i ind hind hnone
  refine ensures_recorded (A := fun events => past <+: events ∧ Sound settings first events P)
    (B := fun v events => past <+: events ∧ Sound settings first events (P.setScore i v)) ?_
  intro events v ⟨hpast, hsound⟩
  exact ⟨hpast.trans (List.prefix_append _ _), hsound.setScore hind hnone v⟩

/-- When all scores are known, looking up the fittest individual anew finds the same one. -/
theorem ensures_finish_fittest {s : σ} {best : Individual} {v : Binary64}
    {E : SearchFault → Arena σ → Prop} (hscored : P.AllScored) (hbest : P.IsFittest best v)
    (history : Array Generation) :
    Ensures (fun stage : Stage σ ρ => stage.arena = ⟨P, s⟩) (finish p settings history)
      (fun r stage => stage.arena = ⟨P, s⟩ ∧ r = ⟨best, v, history.size,
        if settings.targetFitness ≤ v then .converged else .generationCap, history.toList⟩)
      fun e stage => E e stage.arena := by
  have hsize : 0 < P.size := Nat.zero_lt_of_lt (Population.lt_size_of_getElem? hbest.1)
  have hkeeps := Scoring.keeps_of_allScored (p := p) (E := E) hscored s
  have hfittest := Breeding.ensures_scoring (ρ := ρ)
    (Scoring.ensures_fittest hkeeps (P := P) (.inl hsize))
  refine (hfittest.of_pre ?_).bind fun r => Ensures.note_bind (Ensures.pure ?_)
  · intro stage hstage
    rw [hstage]
    exact ⟨rfl, rfl, rfl⟩
  · rintro stage ⟨⟨-, hpopulation, hproblem⟩, -, hbest'⟩
    rw [hpopulation] at hbest'
    obtain ⟨hr, hr'⟩ := hbest.eq hbest'
    rw [hr, hr', ← hpopulation, ← hproblem]
    exact ⟨rfl, rfl⟩

theorem ensures_finish_reports {best : Individual} {v : Binary64} {history : Array Generation}
    (hle : history.size ≤ settings.generationLimit)
    (hend : settings.targetFitness ≤ v ∨ history.size = settings.generationLimit) :
    Ensures (fun s : Stage (Observed σ) ρ => Underway settings first history s ∧
        s.arena.population.AllScored ∧ s.arena.population.IsFittest best v)
      (finish p.observed settings history)
      (fun r s => Reports settings first s.arena.problem.events.toList r) fun _ _ => True := by
  apply Ensures.of_forall
  intro s ⟨⟨hsound, hhistory⟩, hscored, hbest⟩
  refine ((ensures_finish_fittest (E := fun _ _ => True) hscored hbest history).at_state
    rfl).and_post ?_
  rintro _ s' ⟨harena, rfl⟩
  rw [harena]
  constructor
  case generations_eq => exact Array.length_toList.symm
  case generations_le => exact hle
  case history => exact hhistory
  case converged_iff =>
    dsimp only
    split <;> simp [*]
  case generations_of_cap =>
    intro hcap
    exact hend.resolve_left fun htarget => hcap (if_pos htarget)
  case le_best =>
    intro helitism hnumeric g w hknown
    exact hsound.le_fittest hbest helitism hnumeric hknown

theorem ensures_scan {history : Array Generation} :
    Ensures (Underway (σ := σ) (ρ := ρ) settings first history)
      (Breeding.scoring (Scoring.fittest p.observed))
      (fun r s => Underway settings first history s ∧
        s.arena.population.AllScored ∧ s.arena.population.IsFittest r.1 r.2)
      fun _ _ => True := by
  apply Ensures.of_forall
  intro s ⟨hsound, hhistory⟩
  have hkeeps : Scoring.Keeps p.observed
      (Kept settings first s.arena.problem.events.toList) fun _ _ => True := keeps_kept _
  have hfittest := Breeding.ensures_fittest (ρ := ρ) hkeeps fun _ _ _ => .inr fun _ _ => trivial
  refine (hfittest.at_state ⟨List.prefix_rfl, hsound⟩).and_post ?_
  rintro r s' ⟨⟨hpast, hsound'⟩, hscored, hbest⟩
  exact ⟨⟨hsound', hhistory.mono hpast⟩, hscored, hbest⟩

theorem ensures_validation (s : Stage (Observed σ) ρ) (g : Genome) :
    Ensures (· = s) (Breeding.scoring (Scoring.ask (p.observed.validation g)))
      (fun v s' => s'.arena.population = s.arena.population ∧
        s'.arena.problem.events.toList =
          s.arena.problem.events.toList ++ [.validated g (.ok v)])
      fun _ _ => True := by
  have hrecorded : Ensures (fun o : Observed σ => o.events.toList = s.arena.problem.events.toList)
      (p.observed.validation g)
      (fun v o => o.events.toList =
        s.arena.problem.events.toList ++ [.validated g (.ok v)]) fun _ _ => True :=
    ensures_recorded (A := (· = s.arena.problem.events.toList))
      (B := fun v events => events = s.arena.problem.events.toList ++ [.validated g (.ok v)])
      fun events v hevents => by rw [hevents]
  have hask := Breeding.ensures_scoring (ρ := ρ)
    (Scoring.ensures_ask (P := s.arena.population) (E := fun _ _ => True) hrecorded)
  exact hask.at_state ⟨rfl, rfl⟩

variable [WordSource ρ]

theorem ensures_generation_sound {past : List Event} (hsound : Sound settings first past P)
    (entry : Generation) :
    Ensures (fun s : Stage (Observed σ) ρ => s.arena.population = P ∧
        s.arena.problem.events.toList = past)
      (generation p.observed settings entry)
      (fun _ s => past ++ [.generation entry] <+: s.arena.problem.events.toList ∧
        Sound settings first s.arena.problem.events.toList s.arena.population)
      fun _ _ => True := by
  refine Ensures.note_bind (Ensures.modify_bind (Ensures.of_forall ?_))
  rintro _ ⟨s, ⟨rfl, rfl⟩, rfl⟩
  have hkeeps : Scoring.Keeps p.observed
      (Kept settings first (s.arena.problem.events.toList ++ [.generation entry]))
      fun _ _ => True := keeps_kept _
  refine ((Breeding.ensures_evolve hkeeps (P := s.arena.population)
    (.inr fun _ _ => trivial)).at_state ?_).bind fun next => Ensures.modify ?_
  · refine ⟨rfl, ?_, ?_⟩
    · simp [Problem.observed]
    · simpa [Problem.observed] using hsound.append (by simp)
  · rintro s' ⟨⟨-, hpast, hsound'⟩, head, hfollows, hhead⟩
    exact ⟨hpast, hsound'.follows hfollows hhead⟩

/-- A generation that starts below the target goes into the history. -/
theorem ensures_generation_underway {history : Array Generation} {s : Stage (Observed σ) ρ}
    {best : Individual} {v : Binary64} (hs : Underway settings first history s)
    (hbest : s.arena.population.IsFittest best v) (hbelow : ¬ settings.targetFitness ≤ v)
    (validation : Option Binary64) :
    Ensures (fun s' : Stage (Observed σ) ρ => s'.arena.population = s.arena.population ∧
        s'.arena.problem.events.toList =
          s.arena.problem.events.toList ++ [.validated best.genome (.ok validation)])
      (generation p.observed settings ⟨history.size + 1, v, validation⟩)
      (fun _ s' => Underway settings first
        (history.push ⟨history.size + 1, v, validation⟩) s') fun _ _ => True := by
  obtain ⟨hsound, hhistory⟩ := hs
  have hvalidated := hsound.append (e := .validated best.genome (.ok validation)) (by simp)
  have htold := hvalidated.append (e := .generation ⟨history.size + 1, v, validation⟩) (by simp)
  have hknown := hsound.known _ best v hbest.1 hbest.2
  refine (ensures_generation_sound hvalidated _).and_post ?_
  intro _ s' ⟨hpast, hsound'⟩
  refine ⟨hsound', ?_⟩
  rw [Array.toList_push]
  -- no score was returned since the scan, so the one of this entry is still the greatest
  refine (IsHistory.append (hhistory.mono ?_) ?_ ?_ ?_ ?_).mono hpast
  · exact (List.prefix_append _ _).trans (List.prefix_append _ _)
  · simp
  · exact hbelow
  · exact ⟨best.genome, s.arena.problem.events.toList, [], hknown, by simp⟩
  · intro helitism hnumeric g w hknown'
    exact htold.le_fittest hbest helitism hnumeric hknown'

theorem ensures_advance_reports (remaining : Nat) (history : Array Generation)
    (hremaining : history.size + remaining = settings.generationLimit) :
    Ensures (Underway (σ := σ) (ρ := ρ) settings first history)
      (advance p.observed settings remaining history)
      (fun r s => Reports settings first s.arena.problem.events.toList r) fun _ _ => True := by
  induction remaining generalizing history with
  | zero =>
    refine ensures_scan.bind fun r => ?_
    split
    · next htarget => exact ensures_finish_reports hremaining.le (.inl htarget)
    · exact ensures_finish_reports hremaining.le (.inr hremaining)
  | succ remaining ih =>
    refine ensures_scan.bind fun r => ?_
    split
    · next htarget => exact ensures_finish_reports (by omega) (.inl htarget)
    · next hbelow =>
      apply Ensures.of_forall
      rintro s ⟨hs, -, hbest⟩
      refine (ensures_validation s r.1.genome).bind fun validation => ?_
      refine (ensures_generation_underway hs hbest hbelow validation).bind fun _ => ?_
      exact ih _ (by simp; omega)

theorem ensures_search_of_advance {A : Stage σ ρ → Prop} {Q : SearchResult → Stage σ ρ → Prop}
    (h : Ensures A (advance p settings settings.generationLimit #[]) Q fun _ _ => True) :
    Ensures A (search p settings) Q fun _ _ => True := by
  refine Ensures.bind (Ensures.ofExcept (fun _ _ _ hs => hs) fun _ _ _ _ => trivial) fun _ => ?_
  exact (ensures_reserve (.inr fun _ _ => trivial)).bind fun _ => h

theorem ensures_search_reports :
    Ensures (fun s : Stage (Observed σ) ρ => s.arena.population = first ∧
        s.arena.problem.events = #[])
      (search p.observed settings)
      (fun r s => Reports settings first s.arena.problem.events.toList r) fun _ _ => True := by
  have hstart (s : Stage (Observed σ) ρ)
      (hs : s.arena.population = first ∧ s.arena.problem.events = #[]) :
      Underway settings first #[] s := by
    rw [Underway, hs.1, hs.2]
    refine ⟨Sound.start, ?_⟩
    constructor <;> simp
  exact ensures_search_of_advance ((ensures_advance_reports _ _ (by simp)).of_pre hstart)

/-- Whatever the problem answers, the result of a search tells what happened. The search of the
watched problem is the same one with its events kept. -/
theorem search_reports {s : σ} {random : ρ} {j : Journal} {r : SearchResult}
    (h : (search p settings ⟨⟨first, s⟩, random⟩ j).result = .ok r) :
    let watched := search p.observed settings ⟨⟨first, { state := s }⟩, random⟩ j
    watched.result = .ok r ∧
      Reports settings first watched.state.arena.problem.events.toList r := by
  have hforgets : Trial.Forgets (Stage.map Observed.state) (search p.observed settings)
      (search p settings : Breeding σ ρ SearchResult) := forgets_search p.forgets_observed
  have hresult := (hforgets.result_eq ⟨⟨first, { state := s }⟩, random⟩ j).trans h
  exact ⟨hresult, ensures_search_reports.of_ok ⟨rfl, rfl⟩ hresult⟩

/-- The scores of this problem fall from call to call, and the first one stays the best. -/
theorem search_reports_falling_scores :
    let p : Problem Nat := { training := fun _ n j => ⟨.ok ((10 - n : Nat) : Binary64), n + 1, j⟩ }
    let settings : SearchSettings := { generationLimit := 2, tournamentSize := 1 }
    let zeros : Genome := ⟨.replicate 15 0⟩
    let first : Population := .ofList [.ofGenome zeros, .ofGenome ⟨.replicate 15 1⟩]
    let words : RepeatedWords := { words := #[] }
    let r : SearchResult :=
      ⟨⟨zeros, some 10⟩, 10, 2, .generationCap, [⟨1, 10, none⟩, ⟨2, 10, none⟩]⟩
    let events :=
      (search p.observed settings ⟨⟨first, { state := 0 }⟩, words⟩ #[]).state.arena.problem.events
    (search p settings ⟨⟨first, 0⟩, words⟩ #[]).result = .ok r ∧ Numeric first events.toList ∧
      Reports settings first events.toList r := by
  intro p settings zeros first words r events
  have hrun : (search p settings ⟨⟨first, 0⟩, words⟩ #[]).result = .ok r := by decide +kernel
  have hscores : events.toList.all (fun e => e.score?.all (!·.isNaN)) = true := by
    decide +kernel
  refine ⟨hrun, ?_, (search_reports hrun).2⟩
  rintro g v (hmem | hmem)
  · simp [first, Population.ofList, Individual.ofGenome] at hmem
  · simpa [Event.score?] using List.all_eq_true.mp hscores _ hmem

end Search

end FormulaSearch
