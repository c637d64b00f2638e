import FormulaSearch.Proofs.Evolution.Grading
import FormulaSearch.Random.Streams

/-!
# Populations side by side

Populations are made, copied, changed slot by slot, scored and bred from, in any order, and a step
that fails leaves behind what it has done until then. An individual that stands alone is held as a
population of one. Whatever the steps are, every known score is right, and it stays known as long as
no other individual is put into its slot.
-/

namespace FormulaSearch

open Trial (Ensures Upholds)

/-- Populations in front of a problem, beside a source of random words. -/
structure Workshop (σ ρ : Type) where
  populations : Array Population
  problem : σ
  random : ρ

namespace Workshop

/-- A slot of one of the populations. -/
structure Place where
  population : Nat
  index : Nat

inductive Fault where
  | search (cause : SearchFault)
  | gene (cause : Genome.Fault)
deriving DecidableEq

/-- What is done next. A new population gets the next number, and individuals are copied into it
with their scores. -/
inductive Step where
  | draw (size : Nat)
  | drawAround (size : Nat) (first : Place)
  | gather (places : List Place)
  | copy (k : Nat)
  | save (k index : Nat) (source : Place)
  | ofGenome (g : Genome)
  | withGene (source : Place) (index : Nat) (value : UInt8)
  | ofValues (values : List UInt8)
  | score (place : Place)
  | evaluate (k : Nat)
  | fittestIndex (k : Nat)
  | fittest (k : Nat)
  | tournament (k size : Nat)
  | evolve (k : Nat) (settings : SearchSettings)
  | evolveWithSeed (k : Nat) (seed : Place) (settings : SearchSettings)

variable {σ ρ α : Type}

def individual? (w : Workshop σ ρ) (place : Place) : Option Individual :=
  (w.populations[place.population]?).bind fun P => P.members[place.index]?

def searching (t : Trial SearchFault (Workshop σ ρ) α) : Trial Fault (Workshop σ ρ) α :=
  Trial.focus id (fun w _ => w) .search t

def find (k : Nat) : Trial SearchFault (Workshop σ ρ) Population := do
  let w ← Trial.get
  match w.populations[k]? with
  | some P => return P
  | none => Trial.fail (.noSuchMember k w.populations.size)

def individual (place : Place) : Trial SearchFault (Workshop σ ρ) Individual := do
  let P ← find place.population
  Trial.ofExcept (P.member place.index)

def individuals : List Place → Trial SearchFault (Workshop σ ρ) (List Individual)
  | [] => return []
  | place :: rest => do
    let i ← individual place
    return i :: (← individuals rest)

def add (P : Population) : Trial SearchFault (Workshop σ ρ) Unit :=
  Trial.modify fun w => { w with populations := w.populations.push P }

def drawing (d : Draw ρ α) : Trial SearchFault (Workshop σ ρ) α := fun w j =>
  let (a, random) := d w.random
  ⟨.ok a, { w with random }, j⟩

/-- A computation on one of the populations. What it fills in stays, also when it fails. -/
def onPopulation (k : Nat) (t : Breeding σ ρ α) : Trial SearchFault (Workshop σ ρ) α := do
  let P ← find k
  Trial.focus (fun w => ⟨⟨P, w.problem⟩, w.random⟩)
    (fun s w => ⟨w.populations.setIfInBounds k s.arena.population, s.arena.problem, s.random⟩) id t

def save (k index : Nat) (source : Place) : Trial SearchFault (Workshop σ ρ) Unit := do
  let i ← individual source
  let P ← find k
  let P' ← Trial.ofExcept (P.save index i)
  Trial.modify fun w => { w with populations := w.populations.setIfInBounds k P' }

def perform [WordSource ρ] (p : Problem σ) : Step → Trial Fault (Workshop σ ρ) Unit
  | .draw size => searching do
    reserve recordWidth size
    add (← drawing (Population.draw size))
  | .drawAround size first => searching do
    let i ← individual first
    reserve recordWidth (max size 1)
    add (← drawing (Population.drawAround size i))
  | .gather places => searching do
    add (.ofList (← individuals places))
  | .copy k => searching do
    add (← find k)
  | .save k index source => searching (save k index source)
  | .ofGenome g => searching (add (.ofList [.ofGenome g]))
  | .withGene source index value => do
    let i ← searching (individual source)
    let i' ← Trial.ofExcept ((i.withGene index value).mapError .gene)
    searching (add (.ofList [i']))
  | .ofValues values => searching do
    let (i, warning) ← drawing (Individual.ofValues values)
    Trial.noteAll warning.toList
    add (.ofList [i])
  | .score place => searching do
    let _ ← onPopulation place.population (Breeding.scoring (Scoring.score p place.index))
  | .evaluate k => searching (onPopulation k (Breeding.scoring (Scoring.evaluate p)))
  | .fittestIndex k => searching do
    let _ ← onPopulation k (Breeding.scoring (Scoring.fittestIndex p))
  | .fittest k => searching do
    let _ ← onPopulation k (Breeding.scoring (Scoring.fittest p))
  | .tournament k size => searching do
    let i ← onPopulation k (Breeding.tournament p size)
    add (.ofList [i])
  | .evolve k settings => searching do
    add (← onPopulation k (Breeding.evolve p settings))
  | .evolveWithSeed k seed settings => searching do
    let i ← individual seed
    add (← onPopulation k (Breeding.evolveWithSeed p settings i))

/-- What is left after some steps, whether they end well or fail. -/
def after [WordSource ρ] (p : Problem σ) :
    List Step → Workshop σ ρ → Journal → Workshop σ ρ × Journal
  | [], w, j => (w, j)
  | step :: rest, w, j => after p rest (perform p step w j).state (perform p step w j).journal

/-! ## What steps keep -/

variable {p : Problem σ} {A : σ → Prop} {f : Genome → Except Model.Fault Binary64}
  {w w' : Workshop σ ρ}

/-- The populations are still there, with more scores known, and all known scores are right. -/
structure StaysGraded (A : σ → Prop) (f : Genome → Except Model.Fault Binary64)
    (w w' : Workshop σ ρ) : Prop where
  fills : ∀ (k : Nat) (P : Population), w.populations[k]? = some P →
    ∃ P', w'.populations[k]? = some P' ∧ P.Fills P'
  graded : ∀ P ∈ w'.populations, P.IsGradedBy f
  problem : A w'.problem

theorem StaysGraded.refl (hgraded : ∀ P ∈ w.populations, P.IsGradedBy f) (hA : A w.problem) :
    w.StaysGraded A f w := ⟨fun _ P hP => ⟨P, hP, .refl P⟩, hgraded, hA⟩

theorem StaysGraded.add (h : w.StaysGraded A f w') {P : Population} (hP : P.IsGradedBy f) :
    w.StaysGraded A f { w' with populations := w'.populations.push P } where
  fills k Q hQ := by
    obtain ⟨Q', hQ', hfills⟩ := h.fills k Q hQ
    refine ⟨Q', ?_, hfills⟩
    rw [Array.getElem?_push, if_neg, hQ']
    exact (Array.getElem?_eq_some_iff.mp hQ').1.ne
  graded Q hQ := (Array.mem_push.mp hQ).elim (h.graded Q) fun hQ => hQ ▸ hP
  problem := h.problem

theorem StaysGraded.fill (h : w.StaysGraded A f w') {k : Nat} {P : Population}
    (hP : w'.populations[k]? = some P) {s : Stage σ ρ} (hs : s.arena.StaysGraded A f P) :
    w.StaysGraded A f
      ⟨w'.populations.setIfInBounds k s.arena.population, s.arena.problem, s.random⟩ where
  fills n Q hQ := by
    obtain ⟨Q', hQ', hfills⟩ := h.fills n Q hQ
    by_cases hn : k = n
    · subst hn
      obtain rfl : P = Q' := Option.some.inj (hP.symm.trans hQ')
      refine ⟨s.arena.population, ?_, hfills.trans hs.fills⟩
      exact Array.getElem?_setIfInBounds_self_of_lt (Array.getElem?_eq_some_iff.mp hP).1
    · exact ⟨Q', (Array.getElem?_setIfInBounds_ne hn).trans hQ', hfills⟩
  graded Q hQ := (Array.mem_or_eq_of_mem_setIfInBounds hQ).elim (h.graded Q) fun hQ => hQ ▸ hs.graded
  problem := hs.problem

theorem ensures_find (k : Nat) (w : Workshop σ ρ) :
    Ensures (· = w) (find k) (fun P w' => w' = w ∧ w.populations[k]? = some P)
      fun e w' => w' = w ∧ e = .noSuchMember k w.populations.size := by
  apply Ensures.get_bind
  rintro w rfl
  split
  · next P hP => exact Ensures.pure fun w' hw' => ⟨hw', hP⟩
  · exact Ensures.fail fun w' hw' => ⟨hw', rfl⟩

theorem upholds_find (k : Nat) :
    Upholds (w.StaysGraded A f) (find k) (·.IsGradedBy f) := by
  apply Ensures.of_forall
  intro w' hw'
  apply (ensures_find k w').weaken (fun _ h => h)
  · rintro P _ ⟨rfl, hP⟩
    exact ⟨hw', hw'.graded P (Array.mem_of_getElem? hP)⟩
  · rintro e _ ⟨rfl, -⟩
    exact hw'

theorem upholds_individual (place : Place) :
    Upholds (w.StaysGraded A f) (individual place) (·.IsGradedBy f) :=
  (upholds_find place.population).bind fun _ hP => Upholds.ofExcept fun _ hi =>
    hP _ (Array.mem_of_getElem? (Population.member_eq_ok_iff.mp hi))

theorem upholds_individuals (places : List Place) :
    Upholds (w.StaysGraded A f) (individuals places) fun is => ∀ i ∈ is, i.IsGradedBy f := by
  induction places with
  | nil => exact Upholds.pure (by simp)
  | cons place rest ih =>
    refine (upholds_individual place).bind fun i hi => ih.bind fun is his => Upholds.pure ?_
    exact List.forall_mem_cons.mpr ⟨hi, his⟩

theorem upholds_add {P : Population} (hP : P.IsGradedBy f) :
    Upholds (w.StaysGraded A f) (add P) fun _ => True :=
  Upholds.modify (fun _ hw' => hw'.add hP) trivial

theorem upholds_drawing {d : Draw ρ α} {V : α → Prop} (hd : Draw.Yields d V) :
    Upholds (w.StaysGraded A f) (drawing d) V :=
  fun w' _ hw' => ⟨⟨hw'.fills, hw'.graded, hw'.problem⟩, hd w'.random⟩

theorem upholds_onPopulation (k : Nat) {t : Breeding σ ρ α} {V : α → Prop}
    (ht : ∀ P, Upholds (fun s => s.arena.StaysGraded A f P) t V) :
    Upholds (w.StaysGraded A f) (onPopulation k t) V := by
  apply Ensures.of_forall
  intro w' hw'
  refine ((ensures_find k w').weaken (fun _ h => h) (fun _ _ h => h) ?_).bind fun P =>
    Ensures.focus ?_
  · rintro e _ ⟨rfl, -⟩
    exact hw'
  · rintro _ ⟨rfl, hP⟩
    have hgraded := hw'.graded P (Array.mem_of_getElem? hP)
    apply ((ht P).at_state ⟨.refl P, hgraded, hw'.problem⟩).weaken (fun _ h => h)
    · exact fun _ s hs => ⟨hw'.fill hP hs.1, hs.2⟩
    · exact fun _ s hs => hw'.fill hP hs

theorem upholds_searching {t : Trial SearchFault (Workshop σ ρ) α} {V : α → Prop}
    (ht : Upholds (w.StaysGraded A f) t V) : Upholds (w.StaysGraded A f) (searching t) V :=
  ht.focus (fun _ h => h) fun _ _ _ h => h

theorem ensures_searching {I : Workshop σ ρ → Prop} {t : Trial SearchFault (Workshop σ ρ) α}
    {Q : α → Workshop σ ρ → Prop} {E : Fault → Workshop σ ρ → Prop}
    (ht : Ensures I t Q fun e => E (.search e)) : Ensures I (searching t) Q E :=
  Ensures.focus fun _ hs => ht.at_state hs

theorem isGradedBy_singleton {i : Individual} (hi : i.IsGradedBy f) :
    (Population.ofList [i]).IsGradedBy f :=
  Population.isGradedBy_ofList (by simpa using hi)

/-! ## Changes -/

/-- The second population is the first one with more scores known, or with the individual that the
step puts into one of its slots. -/
def ChangedBy (w : Workshop σ ρ) (step : Step) (k : Nat) (P P' : Population) : Prop :=
  P.Fills P' ∨ ∃ index source i, step = .save k index source ∧ w.individual? source = some i ∧
    P.save index i = .ok P'

theorem ensures_individual (place : Place) (w : Workshop σ ρ) :
    Ensures (· = w) (individual place) (fun i w' => w' = w ∧ w.individual? place = some i)
      fun _ w' => w' = w := by
  refine ((ensures_find place.population w).weaken (fun _ h => h) (fun _ _ h => h)
    fun _ _ h => h.1).bind fun P => Ensures.ofExcept ?_ ?_
  · rintro i hi w' ⟨hw', hP⟩
    refine ⟨hw', ?_⟩
    rw [individual?, hP]
    exact Population.member_eq_ok_iff.mp hi
  · exact fun _ _ _ h => h.1

theorem ensures_save (k index : Nat) (source : Place) (w : Workshop σ ρ) :
    Ensures (· = w) (save k index source)
      (fun _ w' => ∃ i P P', w.individual? source = some i ∧ w.populations[k]? = some P ∧
        P.save index i = .ok P' ∧
        w' = { w with populations := w.populations.setIfInBounds k P' })
      fun _ w' => w' = w := by
  refine (ensures_individual source w).bind fun i => Ensures.of_forall ?_
  rintro _ ⟨rfl, hi⟩
  refine ((ensures_find k _).weaken (fun _ h => h) (fun _ _ h => h) fun _ _ h => h.1).bind
    fun P => Ensures.of_forall ?_
  rintro w ⟨rfl, hP⟩
  have hsaved : Ensures (· = w) (Trial.ofExcept (P.save index i))
      (fun P' w' => w' = w ∧ P.save index i = .ok P') fun _ w' => w' = w :=
    Ensures.ofExcept (fun _ hP' _ hw' => ⟨hw', hP'⟩) fun _ _ _ hw' => hw'
  refine hsaved.bind fun P' => Ensures.modify ?_
  rintro _ ⟨rfl, hP'⟩
  exact ⟨i, P, P', hi, hP, hP', rfl⟩

theorem isGradedBy_save {P P' : Population} {index : Nat} {i : Individual} (hP : P.IsGradedBy f)
    (hi : i.IsGradedBy f) (h : P.save index i = .ok P') : P'.IsGradedBy f := by
  unfold Population.save at h
  split at h
  · next hindex =>
    cases h
    intro k hk
    rcases Array.mem_or_eq_of_mem_set (w := hindex) hk with hk | rfl
    · exact hP k hk
    · exact hi
  · cases h

structure IsGraded (A : σ → Prop) (f : Genome → Except Model.Fault Binary64) (w : Workshop σ ρ) :
    Prop where
  graded : ∀ P ∈ w.populations, P.IsGradedBy f
  problem : A w.problem

theorem IsGraded.individual (h : w.IsGraded A f) {place : Place} {i : Individual}
    (hi : w.individual? place = some i) : i.IsGradedBy f := by
  obtain ⟨P, hP, hmember⟩ := Option.bind_eq_some_iff.mp hi
  exact h.graded P (Array.mem_of_getElem? hP) i (Array.mem_of_getElem? hmember)

theorem StaysGraded.isGraded (h : w.StaysGraded A f w') : w'.IsGraded A f := ⟨h.graded, h.problem⟩

/-- What a step leaves, whether it ends well or fails. -/
structure Leaves (A : σ → Prop) (f : Genome → Except Model.Fault Binary64) (step : Step)
    (w w' : Workshop σ ρ) : Prop where
  isGraded : w'.IsGraded A f
  changed : ∀ (k : Nat) (P : Population), w.populations[k]? = some P →
    ∃ P', w'.populations[k]? = some P' ∧ w.ChangedBy step k P P'

theorem StaysGraded.leaves (h : w.StaysGraded A f w') (step : Step) : w.Leaves A f step w' where
  isGraded := h.isGraded
  changed k P hP := by
    obtain ⟨P', hP', hfills⟩ := h.fills k P hP
    exact ⟨P', hP', .inl hfills⟩

theorem leaves_save (hw : w.IsGraded A f) {k index : Nat} {source : Place} {i : Individual}
    {P P' : Population} (hi : w.individual? source = some i) (hP : w.populations[k]? = some P)
    (hP' : P.save index i = .ok P') :
    w.Leaves A f (.save k index source)
      { w with populations := w.populations.setIfInBounds k P' } where
  isGraded := by
    refine ⟨fun Q hQ => ?_, hw.problem⟩
    rcases Array.mem_or_eq_of_mem_setIfInBounds hQ with hQ | rfl
    · exact hw.graded Q hQ
    · exact isGradedBy_save (hw.graded P (Array.mem_of_getElem? hP)) (hw.individual hi) hP'
  changed n Q hQ := by
    by_cases hn : k = n
    · subst hn
      obtain rfl : P = Q := Option.some.inj (hP.symm.trans hQ)
      refine ⟨P', ?_, .inr ⟨index, source, i, rfl, hi, hP'⟩⟩
      exact Array.getElem?_setIfInBounds_self_of_lt (Array.getElem?_eq_some_iff.mp hP).1
    · exact ⟨Q, (Array.getElem?_setIfInBounds_ne hn).trans hQ, .inl (.refl Q)⟩

/-! ## Steps -/

variable [WordSource ρ]

theorem yields_individual : Draw.Yields (Individual.draw : Draw ρ Individual) (·.IsGradedBy f) :=
  (Draw.Yields.trivial _).bind fun g _ => Draw.Yields.pure (Individual.isGradedBy_ofGenome g)

theorem yields_draw (size : Nat) :
    Draw.Yields (Population.draw size : Draw ρ Population) (·.IsGradedBy f) :=
  (yields_individual.times size).bind fun _ his =>
    Draw.Yields.pure (Population.isGradedBy_ofList his)

theorem yields_drawAround (size : Nat) {first : Individual} (hfirst : first.IsGradedBy f) :
    Draw.Yields (Population.drawAround size first : Draw ρ Population) (·.IsGradedBy f) :=
  (yields_individual.times _).bind fun _ his =>
    Draw.Yields.pure (Population.isGradedBy_ofList (List.forall_mem_cons.mpr ⟨hfirst, his⟩))

theorem yields_ofValues (values : List UInt8) :
    Draw.Yields (Individual.ofValues values : Draw ρ (Individual × Option Entry))
      (·.1.IsGradedBy f) := by
  unfold Individual.ofValues
  split
  · exact Draw.Yields.pure (Individual.isGradedBy_ofGenome _)
  · exact yields_individual.bind fun i hi => Draw.Yields.pure hi

theorem isGradedBy_withGene {i i' : Individual} {index : Nat} {value : UInt8}
    (h : (i.withGene index value).mapError Fault.gene = .ok i') : i'.IsGradedBy f := by
  unfold Individual.withGene at h
  cases hg : i.genome.withGene index value with
  | error e =>
    rw [hg] at h
    cases h
  | ok g =>
    rw [hg] at h
    cases h
    exact Individual.isGradedBy_ofGenome g

/-- Every step but one that saves only fills in missing scores, and adds populations. -/
theorem upholds_perform (hp : p.IsGradedBy A f) {step : Step}
    (hsave : ∀ k index source, step ≠ .save k index source) :
    Upholds (w.StaysGraded A f) (perform p step) fun _ => True := by
  cases step with
  | draw size =>
    exact upholds_searching ((upholds_reserve _ _).bind fun _ _ =>
      (upholds_drawing (yields_draw size)).bind fun _ hP => upholds_add hP)
  | drawAround size first =>
    exact upholds_searching ((upholds_individual first).bind fun i hi =>
      (upholds_reserve _ _).bind fun _ _ =>
      (upholds_drawing (yields_drawAround size hi)).bind fun _ hP => upholds_add hP)
  | gather places =>
    exact upholds_searching ((upholds_individuals places).bind fun _ his =>
      upholds_add (Population.isGradedBy_ofList his))
  | copy k => exact upholds_searching ((upholds_find k).bind fun _ hP => upholds_add hP)
  | save k index source => exact absurd rfl (hsave k index source)
  | ofGenome g =>
    exact upholds_searching (upholds_add (isGradedBy_singleton (Individual.isGradedBy_ofGenome g)))
  | withGene source index value =>
    exact (upholds_searching (upholds_individual source)).bind fun _ _ =>
      (Upholds.ofExcept fun _ hi => isGradedBy_withGene hi).bind fun _ hi =>
        upholds_searching (upholds_add (isGradedBy_singleton hi))
  | ofValues values =>
    exact upholds_searching ((upholds_drawing (yields_ofValues values)).bind fun _ hi =>
      (Upholds.noteAll _).bind fun _ _ => upholds_add (isGradedBy_singleton hi))
  | score place =>
    exact upholds_searching ((upholds_onPopulation _ fun _ => Breeding.upholds_scoring
      (Scoring.upholds_score hp _)).bind fun _ _ => Upholds.pure trivial)
  | evaluate k =>
    exact upholds_searching (upholds_onPopulation k fun _ => Breeding.upholds_scoring
      (Scoring.upholds_evaluate hp))
  | fittestIndex k =>
    exact upholds_searching ((upholds_onPopulation k fun _ => Breeding.upholds_scoring
      (Scoring.upholds_fittestIndex hp)).bind fun _ _ => Upholds.pure trivial)
  | fittest k =>
    exact upholds_searching ((upholds_onPopulation k fun _ => Breeding.upholds_scoring
      (Scoring.upholds_fittest hp)).bind fun _ _ => Upholds.pure trivial)
  | tournament k size =>
    exact upholds_searching ((upholds_onPopulation k fun _ =>
      Breeding.upholds_tournament hp size).bind fun _ hi => upholds_add (isGradedBy_singleton hi))
  | evolve k settings =>
    exact upholds_searching ((upholds_onPopulation k fun _ =>
      Breeding.upholds_evolve hp).bind fun _ hP => upholds_add hP)
  | evolveWithSeed k seed settings =>
    exact upholds_searching ((upholds_individual seed).bind fun _ hseed =>
      (upholds_onPopulation k fun _ => Breeding.upholds_evolveWithSeed hp hseed).bind fun _ hP =>
        upholds_add hP)

theorem ensures_perform_leaves (hp : p.IsGradedBy A f) (hw : w.IsGraded A f) (step : Step) :
    Ensures (· = w) (perform p step) (fun _ => w.Leaves A f step)
      fun _ => w.Leaves A f step := by
  have hstart := StaysGraded.refl hw.graded hw.problem
  by_cases hsave : ∃ k index source, step = .save k index source
  · obtain ⟨k, index, source, rfl⟩ := hsave
    refine ensures_searching ((ensures_save k index source w).weaken (fun _ h => h) ?_ ?_)
    · rintro _ _ ⟨i, P, P', hi, hP, hP', rfl⟩
      exact leaves_save hw hi hP hP'
    · rintro _ _ rfl
      exact hstart.leaves _
  · have hupholds : Upholds (w.StaysGraded A f) (perform p step) fun _ => True :=
      upholds_perform hp fun k index source h => hsave ⟨k, index, source, h⟩
    exact (hupholds.at_state hstart).weaken (fun _ h => h) (fun _ _ h => h.1.leaves step)
      fun _ _ h => h.leaves step

theorem isGraded_after (hp : p.IsGradedBy A f) (hw : w.IsGraded A f) (steps : List Step)
    (j : Journal) : (after p steps w j).1.IsGraded A f := by
  induction steps generalizing w j with
  | nil => exact hw
  | cons step rest ih => exact ih ((ensures_perform_leaves hp hw step).state rfl j).isGraded _

/-! ## Scans -/

def Step.scanned? : Step → Option Nat
  | .evaluate k => some k
  | .fittestIndex k => some k
  | .fittest k => some k
  | _ => none

/-- The scan of a population has only filled in scores of it: all that were missing, or those of the
members before the first one that has none. -/
def Scanned (f : Genome → Except Model.Fault Binary64) (w : Workshop σ ρ) (k : Nat) (P : Population)
    (fault : Option SearchFault) (w' : Workshop σ ρ) : Prop :=
  ∃ P', w'.populations = w.populations.setIfInBounds k P' ∧ (fault = none → P'.AllScored) ∧
    ∀ e, fault = some (.unscored e) → ∃ i, P.StopsAt f P' i e

omit [WordSource ρ] in
theorem ensures_onPopulation_scan {k : Nat} {P : Population} {t : Scoring σ α}
    (hA : A w.problem) (hP : w.populations[k]? = some P) (ht : Scoring.Scans A f P t) :
    Ensures (· = w) (onPopulation k (Breeding.scoring t)) (fun _ => w.Scanned f k P none)
      fun e => w.Scanned f k P (some e) := by
  have hfind : Ensures (· = w) (find k) (fun Q w' => w' = w ∧ Q = P)
      fun e => w.Scanned f k P (some e) := by
    apply Ensures.get_bind
    rintro _ rfl
    rw [hP]
    exact Ensures.pure fun w' hw' => ⟨hw', rfl⟩
  refine hfind.bind fun Q => Ensures.focus ?_
  rintro _ ⟨rfl, rfl⟩
  apply ((Breeding.ensures_scoring ht).at_state ⟨rfl, hA⟩).weaken (fun _ h => h)
  · intro _ s hs
    exact ⟨s.arena.population, rfl, fun _ => hs, by simp⟩
  · intro e s hs
    exact ⟨s.arena.population, rfl, by simp, fun cause h => hs cause (Option.some.inj h)⟩

theorem ensures_perform_scan (hp : p.IsGradedBy A f) (hw : w.IsGraded A f) {step : Step} {k : Nat}
    {P : Population} (hstep : step.scanned? = some k) (hP : w.populations[k]? = some P) :
    Ensures (· = w) (perform p step) (fun _ => w.Scanned f k P none)
      fun e w' => ∃ cause, e = .search cause ∧ w.Scanned f k P (some cause) w' := by
  have hgraded := hw.graded P (Array.mem_of_getElem? hP)
  have hfault (e : SearchFault) (w' : Workshop σ ρ) (h : w.Scanned f k P (some e) w') :
      ∃ cause, Fault.search e = .search cause ∧ w.Scanned f k P (some cause) w' := ⟨e, rfl, h⟩
  cases step with
  | evaluate k =>
    cases hstep
    exact ensures_searching ((ensures_onPopulation_scan hw.problem hP
      (Scoring.scans_evaluate hp hgraded)).weaken (fun _ h => h) (fun _ _ h => h) hfault)
  | fittestIndex k =>
    cases hstep
    exact ensures_searching (((ensures_onPopulation_scan hw.problem hP
      (Scoring.scans_fittestIndex hp hgraded)).weaken (fun _ h => h) (fun _ _ h => h)
      hfault).bind fun _ => Ensures.pure fun _ h => h)
  | fittest k =>
    cases hstep
    exact ensures_searching (((ensures_onPopulation_scan hw.problem hP
      (Scoring.scans_fittest hp hgraded)).weaken (fun _ h => h) (fun _ _ h => h)
      hfault).bind fun _ => Ensures.pure fun _ h => h)
  | _ => cases hstep

/-- Whatever was done to populations whose scores were not known at first, all known scores are
those of the genomes beside them. The next step, whatever it is and even if it fails, leaves every
population as it was with at most more scores known, unless it puts an individual into a slot. If it
is a scan, nothing but that population changes, and what is filled in are all its missing scores or,
when a member has no score, those of the members before the first such one. -/
theorem known_scores_right (hp : p.IsGradedBy A f) (hA : A w.problem)
    (hunscored : ∀ P ∈ w.populations, ∀ i, P.score? i = none) (steps : List Step) (j : Journal) :
    let now := (after p steps w j).1
    let log := (after p steps w j).2
    (∀ P ∈ now.populations, P.IsGradedBy f) ∧ ∀ step,
      let outcome := perform p step now log
      (∀ k P, now.populations[k]? = some P → ∃ P', outcome.state.populations[k]? = some P' ∧
        now.ChangedBy step k P P') ∧
      ∀ k P, step.scanned? = some k → now.populations[k]? = some P →
        ∃ P', outcome.state.populations = now.populations.setIfInBounds k P' ∧
          (outcome.result = .ok () → P'.AllScored) ∧
          ∀ e, outcome.result = .error (.search (.unscored e)) → ∃ i, P.StopsAt f P' i e := by
  intro now log
  have hw : w.IsGraded A f :=
    ⟨fun P hP => Population.isGradedBy_of_unscored (hunscored P hP), hA⟩
  have hnow : now.IsGraded A f := isGraded_after hp hw steps j
  refine ⟨hnow.graded, fun step => ⟨?_, ?_⟩⟩
  · exact ((ensures_perform_leaves hp hnow step).state rfl log).changed
  · intro k P hstep hP
    have hscan := ensures_perform_scan hp hnow hstep hP now log rfl
    rcases hrun : perform p step now log with ⟨_ | ⟨⟩, now', log'⟩ <;> rw [hrun] at hscan
    · obtain ⟨cause, rfl, P', hP', -, hstops⟩ := hscan
      refine ⟨P', hP', by simp, fun e he => hstops e ?_⟩
      rw [Fault.search.inj (Except.error.inj he)]
    · obtain ⟨P', hP', hscored, -⟩ := hscan
      exact ⟨P', hP', fun _ => hscored rfl, by simp⟩

/-- The second of three genomes has no score. The scan after the one that fails first fails again,
and the score of the third member, which the genome of the first one has too, is still missing. -/
theorem known_scores_right_forbidden_gene :
    let weights : WeightedGenes := { weights := .replicate 15 1, forbidden := some (0, 1) }
    let zeros : Genome := ⟨.replicate 15 0⟩
    let ones : Genome := ⟨.replicate 15 1⟩
    let words : RepeatedWords := { words := #[] }
    let start : Workshop Unit RepeatedWords :=
      { populations := #[.ofList [.ofGenome zeros, .ofGenome ones]], problem := (), random := words }
    let steps : List Step := [.gather [⟨0, 0⟩, ⟨0, 1⟩, ⟨0, 0⟩], .evaluate 1, .score ⟨0, 0⟩]
    let now := (after weights.problem steps start #[]).1
    let outcome := perform weights.problem (.fittest 1) now (after weights.problem steps start #[]).2
    let third : Population := .ofList [⟨zeros, some 0⟩, .ofGenome ones, .ofGenome zeros]
    weights.problem.IsGradedBy (fun _ => True) weights.training ∧
      (∀ P ∈ start.populations, ∀ i, P.score? i = none) ∧ now.populations[1]? = some third ∧
      outcome.result = .error (.search (.unscored (.unspellable ⟨0, 1⟩))) ∧
      (∀ P ∈ now.populations, P.IsGradedBy weights.training) ∧
      ∃ P' i, outcome.state.populations = now.populations.setIfInBounds 1 P' ∧
        third.StopsAt weights.training P' i (.unspellable ⟨0, 1⟩) := by
  intro weights zeros ones words start steps now outcome third
  have hgraded : weights.problem.IsGradedBy (fun _ => True) weights.training := weights.isGradedBy
  have hunscored : ∀ P ∈ start.populations, ∀ i, P.score? i = none := by
    intro P hP i
    obtain rfl : P = .ofList [.ofGenome zeros, .ofGenome ones] := by simpa [start] using hP
    match i with
    | 0 => rfl
    | 1 => rfl
    | _ + 2 => rfl
  have hthird : now.populations[1]? = some third := by decide +kernel
  have hfails : outcome.result = .error (.search (.unscored (.unspellable ⟨0, 1⟩))) := by
    decide +kernel
  have hright := known_scores_right hgraded trivial hunscored steps #[]
  obtain ⟨P', hP', -, hstops⟩ := (hright.2 (.fittest 1)).2 1 third rfl hthird
  obtain ⟨i, hi⟩ := hstops _ hfails
  refine ⟨hgraded, hunscored, hthird, hfails, hright.1, P', i, ?_, hi⟩
  rw [hP']

end Workshop

end FormulaSearch
