import FormulaSearch.Proofs.Evolution.Breeding
import FormulaSearch.Proofs.Evolution.Scanning
import FormulaSearch.Proofs.Model.Record

/-!
# Right scores

The training score may be a function of the genome that is not defined everywhere. Then all known
scores are right, and they stay so: contests, scans and breeding only fill in missing scores, and
what they filled in before they failed is right too. A scan that meets a genome without a score has
scored the members in front of it and no other ones.
-/

namespace FormulaSearch

open Trial (Ensures Upholds)

variable {σ ρ : Type} {p : Problem σ} {A : σ → Prop} {f : Genome → Except Model.Fault Binary64}

/-- From the states with a property on, the training score is a function of the genome, which may
have none. -/
structure Problem.IsGradedBy (p : Problem σ) (A : σ → Prop)
    (f : Genome → Except Model.Fault Binary64) : Prop where
  training : ∀ g, Ensures A (p.training g) (fun v s => f g = .ok v ∧ A s)
    fun e s => f g = .error e ∧ A s

/-- The score is that of the genome, if it is known. -/
def Individual.IsGradedBy (f : Genome → Except Model.Fault Binary64) (i : Individual) : Prop :=
  ∀ v, i.score = some v → f i.genome = .ok v

def Population.IsGradedBy (f : Genome → Except Model.Fault Binary64) (P : Population) : Prop :=
  ∀ i ∈ P.members, i.IsGradedBy f

theorem WeightedGenes.isGradedBy (w : WeightedGenes) :
    w.problem.IsGradedBy (fun _ => True) w.training where
  training _ := Ensures.ofExcept (fun _ hv _ _ => ⟨hv, trivial⟩) fun _ he _ _ => ⟨he, trivial⟩

/-- A model scores by its settings and its training table, and scoring changes neither. -/
theorem Model.isGradedBy (m : Model) :
    problem.IsGradedBy
      (fun m' => m'.settings = m.settings ∧ m'.training.sheet = m.training.sheet)
      fun g => (m.column .training g).map (m.coefficient .training) where
  training g := by
    apply Ensures.of_forall
    rintro m' ⟨hsettings, hsheet⟩
    have hcolumn := column_congr .training hsettings hsheet g
    have hcoefficient := coefficient_congr .training hsettings hsheet
    apply (ensures_calculate_after m' .training g).weaken (fun _ h => h)
    · rintro v _ ⟨produced, hproduced, rfl, rfl⟩
      rw [← hcolumn, hproduced, hcoefficient]
      exact ⟨rfl, hsettings, hsheet⟩
    · rintro e _ ⟨herror, rfl⟩
      rw [← hcolumn, herror]
      exact ⟨rfl, hsettings, hsheet⟩

theorem Individual.isGradedBy_ofGenome (g : Genome) : (Individual.ofGenome g).IsGradedBy f := by
  intro v hv
  cases hv

namespace Population

variable {P P' : Population}

theorem isGradedBy_ofList {members : List Individual} (h : ∀ i ∈ members, i.IsGradedBy f) :
    (ofList members).IsGradedBy f := fun i hi => h i (List.mem_toArray.mp hi)

/-- Only the individual in front comes with a score. -/
theorem isGradedBy_bred {head : Option Individual} (hhead : ∀ i ∈ head, i.IsGradedBy f)
    (bred : List Genome) :
    (ofList (head.toList ++ bred.map Individual.ofGenome)).IsGradedBy f := by
  apply isGradedBy_ofList
  intro i hi
  rcases List.mem_append.mp hi with hi | hi
  · exact hhead i (Option.mem_toList.mp hi)
  · obtain ⟨g, -, rfl⟩ := List.mem_map.mp hi
    exact Individual.isGradedBy_ofGenome g

theorem isGradedBy_of_unscored (h : ∀ i, P.score? i = none) : P.IsGradedBy f := by
  intro i hi v hv
  obtain ⟨n, hn⟩ := Array.getElem?_of_mem hi
  have := h n
  rw [score?_of_getElem? hn, hv] at this
  cases this

theorem IsGradedBy.setScore (h : P.IsGradedBy f) {i : Nat} {ind : Individual}
    (hind : P.members[i]? = some ind) {v : Binary64} (hv : f ind.genome = .ok v) :
    (P.setScore i v).IsGradedBy f := by
  intro k hk
  obtain ⟨n, hn⟩ := Array.getElem?_of_mem hk
  rw [getElem?_setScore hind] at hn
  split at hn
  · cases hn
    intro w hw
    cases hw
    exact hv
  · exact h k (Array.mem_of_getElem? hn)

end Population

/-- The population of the arena is the given one with more scores known, and they are right. -/
structure Arena.StaysGraded (A : σ → Prop) (f : Genome → Except Model.Fault Binary64)
    (P : Population) (a : Arena σ) : Prop where
  fills : P.Fills a.population
  graded : a.population.IsGradedBy f
  problem : A a.problem

namespace Scoring

variable {P : Population} (hp : p.IsGradedBy A f)

theorem upholds_member (i : Nat) {a : Arena σ} (ha : a.StaysGraded A f P) :
    Upholds (·.StaysGraded A f P) (Trial.ofExcept (a.population.member i) : Scoring σ Individual)
      (·.IsGradedBy f) :=
  Upholds.ofExcept fun _ hind =>
    ha.graded _ (Array.mem_of_getElem? (Population.member_eq_ok_iff.mp hind))

include hp

/-- Where a score cannot be had, nothing is filled in. -/
theorem upholds_score (i : Nat) :
    Upholds (·.StaysGraded A f P) (score p i) fun _ => True := by
  apply Ensures.get_bind
  intro a ha
  have hmember : Ensures (· = a) (Trial.ofExcept (a.population.member i))
      (fun ind b => b = a ∧ a.population.members[i]? = some ind)
      fun _ b => b.StaysGraded A f P := by
    apply Ensures.ofExcept
    · intro ind hind b hb
      exact ⟨hb, Population.member_eq_ok_iff.mp hind⟩
    · rintro e - _ rfl
      exact ha
  refine hmember.bind fun ind => Ensures.of_forall ?_
  rintro _ ⟨rfl, hind⟩
  cases hscore : ind.score with
  | some v =>
    apply Ensures.pure
    rintro _ rfl
    exact ⟨ha, trivial⟩
  | none =>
    have htraining : Ensures A (p.training ind.genome) (fun v s => f ind.genome = .ok v ∧ A s)
        fun _ s => Arena.StaysGraded A f P ⟨_, s⟩ :=
      (hp.training ind.genome).weaken (fun _ h => h) (fun _ _ h => h)
        fun _ s hs => ⟨ha.fills, ha.graded, hs.2⟩
    have hask := ensures_ask (E := fun _ a => a.StaysGraded A f P) htraining
    refine (hask.at_state ⟨rfl, ha.problem⟩).bind fun v => Ensures.modify_bind (Ensures.pure ?_)
    rintro _ ⟨b, ⟨hpopulation, hv, hA⟩, rfl⟩
    have hnone := (Population.score?_of_getElem? hind).trans hscore
    rw [hpopulation]
    have hfills := Population.fills_setScore (Population.lt_size_of_getElem? hind) hnone v
    exact ⟨⟨ha.fills.trans hfills, ha.graded.setScore hind hv, hA⟩, trivial⟩

theorem upholds_challenge (best : Nat) (v : Binary64) (indices : List Nat) :
    Upholds (·.StaysGraded A f P) (challenge p best v indices) fun _ => True := by
  induction indices generalizing best v with
  | nil => exact Upholds.pure trivial
  | cons i rest ih =>
    refine (upholds_score hp i).bind fun w _ => ?_
    split
    · exact ih i w
    · exact ih best v

theorem upholds_contest (indices : List Nat) :
    Upholds (·.StaysGraded A f P) (contest p indices) fun _ => True := by
  cases indices with
  | nil => exact Upholds.fail _
  | cons i rest => exact (upholds_score hp i).bind fun v _ => upholds_challenge hp i v rest

theorem upholds_winner (indices : List Nat) :
    Upholds (·.StaysGraded A f P) (winner p indices) fun r => r.1.IsGradedBy f := by
  refine (upholds_contest hp indices).bind fun r _ => Upholds.get_bind fun a ha => ?_
  exact (upholds_member r.1 ha).bind fun ind hind => Upholds.pure hind

theorem upholds_fittest :
    Upholds (·.StaysGraded A f P) (fittest p) fun r => r.1.IsGradedBy f :=
  Upholds.get_bind fun _ _ => upholds_winner hp _

theorem upholds_fittestIndex :
    Upholds (·.StaysGraded A f P) (fittestIndex p) fun _ => True :=
  Upholds.get_bind fun _ _ => (upholds_contest hp _).bind fun _ _ => Upholds.pure trivial

theorem upholds_scoreEach (indices : List Nat) :
    Upholds (·.StaysGraded A f P) (scoreEach p indices) fun _ => True := by
  induction indices with
  | nil => exact Upholds.pure trivial
  | cons i rest ih => exact (upholds_score hp i).bind fun _ _ => ih

theorem upholds_evaluate : Upholds (·.StaysGraded A f P) (evaluate p) fun _ => True :=
  Upholds.get_bind fun _ _ => upholds_scoreEach hp _

end Scoring

/-! ## Scans that fail -/

namespace Population

/-- The second population is the first one with the scores of so many members in front. -/
structure ScoredInFront (P P' : Population) (i : Nat) : Prop where
  genomes_eq : P'.genomes = P.genomes
  front : ∀ k < i, (P'.score? k).isSome = true
  rest : ∀ k, i ≤ k → P'.score? k = P.score? k
  known : ∀ k, (P.score? k).isSome = true → (P'.score? k).isSome = true

/-- The member at the index is the first one whose genome has no score. Of the members whose scores
were missing, those before it have got theirs and no other ones. -/
structure StopsAt (f : Genome → Except Model.Fault Binary64) (P P' : Population) (i : Nat)
    (e : Model.Fault) : Prop where
  fault : ∃ g, P.genomes[i]? = some g ∧ f g = .error e
  before : ∀ k < i, ∃ g v, P.genomes[k]? = some g ∧ f g = .ok v
  genomes_eq : P'.genomes = P.genomes
  isSome_iff : ∀ k, (P'.score? k).isSome = true ↔ (P.score? k).isSome = true ∨ k < i
  unknown : P'.score? i = none

variable {P P' : Population}

theorem ScoredInFront.refl (P : Population) : P.ScoredInFront P 0 :=
  ⟨rfl, by simp, fun _ _ => rfl, fun _ h => h⟩

theorem ScoredInFront.succ {i : Nat} (h : P.ScoredInFront P' i)
    (hi : (P'.score? i).isSome = true) : P.ScoredInFront P' (i + 1) where
  genomes_eq := h.genomes_eq
  front k hk := (Nat.lt_succ_iff_lt_or_eq.mp hk).elim (h.front k) fun hk => hk ▸ hi
  rest k hk := h.rest k (by omega)
  known := h.known

theorem ScoredInFront.setScore {i : Nat} (h : P.ScoredInFront P' i) (hi : i < P'.size)
    (v : Binary64) : P.ScoredInFront (P'.setScore i v) (i + 1) where
  genomes_eq := (genomes_setScore P' i v).trans h.genomes_eq
  front k hk := by
    rw [score?_setScore hi]
    split
    · rfl
    · exact h.front k (by omega)
  rest k hk := by
    rw [score?_setScore hi, if_neg (by omega)]
    exact h.rest k (by omega)
  known k hk := by
    rw [score?_setScore hi]
    split
    · rfl
    · exact h.known k hk

theorem IsGradedBy.eq_ok (h : P.IsGradedBy f) {i : Nat} (hi : (P.score? i).isSome = true) :
    ∃ g v, P.genomes[i]? = some g ∧ f g = .ok v := by
  obtain ⟨v, hv⟩ := Option.isSome_iff_exists.mp hi
  obtain ⟨ind, hind, hscore⟩ := Option.bind_eq_some_iff.mp hv
  refine ⟨ind.genome, v, ?_, h ind (Array.mem_of_getElem? hind) v hscore⟩
  rw [genomes, Array.getElem?_map, hind]
  rfl

theorem ScoredInFront.stopsAt {i : Nat} {ind : Individual} {e : Model.Fault}
    (h : P.ScoredInFront P' i) (hgraded : P'.IsGradedBy f) (hind : P'.members[i]? = some ind)
    (hnone : ind.score = none) (he : f ind.genome = .error e) : P.StopsAt f P' i e where
  fault := by
    refine ⟨ind.genome, ?_, he⟩
    rw [← h.genomes_eq, genomes, Array.getElem?_map, hind]
    rfl
  before k hk := h.genomes_eq ▸ hgraded.eq_ok (h.front k hk)
  genomes_eq := h.genomes_eq
  isSome_iff k := by
    constructor
    · intro hk
      by_cases hlt : k < i
      · exact .inr hlt
      · exact .inl (h.rest k (by omega) ▸ hk)
    · rintro (hk | hk)
      · exact h.known k hk
      · exact h.front k hk
  unknown := (score?_of_getElem? hind).trans hnone

end Population

namespace Scoring

/-- A scan has scored all members, or it has stopped at the first one without a score. -/
def Scans {α : Type} (A : σ → Prop) (f : Genome → Except Model.Fault Binary64) (P : Population)
    (t : Scoring σ α) : Prop :=
  Ensures (fun a => a.population = P ∧ A a.problem) t (fun _ a => a.population.AllScored)
    fun e a => ∀ cause, e = .unscored cause → ∃ i, P.StopsAt f a.population i cause

variable {P : Population}

theorem scans_of_keepsInOrder {α : Type} {t : Scoring σ α} (hP : P.IsGradedBy f)
    (h : Ensures
      (fun a => P.ScoredInFront a.population 0 ∧ a.population.IsGradedBy f ∧ A a.problem) t
      (fun _ a => P.ScoredInFront a.population a.population.size ∧ a.population.IsGradedBy f ∧
        A a.problem)
      fun e a => ∀ cause, e = .unscored cause → ∃ i, P.StopsAt f a.population i cause) :
    Scans A f P t := by
  apply h.weaken _ (fun _ _ ha => ha.1.front) fun _ _ ha => ha
  rintro a ⟨rfl, ha⟩
  exact ⟨.refl _, hP, ha⟩

variable (hp : p.IsGradedBy A f)

include hp

theorem keepsInOrder_graded (P : Population) :
    KeepsInOrder p (fun i P' s => P.ScoredInFront P' i ∧ P'.IsGradedBy f ∧ A s)
      fun e a => ∀ cause, e = .unscored cause → ∃ i, P.StopsAt f a.population i cause where
  known i P' s hi h := ⟨h.1.succ hi, h.2⟩
  unknown i P' ind hind hnone := by
    apply Ensures.of_forall
    intro s ⟨hfront, hgraded, hs⟩
    apply ((hp.training ind.genome).at_state hs).weaken (fun _ h => h)
    · intro v s' ⟨hv, hs'⟩
      have hi := Population.lt_size_of_getElem? hind
      exact ⟨hfront.setScore hi v, hgraded.setScore hind hv, hs'⟩
    · rintro e s' ⟨he, -⟩ cause hcause
      cases hcause
      exact ⟨i, hfront.stopsAt hgraded hind hnone he⟩

theorem scans_evaluate (hP : P.IsGradedBy f) : Scans A f P (evaluate p) :=
  scans_of_keepsInOrder hP (keepsInOrder_graded hp P).ensures_evaluate

theorem scans_fittestIndex (hP : P.IsGradedBy f) : Scans A f P (fittestIndex p) :=
  scans_of_keepsInOrder hP ((keepsInOrder_graded hp P).ensures_fittestIndex fun _ _ h => nomatch h)

theorem scans_fittest (hP : P.IsGradedBy f) : Scans A f P (fittest p) :=
  scans_of_keepsInOrder hP ((keepsInOrder_graded hp P).ensures_fittest fun _ _ h => nomatch h)

end Scoring

theorem upholds_reserve {I : σ → Prop} (width count : Nat) :
    Upholds I (reserve width count : Trial SearchFault σ Unit) fun _ => True := by
  by_cases hroom : HasRoom width count
  · rw [reserve_of_hasRoom hroom]
    exact Upholds.pure trivial
  · rw [reserve_of_not_hasRoom hroom]
    exact Upholds.fail _

namespace Breeding

variable {α : Type} {I : Arena σ → Prop} {P : Population} {settings : SearchSettings}

theorem upholds_scoring {t : Scoring σ α} {V : α → Prop} (h : Upholds I t V) :
    Upholds (fun s : Stage σ ρ => I s.arena) (scoring t) V :=
  h.focus (fun _ hs => hs) fun _ _ _ ha => ha

theorem upholds_drawing (d : Draw ρ α) :
    Upholds (fun s : Stage σ ρ => I s.arena) (drawing d) fun _ => True :=
  fun _ _ hs => ⟨hs, trivial⟩

theorem upholds_populationSize :
    Upholds (fun s : Stage σ ρ => I s.arena) populationSize fun _ => True :=
  Upholds.get_bind fun _ _ => Upholds.pure trivial

variable [WordSource ρ] (hp : p.IsGradedBy A f)

include hp

theorem upholds_tournament (size : Nat) :
    Upholds (fun s : Stage σ ρ => s.arena.StaysGraded A f P) (tournament p size)
      (·.IsGradedBy f) := by
  refine upholds_populationSize.bind fun n _ => ?_
  split
  · exact Upholds.fail _
  · refine (upholds_reserve _ _).bind fun _ _ => (upholds_drawing _).bind fun sample _ => ?_
    exact (upholds_scoring (Scoring.upholds_winner hp sample)).bind fun r hr => Upholds.pure hr

theorem upholds_child :
    Upholds (fun s : Stage σ ρ => s.arena.StaysGraded A f P) (child p settings) fun _ => True :=
  (upholds_tournament hp _).bind fun _ _ => (upholds_tournament hp _).bind fun _ _ =>
    upholds_drawing _

theorem upholds_children (n : Nat) :
    Upholds (fun s : Stage σ ρ => s.arena.StaysGraded A f P) (children p settings n)
      fun _ => True := by
  induction n with
  | zero => exact Upholds.pure trivial
  | succ n ih =>
    exact (upholds_child hp).bind fun _ _ => ih.bind fun _ _ => Upholds.pure trivial

theorem upholds_breed {head : Option Individual} (hhead : ∀ i ∈ head, i.IsGradedBy f) :
    Upholds (fun s : Stage σ ρ => s.arena.StaysGraded A f P) (breed p settings head)
      (·.IsGradedBy f) := by
  refine upholds_populationSize.bind fun n _ => ?_
  split
  · exact Upholds.fail _
  · refine (upholds_children hp _).bind fun bred _ => (upholds_drawing _).bind fun mutated _ => ?_
    exact Upholds.pure (Population.isGradedBy_bred hhead mutated)

theorem upholds_breed_fittest :
    Upholds (fun s : Stage σ ρ => s.arena.StaysGraded A f P)
      (do
        let (best, _) ← scoring (Scoring.fittest p)
        breed p settings (some best)) (·.IsGradedBy f) := by
  refine (upholds_scoring (Scoring.upholds_fittest hp)).bind fun r hr => ?_
  exact upholds_breed hp (by simpa using hr)

theorem upholds_evolve :
    Upholds (fun s : Stage σ ρ => s.arena.StaysGraded A f P) (evolve p settings)
      (·.IsGradedBy f) := by
  unfold evolve
  split
  · exact upholds_breed_fittest hp
  · exact upholds_breed hp (by simp)

theorem upholds_evolveWithSeed {seed : Individual} (hseed : seed.IsGradedBy f) :
    Upholds (fun s : Stage σ ρ => s.arena.StaysGraded A f P) (evolveWithSeed p settings seed)
      (·.IsGradedBy f) := by
  unfold evolveWithSeed
  split
  · exact upholds_breed_fittest hp
  · exact upholds_breed hp (by simpa using hseed)

end Breeding

end FormulaSearch
