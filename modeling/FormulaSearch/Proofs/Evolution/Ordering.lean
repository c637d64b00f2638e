import FormulaSearch.Proofs.Evolution.Caching
import FormulaSearch.Proofs.Evolution.Rounds
import FormulaSearch.Proofs.Evolution.Safety

/-!
# A search depends on the order of scores alone

Two problems may score the same genomes differently. If they put all genomes into the same order,
and the targets of two searches separate the same genomes, then both searches go through the same
genomes and end for the same reason. The histories differ in the scores that they record.
-/

namespace FormulaSearch

open Trial (Agree AgreeUnless Ensures)

variable {σ τ ρ : Type} {p : Problem σ} {p' : Problem τ} {f h : Genome → Binary64}
  {settings : SearchSettings} {target : Binary64}

def ScoresOfOne (f h : Genome → Binary64) (v v' : Binary64) : Prop := ∃ g, v = f g ∧ v' = h g

theorem Problem.IsScoredBy.ensures_value (hf : p.IsScoredBy f) (g : Genome) :
    Ensures (fun _ => True) (p.training g) (fun v _ => v = f g) fun _ _ => False := by
  have hkeep : ∀ g s j, Function.const σ () (p.training g s j).state = Function.const σ () s :=
    fun _ _ _ => rfl
  exact (hf.ensures_training hkeep g ()).weaken (fun _ _ => rfl) (fun _ _ h => h.1) fun _ _ => id

theorem Problem.matching_of_order (hf : p.IsScoredBy f) (hh : p'.IsScoredBy h)
    (horder : ∀ g g', f g ≤ f g' ↔ h g ≤ h g') :
    p.Matching p' (ScoresOfOne f h) (fun _ _ _ => True) fun _ _ => True where
  le_iff := by
    rintro _ _ _ _ ⟨g, rfl, rfl⟩ ⟨g', rfl, rfl⟩
    exact horder g g'
  training P i ind hind hnone := by
    have hleft := hf.ensures_value ind.genome
    have hright := hh.ensures_value ind.genome
    apply (Agree.of_ensures hleft hright ?_ ?_ ?_ ?_).of_pre fun _ _ _ => ⟨trivial, trivial⟩
    · exact fun v _ v' _ hv hv' => ⟨⟨ind.genome, hv, hv'⟩, trivial⟩
    · exact fun _ _ _ _ hfalse => hfalse.elim
    · exact fun _ _ _ _ _ => id
    · exact fun _ _ _ _ hfalse => hfalse.elim
  of_fault _ _ _ _ := trivial

theorem Population.matches_of_unscored {V : Binary64 → Binary64 → Prop} {P : Population}
    (hP : ∀ i ∈ P.members, i.score = none) : P.Matches V P := by
  intro k
  rcases hk : P.members[k]? with _ | i
  · exact .none
  · refine .some ⟨rfl, ?_⟩
    rw [hP i (Array.mem_of_getElem? hk)]
    exact .none

/-- The fault is one that the problem validates some genome with. -/
def Problem.FailsToValidate (p : Problem σ) (e : SearchFault) : Prop :=
  ∃ g s j cause, (p.validation g s j).result = .error cause ∧ e = .unscored cause

def SearchSettings.withLimits (s : SearchSettings) (limit : Nat) (target : Binary64) :
    SearchSettings :=
  { s with generationLimit := limit, targetFitness := target }

namespace Search

open Breeding

/-- Both searches found the same genome fittest after the same number of generations, and ended for
the same reason. -/
structure EndsLike (r r' : SearchResult) : Prop where
  best : r.best.genome = r'.best.genome
  generations : r.generations = r'.generations
  termination : r.termination = r'.termination

/-- Both searches went through the same genomes, slot by slot, and ended alike. -/
def Retraces (trace trace' : List Population × SearchResult) : Prop :=
  trace.1.map Population.genomes = trace'.1.map Population.genomes ∧ EndsLike trace.2 trace'.2

theorem Retraces.cons {P P' : Population} (hgenomes : P.genomes = P'.genomes)
    {trace trace' : List Population × SearchResult} (htrace : Retraces trace trace') :
    Retraces (P :: trace.1, trace.2) (P' :: trace'.1, trace'.2) := by
  refine ⟨?_, htrace.2⟩
  rw [List.map_cons, List.map_cons, hgenomes, htrace.1]

/-- The genomes on the stages are the same, beside the same source. Each score that is known is the
one under which its problem knows the genome. -/
abbrev Ranked (f h : Genome → Binary64) (s : Stage σ ρ) (s' : Stage τ ρ) : Prop :=
  s.Matches (ScoresOfOne f h) (fun _ _ _ => True) s'

/-- The limits of a search play no part in breeding. -/
theorem evolve_withLimits [WordSource ρ] {limit : Nat} :
    (evolve p (settings.withLimits limit target) : Breeding σ ρ Population) =
      evolve p settings := by
  have hchildren (n : Nat) : (children p (settings.withLimits limit target) n :
      Breeding σ ρ (List Genome)) = children p settings n := by
    induction n with
    | zero => rfl
    | succ n ih =>
      simp only [children, ih]
      rfl
  have hbreed (head : Option Individual) : (breed p (settings.withLimits limit target) head :
      Breeding σ ρ Population) = breed p settings head := by
    simp only [breed, hchildren]
    rfl
  simp only [evolve, hbreed]
  rfl

theorem ensures_validation_stays (g : Genome) (s : Stage σ ρ) :
    Ensures (· = s) (scoring (Scoring.ask (p.validation g)))
      (fun _ s₁ => s₁.arena.population = s.arena.population ∧ s₁.random = s.random)
      fun e _ => p.FailsToValidate e := by
  have hvalidation : Ensures (fun _ => True) (p.validation g) (fun _ _ => True)
      fun cause _ => p.FailsToValidate (.unscored cause) := by
    intro problem j _
    rcases hrun : p.validation g problem j with ⟨cause | v, problem', j'⟩
    · exact ⟨g, problem, j, cause, congrArg Outcome.result hrun, rfl⟩
    · trivial
  apply Ensures.focus
  rintro _ rfl
  apply Ensures.focus
  rintro _ rfl
  exact hvalidation.weaken (fun _ _ => trivial) (fun _ _ _ => ⟨rfl, rfl⟩) fun _ _ h => h

theorem agree_validation (g g' : Genome) :
    AgreeUnless p.FailsToValidate p'.FailsToValidate (Ranked (ρ := ρ) f h)
      (scoring (Scoring.ask (p.validation g))) (scoring (Scoring.ask (p'.validation g')))
      fun _ _ => Ranked f h := by
  apply AgreeUnless.of_forall
  intro s s' ⟨⟨hP, _⟩, hrandom⟩
  apply (AgreeUnless.of_ensures (ensures_validation_stays g s)
    (ensures_validation_stays g' s')).and_post
  rintro _ _ s₁ s₁' ⟨⟨hpopulation, hrandom₁⟩, hpopulation', hrandom₁'⟩
  refine ⟨⟨?_, trivial⟩, hrandom₁.trans (hrandom.trans hrandom₁'.symm)⟩
  rw [hpopulation, hpopulation']
  exact hP

section

variable (hf : p.IsScoredBy f) (hh : p'.IsScoredBy h) (horder : ∀ g g', f g ≤ f g' ↔ h g ≤ h g')

include hf hh horder

/-- The scans find the same genome, which reaches both targets or neither. -/
theorem agree_scan_ordered (htarget : ∀ g, settings.targetFitness ≤ f g ↔ target ≤ h g) :
    Agree (Ranked (ρ := ρ) f h) (scoring (Scoring.fittest p)) (scoring (Scoring.fittest p'))
      (fun r r' s s' => (r.1.genome = r'.1.genome ∧
        (settings.targetFitness ≤ r.2 ↔ target ≤ r'.2)) ∧ Ranked f h s s')
      (Breeding.Failed fun _ _ => True) := by
  have hmatching := Problem.matching_of_order hf hh horder
  apply (Problem.Matching.agree_scoring_matches hmatching.agree_fittest).and_post
  rintro ⟨best, v⟩ ⟨best', v'⟩ s s' ⟨⟨hbest, g, hv, hv'⟩, hs⟩
  refine ⟨⟨hbest.genome, ?_⟩, hs⟩
  dsimp only at hv hv' ⊢
  rw [hv, hv']
  exact htarget g

theorem agree_finish_ordered (htarget : ∀ g, settings.targetFitness ≤ f g ↔ target ≤ h g)
    {history history' : Array Generation} (hsize : history.size = history'.size) :
    Agree (Ranked (ρ := ρ) f h) (finish p settings history)
      (finish p' { settings with targetFitness := target } history')
      (fun r r' s s' => EndsLike r r' ∧ Ranked f h s s') (Breeding.Failed fun _ _ => True) := by
  refine (agree_scan_ordered hf hh horder htarget).bind fun r r' => Agree.of_fact ?_
  rintro ⟨hbest, hreached⟩
  refine Agree.note_bind (Agree.pure fun s s' hs => ⟨⟨hbest, hsize, ?_⟩, hs⟩)
  exact if_congr hreached rfl rfl

/-- The populations are looked at before they are scored, and have the same genomes. -/
theorem agree_finish_last (htarget : ∀ g, settings.targetFitness ≤ f g ↔ target ≤ h g)
    {history history' : Array Generation} (hsize : history.size = history'.size)
    {P P' : Population} (hP : P.genomes = P'.genomes) :
    Agree (Ranked (ρ := ρ) f h) (do return ([P], ← finish p settings history))
      (do return ([P'], ← finish p' { settings with targetFitness := target } history'))
      (fun trace trace' s s' => Retraces trace trace' ∧ Ranked f h s s')
      (Breeding.Failed fun _ _ => True) := by
  refine (agree_finish_ordered hf hh horder htarget hsize).bind fun r r' => Agree.pure ?_
  intro s s' ⟨hr, hs⟩
  exact ⟨⟨congrArg ([·]) hP, hr⟩, hs⟩

variable [WordSource ρ]

theorem agree_generation_ordered (g g' : Generation) :
    Agree (Ranked (ρ := ρ) f h) (generation p settings g)
      (generation p' { settings with targetFitness := target } g') (fun _ _ => Ranked f h)
      (Breeding.Failed fun _ _ => True) := by
  have hmatching := Problem.matching_of_order hf hh horder
  refine Agree.note_bind (Agree.bind (S := fun _ _ => Ranked f h) ?_ fun _ _ => ?_)
  · exact Agree.modify fun s s' hs => hs
  · have hevolve : (evolve p' { settings with targetFitness := target } : Breeding τ ρ Population) =
        evolve p' settings := evolve_withLimits
    rw [hevolve]
    refine (hmatching.agree_evolve (ρ := ρ)).bind fun P P' => Agree.modify ?_
    exact fun s s' ⟨hP, _, hrandom⟩ => ⟨⟨hP, trivial⟩, hrandom⟩

theorem agree_advanceTraced (htarget : ∀ g, settings.targetFitness ≤ f g ↔ target ≤ h g)
    (remaining : Nat) {history history' : Array Generation}
    (hsize : history.size = history'.size) :
    AgreeUnless p.FailsToValidate p'.FailsToValidate (Ranked (ρ := ρ) f h)
      (advanceTraced p settings remaining history)
      (advanceTraced p' { settings with targetFitness := target } remaining history')
      fun trace trace' s s' => Retraces trace trace' ∧ Ranked f h s s' := by
  have hscan {s : Stage σ ρ} {s' : Stage τ ρ} (hs : Ranked f h s s') :=
    ((agree_scan_ordered hf hh horder htarget).at_states hs).unless p.FailsToValidate
      p'.FailsToValidate
  induction remaining generalizing history history' with
  | zero =>
    apply AgreeUnless.get_bind
    intro s s' hs
    refine (hscan hs).bind fun r r' => AgreeUnless.of_fact ?_
    rintro ⟨-, hreached⟩
    rw [if_congr hreached rfl rfl]
    split <;> exact (agree_finish_last hf hh horder htarget hsize hs.1.1.genomes_eq).unless _ _
  | succ remaining ih =>
    apply AgreeUnless.get_bind
    intro s s' hs
    refine (hscan hs).bind fun r r' => AgreeUnless.of_fact ?_
    rintro ⟨-, hreached⟩
    rw [if_congr hreached rfl rfl]
    split
    · exact (agree_finish_last hf hh horder htarget hsize hs.1.1.genomes_eq).unless _ _
    · refine (agree_validation _ _).bind fun validation validation' => ?_
      refine ((agree_generation_ordered hf hh horder _ _).unless _ _).bind fun _ _ => ?_
      refine (ih ?_).bind fun trace trace' => AgreeUnless.of_fact fun htrace => ?_
      · simp [hsize]
      · exact AgreeUnless.pure fun s₁ s₁' hs₁ => ⟨htrace.cons hs.1.1.genomes_eq, hs₁⟩

end

/-! ## Whole searches -/

/-- Both searches end well and alike. They leave the same genomes and the same source behind. -/
structure Coincide (o : Outcome SearchFault (Stage σ ρ) (List Population × SearchResult))
    (o' : Outcome SearchFault (Stage τ ρ) (List Population × SearchResult)) : Prop where
  traces : ∃ trace trace', o.result = .ok trace ∧ o'.result = .ok trace' ∧ Retraces trace trace'
  genomes : o.state.arena.population.genomes = o'.state.arena.population.genomes
  random : o.state.random = o'.state.random

variable [WordSource ρ]

theorem search_apply (settings : SearchSettings) (s : Stage σ ρ) (j : Journal) :
    search p settings s j = ⟨(traced p settings s j).result.map Prod.snd,
      (traced p settings s j).state, (traced p settings s j).journal⟩ := by
  rw [← map_traced, Trial.map_apply]

theorem traced_eq (hcheck : settings.check = .ok ()) :
    (traced p settings : Breeding σ ρ _) = (reserve recordWidth settings.generationLimit >>=
      fun _ => advanceTraced p settings settings.generationLimit #[]) := by
  unfold traced
  rw [hcheck]
  rfl

theorem agree_traced (hf : p.IsScoredBy f) (hh : p'.IsScoredBy h)
    (horder : ∀ g g', f g ≤ f g' ↔ h g ≤ h g')
    (htarget : ∀ g, settings.targetFitness ≤ f g ↔ target ≤ h g)
    (hcheck : settings.check = .ok ())
    (hcheck' : { settings with targetFitness := target : SearchSettings }.check = .ok ()) :
    AgreeUnless p.FailsToValidate p'.FailsToValidate (Ranked (ρ := ρ) f h) (traced p settings)
      (traced p' { settings with targetFitness := target })
      fun trace trace' s s' => Retraces trace trace' ∧ Ranked f h s s' := by
  rw [traced_eq hcheck, traced_eq hcheck']
  have hreserve := agree_reserve (A := Ranked (σ := σ) (τ := τ) (ρ := ρ) f h)
    (E := fun _ _ => True) (fun _ _ _ => trivial) recordWidth settings.generationLimit
  refine (hreserve.unless _ _).bind fun _ _ => ?_
  exact agree_advanceTraced hf hh horder htarget _ rfl

/-- A search does not fail if its problem always answers and its sizes can be had. -/
theorem exists_traced_eq_ok (hf : p.IsScoredBy f) (hvalidation : ∀ e, ¬ p.FailsToValidate e)
    (hcheck : settings.check = .ok ()) (hroom : HasRoom recordWidth settings.generationLimit)
    (htournament : HasRoom indexWidth settings.tournamentSize) {P : Population}
    (hpositive : 0 < P.size) (problem : σ) (random : ρ) (j : Journal) :
    ∃ trace, (traced p settings ⟨⟨P, problem⟩, random⟩ j).result = .ok trace := by
  have hharmless : p.Harmless (fun _ => True) fun _ => True := {
    training := fun g _ =>
      (hf.ensures_value g).weaken (fun _ _ => trivial) (fun _ _ _ => trivial) fun _ _ => id
    validation := by
      intro g _ s j _
      rcases hrun : p.validation g s j with ⟨cause | v, s', j'⟩
      · exact hvalidation _ ⟨g, s, j, cause, congrArg Outcome.result hrun, rfl⟩
      · trivial
    onGeneration := fun _ _ _ => trivial
    breeds := fun _ _ _ _ => trivial }
  obtain ⟨r, hr, -⟩ := (ensures_search hharmless hcheck hroom htournament
    hpositive).exists_ok (s := ⟨⟨P, problem⟩, random⟩) ⟨rfl, fun _ _ => trivial, trivial⟩ j
  rw [search_apply] at hr
  rcases htraced : (traced p settings ⟨⟨P, problem⟩, random⟩ j).result with e | trace
  · rw [htraced] at hr
    cases hr
  · exact ⟨trace, rfl⟩

/-- Two problems put the genomes into the same order, and the targets of two searches separate the
same genomes. From the same population without scores and the same source both searches go through
the same genomes and end alike, unless one of the problems fails to validate or both searches fail
with the same fault. If the problems always answer and the sizes can be had, neither fails. -/
theorem search_depends_on_order (hf : p.IsScoredBy f) (hh : p'.IsScoredBy h)
    (horder : ∀ g g', f g ≤ f g' ↔ h g ≤ h g')
    (htarget : ∀ g, settings.targetFitness ≤ f g ↔ target ≤ h g)
    (hcheck : settings.check = .ok ())
    (hcheck' : { settings with targetFitness := target : SearchSettings }.check = .ok ())
    {P : Population} (hP : ∀ i ∈ P.members, i.score = none) (problem : σ) (problem' : τ)
    (random : ρ) (j j' : Journal) :
    let settings' := { settings with targetFitness := target }
    let start : Stage σ ρ := ⟨⟨P, problem⟩, random⟩
    let start' : Stage τ ρ := ⟨⟨P, problem'⟩, random⟩
    let o := traced p settings start j
    let o' := traced p' settings' start' j'
    (search p settings start j = ⟨o.result.map Prod.snd, o.state, o.journal⟩ ∧
      search p' settings' start' j' = ⟨o'.result.map Prod.snd, o'.state, o'.journal⟩) ∧
    (Coincide o o' ∨ (∃ e, o.result = .error e ∧ o'.result = .error e) ∨
      (∃ e, o.result = .error e ∧ p.FailsToValidate e) ∨
      ∃ e, o'.result = .error e ∧ p'.FailsToValidate e) ∧
    ((∀ e, ¬ p.FailsToValidate e) → (∀ e, ¬ p'.FailsToValidate e) → 0 < P.size →
      HasRoom recordWidth settings.generationLimit → HasRoom indexWidth settings.tournamentSize →
      Coincide o o') := by
  intro settings' start start' o o'
  have hranked : Ranked f h start start' :=
    ⟨⟨Population.matches_of_unscored hP, trivial⟩, rfl⟩
  have hends := (agree_traced hf hh horder htarget hcheck hcheck').cases hranked j j'
  have hcoincide : Coincide o o' ∨ (∃ e, o.result = .error e ∧ o'.result = .error e) ∨
      (∃ e, o.result = .error e ∧ p.FailsToValidate e) ∨
      ∃ e, o'.result = .error e ∧ p'.FailsToValidate e := by
    refine hends.imp_left ?_
    intro ⟨trace, trace', htrace, htrace', hretraces, hstate⟩
    exact ⟨⟨trace, trace', htrace, htrace', hretraces⟩, hstate.1.1.genomes_eq, hstate.2⟩
  refine ⟨⟨search_apply settings start j, search_apply settings' start' j'⟩, hcoincide, ?_⟩
  intro hvalidation hvalidation' hpositive hroom htournament
  obtain ⟨trace, htrace⟩ := exists_traced_eq_ok hf hvalidation hcheck hroom htournament hpositive
    problem random j
  refine hcoincide.resolve_right ?_
  rintro (⟨e, he, -⟩ | ⟨e, -, hfails⟩ | ⟨e, -, hfails⟩)
  · cases htrace.symm.trans he
  · exact hvalidation e hfails
  · exact hvalidation' e hfails

/-- The second problem scores in another range, counts its questions and validates. Both searches
meet the limit of two generations. -/
theorem search_depends_on_order_other_range :
    let f (g : Genome) : Binary64 := if g.genes.get 0 = 0 then 0 else 1
    let h (g : Genome) : Binary64 := if g.genes.get 0 = 0 then 5 else 7
    let p : Problem Unit := { training := fun g => pure (f g) }
    let p' : Problem Nat := {
      training := fun g n j => ⟨.ok (h g), n + 1, j⟩
      validation := fun g => pure (some (h g)) }
    let settings : SearchSettings :=
      { generationLimit := 2, tournamentSize := 2, targetFitness := 3 }
    let settings' := { settings with targetFitness := 8 }
    let P : Population := .ofList [.ofGenome ⟨.replicate 15 1⟩, .ofGenome ⟨.replicate 15 0⟩,
      .ofGenome ⟨.replicate 15 2⟩]
    let words : RepeatedWords := { words := #[] }
    let o := traced p settings ⟨⟨P, ()⟩, words⟩ #[]
    let o' := traced p' settings' ⟨⟨P, 0⟩, words⟩ #[]
    (p.IsScoredBy f ∧ p'.IsScoredBy h ∧ (∀ g g', f g ≤ f g' ↔ h g ≤ h g') ∧
        ∀ g, settings.targetFitness ≤ f g ↔ settings'.targetFitness ≤ h g) ∧
      Coincide o o' ∧
      o.result.map (fun trace => trace.2.history) = .ok [⟨1, 1, none⟩, ⟨2, 1, none⟩] ∧
      o'.result.map (fun trace => trace.2.history) = .ok [⟨1, 7, some 7⟩, ⟨2, 7, some 7⟩] := by
  intro f h p p' settings settings' P words o o'
  have hf : p.IsScoredBy f := fun _ _ _ => rfl
  have hh : p'.IsScoredBy h := fun _ _ _ => rfl
  have horder (g g' : Genome) : f g ≤ f g' ↔ h g ≤ h g' := by
    by_cases hg : g.genes.get 0 = 0 <;> by_cases hg' : g'.genes.get 0 = 0 <;>
      simp only [f, h, hg, hg', if_true, if_false] <;> decide +kernel
  have htarget (g : Genome) : settings.targetFitness ≤ f g ↔ settings'.targetFitness ≤ h g := by
    by_cases hg : g.genes.get 0 = 0 <;> simp only [f, h, hg, if_true, if_false] <;> decide +kernel
  have hP : ∀ i ∈ P.members, i.score = none := by decide +kernel
  have hvalidation (e : SearchFault) : ¬ p.FailsToValidate e := by
    rintro ⟨g, s, j, cause, hresult, -⟩
    cases hresult
  have hvalidation' (e : SearchFault) : ¬ p'.FailsToValidate e := by
    rintro ⟨g, s, j, cause, hresult, -⟩
    cases hresult
  obtain ⟨-, -, hcoincide⟩ := search_depends_on_order hf hh horder htarget (by decide +kernel)
    (by decide +kernel) hP () 0 words #[] #[]
  refine ⟨⟨hf, hh, horder, htarget⟩, ?_, by decide +kernel, by decide +kernel⟩
  exact hcoincide hvalidation hvalidation' (by decide) (by decide) (by decide)

end Search

end FormulaSearch
