import FormulaSearch.Proofs.Evolution.Draws

/-!
# Searches with other limits

A search with a smaller limit of generations and a lower target goes through the same generations as
one with a larger limit and a higher target, and it stops no later. So its history is the beginning
of the other one, and if the other search stops after as many generations, then both end on the same
stage.
-/

namespace FormulaSearch.Search

open Breeding
open Trial (Ensures)

variable {σ ρ : Type} {p : Problem σ} {settings : SearchSettings} {best : Individual}
  {v : Binary64} {s s₁ : Stage σ ρ} {j j₁ : Journal}

/-! ## How a search goes on -/

/-- After a scan, the last look at the population finds the same individual. -/
theorem finish_of_scan (hscan : scoring (Scoring.fittest p) s j = ⟨.ok (best, v), s₁, j₁⟩)
    (settings : SearchSettings) (history : Array Generation) :
    ∃ j₂, finish p settings history s₁ j₁ = ⟨.ok ⟨best, v, history.size,
      if settings.targetFitness ≤ v then .converged else .generationCap, history.toList⟩,
      s₁, j₂⟩ := by
  have hfittest := ensures_fittest_scored.of_ok trivial (congrArg Outcome.result hscan)
  rw [hscan] at hfittest
  obtain ⟨hscored, hbest⟩ := hfittest
  have hfinish : Ensures (fun stage : Stage σ ρ => stage.arena = s₁.arena)
      (finish p settings history) _ fun _ _ => False :=
    ensures_finish_fittest (s := s₁.arena.problem) (E := fun _ _ => False) hscored hbest history
  obtain ⟨r, hr, harena, hresult⟩ := hfinish.exists_ok (s := s₁) rfl j₁
  have hrandom := ((ensures_finish_random history).of_ok rfl hr).1
  rcases hrun : finish p settings history s₁ j₁ with ⟨result, ⟨arena, random⟩, j₂⟩
  rw [hrun] at hr harena hrandom
  dsimp only at hr harena hrandom
  rw [hr, hresult, harena, hrandom]
  exact ⟨j₂, rfl⟩

variable [WordSource ρ]

variable (p settings) in
/-- Records a generation, breeds the next one and goes on. -/
def proceed (remaining : Nat) (best : Individual) (v : Binary64) (history : Array Generation) :
    Breeding σ ρ SearchResult := do
  let validation ← scoring (Scoring.ask (p.validation best.genome))
  let g : Generation := ⟨history.size + 1, v, validation⟩
  generation p settings g
  advance p settings remaining (history.push g)

theorem advance_of_error {e : SearchFault}
    (hscan : scoring (Scoring.fittest p) s j = ⟨.error e, s₁, j₁⟩) (settings : SearchSettings)
    (remaining : Nat) (history : Array Generation) :
    advance p settings remaining history s j = ⟨.error e, s₁, j₁⟩ := by
  cases remaining <;> exact Trial.bind_of_error hscan

theorem advance_cases (hscan : scoring (Scoring.fittest p) s j = ⟨.ok (best, v), s₁, j₁⟩)
    (settings : SearchSettings) (remaining : Nat) (history : Array Generation) :
    (settings.targetFitness ≤ v ∨ remaining = 0) ∧
        advance p settings remaining history s j = finish p settings history s₁ j₁ ∨
      ∃ n, remaining = n + 1 ∧ ¬ settings.targetFitness ≤ v ∧
        advance p settings remaining history s j = proceed p settings n best v history s₁ j₁ := by
  by_cases htarget : settings.targetFitness ≤ v
  · left
    apply And.intro (.inl htarget)
    cases remaining
    all_goals
      rw [advance, Trial.bind_of_ok hscan]
      exact congrFun₂ (if_pos htarget) _ _
  · cases remaining with
    | zero =>
      left
      apply And.intro (.inr rfl)
      rw [advance, Trial.bind_of_ok hscan]
      exact congrFun₂ (if_neg htarget) _ _
    | succ n =>
      right
      refine ⟨n, rfl, htarget, ?_⟩
      rw [advance, Trial.bind_of_ok hscan]
      exact congrFun₂ (if_neg htarget) _ _

theorem ensures_advance_extends (remaining : Nat) (history : Array Generation) :
    Ensures (fun _ : Stage σ ρ => True) (advance p settings remaining history)
      (fun r _ => history.toList <+: r.history ∧ r.generations = r.history.length)
      fun _ _ => True := by
  have hfinish (history : Array Generation) : Ensures (fun _ : Stage σ ρ => True)
      (finish p settings history)
      (fun r _ => history.toList <+: r.history ∧ r.generations = r.history.length)
      fun _ _ => True := by
    refine (Ensures.trivial _).bind fun scan => Ensures.note_bind (Ensures.pure ?_)
    intro _ _
    exact ⟨List.prefix_rfl, Array.length_toList.symm⟩
  induction remaining generalizing history with
  | zero =>
    apply (Ensures.trivial _).bind
    intro scan
    split <;> exact hfinish history
  | succ remaining ih =>
    apply (Ensures.trivial _).bind
    intro scan
    split
    · exact hfinish history
    · refine (Ensures.trivial _).bind fun validation => (Ensures.trivial _).bind fun _ => ?_
      apply (ih _).and_post
      intro r _ ⟨hhistory, hlength⟩
      rw [Array.toList_push] at hhistory
      exact ⟨(List.prefix_append _ _).trans hhistory, hlength⟩

/-- A search that goes on records at least one generation more. -/
theorem ensures_proceed_extends (remaining : Nat) (history : Array Generation) :
    Ensures (fun _ : Stage σ ρ => True) (proceed p settings remaining best v history)
      (fun r _ => history.toList <+: r.history ∧ history.size < r.generations)
      fun _ _ => True := by
  refine (Ensures.trivial _).bind fun validation => (Ensures.trivial _).bind fun _ => ?_
  apply (ensures_advance_extends _ _).and_post
  intro r _ ⟨hhistory, hlength⟩
  have hle := hhistory.length_le
  rw [Array.toList_push] at hhistory hle
  refine ⟨(List.prefix_append _ _).trans hhistory, ?_⟩
  rw [hlength]
  simpa using hle

/-! ## Two searches -/

/-- The first search stops no later than the second one, and on the same stage if it does not stop
earlier. -/
structure IsBeginning (r r' : SearchResult) (s s' : Stage σ ρ) : Prop where
  history : r.history <+: r'.history
  same : r'.generations ≤ r.generations → r.best = r'.best ∧ r.bestFitness = r'.bestFitness ∧
    r.generations = r'.generations ∧ s = s'

/-- If the second trial ends well then so does the first one, with the beginning of its result. -/
def Begins (o o' : Outcome SearchFault (Stage σ ρ) SearchResult) : Prop :=
  ∀ r', o'.result = .ok r' → ∃ r, o.result = .ok r ∧ IsBeginning r r' o.state o'.state

omit [WordSource ρ] in
theorem begins_of_error {o o' : Outcome SearchFault (Stage σ ρ) SearchResult} {e : SearchFault}
    (h : o'.result = .error e) : Begins o o' := by
  intro r' hr'
  rw [h] at hr'
  cases hr'

variable {settings' : SearchSettings} {n n' : Nat}

/-- A search that stops after a scan is the beginning of any search that stops there or goes on. -/
theorem begins_of_stop (hscan : scoring (Scoring.fittest p) s j = ⟨.ok (best, v), s₁, j₁⟩)
    {history : Array Generation}
    (hstop : advance p settings n history s j = finish p settings history s₁ j₁) :
    Begins (advance p settings n history s j) (advance p settings' n' history s j) := by
  obtain ⟨j₂, hfinish⟩ := finish_of_scan hscan settings history
  intro r' hr'
  rw [hstop, hfinish]
  refine ⟨_, rfl, ?_⟩
  rcases advance_cases hscan settings' n' history with ⟨-, hstop'⟩ | ⟨k, -, -, hgo⟩
  · obtain ⟨j₂', hfinish'⟩ := finish_of_scan hscan settings' history
    rw [hstop', hfinish'] at hr' ⊢
    cases hr'
    exact ⟨List.prefix_rfl, fun _ => ⟨rfl, rfl, rfl, rfl⟩⟩
  · rw [hgo] at hr' ⊢
    obtain ⟨hhistory, hlonger⟩ := (ensures_proceed_extends k history).of_ok trivial hr'
    exact ⟨hhistory, fun hle => absurd hlonger (Nat.not_lt.mpr hle)⟩

variable {limit : Nat} {target : Binary64}

theorem generation_withLimits (g : Generation) :
    (generation p (settings.withLimits limit target) g : Breeding σ ρ Unit) =
      generation p settings g := by
  rw [generation, evolve_withLimits, generation]

theorem begins_of_proceed {history : Array Generation} {remaining remaining' : Nat}
    (hlater : ∀ history (s : Stage σ ρ) j, Begins (advance p settings remaining history s j)
      (advance p (settings.withLimits limit target) remaining' history s j))
    (s : Stage σ ρ) (j : Journal) :
    Begins (proceed p settings remaining best v history s j)
      (proceed p (settings.withLimits limit target) remaining' best v history s j) := by
  simp only [proceed, generation_withLimits]
  rcases hvalidation : scoring (Scoring.ask (p.validation best.genome)) s j with
    ⟨e | validation, s₁, j₁⟩
  · apply begins_of_error
    rw [Trial.bind_of_error hvalidation]
  · rw [Trial.bind_of_ok hvalidation, Trial.bind_of_ok hvalidation]
    rcases hgeneration : generation p settings ⟨history.size + 1, v, validation⟩ s₁ j₁ with
      ⟨e | ⟨⟩, s₂, j₂⟩
    · apply begins_of_error
      rw [Trial.bind_of_error hgeneration]
    · rw [Trial.bind_of_ok hgeneration, Trial.bind_of_ok hgeneration]
      exact hlater _ s₂ j₂

/-- One look at the population keeps the searches together. -/
theorem begins_advance_step (hle : n ≤ n') (htarget : settings.targetFitness ≤ target)
    (hlater : ∀ k k', n = k + 1 → n' = k' + 1 → ∀ history (s : Stage σ ρ) j,
      Begins (advance p settings k history s j)
        (advance p (settings.withLimits limit target) k' history s j))
    (history : Array Generation) (s : Stage σ ρ) (j : Journal) :
    Begins (advance p settings n history s j)
      (advance p (settings.withLimits limit target) n' history s j) := by
  rcases hscan : scoring (Scoring.fittest p) s j with ⟨e | ⟨best, v⟩, s₁, j₁⟩
  · apply begins_of_error
    rw [advance_of_error hscan]
  · rcases advance_cases hscan settings n history with ⟨-, hstop⟩ | ⟨k, hk, hbelow, hgo⟩
    · exact begins_of_stop hscan hstop
    · rcases advance_cases hscan (settings.withLimits limit target) n' history with
        ⟨hreached | hzero, -⟩ | ⟨k', hk', -, hgo'⟩
      · -- the second search cannot have reached its target before the first one
        have hreached : target ≤ v := hreached
        obtain ⟨hnan, hnan'⟩ := Binary64.isNaN_of_le htarget
        obtain ⟨-, hv⟩ := Binary64.isNaN_of_le hreached
        exact absurd (Binary64.le_trans hnan hnan' hv htarget hreached) hbelow
      · omega
      · rw [hgo, hgo']
        exact begins_of_proceed (hlater k k' hk hk') s₁ j₁

theorem begins_advance (hle : n ≤ n') (htarget : settings.targetFitness ≤ target)
    (history : Array Generation) (s : Stage σ ρ) (j : Journal) :
    Begins (advance p settings n history s j)
      (advance p (settings.withLimits limit target) n' history s j) := by
  induction n generalizing n' history s j with
  | zero =>
    apply begins_advance_step hle htarget
    intro k k' hk
    omega
  | succ n ih =>
    apply begins_advance_step hle htarget
    intro k k' hk hk'
    obtain rfl : n = k := Nat.succ.inj hk
    exact ih (by omega)

/-- Two searches of a model with training data start from the same population, which can be scored,
and the same source. Their settings differ only in the limits: the first one admits no more
generations, and its target is no higher. If the second search ends well then so does the first one,
and its history is the beginning of the other one. If the second search goes through no more
generations than the first one, then both find the same individual and leave the same model and the
same source behind. Both end well if the population has members and a contest can have the room for
its sample. -/
theorem search_is_beginning {m : Model} (hloaded : m.training.isLoaded = true) {P : Population}
    (hP : ∀ g ∈ P.genomes, g.IsRenderable) (hcheck : settings.check = .ok ())
    (hcheck' : (settings.withLimits limit target).check = .ok ())
    (hle : settings.generationLimit ≤ limit) (htarget : settings.targetFitness ≤ target)
    (hroom : HasRoom recordWidth limit) (random : ρ) (j : Journal) :
    let start : Stage Model ρ := ⟨⟨P, m⟩, random⟩
    let o := search Model.problem settings start j
    let o' := search Model.problem (settings.withLimits limit target) start j
    (∀ r', o'.result = .ok r' → ∃ r, o.result = .ok r ∧ r.history <+: r'.history ∧
      (r'.generations ≤ r.generations → r.best = r'.best ∧ r.bestFitness = r'.bestFitness ∧
        r.generations = r'.generations ∧
        o.state.arena.problem = o'.state.arena.problem ∧ o.state.random = o'.state.random)) ∧
    (0 < P.size → HasRoom indexWidth settings.tournamentSize →
      ∃ r r', o.result = .ok r ∧ o'.result = .ok r') := by
  intro start o o'
  have hroom' : HasRoom recordWidth settings.generationLimit :=
    (Nat.mul_le_mul_left _ hle).trans hroom
  constructor
  · intro r' hr'
    have hbegins : Begins o o' := by
      simp only [o, o', search_eq hcheck hroom', search_eq hcheck' hroom]
      exact begins_advance hle htarget #[] start j
    obtain ⟨r, hr, hhistory, hsame⟩ := hbegins r' hr'
    refine ⟨r, hr, hhistory, fun hgenerations => ?_⟩
    obtain ⟨hbest, hfitness, hgenerations, hstage⟩ := hsame hgenerations
    rw [hstage]
    exact ⟨hbest, hfitness, hgenerations, rfl, rfl⟩
  · intro hpositive htournament
    have hstart : Safe P.size Genome.IsRenderable (fun m => m.training.isLoaded = true) P m :=
      ⟨rfl, hP, hloaded⟩
    obtain ⟨r, hr, -⟩ := (ensures_search harmless_model hcheck hroom' htournament
      hpositive).exists_ok (s := start) hstart j
    obtain ⟨r', hr', -⟩ := (ensures_search harmless_model hcheck' hroom htournament
      hpositive).exists_ok (s := start) hstart j
    exact ⟨r, r', hr, hr'⟩

/-- A training table of one row, three generations instead of one, and a higher target. -/
theorem search_is_beginning_one_row :
    let row : Row := .ofColumns ⟨0⟩ ⟨0⟩ ⟨0⟩ ⟨0⟩ ⟨0⟩ ⟨0⟩
    let m : Model := { training := { sheet := some (.ofTable ⟨[row]⟩) } }
    let P : Population := .ofList [.ofGenome ⟨.replicate 15 0⟩, ⟨⟨.replicate 15 9⟩, some 3⟩]
    let settings : SearchSettings := { generationLimit := 1, targetFitness := 5 }
    let settings' := settings.withLimits 3 7
    let start : Stage Model Keystream := ⟨⟨P, m⟩, Keystream.ofSeed 42⟩
    m.training.isLoaded = true ∧ (∀ g ∈ P.genomes, g.IsRenderable) ∧ settings.check = .ok () ∧
      settings'.check = .ok () ∧ settings.generationLimit ≤ settings'.generationLimit ∧
      settings.targetFitness ≤ settings'.targetFitness ∧
      ∃ r r', (search Model.problem settings start #[]).result = .ok r ∧
        (search Model.problem settings' start #[]).result = .ok r' ∧ r.history <+: r'.history := by
  intro row m P settings settings' start
  have hloaded : m.training.isLoaded = true := rfl
  have hP : ∀ g ∈ P.genomes, g.IsRenderable := by decide +kernel
  have hcheck : settings.check = .ok () := by decide +kernel
  have hcheck' : settings'.check = .ok () := by decide +kernel
  have hle : settings.generationLimit ≤ settings'.generationLimit := by decide
  have htarget : settings.targetFitness ≤ settings'.targetFitness := by decide +kernel
  obtain ⟨hbegins, hends⟩ := search_is_beginning hloaded hP hcheck hcheck' hle htarget (by decide)
    (Keystream.ofSeed 42) #[]
  obtain ⟨-, r', -, hr'⟩ := hends (by decide) (by decide)
  obtain ⟨r, hr, hhistory, -⟩ := hbegins r' hr'
  exact ⟨hloaded, hP, hcheck, hcheck', hle, htarget, r, r', hr, hr', hhistory⟩

end FormulaSearch.Search
