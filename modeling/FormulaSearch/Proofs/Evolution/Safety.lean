import FormulaSearch.Evolution.Search
import FormulaSearch.Proofs.Evolution.Breeding
import FormulaSearch.Proofs.Model.Scoring

/-!
# Searches that cannot fail

A problem that scores all genomes of some kind keeps scoring what is bred from them, if crossover
and mutation stay within the kind. For a model with training data this kind are the genomes that
clamping mends. So only a seed that is not of this kind makes a search fail, and it does so before
anything is scored.
-/

namespace FormulaSearch

open Trial (Ensures)

/-- On genomes of a kind that breeding stays in, the problem never fails. -/
structure Problem.Harmless {σ : Type} (p : Problem σ) (G : Genome → Prop) (I : σ → Prop) :
    Prop where
  training : ∀ g, G g → Ensures I (p.training g) (fun _ => I) fun _ _ => False
  validation : ∀ g, G g → Ensures I (p.validation g) (fun _ => I) fun _ _ => False
  onGeneration : ∀ g s, I s → I (p.onGeneration g s)
  breeds : ∀ P : Population, (∀ g ∈ P.genomes, G g) → ∀ g, P.Breeds g → G g

namespace Search

open Breeding

variable {σ ρ : Type} {p : Problem σ} {settings : SearchSettings} {G : Genome → Prop}
  {I : σ → Prop}

/-- A population of the given size with genomes of the kind, in front of a sound problem. -/
def Safe (n : Nat) (G : Genome → Prop) (I : σ → Prop) (P : Population) (s : σ) : Prop :=
  P.size = n ∧ (∀ g ∈ P.genomes, G g) ∧ I s

theorem keeps_safe (hp : p.Harmless G I) (n : Nat) :
    Scoring.Keeps p (Safe n G I) fun _ _ => False := by
  intro P i ind hind _
  refine Ensures.of_forall fun s hs => ?_
  obtain ⟨hsize, hgenomes, hI⟩ := hs
  have htraining := hp.training ind.genome (hgenomes _ (Population.genome_mem hind))
  apply (htraining.at_state hI).and_post
  intro v s' hs'
  refine ⟨by rw [Population.size_setScore, hsize], ?_, hs'⟩
  rwa [Population.genomes_setScore]

theorem Safe.follows (hp : p.Harmless G I) {n : Nat} {P next : Population} {s : σ}
    {head : Option Individual} (h : Safe n G I P s) (hfollows : P.Follows head next)
    (hhead : ∀ i, head = some i → G i.genome) : Safe n G I next s := by
  obtain ⟨hsize, hgenomes, hI⟩ := h
  exact ⟨hfollows.size_eq.trans hsize,
    hfollows.forall_genomes hhead (hp.breeds P hgenomes), hI⟩

theorem ensures_fittest (hp : p.Harmless G I) {n : Nat} (hn : 0 < n) :
    Ensures (fun s : Stage σ ρ => Safe n G I s.arena.population s.arena.problem)
      (scoring (Scoring.fittest p))
      (fun r s => Safe n G I s.arena.population s.arena.problem ∧ G r.1.genome)
      fun _ _ => False := by
  apply (Breeding.ensures_fittest (keeps_safe hp n) fun P s hs => .inl (hs.1 ▸ hn)).and_post
  rintro r s ⟨hs, -, hbest⟩
  exact ⟨hs, hs.2.1 _ (Population.genome_mem hbest.1)⟩

theorem ensures_finish (hp : p.Harmless G I) {n : Nat} (hn : 0 < n) (history : Array Generation) :
    Ensures (fun s : Stage σ ρ => Safe n G I s.arena.population s.arena.problem)
      (finish p settings history)
      (fun r s => Safe n G I s.arena.population s.arena.problem ∧ G r.best.genome)
      fun _ _ => False :=
  (ensures_fittest hp hn).bind fun _ => Ensures.note_bind (Ensures.pure fun _ hs => hs)

theorem ensures_onStage {α : Type} {population : Population} {random : ρ} {t : Breeding σ ρ α}
    {A : σ → Prop} {B : α → σ → Prop} {E : SearchFault → σ → Prop}
    (h : Ensures (fun s => s.arena.population = population ∧ A s.arena.problem) t
      (fun v s => B v s.arena.problem) fun e s => E e s.arena.problem) :
    Ensures A (onStage population random t) B E := by
  intro problem j hproblem
  have := h ⟨⟨population, problem⟩, random⟩ j ⟨rfl, hproblem⟩
  unfold onStage
  rcases hrun : t ⟨⟨population, problem⟩, random⟩ j with ⟨e | v, s, j'⟩
  · rw [hrun] at this
    exact this
  · rw [hrun] at this
    exact this

variable [WordSource ρ]

theorem ensures_generation (hp : p.Harmless G I) {n : Nat} (hn : 0 < n)
    (htournament : 0 < settings.tournamentSize ∧ HasRoom indexWidth settings.tournamentSize)
    (g : Generation) :
    Ensures (fun s : Stage σ ρ => Safe n G I s.arena.population s.arena.problem)
      (generation p settings g)
      (fun _ s => Safe n G I s.arena.population s.arena.problem) fun _ _ => False := by
  refine Ensures.note_bind (Ensures.modify_bind (Ensures.of_forall ?_))
  rintro s ⟨s', ⟨hsize, hgenomes, hI⟩, rfl⟩
  have hholds : s'.arena.population.Holds settings.tournamentSize :=
    ⟨hsize ▸ hn, htournament⟩
  have hevolve := ensures_evolve (ρ := ρ) (keeps_safe hp n) (.inl hholds)
  refine (hevolve.at_state ?_).bind fun next => Ensures.modify ?_
  · exact ⟨rfl, hsize, hgenomes, hp.onGeneration g _ hI⟩
  · intro s'' ⟨⟨hfills, hs''⟩, head, hfollows, hhead⟩
    have hstart : Safe n G I s'.arena.population s''.arena.problem := ⟨hsize, hgenomes, hs''.2.2⟩
    apply hstart.follows hp hfollows
    intro i hi
    exact hs''.2.1 _ (Population.genome_mem_of_head hhead hi)

theorem ensures_advance (hp : p.Harmless G I) {n : Nat} (hn : 0 < n)
    (htournament : 0 < settings.tournamentSize ∧ HasRoom indexWidth settings.tournamentSize)
    (remaining : Nat) (history : Array Generation) :
    Ensures (fun s : Stage σ ρ => Safe n G I s.arena.population s.arena.problem)
      (advance p settings remaining history)
      (fun r s => Safe n G I s.arena.population s.arena.problem ∧ G r.best.genome)
      fun _ _ => False := by
  induction remaining generalizing history with
  | zero =>
    refine (ensures_fittest hp hn).bind fun r => ?_
    split <;> exact (ensures_finish hp hn history).of_pre fun s hs => hs.1
  | succ remaining ih =>
    refine (ensures_fittest hp hn).bind fun r => ?_
    split
    · exact (ensures_finish hp hn history).of_pre fun s hs => hs.1
    · refine Ensures.of_forall fun s hs => ?_
      obtain ⟨⟨hsize, hgenomes, hI⟩, hbest⟩ := hs
      have hvalidation := ensures_scoring (ρ := ρ) (Scoring.ensures_ask
        (P := s.arena.population) (E := fun _ _ => False) (hp.validation r.1.genome hbest))
      refine (hvalidation.at_state ⟨rfl, hI⟩).bind fun validation => Ensures.bind
        ((ensures_generation hp hn htournament _).of_pre ?_) fun _ => ih _
      intro s' ⟨hs', hI'⟩
      rw [hs']
      exact ⟨hsize, hgenomes, hI'⟩

theorem ensures_advance_of_fittest {A : Arena σ → Prop} {E : SearchFault → Arena σ → Prop}
    (h : Ensures A (Scoring.fittest p) (fun _ _ => False) E) (remaining : Nat)
    (history : Array Generation) :
    Ensures (fun s : Stage σ ρ => A s.arena) (advance p settings remaining history)
      (fun _ _ => False) fun e s => E e s.arena := by
  cases remaining <;> exact (ensures_scoring h).bind fun r s j hs => hs.elim

theorem search_eq (hcheck : settings.check = .ok ())
    (hroom : HasRoom recordWidth settings.generationLimit) :
    (search p settings : Breeding σ ρ SearchResult) =
      advance p settings settings.generationLimit #[] := by
  unfold search
  rw [hcheck, reserve_of_hasRoom hroom]
  rfl

theorem run_eq (hcheck : settings.check = .ok ())
    (hroom : HasRoom recordWidth settings.populationSize) (random : ρ) :
    run p settings random = onStage (Population.draw settings.populationSize random).1
      (Population.draw settings.populationSize random).2 (search p settings) := by
  unfold run
  rw [hcheck, reserve_of_hasRoom hroom]
  rfl

theorem transplant_eq (hcheck : settings.check = .ok ())
    (hroom : HasRoom recordWidth settings.populationSize) (random : ρ) (seed : Genome) :
    transplant p settings random seed = (Trial.note (.transplanted seed) >>= fun _ =>
      onStage (Population.drawAround settings.populationSize (.ofGenome seed) random).1
        (Population.drawAround settings.populationSize (.ofGenome seed) random).2
        (search p settings)) := by
  unfold transplant
  rw [hcheck, reserve_of_hasRoom hroom]
  rfl

theorem ensures_search (hp : p.Harmless G I) (hcheck : settings.check = .ok ())
    (hroom : HasRoom recordWidth settings.generationLimit)
    (htournament : HasRoom indexWidth settings.tournamentSize) {n : Nat} (hn : 0 < n) :
    Ensures (fun s : Stage σ ρ => Safe n G I s.arena.population s.arena.problem)
      (search p settings)
      (fun r s => Safe n G I s.arena.population s.arena.problem ∧ G r.best.genome)
      fun _ _ => False := by
  have hsize := ((SearchSettings.check_eq_ok_iff settings).mp hcheck).2.2.1
  rw [search_eq hcheck hroom]
  exact ensures_advance hp hn ⟨hsize, htournament⟩ _ _

theorem yields_draw (n : Nat) : Draw.Yields (Population.draw n : Draw ρ Population)
    fun P => P.size = n ∧ ∀ g ∈ P.genomes, g.IsDrawn := by
  have hone : Draw.Yields (Individual.draw : Draw ρ Individual) fun i => i.genome.IsDrawn :=
    Genome.yields_draw.bind fun g hg => Draw.Yields.pure hg
  intro random
  have hlength := Draw.length_times n (Individual.draw : Draw ρ Individual) random
  have hdrawn := hone.times n random
  refine ⟨(Population.size_ofList _).trans hlength, ?_⟩
  intro g hg
  obtain ⟨i, hi, rfl⟩ := Array.mem_map.mp hg
  exact hdrawn i (List.mem_toArray.mp hi)

theorem yields_drawAround {n : Nat} (hn : 0 < n) (first : Individual) :
    Draw.Yields (Population.drawAround n first : Draw ρ Population) fun P =>
      P.size = n ∧ P.members[0]? = some first ∧
        ∀ g ∈ P.genomes, g = first.genome ∨ g.IsDrawn := by
  have hone : Draw.Yields (Individual.draw : Draw ρ Individual) fun i => i.genome.IsDrawn :=
    Genome.yields_draw.bind fun g hg => Draw.Yields.pure hg
  intro random
  have hlength := Draw.length_times (n - 1) (Individual.draw : Draw ρ Individual) random
  have hdrawn := hone.times (n - 1) random
  refine ⟨?_, rfl, ?_⟩
  · refine (Population.size_ofList _).trans ?_
    rw [List.length_cons, hlength]
    omega
  · intro g hg
    obtain ⟨i, hi, rfl⟩ := Array.mem_map.mp hg
    rcases List.mem_cons.mp (List.mem_toArray.mp hi) with rfl | hi
    · exact .inl rfl
    · exact .inr (hdrawn i hi)

section

variable (hp : p.Harmless G I) (hdrawn : ∀ g : Genome, g.IsDrawn → G g)
  (hcheck : settings.check = .ok ()) (hlimit : HasRoom recordWidth settings.generationLimit)
  (hsize : HasRoom recordWidth settings.populationSize)
  (htournament : HasRoom indexWidth settings.tournamentSize)

include hp hcheck hlimit htournament

theorem ensures_search_onStage {P : Population} (hP : P.size = settings.populationSize)
    (hgenomes : ∀ g ∈ P.genomes, G g) (random : ρ) :
    Ensures I (onStage P random (search p settings)) (fun r s => I s ∧ G r.best.genome)
      fun _ _ => False := by
  have hpositive := ((SearchSettings.check_eq_ok_iff settings).mp hcheck).1
  have hsearch := ensures_search (ρ := ρ) hp hcheck hlimit htournament
    (n := settings.populationSize) (by omega)
  refine ensures_onStage ((hsearch.of_pre ?_).and_post fun _ _ hs => ⟨hs.1.2.2, hs.2⟩)
  intro s ⟨hpopulation, hproblem⟩
  rw [hpopulation]
  exact ⟨hP, hgenomes, hproblem⟩

include hdrawn hsize

theorem ensures_run (random : ρ) :
    Ensures I (run p settings random) (fun r s => I s ∧ G r.best.genome) fun _ _ => False := by
  obtain ⟨hP, hgenomes⟩ := yields_draw (ρ := ρ) settings.populationSize random
  rw [run_eq hcheck hsize]
  exact ensures_search_onStage hp hcheck hlimit htournament hP
    (fun g hg => hdrawn g (hgenomes g hg)) _

theorem ensures_transplant {seed : Genome} (hseed : G seed) (random : ρ) :
    Ensures I (transplant p settings random seed) (fun r s => I s ∧ G r.best.genome)
      fun _ _ => False := by
  have hpositive := ((SearchSettings.check_eq_ok_iff settings).mp hcheck).1
  obtain ⟨hP, -, hgenomes⟩ := yields_drawAround (ρ := ρ) (n := settings.populationSize)
    (by omega) (.ofGenome seed) random
  rw [transplant_eq hcheck hsize]
  refine Ensures.note_bind (ensures_search_onStage hp hcheck hlimit htournament hP ?_ _)
  intro g hg
  rcases hgenomes g hg with rfl | hdrawnGenome
  · exact hseed
  · exact hdrawn g hdrawnGenome

end

/-! ## Searches of a model -/

/-- A model with training data scores every genome that clamping mends. -/
theorem harmless_model :
    Model.problem.Harmless Genome.IsRenderable fun m => m.training.isLoaded = true where
  training g hg := Ensures.of_forall fun m hm =>
    (Model.ensures_calculate .training hm hg).and_post fun _ m' hm' => by
      rw [← hm]
      exact hm'.isLoaded_eq .training
  validation g hg := Ensures.of_forall fun m hm =>
    (Model.ensures_calculateValidation hg).and_post fun _ m' hm' => by
      rw [← hm]
      exact hm'.isLoaded_eq .training
  onGeneration _ _ hm := hm
  breeds P hP g hg := by
    obtain ⟨_, ⟨a, ha, b, hb, origins, rfl⟩, replacements, hdrawn, rfl⟩ := hg
    exact ((hP a ha).cross (hP b hb) origins).replace hdrawn

section Model

variable {m : Model} (hloaded : m.training.isLoaded = true) (hcheck : settings.check = .ok ())
  (hlimit : HasRoom recordWidth settings.generationLimit)
  (hsize : HasRoom recordWidth settings.populationSize)
  (htournament : HasRoom indexWidth settings.tournamentSize)

include hloaded hcheck hlimit hsize htournament

theorem ensures_run_model (random : ρ) :
    Ensures (· = m) (run Model.problem settings random) (fun _ _ => True) fun _ _ => False :=
  ((ensures_run harmless_model (fun _ => Genome.IsDrawn.isRenderable) hcheck hlimit hsize
    htournament random).at_state hloaded).and_post fun _ _ _ => True.intro

theorem ensures_transplant_model {seed : Genome} (hseed : seed.IsRenderable) (random : ρ) :
    Ensures (· = m) (transplant Model.problem settings random seed) (fun _ _ => True)
      fun _ _ => False :=
  ((ensures_transplant harmless_model (fun _ => Genome.IsDrawn.isRenderable) hcheck hlimit hsize
    htournament hseed random).at_state hloaded).and_post fun _ _ _ => True.intro

omit htournament in
/-- The seed is the first to be scored, so nothing has happened to the model when that fails. -/
theorem ensures_transplant_stray {seed : Genome} {i : Fin 15} (hseed : seed.IsFirstStray i)
    (random : ρ) :
    Ensures (· = m) (transplant Model.problem settings random seed) (fun _ _ => False)
      fun e m' => e = .unscored (.unspellable ⟨i, seed.genes.get i⟩) ∧ m' = m := by
  have hpositive := ((SearchSettings.check_eq_ok_iff settings).mp hcheck).1
  obtain ⟨hP, hfirst, -⟩ := yields_drawAround (ρ := ρ) (n := settings.populationSize)
    (by omega) (.ofGenome seed) random
  rw [transplant_eq hcheck hsize, search_eq hcheck hlimit]
  refine Ensures.note_bind (ensures_onStage ?_)
  have hscan := Scoring.ensures_fittest_of_first (p := Model.problem) (A := (· = m)) hfirst rfl
    (E := fun e a => e = .unscored (.unspellable ⟨i, seed.genes.get i⟩) ∧ a.problem = m)
    ((Model.ensures_calculate_stray .training hloaded hseed).weaken (fun _ h => h)
      (fun _ _ h => h) fun e m' h => ⟨congrArg _ h.1, h.2⟩)
  exact (ensures_advance_of_fittest hscan _ _).and_post fun _ _ h => h

/-- A search of a model with training data never fails. With a seed it fails exactly if a gene of
the seed is astray; then the fault names the first such gene, and the model is as it was. -/
theorem model_search_fails_iff (random : ρ) (j : Journal) :
    (∃ r, (run Model.problem settings random m j).result = .ok r) ∧
    ∀ seed : Genome,
      ((∃ e, (transplant Model.problem settings random seed m j).result = .error e) ↔
        ∃ i : Fin 15, Genome.IsStray i (seed.genes.get i)) ∧
      ∀ i, seed.IsFirstStray i →
        (transplant Model.problem settings random seed m j).result =
            .error (.unscored (.unspellable ⟨i, seed.genes.get i⟩)) ∧
          (transplant Model.problem settings random seed m j).state = m := by
  constructor
  · obtain ⟨r, hr, -⟩ :=
      (ensures_run_model hloaded hcheck hlimit hsize htournament random).exists_ok rfl j
    exact ⟨r, hr⟩
  · intro seed
    have hstray (i : Fin 15) (hi : seed.IsFirstStray i) :
        (transplant Model.problem settings random seed m j).result =
            .error (.unscored (.unspellable ⟨i, seed.genes.get i⟩)) ∧
          (transplant Model.problem settings random seed m j).state = m := by
      obtain ⟨e, he, rfl, hstate⟩ := (ensures_transplant_stray hloaded hcheck hlimit hsize
        hi random).exists_error rfl j
      exact ⟨he, hstate⟩
    refine ⟨⟨?_, ?_⟩, hstray⟩
    · intro ⟨e, he⟩
      by_contra hnone
      have hseed : seed.IsRenderable := fun i hi => hnone ⟨i, hi⟩
      obtain ⟨r, hr, -⟩ := (ensures_transplant_model hloaded hcheck hlimit hsize htournament
        hseed random).exists_ok rfl j
      rw [hr] at he
      cases he
    · intro ⟨i, hi⟩
      obtain ⟨k, hk⟩ := Genome.exists_firstStray (g := seed) fun h => h i hi
      exact ⟨_, (hstray k hk).1⟩

end Model

/-- The default settings, a training table of one row, and a seed whose third gene is astray. -/
theorem model_search_fails_iff_one_row :
    let row : Row := .ofColumns ⟨0⟩ ⟨0⟩ ⟨0⟩ ⟨0⟩ ⟨0⟩ ⟨0⟩
    let m : Model := { training := { sheet := some (.ofTable ⟨[row]⟩) } }
    let seed : Genome := ⟨#v[9, 6, 8, 7, 0, 0, 0, 0, 0, 0, 0, 0, 0, 0, 0]⟩
    (∃ r, (run Model.problem {} (Keystream.ofSeed 42) m #[]).result = .ok r) ∧
      (transplant Model.problem {} (Keystream.ofSeed 42) seed m #[]).result =
        .error (.unscored (.unspellable ⟨2, 8⟩)) := by
  intro row m seed
  have hloaded : m.training.isLoaded = true := rfl
  have hcheck : ({} : SearchSettings).check = .ok () := by decide +kernel
  obtain ⟨hrun, htransplant⟩ := model_search_fails_iff hloaded hcheck (by decide) (by decide)
    (by decide) (Keystream.ofSeed 42) #[]
  have hseed : seed.IsFirstStray 2 := ⟨by decide, by decide⟩
  exact ⟨hrun, ((htransplant seed).2 2 hseed).1⟩

end Search

end FormulaSearch
