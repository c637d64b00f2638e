import FormulaSearch.Evolution.Breeding
import FormulaSearch.Proofs.Evolution.Contest
import FormulaSearch.Proofs.Genome.Clamping

/-!
# What breeding does

Breeding scores individuals in its contests and draws words, and it leaves the population where it
is. The next generation has the same size; every slot that is bred comes from two members of the
population by a crossover and a mutation.
-/

namespace FormulaSearch

open Trial (Ensures)

namespace Population

/-- The genome comes from two members by a crossover. -/
def Crosses (P : Population) (g : Genome) : Prop :=
  ∃ a ∈ P.genomes, ∃ b ∈ P.genomes, ∃ origins, g = Genome.cross origins a b

/-- The genome comes from two members by a crossover and a mutation. -/
def Breeds (P : Population) (g : Genome) : Prop :=
  ∃ child, P.Crosses child ∧ ∃ replacements, Genome.AreDrawn replacements ∧
    g = Genome.replace replacements child

/-- A next generation behind the given individual, if there is one. -/
def Follows (P : Population) (head : Option Individual) (next : Population) : Prop :=
  ∃ bred : List Genome, next = .ofList (head.toList ++ bred.map Individual.ofGenome) ∧
    head.toList.length + bred.length = P.size ∧ ∀ g ∈ bred, P.Breeds g

theorem Follows.size_eq {P next : Population} {head : Option Individual}
    (h : P.Follows head next) : next.size = P.size := by
  obtain ⟨bred, rfl, hsize, -⟩ := h
  simpa using hsize

theorem Follows.forall_genomes {P next : Population} {head : Option Individual}
    {G : Genome → Prop} (h : P.Follows head next) (hhead : ∀ i, head = some i → G i.genome)
    (hbred : ∀ g, P.Breeds g → G g) : ∀ g ∈ next.genomes, G g := by
  obtain ⟨bred, rfl, -, hbreeds⟩ := h
  intro g hg
  simp only [genomes, ofList, List.map_toArray, List.mem_toArray, List.mem_map, List.mem_append,
    Option.mem_toList] at hg
  obtain ⟨i, hi | ⟨g', hg', rfl⟩, rfl⟩ := hg
  · exact hhead i hi
  · exact hbred g' (hbreeds g' hg')

/-- Only the individual in front can have a known score. -/
theorem Follows.exists_head {P next : Population} {head : Option Individual}
    (h : P.Follows head next) {i : Nat} {v : Binary64} (hv : next.score? i = some v) :
    ∃ ind, head = some ind ∧ ind.score = some v := by
  obtain ⟨bred, rfl, -, -⟩ := h
  obtain ⟨ind, hind, hscore⟩ := Option.bind_eq_some_iff.mp hv
  have hmem : ind ∈ head.toList ++ bred.map Individual.ofGenome :=
    List.mem_toArray.mp (Array.mem_of_getElem? hind)
  rcases List.mem_append.mp hmem with hmem | hmem
  · exact ⟨ind, Option.mem_toList.mp hmem, hscore⟩
  · obtain ⟨g, -, rfl⟩ := List.mem_map.mp hmem
    cases hscore

theorem Follows.score?_zero {P next : Population} {ind : Individual}
    (h : P.Follows (some ind) next) : next.score? 0 = ind.score := by
  obtain ⟨bred, rfl, -, -⟩ := h
  exact score?_of_getElem? rfl

/-- With elitism the individual in front is the fittest member. -/
theorem genome_mem_of_head {P : Population} {settings : SearchSettings} {head : Option Individual}
    (hhead : if settings.elitism then ∃ best v, head = some best ∧ P.AllScored ∧
      P.IsFittest best v else head = none) {i : Individual} (hi : head = some i) :
    i.genome ∈ P.genomes := by
  split at hhead
  · obtain ⟨best, v, rfl, -, hbest⟩ := hhead
    cases hi
    exact genome_mem hbest.1
  · rw [hhead] at hi
    cases hi

/-- A contest of so many members cannot fail for want of members or of room. -/
def Holds (P : Population) (contestants : Nat) : Prop :=
  0 < P.size ∧ 0 < contestants ∧ HasRoom indexWidth contestants

end Population

theorem ensures_reserve {σ : Type} {A : σ → Prop} {E : SearchFault → σ → Prop} {width count : Nat}
    (h : HasRoom width count ∨ ∀ e s, E e s) : Ensures A (reserve width count) (fun _ => A) E := by
  by_cases hroom : HasRoom width count
  · rw [reserve_of_hasRoom hroom]
    exact Ensures.pure fun s hs => hs
  · rw [reserve_of_not_hasRoom hroom]
    exact Ensures.fail fun s _ => h.resolve_left hroom _ s

namespace Breeding

variable {σ ρ α : Type} {p : Problem σ} {settings : SearchSettings} {K : Population → σ → Prop}
  {E : SearchFault → Arena σ → Prop} {P : Population}

theorem ensures_scoring {t : Scoring σ α} {A : Arena σ → Prop} {B : α → Arena σ → Prop}
    (h : Ensures A t B E) : Ensures (fun s : Stage σ ρ => A s.arena) (scoring t)
      (fun v s => B v s.arena) fun e s => E e s.arena := by
  refine Ensures.focus fun s hs => ?_
  apply h.of_pre
  rintro a rfl
  exact hs

theorem ensures_fittest (hK : Scoring.Keeps p K E)
    (hpos : ∀ P s, K P s → 0 < P.size ∨ ∀ e a, E e a) :
    Ensures (fun s : Stage σ ρ => K s.arena.population s.arena.problem)
      (scoring (Scoring.fittest p))
      (fun r s => K s.arena.population s.arena.problem ∧ s.arena.population.AllScored ∧
        s.arena.population.IsFittest r.1 r.2) fun e s => E e s.arena := by
  apply Ensures.of_forall
  intro s hs
  have hfittest := ensures_scoring (ρ := ρ) (Scoring.ensures_fittest hK (hpos _ _ hs))
  apply (hfittest.at_state ⟨rfl, hs⟩).and_post
  intro r s' ⟨hs', hscored, hbest⟩
  exact ⟨hs'.2, hscored, hbest⟩

/-- Whatever the problem answers, a scan that ends well leaves all scores known. -/
theorem ensures_fittest_scored :
    Ensures (fun _ : Stage σ ρ => True) (scoring (Scoring.fittest p))
      (fun r s => s.arena.population.AllScored ∧ s.arena.population.IsFittest r.1 r.2)
      fun _ _ => True :=
  (ensures_fittest Scoring.keeps_trivial fun _ _ _ => .inr fun _ _ => trivial).and_post
    fun _ _ h => h.2

theorem ensures_drawing {d : Draw ρ α} {A : Arena σ → Prop} {B : α → Prop}
    (h : Draw.Yields d B) : Ensures (fun s : Stage σ ρ => A s.arena) (drawing d)
      (fun v s => A s.arena ∧ B v) fun e s => E e s.arena :=
  fun s _ hs => ⟨hs, h s.random⟩

theorem ensures_populationSize {A : Stage σ ρ → Prop} {E' : SearchFault → Stage σ ρ → Prop} :
    Ensures A populationSize (fun n s => A s ∧ n = s.arena.population.size) E' := by
  refine Ensures.get_bind fun s hs => Ensures.pure ?_
  rintro _ rfl
  exact ⟨hs, rfl⟩

variable [WordSource ρ]

theorem yields_sample {n : Nat} (hn : 0 < n) (size : Nat) :
    Draw.Yields (Draw.times size (Draw.below n) : Draw ρ (List Nat)) fun sample =>
      sample.length = size ∧ ∀ i ∈ sample, i < n :=
  fun r => ⟨Draw.length_times size _ r, (Draw.yields_below hn).times size r⟩

theorem ensures_tournament (hK : Scoring.Keeps p K E) {size : Nat}
    (hP : P.Holds size ∨ ∀ e a, E e a) :
    Ensures (fun s : Stage σ ρ => s.arena.Filled P K) (tournament p size)
      (fun ind s => s.arena.Filled P K ∧ ind.genome ∈ P.genomes) fun e s => E e s.arena := by
  refine ensures_populationSize.bind fun n => Ensures.of_forall ?_
  rintro s ⟨⟨hfills, hKs⟩, rfl⟩
  have hsize := hfills.size_eq
  split
  · next hzero =>
    refine Ensures.fail fun s' _ => ?_
    rcases hP with hP | hE
    · exact absurd (hsize ▸ hzero) hP.1.ne'
    · exact hE _ _
  · next hpos =>
    have hroom : HasRoom indexWidth size ∨ ∀ e (s' : Stage σ ρ), E e s'.arena :=
      hP.imp (fun h => h.2.2) fun hE e s' => hE e s'.arena
    refine (ensures_reserve hroom).bind fun _ => ?_
    have hdraw := ensures_drawing (A := (· = s.arena)) (E := E)
      (yields_sample (ρ := ρ) (Nat.pos_of_ne_zero hpos) size)
    refine (hdraw.at_state rfl).bind fun sample => Ensures.of_forall ?_
    intro s' ⟨hs', hlength, hbelow⟩
    have hnonempty : sample ≠ [] ∨ ∀ e a, E e a := by
      refine hP.imp_left fun h hnil => ?_
      rw [hnil] at hlength
      exact absurd hlength h.2.1.ne
    cases sample with
    | nil =>
      have hE := hnonempty.resolve_left (by simp)
      have hnobody : Ensures (· = s'.arena) (Scoring.winner p []) (fun _ _ => False) E := by
        apply Ensures.never_bind
        exact Ensures.fail fun a _ => hE _ a
      exact ((ensures_scoring hnobody).at_state rfl).never_bind
    | cons first rest =>
      have hwinner := ensures_scoring (ρ := ρ) (Scoring.ensures_winner hK (.inl hbelow))
      refine (hwinner.at_state ?_).bind fun r => Ensures.pure ?_
      · rw [hs']
        exact ⟨rfl, hKs⟩
      · rintro s'' ⟨hs'', -, hmember, -⟩
        refine ⟨hs''.trans hfills, ?_⟩
        rw [← hfills.genomes_eq, ← hs''.1.genomes_eq]
        exact Population.genome_mem hmember

theorem ensures_child (hK : Scoring.Keeps p K E)
    (hP : P.Holds settings.tournamentSize ∨ ∀ e a, E e a) :
    Ensures (fun s : Stage σ ρ => s.arena.Filled P K) (child p settings)
      (fun g s => s.arena.Filled P K ∧ P.Crosses g) fun e s => E e s.arena := by
  refine (ensures_tournament hK hP).bind fun first => Ensures.of_forall ?_
  intro s ⟨hs, hfirst⟩
  refine ((ensures_tournament hK hP).at_state hs).bind fun second => ?_
  apply Ensures.of_forall
  intro s' ⟨hs', hsecond⟩
  have hcross : Draw.Yields
      (Genome.crossover settings.crossoverRate first.genome second.genome : Draw ρ Genome)
      P.Crosses :=
    (Draw.Yields.trivial _).bind fun origins _ =>
      Draw.Yields.pure ⟨_, hfirst, _, hsecond, origins, rfl⟩
  refine (ensures_drawing hcross).of_pre ?_
  rintro _ rfl
  exact hs'

theorem ensures_children (hK : Scoring.Keeps p K E)
    (hP : P.Holds settings.tournamentSize ∨ ∀ e a, E e a) (n : Nat) :
    Ensures (fun s : Stage σ ρ => s.arena.Filled P K) (children p settings n)
      (fun gs s => s.arena.Filled P K ∧ gs.length = n ∧ ∀ g ∈ gs, P.Crosses g)
      fun e s => E e s.arena := by
  induction n with
  | zero => exact Ensures.pure fun s hs => ⟨hs, rfl, by simp⟩
  | succ n ih =>
    refine (ensures_child hK hP).bind fun g => Ensures.of_forall ?_
    intro s ⟨hs, hg⟩
    refine (ih.at_state hs).bind fun rest => Ensures.pure ?_
    intro s' ⟨hs', hlength, hrest⟩
    exact ⟨hs', by simp [hlength], List.forall_mem_cons.mpr ⟨hg, hrest⟩⟩

theorem yields_mutateEach (rate : Binary64) {gs : List Genome} (hgs : ∀ g ∈ gs, P.Crosses g) :
    Draw.Yields (mutateEach rate gs : Draw ρ (List Genome)) fun bred =>
      bred.length = gs.length ∧ ∀ g ∈ bred, P.Breeds g := by
  induction gs with
  | nil => exact Draw.Yields.pure ⟨rfl, by simp⟩
  | cons g rest ih =>
    have hg := hgs g (by simp)
    have hmutate : Draw.Yields (Genome.mutate rate g : Draw ρ Genome) P.Breeds :=
      (Genome.yields_drawReplacements rate).bind fun replacements hdrawn =>
        Draw.Yields.pure ⟨g, hg, replacements, hdrawn, rfl⟩
    refine hmutate.bind fun g' hg' =>
      (ih fun h hh => hgs h (List.mem_cons_of_mem g hh)).bind fun rest' hrest' => ?_
    exact Draw.Yields.pure ⟨by simp [hrest'.1], List.forall_mem_cons.mpr ⟨hg', hrest'.2⟩⟩

theorem ensures_breed (hK : Scoring.Keeps p K E)
    (hP : P.Holds settings.tournamentSize ∨ ∀ e a, E e a) (head : Option Individual) :
    Ensures (fun s : Stage σ ρ => s.arena.Filled P K) (breed p settings head)
      (fun next s => s.arena.Filled P K ∧ P.Follows head next) fun e s => E e s.arena := by
  refine ensures_populationSize.bind fun n => ?_
  split
  · next hzero =>
    apply Ensures.fail
    rintro s ⟨hs, rfl⟩
    rcases hP with hP | hE
    · exact absurd (hs.1.size_eq ▸ hzero) hP.1.ne'
    · exact hE _ _
  · next hpos =>
    apply Ensures.of_forall
    intro s ⟨hs, hn⟩
    have hn : n = P.size := hn.trans hs.1.size_eq
    refine ((ensures_children hK hP _).at_state hs).bind fun bred => ?_
    apply Ensures.of_forall
    intro s' ⟨hs', hlength, hcrossed⟩
    have hmutated := ensures_drawing (A := fun a => a.Filled P K) (E := E)
      (yields_mutateEach (ρ := ρ) settings.mutationRate hcrossed)
    refine (hmutated.at_state hs').bind fun mutated => Ensures.pure ?_
    intro s'' ⟨hs'', hlength', hbred⟩
    refine ⟨hs'', mutated, rfl, ?_, hbred⟩
    have hhead : head.toList.length ≤ 1 := by cases head <;> simp
    omega

theorem ensures_evolve (hK : Scoring.Keeps p K E)
    (hP : P.Holds settings.tournamentSize ∨ ∀ e a, E e a) :
    Ensures (fun s : Stage σ ρ => s.arena.population = P ∧ K P s.arena.problem) (evolve p settings)
      (fun next s => s.arena.Filled P K ∧ ∃ head, P.Follows head next ∧
        if settings.elitism then ∃ best v, head = some best ∧ s.arena.population.AllScored ∧
          s.arena.population.IsFittest best v
        else head = none) fun e s => E e s.arena := by
  unfold evolve
  split
  · next helitism =>
    have hfittest := ensures_scoring (ρ := ρ)
      (Scoring.ensures_fittest hK (hP.imp_left fun h => h.1))
    refine hfittest.bind fun r => Ensures.of_forall ?_
    intro s ⟨hs, hscored, hbest⟩
    have hfilled : Scoring.Keeps p (fun P' s' => s.arena.population = P' ∧ K P' s') E := by
      rintro P' i ind hind hnone s' j ⟨rfl, -⟩
      have := hscored i (Population.lt_size_of_getElem? hind)
      rw [Population.score?_of_getElem? hind, hnone] at this
      cases this
    have hbreed := ensures_breed (ρ := ρ) hfilled hP (some r.1)
    refine (hbreed.at_state ⟨hs.1, rfl, hs.2⟩).and_post ?_
    intro next s' ⟨⟨hfills, hpopulation, hKs'⟩, hfollows⟩
    refine ⟨⟨hfills, hKs'⟩, some r.1, hfollows, r.1, r.2, rfl, ?_, ?_⟩
    · exact hpopulation ▸ hscored
    · exact hpopulation ▸ hbest
  · refine ((ensures_breed hK hP none).of_pre ?_).and_post ?_
    · rintro s ⟨rfl, hKs⟩
      exact ⟨.refl _, hKs⟩
    · intro next s ⟨hs, hfollows⟩
      exact ⟨hs, none, hfollows, rfl⟩

end Breeding

end FormulaSearch
