import FormulaSearch.Proofs.Evolution.Offspring
import FormulaSearch.Proofs.Evolution.Ordering

/-!
# What is drawn does not depend on the data

Breeding alternates between draws and scores. How many words a draw takes depends on the words
themselves: a number below a bound may take a second one, and a gene that mutates takes one more
than a gene that stays. But no draw looks at a gene or at a score. So what is drawn for a generation
is drawn by a program that knows the settings and the number of individuals, and nothing else.
-/

namespace FormulaSearch

open Trial (Ensures)

structure Lot where
  /-- Which genes come from the first parent. -/
  origins : Vector Bool 15
  /-- What each gene is replaced by, if it is. -/
  replacements : Vector (Option UInt8) 15

structure Crossing where
  first : Genome
  second : Genome
  origins : Vector Bool 15

structure Mating extends Crossing where
  replacements : Vector (Option UInt8) 15

/-- The matings of a generation, behind the individual that is carried over, if there is one. -/
structure Brood where
  head : Option Individual
  matings : List Mating

def Crossing.child (c : Crossing) : Genome := Genome.cross c.origins c.first c.second

namespace Mating

def child (m : Mating) : Genome := Genome.replace m.replacements m.toCrossing.child

def lot (m : Mating) : Lot := ⟨m.origins, m.replacements⟩

end Mating

namespace Brood

def population (b : Brood) : Population :=
  .ofList (b.head.toList ++ (b.matings.map Mating.child).map Individual.ofGenome)

def lots (b : Brood) : List Lot := b.matings.map Mating.lot

end Brood

/-- All of a stage that draws depend on: how many individuals there are, and the source. -/
def Stage.Offers {σ ρ : Type} (n : Nat) (random : ρ) (s : Stage σ ρ) : Prop :=
  s.arena.population.size = n ∧ s.random = random

/-! ## Draws for each item of a list -/

namespace Draw

variable {ρ α β γ δ : Type}

/-- Draws once for each item, in order, and joins the item with what is drawn for it. -/
def forEach (d : Draw ρ β) (join : α → β → γ) : List α → Draw ρ (List γ)
  | [] => return []
  | a :: rest => do
    let b ← d
    let rest' ← forEach d join rest
    return join a b :: rest'

/-- The items play no part in what is drawn for them. -/
theorem map_forEach {d : Draw ρ β} {join : α → β → γ} {α' : Type} {join' : α' → β → δ} {f : α → α'}
    {g : γ → δ} (h : ∀ a b, g (join a b) = join' (f a) b) (items : List α) :
    List.map g <$> forEach d join items = forEach d join' (items.map f) := by
  induction items with
  | nil => rfl
  | cons a rest ih => simp [forEach, ← ih, h]

theorem length_forEach (d : Draw ρ β) (join : α → β → γ) (items : List α) (r : ρ) :
    (forEach d join items r).1.length = items.length := by
  induction items generalizing r with
  | nil => rfl
  | cons a rest ih => exact congrArg (· + 1) (ih (d r).2)

end Draw

namespace Breeding

variable {σ τ ρ α β γ δ : Type}

/-- Scoring draws nothing. -/
theorem ensures_scoring_random {t : Scoring σ α} {A : Arena σ → Prop} {B : α → Arena σ → Prop}
    {E : SearchFault → Arena σ → Prop} {random : ρ} (h : Ensures A t B E) :
    Ensures (fun s : Stage σ ρ => A s.arena ∧ s.random = random) (scoring t)
      (fun a s => B a s.arena ∧ s.random = random) fun e s => E e s.arena := by
  apply Ensures.focus
  rintro s ⟨hA, hrandom⟩
  exact (h.at_state hA).and_post fun _ _ hB => ⟨hB, hrandom⟩

/-- In front of so many individuals the trial draws like `d` if it ends well, and `view` shows what
was drawn. -/
def DrawsLike (n : Nat) (t : Breeding σ ρ α) (view : α → β) (d : Draw ρ β) : Prop :=
  ∀ random, Ensures (Stage.Offers n random) t
    (fun a s => view a = (d random).1 ∧ s.Offers n (d random).2) fun _ _ => True

namespace DrawsLike

variable {n : Nat} {t : Breeding σ ρ α} {view : α → β} {d : Draw ρ β}

theorem pure {a : α} {b : β} (h : view a = b) :
    DrawsLike n (Pure.pure a : Breeding σ ρ α) view (Pure.pure b) :=
  fun _ => Ensures.pure fun _ hs => ⟨h, hs⟩

theorem fail (e : SearchFault) : DrawsLike n (Trial.fail e : Breeding σ ρ α) view d :=
  fun _ => Ensures.fail fun _ _ => trivial

/-- What is drawn later may depend on what was drawn, but not on the rest of the value. -/
theorem bind {f : α → Breeding σ ρ γ} {view' : γ → δ} {d' : β → Draw ρ δ}
    (ht : DrawsLike n t view d) (hf : ∀ a, DrawsLike n (f a) view' (d' (view a))) :
    DrawsLike n (t >>= f) view' (d >>= d') := by
  intro random
  refine (ht random).bind fun a => Ensures.of_forall ?_
  intro s ⟨hview, hs⟩
  have hnext := (hf a (d random).2).at_state hs
  rwa [hview] at hnext

theorem bind_return {g : α → γ} {view' : γ → β} (h : DrawsLike n t view d)
    (hview : ∀ a, view' (g a) = view a) : DrawsLike n (t >>= fun a => return g a) view' d := by
  intro random
  refine (h random).bind fun a => Ensures.pure ?_
  intro s ⟨hdrawn, hs⟩
  exact ⟨(hview a).trans hdrawn, hs⟩

theorem drawing (d : Draw ρ α) : DrawsLike n (Breeding.drawing d : Breeding σ ρ α) id d := by
  rintro _ s j ⟨hsize, rfl⟩
  exact ⟨rfl, hsize, rfl⟩

theorem populationSize_bind {f : Nat → Breeding σ ρ α} (h : DrawsLike n (f n) view d) :
    DrawsLike n (populationSize >>= f) view d := by
  rintro random s j ⟨rfl, hrandom⟩
  exact h random s j ⟨rfl, hrandom⟩

/-- Setting room aside draws nothing. -/
theorem reserve_bind {width count : Nat} {f : Unit → Breeding σ ρ α}
    (h : DrawsLike n (f ()) view d) : DrawsLike n (reserve width count >>= f) view d := by
  by_cases hroom : HasRoom width count
  · rw [reserve_of_hasRoom hroom, pure_bind]
    exact h
  · rw [reserve_of_not_hasRoom hroom]
    intro random
    exact Ensures.never_bind (Ensures.fail fun _ _ => trivial)

theorem scoring_bind {t : Scoring σ α} {f : α → Breeding σ ρ γ} {view : γ → δ} {d : Draw ρ δ}
    (ht : Ensures (fun a => a.population.size = n) t (fun _ a => a.population.size = n)
      fun _ _ => True)
    (hf : ∀ a, DrawsLike n (f a) view d) : DrawsLike n (scoring t >>= f) view d := by
  intro random
  exact (ensures_scoring_random ht).bind fun a => hf a random

end DrawsLike

/-! ## Breeding, with what is drawn -/

section

variable [WordSource ρ] (p : Problem σ) (settings : SearchSettings)

/-- Like `child`, with the parents and the crossover. -/
def childTraced : Breeding σ ρ Crossing := do
  let first ← tournament p settings.tournamentSize
  let second ← tournament p settings.tournamentSize
  let origins ← drawing (Genome.drawOrigins settings.crossoverRate)
  return ⟨first.genome, second.genome, origins⟩

def childrenTraced : Nat → Breeding σ ρ (List Crossing)
  | 0 => return []
  | n + 1 => do
    let crossing ← childTraced p settings
    let rest ← childrenTraced n
    return crossing :: rest

def mutateEachTraced (rate : Binary64) : List Crossing → Draw ρ (List Mating) :=
  Draw.forEach (Genome.drawReplacements rate) Mating.mk

def breedTraced (head : Option Individual) : Breeding σ ρ Brood := do
  let n ← populationSize
  if n = 0 then Trial.fail .emptyPopulation
  else
    let crossings ← childrenTraced p settings (n - head.toList.length)
    let matings ← drawing (mutateEachTraced settings.mutationRate crossings)
    return ⟨head, matings⟩

/-- Breeds the same generation, and tells from which parents and by which draws. -/
def offspringTraced (seed : Option Individual) : Breeding σ ρ Brood := do
  if settings.elitism then
    let (best, _) ← scoring (Scoring.fittest p)
    breedTraced p settings (some best)
  else breedTraced p settings seed

/-- The sample of a contest, which only the source remembers. -/
def drawSample (n : Nat) : Draw ρ Unit := do
  let _ ← Draw.times settings.tournamentSize (Draw.below n)

/-- The origins of the genes of a child, behind the samples of two contests. -/
def drawCrossing (n : Nat) : Draw ρ (Vector Bool 15) := do
  drawSample settings n
  drawSample settings n
  Genome.drawOrigins settings.crossoverRate

/-- What is drawn for so many children in front of `n` individuals. -/
def drawLots (n count : Nat) : Draw ρ (List Lot) := do
  let origins ← Draw.times count (drawCrossing settings n)
  Draw.forEach (Genome.drawReplacements settings.mutationRate) Lot.mk origins

end

theorem map_drawing (f : α → β) (d : Draw ρ α) :
    f <$> (drawing d : Breeding σ ρ α) = drawing (f <$> d) := rfl

section

variable [WordSource ρ] {p : Problem σ} {settings : SearchSettings}

theorem mutateEach_eq (rate : Binary64) (genomes : List Genome) :
    (mutateEach rate genomes : Draw ρ (List Genome)) =
      Draw.forEach (Genome.drawReplacements rate) (fun g replacements => g.replace replacements)
        genomes := by
  induction genomes with
  | nil => rfl
  | cons g rest ih => simp [mutateEach, Genome.mutate, Draw.forEach, ih]

theorem map_mutateEachTraced (rate : Binary64) (crossings : List Crossing) :
    List.map Mating.child <$> (mutateEachTraced rate crossings : Draw ρ (List Mating)) =
      mutateEach rate (crossings.map Crossing.child) := by
  rw [mutateEach_eq, mutateEachTraced]
  apply Draw.map_forEach
  intro crossing replacements
  rfl

theorem map_childTraced :
    Crossing.child <$> (childTraced p settings : Breeding σ ρ Crossing) = child p settings := by
  simp only [childTraced, child, map_bind, map_pure]
  rfl

theorem map_childrenTraced (n : Nat) :
    List.map Crossing.child <$> (childrenTraced p settings n : Breeding σ ρ (List Crossing)) =
      children p settings n := by
  induction n with
  | zero => rfl
  | succ n ih => simp [childrenTraced, children, ← ih, ← map_childTraced]

theorem map_breedTraced (head : Option Individual) :
    Brood.population <$> (breedTraced p settings head : Breeding σ ρ Brood) =
      breed p settings head := by
  rw [breedTraced, map_bind, breed]
  apply bind_congr
  intro n
  split
  · rfl
  · simp [← map_childrenTraced, ← map_mutateEachTraced, ← map_drawing, Brood.population]

theorem map_offspringTraced (seed : Option Individual) :
    Brood.population <$> (offspringTraced p settings seed : Breeding σ ρ Brood) =
      offspring p settings seed := by
  cases seed <;> simp only [offspringTraced, offspring, evolve, evolveWithSeed]
  all_goals
    split
    · simp [map_breedTraced]
    · exact map_breedTraced _

/-! ## The same draws, whatever is scored -/

theorem ensures_winner_size (n : Nat) (indices : List Nat) :
    Ensures (fun a => a.population.size = n) (Scoring.winner p indices)
      (fun _ a => a.population.size = n) fun _ _ => True := by
  apply Ensures.of_forall
  rintro a rfl
  cases indices with
  | nil =>
    apply Ensures.never_bind
    exact Ensures.fail fun _ _ => trivial
  | cons first rest =>
    apply ((Scoring.ensures_winner Scoring.keeps_trivial (.inr fun _ _ => trivial)).at_state
      ⟨rfl, trivial⟩).and_post
    intro _ a' ⟨hfilled, _⟩
    exact hfilled.1.size_eq

theorem ensures_fittest_size (n : Nat) :
    Ensures (fun a => a.population.size = n) (Scoring.fittest p)
      (fun _ a => a.population.size = n) fun _ _ => True :=
  Ensures.get_bind fun _ ha => (ensures_winner_size n _).at_state ha

theorem drawsLike_tournament (n : Nat) :
    DrawsLike n (tournament p settings.tournamentSize : Breeding σ ρ Individual) (fun _ => ())
      (drawSample settings n) := by
  apply DrawsLike.populationSize_bind
  split
  · exact DrawsLike.fail _
  · apply DrawsLike.reserve_bind
    apply (DrawsLike.drawing _).bind
    intro sample
    exact DrawsLike.scoring_bind (ensures_winner_size n sample) fun _ => DrawsLike.pure rfl

theorem drawsLike_childTraced (n : Nat) :
    DrawsLike n (childTraced p settings : Breeding σ ρ Crossing) Crossing.origins
      (drawCrossing settings n) := by
  apply (drawsLike_tournament n).bind
  intro first
  apply (drawsLike_tournament n).bind
  intro second
  exact (DrawsLike.drawing _).bind_return fun origins => rfl

theorem drawsLike_childrenTraced (n count : Nat) :
    DrawsLike n (childrenTraced p settings count : Breeding σ ρ (List Crossing))
      (List.map Crossing.origins) (Draw.times count (drawCrossing settings n)) := by
  induction count with
  | zero => exact DrawsLike.pure rfl
  | succ count ih =>
    apply (drawsLike_childTraced n).bind
    intro crossing
    exact ih.bind fun rest => DrawsLike.pure rfl

theorem drawsLike_breedTraced (n : Nat) (head : Option Individual) :
    DrawsLike n (breedTraced p settings head : Breeding σ ρ Brood) Brood.lots
      (drawLots settings n (n - head.toList.length)) := by
  apply DrawsLike.populationSize_bind
  split
  · exact DrawsLike.fail _
  · apply (drawsLike_childrenTraced n _).bind
    intro crossings
    have hlots : List.map Mating.lot <$>
        (mutateEachTraced settings.mutationRate crossings : Draw ρ (List Mating)) =
          Draw.forEach (Genome.drawReplacements settings.mutationRate) Lot.mk
            (crossings.map Crossing.origins) := by
      apply Draw.map_forEach
      intro crossing replacements
      rfl
    rw [← hlots, map_eq_pure_bind]
    exact (DrawsLike.drawing _).bind fun matings => DrawsLike.pure rfl

/-- How many slots are not bred, with a seed or without. -/
def carriedOver (settings : SearchSettings) (seeded : Bool) : Nat :=
  (settings.elitism || seeded).toNat

theorem drawsLike_offspringTraced (n : Nat) (seed : Option Individual) :
    DrawsLike n (offspringTraced p settings seed : Breeding σ ρ Brood) Brood.lots
      (drawLots settings n (n - carriedOver settings seed.isSome)) := by
  rw [offspringTraced, carriedOver]
  split
  · next helitism =>
    rw [helitism]
    exact DrawsLike.scoring_bind (ensures_fittest_size n) fun r => drawsLike_breedTraced n _
  · next helitism =>
    have hlength : seed.toList.length = (settings.elitism || seed.isSome).toNat := by
      cases seed <;> simp [helitism]
    rw [← hlength]
    exact drawsLike_breedTraced n seed

theorem length_drawLots (n count : Nat) (random : ρ) :
    (drawLots settings n count random).1.length = count :=
  (Draw.length_forEach _ _ _ _).trans (Draw.length_times _ _ _)

def afterBreeding (settings : SearchSettings) (n : Nat) (seeded : Bool) (random : ρ) : ρ :=
  (drawLots settings n (n - carriedOver settings seeded) random).2

theorem ensures_offspring_random (n : Nat) (seed : Option Individual) (random : ρ) :
    Ensures (Stage.Offers n random) (offspring p settings seed : Breeding σ ρ Population)
      (fun _ s => s.random = afterBreeding settings n seed.isSome random) fun _ _ => True := by
  rw [← map_offspringTraced, map_eq_pure_bind]
  apply (drawsLike_offspringTraced n seed random).bind
  intro brood
  exact Ensures.pure fun s hs => hs.2.2

end

end Breeding

/-! ## Whole searches -/

namespace Search

open Breeding

variable {σ τ ρ : Type} {p : Problem σ} {settings : SearchSettings} {n : Nat} {random : ρ}

theorem ensures_finish_random (history : Array Generation) :
    Ensures (fun s : Stage σ ρ => s.random = random) (finish p settings history)
      (fun r s => s.random = random ∧ r.generations = history.size) fun _ _ => True := by
  have hscan : Ensures (fun s : Stage σ ρ => True ∧ s.random = random)
      (scoring (Scoring.fittest p)) (fun _ s => True ∧ s.random = random) fun _ _ => True :=
    ensures_scoring_random (Ensures.trivial _)
  apply (hscan.of_pre fun s hs => ⟨trivial, hs⟩).bind
  intro r
  exact Ensures.note_bind (Ensures.pure fun s hs => ⟨hs.2, rfl⟩)

theorem ensures_validation_random (g : Genome) :
    Ensures (Stage.Offers n random : Stage σ ρ → Prop) (scoring (Scoring.ask (p.validation g)))
      (fun _ => Stage.Offers n random) fun _ _ => True := by
  apply Ensures.of_forall
  rintro s ⟨rfl, rfl⟩
  apply (ensures_validation_stays g s).weaken (fun _ h => h) ?_ fun _ _ _ => trivial
  intro _ s' ⟨hpopulation, hrandom⟩
  exact ⟨congrArg Population.size hpopulation, hrandom⟩

variable [WordSource ρ]

theorem ensures_generation_random (g : Generation) :
    Ensures (Stage.Offers n random : Stage σ ρ → Prop) (generation p settings g)
      (fun _ => Stage.Offers n (afterBreeding settings n false random)) fun _ _ => True := by
  refine Ensures.note_bind (Ensures.modify_bind (Ensures.of_forall ?_))
  rintro _ ⟨s, ⟨hsize, hrandom⟩, rfl⟩
  have hdrawn : Ensures (Stage.Offers n random) (evolve p settings : Breeding σ ρ Population)
      (fun _ s => s.random = afterBreeding settings n false random) fun _ _ => True :=
    ensures_offspring_random n none random
  have hevolve := ((ensures_evolve Scoring.keeps_trivial (P := s.arena.population)
    (.inr fun _ _ => trivial)).and hdrawn).weaken (fun _ h => h) (fun _ _ h => h)
    fun _ _ _ => trivial
  refine (hevolve.at_state ?_).bind fun next => Ensures.modify ?_
  · exact ⟨⟨rfl, trivial⟩, hsize, hrandom⟩
  · rintro s' ⟨⟨-, head, hfollows, -⟩, hrandom'⟩
    exact ⟨hfollows.size_eq.trans hsize, hrandom'⟩

def sourceAfter (settings : SearchSettings) (n : Nat) (random : ρ) (generations : Nat) : ρ :=
  (afterBreeding settings n false)^[generations] random

/-- Each generation has taken the words for its lots. -/
theorem ensures_advance_random (remaining : Nat) (history : Array Generation) :
    Ensures (Stage.Offers n (sourceAfter settings n random history.size) : Stage σ ρ → Prop)
      (advance p settings remaining history)
      (fun r s => s.random = sourceAfter settings n random r.generations) fun _ _ => True := by
  have hscan (history : Array Generation) :
      Ensures (Stage.Offers n (sourceAfter settings n random history.size) : Stage σ ρ → Prop)
        (scoring (Scoring.fittest p))
        (fun _ => Stage.Offers n (sourceAfter settings n random history.size))
        fun _ _ => True :=
    ensures_scoring_random (ensures_fittest_size n)
  have hfinish (history : Array Generation) : Ensures
      (Stage.Offers n (sourceAfter settings n random history.size) : Stage σ ρ → Prop)
      (finish p settings history)
      (fun r s => s.random = sourceAfter settings n random r.generations)
      fun _ _ => True := by
    apply ((ensures_finish_random history).of_pre fun s hs => hs.2).and_post
    intro r s ⟨hrandom, hgenerations⟩
    rwa [hgenerations]
  induction remaining generalizing history with
  | zero =>
    apply (hscan history).bind
    intro r
    split <;> exact hfinish history
  | succ remaining ih =>
    apply (hscan history).bind
    intro r
    split
    · exact hfinish history
    · apply (ensures_validation_random _).bind
      intro validation
      refine (ensures_generation_random _).bind fun _ => (ih _).of_pre ?_
      intro s hs
      rwa [Array.size_push, sourceAfter, Function.iterate_succ_apply']

theorem ensures_search_random :
    Ensures (Stage.Offers n random : Stage σ ρ → Prop) (search p settings)
      (fun r s => s.random = sourceAfter settings n random r.generations) fun _ _ => True :=
  ensures_search_of_advance (ensures_advance_random settings.generationLimit #[])

def opening (settings : SearchSettings) (random : ρ) (problem : σ) : Stage σ ρ :=
  let (population, random) := Population.draw settings.populationSize random
  ⟨⟨population, problem⟩, random⟩

/-- A run that ends well is a search from its opening. -/
theorem run_of_ok {problem : σ} {j : Journal} {r : SearchResult}
    (h : (run p settings random problem j).result = .ok r) :
    let o := search p settings (opening settings random problem) j
    run p settings random problem j = ⟨o.result, o.state.arena.problem, o.journal⟩ := by
  rcases hcheck : settings.check with fault | ⟨⟩
  · rw [run, hcheck] at h
    cases h
  · by_cases hroom : HasRoom recordWidth settings.populationSize
    · rw [run_eq hcheck hroom]
      rfl
    · rw [run, hcheck, reserve_of_not_hasRoom hroom] at h
      cases h

theorem offspring_of_ok {s : Stage σ ρ} {j : Journal} {seed : Option Individual}
    {next : Population} (h : (offspring p settings seed s j).result = .ok next) :
    ∃ brood, (offspringTraced p settings seed s j).result = .ok brood ∧ brood.population = next ∧
      brood.lots.length = s.arena.population.size - carriedOver settings seed.isSome ∧
      (brood.lots, (offspring p settings seed s j).state.random) =
        drawLots settings s.arena.population.size
          (s.arena.population.size - carriedOver settings seed.isSome) s.random := by
  rw [← map_offspringTraced, Trial.map_apply] at h ⊢
  obtain ⟨brood, hbrood, hnext⟩ := Trial.exists_of_map_eq_ok h
  obtain ⟨hlots, -, hrandom⟩ := (drawsLike_offspringTraced _ seed s.random).of_ok
    (s := s) ⟨rfl, rfl⟩ hbrood
  refine ⟨brood, hbrood, hnext, ?_, Prod.ext hlots hrandom⟩
  rw [hlots]
  exact length_drawLots _ _ _

/-- What is drawn does not depend on the data. Two generations that are bred with the same settings
and the same source from populations of the same size are drawn alike: slot by slot, the same genes
come from the first parent, the same genes are replaced, and they are replaced by the same values.
Both leave the same source behind. So two searches do, if they go through the same number of
generations, and with them two runs. -/
theorem draws_ignore_data (p : Problem σ) (p' : Problem τ) (settings : SearchSettings)
    (j j' : Journal) :
    (∀ (s : Stage σ ρ) (s' : Stage τ ρ), s.arena.population.size = s'.arena.population.size →
      s.random = s'.random →
      (∀ seed seed' next next', seed.isSome = seed'.isSome →
        (offspring p settings seed s j).result = .ok next →
        (offspring p' settings seed' s' j').result = .ok next' →
        (offspring p settings seed s j).state.random =
            (offspring p' settings seed' s' j').state.random ∧
          ∃ brood brood', (offspringTraced p settings seed s j).result = .ok brood ∧
            (offspringTraced p' settings seed' s' j').result = .ok brood' ∧
            brood.population = next ∧ brood'.population = next' ∧ brood.lots = brood'.lots ∧
            brood.lots.length = s.arena.population.size - carriedOver settings seed.isSome) ∧
      ∀ r r', (search p settings s j).result = .ok r → (search p' settings s' j').result = .ok r' →
        r.generations = r'.generations →
        (search p settings s j).state.random = (search p' settings s' j').state.random) ∧
    ∀ (random : ρ) (problem : σ) (problem' : τ) (r r' : SearchResult),
      (run p settings random problem j).result = .ok r →
      (run p' settings random problem' j').result = .ok r' → r.generations = r'.generations →
      let o := search p settings (opening settings random problem) j
      let o' := search p' settings (opening settings random problem') j'
      run p settings random problem j = ⟨o.result, o.state.arena.problem, o.journal⟩ ∧
        run p' settings random problem' j' = ⟨o'.result, o'.state.arena.problem, o'.journal⟩ ∧
        o.state.random = o'.state.random := by
  have hsearch (s : Stage σ ρ) (s' : Stage τ ρ)
      (hsize : s.arena.population.size = s'.arena.population.size)
      (hrandom : s.random = s'.random) (r r' : SearchResult)
      (h : (search p settings s j).result = .ok r) (h' : (search p' settings s' j').result = .ok r')
      (hgenerations : r.generations = r'.generations) :
      (search p settings s j).state.random = (search p' settings s' j').state.random := by
    rw [ensures_search_random.of_ok ⟨hsize, hrandom⟩ h, ensures_search_random.of_ok ⟨rfl, rfl⟩ h',
      hgenerations]
  refine ⟨fun s s' hsize hrandom => ⟨?_, hsearch s s' hsize hrandom⟩, ?_⟩
  · intro seed seed' next next' hseed h h'
    obtain ⟨brood, hbrood, hnext, hlength, hdrawn⟩ := offspring_of_ok h
    obtain ⟨brood', hbrood', hnext', -, hdrawn'⟩ := offspring_of_ok h'
    rw [← hsize, ← hrandom, ← hseed, ← hdrawn] at hdrawn'
    obtain ⟨hlots, hstate⟩ := Prod.mk.inj hdrawn'
    exact ⟨hstate.symm, brood, brood', hbrood, hbrood', hnext, hnext', hlots.symm, hlength⟩
  · intro random problem problem' r r' h h' hgenerations o o'
    have hrun := run_of_ok h
    have hrun' := run_of_ok h'
    refine ⟨hrun, hrun', hsearch _ _ rfl rfl r r' ?_ ?_ hgenerations⟩
    · exact (congrArg Outcome.result hrun).symm.trans h
    · exact (congrArg Outcome.result hrun').symm.trans h'

/-- The second problem scores other genes, keeps count and makes other individuals win. -/
theorem draws_ignore_data_counted_scores :
    let p : Problem Unit := { training := fun _ => pure 0 }
    let p' : Problem Nat := {
      training := fun g n j => ⟨.ok (if g.genes.get 0 = 0 then 1 else 0), n + 1, j⟩ }
    let settings : SearchSettings :=
      { populationSize := 2, generationLimit := 1, tournamentSize := 2 }
    let words : RepeatedWords := { words := #[0x9000000080000000, 0x3000000000000000,
      0xF0000000A0000000, 0x1000000080000000, 0xB000000000000000] }
    let ones : Genome := ⟨.replicate 15 1⟩
    let twos : Genome := ⟨.replicate 15 2⟩
    let zeros : Genome := ⟨.replicate 15 0⟩
    let sixes : Genome := ⟨.replicate 15 6⟩
    let start : Stage Unit RepeatedWords := ⟨⟨.ofList [.ofGenome ones, .ofGenome twos], ()⟩, words⟩
    let start' : Stage Nat RepeatedWords := ⟨⟨.ofList [.ofGenome zeros, .ofGenome sixes], 0⟩, words⟩
    let next : Population :=
      .ofList [⟨twos, some 0⟩, .ofGenome ⟨#v[1, 1, 4, 0, 1, 4, 0, 1, 4, 0, 1, 4, 0, 2, 4]⟩]
    let next' : Population :=
      .ofList [⟨zeros, some 1⟩, .ofGenome ⟨#v[0, 0, 4, 0, 0, 4, 0, 0, 4, 0, 0, 4, 0, 6, 4]⟩]
    (offspring p settings none start #[]).result = .ok next ∧
      (offspring p' settings none start' #[]).result = .ok next' ∧
      (offspring p settings none start #[]).state.random =
        (offspring p' settings none start' #[]).state.random ∧
      (search p settings start #[]).state.random = (search p' settings start' #[]).state.random ∧
      (search p settings (opening settings words ()) #[]).state.random =
        (search p' settings (opening settings words 0) #[]).state.random := by
  intro p p' settings words ones twos zeros sixes start start' next next'
  have hnext : (offspring p settings none start #[]).result = .ok next := by decide +kernel
  have hnext' : (offspring p' settings none start' #[]).result = .ok next' := by decide +kernel
  have hends : (search p settings start #[]).result.map SearchResult.generations = .ok 1 := by
    decide +kernel
  have hends' : (search p' settings start' #[]).result.map SearchResult.generations = .ok 1 := by
    decide +kernel
  have hrun : (run p settings words () #[]).result.map SearchResult.generations = .ok 1 := by
    decide +kernel
  have hrun' : (run p' settings words 0 #[]).result.map SearchResult.generations = .ok 1 := by
    decide +kernel
  obtain ⟨r, hr, hgenerations⟩ := Trial.exists_of_map_eq_ok hends
  obtain ⟨r', hr', hgenerations'⟩ := Trial.exists_of_map_eq_ok hends'
  obtain ⟨r₁, hr₁, hgenerations₁⟩ := Trial.exists_of_map_eq_ok hrun
  obtain ⟨r₁', hr₁', hgenerations₁'⟩ := Trial.exists_of_map_eq_ok hrun'
  obtain ⟨hbred, hruns⟩ := draws_ignore_data (ρ := RepeatedWords) p p' settings #[] #[]
  obtain ⟨hoffspring, hsearch⟩ := hbred start start' rfl rfl
  have hsame := (hoffspring none none next next' rfl hnext hnext').1
  have hsame₁ := (hruns words () 0 r₁ r₁' hr₁ hr₁' (hgenerations₁.trans hgenerations₁'.symm)).2.2
  exact ⟨hnext, hnext', hsame, hsearch r r' hr hr' (hgenerations.trans hgenerations'.symm), hsame₁⟩

end Search

end FormulaSearch
