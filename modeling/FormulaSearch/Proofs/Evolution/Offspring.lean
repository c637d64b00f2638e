import FormulaSearch.Proofs.Evolution.Breeding
import FormulaSearch.Random.Streams

/-!
# What the next generation consists of

The next generation has as many individuals as the last one. The fittest individual or a seed may
stand in front, with its score. Every other individual has no score yet, and each of its genes comes
from the same position of a member of the last generation or is newly drawn. So what holds of the
genes at a position from the start, and of all that is drawn, holds in every later generation.
-/

namespace FormulaSearch

open Trial (Ensures)

namespace Population

variable {P next : Population} {head : Option Individual}

/-- Some member has the gene at this position, or the gene is of the kind that is drawn. -/
def Supplies (P : Population) (i : Fin 15) (v : UInt8) : Prop :=
  (∃ g ∈ P.genomes, g.genes.get i = v) ∨ v.toNat < Genome.drawnBelow

theorem Breeds.supplies {g : Genome} (h : P.Breeds g) : ∀ i, P.Supplies i (g.genes.get i) := by
  obtain ⟨_, ⟨a, ha, b, hb, origins, rfl⟩, replacements, hdrawn, rfl⟩ := h
  have hmember {c : Genome} (hc : c ∈ P.genomes) (i : Fin 15) : P.Supplies i (c.genes.get i) :=
    .inl ⟨c, hc, rfl⟩
  exact Genome.forall_replace (Genome.forall_cross (hmember ha) (hmember hb) origins)
    fun i v hv => .inr (hdrawn i v hv)

/-- A next generation with the given individual in front, if there is one. All others are bred. -/
structure IsBred (P : Population) (head : Option Individual) (next : Population) : Prop where
  size_eq : next.size = P.size
  front : ∀ ind ∈ head, next.members[0]? = some ind
  bred : ∀ k ind, head.toList.length ≤ k → next.members[k]? = some ind →
    ind.score = none ∧ ∀ i, P.Supplies i (ind.genome.genes.get i)

theorem Follows.isBred (h : P.Follows head next) : P.IsBred head next where
  size_eq := h.size_eq
  front := by
    rintro ind rfl
    obtain ⟨bred, rfl, -, -⟩ := h
    rfl
  bred k ind hk hind := by
    obtain ⟨bred, rfl, -, hbreeds⟩ := h
    rw [ofList, List.getElem?_toArray, List.getElem?_append_right hk, List.getElem?_map] at hind
    obtain ⟨g, hg, rfl⟩ := Option.map_eq_some_iff.mp hind
    exact ⟨rfl, (hbreeds g (List.mem_of_getElem? hg)).supplies⟩

/-- All genes of all members have the property that belongs to their position. -/
def AllGenes (P : Population) (S : Fin 15 → UInt8 → Prop) : Prop :=
  ∀ g ∈ P.genomes, ∀ i, S i (g.genes.get i)

theorem Follows.allGenes {S : Fin 15 → UInt8 → Prop} (h : P.Follows head next)
    (hP : P.AllGenes S) (hdrawn : ∀ i v, v.toNat < Genome.drawnBelow → S i v)
    (hhead : ∀ ind, head = some ind → ∀ i, S i (ind.genome.genes.get i)) : next.AllGenes S := by
  refine h.forall_genomes hhead fun g hg i => ?_
  rcases hg.supplies i with ⟨c, hc, hgene⟩ | hnew
  · rw [← hgene]
    exact hP c hc i
  · exact hdrawn i _ hnew

theorem StartsNumeric.setScore (h : P.StartsNumeric) {i : Nat} (hi : i < P.size) {v : Binary64}
    (hv : v.isNaN = false) : (P.setScore i v).StartsNumeric := by
  intro w hw
  rw [score?_setScore hi] at hw
  split at hw
  · cases hw
    exact hv
  · exact h w hw

end Population

/-- The problem scores every genome, with a number. -/
def Problem.ScoresNumbers {σ : Type} (p : Problem σ) (I : σ → Prop) : Prop :=
  ∀ g, Ensures I (p.training g) (fun v s => I s ∧ v.isNaN = false) fun _ _ => False

namespace Breeding

variable {σ ρ : Type} [WordSource ρ] {p : Problem σ} {settings : SearchSettings}
  {K : Population → σ → Prop} {E : SearchFault → Arena σ → Prop} {P : Population} {I : σ → Prop}

/-! ## Both ways to the next generation -/

def offspring (p : Problem σ) (settings : SearchSettings) :
    Option Individual → Breeding σ ρ Population
  | none => evolve p settings
  | some seed => evolveWithSeed p settings seed

theorem evolveWithSeed_of_elitism (h : settings.elitism = true) (seed : Individual) :
    (evolveWithSeed p settings seed : Breeding σ ρ Population) = evolve p settings := by
  rw [evolveWithSeed, evolve, if_pos h, if_pos h]

def IsFront (settings : SearchSettings) (seed : Option Individual) (scored : Population)
    (head : Option Individual) : Prop :=
  if settings.elitism then
    ∃ best v, head = some best ∧ scored.AllScored ∧ scored.IsFittest best v
  else head = seed

theorem ensures_offspring (hK : Scoring.Keeps p K E)
    (hP : P.Holds settings.tournamentSize ∨ ∀ e a, E e a) (seed : Option Individual) :
    Ensures (fun s : Stage σ ρ => s.arena.population = P ∧ K P s.arena.problem)
      (offspring p settings seed)
      (fun next s => s.arena.Filled P K ∧ ∃ head, P.Follows head next ∧
        IsFront settings seed s.arena.population head) fun e s => E e s.arena := by
  cases seed with
  | none => exact ensures_evolve hK hP
  | some seed =>
    by_cases helitism : settings.elitism = true
    · rw [offspring, evolveWithSeed_of_elitism helitism]
      apply (ensures_evolve hK hP).and_post
      intro next s hs
      simpa only [IsFront, helitism, if_true] using hs
    · rw [offspring, evolveWithSeed, if_neg helitism]
      refine ((ensures_breed hK hP (some seed)).of_pre ?_).and_post ?_
      · rintro s ⟨rfl, hKs⟩
        exact ⟨.refl _, hKs⟩
      · intro next s ⟨hs, hfollows⟩
        refine ⟨hs, some seed, hfollows, ?_⟩
        rw [IsFront, if_neg helitism]

/-- What scoring with numbers keeps while a generation is bred. -/
def Numeric (P : Population) (I : σ → Prop) (P' : Population) (s : σ) : Prop :=
  I s ∧ (P.StartsNumeric → P'.StartsNumeric)

theorem keeps_numeric (hp : p.ScoresNumbers I) (P : Population) :
    Scoring.Keeps p (Numeric P I) fun _ _ => False := by
  intro P' i ind hind _
  apply Ensures.of_forall
  intro s ⟨hI, hstart⟩
  apply ((hp ind.genome).at_state hI).and_post
  intro v s' ⟨hI', hv⟩
  exact ⟨hI', fun h => (hstart h).setScore (Population.lt_size_of_getElem? hind) hv⟩

theorem ensures_offspring_numeric (hp : p.ScoresNumbers I) (hP : P.Holds settings.tournamentSize)
    (seed : Option Individual) :
    Ensures (fun s : Stage σ ρ => s.arena.population = P ∧ I s.arena.problem)
      (offspring p settings seed)
      (fun next s => s.arena.Filled P (Numeric P I) ∧ ∃ head, P.Follows head next ∧
        IsFront settings seed s.arena.population head) fun _ _ => False :=
  (ensures_offspring (keeps_numeric hp P) (.inl hP) seed).of_pre fun _ hs => ⟨hs.1, hs.2, id⟩

theorem ensures_offspring_of_elitism (hp : p.ScoresNumbers I)
    (hP : P.Holds settings.tournamentSize) (helitism : settings.elitism = true)
    (seed : Option Individual) :
    Ensures (fun s : Stage σ ρ => s.arena.population = P ∧ I s.arena.problem)
      (offspring p settings seed)
      (fun next s => I s.arena.problem ∧ ∃ best v, P.IsBred (some best) next ∧
        P.Fills s.arena.population ∧ s.arena.population.AllScored ∧ best.score = some v ∧
        (P.StartsNumeric → s.arena.population.IsLastFittest best v)) fun _ _ => False := by
  apply (ensures_offspring_numeric hp hP seed).and_post
  intro next s ⟨⟨hfills, hI, hnumeric⟩, head, hfollows, hfront⟩
  rw [IsFront, if_pos helitism] at hfront
  obtain ⟨best, v, rfl, hscored, hbest⟩ := hfront
  exact ⟨hI, best, v, hfollows.isBred, hfills, hscored, hbest.2,
    fun h => hbest.isLastFittest (hnumeric h)⟩

theorem ensures_offspring_of_not_elitism (hp : p.ScoresNumbers I)
    (hP : P.Holds settings.tournamentSize) (helitism : settings.elitism = false)
    (seed : Option Individual) :
    Ensures (fun s : Stage σ ρ => s.arena.population = P ∧ I s.arena.problem)
      (offspring p settings seed)
      (fun next s => I s.arena.problem ∧ P.IsBred seed next) fun _ _ => False := by
  apply (ensures_offspring_numeric hp hP seed).and_post
  intro next s ⟨⟨_, hI, _⟩, head, hfollows, hfront⟩
  rw [IsFront, helitism] at hfront
  obtain rfl : head = seed := by simpa using hfront
  exact ⟨hI, hfollows.isBred⟩

/-! ## Generations in a row -/

/-- One generation after the other, each with its own settings and perhaps a seed. -/
def lineage (p : Problem σ) : List (SearchSettings × Option Individual) → Breeding σ ρ Unit
  | [] => return
  | (settings, seed) :: rest => do
    let next ← offspring p settings seed
    succeed next
    lineage p rest

/-- A generation for which contests cannot fail, and whose seed has the property. -/
structure Admits (S : Fin 15 → UInt8 → Prop) (step : SearchSettings × Option Individual) :
    Prop where
  contestants : 0 < step.1.tournamentSize
  room : HasRoom indexWidth step.1.tournamentSize
  seed : ∀ ind ∈ step.2, ∀ i, S i (ind.genome.genes.get i)

structure Remains (n : Nat) (S : Fin 15 → UInt8 → Prop) (I : σ → Prop) (s : Stage σ ρ) :
    Prop where
  size_eq : s.arena.population.size = n
  genes : s.arena.population.AllGenes S
  problem : I s.arena.problem

section

variable {S : Fin 15 → UInt8 → Prop} (hp : p.ScoresNumbers I)
  (hdrawn : ∀ i v, v.toNat < Genome.drawnBelow → S i v) {n : Nat} (hn : 0 < n)

include hp hdrawn hn

theorem ensures_succeed_offspring {step : SearchSettings × Option Individual}
    (hstep : Admits S step) :
    Ensures (Remains n S I : Stage σ ρ → Prop) (offspring p step.1 step.2 >>= succeed)
      (fun _ => Remains n S I) fun _ _ => False := by
  apply Ensures.of_forall
  intro s ⟨hsize, hgenes, hI⟩
  have hP : s.arena.population.Holds step.1.tournamentSize :=
    ⟨hsize ▸ hn, hstep.contestants, hstep.room⟩
  have hoffspring := ensures_offspring_numeric (ρ := ρ) hp hP step.2
  refine (hoffspring.at_state ⟨rfl, hI⟩).bind fun next => Ensures.modify ?_
  rintro s' ⟨⟨hfills, hI', -⟩, head, hfollows, hfront⟩
  refine ⟨hfollows.size_eq.trans hsize, hfollows.allGenes hgenes hdrawn ?_, hI'⟩
  rintro ind rfl
  unfold IsFront at hfront
  split at hfront
  · obtain ⟨best, v, hhead, -, hbest⟩ := hfront
    cases hhead
    have hmem := Population.genome_mem hbest.1
    rw [hfills.genomes_eq] at hmem
    exact hgenes _ hmem
  · exact hstep.seed ind hfront.symm

theorem ensures_lineage {steps : List (SearchSettings × Option Individual)}
    (hsteps : ∀ step ∈ steps, Admits S step) :
    Ensures (Remains n S I : Stage σ ρ → Prop) (lineage p steps) (fun _ => Remains n S I)
      fun _ _ => False := by
  induction steps with
  | nil => exact Ensures.pure fun s hs => hs
  | cons step rest ih =>
    obtain ⟨hstep, hrest⟩ := List.forall_mem_cons.mp hsteps
    have hlineage : (lineage p (step :: rest) : Breeding σ ρ Unit) =
        (offspring p step.1 step.2 >>= succeed) >>= fun _ => lineage p rest :=
      (bind_assoc _ _ _).symm
    rw [hlineage]
    exact (ensures_succeed_offspring hp hdrawn hn hstep).bind fun _ => ih hrest

end

/-! ## Elites, seeds and genes -/

/-- Breeding keeps the size. With elitism the fittest individual is carried over, and a seed makes
no difference; without elitism a seed is carried over. All other individuals have no score yet and
genes that are old or newly drawn, so what holds of all of these holds in every later generation. -/
theorem breeding_keeps_size_elite_genes (hp : p.ScoresNumbers I) (hP : 0 < P.size)
    (hcontestants : 0 < settings.tournamentSize)
    (hroom : HasRoom indexWidth settings.tournamentSize) (seed : Individual) :
    let start : Stage σ ρ → Prop := fun s => s.arena.population = P ∧ I s.arena.problem
    (settings.elitism = true →
      Ensures start (evolve p settings)
        (fun next s => I s.arena.problem ∧ ∃ best v, P.IsBred (some best) next ∧
          P.Fills s.arena.population ∧ s.arena.population.AllScored ∧ best.score = some v ∧
          (P.StartsNumeric → s.arena.population.IsLastFittest best v)) (fun _ _ => False) ∧
      (evolveWithSeed p settings seed : Breeding σ ρ Population) = evolve p settings) ∧
    (settings.elitism = false →
      Ensures start (evolve p settings)
        (fun next s => I s.arena.problem ∧ P.IsBred none next) (fun _ _ => False) ∧
      Ensures start (evolveWithSeed p settings seed)
        (fun next s => I s.arena.problem ∧ P.IsBred (some seed) next) fun _ _ => False) ∧
    ∀ S : Fin 15 → UInt8 → Prop, P.AllGenes S →
      (∀ i v, v.toNat < Genome.drawnBelow → S i v) →
      ∀ steps : List (SearchSettings × Option Individual), (∀ step ∈ steps, Admits S step) →
        Ensures start (lineage p steps)
          (fun _ s => s.arena.population.size = P.size ∧ s.arena.population.AllGenes S)
          fun _ _ => False := by
  intro start
  have hholds : P.Holds settings.tournamentSize := ⟨hP, hcontestants, hroom⟩
  refine ⟨fun helitism => ⟨?_, ?_⟩, fun helitism => ⟨?_, ?_⟩, fun S hgenes hdrawn steps hsteps => ?_⟩
  · exact ensures_offspring_of_elitism hp hholds helitism none
  · exact evolveWithSeed_of_elitism helitism seed
  · exact ensures_offspring_of_not_elitism hp hholds helitism none
  · exact ensures_offspring_of_not_elitism hp hholds helitism (some seed)
  · refine ((ensures_lineage hp hdrawn hP hsteps).of_pre ?_).and_post ?_
    · rintro s ⟨rfl, hI⟩
      exact ⟨rfl, hgenes, hI⟩
    · exact fun _ s hs => ⟨hs.size_eq, hs.genes⟩

/-- A single individual, and a seed with genes that are never drawn. -/
theorem breeding_keeps_size_elite_genes_of_one :
    let p : Problem Unit := { training := fun _ => pure 0 }
    let words : RepeatedWords := { words := #[] }
    let settings : SearchSettings := { tournamentSize := 1, elitism := false }
    let P : Population := .ofList [.ofGenome .zero]
    let seed : Individual := ⟨⟨.replicate 15 8⟩, some 3⟩
    (p.ScoresNumbers fun _ => True) ∧ 0 < P.size ∧ 0 < settings.tournamentSize ∧
      HasRoom indexWidth settings.tournamentSize ∧
      ∃ next, (evolveWithSeed p settings seed ⟨⟨P, ()⟩, words⟩ #[]).result = .ok next ∧
        next.size = 1 ∧ next.members[0]? = some seed := by
  intro p words settings P seed
  have hp : p.ScoresNumbers fun _ => True :=
    fun _ => Ensures.pure fun _ _ => ⟨trivial, by decide +kernel⟩
  have hP : 0 < P.size := by decide
  have hcontestants : 0 < settings.tournamentSize := by decide
  have hroom : HasRoom indexWidth settings.tournamentSize := by decide
  obtain ⟨-, hseeded⟩ := (breeding_keeps_size_elite_genes (ρ := RepeatedWords) hp hP hcontestants
    hroom seed).2.1 rfl
  obtain ⟨next, hnext, -, hbred⟩ := hseeded.exists_ok (s := ⟨⟨P, ()⟩, words⟩) ⟨rfl, trivial⟩ #[]
  exact ⟨hp, hP, hcontestants, hroom, next, hnext, hbred.size_eq, hbred.front seed rfl⟩

/-! ## Samples that there is no room for -/

theorem ensures_tournament_of_not_hasRoom {size : Nat} (hroom : ¬ HasRoom indexWidth size) :
    Ensures (fun s : Stage σ ρ => 0 < s.arena.population.size) (tournament p size)
      (fun _ _ => False) fun e _ => e = .outOfMemory := by
  refine ensures_populationSize.bind fun n => ?_
  split
  · next hzero =>
    refine Ensures.fail fun s hs => ?_
    rw [hzero] at hs
    exact absurd hs.2 hs.1.ne
  · rw [reserve_of_not_hasRoom hroom]
    exact Ensures.never_bind (Ensures.fail fun _ _ => rfl)

/-- Where a slot has to be bred, its contests need the room. -/
theorem ensures_breed_of_not_hasRoom (hroom : ¬ HasRoom indexWidth settings.tournamentSize)
    (head : Option Individual) :
    Ensures (fun s : Stage σ ρ => head.toList.length < s.arena.population.size)
      (breed p settings head) (fun _ _ => False) fun e _ => e = .outOfMemory := by
  refine ensures_populationSize.bind fun n => ?_
  split
  · next hzero =>
    refine Ensures.fail fun s hs => ?_
    rw [← hs.2, hzero] at hs
    exact absurd hs.1 (Nat.not_lt_zero _)
  · apply Ensures.never_bind
    apply Ensures.of_forall
    intro s ⟨hlt, hn⟩
    obtain ⟨k, hk⟩ : ∃ k, n - head.toList.length = k + 1 :=
      ⟨n - head.toList.length - 1, by omega⟩
    have hfirst := (ensures_tournament_of_not_hasRoom (ρ := ρ) (p := p) hroom).at_state (s := s)
      (Nat.zero_lt_of_lt hlt)
    rw [hk, children, child]
    exact hfirst.never_bind.never_bind

/-- A tournament can ask for a larger sample than there can be room for, and a first individual
whose known score is NaN goes before all numbers. -/
theorem breeding_needs_room_and_numbers :
    let p : Problem Unit := { training := fun _ => pure 0 }
    let words : RepeatedWords := { words := #[] }
    let ones : Genome := ⟨.replicate 15 1⟩
    let settings : SearchSettings := { tournamentSize := 2 ^ 61, elitism := false }
    let P : Population := .ofList [.ofGenome .zero, .ofGenome .zero]
    let P' : Population := .ofList [⟨.zero, some .nan⟩, ⟨ones, some 0⟩]
    (p.ScoresNumbers fun _ => True) ∧ 0 < settings.tournamentSize ∧
      (evolve p settings ⟨⟨P, ()⟩, words⟩ #[]).result = .error .outOfMemory ∧
      (evolve p {} ⟨⟨P', ()⟩, words⟩ #[]).result.map (fun next => next.members[0]?) =
        .ok (some ⟨.zero, some .nan⟩) := by
  intro p words ones settings P P'
  have hp : p.ScoresNumbers fun _ => True :=
    fun _ => Ensures.pure fun _ _ => ⟨trivial, by decide +kernel⟩
  have hroom : ¬ HasRoom indexWidth settings.tournamentSize := by decide
  have hfails : Ensures (fun s : Stage Unit RepeatedWords => 0 < s.arena.population.size)
      (evolve p settings) (fun _ _ => False) fun e _ => e = .outOfMemory :=
    ensures_breed_of_not_hasRoom hroom none
  obtain ⟨e, he, rfl⟩ := hfails.exists_error (s := ⟨⟨P, ()⟩, words⟩) (by decide) #[]
  exact ⟨hp, by decide, he, by decide +kernel⟩

end Breeding

end FormulaSearch
