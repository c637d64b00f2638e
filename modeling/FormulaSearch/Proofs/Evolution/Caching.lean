import FormulaSearch.Proofs.Evolution.Comparison
import FormulaSearch.Proofs.Evolution.Contest
import FormulaSearch.Proofs.Evolution.Uncached
import FormulaSearch.Random.Streams

/-!
# Keeping scores

If the score of a genome never changes, a search may keep the scores it knows: it takes the same
course as one that keeps none and scores both genomes in every comparison. The two searches are run
side by side. Whatever scores are filled in on the way, they are those of the genomes beside them.
-/

namespace FormulaSearch

open Trial (Agree Ensures)

def Problem.IsScoredBy {σ : Type} (p : Problem σ) (f : Genome → Binary64) : Prop :=
  ∀ g s j, (p.training g s j).result = .ok (f g)

/-- A state may count or record what is scored for training, as long as validation does not look at
that: scoring does not change what `keep` leaves of the state, and validation depends on nothing
else. -/
structure Problem.Separates {σ τ : Type} (p : Problem σ) (keep : σ → τ) : Prop where
  training : ∀ g s j, keep (p.training g s j).state = keep s
  validation : ∀ g s s' j j', keep s = keep s' →
    (p.validation g s j).result = (p.validation g s' j').result ∧
      keep (p.validation g s j).state = keep (p.validation g s' j').state
  onGeneration : ∀ g s s', keep s = keep s' → keep (p.onGeneration g s) = keep (p.onGeneration g s')

/-- The score is that of the genome, if it is known. -/
def Individual.IsScoredBy (f : Genome → Binary64) (i : Individual) : Prop :=
  ∀ v, i.score = some v → v = f i.genome

def Population.IsScoredBy (f : Genome → Binary64) (P : Population) : Prop :=
  ∀ i ∈ P.members, i.IsScoredBy f

/-- The bare genomes are those of the population, whose known scores are right. -/
structure Stage.Shows {σ τ ρ : Type} (f : Genome → Binary64) (keep : σ → τ) (s : Stage σ ρ)
    (b : Bare σ ρ) : Prop where
  genomes : s.arena.population.genomes = b.genomes
  scored : s.arena.population.IsScoredBy f
  problem : keep s.arena.problem = keep b.problem
  random : s.random = b.random

def SearchResult.bare (r : SearchResult) : SearchResult :=
  { r with best := .ofGenome r.best.genome }

variable {σ τ ρ α : Type} {p : Problem σ} {f : Genome → Binary64} {keep : σ → τ}
  {settings : SearchSettings}

theorem Population.IsScoredBy.setScore {P : Population} (h : P.IsScoredBy f) {i : Nat}
    {ind : Individual} (hind : P.members[i]? = some ind) :
    (P.setScore i (f ind.genome)).IsScoredBy f := by
  intro k hk
  obtain ⟨n, hn⟩ := Array.getElem?_of_mem hk
  rw [getElem?_setScore hind] at hn
  split at hn
  · cases hn
    intro v hv
    exact (Option.some.inj hv).symm
  · exact h k (Array.mem_of_getElem? hn)

theorem Problem.IsScoredBy.ensures_training (hf : p.IsScoredBy f)
    (hkeep : ∀ g s j, keep (p.training g s j).state = keep s) (g : Genome) (kept : τ) :
    Ensures (fun s => keep s = kept) (p.training g) (fun v s => v = f g ∧ keep s = kept)
      fun _ _ => False := by
  intro s j hs
  have hresult := hf g s j
  have hstate := hkeep g s j
  rcases hrun : p.training g s j with ⟨_ | v, s', j'⟩
  · simp [hrun] at hresult
  · rw [hrun] at hresult hstate
    exact ⟨Except.ok.inj hresult, hstate.trans hs⟩

theorem Problem.Separates.agree_validation (h : p.Separates keep) (g : Genome) :
    Trial.Agree (fun s s' => keep s = keep s') (p.validation g) (p.validation g)
      (fun v v' s s' => v = v' ∧ keep s = keep s') fun s s' => keep s = keep s' := by
  intro s s' j j' hs
  obtain ⟨hresult, hkeep⟩ := h.validation g s s' j j' hs
  rcases hrun : p.validation g s j with ⟨e | v, s₁, j₁⟩ <;>
    rcases hrun' : p.validation g s' j' with ⟨e' | v', s₁', j₁'⟩ <;>
    rw [hrun, hrun'] at hresult hkeep
  · exact ⟨Except.error.inj hresult, hkeep⟩
  · cases hresult
  · cases hresult
  · exact ⟨Except.ok.inj hresult, hkeep⟩

theorem Problem.IsScoredBy.observed (hf : p.IsScoredBy f) : p.observed.IsScoredBy f :=
  fun g s j => hf g s.state j

theorem Problem.Separates.observed (h : p.Separates keep) :
    p.observed.Separates (keep ∘ Observed.state) where
  training g s := h.training g s.state
  validation g s s' := h.validation g s.state s'.state
  onGeneration g s s' := h.onGeneration g s.state s'.state

/-- The stage of the arena shows the bare genomes, which are the given ones. -/
def Arena.Beside (f : Genome → Binary64) (keep : σ → τ) (genomes : Array Genome) (random : ρ)
    (a : Arena σ) (b : Bare σ ρ) : Prop :=
  Stage.Shows f keep ⟨a, random⟩ b ∧ b.genomes = genomes

namespace Uncached

variable {genomes : Array Genome} {random : ρ}

def Copies (f : Genome → Binary64) (i : Individual) (g : Genome) : Prop :=
  i.genome = g ∧ i.IsScoredBy f

/-- The population has the genomes, and its known scores are right. -/
def Mirrors (f : Genome → Binary64) (P : Population) (genomes : Array Genome) : Prop :=
  P.genomes = genomes ∧ P.IsScoredBy f

theorem mirrors_bred {head : Option Individual} (hhead : ∀ i ∈ head, i.IsScoredBy f)
    (bred : List Genome) :
    Mirrors f (.ofList (head.toList ++ bred.map Individual.ofGenome))
      ((head.map Individual.genome).toList ++ bred).toArray := by
  constructor
  · cases head <;> simp [Population.genomes, Population.ofList, Function.comp_def]
  · intro i hi
    rcases List.mem_append.mp (List.mem_toArray.mp hi) with hi | hi
    · exact hhead i (Option.mem_toList.mp hi)
    · obtain ⟨g, -, rfl⟩ := List.mem_map.mp hi
      intro v hv
      cases hv

theorem agree_scoring {β : Type} {t : Scoring σ α} {t' : Uncached σ ρ β} {S : α → β → Prop}
    (h : ∀ genomes random, Agree (Arena.Beside f keep genomes random) t t'
      (fun v w a b => S v w ∧ a.Beside f keep genomes random b)
      (Arena.Beside f keep genomes random)) :
    Agree (Stage.Shows f keep) (Breeding.scoring t) t' (fun v w s b => S v w ∧ s.Shows f keep b)
      (Stage.Shows f keep) := by
  apply Agree.focus_left
  intro s b hb
  apply ((h b.genomes s.random).at_states ⟨hb, rfl⟩).weaken (fun _ _ h => h)
  · intro v w a b' hab
    exact ⟨hab.1, hab.2.1⟩
  · intro a b' hab
    exact hab.1

theorem agree_size :
    Agree (Stage.Shows f keep) (Breeding.populationSize : Breeding σ ρ Nat) size
      (fun n n' s b => n = n' ∧ s.Shows f keep b) (Stage.Shows f keep) := by
  apply Agree.get_bind
  intro s b hb
  apply Agree.pure
  rintro _ _ ⟨rfl, rfl⟩
  exact ⟨by rw [← hb.genomes, Population.size_genomes], hb⟩

theorem agree_drawing (d : Draw ρ α) :
    Agree (Stage.Shows f keep) (Breeding.drawing d : Breeding σ ρ α) (drawing d)
      (fun v w s b => v = w ∧ s.Shows f keep b) (Stage.Shows f keep) := by
  rintro ⟨a, r⟩ ⟨genomes, s, _⟩ j j' ⟨hgenomes, hscored, hproblem, rfl⟩
  exact ⟨rfl, hgenomes, hscored, hproblem, rfl⟩

theorem agree_validation (h : p.Separates keep) (g : Genome) :
    Agree (Stage.Shows f keep)
      (Breeding.scoring (Scoring.ask (p.validation g)) : Breeding σ ρ (Option Binary64))
      (ask (p.validation g)) (fun v w s b => v = w ∧ s.Shows f keep b) (Stage.Shows f keep) := by
  apply agree_scoring
  intro genomes random
  apply Agree.focus
  rintro a b ⟨hb, rfl⟩
  apply ((h.agree_validation g).at_states hb.problem).weaken (fun _ _ h => h)
  · intro v w s s' ⟨hv, hs⟩
    exact ⟨hv, ⟨hb.genomes, hb.scored, hs, hb.random⟩, rfl⟩
  · intro s s' hs
    exact ⟨⟨hb.genomes, hb.scored, hs, hb.random⟩, rfl⟩

section

variable (hf : p.IsScoredBy f) (hkeep : ∀ g s j, keep (p.training g s j).state = keep s)

include hf hkeep

theorem ensures_ask (g : Genome) {a : Arena σ} :
    Ensures (a.Beside f keep genomes random) (ask (p.training g))
      (fun v b => v = f g ∧ a.Beside f keep genomes random b) fun _ _ => False := by
  apply Ensures.focus
  rintro b ⟨hb, rfl⟩
  apply ((hf.ensures_training hkeep g (keep b.problem)).at_state rfl).and_post
  intro v s ⟨hv, hs⟩
  exact ⟨hv, ⟨hb.genomes, hb.scored, hb.problem.trans hs.symm, hb.random⟩, rfl⟩

theorem agree_score (index : Nat) :
    Agree (Arena.Beside f keep genomes random) (Scoring.score p index) (genome index)
      (fun v g a b => (v = f g ∧ genomes[index]? = some g) ∧ a.Beside f keep genomes random b)
      (Arena.Beside f keep genomes random) := by
  apply Agree.get_bind
  rintro a b ⟨hb, rfl⟩
  have hlookup : b.genomes[index]? = a.population.members[index]?.map Individual.genome := by
    rw [← hb.genomes, Population.genomes, Array.getElem?_map]
  have hbeside : a.Beside f keep b.genomes random b := ⟨hb, rfl⟩
  cases hmember : a.population.members[index]? with
  | none =>
    have hsize : b.genomes.size = a.population.size := by
      rw [← hb.genomes, Population.size_genomes]
    have hleft : a.population.member index = .error (.noSuchMember index a.population.size) := by
      rw [Population.member, hmember]
    rw [hleft, hlookup, hmember, hsize]
    apply Agree.fail
    rintro _ _ ⟨rfl, rfl⟩
    exact hbeside
  | some ind =>
    rw [Population.member_eq_ok_iff.mpr hmember, Trial.ofExcept_ok_bind, hlookup, hmember]
    have hright : ind.IsScoredBy f := hb.scored ind (Array.mem_of_getElem? hmember)
    -- a score that is not known is asked for and filled in; the bare genome is there anyway
    cases hscore : ind.score with
    | some known =>
      apply Agree.pure
      rintro _ _ ⟨rfl, rfl⟩
      exact ⟨⟨hright known hscore, rfl⟩, hbeside⟩
    | none =>
      have hask := Scoring.ensures_ask (P := a.population) (E := fun _ _ => False)
        (hf.ensures_training hkeep ind.genome (keep a.problem))
      apply Agree.pure_right
      intro b'
      apply Ensures.of_forall
      rintro _ ⟨rfl, rfl⟩
      refine (hask.at_state ⟨rfl, rfl⟩).bind fun v => Ensures.modify_bind (Ensures.pure ?_)
      rintro _ ⟨a', ⟨hpopulation, rfl, hkeep⟩, rfl⟩
      refine ⟨⟨rfl, rfl⟩, ⟨?_, ?_, hkeep.trans hb.problem, hb.random⟩, rfl⟩
      · rw [hpopulation, Population.genomes_setScore, hb.genomes]
      · rw [hpopulation]
        exact hb.scored.setScore hmember

/-- The leader of both contests is `g`. In the one its score was found when it became the leader, in
the other it is asked for in every comparison. -/
theorem agree_challenge {best : Nat} {g : Genome} (hbest : genomes[best]? = some g)
    (indices : List Nat) :
    Agree (Arena.Beside f keep genomes random) (Scoring.challenge p best (f g) indices)
      (challenge p g indices)
      (fun r g a b => (r.2 = f g ∧ genomes[r.1]? = some g) ∧ a.Beside f keep genomes random b)
      (Arena.Beside f keep genomes random) := by
  induction indices generalizing best g with
  | nil => exact Agree.pure fun a b hb => ⟨⟨rfl, hbest⟩, hb⟩
  | cons index rest ih =>
    refine (agree_score hf hkeep index).bind fun v g' => Agree.of_fact ?_
    rintro ⟨rfl, hindex⟩
    refine Agree.bind_right (fun a => ensures_ask hf hkeep g) fun leading => Agree.of_fact ?_
    rintro rfl
    refine Agree.bind_right (fun a => ensures_ask hf hkeep g') fun value => Agree.of_fact ?_
    rintro rfl
    split
    · exact ih hindex
    · exact ih hbest

theorem agree_contest (indices : List Nat) :
    Agree (Arena.Beside f keep genomes random) (Scoring.contest p indices) (contest p indices)
      (fun r g a b => (r.2 = f g ∧ genomes[r.1]? = some g) ∧ a.Beside f keep genomes random b)
      (Arena.Beside f keep genomes random) := by
  cases indices with
  | nil => exact Agree.fail fun a b hb => hb
  | cons index rest =>
    refine (agree_score hf hkeep index).bind fun v g => Agree.of_fact ?_
    rintro ⟨rfl, hindex⟩
    exact agree_challenge hf hkeep hindex rest

theorem agree_winner (indices : List Nat) :
    Agree (Arena.Beside f keep genomes random) (Scoring.winner p indices) (contest p indices)
      (fun r g a b => (r.2 = f g ∧ Copies f r.1 g) ∧ a.Beside f keep genomes random b)
      (Arena.Beside f keep genomes random) := by
  rw [← bind_pure (contest p indices)]
  refine (agree_contest hf hkeep indices).bind fun r g => Agree.of_fact ?_
  rintro ⟨hr, hg⟩
  apply Agree.pure_right
  intro b
  apply Ensures.get_bind
  rintro a ⟨hb, rfl⟩
  rw [← hb.genomes, Population.genomes, Array.getElem?_map, Option.map_eq_some_iff] at hg
  obtain ⟨ind, hind, rfl⟩ := hg
  rw [Population.member_eq_ok_iff.mpr hind]
  apply Ensures.pure
  rintro _ rfl
  exact ⟨⟨hr, rfl, hb.scored ind (Array.mem_of_getElem? hind)⟩, hb, rfl⟩

theorem agree_fittest :
    Agree (Stage.Shows f keep) (Breeding.scoring (Scoring.fittest p) : Breeding σ ρ _) (fittest p)
      (fun r g s b => (r.2 = f g ∧ Copies f r.1 g) ∧ s.Shows f keep b) (Stage.Shows f keep) := by
  apply agree_scoring
  intro genomes random
  apply Agree.get_bind
  intro a b hb
  rw [← hb.1.genomes, Population.size_genomes]
  exact (agree_winner hf hkeep _).at_states hb

/-- The search that keeps no scores scores the winner of the scan once more. -/
theorem agree_fittest_bind {β γ : Type} {S : β → γ → Stage σ ρ → Bare σ ρ → Prop}
    {next : Individual × Binary64 → Breeding σ ρ β} {next' : Genome → Binary64 → Uncached σ ρ γ}
    (hnext : ∀ best : Individual, best.IsScoredBy f → Agree (Stage.Shows f keep)
      (next (best, f best.genome)) (next' best.genome (f best.genome)) S (Stage.Shows f keep)) :
    Agree (Stage.Shows f keep) (Breeding.scoring (Scoring.fittest p) >>= next)
      (fittest p >>= fun g => ask (p.training g) >>= next' g) S (Stage.Shows f keep) := by
  refine (agree_fittest hf hkeep).bind fun r g => Agree.of_fact ?_
  rintro ⟨hv, rfl, hbest⟩
  obtain ⟨best, v⟩ := r
  obtain rfl : v = f best.genome := hv
  have hask (s : Stage σ ρ) : Ensures (s.Shows f keep) (ask (p.training best.genome))
      (fun v b => v = f best.genome ∧ s.Shows f keep b) fun _ _ => False := by
    apply Ensures.of_forall
    intro b hb
    have hbeside : Ensures (s.arena.Beside f keep b.genomes s.random)
        (ask (p.training best.genome)) (fun v b' => v = f best.genome ∧
          s.arena.Beside f keep b.genomes s.random b') fun _ _ => False :=
      ensures_ask hf hkeep best.genome
    exact (hbeside.at_state ⟨hb, rfl⟩).and_post fun v b' hb' => ⟨hb'.1, hb'.2.1⟩
  refine Agree.bind_right hask fun v => Agree.of_fact ?_
  rintro rfl
  exact hnext best hbest

theorem agree_finish (history : Array Generation) :
    Agree (Stage.Shows f keep) (Search.finish p settings history : Breeding σ ρ SearchResult)
      (finish p settings history) (fun r r' s b => r.bare = r' ∧ s.Shows f keep b)
      (Stage.Shows f keep) := by
  refine agree_fittest_bind hf hkeep fun best hbest => Agree.note_left ?_
  exact Agree.pure fun s b hb => ⟨rfl, hb⟩

variable [WordSource ρ]

theorem agree_tournament (contestants : Nat) :
    Agree (Stage.Shows f keep) (Breeding.tournament p contestants : Breeding σ ρ Individual)
      (tournament p contestants) (fun i g s b => Copies f i g ∧ s.Shows f keep b)
      (Stage.Shows f keep) := by
  refine agree_size.bind_eq fun n => ?_
  split
  · exact Agree.fail fun s b hb => hb
  · refine (agree_reserve (fun s b hb => hb) _ _).bind fun _ _ => ?_
    refine (agree_drawing _).bind_eq fun sample => ?_
    rw [← bind_pure (contest p sample)]
    refine (agree_scoring fun genomes random => agree_winner hf hkeep sample).bind fun r g => ?_
    exact Agree.pure fun s b hb => ⟨hb.1.2, hb.2⟩

theorem agree_child :
    Agree (Stage.Shows f keep) (Breeding.child p settings : Breeding σ ρ Genome)
      (child p settings) (fun g g' s b => g = g' ∧ s.Shows f keep b) (Stage.Shows f keep) := by
  refine (agree_tournament hf hkeep _).bind fun first g => Agree.of_fact ?_
  rintro ⟨rfl, -⟩
  refine (agree_tournament hf hkeep _).bind fun second g => Agree.of_fact ?_
  rintro ⟨rfl, -⟩
  exact agree_drawing _

theorem agree_children (n : Nat) :
    Agree (Stage.Shows f keep) (Breeding.children p settings n : Breeding σ ρ (List Genome))
      (children p settings n) (fun gs gs' s b => gs = gs' ∧ s.Shows f keep b)
      (Stage.Shows f keep) := by
  induction n with
  | zero => exact Agree.pure fun s b hb => ⟨rfl, hb⟩
  | succ n ih =>
    refine (agree_child hf hkeep).bind_eq fun g => ih.bind_eq fun rest => ?_
    exact Agree.pure fun s b hb => ⟨rfl, hb⟩

theorem agree_breed {head : Option Individual} (hhead : ∀ i ∈ head, i.IsScoredBy f) :
    Agree (Stage.Shows f keep) (Breeding.breed p settings head : Breeding σ ρ Population)
      (breed p settings (head.map Individual.genome))
      (fun P genomes s b => Mirrors f P genomes ∧ s.Shows f keep b) (Stage.Shows f keep) := by
  refine agree_size.bind_eq fun n => ?_
  split
  · exact Agree.fail fun s b hb => hb
  · have hlength : (head.map Individual.genome).toList.length = head.toList.length := by
      cases head <;> rfl
    rw [hlength]
    refine (agree_children hf hkeep _).bind_eq fun bred => ?_
    refine (agree_drawing _).bind_eq fun mutated => ?_
    exact Agree.pure fun s b hb => ⟨mirrors_bred hhead mutated, hb⟩

/-- Both ways to breed a next generation put either the fittest individual or a given one, if any,
into the first slot. -/
theorem agree_evolve_behind (head : Option Individual) (hhead : ∀ i ∈ head, i.IsScoredBy f) :
    Agree (Stage.Shows f keep)
      (if settings.elitism then Breeding.scoring (Scoring.fittest p) >>= fun r =>
        Breeding.breed p settings (some r.1) else Breeding.breed p settings head :
        Breeding σ ρ Population)
      (if settings.elitism then fittest p >>= fun g => breed p settings (some g)
        else breed p settings (head.map Individual.genome))
      (fun P genomes s b => Mirrors f P genomes ∧ s.Shows f keep b) (Stage.Shows f keep) := by
  split
  · refine (agree_fittest hf hkeep).bind fun r g => Agree.of_fact ?_
    rintro ⟨-, rfl, hbest⟩
    have hhead : ∀ i ∈ some r.1, i.IsScoredBy f := by simpa using hbest
    exact agree_breed hf hkeep hhead
  · exact agree_breed hf hkeep hhead

theorem agree_evolve :
    Agree (Stage.Shows f keep) (Breeding.evolve p settings : Breeding σ ρ Population)
      (evolve p settings) (fun P genomes s b => Mirrors f P genomes ∧ s.Shows f keep b)
      (Stage.Shows f keep) :=
  agree_evolve_behind hf hkeep none (by simp)

end

section

variable [WordSource ρ] (hf : p.IsScoredBy f) (hsep : p.Separates keep)

include hf hsep

theorem agree_generation (g : Generation) :
    Agree (Stage.Shows f keep) (Search.generation p settings g : Breeding σ ρ Unit)
      (generation p settings g) (fun _ _ => Stage.Shows f keep) (Stage.Shows f keep) := by
  refine Agree.note_left (Agree.bind (S := fun _ _ => Stage.Shows f keep) ?_ fun _ _ => ?_)
  · apply Agree.modify
    intro s b hb
    exact ⟨hb.genomes, hb.scored, hsep.onGeneration g _ _ hb.problem, hb.random⟩
  · refine (agree_evolve hf hsep.training).bind fun P genomes => Agree.of_fact ?_
    rintro ⟨rfl, hP⟩
    apply Agree.modify
    intro s b hb
    exact ⟨rfl, hP, hb.problem, hb.random⟩

theorem agree_advance (remaining : Nat) (history : Array Generation) :
    Agree (Stage.Shows f keep)
      (Search.advance p settings remaining history : Breeding σ ρ SearchResult)
      (advance p settings remaining history) (fun r r' s b => r.bare = r' ∧ s.Shows f keep b)
      (Stage.Shows f keep) := by
  induction remaining generalizing history with
  | zero =>
    refine agree_fittest_bind hf hsep.training fun best hbest => ?_
    split <;> exact agree_finish hf hsep.training history
  | succ remaining ih =>
    refine agree_fittest_bind hf hsep.training fun best hbest => ?_
    split
    · exact agree_finish hf hsep.training history
    · refine (agree_validation hsep best.genome).bind_eq fun validation => ?_
      exact (agree_generation hf hsep _).bind fun _ _ => ih _

theorem agree_search :
    Agree (Stage.Shows f keep) (Search.search p settings : Breeding σ ρ SearchResult)
      (search p settings) (fun r r' s b => r.bare = r' ∧ s.Shows f keep b)
      (Stage.Shows f keep) := by
  refine Agree.bind (S := fun _ _ => Stage.Shows f keep) ?_ fun _ _ => ?_
  · exact Agree.ofExcept (fun _ _ _ _ hb => hb) fun _ _ hb => hb
  · exact (agree_reserve (fun _ _ hb => hb) _ _).bind fun _ _ => agree_advance hf hsep _ _

end

end Uncached

end FormulaSearch
