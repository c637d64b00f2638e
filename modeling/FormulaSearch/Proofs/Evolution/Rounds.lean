import FormulaSearch.Proofs.Evolution.History
import FormulaSearch.Proofs.Evolution.Scanning

/-!
# What a search asks of its problem

The training score of an individual is asked for once, when a generation starts, and the individuals
come in the order of their slots. Nothing else is scored: tournaments, the copy of the fittest
individual and the last look at the population find all scores known. Between two generations stand
one validation and one report.
-/

namespace FormulaSearch

open Trial (Ensures)

namespace Population

variable {P next : Population}

/-- The genomes of the members whose scores are not known, in order. -/
def unscored (P : Population) : List Genome :=
  (P.members.toList.filter (·.score.isNone)).map Individual.genome

theorem unscored_of_allScored (h : P.AllScored) : P.unscored = [] := by
  rw [unscored, List.map_eq_nil_iff, List.filter_eq_nil_iff]
  intro ind hind
  obtain ⟨i, hi⟩ := Array.getElem?_of_mem (Array.mem_def.mpr hind)
  have hsome := h i (lt_size_of_getElem? hi)
  rw [score?_of_getElem? hi] at hsome
  simpa [Option.isSome_iff_ne_none] using hsome

theorem unscored_eq_cons {i : Nat} {ind : Individual} (hind : P.members[i]? = some ind)
    (hnone : ind.score = none) (hfront : ∀ k < i, (P.score? k).isSome = true) (v : Binary64) :
    P.unscored = ind.genome :: (P.setScore i v).unscored := by
  have hi := lt_size_of_getElem? hind
  have hget : P.members.toList[i]? = some ind := by rwa [Array.getElem?_toList]
  have hscored : (P.members.toList.take i).filter (·.score.isNone) = [] := by
    rw [List.filter_eq_nil_iff]
    intro other hother
    obtain ⟨k, hk⟩ := List.getElem?_of_mem hother
    rw [List.getElem?_take] at hk
    split at hk
    · next hlt =>
      have hsome := hfront k hlt
      rw [Array.getElem?_toList] at hk
      rw [score?_of_getElem? hk] at hsome
      simpa [Option.isSome_iff_ne_none] using hsome
    · cases hk
  obtain ⟨hlt, hget⟩ := List.getElem?_eq_some_iff.mp hget
  have hbefore : P.members.toList =
      P.members.toList.take i ++ ind :: P.members.toList.drop (i + 1) := by
    rw [← hget, List.getElem_cons_drop, List.take_append_drop]
  have hafter : (P.setScore i v).members.toList = P.members.toList.take i ++
      { ind with score := some v } :: P.members.toList.drop (i + 1) := by
    rw [setScore, Array.toList_modify, List.modify_eq_take_cons_drop hlt, hget]
  calc P.unscored = ((P.members.toList.take i ++ ind :: P.members.toList.drop (i + 1)).filter
        (·.score.isNone)).map Individual.genome := by rw [unscored, ← hbefore]
    _ = ind.genome :: (P.setScore i v).unscored := by
        simp [unscored, hafter, hscored, hnone]

/-- Only an individual in front comes with a score. -/
theorem Follows.unscored_eq {head : Option Individual} (h : P.Follows head next)
    (hhead : ∀ i, head = some i → i.score.isSome = true) :
    next.unscored = next.genomes.toList.drop head.toList.length := by
  obtain ⟨bred, rfl, -, -⟩ := h
  have hbred : (bred.map Individual.ofGenome).filter (·.score.isNone) =
      bred.map Individual.ofGenome := by
    simp [List.filter_eq_self]
  cases head with
  | none => simp [unscored, genomes, ofList, hbred]
  | some i =>
    have hi : i.score.isNone = false := by simpa using hhead i rfl
    simp [unscored, genomes, ofList, hbred, hi]

end Population

namespace Search

open Breeding

variable {σ ρ : Type} {p : Problem σ} {settings : SearchSettings} {P P' : Population}
  {past events : List Event} {history : List Generation}

/-! ## Rounds -/

def AreScorings (genomes : List Genome) (events : List Event) : Prop :=
  List.Forall₂ (fun g e => ∃ v, e = .scored g (.ok v)) genomes events

/-- What is asked of a problem while a search goes through the given populations. In each of them
the members that come without a score are scored; then, unless it is the last one, there is one
validation and one report, whose scores go into the history. -/
inductive Rounds : List Population → List Generation → List Event → Prop where
  | last {P : Population} {block : List Event} (hblock : AreScorings P.unscored block) :
      Rounds [P] [] block
  | next {P : Population} {later : List Population} {entry : Generation}
      {history : List Generation} {block events : List Event} (g : Genome)
      (hblock : AreScorings P.unscored block) (hlater : Rounds later history events) :
      Rounds (P :: later) (entry :: history)
        (block ++ .validated g (.ok entry.validation) :: .generation entry :: events)

def isScoring : Event → Bool
  | .scored _ _ => true
  | _ => false

theorem AreScorings.countP_eq {genomes : List Genome} (h : AreScorings genomes events) :
    events.countP isScoring = genomes.length := by
  induction h with
  | nil => rfl
  | cons hfirst _ ih =>
    obtain ⟨v, rfl⟩ := hfirst
    rw [List.countP_cons_of_pos (by rfl), ih, List.length_cons]

theorem Rounds.countP_eq {lineage : List Population} (h : Rounds lineage history events) :
    events.countP isScoring = (lineage.map fun P => P.unscored.length).sum := by
  induction h with
  | last hblock => simp [hblock.countP_eq]
  | next g hblock _ ih => simp [hblock.countP_eq, ih, isScoring]

theorem Rounds.length_eq {lineage : List Population} (h : Rounds lineage history events) :
    lineage.length = history.length + 1 := by
  induction h with
  | last => rfl
  | next _ _ _ ih => simp [ih]

/-! ## Scans -/

/-- After the past events some members of `P` were scored, and the rest of those that came without a
score is still without one in `P'`. So many members in front of `P'` have one. -/
def Asked (past : List Event) (P : Population) (i : Nat) (P' : Population) (events : List Event) :
    Prop :=
  ∃ asked block, events = past ++ block ∧ AreScorings asked block ∧
    P.unscored = asked ++ P'.unscored ∧ ∀ k < i, (P'.score? k).isSome = true

theorem Asked.start : Asked past P 0 P past :=
  ⟨[], [], (List.append_nil past).symm, .nil, rfl, by simp⟩

theorem Asked.setScore {i : Nat} {P' : Population} {ind : Individual}
    (h : Asked past P i P' events) (hind : P'.members[i]? = some ind) (hnone : ind.score = none)
    (v : Binary64) :
    Asked past P (i + 1) (P'.setScore i v) (events ++ [.scored ind.genome (.ok v)]) := by
  obtain ⟨asked, block, rfl, hblock, hunscored, hfront⟩ := h
  refine ⟨asked ++ [ind.genome], block ++ [.scored ind.genome (.ok v)], ?_, ?_, ?_, ?_⟩
  · rw [List.append_assoc]
  · exact List.rel_append hblock (.cons ⟨v, rfl⟩ .nil)
  · rw [hunscored, Population.unscored_eq_cons hind hnone hfront v, List.append_assoc,
      List.singleton_append]
  · intro k hk
    rw [Population.score?_setScore (Population.lt_size_of_getElem? hind)]
    split
    · rfl
    · exact hfront k (by omega)

theorem keepsInOrder_asked (past : List Event) (P : Population) :
    Scoring.KeepsInOrder p.observed (fun i P' o => Asked past P i P' o.events.toList)
      fun _ _ => True where
  known i P' o hsome h := by
    obtain ⟨asked, block, hevents, hblock, hunscored, hfront⟩ := h
    exact ⟨asked, block, hevents, hblock, hunscored,
      fun k hk => (Nat.lt_succ_iff_lt_or_eq.mp hk).elim (hfront k) fun hk => hk ▸ hsome⟩
  unknown i P' ind hind hnone :=
    ensures_recorded (A := Asked past P i P')
      (B := fun v => Asked past P (i + 1) (P'.setScore i v)) fun _ v h => h.setScore hind hnone v

theorem ensures_scan_asked (s : Stage (Observed σ) ρ) :
    Ensures (· = s) (scoring (Scoring.fittest p.observed))
      (fun r s' => (∃ block, AreScorings s.arena.population.unscored block ∧
          s'.arena.problem.events.toList = s.arena.problem.events.toList ++ block) ∧
        s'.arena.population.size = s.arena.population.size ∧ s'.arena.population.AllScored ∧
        s'.arena.population.IsFittest r.1 r.2)
      fun _ _ => True := by
  have hscored := Scoring.ensures_fittest (Scoring.keeps_trivial (p := p.observed))
    (P := s.arena.population) (.inr fun _ _ => trivial)
  have hasked := (keepsInOrder_asked (p := p) s.arena.problem.events.toList
    s.arena.population).ensures_fittest fun _ => trivial
  have hboth := ensures_scoring (ρ := ρ) (hscored.and hasked)
  refine ((hboth.weaken (fun _ h => h) (fun _ _ h => h) fun _ _ _ => trivial).at_state ⟨⟨rfl, trivial⟩, Asked.start⟩).and_post ?_
  rintro r s' ⟨⟨⟨hfills, -⟩, hall, hbest⟩, asked, block, hevents, hblock, hunscored, -⟩
  rw [Population.unscored_of_allScored hall, List.append_nil] at hunscored
  exact ⟨⟨block, hunscored ▸ hblock, hevents⟩, hfills.size_eq, hall, hbest⟩

/-! ## Traces -/

/-- A search goes on from a population and the events before it. Behind an individual that elitism
keeps, the populations of its trace come without scores, and the new events are their rounds. -/
structure AsksOnce (settings : SearchSettings) (P : Population) (past : List Event)
    (history : List Generation) (trace : List Population × SearchResult) (events : List Event) :
    Prop where
  populations : ∃ later, trace.1 = P :: later ∧ ∀ next ∈ later, next.size = P.size ∧
    next.unscored = next.genomes.toList.drop settings.elitism.toNat
  rounds : ∃ entries asked, trace.2.history = history ++ entries ∧ events = past ++ asked ∧
    Rounds trace.1 entries asked
  generations_eq : trace.2.generations = trace.2.history.length

theorem AsksOnce.next {trace : List Population × SearchResult} {block : List Event} {g : Genome}
    (entry : Generation) (hblock : AreScorings P.unscored block)
    (hsize : P'.size = P.size)
    (hunscored : P'.unscored = P'.genomes.toList.drop settings.elitism.toNat)
    (h : AsksOnce settings P'
      (past ++ block ++ [.validated g (.ok entry.validation)] ++ [.generation entry])
      (history ++ [entry]) trace events) :
    AsksOnce settings P past history (P :: trace.1, trace.2) events := by
  obtain ⟨⟨later, htrace, hlater⟩, ⟨entries, asked, hhistory, hevents, hrounds⟩, hlength⟩ := h
  constructor
  case populations =>
    refine ⟨P' :: later, by rw [htrace], List.forall_mem_cons.mpr ⟨⟨hsize, hunscored⟩, ?_⟩⟩
    intro Q hQ
    rw [← hsize]
    exact hlater Q hQ
  case rounds =>
    refine ⟨entry :: entries, _, ?_, ?_, .next g hblock hrounds⟩
    · simpa using hhistory
    · simpa using hevents
  case generations_eq => exact hlength

theorem ensures_finish_asksOnce {best : Individual} {v : Binary64}
    {block : List Event} {o : Observed σ} (hscored : P'.AllScored) (hbest : P'.IsFittest best v)
    (hblock : AreScorings P.unscored block) (hevents : o.events.toList = past ++ block)
    (history : Array Generation) :
    Ensures (fun stage : Stage (Observed σ) ρ => stage.arena = ⟨P', o⟩)
      (do return ([P], ← finish p.observed settings history))
      (fun trace s' =>
        AsksOnce settings P past history.toList trace s'.arena.problem.events.toList)
      fun _ _ => True := by
  refine (ensures_finish_fittest (E := fun _ _ => True) hscored hbest history).bind
    fun r => Ensures.pure ?_
  rintro stage ⟨harena, rfl⟩
  rw [harena]
  constructor
  case populations => exact ⟨[], rfl, by simp⟩
  case rounds => exact ⟨[], block, by simp, hevents, .last hblock⟩
  case generations_eq => simp

/-! ## The populations of a search -/

variable [WordSource ρ]

variable (p settings) in
/-- Goes on like `advance`, and tells through which populations. -/
def advanceTraced : Nat → Array Generation → Breeding σ ρ (List Population × SearchResult)
  | remaining, history => do
    let P := (← Trial.get).arena.population
    let (best, fitness) ← scoring (Scoring.fittest p)
    if settings.targetFitness ≤ fitness then return ([P], ← finish p settings history)
    else
      match remaining with
      | 0 => return ([P], ← finish p settings history)
      | n + 1 => do
        let validation ← scoring (Scoring.ask (p.validation best.genome))
        let g : Generation := ⟨history.size + 1, fitness, validation⟩
        generation p settings g
        let (later, r) ← advanceTraced n (history.push g)
        return (P :: later, r)

variable (p settings) in
/-- The same search, with the populations it goes through as they are before they are scored. -/
def traced : Breeding σ ρ (List Population × SearchResult) := do
  Trial.ofExcept (settings.check.mapError .invalidSettings)
  reserve recordWidth settings.generationLimit
  advanceTraced p settings settings.generationLimit #[]

theorem map_advanceTraced (remaining : Nat) (history : Array Generation) :
    Prod.snd <$> (advanceTraced p settings remaining history : Breeding σ ρ _) =
      advance p settings remaining history := by
  induction remaining generalizing history with
  | zero =>
    refine Trial.map_get_bind fun s => ?_
    refine (map_bind _ _ _).trans (bind_congr ?_)
    rintro ⟨best, fitness⟩
    dsimp only
    split <;> simp
  | succ n ih =>
    refine Trial.map_get_bind fun s => ?_
    refine (map_bind _ _ _).trans (bind_congr ?_)
    rintro ⟨best, fitness⟩
    dsimp only
    split
    · simp
    · simp [← ih]

theorem map_traced : Prod.snd <$> (traced p settings : Breeding σ ρ _) = search p settings := by
  simp only [traced, search, map_bind, map_advanceTraced]

theorem ensures_traced_of_advance {A : Stage σ ρ → Prop}
    {Q : List Population × SearchResult → Stage σ ρ → Prop}
    (h : Ensures A (advanceTraced p settings settings.generationLimit #[]) Q fun _ _ => True) :
    Ensures A (traced p settings) Q fun _ _ => True := by
  refine Ensures.bind (Ensures.ofExcept (fun _ _ _ hs => hs) fun _ _ _ _ => trivial) fun _ => ?_
  exact (ensures_reserve (.inr fun _ _ => trivial)).bind fun _ => h

/-! ## Runs -/

/-- The next population is bred without a question, since all scores are known. -/
theorem ensures_generation_unscored {best : Individual} {v : Binary64} (hscored : P.AllScored)
    (hbest : P.IsFittest best v) (past : List Event) (entry : Generation) :
    Ensures (fun s : Stage (Observed σ) ρ => s.arena.population = P ∧
        s.arena.problem.events.toList = past)
      (generation p.observed settings entry)
      (fun _ s => s.arena.problem.events.toList = past ++ [.generation entry] ∧
        s.arena.population.size = P.size ∧
        s.arena.population.unscored =
          s.arena.population.genomes.toList.drop settings.elitism.toNat)
      fun _ _ => True := by
  refine Ensures.note_bind (Ensures.modify_bind (Ensures.of_forall ?_))
  rintro _ ⟨s, ⟨rfl, rfl⟩, rfl⟩
  have hkeeps := Scoring.keeps_of_allScored (p := p.observed) (E := fun _ _ => True) hscored
    (p.observed.onGeneration entry s.arena.problem)
  refine ((ensures_evolve hkeeps (P := s.arena.population)
    (.inr fun _ _ => trivial)).at_state ?_).bind fun next => Ensures.modify ?_
  · exact ⟨rfl, rfl, rfl⟩
  rintro s' ⟨⟨-, hpopulation, hproblem⟩, head, hfollows, hhead⟩
  have hlength : head.toList.length = settings.elitism.toNat := by
    split at hhead
    · next helitism =>
      obtain ⟨best', w, rfl, -⟩ := hhead
      simp [helitism]
    · next helitism => simp [hhead, helitism]
  refine ⟨?_, hfollows.size_eq, ?_⟩
  · simp [hproblem, Problem.observed]
  · rw [← hlength]
    apply hfollows.unscored_eq
    rintro i rfl
    split at hhead
    · obtain ⟨best', w, hi, -, hbest'⟩ := hhead
      cases hi
      rw [hbest'.2]
      rfl
    · cases hhead

theorem ensures_advanceTraced (remaining : Nat) (history : Array Generation)
    (s : Stage (Observed σ) ρ) :
    Ensures (· = s) (advanceTraced p.observed settings remaining history)
      (fun trace s' => AsksOnce settings s.arena.population s.arena.problem.events.toList
        history.toList trace s'.arena.problem.events.toList)
      fun _ _ => True := by
  induction remaining generalizing history s with
  | zero =>
    apply Ensures.get_bind
    rintro s rfl
    refine (ensures_scan_asked s).bind fun r => Ensures.of_forall ?_
    rintro s' ⟨⟨block, hblock, hevents⟩, -, hscored, hbest⟩
    split <;> exact (ensures_finish_asksOnce hscored hbest hblock hevents history).at_state rfl
  | succ n ih =>
    apply Ensures.get_bind
    rintro s rfl
    refine (ensures_scan_asked s).bind fun r => Ensures.of_forall ?_
    rintro s' ⟨⟨block, hblock, hevents⟩, hsize, hscored, hbest⟩
    split
    · exact (ensures_finish_asksOnce hscored hbest hblock hevents history).at_state rfl
    · refine (ensures_validation s' r.1.genome).bind fun validation => ?_
      refine (ensures_generation_unscored hscored hbest _ _).bind fun _ => Ensures.of_forall ?_
      rintro next ⟨hasked, hsize', hunscored⟩
      refine (ih _ next).bind fun trace => Ensures.pure ?_
      intro s₁ htrace
      rw [Array.toList_push, hasked, hevents] at htrace
      exact htrace.next ⟨history.size + 1, r.2, validation⟩ hblock (hsize'.trans hsize) hunscored

theorem ensures_traced (s : Stage (Observed σ) ρ) :
    Ensures (· = s) (traced p.observed settings)
      (fun trace s' => AsksOnce settings s.arena.population s.arena.problem.events.toList [] trace
        s'.arena.problem.events.toList)
      fun _ _ => True :=
  ensures_traced_of_advance (ensures_advanceTraced settings.generationLimit #[] s)

theorem AsksOnce.countP_eq {trace : List Population × SearchResult}
    (h : AsksOnce settings P [] [] trace events) : events.countP isScoring =
      P.unscored.length + trace.2.generations * (P.size - settings.elitism.toNat) := by
  obtain ⟨⟨later, htrace, hlater⟩, ⟨entries, asked, hhistory, rfl, hrounds⟩, hlength⟩ := h
  rw [List.nil_append] at hhistory
  rw [htrace] at hrounds
  have hlaterLength : later.length = trace.2.generations := by
    rw [hlength, hhistory]
    simpa using hrounds.length_eq
  have hbred : later.map (fun P => P.unscored.length) =
      List.replicate later.length (P.size - settings.elitism.toNat) := by
    rw [List.eq_replicate_iff, List.length_map]
    refine ⟨rfl, List.forall_mem_map.mpr fun Q hQ => ?_⟩
    obtain ⟨hsize, hunscored⟩ := hlater Q hQ
    simp [hunscored, hsize]
  rw [hrounds.countP_eq, List.map_cons, List.sum_cons, hbred, List.sum_replicate, hlaterLength,
    smul_eq_mul]

/-- Whatever the problem answers, a search that ends well asks for the score of each individual
once. The populations it goes through start with the first one, and in the others the bred
individuals come without scores, behind the one that elitism keeps. In each population the missing
scores are asked for in the order of the slots, with one validation and one report before the next
population. -/
theorem search_scores_once {first : Population} {s : σ} {random : ρ} {j : Journal}
    {r : SearchResult} (h : (search p settings ⟨⟨first, s⟩, random⟩ j).result = .ok r) :
    let start : Stage (Observed σ) ρ := ⟨⟨first, { state := s }⟩, random⟩
    let watched := search p.observed settings start j
    watched.result = .ok r ∧
      watched.state.arena.problem.scorings =
        first.unscored.length + r.generations * (first.size - settings.elitism.toNat) ∧
      ∃ later, traced p.observed settings start j =
          ⟨.ok (first :: later, r), watched.state, watched.journal⟩ ∧
        later.length = r.generations ∧
        (∀ P ∈ later, P.size = first.size ∧
          P.unscored = P.genomes.toList.drop settings.elitism.toNat) ∧
        Rounds (first :: later) r.history watched.state.arena.problem.events.toList := by
  intro start watched
  have hforgets : Trial.Forgets (Stage.map Observed.state) (search p.observed settings)
      (search p settings : Breeding σ ρ SearchResult) := forgets_search p.forgets_observed
  have hresult : watched.result = .ok r := (hforgets.result_eq start j).trans h
  have hwatched : watched =
      (Prod.snd <$> (traced p.observed settings : Breeding (Observed σ) ρ _)) start j := by
    rw [map_traced]
  rcases hrun : traced p.observed settings start j with ⟨e | ⟨lineage, r'⟩, s', j'⟩
  · rw [map_eq_pure_bind, Trial.bind_of_error hrun] at hwatched
    rw [hwatched] at hresult
    cases hresult
  · rw [map_eq_pure_bind, Trial.bind_of_ok hrun] at hwatched
    rw [hwatched] at hresult ⊢
    obtain rfl : r' = r := Except.ok.inj hresult
    have hasks : AsksOnce settings first [] [] (lineage, r') s'.arena.problem.events.toList := by
      have := (ensures_traced start).of_ok rfl (congrArg Outcome.result hrun)
      rwa [hrun] at this
    have hcount := hasks.countP_eq
    obtain ⟨⟨later, rfl, hlater⟩, ⟨entries, asked, hhistory, hevents, hrounds⟩, hlength⟩ := hasks
    obtain rfl : entries = r'.history := hhistory.symm
    obtain rfl : asked = s'.arena.problem.events.toList := hevents.symm
    refine ⟨rfl, ?_, later, rfl, ?_, hlater, hrounds⟩
    · rw [Observed.scorings, ← Array.countP_toList]
      exact hcount
    · exact (Nat.succ.inj hrounds.length_eq).trans hlength.symm

/-- One of three scores is known, and two generations each bring two new ones. The answers depend on
how much was asked before. -/
theorem search_scores_once_of_falling_scores :
    let p : Problem Nat := { training := fun _ n j => ⟨.ok ((10 - n : Nat) : Binary64), n + 1, j⟩ }
    let settings : SearchSettings := { generationLimit := 2, tournamentSize := 1 }
    let zeros : Genome := ⟨.replicate 15 0⟩
    let first : Population :=
      .ofList [.ofGenome zeros, ⟨⟨.replicate 15 1⟩, some 3⟩, .ofGenome ⟨.replicate 15 2⟩]
    let words : RepeatedWords := { words := #[] }
    let r : SearchResult :=
      ⟨⟨zeros, some 10⟩, 10, 2, .generationCap, [⟨1, 10, none⟩, ⟨2, 10, none⟩]⟩
    let start : Stage (Observed Nat) RepeatedWords := ⟨⟨first, { state := 0 }⟩, words⟩
    let watched := search p.observed settings start #[]
    (search p settings ⟨⟨first, 0⟩, words⟩ #[]).result = .ok r ∧
      watched.state.arena.problem.scorings = 2 + 2 * (3 - 1) ∧
      ∃ later, (traced p.observed settings start #[]).result = .ok (first :: later, r) ∧
        Rounds (first :: later) r.history watched.state.arena.problem.events.toList := by
  intro p settings zeros first words r start watched
  have hrun : (search p settings ⟨⟨first, 0⟩, words⟩ #[]).result = .ok r := by decide +kernel
  obtain ⟨-, hcount, later, htraced, -, -, hrounds⟩ := search_scores_once hrun
  exact ⟨hrun, hcount, later, congrArg Outcome.result htraced, hrounds⟩

end Search

end FormulaSearch
