import FormulaSearch.Proofs.Evolution.Offspring

/-!
# Who wins a contest

A contest goes to the last of those with the greatest score, where a score that is NaN does not
count. Only if the contest starts with NaN does it end there as well, since no score overtakes it.
So the fittest individual of a population is the last of the fittest ones, and a tournament goes to
the last of the best that are drawn. Neither of them can miss the individual that it looks for.
-/

namespace FormulaSearch

open Trial (Ensures)

namespace Population

variable {P : Population}

/-- No score overtakes one that is NaN. -/
theorem leader_of_isNaN {best : Nat} (h : (P.value best).isNaN = true) (indices : List Nat) :
    P.leader best indices = best := by
  induction indices with
  | nil => rfl
  | cons i rest ih =>
    have hnot : ¬ P.value best ≤ P.value i := by
      intro hle
      rw [(Binary64.isNaN_of_le hle).1] at h
      cases h
    rw [leader, if_neg hnot, ih]

/-- A contest that goes through the indices has this winner: the first one if its score is NaN, and
otherwise the last one with the greatest score. -/
def IsWonBy (P : Population) : List Nat → Nat → Prop
  | [], _ => False
  | first :: rest, winner =>
    if (P.value first).isNaN then winner = first
    else ∃ before after, first :: rest = before ++ winner :: after ∧
      P.IsLastGreatest before winner after

theorem isWonBy_leader (P : Population) (first : Nat) (rest : List Nat) :
    P.IsWonBy (first :: rest) (P.leader first rest) := by
  rw [IsWonBy]
  split_ifs with hnan
  · exact leader_of_isNaN hnan rest
  · exact exists_isLastGreatest_leader (Bool.eq_false_iff.mpr hnan) rest

/-- If the indices rise, the last one in the contest is the highest. -/
theorem IsLastGreatest.of_pairwise {before after : List Nat} {k : Nat}
    (h : P.IsLastGreatest before k after) (hsorted : (before ++ k :: after).Pairwise (· < ·)) :
    ∀ i ∈ before ++ k :: after, (P.value i).isNaN = false →
      P.value i ≤ P.value k ∧ (k < i → P.value i < P.value k) := by
  intro i hi hnan
  rcases List.mem_append.mp hi with hi | hi
  · have hlt := (List.pairwise_append.mp hsorted).2.2 i hi k List.mem_cons_self
    exact ⟨h.before_le i hi hnan, fun hgt => absurd hgt hlt.not_gt⟩
  · rcases List.mem_cons.mp hi with rfl | hi
    · exact ⟨Binary64.le_refl hnan, fun hgt => absurd hgt (lt_irrefl _)⟩
    · have hlt := h.after_lt i hi hnan
      exact ⟨Binary64.le_of_lt hnan h.isNumber hlt, fun _ => hlt⟩

/-- The individual at the index has the greatest score, and of equally fit ones it has the highest
index. If the first score is NaN, this is the first individual. -/
def IsHighestFittest (P : Population) (k : Nat) : Prop :=
  k < P.size ∧ if (P.value 0).isNaN then k = 0
    else (P.value k).isNaN = false ∧ ∀ i < P.size, (P.value i).isNaN = false →
      P.value i ≤ P.value k ∧ (k < i → P.value i < P.value k)

theorem IsWonBy.isHighestFittest {k : Nat} (h : P.IsWonBy (List.range P.size) k) :
    P.IsHighestFittest k := by
  rcases Nat.eq_zero_or_pos P.size with hzero | hpos
  · rw [hzero] at h
    exact h.elim
  · rw [Scoring.range_eq_cons hpos, IsWonBy] at h
    unfold IsHighestFittest
    split at h
    · next hnan =>
      rw [if_pos hnan]
      exact ⟨h ▸ hpos, h⟩
    · next hnumber =>
      rw [if_neg hnumber]
      obtain ⟨before, after, hsplit, hlast⟩ := h
      rw [← Scoring.range_eq_cons hpos] at hsplit
      have hsorted := List.pairwise_lt_range (n := P.size)
      have hmem : ∀ i, i < P.size ↔ i ∈ before ++ k :: after := fun i => by
        rw [← hsplit, List.mem_range]
      rw [hsplit] at hsorted
      refine ⟨(hmem k).mpr (by simp), hlast.isNumber, fun i hi => ?_⟩
      exact hlast.of_pairwise hsorted i ((hmem i).mp hi)

/-- The individual is a copy, with its score, of the winner of a contest. -/
def IsBestOf (P : Population) (indices : List Nat) (ind : Individual) : Prop :=
  ∃ k, P.IsWonBy indices k ∧ P.members[k]? = some ind ∧ ind.score.isSome = true

end Population

def Problem.Scores {σ : Type} (p : Problem σ) (I : σ → Prop) : Prop :=
  ∀ g, Ensures I (p.training g) (fun _ => I) fun _ _ => False

/-- The fault is another one than that an individual is missing. -/
def SearchFault.IsNoMiss (e : SearchFault) : Prop := ∀ index size, e ≠ .noSuchMember index size

namespace Scoring

variable {σ : Type} {p : Problem σ} {K : Population → σ → Prop} {E : SearchFault → Arena σ → Prop}
  {P : Population} {I : σ → Prop}

theorem keeps_of_scores (hp : p.Scores I) : Keeps p (fun _ => I) fun _ _ => False :=
  fun _ _ ind _ _ => hp ind.genome

theorem keeps_isNoMiss (p : Problem σ) : Keeps p (fun _ _ => True) fun e _ => e.IsNoMiss :=
  fun _ _ _ _ _ => (Ensures.trivial _).weaken (fun _ h => h) (fun _ _ h => h)
    fun _ _ _ _ _ h => nomatch h

theorem ensures_contest_isWonBy (hK : Keeps p K E) {indices : List Nat}
    (hindices : ∀ i ∈ indices, i < P.size) (hempty : indices = [] → ∀ a, E .emptyPopulation a) :
    Ensures (fun a => a.population = P ∧ K P a.problem) (contest p indices)
      (fun r a => a.Filled P K ∧ (∀ i ∈ indices, (a.population.score? i).isSome = true) ∧
        a.population.IsWonBy indices r.1 ∧ a.population.score? r.1 = some r.2) E := by
  cases indices with
  | nil => exact Ensures.fail fun a _ => hempty rfl a
  | cons first rest =>
    refine (ensures_contest hK (.inl hindices)).and_post ?_
    intro r a ⟨ha, hfirst, hrest, hwinner, hscore⟩
    refine ⟨ha, List.forall_mem_cons.mpr ⟨hfirst, hrest⟩, ?_, hscore⟩
    rw [hwinner]
    exact Population.isWonBy_leader _ first rest

theorem ensures_winner_isBestOf (hK : Keeps p K E) {indices : List Nat}
    (hindices : ∀ i ∈ indices, i < P.size) (hempty : indices = [] → ∀ a, E .emptyPopulation a) :
    Ensures (fun a => a.population = P ∧ K P a.problem) (winner p indices)
      (fun r a => a.Filled P K ∧ a.population.IsBestOf indices r.1) E := by
  refine (ensures_contest_isWonBy hK hindices hempty).bind fun r => Ensures.get_bind ?_
  intro a ⟨ha, _, hwon, hscore⟩
  obtain ⟨ind, hind, hknown⟩ := Option.bind_eq_some_iff.mp hscore
  rw [Population.member_eq_ok_iff.mpr hind, Trial.ofExcept_ok_bind]
  refine Ensures.pure ?_
  rintro _ rfl
  exact ⟨ha, r.1, hwon, hind, by rw [hknown]; rfl⟩

theorem ensures_fittestIndex (hK : Keeps p K E) (hempty : P.size = 0 → ∀ a, E .emptyPopulation a) :
    Ensures (fun a => a.population = P ∧ K P a.problem) (fittestIndex p)
      (fun k a => a.Filled P K ∧ a.population.AllScored ∧ a.population.IsHighestFittest k) E := by
  apply Ensures.get_bind
  rintro a ⟨rfl, ha⟩
  have hmembers : ∀ i ∈ List.range a.population.size, i < a.population.size :=
    fun i => List.mem_range.mp
  have hcontest := ensures_contest_isWonBy hK hmembers fun hnil =>
    hempty (List.range_eq_nil.mp hnil)
  refine (hcontest.at_state ⟨rfl, ha⟩).bind fun r => Ensures.pure ?_
  intro b ⟨hb, hscored, hwon, _⟩
  rw [← hb.1.size_eq] at hscored hwon
  exact ⟨hb, fun i hi => hscored i (List.mem_range.mpr hi), hwon.isHighestFittest⟩

end Scoring

namespace Breeding

variable {σ ρ α : Type} {p : Problem σ} {K : Population → σ → Prop}
  {E : SearchFault → Arena σ → Prop} {I : σ → Prop}

theorem ensures_drawing_at (d : Draw ρ α) (s : Stage σ ρ)
    {E : SearchFault → Stage σ ρ → Prop} : Ensures (· = s) (drawing d)
      (fun v s' => v = (d s.random).1 ∧ s' = { s with random := (d s.random).2 }) E := by
  rintro _ _ rfl
  exact ⟨rfl, rfl⟩

theorem ensures_scoring_at {t : Scoring σ α} {s : Stage σ ρ} {B : α → Arena σ → Prop}
    (h : Ensures (· = s.arena) t B E) : Ensures (· = s) (scoring t)
      (fun v s' => B v s'.arena ∧ s'.random = s.random) fun e s' => E e s'.arena := by
  apply Ensures.focus
  rintro _ rfl
  exact h.and_post fun _ _ hb => ⟨hb, rfl⟩

variable [WordSource ρ]

/-- What a tournament draws, and the source that is left. -/
def sample (size : Nat) (s : Stage σ ρ) : List Nat × ρ :=
  Draw.times size (Draw.below s.arena.population.size) s.random

theorem ensures_tournament_isBestOf (hK : Scoring.Keeps p K E) {size : Nat} {s : Stage σ ρ}
    (hs : K s.arena.population s.arena.problem)
    (hempty : s.arena.population.size = 0 ∨ size = 0 → ∀ a, E .emptyPopulation a)
    (hroom : ¬ HasRoom indexWidth size → ∀ a, E .outOfMemory a) :
    Ensures (· = s) (tournament p size)
      (fun ind s' => s'.arena.Filled s.arena.population K ∧ s'.random = (sample size s).2 ∧
        s'.arena.population.IsBestOf (sample size s).1 ind) fun e s' => E e s'.arena := by
  refine (ensures_populationSize.at_state rfl).bind fun n => Ensures.of_forall ?_
  rintro _ ⟨rfl, rfl⟩
  split
  · next hzero => exact Ensures.fail fun s' _ => hempty (.inl hzero) _
  · next hpos =>
    by_cases hfits : HasRoom indexWidth size
    · rw [reserve_of_hasRoom hfits, pure_bind]
      refine (ensures_drawing_at _ _).bind fun drawn => Ensures.of_forall ?_
      rintro s' ⟨rfl, rfl⟩
      obtain ⟨hlength, hbelow⟩ := yields_sample (Nat.pos_of_ne_zero hpos) size s.random
      have hnobody : (sample size s).1 = [] → size = 0 := by
        intro hnil
        rw [← hlength]
        exact List.length_eq_zero_iff.mpr hnil
      have hwinner := (Scoring.ensures_winner_isBestOf hK hbelow fun hnil =>
        hempty (.inr (hnobody hnil))).at_state ⟨rfl, hs⟩
      refine (ensures_scoring_at (s := ⟨s.arena, (sample size s).2⟩) hwinner).bind fun r =>
        Ensures.pure ?_
      exact fun s' ⟨⟨hs', hbest⟩, hrandom⟩ => ⟨hs', hrandom, hbest⟩
    · rw [reserve_of_not_hasRoom hfits]
      exact Ensures.never_bind (Ensures.fail fun s' _ => hroom hfits _)

end Breeding

/-! ## Contests, scans and tournaments -/

namespace Breeding

variable {σ ρ : Type} [WordSource ρ] {p : Problem σ} {I : σ → Prop}

/-- A contest goes to the last of the greatest scores, a scan to the highest index of the fittest
individuals, and a tournament to a copy of the last of the best that it draws. No one of them misses
an individual, whatever the problem, the size of the population and that of the sample. -/
theorem last_of_best_wins (hp : p.Scores I) :
    (∀ (P : Population) (first : Nat) (rest : List Nat), (∀ i ∈ first :: rest, i < P.size) →
      Ensures (fun a => a.population = P ∧ I a.problem) (Scoring.contest p (first :: rest))
        (fun r a => P.Fills a.population ∧
          (∀ i ∈ first :: rest, (a.population.score? i).isSome = true) ∧
          a.population.IsWonBy (first :: rest) r.1 ∧ a.population.score? r.1 = some r.2)
        fun _ _ => False) ∧
    (∀ P : Population, 0 < P.size →
      Ensures (fun a => a.population = P ∧ I a.problem) (Scoring.fittestIndex p)
        (fun k a => P.Fills a.population ∧ a.population.AllScored ∧
          a.population.IsHighestFittest k) fun _ _ => False) ∧
    (∀ (s : Stage σ ρ) (size : Nat), I s.arena.problem → 0 < s.arena.population.size →
      0 < size → HasRoom indexWidth size →
      ((sample size s).1.length = size ∧ ∀ i ∈ (sample size s).1, i < s.arena.population.size) ∧
      Ensures (· = s) (tournament p size)
        (fun ind s' => s.arena.population.Fills s'.arena.population ∧
          s'.random = (sample size s).2 ∧ s'.arena.population.IsBestOf (sample size s).1 ind)
        fun _ _ => False) ∧
    ∀ q : Problem σ,
      (∀ (P : Population) (indices : List Nat), (∀ i ∈ indices, i < P.size) →
        Ensures (fun a => a.population = P) (Scoring.contest q indices) (fun _ _ => True)
          fun e _ => e.IsNoMiss) ∧
      Ensures (fun _ => True) (Scoring.fittestIndex q) (fun _ _ => True) (fun e _ => e.IsNoMiss) ∧
      ∀ size, Ensures (fun _ : Stage σ ρ => True) (tournament q size) (fun _ _ => True)
        fun e _ => e.IsNoMiss := by
  have hno : SearchFault.emptyPopulation.IsNoMiss ∧ SearchFault.outOfMemory.IsNoMiss :=
    ⟨fun _ _ => nofun, fun _ _ => nofun⟩
  have hkeeps := Scoring.keeps_of_scores hp
  refine ⟨fun P first rest hindices => ?_, fun P hpos => ?_, fun s size hs hpos hsize hroom => ?_,
    fun q => ⟨fun P indices hindices => ?_, ?_, fun size => ?_⟩⟩
  · refine (Scoring.ensures_contest_isWonBy hkeeps hindices nofun).and_post ?_
    exact fun r a ⟨ha, hscored, hwon, hscore⟩ => ⟨ha.1, hscored, hwon, hscore⟩
  · refine (Scoring.ensures_fittestIndex hkeeps fun hzero => absurd hzero hpos.ne').and_post ?_
    exact fun k a ⟨ha, hscored, hk⟩ => ⟨ha.1, hscored, hk⟩
  · refine ⟨yields_sample hpos size s.random, ?_⟩
    have hnobody : ¬ (s.arena.population.size = 0 ∨ size = 0) := by omega
    refine (ensures_tournament_isBestOf hkeeps hs (fun h => absurd h hnobody)
      fun h => absurd hroom h).and_post ?_
    exact fun ind s' ⟨hs', hrandom, hbest⟩ => ⟨hs'.1, hrandom, hbest⟩
  · exact (Scoring.ensures_contest_isWonBy (Scoring.keeps_isNoMiss q) hindices
      fun _ _ => hno.1).weaken (fun _ h => ⟨h, trivial⟩) (fun _ _ _ => trivial) fun _ _ h => h
  · apply Ensures.of_forall
    intro a _
    exact (Scoring.ensures_fittestIndex (P := a.population) (Scoring.keeps_isNoMiss q)
      fun _ _ => hno.1).weaken (fun b hb => hb ▸ ⟨rfl, trivial⟩) (fun _ _ _ => trivial)
        fun _ _ h => h
  · apply Ensures.of_forall
    intro s _
    exact (ensures_tournament_isBestOf (Scoring.keeps_isNoMiss q) trivial (fun _ _ => hno.1)
      fun _ _ => hno.2).weaken (fun _ h => h) (fun _ _ _ => trivial) fun _ _ h => h

/-- Two individuals have the same score, and that of a third one is known to be NaN. -/
theorem last_of_best_wins_of_ties :
    let p : Problem Unit := { training := fun g => pure ((g.genes.get 0).toNat : Binary64) }
    let first : Genome := ⟨.replicate 15 1⟩
    let last : Genome := ⟨#v[1, 2, 3, 0, 0, 0, 0, 0, 0, 0, 0, 0, 0, 0, 0]⟩
    let P : Population := .ofList [.ofGenome first, ⟨.zero, some .nan⟩, .ofGenome last]
    let s : Stage Unit RepeatedWords :=
      ⟨⟨P, ()⟩, { words := #[0, 0xFFFFFFFF, 0x80000000] }⟩
    (p.Scores fun _ => True) ∧ 0 < P.size ∧ HasRoom indexWidth 3 ∧
      (tournament p 3 s #[]).result = .ok ⟨last, some 1⟩ ∧
      (tournament p 3 s #[]).state.arena.population.IsBestOf [0, 2, 1] ⟨last, some 1⟩ := by
  intro p first last P s
  have hp : p.Scores fun _ => True := fun _ => Ensures.pure fun _ _ => trivial
  have hP : 0 < s.arena.population.size := by decide
  have hroom : HasRoom indexWidth 3 := by decide
  have hsample : (sample 3 s).1 = [0, 2, 1] := by decide +kernel
  have hresult : (tournament p 3 s #[]).result = .ok ⟨last, some 1⟩ := by decide +kernel
  obtain ⟨-, htournament⟩ := (last_of_best_wins hp).2.2.1 s 3 trivial hP (by decide) hroom
  obtain ⟨-, -, hbest⟩ := htournament.of_ok rfl hresult
  rw [hsample] at hbest
  exact ⟨hp, hP, hroom, hresult, hbest⟩

theorem tournament_of_endless_sample_fails :
    ¬ ∀ (p : Problem Unit) (s : Stage Unit RepeatedWords) (size : Nat), (p.Scores fun _ => True) →
      0 < s.arena.population.size → 0 < size →
      ∃ winner, (tournament p size s #[]).result = .ok winner := by
  intro h
  let p : Problem Unit := { training := fun _ => pure 0 }
  let s : Stage Unit RepeatedWords :=
    ⟨⟨.ofList [.ofGenome .zero, .ofGenome .zero], ()⟩, { words := #[] }⟩
  have hp : p.Scores fun _ => True := fun _ => Ensures.pure fun _ _ => trivial
  have hP : 0 < s.arena.population.size := by decide
  have hroom : ¬ HasRoom indexWidth (2 ^ 61) := by decide
  obtain ⟨winner, hwinner⟩ := h p s (2 ^ 61) hp hP (by decide)
  obtain ⟨e, he, -⟩ := (ensures_tournament_of_not_hasRoom hroom).exists_error hP #[]
  cases hwinner.symm.trans he

/-- A scan that begins with a NaN goes to no other individual, although two later ones are equally
fit. And there can be no room for a sample of every size. -/
theorem scan_stays_with_nan_and_endless_sample_fails :
    (let w : WeightedGenes := { weights := [.infinity] }
     let first : Individual := .ofGenome .zero
     let other : Individual := .ofGenome ⟨#v[1, 0, 0, 0, 0, 0, 0, 0, 0, 0, 0, 0, 0, 0, 0]⟩
     let o := Scoring.fittestIndex w.problem ⟨.ofList [first, other, other], ()⟩ #[]
     (w.problem.Scores fun _ => True) ∧ o.result = .ok 0 ∧
       (o.state.population.score? 0).map Binary64.isNaN = some true ∧
       o.state.population.score? 1 = some .infinity ∧
       o.state.population.score? 2 = some .infinity) ∧
    ¬ ∀ (p : Problem Unit) (s : Stage Unit RepeatedWords) (size : Nat), (p.Scores fun _ => True) →
      0 < s.arena.population.size → 0 < size →
      ∃ winner, (tournament p size s #[]).result = .ok winner := by
  refine ⟨?_, tournament_of_endless_sample_fails⟩
  intro w first other o
  have hw : w.problem.Scores fun _ => True := fun _ => Ensures.pure fun _ _ => trivial
  exact ⟨hw, by decide +kernel, by decide +kernel, by decide +kernel, by decide +kernel⟩

end Breeding

end FormulaSearch
