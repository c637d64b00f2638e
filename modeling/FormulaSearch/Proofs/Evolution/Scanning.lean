import FormulaSearch.Proofs.Evolution.Contest

/-!
# Scans

A scan scores the members of a population in order. The search for the fittest member asks for the
same scores in the same order as scoring every member does, since which of two members leads a
contest does not matter for what is scored next. So all scans keep what scoring in order keeps.
-/

namespace FormulaSearch

open Trial (Ensures)

namespace Scoring

variable {σ : Type} {p : Problem σ} {K : Nat → Population → σ → Prop}
  {E : SearchFault → Arena σ → Prop}

/-- A property that counts how many members in front are scored. It is kept when the next one is. -/
structure KeepsInOrder (p : Problem σ) (K : Nat → Population → σ → Prop)
    (E : SearchFault → Arena σ → Prop) : Prop where
  known : ∀ i P s, (P.score? i).isSome = true → K i P s → K (i + 1) P s
  unknown : ∀ i P ind, P.members[i]? = some ind → ind.score = none →
    Ensures (K i P) (p.training ind.genome) (fun v s => K (i + 1) (P.setScore i v) s)
      fun e s => E (.unscored e) ⟨P, s⟩

def ScoredUpTo (K : Nat → Population → σ → Prop) (n i : Nat) (a : Arena σ) : Prop :=
  a.population.size = n ∧ K i a.population a.problem

/-- Which member leads a contest does not matter for what is scored next. -/
theorem map_challenge (best : Nat) (bestScore : Binary64) (indices : List Nat) :
    (fun _ => ()) <$> challenge p best bestScore indices = scoreEach p indices := by
  induction indices generalizing best bestScore with
  | nil => rfl
  | cons i rest ih =>
    rw [challenge, scoreEach, map_bind]
    congr 1
    funext v
    split
    · exact ih i v
    · exact ih best bestScore

theorem map_contest (first : Nat) (rest : List Nat) :
    (fun _ => ()) <$> contest p (first :: rest) = scoreEach p (first :: rest) := by
  rw [contest, scoreEach, map_bind]
  congr 1
  funext v
  exact map_challenge first v rest

variable (hK : KeepsInOrder p K E)

include hK

theorem KeepsInOrder.ensures_score {n i : Nat} (hi : i < n) :
    Ensures (ScoredUpTo K n i) (score p i) (fun _ => ScoredUpTo K n (i + 1)) E := by
  apply Ensures.get_bind
  rintro ⟨P, s⟩ ⟨rfl, hs⟩
  refine (ensures_member (.inl hi)).bind fun ind => ?_
  apply Ensures.of_forall
  rintro _ ⟨rfl, hind⟩
  cases hscore : ind.score with
  | some v =>
    apply Ensures.pure
    rintro _ rfl
    refine ⟨rfl, hK.known i P s ?_ hs⟩
    rw [Population.score?_of_getElem? hind, hscore]
    rfl
  | none =>
    have hask := ensures_ask (P := P) (hK.unknown i P ind hind hscore)
    refine (hask.at_state ⟨rfl, hs⟩).bind fun v => Ensures.modify_bind (Ensures.pure ?_)
    rintro _ ⟨a, ⟨rfl, ha⟩, rfl⟩
    exact ⟨Population.size_setScore _ _ _, ha⟩

theorem KeepsInOrder.ensures_scoreEach (n i k : Nat) (hn : i + k = n) :
    Ensures (ScoredUpTo K n i) (scoreEach p (List.range' i k)) (fun _ => ScoredUpTo K n n) E := by
  induction k generalizing i with
  | zero =>
    obtain rfl : i = n := hn
    exact Ensures.pure fun a ha => ha
  | succ k ih => exact (hK.ensures_score (by omega)).bind fun _ => ih (i + 1) (by omega)

theorem KeepsInOrder.ensures_evaluate :
    Ensures (fun a => K 0 a.population a.problem) (evaluate p)
      (fun _ a => K a.population.size a.population a.problem) E := by
  apply Ensures.get_bind
  intro a ha
  rw [List.range_eq_range']
  refine ((hK.ensures_scoreEach _ 0 _ (Nat.zero_add _)).at_state ⟨rfl, ha⟩).and_post ?_
  rintro _ b ⟨hsize, hb⟩
  rwa [hsize]

theorem KeepsInOrder.ensures_contest {n : Nat} (hn : 0 < n) :
    Ensures (ScoredUpTo K n 0) (contest p (List.range n))
      (fun r a => ScoredUpTo K n n a ∧ r.1 < a.population.size) E := by
  have hinOrder : Ensures (ScoredUpTo K n 0) (contest p (List.range n))
      (fun _ => ScoredUpTo K n n) E := by
    apply Ensures.of_map (f := fun _ => ())
    rw [range_eq_cons hn, map_contest, ← range_eq_cons hn, List.range_eq_range']
    exact hK.ensures_scoreEach n 0 n (Nat.zero_add n)
  have hkeeps : Keeps p (fun _ _ => True) fun _ _ => True := fun P i ind _ _ => Ensures.trivial _
  have hdecided : Ensures (fun _ => True) (contest p (List.range n))
      (fun r a => r.1 < a.population.size) fun _ _ => True := by
    rw [range_eq_cons hn]
    apply Ensures.of_forall
    intro a _
    refine ((Scoring.ensures_contest hkeeps (.inr fun _ _ => trivial)).at_state
      ⟨rfl, trivial⟩).and_post ?_
    rintro r b ⟨-, -, -, -, hscore⟩
    obtain ⟨ind, hind, -⟩ := Option.bind_eq_some_iff.mp hscore
    exact Population.lt_size_of_getElem? hind
  exact (hinOrder.and hdecided).weaken (fun a ha => ⟨ha, trivial⟩) (fun _ _ h => h)
    fun _ _ h => h.1

theorem KeepsInOrder.ensures_fittestIndex (hempty : ∀ a, E .emptyPopulation a) :
    Ensures (fun a => K 0 a.population a.problem) (fittestIndex p)
      (fun _ a => K a.population.size a.population a.problem) E := by
  apply Ensures.get_bind
  intro a ha
  rcases Nat.eq_zero_or_pos a.population.size with hzero | hpos
  · rw [hzero]
    exact Ensures.never_bind (Ensures.fail fun b _ => hempty b)
  · refine ((hK.ensures_contest hpos).at_state ⟨rfl, ha⟩).bind fun r => Ensures.pure ?_
    rintro b ⟨⟨hsize, hb⟩, -⟩
    rwa [hsize]

theorem KeepsInOrder.ensures_fittest (hempty : ∀ a, E .emptyPopulation a) :
    Ensures (fun a => K 0 a.population a.problem) (fittest p)
      (fun _ a => K a.population.size a.population a.problem) E := by
  apply Ensures.get_bind
  intro a ha
  rcases Nat.eq_zero_or_pos a.population.size with hzero | hpos
  · rw [hzero]
    exact Ensures.never_bind (Ensures.fail fun b _ => hempty b)
  · refine ((hK.ensures_contest hpos).at_state ⟨rfl, ha⟩).bind fun r => Ensures.get_bind ?_
    rintro b ⟨⟨hsize, hb⟩, hlt⟩
    refine (ensures_member (.inl hlt)).bind fun ind => Ensures.pure ?_
    rintro _ ⟨rfl, -⟩
    rwa [hsize]

end Scoring

end FormulaSearch
