import FormulaSearch.Proofs.Evolution.Population

/-!
# What contests do

A contest scores individuals and leaves everything else alone. So it keeps every property of a
population and a problem that scoring keeps, and its winner is the one that the scores determine
which are known when it ends.
-/

namespace FormulaSearch

open Trial (Ensures)

/-- The population of the arena is the given one with more scores known, and has the property. -/
def Arena.Filled {σ : Type} (P : Population) (K : Population → σ → Prop) (a : Arena σ) : Prop :=
  P.Fills a.population ∧ K a.population a.problem

theorem Arena.Filled.trans {σ : Type} {P P' : Population} {K : Population → σ → Prop} {a : Arena σ}
    (h : P.Fills P') (h' : a.Filled P' K) : a.Filled P K := ⟨h.trans h'.1, h'.2⟩

namespace Scoring

variable {σ : Type} {p : Problem σ} {K : Population → σ → Prop} {E : SearchFault → Arena σ → Prop}

/-- Scoring an individual whose score is not known keeps the property, with the score filled in. -/
def Keeps (p : Problem σ) (K : Population → σ → Prop) (E : SearchFault → Arena σ → Prop) : Prop :=
  ∀ P i ind, P.members[i]? = some ind → ind.score = none →
    Ensures (K P) (p.training ind.genome) (fun v s => K (P.setScore i v) s)
      fun e s => E (.unscored e) ⟨P, s⟩

theorem keeps_trivial : Keeps p (fun _ _ => True) fun _ _ => True :=
  fun _ _ _ _ _ => Ensures.trivial _

/-- Once all scores are known nothing is scored. -/
theorem keeps_of_allScored {P : Population} (h : P.AllScored) (s : σ) :
    Keeps p (fun P' s' => P' = P ∧ s' = s) E := by
  intro P' i ind hind hnone s' j hs'
  obtain ⟨rfl, -⟩ := hs'
  have hsome := h i (Population.lt_size_of_getElem? hind)
  rw [Population.score?_of_getElem? hind, hnone] at hsome
  cases hsome

theorem ensures_ask {α : Type} {P : Population} {t : Trial Model.Fault σ α} {A : σ → Prop}
    {B : α → σ → Prop} (h : Ensures A t B fun e s => E (.unscored e) ⟨P, s⟩) :
    Ensures (fun a => a.population = P ∧ A a.problem) (ask t)
      (fun v a => a.population = P ∧ B v a.problem) E := by
  apply Ensures.focus
  rintro a ⟨rfl, ha⟩
  refine h.weaken ?_ (fun v s hs => ⟨rfl, hs⟩) fun e s hs => hs
  rintro s rfl
  exact ha

theorem ensures_member {a : Arena σ} {i : Nat} (hi : i < a.population.size ∨ ∀ e a, E e a) :
    Ensures (· = a) (Trial.ofExcept (a.population.member i))
      (fun ind s => s = a ∧ a.population.members[i]? = some ind) E := by
  apply Ensures.ofExcept
  · intro ind hind s hs
    exact ⟨hs, Population.member_eq_ok_iff.mp hind⟩
  · intro e he s _
    rcases hi with hi | hE
    · obtain ⟨ind, hind⟩ := Population.exists_member hi
      rw [Population.member_eq_ok_iff.mpr hind] at he
      cases he
    · exact hE e s

theorem ensures_score (hK : Keeps p K E) {P : Population} {i : Nat}
    (hi : i < P.size ∨ ∀ e a, E e a) :
    Ensures (fun a => a.population = P ∧ K P a.problem) (score p i)
      (fun v a => a.Filled P K ∧ a.population.score? i = some v) E := by
  unfold score
  apply Ensures.get_bind
  rintro a ⟨rfl, hKa⟩
  refine (ensures_member hi).bind fun ind => ?_
  split
  · next v hv =>
    apply Ensures.pure
    rintro s ⟨rfl, hind⟩
    exact ⟨⟨.refl _, hKa⟩, (Population.score?_of_getElem? hind).trans hv⟩
  · next hnone =>
    apply Ensures.of_forall
    rintro s ⟨rfl, hind⟩
    have hask := (ensures_ask (hK s.population i ind hind hnone)).at_state ⟨rfl, hKa⟩
    refine hask.bind fun v => Ensures.modify_bind (Ensures.pure ?_)
    rintro _ ⟨s', ⟨hpopulation, hKs'⟩, rfl⟩
    have hsize := Population.lt_size_of_getElem? hind
    have hscore : s.population.score? i = none :=
      (Population.score?_of_getElem? hind).trans hnone
    rw [← hpopulation] at hKs' hsize hscore ⊢
    exact ⟨⟨Population.fills_setScore hsize hscore v, hKs'⟩,
      by rw [Population.score?_setScore hsize, if_pos rfl]⟩

/-- A contest ends with all its scores known, and its winner is the one they determine. -/
def Decided (P : Population) (best : Nat) (indices : List Nat) (r : Nat × Binary64) : Prop :=
  (∀ i ∈ indices, (P.score? i).isSome = true) ∧ r.1 = P.leader best indices ∧
    P.score? r.1 = some r.2

theorem Decided.cons {P : Population} {best i : Nat} {rest : List Nat} {r : Nat × Binary64}
    {v w : Binary64} (hbest : P.score? best = some v) (hi : P.score? i = some w)
    (h : Decided P (if v ≤ w then i else best) rest r) : Decided P best (i :: rest) r := by
  obtain ⟨hsome, hwinner, hscore⟩ := h
  refine ⟨List.forall_mem_cons.mpr ⟨?_, hsome⟩, ?_, hscore⟩
  · rw [hi]
    rfl
  · rw [hwinner, Population.leader, Population.value_of_score? hbest,
      Population.value_of_score? hi]
    split <;> rfl

theorem ensures_challenge (hK : Keeps p K E) {P : Population} {best : Nat} {v : Binary64}
    (hbest : P.score? best = some v) {indices : List Nat}
    (hindices : (∀ i ∈ indices, i < P.size) ∨ ∀ e a, E e a) :
    Ensures (fun a => a.population = P ∧ K P a.problem) (challenge p best v indices)
      (fun r a => a.Filled P K ∧ Decided a.population best indices r) E := by
  induction indices generalizing P best v with
  | nil =>
    apply Ensures.pure
    rintro a ⟨rfl, hKa⟩
    exact ⟨⟨.refl _, hKa⟩, by simp, rfl, hbest⟩
  | cons i rest ih =>
    have hi : i < P.size ∨ ∀ e a, E e a := hindices.imp_left fun h => h i (by simp)
    refine (ensures_score hK hi).bind fun w => Ensures.of_forall ?_
    intro a ⟨⟨hfills, hKa⟩, hw⟩
    have hbest' := hfills.score_eq best v hbest
    have hrest := hindices.imp_left fun h => hfills.forall_lt_size_tail h
    split
    · next hle =>
      refine ((ih hw hrest).at_state ⟨rfl, hKa⟩).and_post ?_
      intro r b ⟨hb, hdecided⟩
      refine ⟨hb.trans hfills, Decided.cons (hb.1.score_eq best v hbest') (hb.1.score_eq i w hw) ?_⟩
      rwa [if_pos hle]
    · next hlt =>
      refine ((ih hbest' hrest).at_state ⟨rfl, hKa⟩).and_post ?_
      intro r b ⟨hb, hdecided⟩
      refine ⟨hb.trans hfills, Decided.cons (hb.1.score_eq best v hbest') (hb.1.score_eq i w hw) ?_⟩
      rwa [if_neg hlt]

theorem ensures_contest (hK : Keeps p K E) {P : Population} {first : Nat} {rest : List Nat}
    (hindices : (∀ i ∈ first :: rest, i < P.size) ∨ ∀ e a, E e a) :
    Ensures (fun a => a.population = P ∧ K P a.problem) (contest p (first :: rest))
      (fun r a => a.Filled P K ∧ (a.population.score? first).isSome = true ∧
        Decided a.population first rest r) E := by
  have hfirst : first < P.size ∨ ∀ e a, E e a := hindices.imp_left fun h => h first (by simp)
  refine (ensures_score hK hfirst).bind fun v => Ensures.of_forall ?_
  intro a ⟨⟨hfills, hKa⟩, hv⟩
  have hrest := hindices.imp_left fun h => hfills.forall_lt_size_tail h
  refine ((ensures_challenge hK hv hrest).at_state ⟨rfl, hKa⟩).and_post ?_
  intro r b ⟨hb, hdecided⟩
  have hknown := hb.1.score_eq first v hv
  exact ⟨hb.trans hfills, by rw [hknown]; rfl, hdecided⟩

theorem ensures_winner (hK : Keeps p K E) {P : Population} {first : Nat} {rest : List Nat}
    (hindices : (∀ i ∈ first :: rest, i < P.size) ∨ ∀ e a, E e a) :
    Ensures (fun a => a.population = P ∧ K P a.problem) (winner p (first :: rest))
      (fun r a => a.Filled P K ∧ (∀ i ∈ first :: rest, (a.population.score? i).isSome = true) ∧
        a.population.members[a.population.leader first rest]? = some r.1 ∧ r.1.score = some r.2)
      E := by
  refine (ensures_contest hK hindices).bind fun r => Ensures.get_bind ?_
  intro a ⟨ha, hfirst, hrest, hwinner, hscore⟩
  have hlt : r.1 < a.population.size := by
    obtain ⟨ind, hind, -⟩ := Option.bind_eq_some_iff.mp hscore
    exact Population.lt_size_of_getElem? hind
  refine (ensures_member (.inl hlt)).bind fun ind => Ensures.pure ?_
  rintro s ⟨rfl, hind⟩
  refine ⟨ha, List.forall_mem_cons.mpr ⟨hfirst, hrest⟩, by rw [← hwinner]; exact hind, ?_⟩
  exact (Population.score?_of_getElem? hind).symm.trans hscore

theorem range_eq_cons {n : Nat} (hn : 0 < n) : List.range n = 0 :: List.range' 1 (n - 1) := by
  obtain ⟨k, rfl⟩ := Nat.exists_eq_succ_of_ne_zero hn.ne'
  rw [List.range_eq_range', List.range'_succ]
  rfl

theorem ensures_fittest (hK : Keeps p K E) {P : Population} (hP : 0 < P.size ∨ ∀ e a, E e a) :
    Ensures (fun a => a.population = P ∧ K P a.problem) (fittest p)
      (fun r a => a.Filled P K ∧ a.population.AllScored ∧ a.population.IsFittest r.1 r.2) E := by
  apply Ensures.get_bind
  rintro a ⟨rfl, hKa⟩
  rcases Nat.eq_zero_or_pos a.population.size with hzero | hpos
  · have hE : ∀ e a, E e a := hP.resolve_left (by omega)
    have hnobody : Ensures (· = a) (contest p (List.range a.population.size))
        (fun _ _ => False) E := by
      rw [hzero]
      exact Ensures.fail fun s _ => hE _ s
    exact hnobody.never_bind
  · have hrange := range_eq_cons hpos
    have hindices : ∀ i ∈ 0 :: List.range' 1 (a.population.size - 1), i < a.population.size := by
      rw [← hrange]
      intro i hi
      exact List.mem_range.mp hi
    rw [hrange]
    refine ((ensures_winner hK (.inl hindices)).at_state ⟨rfl, hKa⟩).and_post ?_
    intro r s ⟨hs, hsome, hwinner, hscore⟩
    refine ⟨hs, ?_, ?_, hscore⟩
    · intro i hi
      rw [hs.1.size_eq, ← List.mem_range, hrange] at hi
      exact hsome i hi
    · rw [Population.fittestIndex, hs.1.size_eq]
      exact hwinner

/-- The members are scored in order, so a first member that cannot be scored ends the scan. -/
theorem ensures_fittest_of_first {P : Population} {first : Individual} {A : σ → Prop}
    (hfirst : P.members[0]? = some first) (hnone : first.score = none)
    (ht : Ensures A (p.training first.genome) (fun _ _ => False)
      fun e s => E (.unscored e) ⟨P, s⟩) :
    Ensures (fun a => a.population = P ∧ A a.problem) (fittest p) (fun _ _ => False) E := by
  apply Ensures.get_bind
  rintro a ⟨rfl, hA⟩
  have hscore : Ensures (· = a) (score p 0) (fun _ _ => False) E := by
    apply Ensures.get_bind
    rintro b rfl
    rw [Population.member_eq_ok_iff.mpr hfirst]
    have hmember : Ensures (· = b) (Trial.ofExcept (.ok first) : Scoring σ Individual)
        (fun i s => i = first ∧ s = b) E := Ensures.pure fun s hs => ⟨rfl, hs⟩
    refine hmember.bind fun i => Ensures.of_forall ?_
    rintro s ⟨rfl, rfl⟩
    rw [hnone]
    exact ((ensures_ask ht).at_state ⟨rfl, hA⟩).bind fun v s' j hs' => hs'.2.elim
  rw [range_eq_cons (Population.lt_size_of_getElem? hfirst)]
  have hcontest : Ensures (· = a)
      (contest p (0 :: List.range' 1 (a.population.size - 1))) (fun _ _ => False) E :=
    hscore.never_bind
  exact hcontest.never_bind

end Scoring

end FormulaSearch
