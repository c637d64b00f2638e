import FormulaSearch.Evolution.Search
import FormulaSearch.Proofs.Agreement
import FormulaSearch.Proofs.Evolution.Population

/-!
# Searches whose scores compare alike

Breeding looks at scores only to compare them. Two problems may score differently: if the order of
the scores is the same for both, then the same genomes are bred from the same population and the
same source. Whatever relates the states of the problems has to be kept by scoring alone.
-/

namespace FormulaSearch

open Trial (Agree)

variable {σ τ ρ α : Type} {V : Binary64 → Binary64 → Prop} {P P' : Population}
  {A : σ → τ → Prop} {E : σ → τ → Prop} {K : Population → σ → τ → Prop}

/-- The same genome. The scores are related, or neither is known. -/
structure Individual.Matches (V : Binary64 → Binary64 → Prop) (i i' : Individual) : Prop where
  genome : i.genome = i'.genome
  score : Option.Rel V i.score i'.score

namespace Population

def Matches (V : Binary64 → Binary64 → Prop) (P P' : Population) : Prop :=
  ∀ k : Nat, Option.Rel (Individual.Matches V) P.members[k]? P'.members[k]?

theorem Matches.genomes_eq (h : P.Matches V P') : P.genomes = P'.genomes := by
  apply Array.ext_getElem?
  intro k
  simp only [genomes, Array.getElem?_map]
  have hk := h k
  generalize P.members[k]? = i, P'.members[k]? = i' at hk ⊢
  cases hk with
  | some hi => exact congrArg some hi.genome
  | none => rfl

theorem Matches.size_eq (h : P.Matches V P') : P.size = P'.size := by
  rw [← size_genomes, h.genomes_eq, size_genomes]

theorem Matches.setScore (h : P.Matches V P') {index : Nat} {i i' : Individual}
    (hi : P.members[index]? = some i) (hi' : P'.members[index]? = some i')
    (hgenome : i.genome = i'.genome) {v v' : Binary64} (hv : V v v') :
    (P.setScore index v).Matches V (P'.setScore index v') := by
  intro k
  rw [getElem?_setScore hi, getElem?_setScore hi']
  split
  · exact .some ⟨hgenome, .some hv⟩
  · exact h k

theorem matches_ofGenomes (genomes : List Genome) (k : Nat) :
    Option.Rel (Individual.Matches V) (genomes.map Individual.ofGenome)[k]?
      (genomes.map Individual.ofGenome)[k]? := by
  rw [List.getElem?_map]
  cases genomes[k]? with
  | none => exact .none
  | some g => exact .some ⟨rfl, .none⟩

theorem matches_bred {head head' : Option Individual}
    (h : Option.Rel (Individual.Matches V) head head') (bred : List Genome) :
    (ofList (head.toList ++ bred.map Individual.ofGenome)).Matches V
      (ofList (head'.toList ++ bred.map Individual.ofGenome)) := by
  intro k
  simp only [ofList, List.getElem?_toArray]
  cases h with
  | none => exact matches_ofGenomes bred k
  | some hi =>
    cases k with
    | zero => exact .some hi
    | succ k => exact matches_ofGenomes bred k

theorem Matches.member_cases (h : P.Matches V P') (index : Nat) :
    (∃ i i', P.members[index]? = some i ∧ P'.members[index]? = some i' ∧ i.Matches V i') ∨
      ∃ e, P.member index = .error e ∧ P'.member index = .error e := by
  have hindex := h index
  rcases hi : P.members[index]? with _ | i <;> rcases hi' : P'.members[index]? with _ | i' <;>
    rw [hi, hi'] at hindex
  · refine .inr ⟨.noSuchMember index P.size, ?_, ?_⟩
    · rw [member, hi]
    · rw [member, hi', h.size_eq]
  · cases hindex
  · cases hindex
  · cases hindex with
    | some hmatches => exact .inl ⟨i, i', rfl, rfl, hmatches⟩

end Population

def Arena.Matches (V : Binary64 → Binary64 → Prop) (K : Population → σ → τ → Prop) (a : Arena σ)
    (a' : Arena τ) : Prop :=
  a.population.Matches V a'.population ∧ K a.population a.problem a'.problem

def Stage.Matches (V : Binary64 → Binary64 → Prop) (K : Population → σ → τ → Prop) (s : Stage σ ρ)
    (s' : Stage τ ρ) : Prop :=
  s.arena.Matches V K s'.arena ∧ s.random = s'.random

/-- Scores that are related compare alike. Scoring an individual whose score is not known gives
related scores and keeps the relation of the states, with the score filled in. If it fails, it does
so in the same way. -/
structure Problem.Matching (p : Problem σ) (p' : Problem τ) (V : Binary64 → Binary64 → Prop)
    (K : Population → σ → τ → Prop) (E : σ → τ → Prop) : Prop where
  le_iff : ∀ {v v' w w'}, V v v' → V w w' → (v ≤ w ↔ v' ≤ w')
  training : ∀ (P : Population) (i : Nat) (ind : Individual), P.members[i]? = some ind →
    ind.score = none → Trial.Agree (K P) (p.training ind.genome) (p'.training ind.genome)
      (fun v v' s s' => V v v' ∧ K (P.setScore i v) s s') E
  of_fault : ∀ P s s', K P s s' → E s s'

theorem agree_reserve (hA : ∀ s s', A s s' → E s s') (width count : Nat) :
    Agree A (reserve width count) (reserve width count) (fun _ _ => A) E := by
  by_cases hroom : HasRoom width count
  · rw [reserve_of_hasRoom hroom, reserve_of_hasRoom hroom]
    exact Agree.pure fun s s' hs => hs
  · rw [reserve_of_not_hasRoom hroom, reserve_of_not_hasRoom hroom]
    exact Agree.fail hA

namespace Scoring

/-- States of arenas in which a computation failed. -/
abbrev Failed (E : σ → τ → Prop) (a : Arena σ) (a' : Arena τ) : Prop := E a.problem a'.problem

theorem agree_ask (P P' : Population) {t : Trial Model.Fault σ α} {t' : Trial Model.Fault τ α}
    {B : α → α → σ → τ → Prop} (h : Agree A t t' B E) :
    Agree (fun a a' => a.population = P ∧ a'.population = P' ∧ A a.problem a'.problem)
      (ask t) (ask t')
      (fun v v' a a' => a.population = P ∧ a'.population = P' ∧ B v v' a.problem a'.problem)
      (Failed E) := by
  apply Agree.focus
  rintro a a' ⟨hpopulation, hpopulation', hA⟩
  apply (h.at_states hA).and_post
  intro v v' s s' hB
  exact ⟨hpopulation, hpopulation', hB⟩

end Scoring

namespace Breeding

/-- States of stages in which a computation failed. -/
abbrev Failed (E : σ → τ → Prop) (s : Stage σ ρ) (s' : Stage τ ρ) : Prop :=
  E s.arena.problem s'.arena.problem ∧ s.random = s'.random

theorem agree_scoring {β : Type} {t : Scoring σ α} {t' : Scoring τ β}
    {A : Arena σ → Arena τ → Prop} {B : α → β → Arena σ → Arena τ → Prop}
    (h : Agree A t t' B (Scoring.Failed E)) :
    Agree (fun (s : Stage σ ρ) (s' : Stage τ ρ) => A s.arena s'.arena ∧ s.random = s'.random)
      (scoring t) (scoring t')
      (fun v v' s s' => B v v' s.arena s'.arena ∧ s.random = s'.random) (Failed E) := by
  apply Agree.focus
  rintro s s' ⟨hA, hrandom⟩
  apply (h.at_states hA).weaken (fun _ _ h => h)
  · intro v v' a a' hB
    exact ⟨hB, hrandom⟩
  · intro a a' hE
    exact ⟨hE, hrandom⟩

end Breeding

namespace Problem.Matching

open Scoring Breeding

variable {p : Problem σ} {p' : Problem τ} {settings : SearchSettings}

section

variable (h : p.Matching p' V K E)

include h

theorem agree_score (index : Nat) :
    Agree (Arena.Matches V K) (score p index) (score p' index)
      (fun v v' a a' => V v v' ∧ a.Matches V K a') (Scoring.Failed E) := by
  apply Agree.get_bind
  rintro ⟨P, s⟩ ⟨P', s'⟩ ⟨hP, hK⟩
  obtain ⟨i, i', hi, hi', hgenome, hscore⟩ | ⟨e, he, he'⟩ := hP.member_cases index
  · dsimp only
    rw [Population.member_eq_ok_iff.mpr hi, Population.member_eq_ok_iff.mpr hi',
      Trial.ofExcept_ok_bind, Trial.ofExcept_ok_bind]
    rcases hnone : i.score with _ | v <;> rcases hnone' : i'.score with _ | v' <;>
      rw [hnone, hnone'] at hscore
    · have hask := agree_ask P P' (h.training P index i hi hnone)
      rw [← hgenome]
      refine (hask.at_states ⟨rfl, rfl, hK⟩).bind fun v v' => Agree.of_forall ?_
      rintro ⟨_, s⟩ ⟨_, s'⟩ ⟨rfl, rfl, hv, hK'⟩
      refine Agree.bind (S := fun _ _ a a' => a.Matches V K a') ?_ fun _ _ =>
        Agree.pure fun a a' ha => ⟨hv, ha⟩
      apply Agree.modify
      rintro _ _ ⟨rfl, rfl⟩
      exact ⟨hP.setScore hi hi' hgenome hv, hK'⟩
    · cases hscore
    · cases hscore
    · apply Agree.pure
      rintro _ _ ⟨rfl, rfl⟩
      cases hscore with
      | some hv => exact ⟨hv, hP, hK⟩
  · dsimp only
    rw [he, he']
    apply Agree.fail
    rintro _ _ ⟨rfl, rfl⟩
    exact h.of_fault P s s' hK

theorem agree_challenge (best : Nat) {v v' : Binary64} (hv : V v v') (indices : List Nat) :
    Agree (Arena.Matches V K) (challenge p best v indices) (challenge p' best v' indices)
      (fun r r' a a' => (r.1 = r'.1 ∧ V r.2 r'.2) ∧ a.Matches V K a') (Scoring.Failed E) := by
  induction indices generalizing best v v' with
  | nil => exact Agree.pure fun a a' ha => ⟨⟨rfl, hv⟩, ha⟩
  | cons index rest ih =>
    refine (h.agree_score index).bind fun w w' => Agree.of_fact fun hw => ?_
    rw [if_congr (h.le_iff hv hw) rfl rfl]
    split
    · exact ih index hw
    · exact ih best hv

theorem agree_contest (indices : List Nat) :
    Agree (Arena.Matches V K) (contest p indices) (contest p' indices)
      (fun r r' a a' => (r.1 = r'.1 ∧ V r.2 r'.2) ∧ a.Matches V K a') (Scoring.Failed E) := by
  cases indices with
  | nil => exact Agree.fail fun a a' ha => h.of_fault _ _ _ ha.2
  | cons index rest =>
    exact (h.agree_score index).bind fun v v' => Agree.of_fact fun hv =>
      h.agree_challenge index hv rest

theorem agree_winner (indices : List Nat) :
    Agree (Arena.Matches V K) (winner p indices) (winner p' indices)
      (fun r r' a a' => (r.1.Matches V r'.1 ∧ V r.2 r'.2) ∧ a.Matches V K a')
      (Scoring.Failed E) := by
  refine (h.agree_contest indices).bind fun r r' => Agree.of_fact ?_
  rintro ⟨hindex, hv⟩
  apply Agree.get_bind
  rintro ⟨P, s⟩ ⟨P', s'⟩ ⟨hP, hK⟩
  rw [← hindex]
  obtain ⟨i, i', hi, hi', hmatches⟩ | ⟨e, he, he'⟩ := hP.member_cases r.1
  · dsimp only
    rw [Population.member_eq_ok_iff.mpr hi, Population.member_eq_ok_iff.mpr hi']
    apply Agree.pure
    rintro _ _ ⟨rfl, rfl⟩
    exact ⟨⟨hmatches, hv⟩, hP, hK⟩
  · dsimp only
    rw [he, he']
    apply Agree.fail
    rintro _ _ ⟨rfl, rfl⟩
    exact h.of_fault P s s' hK

theorem agree_fittest :
    Agree (Arena.Matches V K) (fittest p) (fittest p')
      (fun r r' a a' => (r.1.Matches V r'.1 ∧ V r.2 r'.2) ∧ a.Matches V K a')
      (Scoring.Failed E) := by
  apply Agree.get_bind
  rintro ⟨P, s⟩ ⟨P', s'⟩ ⟨hP, hK⟩
  rw [hP.size_eq]
  exact (h.agree_winner _).at_states ⟨hP, hK⟩

end

/-! ## Breeding -/

theorem agree_scoring_matches {β : Type} {t : Scoring σ α} {t' : Scoring τ β} {S : α → β → Prop}
    (h : Agree (Arena.Matches V K) t t' (fun v v' a a' => S v v' ∧ a.Matches V K a')
      (Scoring.Failed E)) :
    Agree (Stage.Matches V K) (scoring t : Breeding σ ρ α) (scoring t')
      (fun v v' s s' => S v v' ∧ s.Matches V K s') (Breeding.Failed E) := by
  apply (agree_scoring h).and_post
  rintro v v' s s' ⟨⟨hv, ha⟩, hrandom⟩
  exact ⟨hv, ha, hrandom⟩

theorem agree_drawing (d : Draw ρ α) :
    Agree (Stage.Matches V K) (drawing d : Breeding σ ρ α) (drawing d : Breeding τ ρ α)
      (fun v v' s s' => v = v' ∧ s.Matches V K s') (Breeding.Failed E) := by
  rintro ⟨a, r⟩ ⟨a', _⟩ j j' ⟨ha, rfl⟩
  exact ⟨rfl, ha, rfl⟩

theorem agree_populationSize :
    Agree (Stage.Matches (ρ := ρ) V K) populationSize populationSize
      (fun n n' s s' => n = n' ∧ s.Matches V K s') (Breeding.Failed E) := by
  apply Agree.get_bind
  intro s s' hs
  apply Agree.pure
  rintro _ _ ⟨rfl, rfl⟩
  exact ⟨hs.1.1.size_eq, hs⟩

variable (h : p.Matching p' V K E)

include h

theorem failed_of_matches {s : Stage σ ρ} {s' : Stage τ ρ} (hs : s.Matches V K s') :
    Breeding.Failed E s s' :=
  ⟨h.of_fault _ _ _ hs.1.2, hs.2⟩

variable [WordSource ρ]

theorem agree_tournament (size : Nat) :
    Agree (Stage.Matches V K) (tournament p size : Breeding σ ρ Individual) (tournament p' size)
      (fun i i' s s' => i.Matches V i' ∧ s.Matches V K s') (Breeding.Failed E) := by
  refine agree_populationSize.bind_eq fun n => ?_
  split
  · exact Agree.fail fun s s' hs => h.failed_of_matches hs
  · refine (agree_reserve (fun s s' hs => h.failed_of_matches hs) _ _).bind fun _ _ => ?_
    refine (agree_drawing _).bind_eq fun sample => ?_
    refine (agree_scoring_matches (h.agree_winner sample)).bind fun r r' => ?_
    exact Agree.pure fun s s' hs => ⟨hs.1.1, hs.2⟩

theorem agree_child :
    Agree (Stage.Matches V K) (child p settings : Breeding σ ρ Genome) (child p' settings)
      (fun g g' s s' => g = g' ∧ s.Matches V K s') (Breeding.Failed E) := by
  refine (h.agree_tournament _).bind fun first first' => Agree.of_fact fun hfirst => ?_
  refine (h.agree_tournament _).bind fun second second' => Agree.of_fact fun hsecond => ?_
  rw [hfirst.genome, hsecond.genome]
  exact agree_drawing _

theorem agree_children (n : Nat) :
    Agree (Stage.Matches V K) (children p settings n : Breeding σ ρ (List Genome))
      (children p' settings n) (fun gs gs' s s' => gs = gs' ∧ s.Matches V K s')
      (Breeding.Failed E) := by
  induction n with
  | zero => exact Agree.pure fun s s' hs => ⟨rfl, hs⟩
  | succ n ih =>
    refine h.agree_child.bind_eq fun g => ih.bind_eq fun rest => ?_
    exact Agree.pure fun s s' hs => ⟨rfl, hs⟩

theorem agree_breed {head head' : Option Individual}
    (hhead : Option.Rel (Individual.Matches V) head head') :
    Agree (Stage.Matches V K) (breed p settings head : Breeding σ ρ Population)
      (breed p' settings head') (fun P P' s s' => P.Matches V P' ∧ s.Matches V K s')
      (Breeding.Failed E) := by
  have hlength : head.toList.length = head'.toList.length := by cases hhead <;> rfl
  refine agree_populationSize.bind_eq fun n => ?_
  split
  · exact Agree.fail fun s s' hs => h.failed_of_matches hs
  · rw [hlength]
    refine (h.agree_children _).bind_eq fun bred => (agree_drawing _).bind_eq fun mutated => ?_
    exact Agree.pure fun s s' hs => ⟨Population.matches_bred hhead mutated, hs⟩

theorem agree_evolve :
    Agree (Stage.Matches V K) (evolve p settings : Breeding σ ρ Population) (evolve p' settings)
      (fun P P' s s' => P.Matches V P' ∧ s.Matches V K s') (Breeding.Failed E) := by
  unfold evolve
  split
  · refine (agree_scoring_matches h.agree_fittest).bind fun r r' => Agree.of_fact fun hr => ?_
    exact h.agree_breed (.some hr.1)
  · exact h.agree_breed .none

end Problem.Matching

end FormulaSearch
