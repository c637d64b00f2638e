import FormulaSearch.Proofs.Evolution.Matching

/-!
# Searches side by side

Two searches from the same population and the same source, in front of two problems that answer in
the same way, breed the same populations. Equal scores compare alike, so what matches is equal.
-/

namespace FormulaSearch

open Trial (Agree)

variable {σ τ ρ α : Type} {p : Problem σ} {p' : Problem τ} {K : Population → σ → τ → Prop}
  {E : σ → τ → Prop}

def Arena.Alike (K : Population → σ → τ → Prop) (a : Arena σ) (a' : Arena τ) : Prop :=
  a.population = a'.population ∧ K a.population a.problem a'.problem

def Stage.Alike (K : Population → σ → τ → Prop) (s : Stage σ ρ) (s' : Stage τ ρ) : Prop :=
  s.arena.Alike K s'.arena ∧ s.random = s'.random

/-- Scoring an individual whose score is not known gives the same score and keeps the relation, with
the score filled in. If it fails, it does so in the same way. -/
structure Problem.Agree (p : Problem σ) (p' : Problem τ) (K : Population → σ → τ → Prop)
    (E : σ → τ → Prop) : Prop where
  training : ∀ (P : Population) (i : Nat) (ind : Individual), P.members[i]? = some ind →
    ind.score = none → Trial.Agree (K P) (p.training ind.genome) (p'.training ind.genome)
      (fun v v' s s' => v = v' ∧ K (P.setScore i v) s s') E
  of_fault : ∀ P s s', K P s s' → E s s'

theorem option_rel_eq_iff {o o' : Option α} : Option.Rel Eq o o' ↔ o = o' := by
  constructor
  · intro h
    cases h with
    | some hv => exact congrArg some hv
    | none => rfl
  · rintro rfl
    cases o with
    | none => exact .none
    | some v => exact .some rfl

theorem Individual.matches_eq_iff {i i' : Individual} : i.Matches Eq i' ↔ i = i' := by
  constructor
  · intro ⟨hgenome, hscore⟩
    exact congrArg₂ Individual.mk hgenome (option_rel_eq_iff.mp hscore)
  · rintro rfl
    exact ⟨rfl, option_rel_eq_iff.mpr rfl⟩

theorem Population.matches_eq_iff {P P' : Population} : P.Matches Eq P' ↔ P = P' := by
  have hmatches : Individual.Matches Eq = Eq :=
    funext₂ fun _ _ => propext Individual.matches_eq_iff
  constructor
  · intro h
    refine congrArg Population.mk (Array.ext_getElem? fun k => ?_)
    exact option_rel_eq_iff.mp (hmatches ▸ h k)
  · rintro rfl k
    exact hmatches ▸ option_rel_eq_iff.mpr rfl

theorem Arena.matches_eq_iff {a : Arena σ} {a' : Arena τ} : a.Matches Eq K a' ↔ a.Alike K a' :=
  and_congr_left' Population.matches_eq_iff

theorem Stage.matches_eq_iff {s : Stage σ ρ} {s' : Stage τ ρ} :
    s.Matches Eq K s' ↔ s.Alike K s' :=
  and_congr_left' Arena.matches_eq_iff

theorem Problem.Agree.matching (h : p.Agree p' K E) : p.Matching p' Eq K E where
  le_iff hv hw := by rw [hv, hw]
  training := h.training
  of_fault := h.of_fault

theorem Scoring.agree_fittest (h : p.Agree p' K E) :
    Trial.Agree (Arena.Alike K) (fittest p) (fittest p') (fun r r' a a' => r = r' ∧ a.Alike K a')
      (Failed E) := by
  apply h.matching.agree_fittest.weaken (fun _ _ => Arena.matches_eq_iff.mpr)
  · intro r r' a a' ⟨⟨hbest, hv⟩, ha⟩
    exact ⟨Prod.ext (Individual.matches_eq_iff.mp hbest) hv, Arena.matches_eq_iff.mp ha⟩
  · exact fun _ _ h => h

namespace Breeding

theorem agree_scoring_alike {t : Scoring σ α} {t' : Scoring τ α}
    (h : Agree (Arena.Alike K) t t' (fun v v' a a' => v = v' ∧ a.Alike K a') (Scoring.Failed E)) :
    Agree (Stage.Alike K) (scoring t : Breeding σ ρ α) (scoring t')
      (fun v v' s s' => v = v' ∧ s.Alike K s') (Failed E) := by
  apply (agree_scoring h).and_post
  rintro v v' s s' ⟨⟨rfl, ha⟩, hrandom⟩
  exact ⟨rfl, ha, hrandom⟩

theorem failed_of_alike (h : p.Agree p' K E) {s : Stage σ ρ} {s' : Stage τ ρ}
    (hs : s.Alike K s') : Failed E s s' :=
  h.matching.failed_of_matches (Stage.matches_eq_iff.mpr hs)

theorem agree_evolve [WordSource ρ] (h : p.Agree p' K E) (settings : SearchSettings) :
    Agree (Stage.Alike K) (evolve p settings : Breeding σ ρ Population) (evolve p' settings)
      (fun P P' s s' => P = P' ∧ s.Alike K s') (Failed E) := by
  apply h.matching.agree_evolve.weaken (fun _ _ => Stage.matches_eq_iff.mpr)
  · intro P P' s s' ⟨hP, hs⟩
    exact ⟨Population.matches_eq_iff.mp hP, Stage.matches_eq_iff.mp hs⟩
  · exact fun _ _ h => h

end Breeding

end FormulaSearch
