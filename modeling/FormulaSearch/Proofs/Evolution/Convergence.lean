import FormulaSearch.Proofs.Evolution.Limits

/-!
# Searches that start at their target

A search whose first population already has an individual at the target breeds nothing. It still
sets aside the room for a full history, so it ends well only if there can be room for all the
generations that its limit admits, and the settings may ask for more than that.
-/

namespace FormulaSearch.Search

variable {σ ρ : Type} [WordSource ρ] {p : Problem σ} {settings : SearchSettings}
  {first : Population} {s : σ} {random : ρ} {j : Journal} {best : Individual} {v : Binary64}

/-- Whatever the limit of generations is, the first look at the population ends the search. -/
theorem advance_of_reached (hscan : (Scoring.fittest p ⟨first, s⟩ j).result = .ok (best, v))
    (htarget : settings.targetFitness ≤ v) (remaining : Nat) :
    (advance p settings remaining #[] ⟨⟨first, s⟩, random⟩ j).result =
      .ok ⟨best, v, 0, .converged, []⟩ := by
  rcases hrun : Scoring.fittest p ⟨first, s⟩ j with ⟨result, arena, j'⟩
  rw [hrun] at hscan
  obtain rfl : result = .ok (best, v) := hscan
  have hfirst : Breeding.scoring (Scoring.fittest p) ⟨⟨first, s⟩, random⟩ j =
      ⟨.ok (best, v), ⟨arena, random⟩, j'⟩ := by
    rw [Breeding.scoring, Trial.focus_apply, hrun]
    rfl
  rcases advance_cases hfirst settings remaining #[] with ⟨-, hstop⟩ | ⟨n, -, hbelow, -⟩
  · obtain ⟨j₂, hfinish⟩ := finish_of_scan hfirst settings #[]
    rw [hstop, hfinish, if_pos htarget]
    rfl
  · exact absurd htarget hbelow

/-- A search from a population that has reached the target ends at once, with no generations, if
there can be room for the history that its limit admits. Otherwise it fails. -/
theorem search_of_reached (hcheck : settings.check = .ok ())
    (hscan : (Scoring.fittest p ⟨first, s⟩ j).result = .ok (best, v))
    (htarget : settings.targetFitness ≤ v) :
    (search p settings ⟨⟨first, s⟩, random⟩ j).result =
      if HasRoom recordWidth settings.generationLimit then .ok ⟨best, v, 0, .converged, []⟩
      else .error .outOfMemory := by
  split_ifs with hroom
  · rw [search_eq hcheck hroom]
    exact advance_of_reached hscan htarget _
  · rw [search, hcheck, reserve_of_not_hasRoom hroom]
    rfl

/-- The longest history for which there can be room. -/
theorem search_of_reached_longest :
    let p : Problem Unit := WeightedGenes.problem { weights := .replicate 15 1 }
    let settings : SearchSettings := { generationLimit := 2 ^ 58 - 1, targetFitness := 15 }
    let ones : Genome := ⟨.replicate 15 1⟩
    let first : Population := .ofList [.ofGenome ⟨.replicate 15 0⟩, .ofGenome ones]
    let words : RepeatedWords := { words := #[] }
    settings.check = .ok () ∧ (Scoring.fittest p ⟨first, ()⟩ #[]).result = .ok (⟨ones, some 15⟩, 15) ∧
      settings.targetFitness ≤ 15 ∧ (search p settings ⟨⟨first, ()⟩, words⟩ #[]).result =
        .ok ⟨⟨ones, some 15⟩, 15, 0, .converged, []⟩ := by
  intro p settings ones first words
  have hcheck : settings.check = .ok () :=
    (SearchSettings.check_eq_ok_iff settings).mpr (by decide +kernel)
  have hscan : (Scoring.fittest p ⟨first, ()⟩ #[]).result = .ok (⟨ones, some 15⟩, 15) := by
    decide +kernel
  have htarget : settings.targetFitness ≤ 15 := by decide +kernel
  have hroom : HasRoom recordWidth settings.generationLimit := by decide
  exact ⟨hcheck, hscan, htarget, (search_of_reached hcheck hscan htarget).trans (if_pos hroom)⟩

/-- Sound settings may ask for a longer history than there can be room for. Then the search fails,
though the first population has reached the target. -/
theorem search_fails_for_want_of_room :
    let p : Problem Unit := WeightedGenes.problem { weights := .replicate 15 1 }
    let settings : SearchSettings := { generationLimit := 2 ^ 64 - 1, targetFitness := 15 }
    let ones : Genome := ⟨.replicate 15 1⟩
    let first : Population := .ofList [.ofGenome ⟨.replicate 15 0⟩, .ofGenome ones]
    let words : RepeatedWords := { words := #[] }
    settings.check = .ok () ∧ (Scoring.fittest p ⟨first, ()⟩ #[]).result = .ok (⟨ones, some 15⟩, 15) ∧
      settings.targetFitness ≤ 15 ∧
        (search p settings ⟨⟨first, ()⟩, words⟩ #[]).result = .error .outOfMemory := by
  intro p settings ones first words
  refine ⟨(SearchSettings.check_eq_ok_iff settings).mpr (by decide +kernel), ?_, ?_, ?_⟩
  · decide +kernel
  · decide +kernel
  · decide +kernel

end FormulaSearch.Search
