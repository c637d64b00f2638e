import FormulaSearch.Evolution.Problem
import FormulaSearch.Proofs.Genome.Clamping
import FormulaSearch.Proofs.Trial

/-!
# When scoring succeeds

On a role with data, a genome is scored exactly if clamping mends it. Scoring never touches the
tables, and a genome that clamping does not mend leaves the whole model as it is.
-/

namespace FormulaSearch

open Trial (Ensures)

theorem Track.isLoaded_iff (t : Track) :
    t.isLoaded = true ↔ ∃ sheet, t.sheet = some sheet ∧ sheet.table.isEmpty = false := by
  cases h : t.sheet <;> simp [isLoaded, table, h]

theorem Sheet.outputs_of_pieces {sheet : Sheet} {s : ModelSettings} {g : Genome}
    {pieces : List Piece} (h : g.pieces = .ok pieces) : sheet.outputs s g =
      .ok (sheet.texts.map fun texts => s.output (pieces.flatMap (Piece.text texts))) := by
  rw [outputs, h]
  rfl

theorem Sheet.outputs_of_error {sheet : Sheet} {s : ModelSettings} {g : Genome}
    {cause : OutOfVocabulary} (h : g.pieces = .error cause) :
    sheet.outputs s g = .error cause := by
  rw [outputs, h]
  rfl

namespace Model

variable {m : Model} {role : Role} {g : Genome} {E : Fault → Model → Prop}

def SameSheets (m m' : Model) : Prop := ∀ role, (m'.track role).sheet = (m.track role).sheet

theorem SameSheets.isLoaded_eq {m m' : Model} (h : m.SameSheets m') (role : Role) :
    (m'.track role).isLoaded = (m.track role).isLoaded := by
  simp only [Track.isLoaded, Track.table, h role]

theorem sameSheets_setTrack {t : Track} (h : t.sheet = (m.track role).sheet) :
    m.SameSheets (m.setTrack role t) := by
  intro other
  by_cases hother : other = role
  · subst hother
    rw [track_setTrack, h]
  · rw [track_setTrack_of_ne m t hother]

theorem ensures_predict (hloaded : (m.track role).isLoaded = true) (hg : g.IsRenderable) :
    Ensures (· = m) (predict role g) (fun _ m' => m' = m) E := by
  obtain ⟨sheet, hsheet, hempty⟩ := (Track.isLoaded_iff _).mp hloaded
  obtain ⟨pieces, hpieces⟩ := hg.exists_pieces
  apply Ensures.get_bind
  rintro _ rfl
  simp only [hsheet, hempty, Sheet.outputs_of_pieces hpieces]
  exact Ensures.noteAll_bind (Ensures.pure fun m' hm' => hm')

theorem ensures_predict_stray (hloaded : (m.track role).isLoaded = true) {i : Fin 15}
    (hg : g.IsFirstStray i) : Ensures (· = m) (predict role g) (fun _ _ => False)
      fun e m' => e = .unspellable ⟨i, g.genes.get i⟩ ∧ m' = m := by
  obtain ⟨sheet, hsheet, hempty⟩ := (Track.isLoaded_iff _).mp hloaded
  apply Ensures.get_bind
  rintro _ rfl
  simp only [hsheet, hempty, Sheet.outputs_of_error hg.pieces_eq]
  exact Ensures.fail fun m' hm' => ⟨rfl, hm'⟩

theorem ensures_record (produced : List Binary64) (score : Binary64) :
    Ensures (· = m) (record role g produced score) (fun _ m' => m.SameSheets m') E := by
  apply Ensures.get_bind
  rintro _ rfl
  dsimp only
  split
  · apply Ensures.modify_bind
    intro m' j hm'
    obtain ⟨_, rfl, rfl⟩ := hm'
    exact sameSheets_setTrack rfl
  · apply Ensures.modify
    rintro _ rfl
    exact sameSheets_setTrack rfl

theorem ensures_calculate (role : Role) (hloaded : (m.track role).isLoaded = true)
    (hg : g.IsRenderable) :
    Ensures (· = m) (calculate role g) (fun _ m' => m.SameSheets m') E := by
  refine (ensures_predict hloaded hg).bind fun produced => Ensures.get_bind ?_
  rintro _ rfl
  exact (ensures_record _ _).bind fun _ => Ensures.pure fun m' hm' => hm'

theorem ensures_calculate_stray (role : Role) (hloaded : (m.track role).isLoaded = true)
    {i : Fin 15} (hg : g.IsFirstStray i) : Ensures (· = m) (calculate role g) (fun _ _ => False)
      fun e m' => e = .unspellable ⟨i, g.genes.get i⟩ ∧ m' = m := by
  refine (ensures_predict_stray hloaded hg).bind fun produced => ?_
  exact fun m' j hm' => hm'.elim

/-- Without data for validation there is no score, and nothing can fail. -/
theorem ensures_calculateValidation (hg : g.IsRenderable) :
    Ensures (· = m) (calculateValidation g) (fun _ m' => m.SameSheets m') E := by
  apply Ensures.get_bind
  rintro _ rfl
  split
  · next hloaded =>
    exact (ensures_calculate .validation hloaded hg).bind fun _ =>
      Ensures.pure fun m' hm' => hm'
  · apply Ensures.pure
    rintro _ rfl
    exact fun _ => rfl

end Model

end FormulaSearch
