import FormulaSearch.Proofs.Evolution.Seeding
import FormulaSearch.Proofs.Evolution.Validation
import FormulaSearch.Proofs.Model.Prediction

/-!
# Searches of a model that is bound to tables

Genes are drawn from values that every vocabulary has, and breeding brings no other ones in. So a
model with a table for each role scores whatever a search asks of it, and all that it records can be
rendered.
-/

namespace FormulaSearch

open Trial (Ensures)

namespace Model

variable {settings : ModelSettings} {tables : Role → Table} {m : Model} {role : Role} {g : Genome}

/-- The model has these settings, and only drawn genomes are on record. -/
structure IsPrepared (settings : ModelSettings) (m : Model) : Prop where
  settings : m.settings = settings
  records : ∀ role g, (m.track role).best.genome = some g → g.IsDrawn

/-- The prepared model has a table for each role. -/
structure IsBound (settings : ModelSettings) (tables : Role → Table) (m : Model) : Prop
    extends m.IsPrepared settings where
  sheet : ∀ role, (m.track role).sheet = some (.ofTable (tables role))

theorem isPrepared_fresh (settings : ModelSettings) : IsPrepared settings { settings } where
  settings := rfl
  records role g hg := by cases role <;> cases hg

theorem IsPrepared.setTrack (h : m.IsPrepared settings) (role : Role) {t : Track}
    (ht : ∀ g, t.best.genome = some g → g.IsDrawn) : (m.setTrack role t).IsPrepared settings where
  settings := (settings_setTrack m role t).trans h.settings
  records other g hg := by
    by_cases hother : other = role
    · subst hother
      rw [track_setTrack] at hg
      exact ht g hg
    · rw [track_setTrack_of_ne m t hother] at hg
      exact h.records other g hg

theorem IsBound.after (h : m.IsBound settings tables) (role : Role) (hg : g.IsDrawn)
    (produced : List Binary64) (v : Binary64) :
    (m.setTrack role ((m.track role).after g produced v)).IsBound settings tables where
  toIsPrepared := by
    apply h.toIsPrepared.setTrack role
    intro g' hg'
    unfold Track.after Best.after at hg'
    dsimp only at hg'
    split at hg'
    · cases hg'
      rw [hg.clamped_eq]
      exact hg
    · exact h.records role g' hg'
  sheet other := by
    have hsame : m.SameSheets (m.setTrack role ((m.track role).after g produced v)) :=
      sameSheets_setTrack rfl
    rw [hsame other, h.sheet other]

section

variable (htables : ∀ role, (tables role).isEmpty = false)

include htables

theorem ensures_calculate_bound (role : Role) (hg : g.IsDrawn) :
    Ensures (IsBound settings tables) (calculate role g) (fun _ => IsBound settings tables)
      fun _ _ => False := by
  apply Ensures.of_forall
  intro m hm
  have hloaded : (m.track role).isLoaded = true :=
    (Track.isLoaded_iff _).mpr ⟨_, hm.sheet role, htables role⟩
  obtain ⟨column, hcolumn⟩ := exists_column role hloaded hg.isRenderable
  apply (ensures_calculate_after m role g).weaken (fun _ h => h)
  · rintro v _ ⟨produced, -, -, rfl⟩
    exact hm.after role hg produced v
  · rintro e _ ⟨herror, -⟩
    cases hcolumn.symm.trans herror

theorem harmless_bound : problem.Harmless Genome.IsDrawn (IsBound settings tables) where
  training _ hg := ensures_calculate_bound htables .training hg
  validation _ hg := by
    apply Ensures.get_bind
    intro m hm
    split
    · exact ((ensures_calculate_bound htables .validation hg).at_state hm).bind fun _ =>
        Ensures.pure fun _ hm' => hm'
    · apply Ensures.pure
      rintro _ rfl
      exact hm
  onGeneration _ _ hm := hm
  breeds P hP g hg := by
    obtain ⟨_, ⟨a, ha, b, hb, origins, rfl⟩, replacements, hdrawn, rfl⟩ := hg
    exact ((hP a ha).cross (hP b hb) origins).replace hdrawn

end

/-! ## Scores on a table -/

/-- The score of a genome on a table, as a fresh model tells it. -/
def scoreOn (settings : ModelSettings) (table : Table) (g : Genome) : Except Fault Binary64 :=
  (calculate .training g { settings, training := { sheet := some (.ofTable table) } } #[]).result

def TrainsOn (settings : ModelSettings) (table : Table) (m : Model) : Prop :=
  m.settings = settings ∧ m.training.sheet = some (.ofTable table)

variable {table : Table}

theorem scoreOn_eq (settings : ModelSettings) (table : Table) (g : Genome) :
    let m : Model := { settings, training := { sheet := some (.ofTable table) } }
    scoreOn settings table g = (m.column .training g).map (m.coefficient .training) := by
  intro m
  exact calculate_result m .training g #[]

theorem isGradedBy_scoreOn (settings : ModelSettings) (table : Table) :
    problem.IsGradedBy (TrainsOn settings table) (scoreOn settings table) where
  training g := by
    rw [scoreOn_eq]
    exact (isGradedBy { settings, training := { sheet := some (.ofTable table) } }).training g

theorem neverNaN_scoreOn (settings : ModelSettings) (table : Table) :
    NeverNaN (scoreOn settings table) := by
  intro g v hv
  rw [scoreOn_eq] at hv
  generalize Model.column _ .training g = column at hv
  cases column with
  | error e => cases hv
  | ok produced =>
    cases hv
    exact Binary64.isNaN_of_isFinite (isFinite_coefficient _ _ _)

theorem exists_scoreOn (settings : ModelSettings) (htable : table.isEmpty = false)
    (hg : g.IsRenderable) : ∃ v, scoreOn settings table g = .ok v := by
  let m : Model := { settings, training := { sheet := some (.ofTable table) } }
  have hloaded : (m.track .training).isLoaded = true :=
    (Track.isLoaded_iff _).mpr ⟨_, rfl, htable⟩
  obtain ⟨v, hv, -⟩ := (ensures_calculate .training hloaded hg (E := fun _ _ => False)).exists_ok
    rfl #[]
  exact ⟨v, hv⟩

theorem ensures_calculateValidation_trainsOn (g : Genome) :
    Ensures (TrainsOn settings table) (calculateValidation g) (fun _ => TrainsOn settings table)
      fun _ _ => True := by
  apply Ensures.of_forall
  intro m hm
  apply (ensures_calculateValidation_after m g).weaken (fun _ h => h) _ fun _ _ _ => trivial
  intro v m' hm'
  split at hm'
  · obtain ⟨w, produced, -, -, rfl⟩ := hm'
    exact hm
  · rw [hm'.2]
    exact hm

end Model

/-! ## Searches -/

namespace Search

open Model (IsBound TrainsOn scoreOn)

variable {ρ : Type} [WordSource ρ] {settings : SearchSettings} {modelSettings : ModelSettings}
  {tables : Role → Table} (htables : ∀ role, (tables role).isEmpty = false)
  (hcheck : settings.check = .ok ()) (hlimit : HasRoom recordWidth settings.generationLimit)
  (hsize : HasRoom recordWidth settings.populationSize)
  (htournament : HasRoom indexWidth settings.tournamentSize)

include htables hcheck hlimit hsize htournament

theorem ensures_run_bound (random : ρ) :
    Ensures (IsBound modelSettings tables) (run Model.problem settings random)
      (fun r m => IsBound modelSettings tables m ∧ r.best.genome.IsDrawn) fun _ _ => False :=
  ensures_run (Model.harmless_bound htables) (fun _ hg => hg) hcheck hlimit hsize htournament random

/-- A search that is seeded with a drawn genome has a score for it, and stays above that. -/
theorem ensures_transplant_bound (helitism : settings.elitism = true) {seed : Genome}
    (hseed : seed.IsDrawn) (random : ρ) :
    Ensures (IsBound modelSettings tables) (transplant Model.problem settings random seed)
      (fun r m => IsBound modelSettings tables m ∧
        ∃ v, scoreOn modelSettings (tables .training) seed = .ok v ∧ StaysAbove v r)
      fun _ _ => False := by
  obtain ⟨v, hv⟩ := Model.exists_scoreOn modelSettings (htables .training) hseed.isRenderable
  have hnumeric := Model.neverNaN_scoreOn modelSettings (tables .training)
  have hharmless : Model.problem.Harmless Genome.IsDrawn (IsBound modelSettings tables) :=
    Model.harmless_bound htables
  have hsafe := ensures_transplant hharmless (fun _ hg => hg) hcheck hlimit hsize htournament hseed
    random
  have hstays := ensures_transplant_staysAbove
    (Model.isGradedBy_scoreOn modelSettings (tables .training)) hnumeric (hnumeric seed v hv)
    helitism Model.ensures_calculateValidation_trainsOn (fun _ _ hm => hm) hv random
  apply (hsafe.and hstays).weaken
  · exact fun m hm => ⟨hm, hm.settings, hm.sheet .training⟩
  · exact fun r m h => ⟨h.1.1, v, hv, h.2⟩
  · exact fun _ _ h => h.1

end Search

end FormulaSearch
