import FormulaSearch.Proofs.Model.Record

/-!
# Predictions and scores

One path through the model predicts the column of a genome and changes nothing. Another one scores
the genome, and keeps the column and the score. The two agree on every genome: they fail for the
same reason, or the column that is kept is the predicted one, and the score is its coefficient.
-/

namespace FormulaSearch

theorem Track.isLoaded_iff_rows (t : Track) :
    t.isLoaded = true ↔ ∃ table, t.table = some table ∧ table.rows ≠ [] := by
  cases h : t.table <;> simp [isLoaded, h, Table.isEmpty]

/-- The texts of a sheet are those of its table. -/
theorem Track.sheet_eq_of_table {t t' : Track} (h : t.table = t'.table) : t.sheet = t'.sheet :=
  Option.map_injective (fun _ _ => Sheet.ext_table) h

namespace Model

variable {m : Model} {role : Role} {g : Genome}

/-! ## The produced column -/

/-- One finite number for each row of a table. -/
structure IsColumnOf (table : Table) (produced : List Binary64) : Prop where
  length_eq : produced.length = table.size
  finite : ∀ x ∈ produced, x.isFinite = true

/-- Whatever a formula does on a row, the row gets a finite number. -/
theorem exists_isColumnOf (hfallback : m.settings.fallback.isFinite = true)
    {produced : List Binary64} (h : m.column role g = .ok produced) :
    ∃ table, (m.track role).table = some table ∧ IsColumnOf table produced := by
  obtain ⟨pieces, hpieces⟩ := exists_pieces_of_column h
  unfold column at h
  split at h
  · cases h
  · next sheet hsheet =>
    refine ⟨sheet.table, by rw [Track.table, hsheet]; rfl, ?_⟩
    split at h
    · cases h
    · rw [Sheet.outputs_of_pieces hpieces] at h
      obtain rfl := Except.ok.inj h
      constructor
      · simp [sheet.texts_eq, Table.size]
      · intro x hx
        obtain ⟨output, houtput, rfl⟩ := List.mem_map.mp hx
        obtain ⟨texts, -, rfl⟩ := List.mem_map.mp houtput
        exact m.settings.isFinite_output hfallback _

theorem column_of_not_loaded (h : ¬ (m.track role).isLoaded = true) :
    m.column role g = .error (.noData role) := by
  unfold column
  cases hsheet : (m.track role).sheet with
  | none => rfl
  | some sheet =>
    have hempty : sheet.table.isEmpty = true := by
      by_contra hrows
      exact h ((Track.isLoaded_iff _).mpr ⟨sheet, hsheet, eq_false_of_ne_true hrows⟩)
    simp only [hempty, if_true]

theorem column_of_firstStray (hloaded : (m.track role).isLoaded = true) {i : Fin 15}
    (h : g.IsFirstStray i) : m.column role g = .error (.unspellable ⟨i, g.genes.get i⟩) := by
  obtain ⟨sheet, hsheet, hrows⟩ := (Track.isLoaded_iff _).mp hloaded
  simp [column, hsheet, hrows, Sheet.outputs_of_error h.pieces_eq]

/-- The three ways in which the model answers to a genome. -/
theorem column_cases (m : Model) (role : Role) (g : Genome) :
    ((m.track role).isLoaded = false ∧ m.column role g = .error (.noData role)) ∨
    (∃ i, g.IsFirstStray i ∧ (m.track role).isLoaded = true ∧
      m.column role g = .error (.unspellable ⟨i, g.genes.get i⟩)) ∨
    (g.IsRenderable ∧ (m.track role).isLoaded = true ∧
      ∃ produced, m.column role g = .ok produced) := by
  by_cases hloaded : (m.track role).isLoaded = true
  · by_cases hg : g.IsRenderable
    · exact .inr (.inr ⟨hg, hloaded, exists_column role hloaded hg⟩)
    · obtain ⟨i, hi⟩ := Genome.exists_firstStray hg
      exact .inr (.inl ⟨i, hi, hloaded, column_of_firstStray hloaded hi⟩)
  · exact .inl ⟨eq_false_of_ne_true hloaded, column_of_not_loaded hloaded⟩

theorem column_eq_noData_iff {other : Role} :
    m.column role g = .error (.noData other) ↔
      other = role ∧ (m.track role).isLoaded = false := by
  rcases column_cases m role g with ⟨hloaded, h⟩ | ⟨i, -, hloaded, h⟩ | ⟨-, hloaded, produced, h⟩
  · simp [h, hloaded, eq_comm]
  · simp [h, hloaded]
  · simp [h, hloaded]

theorem exists_column_eq_unspellable_iff :
    (∃ cause, m.column role g = .error (.unspellable cause)) ↔
      (m.track role).isLoaded = true ∧ ¬ g.IsRenderable := by
  rcases column_cases m role g with
    ⟨hloaded, h⟩ | ⟨i, hstray, hloaded, h⟩ | ⟨hg, hloaded, produced, h⟩
  · simp [h, hloaded]
  · have hg : ¬ g.IsRenderable := fun hg => hg i hstray.1
    simp [h, hloaded, hg]
  · simp [h, hg]

/-! ## The two paths -/

theorem predict_eq (m : Model) (role : Role) (g : Genome) (j : Journal) :
    (predict role g m j).result = m.column role g ∧ (predict role g m j).state = m := by
  have h := ensures_predict_column m role g m j rfl
  rcases hrun : predict role g m j with ⟨e | produced, m', j'⟩ <;> rw [hrun] at h
  · exact ⟨h.2.symm, h.1⟩
  · exact ⟨h.2.symm, h.1⟩

theorem calculate_of_error {e : Fault} (h : m.column role g = .error e) (j : Journal) :
    (calculate role g m j).result = .error e ∧ (calculate role g m j).state = m := by
  have hrun := ensures_calculate_after m role g m j rfl
  rcases hcalculate : calculate role g m j with ⟨e' | v, m', j'⟩ <;> rw [hcalculate] at hrun
  · obtain rfl := Except.error.inj (h.symm.trans hrun.1)
    exact ⟨rfl, hrun.2⟩
  · obtain ⟨produced, hcolumn, -⟩ := hrun
    cases h.symm.trans hcolumn

theorem calculate_of_ok {produced : List Binary64} (h : m.column role g = .ok produced)
    (j : Journal) :
    (calculate role g m j).result = .ok (m.coefficient role produced) ∧
      (calculate role g m j).state = m.setTrack role
        ((m.track role).after g produced (m.coefficient role produced)) := by
  have hrun := ensures_calculate_after m role g m j rfl
  rcases hcalculate : calculate role g m j with ⟨e | v, m', j'⟩ <;> rw [hcalculate] at hrun
  · cases h.symm.trans hrun.1
  · obtain ⟨produced', hcolumn, rfl, hm'⟩ := hrun
    obtain rfl := Except.ok.inj (h.symm.trans hcolumn)
    exact ⟨rfl, hm'⟩

/-- Scoring fails where predicting does, and else it makes a score of the predicted column. -/
theorem calculate_result (m : Model) (role : Role) (g : Genome) (j : Journal) :
    (calculate role g m j).result = (m.column role g).map (m.coefficient role) := by
  cases h : m.column role g with
  | error e => exact (calculate_of_error h j).1
  | ok produced => exact (calculate_of_ok h j).1

theorem calculate_eq_error_iff {e : Fault} {j : Journal} :
    (calculate role g m j).result = .error e ↔ m.column role g = .error e := by
  rw [calculate_result]
  cases m.column role g <;> simp [Except.map]

theorem predict_clamped (role : Role) (g : Genome) : predict role g.clamped = predict role g := by
  simp only [predict, Genome.clamped_clamped]

theorem calculate_clamped (role : Role) (g : Genome) :
    calculate role g.clamped = calculate role g := by
  simp only [calculate, predict_clamped, record, Genome.clamped_clamped]

/-- What predicting and scoring a genome have in common, from one state of the model. -/
structure Agrees (m : Model) (role : Role) (g : Genome) (j : Journal) : Prop where
  error_iff : ∀ e, (calculate role g m j).result = .error e ↔
    (predict role g m j).result = .error e
  predict_state : (predict role g m j).state = m
  state_of_error : ∀ e, (calculate role g m j).result = .error e →
    (calculate role g m j).state = m
  /-- The predicted column has one finite number for each row, it is the one that is kept, and the
  score is its coefficient. -/
  of_ok : ∀ produced, (predict role g m j).result = .ok produced →
    ∃ table score, (m.track role).table = some table ∧ IsColumnOf table produced ∧
      score = m.settings.metric.coefficient (table.targets.zip produced) ∧
      (calculate role g m j).result = .ok score ∧
      ((calculate role g m j).state.track role).produced = produced ∧
      (calculate role g m j).state =
        m.setTrack role ((m.track role).after g produced score)
  /-- What was scored before does not matter. -/
  result_congr : ∀ m' j', m'.settings = m.settings →
    (m'.track role).table = (m.track role).table →
      (predict role g m' j').result = (predict role g m j).result ∧
        (calculate role g m' j').result = (calculate role g m j).result
  clamped : predict role g.clamped = predict role g ∧ calculate role g.clamped = calculate role g
  noData_iff : ∀ other, (calculate role g m j).result = .error (.noData other) ↔
    other = role ∧ ¬ ∃ table, (m.track role).table = some table ∧ table.rows ≠ []
  unspellable_iff : (∃ cause, (calculate role g m j).result = .error (.unspellable cause)) ↔
    (∃ table, (m.track role).table = some table ∧ table.rows ≠ []) ∧
      ∃ i : Fin 15, (i.val % 2 = 0 ∧ g.clamped.genes.get i = 8) ∨
        (i.val % 2 = 1 ∧ i.val < 12 ∧ g.clamped.genes.get i = 7)

theorem not_isRenderable_iff :
    ¬ g.IsRenderable ↔ ∃ i : Fin 15, Genome.IsStray i (g.clamped.genes.get i) := by
  simp only [Genome.IsRenderable, Genome.isStray_clamped_iff, not_forall, not_not]

/-- Predicting and scoring agree on every genome and in every state that valid settings allow. -/
theorem calculate_agrees (hsettings : m.settings.check = .ok ()) (role : Role) (g : Genome)
    (j : Journal) : m.Agrees role g j where
  error_iff e := by rw [calculate_eq_error_iff, (predict_eq m role g j).1]
  predict_state := (predict_eq m role g j).2
  state_of_error e he := (calculate_of_error (calculate_eq_error_iff.mp he) j).2
  of_ok produced hproduced := by
    rw [(predict_eq m role g j).1] at hproduced
    have hfallback := (ModelSettings.check_eq_ok_iff m.settings).mp hsettings
    obtain ⟨table, htable, hcolumn⟩ := exists_isColumnOf hfallback hproduced
    obtain ⟨hresult, hstate⟩ := calculate_of_ok hproduced j
    refine ⟨table, m.coefficient role produced, htable, hcolumn, ?_, hresult, ?_, hstate⟩
    · rw [coefficient, targets, htable]
      rfl
    · rw [hstate, track_setTrack]
      rfl
  result_congr m' j' hsettings' htable := by
    have hsheet := Track.sheet_eq_of_table htable
    have hcolumn := column_congr role hsettings' hsheet g
    have hcoefficient : m'.coefficient role = m.coefficient role :=
      funext fun produced => coefficient_congr role hsettings' hsheet produced
    constructor
    · rw [(predict_eq m' role g j').1, (predict_eq m role g j).1, hcolumn]
    · rw [calculate_result, calculate_result, hcolumn, hcoefficient]
  clamped := ⟨predict_clamped role g, calculate_clamped role g⟩
  noData_iff other := by
    rw [calculate_eq_error_iff, column_eq_noData_iff, ← Track.isLoaded_iff_rows,
      Bool.not_eq_true]
  unspellable_iff := by
    simp only [calculate_eq_error_iff]
    rw [exists_column_eq_unspellable_iff, Track.isLoaded_iff_rows, not_isRenderable_iff]
    rfl

/-- A gene that clamping leaves at seven, where an operator is named. -/
theorem calculate_agrees_stray_operator :
    let row : Row := .ofColumns 1 2 3 4 5 6
    let m : Model := { training := { sheet := some (.ofTable ⟨[row]⟩) } }
    let g : Genome := ⟨#v[9, 7, 1, 2, 4, 2, 4, 2, 4, 2, 4, 2, 4, 5, 5]⟩
    m.settings.check = .ok () ∧
      (∃ cause, (calculate .training g m #[]).result = .error (.unspellable cause)) ∧
      (predict .training g m #[]).state = m := by
  intro row m g
  have hsettings : m.settings.check = .ok () := by decide
  have h := calculate_agrees hsettings .training g #[]
  exact ⟨hsettings, h.unspellable_iff.mpr ⟨⟨_, rfl, by simp⟩, 1, by decide⟩, h.predict_state⟩

end Model

end FormulaSearch
