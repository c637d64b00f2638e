import FormulaSearch.Proofs.Model.Scoring
import FormulaSearch.Proofs.Number.Order

/-!
# The best record of a model

Scoring a genome produces a column and a coefficient, which is never NaN nor infinite. So whatever
is asked of a model, the record of a role is the greatest coefficient that was returned for the role
since the last reset, with the clamped genome that reached it first.
-/

namespace FormulaSearch

open Trial (Ensures)

def Best.after (b : Best) (g : Genome) (score : Binary64) : Best :=
  if b.value < score then ⟨score, some g.clamped⟩ else b

def Track.after (t : Track) (g : Genome) (produced : List Binary64) (score : Binary64) : Track :=
  { t with produced, best := t.best.after g score }

namespace Model

variable {m : Model} {role : Role} {g : Genome}

/-! ## What a score is -/

/-- The column that a genome produces for a role, or why it produces none. -/
def column (m : Model) (role : Role) (g : Genome) : Except Fault (List Binary64) :=
  match (m.track role).sheet with
  | none => .error (.noData role)
  | some sheet =>
    if sheet.table.isEmpty then .error (.noData role)
    else
      match sheet.outputs m.settings g.clamped with
      | .error cause => .error (.unspellable cause)
      | .ok outputs => .ok (outputs.map Prod.fst)

def coefficient (m : Model) (role : Role) (produced : List Binary64) : Binary64 :=
  m.settings.metric.coefficient (((m.targets role).getD []).zip produced)

theorem isFinite_coefficient (m : Model) (role : Role) (produced : List Binary64) :
    (m.coefficient role produced).isFinite = true := Metric.isFinite_coefficient _ _

/-- Of a model only its settings and its table for the role matter. -/
theorem column_congr {m' : Model} (role : Role) (hsettings : m.settings = m'.settings)
    (hsheet : (m.track role).sheet = (m'.track role).sheet) (g : Genome) :
    m.column role g = m'.column role g := by
  simp only [column, hsettings, hsheet]

theorem coefficient_congr {m' : Model} (role : Role) (hsettings : m.settings = m'.settings)
    (hsheet : (m.track role).sheet = (m'.track role).sheet) (produced : List Binary64) :
    m.coefficient role produced = m'.coefficient role produced := by
  simp only [coefficient, targets, Track.table, hsettings, hsheet]

theorem ensures_predict_column (m : Model) (role : Role) (g : Genome) :
    Ensures (· = m) (predict role g) (fun produced m' => m' = m ∧ m.column role g = .ok produced)
      fun e m' => m' = m ∧ m.column role g = .error e := by
  apply Ensures.get_bind
  rintro m rfl
  cases hsheet : (m.track role).sheet with
  | none => exact Ensures.fail fun m' hm' => ⟨hm', by rw [column, hsheet]⟩
  | some sheet =>
    by_cases hempty : sheet.table.isEmpty = true
    · simp only [hempty]
      exact Ensures.fail fun m' hm' => ⟨hm', by simp only [column, hsheet, hempty, if_true]⟩
    · simp only [hempty]
      cases houtputs : sheet.outputs m.settings g.clamped with
      | error cause =>
        exact Ensures.fail fun m' hm' => ⟨hm', by simp [column, hsheet, hempty, houtputs]⟩
      | ok outputs =>
        refine Ensures.noteAll_bind (Ensures.pure fun m' hm' => ⟨hm', ?_⟩)
        simp [column, hsheet, hempty, houtputs]

theorem ensures_record_after (produced : List Binary64) (score : Binary64)
    {E : Fault → Model → Prop} :
    Ensures (· = m) (record role g produced score)
      (fun _ m' => m' = m.setTrack role ((m.track role).after g produced score)) E := by
  apply Ensures.get_bind
  rintro _ rfl
  unfold Track.after Best.after
  dsimp only
  split
  · apply Ensures.modify_bind
    rintro _ j ⟨_, rfl, rfl⟩
    rfl
  · apply Ensures.modify
    rintro _ rfl
    rfl

/-- A score is the coefficient of the produced column. The column is kept, and the score too if it
is above the record. A genome that produces no column leaves the model as it is. -/
theorem ensures_calculate_after (m : Model) (role : Role) (g : Genome) :
    Ensures (· = m) (calculate role g)
      (fun v m' => ∃ produced, m.column role g = .ok produced ∧ v = m.coefficient role produced ∧
        m' = m.setTrack role ((m.track role).after g produced v))
      fun e m' => m.column role g = .error e ∧ m' = m := by
  have hpredict : Ensures (· = m) (predict role g)
      (fun produced m' => m' = m ∧ m.column role g = .ok produced)
      fun e m' => m.column role g = .error e ∧ m' = m :=
    (ensures_predict_column m role g).weaken (fun _ h => h) (fun _ _ h => h)
      fun _ _ h => ⟨h.2, h.1⟩
  refine hpredict.bind fun produced => Ensures.get_bind ?_
  rintro _ ⟨rfl, hcolumn⟩
  refine (ensures_record_after produced _).bind fun _ => Ensures.pure ?_
  intro m' hm'
  exact ⟨produced, hcolumn, rfl, hm'⟩

theorem ensures_calculateValidation_after (m : Model) (g : Genome) :
    Ensures (· = m) (calculateValidation g)
      (fun v m' => if m.validation.isLoaded then
          ∃ w produced, v = some w ∧ w.isFinite = true ∧
            m' = m.setTrack .validation (m.validation.after g produced w)
        else v = none ∧ m' = m)
      fun e m' => m.validation.isLoaded = true ∧ m.column .validation g = .error e ∧ m' = m := by
  apply Ensures.get_bind
  rintro m rfl
  split
  · next hloaded =>
    refine Ensures.bind (Q := fun v m' => ∃ produced, v.isFinite = true ∧
      m' = m.setTrack .validation (m.validation.after g produced v)) ?_ fun v => Ensures.pure ?_
    · apply (ensures_calculate_after m .validation g).weaken (fun _ h => h)
      · rintro _ _ ⟨produced, -, rfl, rfl⟩
        exact ⟨produced, isFinite_coefficient m .validation produced, rfl⟩
      · intro e m' h
        exact ⟨hloaded, h⟩
    · rintro m' ⟨produced, hfinite, hm'⟩
      exact ⟨v, produced, rfl, hfinite, hm'⟩
  · exact Ensures.pure fun m' hm' => ⟨rfl, hm'⟩

theorem exists_column (role : Role) (hloaded : (m.track role).isLoaded = true)
    (hg : g.IsRenderable) : ∃ produced, m.column role g = .ok produced := by
  obtain ⟨sheet, hsheet, hempty⟩ := (Track.isLoaded_iff _).mp hloaded
  obtain ⟨pieces, hpieces⟩ := hg.exists_pieces
  simp [column, hsheet, hempty, Sheet.outputs_of_pieces hpieces]

theorem exists_pieces_of_column {produced : List Binary64} (h : m.column role g = .ok produced) :
    ∃ pieces, g.clamped.pieces = .ok pieces := by
  unfold column at h
  split at h
  · cases h
  · next sheet _ =>
    split at h
    · cases h
    · cases hpieces : g.clamped.pieces with
      | ok pieces => exact ⟨pieces, rfl⟩
      | error cause =>
        rw [Sheet.outputs_of_error hpieces] at h
        cases h

theorem exists_describe_of_column {produced : List Binary64} (h : m.column role g = .ok produced) :
    ∃ text, g.clamped.describe = .ok text := by
  obtain ⟨pieces, hpieces⟩ := exists_pieces_of_column h
  unfold Genome.describe Genome.spell
  rw [hpieces]
  exact ⟨_, rfl⟩

/-! ## Calls -/

inductive Call where
  | load (role : Role) (table : Table)
  | calculate (role : Role) (g : Genome)
  | predict (role : Role) (g : Genome)
  | logBest (role : Role)
  | reset

inductive Answer where
  | score (value : Binary64)
  | column (values : List Binary64)
  | done

def Call.perform : Call → Trial Fault Model Answer
  | load role table => do Model.load role table; return .done
  | calculate role g => do return .score (← Model.calculate role g)
  | predict role g => do return .column (← Model.predict role g)
  | logBest role => do Model.logBest role; return .done
  | reset => do Model.reset; return .done

/-- The call is neither a reset nor one that scores a genome for the role. -/
def Call.Spares (c : Call) (role : Role) (answer : Except Fault Answer) : Prop :=
  c ≠ .reset ∧ ∀ g v, c = .calculate role g → answer ≠ .ok (.score v)

/-- What a call with its answer makes of the record of a role. -/
inductive Call.Moves (role : Role) (b : Best) : Call → Except Fault Answer → Best → Prop
  | clears {answer : Except Fault Answer} : Moves role b .reset answer {}
  | scores {g : Genome} {v : Binary64} (finite : v.isFinite = true)
      (described : ∃ text, g.clamped.describe = .ok text) :
      Moves role b (.calculate role g) (.ok (.score v)) (b.after g v)
  | spares {c : Call} {answer : Except Fault Answer} (h : c.Spares role answer) :
      Moves role b c answer b

theorem Call.Moves.eq_of_spares {role : Role} {b b' : Best} {c : Call}
    {answer : Except Fault Answer} (h : c.Moves role b answer b') (hspares : c.Spares role answer) :
    b' = b := by
  cases h with
  | clears => exact absurd rfl hspares.1
  | scores => exact absurd rfl (hspares.2 _ _ rfl)
  | spares => rfl

theorem best_setTrack_of_ne {other : Role} (t : Track) (h : other ≠ role) :
    ((m.setTrack other t).track role).best = (m.track role).best := by
  rw [track_setTrack_of_ne m t h.symm]

theorem best_setTrack_of_eq {other : Role} {t : Track} (h : t.best = (m.track other).best) :
    ((m.setTrack other t).track role).best = (m.track role).best := by
  by_cases hother : other = role
  · subst hother
    rw [track_setTrack, h]
  · exact best_setTrack_of_ne t hother

theorem ensures_spares {α : Type} {t : Trial Fault Model α} {answer : α → Answer} {c : Call}
    (hspares : ∀ a, c.Spares role a)
    (ht : Ensures (· = m) t (fun _ m' => (m'.track role).best = (m.track role).best)
      fun _ m' => (m'.track role).best = (m.track role).best) :
    Ensures (· = m) (do return answer (← t))
      (fun a m' => c.Moves role (m.track role).best (.ok a) (m'.track role).best)
      fun e m' => c.Moves role (m.track role).best (.error e) (m'.track role).best := by
  have hmoves (a) (m' : Model) (hm' : (m'.track role).best = (m.track role).best) :
      c.Moves role (m.track role).best a (m'.track role).best := by
    rw [hm']
    exact .spares (hspares a)
  refine (ht.weaken (fun _ h => h) (fun _ _ h => h) fun e m' hm' => hmoves _ m' hm').bind fun a =>
    Ensures.pure fun m' hm' => hmoves _ m' hm'

theorem ensures_perform (m : Model) (role : Role) (c : Call) :
    Ensures (· = m) c.perform
      (fun a m' => c.Moves role (m.track role).best (.ok a) (m'.track role).best)
      fun e m' => c.Moves role (m.track role).best (.error e) (m'.track role).best := by
  cases c with
  | load other table =>
    apply ensures_spares (t := Model.load other table) (fun a => ⟨by simp, by simp⟩)
    apply Ensures.note_bind
    apply Ensures.modify
    rintro m rfl
    exact best_setTrack_of_eq rfl
  | calculate other g =>
    refine Ensures.bind (Q := fun v m' => Call.Moves role (m.track role).best (.calculate other g)
      (.ok (.score v)) (m'.track role).best) ?_ fun v => Ensures.pure fun m' hm' => hm'
    apply (ensures_calculate_after m other g).weaken (fun _ h => h)
    · rintro v _ ⟨produced, hcolumn, rfl, rfl⟩
      by_cases hother : other = role
      · subst hother
        rw [track_setTrack]
        exact .scores (isFinite_coefficient m other produced) (exists_describe_of_column hcolumn)
      · rw [best_setTrack_of_ne _ hother]
        exact .spares ⟨by simp, by simp [hother]⟩
    · rintro e _ ⟨-, rfl⟩
      exact .spares ⟨by simp, by simp⟩
  | predict other g =>
    apply ensures_spares (t := Model.predict other g) (fun a => ⟨by simp, by simp⟩)
    apply (ensures_predict_column m other g).weaken (fun _ h => h)
    · rintro produced _ ⟨rfl, -⟩
      rfl
    · rintro e _ ⟨rfl, -⟩
      rfl
  | logBest other =>
    apply ensures_spares (t := Model.logBest other) (fun a => ⟨by simp, by simp⟩)
    apply Ensures.get_bind
    rintro _ rfl
    dsimp only
    split <;> exact fun m' j hm' => by rw [hm']; rfl
  | reset =>
    have hreset : Ensures (· = m) (Model.reset : Trial Fault Model Unit)
        (fun _ m' => (m'.track role).best = {})
        fun e m' => Call.Moves role (m.track role).best .reset (.error e) (m'.track role).best := by
      apply Ensures.modify_bind
      rintro _ j ⟨_, rfl, rfl⟩
      cases role <;> rfl
    refine hreset.bind fun _ => Ensures.pure ?_
    intro m' hm'
    rw [hm']
    exact .clears

/-! ## Records -/

/-- A model in use, with the calls so far and what came of them. -/
structure Usage where
  model : Model
  journal : Journal
  past : List (Call × Except Fault Answer) := []

namespace Usage

/-- One more call. One that fails is part of the past like any other. -/
def step (u : Usage) (c : Call) : Usage :=
  let o := c.perform u.model u.journal
  { model := o.state, journal := o.journal, past := u.past ++ [(c, o.result)] }

def run (u : Usage) (calls : List Call) : Usage := calls.foldl step u

def extend (role : Role) (scores : List (Genome × Binary64)) :
    Call × Except Fault Answer → List (Genome × Binary64)
  | (.reset, _) => []
  | (.calculate other g, .ok (.score v)) => if other = role then scores ++ [(g, v)] else scores
  | _ => scores

/-- The genomes that were scored for a role since the last reset, with the scores. -/
def scores (u : Usage) (role : Role) : List (Genome × Binary64) := u.past.foldl (extend role) []

theorem extend_of_spares {role : Role} {c : Call} {answer : Except Fault Answer}
    (h : c.Spares role answer) (scores : List (Genome × Binary64)) :
    extend role scores (c, answer) = scores := by
  unfold extend
  split
  · next heq =>
    cases heq
    exact absurd rfl h.1
  · next other g v heq =>
    cases heq
    split
    · next hother => exact absurd rfl (h.2 g v (by rw [hother]))
    · rfl
  · rfl

theorem scores_step (u : Usage) (c : Call) (role : Role) :
    (u.step c).scores role =
      extend role (u.scores role) (c, (c.perform u.model u.journal).result) := by
  simp [scores, step, List.foldl_append]

theorem moves_step (u : Usage) (c : Call) (role : Role) :
    c.Moves role (u.model.track role).best (c.perform u.model u.journal).result
      ((u.step c).model.track role).best := by
  have := ensures_perform u.model role c u.model u.journal rfl
  unfold step
  rcases hrun : c.perform u.model u.journal with ⟨e | a, m', j'⟩
  · rw [hrun] at this
    exact this
  · rw [hrun] at this
    exact this

end Usage

/-- The empty record, or the first of the greatest scores. -/
inductive IsRecord : List (Genome × Binary64) → Best → Prop
  | empty : IsRecord [] {}
  | first {earlier later : List (Genome × Binary64)} {g : Genome} {v : Binary64}
      (below : ∀ s ∈ earlier, s.2 < v) (notAbove : ∀ s ∈ later, s.2 ≤ v) :
      IsRecord (earlier ++ (g, v) :: later) ⟨v, some g.clamped⟩

namespace IsRecord

variable {scores : List (Genome × Binary64)} {b : Best} {v : Binary64}

theorem le (h : IsRecord scores b) (hfinite : ∀ s ∈ scores, s.2.isFinite = true) :
    ∀ s ∈ scores, s.2 ≤ b.value := by
  have hnan (s) (hs : s ∈ scores) := Binary64.isNaN_of_isFinite (hfinite s hs)
  cases h with
  | empty => simp
  | @first earlier later g v below notAbove =>
    have hv : v.isNaN = false := hnan (g, v) (by simp)
    intro s hs
    rcases List.mem_append.mp hs with hearlier | hlater
    · exact Binary64.le_of_lt (hnan s hs) hv (below s hearlier)
    · rcases List.mem_cons.mp hlater with rfl | hlater
      · exact Binary64.le_refl hv
      · exact notAbove s hlater

/-- A strict improvement is the first of the greatest scores; any other score comes after it. -/
theorem after (h : IsRecord scores b) (hfinite : ∀ s ∈ scores, s.2.isFinite = true)
    (hv : v.isFinite = true) (g : Genome) : IsRecord (scores ++ [(g, v)]) (b.after g v) := by
  have hle := h.le hfinite
  have hnan (s) (hs : s ∈ scores) := Binary64.isNaN_of_isFinite (hfinite s hs)
  have hvnan := Binary64.isNaN_of_isFinite hv
  unfold Best.after
  cases h with
  | empty =>
    rw [if_pos (Binary64.negInfinity_lt hv)]
    have honly : IsRecord ([] ++ (g, v) :: []) ⟨v, some g.clamped⟩ := .first (by simp) (by simp)
    exact honly
  | @first earlier later g' v' below notAbove =>
    have hvnan' : v'.isNaN = false := hnan (g', v') (by simp)
    split
    · next hlt =>
      refine .first ?_ (by simp)
      intro s hs
      exact Binary64.lt_of_le_of_lt (hnan s hs) hvnan' hvnan (hle s hs) hlt
    · next hnot =>
      rw [List.append_assoc, List.cons_append]
      refine .first below (List.forall_mem_append.mpr ⟨notAbove, ?_⟩)
      simpa using Binary64.le_of_not_lt hvnan' hvnan hnot

end IsRecord

/-- The record of a role is that of its scores, all of which are finite and belong to genomes that
have a formula. -/
structure Usage.Keeps (u : Usage) (role : Role) : Prop where
  finite : ∀ s ∈ u.scores role, s.2.isFinite = true
  described : ∀ s ∈ u.scores role, ∃ text, s.1.clamped.describe = .ok text
  record : IsRecord (u.scores role) (u.model.track role).best

theorem Usage.Keeps.step {u : Usage} {role : Role} (h : u.Keeps role) (c : Call) :
    (u.step c).Keeps role := by
  obtain ⟨hfinite, hdescribed, hrecord⟩ := h
  have hscores := u.scores_step c role
  have hmoves := u.moves_step c role
  generalize (c.perform u.model u.journal).result = answer at hscores hmoves
  generalize hbest : ((u.step c).model.track role).best = b at hmoves
  cases hmoves with
  | clears =>
    have hscores : (u.step .reset).scores role = [] := hscores
    constructor
    · simp [hscores]
    · simp [hscores]
    · rw [hscores, hbest]
      exact .empty
  | @scores g v hv htext =>
    have hscores : (u.step (.calculate role g)).scores role = u.scores role ++ [(g, v)] :=
      hscores.trans (if_pos rfl)
    constructor
    · rw [hscores]
      exact List.forall_mem_append.mpr ⟨hfinite, by simpa using hv⟩
    · rw [hscores]
      exact List.forall_mem_append.mpr ⟨hdescribed, by simpa using htext⟩
    · rw [hscores, hbest]
      exact hrecord.after hfinite hv g
  | spares hspares =>
    rw [extend_of_spares hspares] at hscores
    constructor
    · rwa [hscores]
    · rwa [hscores]
    · rwa [hscores, hbest]

theorem Usage.Keeps.run {u : Usage} {role : Role} (h : u.Keeps role) (calls : List Call) :
    (u.run calls).Keeps role := by
  induction calls generalizing u with
  | nil => exact h
  | cons c calls ih => exact ih (h.step c)

theorem IsRecord.exists_describe {scores : List (Genome × Binary64)} {b : Best}
    (h : IsRecord scores b) (hdescribed : ∀ s ∈ scores, ∃ text, s.1.clamped.describe = .ok text)
    {g : Genome} (hg : b.genome = some g) : ∃ text, g.describe = .ok text := by
  cases h with
  | empty => cases hg
  | @first earlier later g' v =>
    cases hg
    exact hdescribed (g', v) (by simp)

/-- However a fresh model has been used, the record of a role is empty if nothing was scored for the
role since the last reset. Else it holds the greatest score that was returned since then, and the
clamped genome that reached it first, which has a formula. A call that does not score for the role
leaves the record alone, unless it is a reset. -/
theorem usage_record (settings : ModelSettings) (journal : Journal) (calls : List Call)
    (role : Role) :
    let u := Usage.run { model := { settings }, journal } calls
    IsRecord (u.scores role) (u.model.track role).best ∧
      (∀ g, (u.model.track role).best.genome = some g → ∃ text, g.describe = .ok text) ∧
      ∀ c : Call, c.Spares role (c.perform u.model u.journal).result →
        ((u.step c).model.track role).best = (u.model.track role).best := by
  intro u
  have hfresh : Usage.Keeps { model := { settings }, journal } role := by
    constructor
    · simp [Usage.scores]
    · simp [Usage.scores]
    · cases role <;> exact .empty
  have hkeeps : u.Keeps role := hfresh.run calls
  refine ⟨hkeeps.record, ?_, ?_⟩
  · intro g hg
    exact hkeeps.record.exists_describe hkeeps.described hg
  · intro c hspares
    exact (u.moves_step c role).eq_of_spares hspares

end Model

end FormulaSearch
