import FormulaSearch.Command.Session
import FormulaSearch.Proofs.Model.Binding

/-!
# Sessions that cannot fail

Once its row files are loaded, a session ends well. The best solution of the first search has only
genes that are drawn, so it can seed the searches after it, and each of them stays at or above the
score of its seed.
-/

namespace FormulaSearch.Command

open Trial (Ensures)
open Model (IsPrepared IsBound)
open Search (StaysAbove)

/-- The options are valid, and there can be room for what they ask for. -/
structure RunOptions.IsAdmissible (o : RunOptions) : Prop where
  search : o.search.check = .ok ()
  model : o.model.check = .ok ()
  generations : HasRoom recordWidth o.generations
  population : HasRoom recordWidth o.population
  tournament : HasRoom indexWidth o.tournament

def Invocation.options : Invocation → RunOptions
  | train _ _ options => options
  | transplant _ _ options => options

/-- The file at the path holds a table with a row. -/
def Loads (folder : String → Opened) (path : String) (table : Table) : Prop :=
  ∃ bytes, folder path = .content bytes ∧
    (Table.ofRecords (Records.ofBytes bytes)).1 = .ok table ∧ table.isEmpty = false

theorem Loads.isEmpty_eq {folder : String → Opened} {path : String} {table : Table}
    (h : Loads folder path table) : table.isEmpty = false := by
  obtain ⟨bytes, -, -, hempty⟩ := h
  exact hempty

theorem loads_of_toOption {folder : String → Opened} {path : String} {bytes : List UInt8}
    {table : Table} (hcontent : folder path = .content bytes)
    (hread : (Table.ofRecords (Records.ofBytes bytes)).1.toOption = some table)
    (hempty : table.isEmpty = false) : Loads folder path table := by
  refine ⟨bytes, hcontent, ?_, hempty⟩
  cases hresult : (Table.ofRecords (Records.ofBytes bytes)).1 with
  | error fault =>
    rw [hresult] at hread
    cases hread
  | ok t =>
    rw [hresult] at hread
    exact congrArg Except.ok (Option.some.inj hread)

namespace Session

variable {ε α : Type} {folder : String → Opened} {options : RunOptions} {tables : Role → Table}
  {s : Session}

/-! ## Steps -/

theorem ensures_onModel {rename : ε → Failure} {t : Trial ε Model α} {A : Model → Prop}
    {B : α → Model → Prop} (h : Ensures A t B fun _ _ => False) :
    Ensures (fun s => A s.model) (onModel rename t) (fun a s => B a s.model)
      fun _ _ => False := by
  apply Ensures.focus
  intro s hs
  exact h.at_state hs

theorem ensures_print {A : Model → Prop} (line : String) :
    Ensures (fun s => A s.model) (print line) (fun _ s => A s.model) fun _ _ => False :=
  Ensures.modify fun _ hs => hs

theorem ensures_prepare (h : options.IsAdmissible) :
    Ensures (fun _ => True) (prepare options) (fun _ s => IsPrepared options.model s.model)
      fun _ _ => False := by
  unfold prepare Model.ofSettings
  rw [h.search, h.model]
  exact Ensures.modify fun _ _ => Model.isPrepared_fresh options.model

theorem ensures_loadTable {path : String} {table : Table} (h : Loads folder path table) :
    Ensures (· = s) (loadTable folder path) (fun t s' => t = table ∧ s' = s)
      fun _ _ => False := by
  obtain ⟨bytes, hcontent, hread, hempty⟩ := h
  obtain ⟨warnings, hread⟩ : ∃ warnings,
      Table.ofRecords (Records.ofBytes bytes) = (.ok table, warnings) := ⟨_, Prod.ext hread rfl⟩
  simp only [loadTable, hcontent, hread, hempty]
  exact Ensures.noteAll_bind (Ensures.note_bind (Ensures.pure fun _ hs => ⟨rfl, hs⟩))

def pair (training validation : Table) : Role → Table
  | .training => training
  | .validation => validation

theorem ensures_load {m : Model} (role : Role) (table : Table) :
    Ensures (· = m) (Model.load role table : Trial ε Model Unit)
      (fun _ m' => m' = m.setTrack role
        { m.track role with sheet := some (.ofTable table), produced := [] })
      fun _ _ => False := by
  apply Ensures.note_bind
  apply Ensures.modify
  rintro _ rfl
  rfl

theorem ensures_bindTraining (training : Table) :
    Ensures (fun s => IsPrepared options.model s.model) (bindTable .training training)
      (fun _ s => IsPrepared options.model s.model ∧
        s.model.training.sheet = some (.ofTable training)) fun _ _ => False := by
  unfold bindTable
  apply ensures_onModel (A := IsPrepared options.model) (B := fun _ m =>
    IsPrepared options.model m ∧ m.training.sheet = some (.ofTable training))
  apply Ensures.of_forall
  intro m hm
  apply (ensures_load .training training).and_post
  rintro _ _ rfl
  exact ⟨hm.setTrack .training (hm.records .training), rfl⟩

theorem ensures_bindValidation (training validation : Table) :
    Ensures (fun s => IsPrepared options.model s.model ∧
        s.model.training.sheet = some (.ofTable training)) (bindTable .validation validation)
      (fun _ s => IsBound options.model (pair training validation) s.model)
      fun _ _ => False := by
  unfold bindTable
  apply ensures_onModel (A := fun m => IsPrepared options.model m ∧
    m.training.sheet = some (.ofTable training))
    (B := fun _ => IsBound options.model (pair training validation))
  apply Ensures.of_forall
  intro m ⟨hm, htraining⟩
  apply (ensures_load .validation validation).and_post
  rintro _ _ rfl
  refine ⟨hm.setTrack .validation (hm.records .validation), ?_⟩
  intro role
  cases role with
  | training => exact htraining
  | validation => rfl

theorem ensures_reset :
    Ensures (fun s => s.model.settings = options.model) (onModel (ε := Failure) id Model.reset)
      (fun _ s => IsPrepared options.model s.model) fun _ _ => False := by
  apply ensures_onModel (A := fun m => m.settings = options.model)
  apply Ensures.modify_bind
  rintro _ j ⟨m, hm, rfl⟩
  refine ⟨hm, ?_⟩
  intro role g hg
  cases role <;> cases hg

theorem ensures_reportBest (role : Role) :
    Ensures (fun s => IsBound options.model tables s.model) (reportBest role)
      (fun _ s => IsBound options.model tables s.model) fun _ _ => False := by
  apply Ensures.get_bind
  intro s hs
  dsimp only
  split
  · exact (ensures_print _).at_state hs
  · next g hg =>
    obtain ⟨text, htext⟩ := (hs.records role g hg).exists_describe
    rw [htext]
    exact (ensures_print _).at_state hs

theorem ensures_report (label : String) (result : SearchResult) :
    Ensures (fun s => IsBound options.model tables s.model) (report label result)
      (fun _ s => IsBound options.model tables s.model) fun _ _ => False := by
  refine (ensures_print _).bind fun _ => (ensures_print _).bind fun _ => ?_
  refine (ensures_reportBest .training).bind fun _ => ?_
  refine (ensures_reportBest .validation).bind fun _ => ?_
  apply ensures_onModel (A := IsBound options.model tables)
    (B := fun _ => IsBound options.model tables)
  apply Ensures.get_bind
  intro m hm
  dsimp only
  split
  · exact fun m' j hm' => hm' ▸ hm
  · exact fun m' j hm' => hm' ▸ hm

/-! ## Sessions -/

/-- What seeds the searches of a session, and what they find. -/
structure Transplanted where
  seed : Genome
  onTarget : SearchResult
  onSource : SearchResult

/-- The genome on record for training is drawn, and so is the one that stands in for it. -/
theorem isDrawn_getD {m : Model} (hm : IsBound options.model tables m) {g : Genome}
    (hg : g.IsDrawn) : (m.training.best.genome.getD g).IsDrawn := by
  cases hbest : m.training.best.genome with
  | none => exact hg
  | some g' => exact hm.records .training g' hbest

variable (folder) (freshSeed : UInt64)

/-- Goes on like `transplantInto`, and tells what the search finds. -/
def transplantIntoTraced (training validation : Table) (genome : Genome) (options : RunOptions)
    (label context : String) : SessionTrial SearchResult := do
  onModel (ε := Failure) id Model.reset
  bindTable .training training
  bindTable .validation validation
  let result ← onModel (searchFailure context)
    (Search.transplant Model.problem options.search (options.search.source freshSeed) genome)
  report label result
  return result

def transplantTraced (source target : String) (options : RunOptions) :
    SessionTrial Transplanted := do
  prepare options
  let sourceTable ← loadTable folder source
  let targetTable ← loadTable folder target
  bindTable .training sourceTable
  bindTable .validation sourceTable
  let result ← onModel (searchFailure "source run failed")
    (Search.run Model.problem options.search (options.search.source freshSeed))
  report "source" result
  let s ← Trial.get
  let seed := s.model.training.best.genome.getD result.best.genome
  let onTarget ← transplantIntoTraced freshSeed targetTable targetTable seed options
    "case 1 (target)" "transplant run on target failed"
  let onSource ← transplantIntoTraced freshSeed sourceTable targetTable seed options
    "case 2 (source -> target)" "transplant run on source/target failed"
  return ⟨seed, onTarget, onSource⟩

theorem map_transplantIntoTraced (training validation : Table) (genome : Genome)
    (options : RunOptions) (label context : String) :
    (fun _ => ()) <$> transplantIntoTraced freshSeed training validation genome options label
      context = transplantInto freshSeed training validation genome options label context := by
  simp only [transplantIntoTraced, transplantInto, map_bind, map_pure, bind_pure_unit]

theorem map_transplantTraced (source target : String) (options : RunOptions) :
    (fun _ => ()) <$> transplantTraced folder freshSeed source target options =
      transplant folder freshSeed source target options := by
  simp only [transplantTraced, transplant, ← map_transplantIntoTraced, map_eq_pure_bind, bind_assoc,
    pure_bind]

section

variable {folder} (h : options.IsAdmissible)

include h

theorem ensures_run (context : String) (htables : ∀ role, (tables role).isEmpty = false) :
    Ensures (fun s => IsBound options.model tables s.model)
      (onModel (searchFailure context)
        (Search.run Model.problem options.search (options.search.source freshSeed)))
      (fun r s => IsBound options.model tables s.model ∧ r.best.genome.IsDrawn)
      fun _ _ => False :=
  ensures_onModel
    (B := fun (r : SearchResult) m => IsBound options.model tables m ∧ r.best.genome.IsDrawn)
    (Search.ensures_run_bound htables h.search h.generations h.population h.tournament _)

theorem ensures_train {training : String} {validation : Option String}
    (htraining : ∃ table, Loads folder training table)
    (hvalidation : ∀ path ∈ validation, ∃ table, Loads folder path table) :
    Ensures (fun _ => True) (train folder freshSeed training validation options)
      (fun _ _ => True) fun _ _ => False := by
  obtain ⟨trainingTable, htraining⟩ := htraining
  -- with both tables at hand the rest does not depend on where they come from
  have hrest {validationTable : Table} (hempty : validationTable.isEmpty = false) :
      Ensures (fun s => IsPrepared options.model s.model)
        (do
          bindTable .training trainingTable
          bindTable .validation validationTable
          let result ← onModel (searchFailure "GA run failed")
            (Search.run Model.problem options.search (options.search.source freshSeed))
          report "train" result)
        (fun _ _ => True) fun _ _ => False := by
    refine (ensures_bindTraining trainingTable).bind fun _ => ?_
    refine (ensures_bindValidation trainingTable validationTable).bind fun _ => ?_
    refine (ensures_run freshSeed h _ ?_).bind fun r => ?_
    · exact Role.rec htraining.isEmpty_eq hempty
    · exact ((ensures_report "train" r).of_pre fun _ hs => hs.1).and_post fun _ _ _ => trivial
  refine (ensures_prepare h).bind fun _ => Ensures.of_forall fun s hs => ?_
  refine (ensures_loadTable htraining).bind fun t => Ensures.of_forall ?_
  rintro _ ⟨rfl, rfl⟩
  cases validation with
  | none => exact (hrest htraining.isEmpty_eq).at_state hs
  | some path =>
    obtain ⟨validationTable, hload⟩ := hvalidation path rfl
    refine (ensures_loadTable hload).bind fun t' => Ensures.of_forall ?_
    rintro _ ⟨rfl, rfl⟩
    exact (hrest hload.isEmpty_eq).at_state hs

theorem ensures_transplant (context : String) (htables : ∀ role, (tables role).isEmpty = false)
    {seed : Genome} (hseed : seed.IsDrawn) :
    Ensures (fun s => IsBound options.model tables s.model)
      (onModel (searchFailure context)
        (Search.transplant Model.problem options.search (options.search.source freshSeed) seed))
      (fun r s => IsBound options.model tables s.model ∧
        ∃ v, Model.scoreOn options.model (tables .training) seed = .ok v ∧ StaysAbove v r)
      fun _ _ => False :=
  ensures_onModel
    (B := fun r m => IsBound options.model tables m ∧
      ∃ v, Model.scoreOn options.model (tables .training) seed = .ok v ∧ StaysAbove v r)
    (Search.ensures_transplant_bound htables h.search h.generations h.population h.tournament rfl
      hseed _)

/-- A search that is seeded with drawn genes stays at or above the score of its seed. -/
theorem ensures_transplantIntoTraced {training validation : Table}
    (htraining : training.isEmpty = false) (hvalidation : validation.isEmpty = false)
    {seed : Genome} (hseed : seed.IsDrawn) (label context : String) :
    Ensures (fun s => s.model.settings = options.model)
      (transplantIntoTraced freshSeed training validation seed options label context)
      (fun r s => (∃ v, Model.scoreOn options.model training seed = .ok v ∧ StaysAbove v r) ∧
        s.model.settings = options.model) fun _ _ => False := by
  refine ensures_reset.bind fun _ => (ensures_bindTraining training).bind fun _ => ?_
  refine (ensures_bindValidation training validation).bind fun _ => ?_
  have htables : ∀ role, (pair training validation role).isEmpty = false :=
    Role.rec htraining hvalidation
  refine (ensures_transplant freshSeed h context htables hseed).bind fun r => ?_
  apply Ensures.of_forall
  intro s hs
  refine ((ensures_report label r).at_state hs.1).bind fun _ => Ensures.pure fun s' hs' => ?_
  exact ⟨hs.2, hs'.settings⟩

/-- The seed of a session has only genes that are drawn. Both searches that it seeds have a score
for it, and stay at or above that. -/
structure Transplanted.IsSound (model : ModelSettings) (source target : Table) (t : Transplanted) :
    Prop where
  seed : t.seed.IsDrawn
  onTarget : ∃ v, Model.scoreOn model target t.seed = .ok v ∧ StaysAbove v t.onTarget
  onSource : ∃ v, Model.scoreOn model source t.seed = .ok v ∧ StaysAbove v t.onSource

theorem ensures_transplantTraced {source target : String} {sourceTable targetTable : Table}
    (hsource : Loads folder source sourceTable) (htarget : Loads folder target targetTable) :
    Ensures (fun _ => True) (transplantTraced folder freshSeed source target options)
      (fun t _ => t.IsSound options.model sourceTable targetTable) fun _ _ => False := by
  refine (ensures_prepare h).bind fun _ => Ensures.of_forall fun s hs => ?_
  refine (ensures_loadTable hsource).bind fun t => Ensures.of_forall ?_
  rintro _ ⟨rfl, rfl⟩
  refine (ensures_loadTable htarget).bind fun t' => Ensures.of_forall ?_
  rintro _ ⟨rfl, rfl⟩
  refine ((ensures_bindTraining t).at_state hs).bind fun _ => ?_
  refine (ensures_bindValidation t t).bind fun _ => ?_
  refine (ensures_run freshSeed h _ ?_).bind fun result => Ensures.of_forall fun s hs => ?_
  · exact Role.rec hsource.isEmpty_eq hsource.isEmpty_eq
  refine ((ensures_report "source" result).at_state hs.1).bind fun _ => Ensures.get_bind ?_
  intro s' hs'
  have hseed := isDrawn_getD hs' hs.2
  dsimp only
  refine ((ensures_transplantIntoTraced freshSeed h htarget.isEmpty_eq htarget.isEmpty_eq hseed _
    _).at_state hs'.settings).bind fun onTarget => Ensures.of_forall fun s₁ hs₁ => ?_
  refine ((ensures_transplantIntoTraced freshSeed h hsource.isEmpty_eq htarget.isEmpty_eq hseed _
    _).at_state hs₁.2).bind fun onSource => Ensures.pure fun s₂ hs₂ => ?_
  exact ⟨hseed, hs₁.1, hs₂.1⟩

end

theorem runInvocation_of_ok {i : Invocation}
    (hok : (carryOut folder freshSeed i {} #[]).result = .ok ()) :
    runInvocation folder freshSeed i =
      { code := 0, output := (carryOut folder freshSeed i {} #[]).state.output.toList } := by
  unfold runInvocation
  dsimp only
  rw [hok]

/-- A session whose row files all load ends well, if its options are valid and what they ask for can
be had. A transplant is seeded with genes that are drawn, and its seeded searches neither start nor
end below the score of the seed on their training tables. -/
theorem session_succeeds {folder : String → Opened} {i : Invocation}
    (h : i.options.IsAdmissible) (hloads : ∀ path ∈ i.paths, ∃ table, Loads folder path table)
    (freshSeed : UInt64) :
    let o := carryOut folder freshSeed i {} #[]
    (o.result = .ok () ∧
        runInvocation folder freshSeed i = { code := 0, output := o.state.output.toList }) ∧
      ∀ source target options, i = .transplant source target options →
        ∃ sourceTable targetTable t,
          Loads folder source sourceTable ∧ Loads folder target targetTable ∧
            transplantTraced folder freshSeed source target options {} #[] =
              ⟨.ok t, o.state, o.journal⟩ ∧
            t.IsSound options.model sourceTable targetTable := by
  cases i with
  | train training validation options =>
    have hvalidation (path : String) (hpath : path ∈ validation) :
        ∃ table, Loads folder path table :=
      hloads path (List.mem_cons_of_mem _ (Option.mem_toList.mpr hpath))
    obtain ⟨⟨⟩, hok, -⟩ := (ensures_train freshSeed h (hloads training List.mem_cons_self)
      hvalidation).exists_ok (s := {}) trivial #[]
    exact ⟨⟨hok, runInvocation_of_ok folder freshSeed hok⟩, fun _ _ _ hi => nomatch hi⟩
  | transplant source target options =>
    have h : options.IsAdmissible := h
    obtain ⟨sourceTable, hsource⟩ := hloads source List.mem_cons_self
    obtain ⟨targetTable, htarget⟩ := hloads target (List.mem_cons_of_mem _ List.mem_cons_self)
    obtain ⟨t, ht, hsound⟩ := (ensures_transplantTraced freshSeed h hsource htarget).exists_ok
      (s := {}) trivial #[]
    rcases htraced : transplantTraced folder freshSeed source target options {} #[] with ⟨_, s, j⟩
    rw [htraced] at ht
    obtain rfl := ht
    have hrun : carryOut folder freshSeed (.transplant source target options) {} #[] =
        ⟨.ok (), s, j⟩ := by
      rw [carryOut, ← map_transplantTraced, map_eq_pure_bind, Trial.bind_of_ok htraced]
      rfl
    have hok := congrArg Outcome.result hrun
    refine ⟨⟨hok, runInvocation_of_ok folder freshSeed hok⟩, ?_⟩
    rintro _ _ _ ⟨⟩
    rw [hrun]
    exact ⟨sourceTable, targetTable, t, hsource, htarget, htraced, hsound⟩

/-- A transplant between two files, of three rows and of two. -/
theorem session_succeeds_two_files :
    let source := "1,1,0,0,0,0,x,y\n2,2,1,0,0,0,x,y\n4,3,1,0,0,0,x,y\n"
    let target := "3,1,0,0,0,0,x,y\n5,2,0.5,0,0,0,x,y\n"
    let folder (path : String) : Opened :=
      .content (if path = "source" then source.toUTF8.toList else target.toUTF8.toList)
    let options : RunOptions :=
      { population := 2, generations := 1, tournament := 1, seed := some 42 }
    let i : Invocation := .transplant "source" "target" options
    (∃ output, runInvocation folder 0 i = { code := 0, output }) ∧
      ∃ sourceTable targetTable t,
        (transplantTraced folder 0 "source" "target" options {} #[]).result = .ok t ∧
          t.IsSound options.model sourceTable targetTable := by
  intro source target folder options i
  have hoptions : options.IsAdmissible :=
    ⟨by decide +kernel, by decide +kernel, by decide, by decide, by decide⟩
  have hsource : (Table.ofRecords (Records.ofBytes source.toUTF8.toList)).1.toOption =
      some ⟨[.ofColumns 1 1 0 0 0 0, .ofColumns 2 2 1 0 0 0, .ofColumns 4 3 1 0 0 0]⟩ := by
    decide +kernel
  have htarget : (Table.ofRecords (Records.ofBytes target.toUTF8.toList)).1.toOption =
      some ⟨[.ofColumns 3 1 0 0 0 0, .ofColumns 5 2 0.5 0 0 0]⟩ := by
    decide +kernel
  have hloads : ∀ path ∈ i.paths, ∃ table, Loads folder path table := by
    intro path hpath
    rcases List.mem_pair.mp hpath with rfl | rfl
    · exact ⟨_, loads_of_toOption (congrArg Opened.content (if_pos rfl)) hsource rfl⟩
    · exact ⟨_, loads_of_toOption (congrArg Opened.content (if_neg (by decide))) htarget rfl⟩
  obtain ⟨⟨-, hexit⟩, htransplanted⟩ := session_succeeds (i := i) hoptions hloads 0
  obtain ⟨sourceTable, targetTable, t, -, -, ht, hsound⟩ := htransplanted _ _ _ rfl
  exact ⟨⟨_, hexit⟩, sourceTable, targetTable, t, congrArg Outcome.result ht, hsound⟩

end Session

end FormulaSearch.Command
