import FormulaSearch.Correlation.Metric
import FormulaSearch.Genome.FeatureText
import FormulaSearch.Genome.Vocabulary
import FormulaSearch.Model.Role
import FormulaSearch.Table.Basic

/-!
# The fitness model

A model holds two tables, one for training and one for validation, and for each of them the column
that the last scored genome produced and the best score since the last reset.
-/

namespace FormulaSearch

/-- The texts under which the features of a row stand in formulas. -/
def Row.texts (r : Row) : Vector (List Char) 4 := r.features.map Binary64.featureText

/-- A table with the texts of its features, which are written once and used in every scoring. -/
structure Sheet where
  table : Table
  texts : List (Vector (List Char) 4) := table.rows.map Row.texts
  texts_eq : texts = table.rows.map Row.texts := by rfl

def Sheet.ofTable (t : Table) : Sheet := { table := t }

@[simp] theorem Sheet.table_ofTable (t : Table) : (ofTable t).table = t := rfl

theorem Sheet.ext_table {s t : Sheet} (h : s.table = t.table) : s = t := by
  obtain ⟨_, _, hs⟩ := s
  obtain ⟨_, _, ht⟩ := t
  subst h hs ht
  rfl

/-- The highest score seen, and the clamped genome that reached it first. -/
structure Best where
  value : Binary64 := .negInfinity
  genome : Option Genome := none
deriving DecidableEq

/-- What a model keeps for one role. -/
structure Track where
  sheet : Option Sheet := none
  produced : List Binary64 := []
  best : Best := {}

def Track.table (t : Track) : Option Table := t.sheet.map Sheet.table

/-- A track with no rows cannot be scored on. -/
def Track.isLoaded (t : Track) : Bool := t.table.any fun table => !table.isEmpty

structure ModelSettings where
  /-- The output of a row on which a formula has no finite value. -/
  fallback : Binary64 := 0.5
  metric : Metric := .pearson
deriving DecidableEq

namespace ModelSettings

inductive Fault where
  | fallbackNotFinite
deriving DecidableEq

def Fault.message : Fault → String
  | fallbackNotFinite => "default_value must be finite"

def check (s : ModelSettings) : Except Fault Unit :=
  if s.fallback.isFinite then .ok () else .error .fallbackNotFinite

theorem check_eq_ok_iff (s : ModelSettings) : s.check = .ok () ↔ s.fallback.isFinite = true := by
  unfold check
  split <;> simp_all

end ModelSettings

structure Model where
  settings : ModelSettings := {}
  training : Track := {}
  validation : Track := {}

namespace Model

inductive Fault where
  | noData (role : Role)
  | unspellable (cause : OutOfVocabulary)
deriving DecidableEq

def Fault.message : Fault → String
  | noData role => "no " ++ role.name ++ " data loaded"
  | unspellable cause => cause.message

def ofSettings (s : ModelSettings) : Except ModelSettings.Fault Model :=
  s.check.map fun _ => { settings := s }

def track (m : Model) : Role → Track
  | .training => m.training
  | .validation => m.validation

def setTrack (m : Model) (role : Role) (t : Track) : Model :=
  match role with
  | .training => { m with training := t }
  | .validation => { m with validation := t }

@[simp] theorem track_setTrack (m : Model) (role : Role) (t : Track) :
    (m.setTrack role t).track role = t := by cases role <;> rfl

theorem track_setTrack_of_ne (m : Model) {role other : Role} (t : Track) (h : other ≠ role) :
    (m.setTrack role t).track other = m.track other := by
  cases role <;> cases other <;> simp_all [setTrack, track]

@[simp] theorem settings_setTrack (m : Model) (role : Role) (t : Track) :
    (m.setTrack role t).settings = m.settings := by cases role <;> rfl

end Model

end FormulaSearch
