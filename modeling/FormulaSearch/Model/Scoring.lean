import FormulaSearch.Model.Basic
import FormulaSearch.Trial

/-!
# Scoring

A genome is clamped, spelled for every row, and evaluated there; a row without a finite value gets
the fallback. The score is the correlation of the produced column with the targets. A score above
all earlier ones for the role is recorded.
-/

namespace FormulaSearch

/-- The output of a formula on one row, and the entry that tells why it is the fallback. -/
def ModelSettings.output (s : ModelSettings) (text : List Char) : Binary64 × List Entry :=
  match Formula.evaluate text with
  | .ok q =>
    let x := Binary64.ofRat q
    (if x.isFinite then x else s.fallback, [])
  | .error fault => (s.fallback, [.rowFallback (String.ofList text) fault])

theorem ModelSettings.isFinite_output {s : ModelSettings} (h : s.fallback.isFinite = true)
    (text : List Char) : (s.output text).1.isFinite = true := by
  unfold output
  split
  · dsimp only
    split <;> assumption
  · exact h

def Sheet.outputs (sheet : Sheet) (s : ModelSettings) (g : Genome) :
    Except OutOfVocabulary (List (Binary64 × List Entry)) := do
  let pieces ← g.pieces
  return sheet.texts.map fun texts => s.output (pieces.flatMap (Piece.text texts))

namespace Model

variable {ε : Type}

/-- Binds a table to a role. The best record stays. -/
def load (role : Role) (table : Table) : Trial ε Model Unit := do
  Trial.note (.tableBound role table.size)
  Trial.modify fun m =>
    m.setTrack role { m.track role with sheet := some (.ofTable table), produced := [] }

def reset : Trial ε Model Unit := do
  Trial.modify fun m => { m with training := {}, validation := {} }
  Trial.note .modelReset

/-- The column that a genome produces on the table of a role. -/
def predict (role : Role) (g : Genome) : Trial Fault Model (List Binary64) := do
  let m ← Trial.get
  match (m.track role).sheet with
  | none => Trial.fail (.noData role)
  | some sheet =>
    if sheet.table.isEmpty then Trial.fail (.noData role)
    else
      match sheet.outputs m.settings g.clamped with
      | .error cause => Trial.fail (.unspellable cause)
      | .ok outputs => do
        Trial.noteAll (outputs.flatMap Prod.snd)
        return outputs.map Prod.fst

def targets (m : Model) (role : Role) : Option (List Binary64) :=
  (m.track role).table.map Table.targets

def record (role : Role) (g : Genome) (produced : List Binary64) (score : Binary64) :
    Trial ε Model Unit := do
  let m ← Trial.get
  let track := m.track role
  if track.best.value < score then
    Trial.modify fun m =>
      m.setTrack role { track with produced, best := ⟨score, some g.clamped⟩ }
    Trial.note (.newBest role score track.best.value)
  else
    Trial.modify fun m => m.setTrack role { track with produced }

def calculate (role : Role) (g : Genome) : Trial Fault Model Binary64 := do
  let produced ← predict role g
  let m ← Trial.get
  let points := ((m.targets role).getD []).zip produced
  let score := m.settings.metric.coefficient points
  record role g produced score
  return score

/-- Scores a genome for validation, if there is data for it. -/
def calculateValidation (g : Genome) : Trial Fault Model (Option Binary64) := do
  let m ← Trial.get
  if m.validation.isLoaded then return some (← calculate .validation g) else return none

def logBest (role : Role) : Trial ε Model Unit := do
  let m ← Trial.get
  let best := (m.track role).best
  match best.genome with
  | some g => Trial.note (.bestSolution role best.value g)
  | none => Trial.note (.noSolution role)

end Model

end FormulaSearch
