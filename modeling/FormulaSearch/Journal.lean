import FormulaSearch.Evolution.Generation
import FormulaSearch.Formula.Scan
import FormulaSearch.Genome.Vocabulary
import FormulaSearch.Model.Role
import FormulaSearch.Number.SixPlaces
import FormulaSearch.Table.Reading

/-!
# The journal

Reading, scoring and searching leave entries in a journal, in the order in which things happen. An
entry says what happened; its severity and its text are derived from that. A reader of the journal
asks for a severity and everything graver.
-/

namespace FormulaSearch

inductive Severity where
  | warn | info | debug | trace
deriving DecidableEq, Repr

namespace Severity

def name : Severity → String
  | warn => "WARN"
  | info => "INFO"
  | debug => "DEBUG"
  | trace => "TRACE"

/-- The gravest severity has rank zero. -/
def rank : Severity → Nat
  | warn => 0
  | info => 1
  | debug => 2
  | trace => 3

theorem rank_le_trace (s : Severity) : s.rank ≤ trace.rank := by cases s <;> decide

end Severity

inductive Entry where
  | tableWarning (warning : Table.Warning)
  | tableLoaded (rows : Nat) (path : String)
  | tableBound (role : Role) (rows : Nat)
  | modelReset
  /-- A formula had no value on a row. -/
  | rowFallback (text : String) (fault : FormulaFault)
  | newBest (role : Role) (score earlier : Binary64)
  | bestSolution (role : Role) (score : Binary64) (genome : Genome)
  | noSolution (role : Role)
  /-- A random genome took the place of a list of bytes. -/
  | genomeReplaced (fault : Genome.Fault)
  | transplanted (genome : Genome)
  | generationStarted (generation : Generation)
  | searchFinished (generations : Nat) (termination : Termination) (fitness : Binary64)
deriving DecidableEq

namespace Entry

def severity : Entry → Severity
  | tableWarning _ | genomeReplaced _ => .warn
  | tableLoaded _ _ | tableBound _ _ | bestSolution _ _ _ | noSolution _ | transplanted _
  | searchFinished _ _ _ => .info
  | modelReset | newBest _ _ _ | generationStarted _ => .debug
  | rowFallback _ _ => .trace

/-- The formula of a genome, or in angle brackets why it has none. -/
def formulaOrFault (g : Genome) : String :=
  match g.describe with
  | .ok text => String.ofList text
  | .error fault => "<" ++ fault.message ++ ">"

def text : Entry → String
  | tableWarning warning => warning.message
  | tableLoaded rows path => "loaded " ++ toString rows ++ " rows from " ++ path
  | tableBound role rows => role.name ++ " data bound: " ++ toString rows ++ " rows"
  | modelReset => "fitness model reset"
  | rowFallback text fault => "row fallback for " ++ Text.quote text.toList ++ ": " ++ fault.message
  | newBest role score earlier =>
    "new best " ++ role.name ++ " value " ++ score.sixPlaces ++ " (was " ++ earlier.sixPlaces ++ ")"
  | bestSolution role score genome =>
    "best " ++ role.name ++ " value: " ++ score.sixPlaces ++ " genes " ++ genome.text ++
      " expression " ++ formulaOrFault genome
  | noSolution role => "no " ++ role.name ++ " solution has been calculated yet"
  | genomeReplaced fault => "supplied " ++ fault.message ++ "; using random genes"
  | transplanted genome => "transplanting " ++ genome.text ++ " into slot 0"
  | generationStarted g =>
    let validation := match g.validation with
      | some v => v.sixPlaces
      | none => "-"
    "generation " ++ toString g.number ++ ": training " ++ g.training.sixPlaces ++
      ", validation " ++ validation
  | searchFinished generations termination fitness =>
    "GA finished after " ++ toString generations ++ " generations (" ++ termination.name ++
      "), best fitness " ++ fitness.sixPlaces

def line (e : Entry) : String := e.severity.name ++ " " ++ e.text

end Entry

/-- Entries, the oldest first. -/
abbrev Journal := Array Entry

/-- The entries of the given severity or a graver one. -/
def Journal.upTo (s : Severity) (j : Journal) : List Entry :=
  j.toList.filter fun e => e.severity.rank ≤ s.rank

theorem Journal.upTo_trace (j : Journal) : j.upTo .trace = j.toList :=
  List.filter_eq_self.mpr fun e _ => decide_eq_true e.severity.rank_le_trace

end FormulaSearch
