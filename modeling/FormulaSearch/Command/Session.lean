import FormulaSearch.Command.Arguments
import FormulaSearch.Evolution.Search
import FormulaSearch.Table.Reading

/-!
# Sessions

A session carries out an invocation: it reads the row files, runs the searches on one model and
reports the best solutions.
-/

namespace FormulaSearch.Command

/-- An error of the system, by its number. -/
structure SystemError where
  number : Nat
deriving DecidableEq

def SystemError.message (e : SystemError) : String :=
  let text := match e.number with
    | 2 => "No such file or directory"
    | 5 => "Input/output error"
    | 13 => "Permission denied"
    | 20 => "Not a directory"
    | 21 => "Is a directory"
    | 36 => "File name too long"
    | n => "Unknown error " ++ toString n
  text ++ " (os error " ++ toString e.number ++ ")"

/-- What is found at a path. -/
inductive Opened where
  | content (bytes : List UInt8)
  | cannotOpen (cause : SystemError)
  | cannotRead (cause : SystemError)

/-- Why a session ends early. -/
inductive Failure where
  /-- A message and its causes, the nearest first. -/
  | error (message : String) (causes : List String)
  /-- A search asks for more memory than there can be. -/
  | outOfMemory
deriving DecidableEq

/-- The model and the lines printed so far. -/
structure Session where
  model : Model := {}
  output : Array String := #[]

abbrev SessionTrial := Trial Failure Session

namespace Session

def print (line : String) : SessionTrial Unit :=
  Trial.modify fun s => { s with output := s.output.push line }

def onModel {ε α : Type} (rename : ε → Failure) (t : Trial ε Model α) : SessionTrial α :=
  Trial.focus Session.model (fun model s => { s with model }) rename t

def bindTable (role : Role) (table : Table) : SessionTrial Unit :=
  onModel (ε := Failure) id (Model.load role table)

def loadFailure (path : String) (causes : List String) : Failure :=
  .error ("failed to load rows from " ++ path) causes

/-- The table of a row file, which has to have a row. -/
def loadTable (folder : String → Opened) (path : String) : SessionTrial Table := do
  match folder path with
  | .cannotOpen cause => Trial.fail (loadFailure path ["failed to open " ++ path, cause.message])
  | .cannotRead cause =>
    Trial.fail (loadFailure path [Table.Fault.cannotRead.message, cause.message])
  | .content bytes =>
    let (result, warnings) := Table.ofRecords (Records.ofBytes bytes)
    Trial.noteAll (warnings.map .tableWarning)
    match result with
    | .error fault => Trial.fail (loadFailure path [fault.message])
    | .ok table => do
      Trial.note (.tableLoaded table.size path)
      if table.isEmpty then Trial.fail (.error (path ++ " contains no usable rows") [])
      else return table

def searchFailure (context : String) : SearchFault → Failure
  | .outOfMemory => .outOfMemory
  | fault => .error context [fault.message]

def reportBest (role : Role) : SessionTrial Unit := do
  let s ← Trial.get
  let best := (s.model.track role).best
  match best.genome with
  | none => print ("best " ++ role.name ++ ": none")
  | some g =>
    match g.describe with
    | .error fault =>
      Trial.fail (.error ("cannot render best " ++ role.name ++ " solution") [fault.message])
    | .ok text =>
      print ("best " ++ role.name ++ ": " ++ best.value.sixPlaces ++ "  " ++ g.text ++ "  " ++
        String.ofList text)

def report (label : String) (result : SearchResult) : SessionTrial Unit := do
  print ("== " ++ label ++ " ==")
  print ("generations: " ++ toString result.generations ++ " (" ++ result.termination.name ++ ")")
  reportBest .training
  reportBest .validation
  onModel (ε := Failure) id (Model.logBest .training)

/-- The settings of the options, if both kinds are valid, on a fresh model. -/
def prepare (options : RunOptions) : SessionTrial Unit := do
  Trial.ofExcept (options.search.check.mapError fun fault => .error fault.message [])
  let model ← Trial.ofExcept
    ((Model.ofSettings options.model).mapError fun fault => .error fault.message [])
  Trial.modify fun s => { s with model }

variable (folder : String → Opened) (freshSeed : UInt64)

def train (training : String) (validation : Option String) (options : RunOptions) :
    SessionTrial Unit := do
  prepare options
  let trainingTable ← loadTable folder training
  let validationTable ← match validation with
    | some path => loadTable folder path
    | none => pure trainingTable
  bindTable .training trainingTable
  bindTable .validation validationTable
  let result ← onModel (searchFailure "GA run failed")
    (Search.run Model.problem options.search (options.search.source freshSeed))
  report "train" result

/-- A search seeded with a genome, on a model that has forgotten the searches before it. -/
def transplantInto (training validation : Table) (genome : Genome) (options : RunOptions)
    (label context : String) : SessionTrial Unit := do
  onModel (ε := Failure) id Model.reset
  bindTable .training training
  bindTable .validation validation
  let result ← onModel (searchFailure context)
    (Search.transplant Model.problem options.search (options.search.source freshSeed) genome)
  report label result

def transplant (source target : String) (options : RunOptions) : SessionTrial Unit := do
  prepare options
  let sourceTable ← loadTable folder source
  let targetTable ← loadTable folder target
  bindTable .training sourceTable
  bindTable .validation sourceTable
  let result ← onModel (searchFailure "source run failed")
    (Search.run Model.problem options.search (options.search.source freshSeed))
  report "source" result
  let s ← Trial.get
  let genome := s.model.training.best.genome.getD result.best.genome
  transplantInto freshSeed targetTable targetTable genome options
    "case 1 (target)" "transplant run on target failed"
  transplantInto freshSeed sourceTable targetTable genome options
    "case 2 (source -> target)" "transplant run on source/target failed"

def carryOut : Invocation → SessionTrial Unit
  | .train training validation options => train folder freshSeed training validation options
  | .transplant source target options => transplant folder freshSeed source target options

end Session

/-- What a process leaves behind, its texts as lines. -/
structure Exit where
  code : Nat
  output : List String := []
  errors : List String := []
deriving DecidableEq

/-- The lines of a text behind a mark; its further lines are set in by the width of the mark. -/
def markedLines (mark text : String) : List String :=
  match text.splitOn "\n" with
  | [] => [mark]
  | first :: rest => (mark ++ first) :: rest.map ("".pushn ' ' mark.length ++ ·)

/-- Causes are indented, and numbered if there are several. -/
def causeLines : List String → List String
  | [cause] => markedLines "    " cause
  | causes => causes.zipIdx.flatMap fun (cause, i) => markedLines ("    " ++ toString i ++ ": ") cause

def errorLines (message : String) : List String → List String
  | [] => ("Error: " ++ message).splitOn "\n"
  | causes => ("Error: " ++ message).splitOn "\n" ++ ["", "Caused by:"] ++ causeLines causes

def failureExit (output : List String) : Failure → Exit
  | .error message causes => { code := 1, output, errors := errorLines message causes }
  | .outOfMemory => { code := 101, output, errors := [SearchFault.outOfMemory.message] }

def runInvocation (folder : String → Opened) (freshSeed : UInt64) (i : Invocation) : Exit :=
  let o := Session.carryOut folder freshSeed i {} #[]
  let output := o.state.output.toList
  match o.result with
  | .ok () => { code := 0, output }
  | .error failure => failureExit output failure

/-- The exit of a command line. Arguments at fault end it with code 2. -/
def run (folder : String → Opened) (freshSeed : UInt64) (args : List String) : Exit :=
  match parse? args with
  | none => { code := 2, errors := ["invalid arguments"] }
  | some (.help topic) => { code := 0, output := topic.lines }
  | some (.carryOut i) => runInvocation folder freshSeed i

end FormulaSearch.Command
