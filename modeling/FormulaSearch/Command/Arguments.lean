import FormulaSearch.Command.Help
import FormulaSearch.Evolution.Settings
import FormulaSearch.Model.Basic
import FormulaSearch.Number.Numeral

/-!
# Arguments of the command line

The command `train` searches one problem, and `transplant` seeds the searches of a second problem
with the solution of a first one. An option takes its value from the next argument or from behind
an equals sign; a value that starts with a hyphen needs the sign. No option may be given twice.
Arguments are read up to the first one at fault or the first one that asks for help.
-/

namespace FormulaSearch.Command

/-- The options that both commands share. -/
structure RunOptions where
  population : Nat := 25
  generations : Nat := 300
  tournament : Nat := 5
  seed : Option UInt64 := none
  spearman : Bool := false
  fallback : Binary64 := 0.5
deriving DecidableEq

namespace RunOptions

def search (o : RunOptions) : SearchSettings :=
  { populationSize := o.population, generationLimit := o.generations
    tournamentSize := o.tournament, seed := o.seed }

def model (o : RunOptions) : ModelSettings :=
  { fallback := o.fallback, metric := if o.spearman then .spearman else .pearson }

end RunOptions

inductive Invocation where
  | train (training : String) (validation : Option String) (options : RunOptions)
  | transplant (source target : String) (options : RunOptions)
deriving DecidableEq

/-- The files that an invocation names, in the order in which they are read. -/
def Invocation.paths : Invocation → List String
  | train training validation _ => training :: validation.toList
  | transplant source target _ => [source, target]

inductive Request where
  | carryOut (invocation : Invocation)
  | help (topic : HelpTopic)
deriving DecidableEq

def Request.paths : Request → List String
  | carryOut invocation => invocation.paths
  | help _ => []

/-- A given option with its value; a switch has none. -/
abbrev Given := String × Option String

/-- The options given before the end of the arguments, or before one that asks for help. -/
structure Collected where
  given : List Given := []
  asksForHelp : Bool := false
deriving DecidableEq

def Collected.add (option : Given) (c : Collected) : Collected :=
  { c with given := option :: c.given }

def valuedRunOptions : List String :=
  ["--population", "--generations", "--tournament", "--seed", "--default-value"]

def switches : List String := ["--spearman"]

/-- Text that the next argument cannot be taken for a value of. -/
def looksLikeOption (arg : String) : Bool := arg.startsWith "-" && arg != "-"

/-- Text that asks for help. What is joined to the short form does not count. -/
def asksForHelp (arg : String) : Bool := arg == "--help" || arg.startsWith "-h"

/-- An argument cut at its first equals sign. -/
def cut (arg : String) : String × Option String :=
  let cs := arg.toList
  match cs.dropWhile (· != '=') with
  | [] => (arg, none)
  | _ :: value => (String.ofList (cs.takeWhile (· != '=')), some (String.ofList value))

/-- The options among some arguments; `none` if there is anything else. A lone double hyphen may
stand at the end. -/
def collect (valued : List String) : List String → Option Collected
  | [] => some {}
  | ["--"] => some {}
  | arg :: rest =>
    if asksForHelp arg then some { asksForHelp := true }
    else
      match cut arg with
      | (name, some value) =>
        if valued.contains name then (collect valued rest).map (.add (name, some value)) else none
      | (name, none) =>
        if switches.contains name then (collect valued rest).map (.add (name, none))
        else if valued.contains name then
          match rest with
          | value :: rest =>
            if looksLikeOption value then none
            else (collect valued rest).map (.add (name, some value))
          | [] => none
        else none

def hasRepeats (given : List Given) : Bool := !(given.map Prod.fst).Nodup

def valueOf (given : List Given) (name : String) : Option String :=
  (given.find? (·.1 == name)).bind Prod.snd

/-- A decimal number below `2 ^ 64`; a plus sign may precede it. -/
def unsigned? (s : String) : Option Nat :=
  let digits := match s.toList with
    | '+' :: rest => rest
    | cs => cs
  if digits.isEmpty || !digits.all Char.isDigit then none
  else
    let n := digitsValue digits
    if n < UInt64.size then some n else none

def parsed {α : Type} (given : List Given) (name : String) (parse : String → Option α)
    (default : α) : Option α :=
  match valueOf given name with
  | none => some default
  | some text => parse text

def path? (s : String) : Option String := if s.isEmpty then none else some s

def runOptions? (given : List Given) : Option RunOptions := do
  let population ← parsed given "--population" unsigned? 25
  let generations ← parsed given "--generations" unsigned? 300
  let tournament ← parsed given "--tournament" unsigned? 5
  let seed ← parsed given "--seed" (fun s => (unsigned? s).map fun n => some (UInt64.ofNat n)) none
  let fallback ← parsed given "--default-value" (fun s => (Binary64.read s.toList).toOption) 0.5
  let spearman := given.any (·.1 == "--spearman")
  return { population, generations, tournament, seed, spearman, fallback }

/-- The path that an option gives; an outer `none` is a fault. -/
def optionalPath? (given : List Given) (name : String) : Option (Option String) :=
  parsed given name (fun s => (path? s).map some) none

/-- What the options of a command ask for, if each is given once and has a value of its kind: help
on the command, or the invocation made of the two paths and the shared options. -/
def request? (topic : HelpTopic) (first second : String)
    (invoke : Option String → Option String → RunOptions → Option Invocation)
    (args : List String) : Option Request := do
  let collected ← collect (first :: second :: valuedRunOptions) args
  let given := collected.given
  if hasRepeats given then none
  else
    let firstPath ← optionalPath? given first
    let secondPath ← optionalPath? given second
    let options ← runOptions? given
    if collected.asksForHelp then return .help topic
    else (invoke firstPath secondPath options).map .carryOut

/-- What some arguments ask for; `none` if they are at fault. -/
def parse? : List String → Option Request
  | "train" :: rest => request? .train "--training" "--validation"
    (fun training validation options => training.map (.train · validation options)) rest
  | "transplant" :: rest => request? .transplant "--source" "--target"
    (fun source target options => do return .transplant (← source) (← target) options) rest
  | "help" :: words => (HelpTopic.ofWords? words).map .help
  | arg :: _ => if asksForHelp arg then some (.help .program) else none
  | [] => none

end FormulaSearch.Command
