/-!
# Help of the command line

What the program prints when it is asked for help on itself or on one of its commands.
-/

namespace FormulaSearch.Command

inductive HelpTopic where
  | program
  | train
  | transplant
  | help
deriving DecidableEq

namespace HelpTopic

/-- The topic of the words behind the command `help`, if there is one. -/
def ofWords? : List String → Option HelpTopic
  | [] => some program
  | ["train"] => some train
  | ["transplant"] => some transplant
  | ["help"] => some help
  | _ => none

def summary : HelpTopic → String
  | program => "Symbolic regression over a fixed 15-gene expression grammar"
  | train => "Evolve a solution for one problem"
  | transplant => "Train on a source problem, then seed two runs with its best solution"
  | help => "Print this message or the help of the given subcommand(s)"

def usage : HelpTopic → String
  | program => "symreg <COMMAND>"
  | train => "symreg train [OPTIONS] --training <TRAINING>"
  | transplant => "symreg transplant [OPTIONS] --source <SOURCE> --target <TARGET>"
  | help => "symreg help [COMMAND]..."

/-- The options that both commands share, each with its description below it. -/
def sharedOptions : List String :=
  ["      --population <POPULATION>",
   "          Population size [default: 25]",
   "      --generations <GENERATIONS>",
   "          Generation cap [default: 300]",
   "      --tournament <TOURNAMENT>",
   "          Tournament size [default: 5]",
   "      --seed <SEED>",
   "          Random seed (random if omitted)",
   "      --spearman",
   "          Score by Spearman rank correlation instead of Pearson",
   "      --default-value <DEFAULT_VALUE>",
   "          Value substituted for rows whose expression cannot be evaluated [default: 0.5]",
   "  -h, --help",
   "          Print help"]

def details : HelpTopic → List String
  | program =>
    ["Commands:",
     "  train       " ++ train.summary,
     "  transplant  " ++ transplant.summary,
     "  help        " ++ help.summary,
     "",
     "Options:",
     "  -h, --help  Print help"]
  | train =>
    ["Options:",
     "      --training <TRAINING>",
     "          Training row file",
     "      --validation <VALIDATION>",
     "          Validation row file (defaults to the training file)"] ++ sharedOptions
  | transplant =>
    ["Options:",
     "      --source <SOURCE>",
     "          Row file of the problem the solution is evolved on",
     "      --target <TARGET>",
     "          Row file of the problem the solution is transplanted into"] ++ sharedOptions
  | help =>
    ["Arguments:",
     "  [COMMAND]...  Print help for the subcommand(s)"]

def lines (topic : HelpTopic) : List String :=
  [topic.summary, "", "Usage: " ++ topic.usage, ""] ++ topic.details

end HelpTopic

end FormulaSearch.Command
