import FormulaSearch.Evolution.Settings
import FormulaSearch.Genome.Variation
import FormulaSearch.Journal
import FormulaSearch.Model.Basic

/-!
# Individuals and populations

An individual is a genome with its score, once that is known. Genes never change in place, so a
known score always belongs to the genome beside it. A population is an array of individuals.
-/

namespace FormulaSearch

structure Individual where
  genome : Genome
  score : Option Binary64 := none
deriving DecidableEq

/-- Why a search, or a step of one, fails. -/
inductive SearchFault where
  | invalidSettings (cause : SearchSettings.Fault)
  | noSuchMember (index size : Nat)
  | emptyPopulation
  | unscored (cause : Model.Fault)
  /-- There can be no room for what is asked for. -/
  | outOfMemory
deriving DecidableEq

def SearchFault.message : SearchFault → String
  | invalidSettings cause => "invalid GA configuration: " ++ cause.message
  | noSuchMember index size =>
    "population index " ++ toString index ++ " out of bounds for size " ++ toString size
  | emptyPopulation => "population is empty"
  | unscored cause => cause.message
  | outOfMemory => "capacity overflow"

namespace Individual

def ofGenome (g : Genome) : Individual := { genome := g }

@[simp] theorem genome_ofGenome (g : Genome) : (ofGenome g).genome = g := rfl

@[simp] theorem score_ofGenome (g : Genome) : (ofGenome g).score = none := rfl

def withGene (i : Individual) (index : Nat) (value : UInt8) : Except Genome.Fault Individual :=
  (i.genome.withGene index value).map ofGenome

variable {ρ : Type} [WordSource ρ]

def draw : Draw ρ Individual := do
  return ofGenome (← Genome.draw)

/-- An individual with the given genes; if their number is wrong, a random one and an entry that
says so. -/
def ofValues (values : List UInt8) : Draw ρ (Individual × Option Entry) := do
  match Genome.ofList values with
  | .ok genome => return (ofGenome genome, none)
  | .error fault => return (← draw, some (.genomeReplaced fault))

end Individual

structure Population where
  members : Array Individual
deriving DecidableEq

namespace Population

def size (p : Population) : Nat := p.members.size

def ofList (members : List Individual) : Population := ⟨members.toArray⟩

@[simp] theorem size_ofList (members : List Individual) : (ofList members).size = members.length :=
  List.size_toArray

def member (p : Population) (index : Nat) : Except SearchFault Individual :=
  match p.members[index]? with
  | some i => .ok i
  | none => .error (.noSuchMember index p.size)

def save (p : Population) (index : Nat) (i : Individual) : Except SearchFault Population :=
  if h : index < p.members.size then .ok ⟨p.members.set index i⟩
  else .error (.noSuchMember index p.size)

def setScore (p : Population) (index : Nat) (score : Binary64) : Population :=
  ⟨p.members.modify index ({ · with score := some score })⟩

@[simp] theorem size_setScore (p : Population) (index : Nat) (score : Binary64) :
    (p.setScore index score).size = p.size := by simp [setScore, size]

variable {ρ : Type} [WordSource ρ]

def draw (size : Nat) : Draw ρ Population := do
  return ofList (← Draw.times size Individual.draw)

/-- A given individual in the first slot and random ones in the others. -/
def drawAround (size : Nat) (first : Individual) : Draw ρ Population := do
  return ofList (first :: (← Draw.times (size - 1) Individual.draw))

end Population

end FormulaSearch
