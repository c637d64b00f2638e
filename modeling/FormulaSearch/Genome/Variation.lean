import FormulaSearch.Genome.Basic
import FormulaSearch.Random.Draw

/-!
# Random genomes, crossover and mutation

What is drawn is kept apart from what it is applied to: a crossover draws from which parent each
gene comes, and a mutation draws which genes are replaced and by what. So the draws do not depend
on the genomes.
-/

namespace FormulaSearch.Genome

variable {ρ : Type} [WordSource ρ]

def drawGene : Draw ρ UInt8 := do
  return UInt8.ofNat (← Draw.below drawnBelow)

def draw : Draw ρ Genome := do
  return ⟨← Draw.vector 15 drawGene⟩

/-- For each position, whether the first parent gives the gene. -/
def drawOrigins (rate : Binary64) : Draw ρ (Vector Bool 15) :=
  Draw.vector 15 (Draw.chance rate)

def cross (origins : Vector Bool 15) (first second : Genome) : Genome :=
  ⟨.ofFn fun i => if origins[i] then first.genes[i] else second.genes[i]⟩

theorem getElem_cross (origins : Vector Bool 15) (g h : Genome) (i : Nat) (hi : i < 15) :
    (cross origins g h).genes[i] = if origins[i] then g.genes[i] else h.genes[i] := by
  simp [cross]

/-- One replacement, drawn with the given probability. -/
def drawReplacement (rate : Binary64) : Draw ρ (Option UInt8) := do
  if ← Draw.chance rate then return some (← drawGene) else return none

/-- For each position, the value that replaces its gene, if any. -/
def drawReplacements (rate : Binary64) : Draw ρ (Vector (Option UInt8) 15) :=
  Draw.vector 15 (drawReplacement rate)

def replace (replacements : Vector (Option UInt8) 15) (g : Genome) : Genome :=
  ⟨.ofFn fun i => replacements[i].getD g.genes[i]⟩

theorem getElem_replace (replacements : Vector (Option UInt8) 15) (g : Genome) (i : Nat)
    (hi : i < 15) : (replace replacements g).genes[i] = replacements[i].getD g.genes[i] := by
  simp [replace]

/-- Each gene comes from the first parent with the given probability, else from the second. -/
def crossover (rate : Binary64) (first second : Genome) : Draw ρ Genome := do
  return cross (← drawOrigins rate) first second

def mutate (rate : Binary64) (g : Genome) : Draw ρ Genome := do
  return replace (← drawReplacements rate) g

end FormulaSearch.Genome
