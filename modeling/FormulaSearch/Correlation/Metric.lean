import FormulaSearch.Correlation.Moments
import FormulaSearch.Correlation.Ranks

/-!
# Correlation

The agreement of a produced column with a target column, as a coefficient of Pearson or of
Spearman. A coefficient that is not a finite number counts as zero.
-/

namespace FormulaSearch

def finiteOrZero (x : Binary64) : Binary64 := if x.isFinite then x else 0

theorem isFinite_finiteOrZero (x : Binary64) : (finiteOrZero x).isFinite = true := by
  unfold finiteOrZero
  split
  · assumption
  · exact Binary64.isFinite_zero

/-- The points of two columns of equal length. -/
def pairColumns? (xs ys : List Binary64) : Option (List (Binary64 × Binary64)) :=
  if xs.length = ys.length then some (xs.zip ys) else none

/-- The mean product of deviations over the product of the standard deviations. -/
def pearson : List (Binary64 × Binary64) → Binary64
  | [] => 0
  | p :: rest =>
    let m := Moments.ofPoints p rest
    let n : Binary64 := m.count
    let deviationX := (m.squaresX / n).sqrt
    let deviationY := (m.squaresY / n).sqrt
    finiteOrZero (m.products / n / (deviationX * deviationY))

/-- One less six times the distance of the ranks over `n (n² - 1)`. -/
def spearman (points : List (Binary64 × Binary64)) : Binary64 :=
  if points.isEmpty then 0
  else
    let distance : Binary64 :=
      rankDistance (ranks (points.map Prod.fst)) (ranks (points.map Prod.snd))
    let n : Binary64 := points.length
    finiteOrZero (1 - 6 * distance / (n * (n * n - 1)))

inductive Metric where
  | pearson
  | spearman
deriving DecidableEq, Repr

namespace Metric

def name : Metric → String
  | pearson => "Pearson"
  | spearman => "Spearman"

def coefficient : Metric → List (Binary64 × Binary64) → Binary64
  | pearson => FormulaSearch.pearson
  | spearman => FormulaSearch.spearman

theorem isFinite_coefficient (metric : Metric) (points : List (Binary64 × Binary64)) :
    (metric.coefficient points).isFinite = true := by
  cases metric with
  | pearson =>
    cases points with
    | nil => exact Binary64.isFinite_zero
    | cons p rest => exact isFinite_finiteOrZero _
  | spearman =>
    change (FormulaSearch.spearman points).isFinite = true
    unfold FormulaSearch.spearman
    split
    · exact Binary64.isFinite_zero
    · exact isFinite_finiteOrZero _

end Metric

end FormulaSearch
