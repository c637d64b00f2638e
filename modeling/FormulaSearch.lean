import FormulaSearch.Main
import FormulaSearch.Random.Streams
import FormulaSearch.Proofs.Formula.Reading
import FormulaSearch.Proofs.Formula.Chain
import FormulaSearch.Proofs.Number.Magnitude
import FormulaSearch.Proofs.Genome.FeatureText
import FormulaSearch.Proofs.Genome.Spelling
import FormulaSearch.Proofs.Genome.Acceptance
import FormulaSearch.Proofs.Genome.Clamping
import FormulaSearch.Proofs.Trial
import FormulaSearch.Proofs.Evolution.Population
import FormulaSearch.Proofs.Evolution.Breeding
import FormulaSearch.Proofs.Evolution.Safety
import FormulaSearch.Proofs.Evolution.Observation
import FormulaSearch.Proofs.Number.Order
import FormulaSearch.Proofs.Evolution.History
import FormulaSearch.Proofs.Model.Record
import FormulaSearch.Proofs.Agreement
import FormulaSearch.Proofs.Evolution.Comparison
import FormulaSearch.Proofs.Evolution.Records
import FormulaSearch.Proofs.Evolution.Validation
import FormulaSearch.Proofs.Evolution.Caching
import FormulaSearch.Proofs.Evolution.Uncached
import FormulaSearch.Proofs.Formula.Size
import FormulaSearch.Proofs.Formula.Unmatched
import FormulaSearch.Proofs.Evolution.Convergence
import FormulaSearch.Proofs.Number.Rounding
import FormulaSearch.Proofs.Number.Numeral
import FormulaSearch.Proofs.Number.Shortest
import FormulaSearch.Proofs.Genome.FeatureReading
import FormulaSearch.Proofs.Evolution.Scanning
import FormulaSearch.Proofs.Evolution.Rounds
import FormulaSearch.Proofs.Correlation.Constant
import FormulaSearch.Proofs.Correlation.Bounds
import FormulaSearch.Proofs.Evolution.Grading
import FormulaSearch.Proofs.Evolution.Workshop
import FormulaSearch.Proofs.Evolution.Matching
import FormulaSearch.Proofs.Evolution.Ordering
import FormulaSearch.Proofs.Evolution.Seeding
import FormulaSearch.Proofs.Model.Binding
import FormulaSearch.Proofs.Command.Session
import FormulaSearch.Proofs.Formula.Printing
import FormulaSearch.Proofs.Number.NearestValue
import FormulaSearch.Proofs.Number.Power
import FormulaSearch.Proofs.Model.Prediction
import FormulaSearch.Proofs.Evolution.Offspring
import FormulaSearch.Proofs.Correlation.RankOrder
import FormulaSearch.Proofs.Table.Reading
import FormulaSearch.Proofs.Evolution.Draws
import FormulaSearch.Proofs.Evolution.Limits
import FormulaSearch.Proofs.Correlation.RankExtremes
import FormulaSearch.Proofs.Evolution.Winning
import FormulaSearch.Proofs.Number.DecimalForm
import FormulaSearch.Proofs.Formula.Stacks
import FormulaSearch.Proofs.Genome.Description
