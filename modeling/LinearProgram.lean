import LinearProgram.Numeral
import LinearProgram.Solver
import LinearProgram.Stored.JsonText
import LinearProgram.Stored.Values
import LinearProgram.Proofs.Outcome
import LinearProgram.Proofs.Rational
import LinearProgram.Proofs.Tableau.Sized
import LinearProgram.Proofs.Tableau.Elimination
import LinearProgram.Proofs.Tableau.Selection
import LinearProgram.Proofs.Tableau.Basis
import LinearProgram.Proofs.LinearForm
import LinearProgram.Proofs.Model
import LinearProgram.Proofs.Naming
import LinearProgram.Proofs.Calls
import LinearProgram.Proofs.Adjoining
import LinearProgram.Proofs.StandardForm
import LinearProgram.Proofs.Projection
import LinearProgram.Proofs.Tableau.OfModel
import LinearProgram.Proofs.Tableau.Run
import LinearProgram.Proofs.Tableau.Scaling
import LinearProgram.Proofs.Solver
import LinearProgram.Proofs.PhaseOne
import LinearProgram.Proofs.Tableau.Removal
import LinearProgram.Proofs.Restore
import LinearProgram.Proofs.Redundancy
import LinearProgram.Proofs.Start
import LinearProgram.Proofs.ArtificialSum
import LinearProgram.Proofs.Polyhedron
import LinearProgram.Proofs.Verdicts
import LinearProgram.Proofs.Optimality
import LinearProgram.Proofs.Unboundedness
import LinearProgram.Proofs.PivotLoop
import LinearProgram.Proofs.Progress
import LinearProgram.Proofs.Choice
import LinearProgram.Proofs.Passage
import LinearProgram.Proofs.StartingBasis
import LinearProgram.Proofs.ObjectiveValue
import LinearProgram.Proofs.Canonical
import LinearProgram.Proofs.SortedTerms
import LinearProgram.Proofs.Readings
import LinearProgram.Proofs.RestoredRows
import LinearProgram.Proofs.Restatement
import LinearProgram.Proofs.Limit
import LinearProgram.Proofs.Totality
import LinearProgram.Proofs.Certificates
import LinearProgram.Proofs.Layout
import LinearProgram.Proofs.Scaling
import LinearProgram.Proofs.RightSides
import LinearProgram.Proofs.FirstTableau
import LinearProgram.Proofs.BasicSolution
import LinearProgram.Proofs.Reversal
import LinearProgram.Proofs.ReducedCosts
