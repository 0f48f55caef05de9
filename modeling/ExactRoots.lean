import ExactRoots.Poly
import ExactRoots.Proofs.Binary64.Operations
import ExactRoots.Proofs.Binary64.SquareRoot
import ExactRoots.Proofs.Coefficients.DecimalQuadratic
import ExactRoots.Proofs.Coefficients.Division
import ExactRoots.Proofs.Decimal.Accuracy
import ExactRoots.Proofs.Deflation.Check
import ExactRoots.Proofs.Deflation.Count
import ExactRoots.Proofs.Deflation.Exact
import ExactRoots.Proofs.Deflation.Normal
import ExactRoots.Proofs.Deflation.Snap
import ExactRoots.Proofs.Deflation.Snapping
import ExactRoots.Proofs.Deflation.Sorting
import ExactRoots.Proofs.Report.Polynomial
import ExactRoots.Proofs.Report.Quadratic
import ExactRoots.Proofs.Report.Steps
import ExactRoots.Proofs.Search.Candidates
import ExactRoots.Proofs.Search.Line
import ExactRoots.Proofs.Search.Step
import ExactRoots.Proofs.Value.Approximation
import ExactRoots.Proofs.Value.RootAccuracy
import ExactRoots.Proofs.Value.WholeRoot
import ExactRoots.Report.Request
import ExactRoots.Proofs.Value.Normal
import ExactRoots.Proofs.Binary64.RoundedSquare
import ExactRoots.Proofs.Coefficients.SyntheticDivision
import ExactRoots.Proofs.Poly.Exact
import ExactRoots.Proofs.Poly.Derivative
import ExactRoots.Proofs.Coefficients.Numbers
import ExactRoots.Proofs.Value.Underflow
import ExactRoots.Proofs.Poly.Degree
import ExactRoots.Proofs.Value.HalfAngle
import ExactRoots.Proofs.Value.ComplexRoot
import ExactRoots.Proofs.Value.PartRecovery
import ExactRoots.Proofs.Settings.Overrides
import ExactRoots.Proofs.Value.Figures
import ExactRoots.Proofs.Entry.Simplest
