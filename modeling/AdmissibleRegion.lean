import AdmissibleRegion.Binary64
import AdmissibleRegion.Construction
import AdmissibleRegion.Decimal.Notation
import AdmissibleRegion.Decimal.Numeral
import AdmissibleRegion.LeastSquares.Reflective
import AdmissibleRegion.Notice.Message
import AdmissibleRegion.Polynomial.Roots
import AdmissibleRegion.Proofs.Binary64
import AdmissibleRegion.Proofs.Binary64.Rounding
import AdmissibleRegion.Proofs.BoundaryTable
import AdmissibleRegion.Proofs.BoundaryTable.Ellipse
import AdmissibleRegion.Proofs.BoundaryTable.Interpolant
import AdmissibleRegion.Proofs.Bounds
import AdmissibleRegion.Proofs.Construction
import AdmissibleRegion.Proofs.Eccentricity
import AdmissibleRegion.Proofs.Exact
import AdmissibleRegion.Proofs.Exponentials
import AdmissibleRegion.Proofs.Hypotheses
import AdmissibleRegion.Proofs.LeastSquares
import AdmissibleRegion.Proofs.Noted
import AdmissibleRegion.Proofs.Operations
import AdmissibleRegion.Proofs.Optical.Coefficients
import AdmissibleRegion.Proofs.Optical.Coverage
import AdmissibleRegion.Proofs.Optical.Eccentricity
import AdmissibleRegion.Proofs.Optical.Energy
import AdmissibleRegion.Proofs.Optical.Grid
import AdmissibleRegion.Proofs.Optical.Operations
import AdmissibleRegion.Proofs.Optical.Quartic
import AdmissibleRegion.Proofs.Orbit
import AdmissibleRegion.Proofs.Placement
import AdmissibleRegion.Proofs.Ranging.Coefficients
import AdmissibleRegion.Proofs.Ranging.Coverage
import AdmissibleRegion.Proofs.Ranging.Eccentricity
import AdmissibleRegion.Proofs.Ranging.Ellipse
import AdmissibleRegion.Proofs.Ranging.Grid
import AdmissibleRegion.Proofs.Ranging.Nesting
import AdmissibleRegion.Proofs.Ranging.Operations
import AdmissibleRegion.Proofs.Region.Admission
import AdmissibleRegion.Proofs.Region.Arcs
import AdmissibleRegion.Proofs.Region.Cells
import AdmissibleRegion.Proofs.Region.Density
import AdmissibleRegion.Proofs.Region.Extent
import AdmissibleRegion.Proofs.Region.FirstRun
import AdmissibleRegion.Proofs.Region.Location
import AdmissibleRegion.Proofs.Region.Rescaling
import AdmissibleRegion.Proofs.Region.Reversal
import AdmissibleRegion.Proofs.Region.Window
import AdmissibleRegion.Proofs.Rescaling
import AdmissibleRegion.Proofs.Roots
import AdmissibleRegion.Proofs.Shares
import AdmissibleRegion.Proofs.SplitTable
import AdmissibleRegion.Proofs.SplitTable.Joining
import AdmissibleRegion.Proofs.SplitTable.Loading
import AdmissibleRegion.Proofs.SplitTable.Reader
import AdmissibleRegion.Proofs.SplitTable.Session
import AdmissibleRegion.Proofs.SplitTable.Shelf
import AdmissibleRegion.Proofs.SplitTable.Sizing
import AdmissibleRegion.Proofs.Station
import AdmissibleRegion.Proofs.Station.Ellipsoid
import AdmissibleRegion.Proofs.Turning
import AdmissibleRegion.Proofs.WeightFit
import AdmissibleRegion.Proofs.WeightProblem
import AdmissibleRegion.Proofs.Weights
import AdmissibleRegion.SplitTable.Shelf
