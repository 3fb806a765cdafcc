import AdmissibleRegion.Scalar

/-!
# Physical constants and default settings

Distances are in kilometres, times in seconds, angles in radians. The values are those of
the EGM96 gravity model and of the WGS-84 ellipsoid.
-/

namespace AdmissibleRegion.Constants

variable {K : Type} [Scalar K]

/-- The gravitational parameter of the Earth. -/
def earthMu : K := 398600.4415

/-- The equatorial radius of the Earth. -/
def earthRadius : K := 6378.137

/-- The flattening of the Earth. -/
def earthFlattening : K := 1.0 / 298.257223563

/-- The rotation rate of the Earth. -/
def earthRotation : K := 7.2921150e-5

/-- A root of a polynomial counts as real when its imaginary part is below this. -/
def rootTolerance : K := 1e-11

/-- The number of rows in the table of an ellipse. -/
def ellipseRows : Int := 180

/-- The number of evaluations a weight fit may use. -/
def fitBudget : Int := 10000

/-- The tolerance of a weight fit for cost, weights and gradient. -/
def fitTolerance : K := 1e-10

/-- The name of the table of split sizes that comes with the library. -/
def splitTableName : String := "uniform_sigma_values.txt"

end AdmissibleRegion.Constants
