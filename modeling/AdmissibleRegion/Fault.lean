import AdmissibleRegion.Text.Utf8

/-!
# Causes of failure

A computation fails for one of the causes below. Each carries what its message names, so
that the message is a function of the cause.
-/

namespace AdmissibleRegion

/-- What is wrong with the arguments of a construction, one constructor for each rule that
they can break. -/
inductive ArgumentProblem (K : Type) where
  /-- A measurement has four values. -/
  | measurementCount (count : Nat)
  /-- The values of a measurement are finite. -/
  | measurementNotFinite (values : List K)
  /-- Both desired deviations are positive. -/
  | sigmas (sigma1 sigma2 : K)
  /-- The grid step is positive. -/
  | gridSpacing (step : K)
  /-- The least semi-major axis is positive. -/
  | leastAxis (amin : K)
  /-- The greatest semi-major axis exceeds the least. -/
  | axisOrder (amin amax : K)
  /-- The greatest eccentricity is that of a closed orbit. -/
  | eccentricity (emax : K)

/-- Why a table of split sizes could not be loaded. -/
inductive TableProblem where
  /-- A line is not a number. -/
  | notANumber (source : String) (line : Nat) (text : List Char)
  /-- A number is not positive and finite. -/
  | notPositive (source : String) (line : Nat) (text : List Char)
  /-- There are no values. -/
  | empty (source : String)
  /-- There is no such file. -/
  | missing (source : String) (path : String)
  /-- The path names a directory. -/
  | directory (source : String) (path : String)
  /-- A step of the path other than the last is a file. -/
  | notADirectory (source : String) (path : String)
  /-- The path or a step of it is too long. -/
  | nameTooLong (source : String) (path : String)

/-- Why a computation has no result. -/
inductive Fault (K : Type) where
  /-- A number was divided by zero. -/
  | divisionByZero
  /-- A power of a finite number is too large. -/
  | powerOverflow
  /-- A function was applied outside its domain. -/
  | outsideDomain
  /-- The floor of an undefined number was taken. -/
  | floorOfNaN
  /-- The floor of an infinity was taken. -/
  | floorOfInfinity
  /-- Numbers in nested lists do not fill a box; the lengths are those all lists agree on. -/
  | ragged (lengths : List Nat)
  /-- Numbers are nested in more lists than may stand in each other; their greatest number. -/
  | tooDeep (depth : Nat)
  /-- A vector has another number of components than three. -/
  | componentCount (name : String) (count : Nat)
  /-- A component of a vector is not finite. -/
  | componentNotFinite (name : String)
  /-- A latitude is beyond a pole. -/
  | latitude (degrees : K)
  /-- A boundary table has fewer than two rows, or columns of different lengths. -/
  | tableShape
  /-- The coefficients of a polynomial are not one row. -/
  | coefficientsNotARow
  /-- A polynomial has coefficients that are not finite, or out of proportion to the first. -/
  | coefficientsNotFinite
  /-- An index lies outside a table of split sizes. -/
  | outsideTable
  /-- A table of split sizes could not be loaded. -/
  | table (problem : TableProblem)
  /-- The path of a table of split sizes has a null character. -/
  | nullInPath
  /-- The bytes of a table of split sizes are not text. -/
  | undecodable (failure : Text.Utf8.Failure)
  /-- A weight fit was allowed no evaluation. -/
  | noBudget
  /-- The tolerance of a weight fit is below the resolution of the numbers. -/
  | toleranceTooSmall
  /-- The residuals of a weight fit are not finite at its first point. -/
  | startNotFinite
  /-- The scaled derivatives of a weight fit are not all finite. -/
  | derivativesNotFinite
  /-- A step of a weight fit is too short to have a direction. -/
  | noDirection
  /-- A step of a weight fit begins outside its ball. -/
  | outsideBall
  /-- A weight fit used up its evaluations. -/
  | notConverged (evaluations : Nat)
  /-- The arguments of a construction break some of the rules. -/
  | invalidArguments (problems : List (ArgumentProblem K))
  /-- A measured range is not positive. -/
  | rangeNotPositive (range : K)
  /-- There is no measurement model of this name. -/
  | unknownModel (name : String)

end AdmissibleRegion
