import AdmissibleRegion.Decimal.Notation
import AdmissibleRegion.Notice
import AdmissibleRegion.Text.Quoted

/-!
# The words of failures and of remarks

Every cause of failure and every remark has one message. A failure writes its numbers with the
fewest digits that read back and quotes the text that was read; a remark writes them with an
exponent and a fixed count of digits.
-/

namespace AdmissibleRegion

open Decimal (scientific shortest)

/-! ## Failures -/

/-- The rule that was broken, and the value that broke it. -/
def ArgumentProblem.message : ArgumentProblem Float → String
  | .measurementCount count => s!"measurement must have 4 values, got {count}"
  | .measurementNotFinite values =>
    let list := ", ".intercalate (values.map shortest)
    s!"measurement contains non-finite values: [{list}]"
  | .sigmas sigma1 sigma2 =>
    s!"sigmas must be positive, got {shortest sigma1}, {shortest sigma2}"
  | .gridSpacing step => s!"grid_spacing must be positive, got {shortest step}"
  | .leastAxis amin => s!"amin must be positive, got {shortest amin}"
  | .axisOrder amin amax =>
    s!"amax must exceed amin, got amin={shortest amin}, amax={shortest amax}"
  | .eccentricity emax => s!"emax must lie in [0, 1), got {shortest emax}"

/-- A text in quotation marks. -/
def quotedText (text : List Char) : String := String.ofList (Text.quoted text)

/-- The place of the problem, and the text or the path that caused it. -/
def TableProblem.message : TableProblem → String
  | .notANumber source line text =>
    s!"Split library {source} line {line} is not a number: {quotedText text}"
  | .notPositive source line text =>
    s!"Split library {source} line {line} is not a positive value: {quotedText text}"
  | .empty source => s!"Split library {source} is empty"
  | .missing source path => unreadable source "[Errno 2] No such file or directory" path
  | .directory source path => unreadable source "[Errno 21] Is a directory" path
  | .notADirectory source path => unreadable source "[Errno 20] Not a directory" path
  | .nameTooLong source path => unreadable source "[Errno 36] File name too long" path
where
  /-- A file that could not be read, with the reason and the path that was tried. -/
  unreadable (source reason path : String) : String :=
    s!"Cannot read split library {source}: {reason}: {quotedText path.toList}"

/-- What a weight fit says when it has used up its evaluations. -/
def evaluationsExceeded : String :=
  "The maximum number of function evaluations is exceeded."

/-- What numbers in lists say that do not fill a box. -/
def notABox : String := "setting an array element with a sequence. "

/-- Lengths in parentheses; a comma follows a length that stands alone. -/
def lengthsText : List Nat → String
  | [length] => s!"({length},)"
  | lengths => "(" ++ ", ".intercalate (lengths.map toString) ++ ")"

/-- The message of a cause of failure. -/
def Fault.message : Fault Float → String
  | .divisionByZero => "float division by zero"
  | .powerOverflow => "(34, 'Numerical result out of range')"
  | .outsideDomain => "math domain error"
  | .floorOfNaN => "cannot convert float NaN to integer"
  | .floorOfInfinity => "cannot convert float infinity to integer"
  | .ragged lengths =>
    notABox ++ "The requested array has an inhomogeneous shape "
      ++ s!"after {lengths.length} dimensions. The detected shape was {lengthsText lengths} + "
      ++ "inhomogeneous part."
  | .tooDeep depth =>
    notABox ++ s!"The requested array would exceed the maximum number of dimension of {depth}."
  | .componentCount name count =>
    s!"{name} must have 3 components, got shape {lengthsText [count]}"
  | .componentNotFinite name => s!"{name} contains non-finite values"
  | .latitude degrees => s!"Latitude out of range: {shortest degrees}"
  | .tableShape => "Boundary table needs at least 2 rows and equal column lengths"
  | .coefficientsNotARow => "Input must be a rank-1 array."
  | .coefficientsNotFinite => "Array must not contain infs or NaNs"
  | .outsideTable => "tuple index out of range"
  | .table problem => problem.message
  | .nullInPath => "embedded null byte"
  | .undecodable failure => failure.message
  | .noBudget => "`max_nfev` must be None or positive integer."
  | .toleranceTooSmall =>
    "At least one of the tolerances must be higher than machine epsilon (2.22e-16)."
  | .startNotFinite => "Residuals are not finite in the initial point."
  | .derivativesNotFinite => "array must not contain infs or NaNs"
  | .noDirection => "`s` is zero."
  | .outsideBall => "`x` is not within the trust region."
  | .notConverged evaluations =>
    s!"Weight fit did not converge after {evaluations} evaluations: {evaluationsExceeded}"
  | .invalidArguments problems =>
    "Invalid CAR inputs: " ++ "; ".intercalate (problems.map (·.message))
  | .rangeNotPositive range => s!"Range CAR needs a positive range, got {shortest range}"
  | .unknownModel name => s!"Unknown mode: {name}"

/-! ## Remarks -/

/-- The name of a level. -/
def Level.name : Level → String
  | .info => "INFO"
  | .warning => "WARNING"

/-- Why there is no region. -/
def Emptiness.message : Emptiness Float → String
  | .noWindow samples => s!"No contiguous admissible range in {samples} grid samples"
  | .noArea first last area =>
    s!"Admissible region [{first}, {last}] has no positive area ({scientific 3 area})"

/-- The message of a remark. -/
def Notice.message : Notice Float → String
  | .empty reason => reason.message
  | .nothingAdmissible model =>
    s!"{model} CAR is empty: no sample satisfies both SMA and eccentricity bounds"
  | .noRegion model => s!"{model} CAR is empty: no valid truncated region"
  | .notConverged evaluations =>
    s!"Weight fit did not converge after {evaluations} evaluations, using best point: " ++
      evaluationsExceeded
  | .noWeights candidates =>
    s!"Weight fit returned all-zero weights for {candidates} candidates"
  | .outsideRegion mean =>
    s!"Abscissa mean {scientific 6 mean} lies outside the admissible region"
  | .noOrdinates mean kind weight =>
    s!"No admissible ordinates at abscissa {scientific 6 mean} ({kind.name} cell), " ++
      s!"dropping weight {scientific 3 weight}"

/-- A remark with its level, as a line. -/
def Notice.line (notice : Notice Float) : String :=
  s!"{notice.level.name} {notice.message}"

end AdmissibleRegion
