import AdmissibleRegion.Hypothesis
import AdmissibleRegion.Optical
import AdmissibleRegion.Ranging

/-!
# From a measurement to hypotheses

A construction checks its arguments, lays a grid over the abscissa, forms the admissible
region, fits a mixture to the density of its abscissa and splits it along the ordinate. It
is empty where nothing is admissible.
-/

namespace AdmissibleRegion

/-- What was measured beside the two angles. -/
inductive Model where
  /-- The rates of both angles. -/
  | optical
  /-- The range and its rate. -/
  | ranging
  /-- Something that no model describes. -/
  | other (name : String)
  deriving DecidableEq, Repr

/-- The model of a name. -/
def Model.ofName : String → Model
  | "optical" => .optical
  | "range" => .ranging
  | name => .other name

/-- The name of a model. -/
def Model.name : Model → String
  | .optical => "optical"
  | .ranging => "range"
  | .other name => name

/-- A model is told by its name. -/
theorem Model.ofName_name (model : Model) (h : ∀ name, model ≠ .other name) :
    Model.ofName model.name = model := by
  cases model with
  | optical => rfl
  | ranging => rfl
  | other name => exact absurd rfl (h name)

/-- The arguments of a construction. -/
structure Request (K : Type) where
  /-- Right ascension, declination, and either their rates or range and range rate. -/
  measurement : List K
  /-- The observer. -/
  station : Station K
  /-- The desired standard deviation of the abscissa. -/
  sigma1 : K
  /-- The desired standard deviation of the ordinate. -/
  sigma2 : K
  /-- The step of the grid. -/
  step : K
  /-- The least semi-major axis. -/
  amin : K
  /-- The greatest semi-major axis. -/
  amax : K
  /-- The greatest eccentricity. -/
  emax : K
  /-- What was measured. -/
  model : Model
  /-- The table of split sizes. -/
  table : SplitTable K
  /-- The gravitational parameter. -/
  mu : K
  /-- The number of evaluations the weight fit may use. -/
  budget : Int
  /-- Whether a weight fit that does not converge is a failure. -/
  strict : Bool

/-- What finds roots and weights. -/
structure Solvers (K : Type) where
  /-- Finds the roots of a polynomial. -/
  roots : RootFinder K
  /-- Solves a least-squares problem. -/
  weights : WeightSolver K

/-- The outcome of a construction. -/
structure Construction (K : Type) where
  /-- What was measured. -/
  model : Model
  /-- The weighted hypotheses. -/
  components : List (Component K)
  /-- The region, unless it is empty. -/
  region : Option (Region K)
  /-- The fitted mixture, unless the region is empty. -/
  fit : Option (Fit K)

variable {K : Type} [Scalar K]

open Scalar

/-- A problem, if there is one. -/
def problemIf (p : Prop) [Decidable p] (problem : ArgumentProblem K) : List (ArgumentProblem K) :=
  if p then [problem] else []

/-- All that is wrong with the arguments, in the order of the rules. -/
def Request.problems (r : Request K) : List (ArgumentProblem K) :=
  (if r.measurement.length ≠ 4 then [.measurementCount r.measurement.length]
   else problemIf (¬r.measurement.all isFinite) (.measurementNotFinite r.measurement))
  ++ problemIf (¬0.0 < r.sigma1 ∨ ¬0.0 < r.sigma2) (.sigmas r.sigma1 r.sigma2)
  ++ problemIf (¬0.0 < r.step) (.gridSpacing r.step)
  ++ problemIf (¬0.0 < r.amin) (.leastAxis r.amin)
  ++ problemIf (¬r.amin < r.amax) (.axisOrder r.amin r.amax)
  ++ problemIf (¬(0.0 ≤ r.emax ∧ r.emax < 1.0)) (.eccentricity r.emax)

/-- The samples of the grid of a request. -/
def Request.samples (r : Request K) (roots : RootFinder K) :
    Except (Fault K) (List (Sample K)) := do
  let [m1, m2, m3, m4] := r.measurement
    | throw (.invalidArguments [.measurementCount r.measurement.length])
  match r.model with
  | .optical =>
    let g ← Optical.ofMeasurement m1 m2 m3 m4 r.station r.mu
    g.grid roots r.step r.amin r.amax r.emax
  | .ranging =>
    if ¬0.0 < m3 then throw (.rangeNotPositive m3)
    let g ← Ranging.ofMeasurement m1 m2 m3 m4 r.station r.mu
    g.grid roots r.step r.amin r.amax r.emax
  | .other name => throw (.unknownModel name)

/-- The construction of a request. -/
def construct (solvers : Solvers K) (r : Request K) : Noted K (Construction K) := do
  unless r.problems.isEmpty do
    Noted.ofExcept (.error (.invalidArguments r.problems))
  let samples ← r.samples solvers.roots
  if !anyAdmissible samples then
    Noted.note (.nothingAdmissible r.model.name)
    return ⟨r.model, [], none, none⟩
  match Region.ofSamples samples with
  | .error reason =>
    Noted.note (.empty reason)
    Noted.note (.noRegion r.model.name)
    return ⟨r.model, [], none, none⟩
  | .ok region =>
    let fit ← fitMixture solvers.weights region r.sigma1 r.table r.budget
      Constants.fitTolerance r.strict
    let components ← hypotheses region fit.mixture r.sigma2 r.table
    return ⟨r.model, components, some region, some fit⟩

/-- Whether there are hypotheses. -/
def Construction.isAdmissible (c : Construction K) : Bool := !c.components.isEmpty

/-- The weights of the hypotheses. -/
def Construction.weights (c : Construction K) : List K := c.components.map (·.weight)

/-- The means of the hypotheses. -/
def Construction.means (c : Construction K) : List (List K) := c.components.map Component.mean

/-- The covariance matrices of the hypotheses. -/
def Construction.covariances (c : Construction K) : Except (Fault K) (List (List (List K))) :=
  c.components.mapM Component.covariance

/-- The sum of all weights. -/
def Construction.totalWeight (c : Construction K) : K := sum c.weights

end AdmissibleRegion
