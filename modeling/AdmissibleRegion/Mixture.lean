import AdmissibleRegion.Notice
import AdmissibleRegion.SplitTable

/-!
# The mixture of normal densities over the abscissa

Candidate densities are placed evenly over the abscissas of a region. Their weights, between
zero and one, are fitted to the density of the region by least squares and then normalised.
What solves the least-squares problem is a parameter.
-/

namespace AdmissibleRegion

/-- A least-squares problem for weights between zero and one. -/
structure WeightProblem (K : Type) where
  /-- The value of every candidate, along the row, at every cell, down the rows. -/
  basis : List (List K)
  /-- The density on every cell. -/
  target : List K
  /-- The number of candidates. -/
  candidates : Nat
  /-- The number of evaluations of the residuals that may be used. -/
  budget : Int
  /-- The tolerance for cost, weights and gradient. -/
  tolerance : K

/-- What a solver found. -/
structure WeightSolution (K : Type) where
  /-- The best point. -/
  point : List K
  /-- Half the squared length of its residuals. -/
  cost : K
  /-- The number of evaluations used. -/
  evaluations : Nat
  /-- Whether one of the tolerances was met. -/
  converged : Bool

/-- What solves a least-squares problem, or says why it cannot. -/
abbrev WeightSolver (K : Type) := WeightProblem K → Except (Fault K) (WeightSolution K)

/-- A weighted mixture of normal densities with a common standard deviation. -/
structure Mixture (K : Type) where
  /-- The means of the candidates. -/
  means : List K
  /-- Their standard deviation. -/
  sigma : K
  /-- Their weights. -/
  weights : List K
  deriving Repr

/-- A fitted mixture. -/
structure Fit (K : Type) where
  /-- The mixture. -/
  mixture : Mixture K
  /-- Whether the fit met its tolerance. -/
  converged : Bool
  /-- The number of evaluations used. -/
  evaluations : Nat
  /-- Half the squared length of the residuals. -/
  cost : K

variable {K : Type} [Scalar K]

open Scalar

/-- The means with a positive weight, and their weights. -/
def Mixture.surviving (m : Mixture K) : List (K × K) :=
  (m.means.zip m.weights).filter fun (_, w) => 0.0 < w

/-- The value of a normal density of every mean, along the row, at every centre, down the
rows. -/
def gaussianBasis (centres means : List K) (sigma : K) : Except (Fault K) (List (List K)) := do
  let variance ← square sigma
  let height ← squareRoot (2.0 * pi * variance)
  return centres.map fun c => means.map fun m =>
    exp (-((c - m) * (c - m)) / (2.0 * variance)) / height

/-- The number between zero and one that is nearest to a number. -/
def clamp (x : K) : K := smaller (larger x 0.0) 1.0

/-- The number itself if it lies between zero and one, or is undefined, and else zero. -/
def withoutExcess (x : K) : K := if x < 0.0 ∨ 1.0 < x then 0.0 else x

/-- The weights of a point: clamped, and divided by their sum if it is positive. -/
def normalisedWeights (point : List K) : Noted K (List K) := do
  let weights := point.map clamp
  let total := sum weights
  if 0.0 < total then return weights.map fun w => withoutExcess (w / total)
  else
    Noted.note (.noWeights point.length)
    return weights.map withoutExcess

/-- Fits a mixture to the density of a region. A fit that does not converge fails if `strict`,
and else goes on with the best point. -/
def fitMixture (solve : WeightSolver K) (region : Region K) (sigma : K) (table : SplitTable K)
    (budget : Int) (tolerance : K) (strict : Bool) : Noted K (Fit K) := do
  let cover ← table.cover region.start region.stop sigma
  let basis ← gaussianBasis region.centres cover.means cover.std
  let solution ← solve {
    basis, target := region.density, candidates := cover.means.length, budget, tolerance }
  if !solution.converged then
    if strict then Noted.ofExcept (.error (.notConverged solution.evaluations))
    else Noted.note (.notConverged solution.evaluations)
  let weights ← normalisedWeights solution.point
  return {
    mixture := ⟨cover.means, cover.std, weights⟩
    converged := solution.converged
    evaluations := solution.evaluations
    cost := solution.cost }

end AdmissibleRegion
