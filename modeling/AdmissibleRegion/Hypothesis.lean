import AdmissibleRegion.Mixture

/-!
# Hypotheses

Every fitted density of the abscissa is split along the ordinates of the arcs at its mean.
The parts share its weight equally. If the weight of some mean was lost because it has no
admissible ordinates, the others are normalised again.
-/

namespace AdmissibleRegion

/-- A normal density of two independent unknowns, with its weight. -/
structure Component (K : Type) where
  /-- The mean of the abscissa. -/
  abscissaMean : K
  /-- The mean of the ordinate. -/
  ordinateMean : K
  /-- The standard deviation of the abscissa. -/
  abscissaStd : K
  /-- The standard deviation of the ordinate. -/
  ordinateStd : K
  /-- The weight. -/
  weight : K
  deriving Repr

variable {K : Type} [Scalar K]

open Scalar

/-- The mean of both unknowns. -/
def Component.mean (c : Component K) : List K := [c.abscissaMean, c.ordinateMean]

/-- The rows of the covariance matrix. -/
def Component.covariance (c : Component K) : Except (Fault K) (List (List K)) := do
  return [[← square c.abscissaStd, 0.0], [0.0, ← square c.ordinateStd]]

/-- Covers the ordinates of a segment at an abscissa, if it has a positive width there. -/
def Segment.cover? (s : Segment K) (x sigma : K) (table : SplitTable K) :
    Except (Fault K) (Option (Cover K)) := do
  let bounds ← s.boundsAt x
  if bounds.lower < bounds.upper then
    return some (← table.cover bounds.lower bounds.upper sigma)
  else return none

/-- The components of one fitted mean: every ordinate of every cover, with equal shares of its
weight. -/
def Component.share (mean std weight : K) (covers : List (Cover K)) : List (Component K) :=
  let count := (covers.flatMap (·.means)).length
  covers.flatMap fun cover => cover.means.map fun ordinate => {
    abscissaMean := mean
    ordinateMean := ordinate
    abscissaStd := std
    ordinateStd := cover.std
    weight := weight / ofNat count }

/-- The components of one fitted mean; none where it has no admissible ordinates. -/
def componentsAt (region : Region K) (table : SplitTable K) (std sigma mean weight : K) :
    Noted K (List (Component K)) := do
  match region.locate? mean with
  | none =>
    Noted.note (.outsideRegion mean)
    return []
  | some cell =>
    let covers ← cell.segments.mapM fun s => s.cover? mean sigma table
    let components := Component.share mean std weight (covers.filterMap id)
    if components.isEmpty then Noted.note (.noOrdinates mean cell.kind weight)
    return components

/-- Divides all weights by their sum. -/
def normalised (components : List (Component K)) : Except (Fault K) (List (Component K)) :=
  let total := sum (components.map (·.weight))
  components.mapM fun c => do return { c with weight := ← divide c.weight total }

/-- The hypotheses of a fitted mixture on a region. -/
def hypotheses (region : Region K) (mixture : Mixture K) (sigma : K) (table : SplitTable K) :
    Noted K (List (Component K)) := do
  let parts ← mixture.surviving.mapM fun (mean, weight) =>
    componentsAt region table mixture.sigma sigma mean weight
  if parts.any (·.isEmpty) then Noted.ofExcept (normalised parts.flatten)
  else return parts.flatten

end AdmissibleRegion
