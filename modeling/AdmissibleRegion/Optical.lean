import AdmissibleRegion.Sample
import AdmissibleRegion.Station

/-!
# Angles and angle rates

An optical measurement gives both angles of an object and their rates; range and range rate
are unknown. For a fixed range, twice the energy of the orbit is a quadratic in the range
rate, and the square of its angular momentum another, both with coefficients that the
measurement and the station determine. An orbit has at most a given eccentricity where a
quartic in the range rate is not positive.

An object on an orbit inside the greatest semi-major axis is sought at ranges up to twice
that axis, in equal steps from zero.
-/

namespace AdmissibleRegion

/-- The coefficients of an optical measurement: `w0` to `w5` give the energy, `c0` to `c8` the
square of the angular momentum. -/
structure Optical (K : Type) where
  w0 : K
  w1 : K
  w2 : K
  w3 : K
  w4 : K
  w5 : K
  c0 : K
  c1 : K
  c2 : K
  c3 : K
  c4 : K
  c5 : K
  c6 : K
  c7 : K
  c8 : K
  /-- The gravitational parameter. -/
  mu : K
  deriving Repr

namespace Optical

variable {K : Type} [Scalar K]

open Scalar Vec3

/-- The coefficients of the angles and angle rates seen from a station. -/
def ofMeasurement (ra dec raRate decRate : K) (station : Station K) (mu : K) :
    Except (Fault K) (Optical K) := do
  let q := station.position
  let v := station.velocity
  let sight ← Sightline.of ra dec
  let rate := scale raRate sight.byRa + scale decRate sight.byDec
  let h1 := cross q sight.direction
  let h2 := cross sight.direction rate
  let h3 := cross sight.direction v + cross q rate
  let h4 := cross q v
  return {
    w0 := squaredNorm q
    w1 := 2.0 * dot v sight.direction
    w2 := (← square raRate) * (← square (cos dec)) + (← square decRate)
    w3 := 2.0 * raRate * dot v sight.byRa + 2.0 * decRate * dot v sight.byDec
    w4 := squaredNorm v
    w5 := 2.0 * dot q sight.direction
    c0 := squaredNorm h1
    c1 := 2.0 * dot h1 h2
    c2 := 2.0 * dot h1 h3
    c3 := 2.0 * dot h1 h4
    c4 := squaredNorm h2
    c5 := 2.0 * dot h2 h3
    c6 := 2.0 * dot h2 h4 + squaredNorm h3
    c7 := 2.0 * dot h3 h4
    c8 := squaredNorm h4
    mu }

/-- The part of twice the energy that does not depend on the range rate. -/
def energyAt (g : Optical K) (range : K) : Except (Fault K) K := do
  let rr ← square range
  let distance ← squareRoot (rr + g.w5 * range + g.w0)
  return g.w2 * rr + g.w3 * range + g.w4 - (← divide (2.0 * g.mu) distance)

/-- The quartic in the range rate that is not positive exactly where the eccentricity is at
most `emax`; the highest degree first. -/
def eccentricityQuartic (g : Optical K) (range emax : K) : Except (Fault K) (List K) := do
  let f ← g.energyAt range
  let rr ← square range
  let p := g.c1 * rr + g.c2 * range + g.c3
  let u := g.c4 * (← raise range 4) + g.c5 * (← raise range 3) + g.c6 * rr + g.c7 * range + g.c8
  return [
    g.c0,
    p + g.c0 * g.w1,
    u + g.c0 * f + g.w1 * p,
    f * p + g.w1 * u,
    f * u + (← square g.mu) * (1.0 - (← square emax))]

/-! ## The grid of ranges -/

/-- The bounds on the range rate at one range: two energies and the greatest eccentricity. -/
def sampleAt (roots : RootFinder K) (g : Optical K) (leastEnergy greatestEnergy emax range : K) :
    Except (Fault K) (Sample K) := do
  let f ← g.energyAt range
  return {
    abscissa := range
    amin := energyBounds g.w1 f leastEnergy
    amax := energyBounds g.w1 f greatestEnergy
    emax := ← realRootBounds roots (← g.eccentricityQuartic range emax)
      Constants.rootTolerance }

/-- The bounds on the range rate at the ranges `0`, `step`, `2 * step` and so on, up to
`2 * amax`. -/
def grid (roots : RootFinder K) (g : Optical K) (step amin amax emax : K) :
    Except (Fault K) (List (Sample K)) := do
  let last ← floor? (← divide (2.0 * amax) step)
  let leastEnergy ← divide (-g.mu) (2.0 * amin)
  let greatestEnergy ← divide (-g.mu) (2.0 * amax)
  (List.range (last + 1).toNat).mapM fun k =>
    g.sampleAt roots leastEnergy greatestEnergy emax (ofNat k * step)

end Optical

end AdmissibleRegion
