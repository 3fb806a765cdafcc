import AdmissibleRegion.BoundaryTable
import AdmissibleRegion.Station

/-!
# Angles, range and range rate

A ranging measurement gives both angles of an object, its range and its range rate; the
rates of the two angles are unknown. Twice the energy of the orbit is a quadratic form in
the two rates, and the square of its angular momentum another. Orbits of one semi-major axis
form an ellipse in the plane of the rates. An orbit has at most a given eccentricity where a
quartic in the rate of declination is not positive.

The rates of all closed orbits lie between the two ends of the grid, which are equally far
from zero. The ordinates of one semi-major axis are read off a table of its ellipse.
-/

namespace AdmissibleRegion

/-- The coefficients of a ranging measurement: `a11` to `a33` give the energy as a form in the
rates of right ascension and of declination and in one; `cIJ` belongs to the power `I` of the
rate of declination and the power `J` of the rate of right ascension in the product of energy
and squared angular momentum. -/
structure Ranging (K : Type) where
  a11 : K
  a13 : K
  a22 : K
  a23 : K
  a33 : K
  c40 : K
  c31 : K
  c30 : K
  c22 : K
  c21 : K
  c20 : K
  c13 : K
  c12 : K
  c11 : K
  c10 : K
  c04 : K
  c03 : K
  c02 : K
  c01 : K
  c00 : K
  /-- The gravitational parameter. -/
  mu : K
  deriving Repr

namespace Ranging

variable {K : Type} [Scalar K]

open Scalar Vec3

/-- The coefficients of the angles, the range and the range rate seen from a station. -/
def ofMeasurement (ra dec range rangeRate : K) (station : Station K) (mu : K) :
    Except (Fault K) (Ranging K) := do
  let q := station.position
  let v := station.velocity
  let sight ← Sightline.of ra dec
  let w0 := squaredNorm q
  let w1 := 2.0 * dot v sight.direction
  let w4 := squaredNorm v
  let w5 := 2.0 * dot q sight.direction
  let a22 ← square range
  let a11 := a22 * (← square (cos dec))
  let a13 := range * dot v sight.byRa
  let a23 := range * dot v sight.byDec
  let speed ← square rangeRate
  let distance ← squareRoot (a22 + w5 * range + w0)
  let a33 := speed + w1 * rangeRate + w4 - (← divide (2.0 * mu) distance)
  let r := q + scale range sight.direction
  let hp := cross r (v + scale rangeRate sight.direction)
  let ha := cross (scale range r) sight.byRa
  let hd := cross (scale range r) sight.byDec
  let b11 := squaredNorm ha
  let b12 := dot ha hd
  let b22 := squaredNorm hd
  let b13 := dot hp ha
  let b23 := dot hp hd
  let b33 := squaredNorm hp
  return {
    a11, a13, a22, a23, a33
    c40 := a22 * b22
    c31 := 2.0 * a22 * b12
    c30 := 2.0 * a22 * b23 + 2.0 * a23 * b22
    c22 := a11 * b22 + a22 * b11
    c21 := 2.0 * a22 * b13 + 2.0 * a13 * b22 + 4.0 * a23 * b12
    c20 := a22 * b33 + 4.0 * a23 * b23 + a33 * b22
    c13 := 2.0 * a11 * b12
    c12 := 2.0 * a11 * b23 + 4.0 * a13 * b12 + 2.0 * a23 * b11
    c11 := 4.0 * a13 * b23 + 4.0 * a23 * b13 + 2.0 * a33 * b12
    c10 := 2.0 * a23 * b33 + 2.0 * a33 * b23
    c04 := a11 * b11
    c03 := 2.0 * a11 * b13 + 2.0 * a13 * b11
    c02 := a11 * b33 + 4.0 * a13 * b13 + a33 * b11
    c01 := 2.0 * a13 * b33 + 2.0 * a33 * b13
    c00 := a33 * b33
    mu }

/-- What remains of the constant term of the energy, negated, when both squares are completed;
`shift` is added to the constant term. -/
def reduced (g : Ranging K) (shift : Option K) : Except (Fault K) K := do
  let a33 := match shift with
    | none => g.a33
    | some s => g.a33 + s
  return -a33 + (← divide (← square g.a13) g.a11) + (← divide (← square g.a23) g.a22)

/-- The greatest rate of right ascension of a closed orbit, of either sign. -/
def halfWidth (g : Ranging K) : Except (Fault K) K := do
  let centre := magnitude (← divide g.a13 g.a11)
  let semiAxis ← squareRoot (magnitude (← divide (← g.reduced none) g.a11))
  return centre + semiAxis

/-- The ellipse of the rates with which an orbit has the given semi-major axis. -/
def energyEllipse (g : Ranging K) (semiMajorAxis : K) : Except (Fault K) (Ellipse K) := do
  let reduced ← g.reduced (some (← divide g.mu semiMajorAxis))
  return {
    centreX := ← divide (-g.a13) g.a11
    centreY := ← divide (-g.a23) g.a22
    semiX := ← squareRoot (magnitude (← divide reduced g.a11))
    semiY := ← squareRoot (magnitude (← divide reduced g.a22)) }

/-- The quartic in the rate of declination that is not positive exactly where the eccentricity
is at most `emax`; the highest degree first. -/
def eccentricityQuartic (g : Ranging K) (raRate emax : K) : Except (Fault K) (List K) := do
  let x := raRate
  let xx ← square x
  let xxx ← raise x 3
  let p0 := g.c04 * (← raise x 4) + g.c03 * xxx + g.c02 * xx + g.c01 * x + g.c00
    + (← square g.mu) * (1.0 - (← square emax))
  let p1 := g.c13 * xxx + g.c12 * xx + g.c11 * x + g.c10
  let p2 := g.c22 * xx + g.c21 * x + g.c20
  let p3 := g.c31 * x + g.c30
  return [g.c40, p3, p2, p1, p0]

/-! ## The grid of rates of right ascension -/

/-- Two boundaries as an interval, if they have not crossed. -/
def uncrossed? (bounds : Interval K) : Option (Interval K) :=
  if bounds.lower < bounds.upper then some bounds else none

/-- The bounds on the rate of declination at one rate of right ascension. -/
def sampleAt (roots : RootFinder K) (g : Ranging K) (least greatest : BoundaryTable K)
    (emax raRate : K) : Except (Fault K) (Sample K) := do
  return {
    abscissa := raRate
    amin := uncrossed? (least.interpolate raRate)
    amax := uncrossed? (greatest.interpolate raRate)
    emax := ← realRootBounds roots (← g.eccentricityQuartic raRate emax)
      Constants.rootTolerance }

/-- The bounds on the rate of declination in equal steps from the least rate of right ascension
of a closed orbit. -/
def grid (roots : RootFinder K) (g : Ranging K) (step amin amax emax : K) :
    Except (Fault K) (List (Sample K)) := do
  let halfWidth ← g.halfWidth
  let last ← floor? (← divide (2.0 * halfWidth) step)
  let least ← BoundaryTable.ofEllipse (← g.energyEllipse amin) Constants.ellipseRows
  let greatest ← BoundaryTable.ofEllipse (← g.energyEllipse amax) Constants.ellipseRows
  (List.range (last + 1).toNat).mapM fun k =>
    g.sampleAt roots least greatest emax (ofNat k * step - halfWidth)

end Ranging

end AdmissibleRegion
