import AdmissibleRegion.Constants
import AdmissibleRegion.Vec3

/-!
# Observing stations

A station is the inertial position and velocity of the observer at the time of a
measurement. A ground site stands on the normal of the Earth's ellipsoid and turns with the
Earth. A line of sight is the direction in which an object is seen from there, with the
changes of this direction by either angle.
-/

namespace AdmissibleRegion

/-! ## Lines of sight -/

/-- The unit vector of a line of sight and its derivatives by right ascension and by
declination; the first derivative has the length of the cosine of the declination. -/
structure Sightline (K : Type) where
  /-- The unit vector from the observer to the object. -/
  direction : Vec3 K
  /-- The derivative by right ascension. -/
  byRa : Vec3 K
  /-- The derivative by declination. -/
  byDec : Vec3 K
  deriving Repr

namespace Sightline

variable {K : Type} [Scalar K]

open Scalar

/-- The line of sight at a right ascension and a declination. -/
def of (ra dec : K) : Except (Fault K) (Sightline K) := do
  let ra ← angle ra
  let dec ← angle dec
  return {
    direction := ⟨cos ra * cos dec, sin ra * cos dec, sin dec⟩
    byRa := ⟨-(sin ra) * cos dec, cos ra * cos dec, 0.0⟩
    byDec := ⟨-(cos ra) * sin dec, -(sin ra) * sin dec, cos dec⟩ }

end Sightline

/-! ## Stations -/

/-- The observer at the time of a measurement, in an inertial frame. -/
structure Station (K : Type) where
  /-- The position in kilometres. -/
  position : Vec3 K
  /-- The velocity in kilometres per second. -/
  velocity : Vec3 K
  deriving Repr

namespace Station

variable {K : Type} [Scalar K]

open Scalar

/-- What messages call the position. -/
def positionName : String := "position_km"

/-- What messages call the velocity. -/
def velocityName : String := "velocity_km_s"

/-- A station from the components of its position and of its velocity, which must be three
finite numbers each. -/
def ofComponents (position velocity : List K) : Except (Fault K) (Station K) := do
  return {
    position := ← Vec3.ofList positionName position
    velocity := ← Vec3.ofList velocityName velocity }

/-- A station from nested lists of these components. -/
def ofNested (position velocity : Nested K) : Except (Fault K) (Station K) := do
  return {
    position := ← Vec3.ofNested positionName position
    velocity := ← Vec3.ofNested velocityName velocity }

/-- A site at a geodetic latitude and an east longitude in degrees and a height in kilometres,
when the Greenwich meridian stands at a sidereal angle in radians. -/
def ofGroundSite (latitude longitude altitude sidereal : K) : Except (Fault K) (Station K) := do
  if ¬(-90.0 ≤ latitude ∧ latitude ≤ 90.0) then throw (.latitude latitude)
  let lat := radians latitude
  let lon ← angle (radians longitude + sidereal)
  let e2 := Constants.earthFlattening * (2.0 - Constants.earthFlattening)
  let n ← divide Constants.earthRadius (← squareRoot (1.0 - e2 * (← square (sin lat))))
  let position : Vec3 K :=
    ⟨(n + altitude) * cos lat * cos lon,
     (n + altitude) * cos lat * sin lon,
     (n * (1.0 - e2) + altitude) * sin lat⟩
  let velocity := Vec3.cross ⟨0.0, 0.0, Constants.earthRotation⟩ position
  ofComponents position.toList velocity.toList

end Station

end AdmissibleRegion
