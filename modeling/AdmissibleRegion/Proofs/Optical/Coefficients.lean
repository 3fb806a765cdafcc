import AdmissibleRegion.Optical
import AdmissibleRegion.Proofs.Orbit
import AdmissibleRegion.Proofs.Station

/-!
# The coefficients of an optical measurement

The orbits seen from a station under given angles and angle rates have two unknowns, the range
and the range rate. The coefficients of the measurement are those of the squares of distance,
speed and angular momentum as polynomials in both.
-/

namespace AdmissibleRegion

open Scalar (square_eq raise_eq two_literal)
open Vec3

/-- Angles and angle rates measured at a station. -/
structure Sighting where
  /-- The right ascension. -/
  ra : ℝ
  /-- The declination. -/
  dec : ℝ
  /-- The rate of the right ascension. -/
  raRate : ℝ
  /-- The rate of the declination. -/
  decRate : ℝ
  /-- The station. -/
  station : Station ℝ

namespace Sighting

/-- The direction and its derivatives. -/
noncomputable def sight (m : Sighting) : Sightline ℝ := .frame m.ra m.dec

/-- How the direction moves. -/
noncomputable def rate (m : Sighting) : Vec3 ℝ := m.sight.rate m.raRate m.decRate

/-- The position of an object at a range. -/
noncomputable def position (m : Sighting) (range : ℝ) : Vec3 ℝ :=
  m.station.position + scale range m.sight.direction

/-- The velocity of an object at a range with a range rate. -/
noncomputable def velocity (m : Sighting) (range rangeRate : ℝ) : Vec3 ℝ :=
  m.station.velocity + scale rangeRate m.sight.direction + scale range m.rate

theorem dot_direction_rate (m : Sighting) : dot m.sight.direction m.rate = 0 :=
  Sightline.dot_direction_rate m.ra m.dec m.raRate m.decRate

theorem squaredNorm_direction (m : Sighting) : squaredNorm m.sight.direction = 1 :=
  Sightline.squaredNorm_direction m.ra m.dec

theorem squaredNorm_rate (m : Sighting) :
    squaredNorm m.rate = m.raRate ^ 2 * Real.cos m.dec ^ 2 + m.decRate ^ 2 :=
  Sightline.squaredNorm_rate m.ra m.dec m.raRate m.decRate

/-- The product with the rate of the direction, by the rates of both angles. -/
theorem dot_rate (m : Sighting) (v : Vec3 ℝ) :
    dot v m.rate = m.raRate * dot v m.sight.byRa + m.decRate * dot v m.sight.byDec := by
  rw [rate, Sightline.rate, dot_add_right, dot_scale_right, dot_scale_right]

variable (m : Sighting) (range rangeRate : ℝ)

theorem squaredNorm_position : squaredNorm (m.position range) =
    range ^ 2 + 2 * dot m.station.position m.sight.direction * range +
      squaredNorm m.station.position := by
  rw [position, squaredNorm_add, squaredNorm_scale, dot_scale_right, squaredNorm_direction]
  ring

theorem squaredNorm_velocity : squaredNorm (m.velocity range rangeRate) =
    rangeRate ^ 2 + 2 * dot m.station.velocity m.sight.direction * rangeRate +
      squaredNorm m.rate * range ^ 2 + 2 * dot m.station.velocity m.rate * range +
      squaredNorm m.station.velocity := by
  rw [velocity, squaredNorm_add, squaredNorm_add, squaredNorm_scale, squaredNorm_scale,
    dot_add_left, dot_scale_right, dot_scale_right, dot_scale_scale, squaredNorm_direction,
    dot_direction_rate]
  ring

/-- The angular momentum is the sum of four vectors, one for each power of the unknowns. -/
theorem cross_position_velocity : cross (m.position range) (m.velocity range rangeRate) =
    scale rangeRate (cross m.station.position m.sight.direction) +
      scale (range ^ 2) (cross m.sight.direction m.rate) +
      scale range (cross m.sight.direction m.station.velocity +
        cross m.station.position m.rate) +
      cross m.station.position m.station.velocity := by
  unfold position velocity
  ext <;> simp only [cross, scale, add_x, add_y, add_z] <;> ring

end Sighting

/-- The square of the length of a sum of four vectors, by powers of the unknowns. -/
theorem Vec3.squaredNorm_momentum (h1 h2 h3 h4 : Vec3 ℝ) (range rangeRate : ℝ) :
    squaredNorm (scale rangeRate h1 + scale (range ^ 2) h2 + scale range h3 + h4) =
      squaredNorm h1 * rangeRate ^ 2 +
      (2 * dot h1 h2 * range ^ 2 + 2 * dot h1 h3 * range + 2 * dot h1 h4) * rangeRate +
      (squaredNorm h2 * range ^ 4 + 2 * dot h2 h3 * range ^ 3 +
        (2 * dot h2 h4 + squaredNorm h3) * range ^ 2 + 2 * dot h3 h4 * range +
        squaredNorm h4) := by
  simp only [squaredNorm, dot, scale, add_x, add_y, add_z]
  ring

namespace Optical

/-- Coefficients that describe a measurement: they give the squares of distance, speed and
angular momentum of the orbits at any range with any range rate. -/
structure Describes (g : Optical ℝ) (m : Sighting) (mu : ℝ) : Prop where
  mu_eq : g.mu = mu
  /-- The square of the distance from the centre. -/
  distance_eq : ∀ range, range ^ 2 + g.w5 * range + g.w0 = squaredNorm (m.position range)
  /-- The square of the speed. -/
  speed_eq : ∀ range rangeRate, rangeRate ^ 2 + g.w1 * rangeRate +
    (g.w2 * range ^ 2 + g.w3 * range + g.w4) = squaredNorm (m.velocity range rangeRate)
  /-- The square of the angular momentum. -/
  momentum_eq : ∀ range rangeRate,
    g.c0 * rangeRate ^ 2 + (g.c1 * range ^ 2 + g.c2 * range + g.c3) * rangeRate +
      (g.c4 * range ^ 4 + g.c5 * range ^ 3 + g.c6 * range ^ 2 + g.c7 * range + g.c8) =
    squaredNorm (cross (m.position range) (m.velocity range rangeRate))

/-- Every measurement has coefficients, and they describe it. -/
theorem exists_ofMeasurement (m : Sighting) (mu : ℝ) :
    ∃ g, ofMeasurement m.ra m.dec m.raRate m.decRate m.station mu = .ok g ∧
      g.Describes m mu := by
  unfold ofMeasurement
  simp only [Sightline.of_eq, square_eq, ok_bind, pure_eq_ok, two_literal]
  refine ⟨_, rfl, rfl, fun range => ?_, fun range rangeRate => ?_, fun range rangeRate => ?_⟩
  · rw [m.squaredNorm_position]
    rfl
  · rw [m.squaredNorm_velocity, m.squaredNorm_rate, m.dot_rate]
    change rangeRate ^ 2 + 2 * dot m.station.velocity m.sight.direction * rangeRate +
      ((m.raRate ^ 2 * Real.cos m.dec ^ 2 + m.decRate ^ 2) * range ^ 2 +
        (2 * m.raRate * dot m.station.velocity m.sight.byRa +
          2 * m.decRate * dot m.station.velocity m.sight.byDec) * range +
        squaredNorm m.station.velocity) = _
    ring
  · rw [m.cross_position_velocity, squaredNorm_momentum]
    rfl

end Optical

end AdmissibleRegion
