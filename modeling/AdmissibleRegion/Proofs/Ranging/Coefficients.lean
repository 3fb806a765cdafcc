import AdmissibleRegion.Proofs.Optical.Coefficients
import AdmissibleRegion.Ranging

/-!
# The coefficients of a ranging measurement

The orbits seen from a station under given angles, at a range and with a range rate, have two
unknowns, the rates of both angles. Twice the energy and the square of the angular momentum are
quadratic forms in the two rates and one; the coefficients of the measurement are those of the
first form and of the product of both.
-/

namespace AdmissibleRegion

open Scalar (square_eq two_literal four_literal squareRoot_eq_ok divide_eq_ok)
open Vec3

/-- Angles, range and range rate measured at a station. -/
structure Ranged where
  /-- The right ascension. -/
  ra : ℝ
  /-- The declination. -/
  dec : ℝ
  /-- The range. -/
  range : ℝ
  /-- The range rate. -/
  rangeRate : ℝ
  /-- The station. -/
  station : Station ℝ

namespace Ranged

/-- The direction and its derivatives. -/
noncomputable def sight (m : Ranged) : Sightline ℝ := .frame m.ra m.dec

/-- The position of the object. -/
noncomputable def position (m : Ranged) : Vec3 ℝ :=
  m.station.position + scale m.range m.sight.direction

/-- The velocity of the object if its angles change at the rates. -/
noncomputable def velocity (m : Ranged) (raRate decRate : ℝ) : Vec3 ℝ :=
  m.station.velocity + scale m.rangeRate m.sight.direction +
    scale m.range (m.sight.rate raRate decRate)

/-- What is seen of the object if its angles change at the rates. -/
def sighting (m : Ranged) (raRate decRate : ℝ) : Sighting :=
  ⟨m.ra, m.dec, raRate, decRate, m.station⟩

/-- The angular momentum of an object whose angles do not change. -/
noncomputable def momentum (m : Ranged) : Vec3 ℝ :=
  cross m.position (m.station.velocity + scale m.rangeRate m.sight.direction)

/-- The derivative of the angular momentum by the rate of the right ascension. -/
noncomputable def momentumByRa (m : Ranged) : Vec3 ℝ :=
  cross (scale m.range m.position) m.sight.byRa

/-- The derivative of the angular momentum by the rate of the declination. -/
noncomputable def momentumByDec (m : Ranged) : Vec3 ℝ :=
  cross (scale m.range m.position) m.sight.byDec

variable (m : Ranged) (x y : ℝ)

theorem squaredNorm_position : squaredNorm m.position =
    m.range ^ 2 + 2 * dot m.station.position m.sight.direction * m.range +
      squaredNorm m.station.position :=
  (m.sighting 0 0).squaredNorm_position m.range

theorem squaredNorm_velocity : squaredNorm (m.velocity x y) =
    m.range ^ 2 * Real.cos m.dec ^ 2 * x ^ 2 +
      2 * (m.range * dot m.station.velocity m.sight.byRa) * x +
      (m.range ^ 2 * y ^ 2 + 2 * (m.range * dot m.station.velocity m.sight.byDec) * y) +
      (m.rangeRate ^ 2 + 2 * dot m.station.velocity m.sight.direction * m.rangeRate +
        squaredNorm m.station.velocity) := by
  have hspeed := (m.sighting x y).squaredNorm_velocity m.range m.rangeRate
  rw [Sighting.squaredNorm_rate, Sighting.dot_rate] at hspeed
  calc squaredNorm (m.velocity x y)
      = m.rangeRate ^ 2 + 2 * dot m.station.velocity m.sight.direction * m.rangeRate +
          (x ^ 2 * Real.cos m.dec ^ 2 + y ^ 2) * m.range ^ 2 +
          2 * (x * dot m.station.velocity m.sight.byRa +
            y * dot m.station.velocity m.sight.byDec) * m.range +
          squaredNorm m.station.velocity := hspeed
    _ = _ := by ring

/-- The angular momentum is linear in both rates. -/
theorem cross_position_velocity : cross m.position (m.velocity x y) =
    m.momentum + scale x m.momentumByRa + scale y m.momentumByDec := by
  unfold velocity momentum momentumByRa momentumByDec Sightline.rate
  ext <;> simp only [cross, scale, add_x, add_y, add_z] <;> ring

theorem squaredNorm_momentumByDec :
    squaredNorm m.momentumByDec = m.range ^ 2 * squaredNorm (cross m.position m.sight.byDec) := by
  simp only [momentumByDec, squaredNorm, dot, cross, scale]
  ring

end Ranged

/-- The square of the length of a sum of three vectors, two of them multiplied. -/
theorem Vec3.squaredNorm_add_scale_add_scale (a b c : Vec3 ℝ) (x y : ℝ) :
    squaredNorm (a + scale x b + scale y c) =
      squaredNorm b * x ^ 2 + 2 * dot b c * x * y + squaredNorm c * y ^ 2 + 2 * dot a b * x +
        2 * dot a c * y + squaredNorm a := by
  rw [squaredNorm_add, squaredNorm_add, squaredNorm_scale, squaredNorm_scale, dot_add_left,
    dot_scale_right, dot_scale_right, dot_scale_scale]
  ring

namespace Ranging

/-- The product of two quadratic forms in `x`, `y` and one, the first without a mixed term, by
powers of `y`. -/
theorem mul_forms (a11 a13 a22 a23 a33 b11 b12 b22 b13 b23 b33 x y : ℝ) :
    (a11 * x ^ 2 + 2 * a13 * x + (a22 * y ^ 2 + 2 * a23 * y) + a33) *
        (b11 * x ^ 2 + 2 * b12 * x * y + b22 * y ^ 2 + 2 * b13 * x + 2 * b23 * y + b33) =
      a22 * b22 * y ^ 4 + (2 * a22 * b12 * x + (2 * a22 * b23 + 2 * a23 * b22)) * y ^ 3 +
      ((a11 * b22 + a22 * b11) * x ^ 2 +
        (2 * a22 * b13 + 2 * a13 * b22 + 4 * a23 * b12) * x +
        (a22 * b33 + 4 * a23 * b23 + a33 * b22)) * y ^ 2 +
      (2 * a11 * b12 * x ^ 3 + (2 * a11 * b23 + 4 * a13 * b12 + 2 * a23 * b11) * x ^ 2 +
        (4 * a13 * b23 + 4 * a23 * b13 + 2 * a33 * b12) * x +
        (2 * a23 * b33 + 2 * a33 * b23)) * y +
      (a11 * b11 * x ^ 4 + (2 * a11 * b13 + 2 * a13 * b11) * x ^ 3 +
        (a11 * b33 + 4 * a13 * b13 + a33 * b11) * x ^ 2 +
        (2 * a13 * b33 + 2 * a33 * b13) * x + a33 * b33) := by
  ring

/-- Coefficients that describe a measurement: they give the energy of the orbits with any
rates of both angles, and its product with the square of the angular momentum. -/
structure Describes (g : Ranging ℝ) (m : Ranged) (mu : ℝ) : Prop where
  mu_eq : g.mu = mu
  a11_eq : g.a11 = m.range ^ 2 * Real.cos m.dec ^ 2
  a22_eq : g.a22 = m.range ^ 2
  /-- The first coefficient vanishes where position and derivative by declination are
  parallel. -/
  c40_eq : g.c40 = m.range ^ 4 * squaredNorm (cross m.position m.sight.byDec)
  /-- Twice the energy. -/
  energy_eq : ∀ x y,
    g.a11 * x ^ 2 + 2 * g.a13 * x + (g.a22 * y ^ 2 + 2 * g.a23 * y) + g.a33 =
      2 * Orbit.energy mu m.position (m.velocity x y)
  /-- Twice the energy, multiplied by the square of the angular momentum. -/
  product_eq : ∀ x y,
    g.c40 * y ^ 4 + (g.c31 * x + g.c30) * y ^ 3 + (g.c22 * x ^ 2 + g.c21 * x + g.c20) * y ^ 2 +
      (g.c13 * x ^ 3 + g.c12 * x ^ 2 + g.c11 * x + g.c10) * y +
      (g.c04 * x ^ 4 + g.c03 * x ^ 3 + g.c02 * x ^ 2 + g.c01 * x + g.c00) =
    2 * Orbit.energy mu m.position (m.velocity x y) *
      squaredNorm (cross m.position (m.velocity x y))

/-- Every measurement of an object away from the centre has coefficients, and they describe
it. -/
theorem exists_ofMeasurement (m : Ranged) (mu : ℝ) (hr : 0 < norm m.position) :
    ∃ g, ofMeasurement m.ra m.dec m.range m.rangeRate m.station mu = .ok g ∧
      g.Describes m mu := by
  have hdistance := m.squaredNorm_position
  have hroot : Scalar.squareRoot (m.range ^ 2 + 2 * dot m.station.position m.sight.direction *
      m.range + squaredNorm m.station.position) = .ok (norm m.position) := by
    rw [← hdistance, squareRoot_eq_ok (squaredNorm_nonneg _), norm_eq_sqrt]
  have henergy : ∀ x y, m.range ^ 2 * Real.cos m.dec ^ 2 * x ^ 2 +
      2 * (m.range * dot m.station.velocity m.sight.byRa) * x +
      (m.range ^ 2 * y ^ 2 + 2 * (m.range * dot m.station.velocity m.sight.byDec) * y) +
      (m.rangeRate ^ 2 + 2 * dot m.station.velocity m.sight.direction * m.rangeRate +
        squaredNorm m.station.velocity - 2 * mu / norm m.position) =
      2 * Orbit.energy mu m.position (m.velocity x y) := by
    intro x y
    rw [Orbit.energy_eq_sub, m.squaredNorm_velocity]
    ring
  unfold Ranged.sight at hroot
  unfold ofMeasurement
  simp only [Sightline.of_eq, square_eq, ok_bind, pure_eq_ok, two_literal, four_literal]
  rw [hroot, ok_bind, divide_eq_ok _ hr.ne', ok_bind]
  refine ⟨_, rfl, rfl, rfl, rfl, ?_, henergy, fun x y => ?_⟩
  · change m.range ^ 2 * squaredNorm m.momentumByDec = _
    rw [m.squaredNorm_momentumByDec]
    ring
  · rw [← henergy, m.cross_position_velocity, squaredNorm_add_scale_add_scale, mul_forms]
    rfl

end Ranging

end AdmissibleRegion
