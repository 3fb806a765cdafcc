import AdmissibleRegion.Proofs.Exact

/-!
# Orbits of two bodies

Position and velocity of a body give the energy, the semi-major axis and the eccentricity of
its orbit. The square of the eccentricity is below one by the product of energy and squared
angular momentum, in units of the gravitational parameter.
-/

namespace AdmissibleRegion

namespace Orbit

open Scalar (one_literal two_literal)
open Vec3

section Elements

variable {K : Type} [Scalar K]

/-- The energy of a unit of mass. -/
def energy (mu : K) (r v : Vec3 K) : K := squaredNorm v / 2.0 - mu / norm r

/-- The semi-major axis; it is negative if the orbit is not closed. -/
def semiMajorAxis (mu : K) (r v : Vec3 K) : K := -mu / (2.0 * energy mu r v)

/-- The vector to the point of the orbit that is nearest to the centre, as long as the
eccentricity. -/
def eccentricityVector (mu : K) (r v : Vec3 K) : Vec3 K :=
  scale (1.0 / mu) (scale (squaredNorm v - mu / norm r) r + scale (-dot r v) v)

/-- The eccentricity. -/
def eccentricity (mu : K) (r v : Vec3 K) : K := norm (eccentricityVector mu r v)

end Elements

variable {mu : ℝ} {r v : Vec3 ℝ}

theorem energy_eq_sub : energy mu r v = squaredNorm v / 2 - mu / norm r := by
  rw [energy, two_literal]

theorem semiMajorAxis_eq : semiMajorAxis mu r v = -mu / (2 * energy mu r v) := by
  rw [semiMajorAxis, two_literal]

theorem eccentricity_nonneg : 0 ≤ eccentricity mu r v := Real.sqrt_nonneg _

/-- The eccentricity by energy and angular momentum. -/
theorem sq_eccentricity (hmu : mu ≠ 0) (hr : 0 < norm r) :
    mu ^ 2 * (eccentricity mu r v ^ 2 - 1) =
      2 * energy mu r v * squaredNorm (cross r v) := by
  have hr' := hr.ne'
  have hvector : eccentricity mu r v ^ 2 = (1 / mu) ^ 2 *
      ((squaredNorm v - mu / norm r) ^ 2 * norm r ^ 2 -
        2 * (squaredNorm v - mu / norm r) * dot r v ^ 2 + dot r v ^ 2 * squaredNorm v) := by
    rw [eccentricity, norm_sq, eccentricityVector, one_literal, squaredNorm_scale,
      squaredNorm_add, squaredNorm_scale, squaredNorm_scale, dot_scale_scale, norm_sq]
    ring
  have hmomentum : squaredNorm (cross r v) = norm r ^ 2 * squaredNorm v - dot r v ^ 2 := by
    rw [squaredNorm_cross, norm_sq]
  rw [hvector, hmomentum, energy_eq_sub]
  field_simp
  ring

/-- An orbit that is not closed has an eccentricity of at least one. -/
theorem one_le_sq_eccentricity (hmu : mu ≠ 0) (hr : 0 < norm r) (h : 0 ≤ energy mu r v) :
    1 ≤ eccentricity mu r v ^ 2 := by
  have hsq := sq_eccentricity (v := v) hmu hr
  have hpos : 0 < mu ^ 2 := by positivity
  have hnonneg : 0 ≤ mu ^ 2 * (eccentricity mu r v ^ 2 - 1) := by
    rw [hsq]
    exact mul_nonneg (mul_nonneg zero_le_two h) (squaredNorm_nonneg _)
  exact sub_nonneg.mp (nonneg_of_mul_nonneg_right hnonneg hpos)

/-- The energy by the semi-major axis. -/
theorem energy_eq_div (ha : semiMajorAxis mu r v ≠ 0) :
    energy mu r v = -mu / (2 * semiMajorAxis mu r v) := by
  rw [semiMajorAxis_eq] at ha ⊢
  have he : energy mu r v ≠ 0 := by
    intro h
    rw [h, mul_zero, div_zero] at ha
    exact ha rfl
  have hmu : mu ≠ 0 := by
    intro h
    rw [h, neg_zero, zero_div] at ha
    exact ha rfl
  field_simp

/-- On closed orbits, a greater semi-major axis is a greater energy. -/
theorem semiMajorAxis_le_iff (hmu : 0 < mu) {a : ℝ} (ha : 0 < a)
    (hpos : 0 < semiMajorAxis mu r v) :
    semiMajorAxis mu r v ≤ a ↔ energy mu r v ≤ -mu / (2 * a) := by
  have h2a : 0 < 2 * a := mul_pos two_pos ha
  have h2s : 0 < 2 * semiMajorAxis mu r v := mul_pos two_pos hpos
  rw [energy_eq_div hpos.ne', neg_div, neg_div, neg_le_neg_iff,
    div_le_div_iff_of_pos_left hmu h2a h2s, mul_le_mul_iff_right₀ two_pos]

end Orbit

end AdmissibleRegion
