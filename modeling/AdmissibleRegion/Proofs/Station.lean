import AdmissibleRegion.Proofs.Checked
import AdmissibleRegion.Proofs.Exact
import AdmissibleRegion.Station

/-!
# Exact ground sites and lines of sight

Every latitude from pole to pole has a ground site: the radicand of its radius of curvature is
positive. A latitude beyond a pole is refused, whatever the other arguments are. The direction
of a line of sight is a unit vector, and both of its derivatives are orthogonal to it and to
each other, so that a change of both angles moves the direction at right angles.
-/

namespace AdmissibleRegion.Sightline

/-! ## Lines of sight -/

open Scalar (angle_eq zero_literal)
open Vec3

/-- The unit vector of two angles with its derivatives. -/
noncomputable def frame (ra dec : ℝ) : Sightline ℝ where
  direction := ⟨Real.cos ra * Real.cos dec, Real.sin ra * Real.cos dec, Real.sin dec⟩
  byRa := ⟨-Real.sin ra * Real.cos dec, Real.cos ra * Real.cos dec, 0⟩
  byDec := ⟨-Real.cos ra * Real.sin dec, -Real.sin ra * Real.sin dec, Real.cos dec⟩

/-- Every pair of angles has a line of sight. -/
theorem of_eq (ra dec : ℝ) : Sightline.of ra dec = .ok (frame ra dec) := by
  unfold Sightline.of frame
  rw [angle_eq, angle_eq, ok_bind, ok_bind, pure_eq_ok, zero_literal]
  rfl

variable (ra dec : ℝ)

theorem squaredNorm_direction : squaredNorm (frame ra dec).direction = 1 := by
  simp only [squaredNorm, dot, frame]
  linear_combination Real.cos dec ^ 2 * Real.sin_sq_add_cos_sq ra + Real.sin_sq_add_cos_sq dec

theorem squaredNorm_byRa : squaredNorm (frame ra dec).byRa = Real.cos dec ^ 2 := by
  simp only [squaredNorm, dot, frame]
  linear_combination Real.cos dec ^ 2 * Real.sin_sq_add_cos_sq ra

theorem squaredNorm_byDec : squaredNorm (frame ra dec).byDec = 1 := by
  simp only [squaredNorm, dot, frame]
  linear_combination Real.sin dec ^ 2 * Real.sin_sq_add_cos_sq ra + Real.sin_sq_add_cos_sq dec

theorem dot_direction_byRa : dot (frame ra dec).direction (frame ra dec).byRa = 0 := by
  simp only [dot, frame]
  ring

theorem dot_direction_byDec : dot (frame ra dec).direction (frame ra dec).byDec = 0 := by
  simp only [dot, frame]
  linear_combination -Real.sin dec * Real.cos dec * Real.sin_sq_add_cos_sq ra

theorem dot_byRa_byDec : dot (frame ra dec).byRa (frame ra dec).byDec = 0 := by
  simp only [dot, frame]
  ring

/-- How the direction moves when both angles change. -/
noncomputable def rate (s : Sightline ℝ) (raRate decRate : ℝ) : Vec3 ℝ :=
  scale raRate s.byRa + scale decRate s.byDec

variable (raRate decRate : ℝ)

/-- The direction moves at right angles to itself. -/
theorem dot_direction_rate :
    dot (frame ra dec).direction ((frame ra dec).rate raRate decRate) = 0 := by
  rw [rate, dot_add_right, dot_scale_right, dot_scale_right, dot_direction_byRa,
    dot_direction_byDec]
  ring

/-- The square of the speed at which the direction moves. -/
theorem squaredNorm_rate : squaredNorm ((frame ra dec).rate raRate decRate) =
    raRate ^ 2 * Real.cos dec ^ 2 + decRate ^ 2 := by
  rw [rate, squaredNorm_add, squaredNorm_scale, squaredNorm_scale, dot_scale_scale,
    squaredNorm_byRa, squaredNorm_byDec, dot_byRa_byDec]
  ring

end AdmissibleRegion.Sightline

namespace AdmissibleRegion

/-! ## Ground sites -/

open Scalar (angle_eq square_eq zero_literal one_literal two_literal divide_eq_ok squareRoot_eq_ok)

/-- The flattening of the Earth is a proper fraction. -/
theorem Constants.earthFlattening_mem : (earthFlattening : ℝ) ∈ Set.Ioo 0 1 := by
  have hvalue : (earthFlattening : ℝ) = 1 / 298.257223563 := by
    rw [earthFlattening, one_literal]
  rw [hvalue]
  norm_num

theorem Constants.earthRadius_pos : (0 : ℝ) < earthRadius := by
  norm_num [earthRadius]

theorem Constants.earthRotation_pos : (0 : ℝ) < earthRotation := by
  norm_num [earthRotation]

namespace Station

open Constants

/-- The square of the eccentricity of a meridian. -/
noncomputable def sqEccentricity : ℝ := earthFlattening * (2.0 - earthFlattening)

theorem sqEccentricity_eq : sqEccentricity = earthFlattening * (2 - earthFlattening) := by
  rw [sqEccentricity, two_literal]

/-- The radius of curvature of the ellipsoid across the meridian, at a latitude in radians. -/
noncomputable def curvatureRadius (lat : ℝ) : ℝ :=
  earthRadius / √(1 - sqEccentricity * Real.sin lat ^ 2)

/-- The position of a site at a latitude, an angle from the first axis, and a height. -/
noncomputable def sitePosition (lat lon altitude : ℝ) : Vec3 ℝ :=
  ⟨(curvatureRadius lat + altitude) * Real.cos lat * Real.cos lon,
    (curvatureRadius lat + altitude) * Real.cos lat * Real.sin lon,
    (curvatureRadius lat * (1 - sqEccentricity) + altitude) * Real.sin lat⟩

/-- The axis of the Earth, as long as its rotation rate. -/
noncomputable def spin : Vec3 ℝ := ⟨0, 0, earthRotation⟩

/-- The radicand is positive at every latitude. -/
theorem radicand_pos (lat : ℝ) : 0 < 1 - sqEccentricity * Real.sin lat ^ 2 := by
  obtain ⟨hpos, hlt⟩ := earthFlattening_mem
  have hpolar : 0 < (1 - earthFlattening : ℝ) ^ 2 := pow_pos (sub_pos.mpr hlt) 2
  have hecc : 0 ≤ sqEccentricity := by
    rw [sqEccentricity_eq]
    exact mul_nonneg hpos.le (by linarith)
  have hsin := mul_le_mul_of_nonneg_left (Real.sin_sq_le_one lat) hecc
  have hrest : 1 - sqEccentricity = (1 - earthFlattening) ^ 2 := by
    rw [sqEccentricity_eq]
    ring
  linarith

/-- Three finite numbers each are a position and a velocity. -/
theorem ofComponents_toList (position velocity : Vec3 ℝ) :
    ofComponents position.toList velocity.toList = .ok ⟨position, velocity⟩ := rfl

variable {latitude : ℝ}

private theorem mem_latitudes :
    -90.0 ≤ latitude ∧ latitude ≤ 90.0 ↔ latitude ∈ Set.Icc (-90) 90 := by
  norm_num

/-- A latitude beyond a pole is refused. -/
theorem ofGroundSite_eq_error (h : latitude ∉ Set.Icc (-90) 90) (longitude altitude sidereal : ℝ) :
    ofGroundSite latitude longitude altitude sidereal = .error (.latitude latitude) := by
  have hbeyond : ¬(-90.0 ≤ latitude ∧ latitude ≤ 90.0) := fun hin => h (mem_latitudes.mp hin)
  unfold ofGroundSite
  rw [if_pos hbeyond]
  rfl

/-- Every other latitude has a site, at rest on the turning Earth. -/
theorem ofGroundSite_eq_ok (h : latitude ∈ Set.Icc (-90) 90) (longitude altitude sidereal : ℝ) :
    ofGroundSite latitude longitude altitude sidereal = .ok
      ⟨sitePosition (Scalar.radians latitude) (Scalar.radians longitude + sidereal) altitude,
        Vec3.cross spin (sitePosition (Scalar.radians latitude)
          (Scalar.radians longitude + sidereal) altitude)⟩ := by
  have hbetween : ¬¬(-90.0 ≤ latitude ∧ latitude ≤ 90.0) := not_not.mpr (mem_latitudes.mpr h)
  have hradicand := radicand_pos (Scalar.radians latitude)
  have hroot : Scalar.squareRoot (1 - sqEccentricity * Scalar.sin (Scalar.radians latitude) ^ 2) =
        .ok √(1 - sqEccentricity * Real.sin (Scalar.radians latitude) ^ 2) :=
    squareRoot_eq_ok hradicand.le
  unfold ofGroundSite
  rw [if_neg hbetween]
  simp only [ok_bind, angle_eq, square_eq, zero_literal, one_literal, two_literal,
    ← sqEccentricity_eq]
  rw [hroot, ok_bind, divide_eq_ok _ (Real.sqrt_pos.mpr hradicand).ne', ok_bind,
    ofComponents_toList]
  rfl

end Station

end AdmissibleRegion
