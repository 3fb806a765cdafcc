import AdmissibleRegion.Proofs.Turning

/-!
# Ground sites on the ellipsoid

The Earth is an ellipsoid of revolution. A ground site stands on the outward normal of its surface
that points to the zenith, the direction at the geodetic latitude of the site, and its altitude is
the height above the foot of this normal. It moves along its parallel with the turning Earth.
-/

namespace AdmissibleRegion

open Vec3

namespace Earth

open Constants

/-- The polar radius of the Earth. -/
noncomputable def polarRadius : ℝ := earthRadius * (1 - earthFlattening)

/-- A function of the position that is one on the surface of the Earth, less below it and greater
above. -/
noncomputable def level (p : Vec3 ℝ) : ℝ :=
  (p.x ^ 2 + p.y ^ 2) / earthRadius ^ 2 + p.z ^ 2 / polarRadius ^ 2

/-- A vector of length one that points where the level rises fastest. -/
structure IsOutwardNormal (n p : Vec3 ℝ) : Prop where
  /-- The length is one. -/
  squaredNorm_eq : squaredNorm n = 1
  /-- The derivative of the level along any vector is a positive multiple of the scalar product. -/
  hasDerivAt : ∃ c > 0, ∀ v, HasDerivAt (fun t => level (p + scale t v)) (c * dot v n) 0

theorem polarRadius_pos : 0 < polarRadius :=
  mul_pos earthRadius_pos (sub_pos.mpr earthFlattening_mem.2)

/-- Half the gradient of the level. -/
noncomputable def halfGradient (p : Vec3 ℝ) : Vec3 ℝ :=
  ⟨p.x / earthRadius ^ 2, p.y / earthRadius ^ 2, p.z / polarRadius ^ 2⟩

theorem level_eq_dot (p : Vec3 ℝ) : level p = dot p (halfGradient p) := by
  simp only [level, halfGradient, dot]
  ring

/-- Along a line, the level is a quadratic function. -/
theorem level_add_scale (p v : Vec3 ℝ) (t : ℝ) :
    level (p + scale t v) = level p + t * (2 * dot v (halfGradient p)) + t ^ 2 * level v := by
  simp only [level, halfGradient, dot, scale, add_x, add_y, add_z]
  ring

theorem hasDerivAt_level (p v : Vec3 ℝ) :
    HasDerivAt (fun t => level (p + scale t v)) (2 * dot v (halfGradient p)) 0 := by
  simp only [level_add_scale]
  have hlinear := (hasDerivAt_id (0 : ℝ)).mul_const (2 * dot v (halfGradient p))
  have hsquare := (hasDerivAt_pow 2 (0 : ℝ)).mul_const (level v)
  exact ((hlinear.const_add (level p)).add hsquare).congr_deriv (by simp)

end Earth

namespace Station

open Constants Earth

/-- The direction of the zenith at a latitude and an angle from the first axis. -/
noncomputable def zenith (lat lon : ℝ) : Vec3 ℝ :=
  ⟨Real.cos lat * Real.cos lon, Real.cos lat * Real.sin lon, Real.sin lat⟩

variable (lat lon : ℝ)

theorem squaredNorm_zenith : squaredNorm (zenith lat lon) = 1 := by
  simp only [squaredNorm, dot, zenith]
  linear_combination Real.cos lat ^ 2 * Real.sin_sq_add_cos_sq lon + Real.sin_sq_add_cos_sq lat

/-- A site is in the zenith of the site without altitude. -/
theorem sitePosition_eq_add (altitude : ℝ) :
    sitePosition lat lon altitude = sitePosition lat lon 0 + scale altitude (zenith lat lon) := by
  ext <;> simp only [sitePosition, zenith, scale, add_x, add_y, add_z] <;> ring

/-- The eccentricity of a meridian is that of its two radii. -/
theorem sq_polarRadius : polarRadius ^ 2 = earthRadius ^ 2 * (1 - sqEccentricity) := by
  rw [polarRadius, sqEccentricity_eq]
  ring

theorem curvatureRadius_pos : 0 < curvatureRadius lat :=
  div_pos earthRadius_pos (Real.sqrt_pos.mpr (radicand_pos lat))

theorem sq_curvatureRadius :
    curvatureRadius lat ^ 2 * (1 - sqEccentricity * Real.sin lat ^ 2) = earthRadius ^ 2 := by
  rw [curvatureRadius, div_pow, Real.sq_sqrt (radicand_pos lat).le,
    div_mul_cancel₀ _ (radicand_pos lat).ne']

/-- At a site without altitude, the gradient of the level points to the zenith. -/
theorem halfGradient_sitePosition : halfGradient (sitePosition lat lon 0) =
    scale (curvatureRadius lat / earthRadius ^ 2) (zenith lat lon) := by
  have ha : (earthRadius : ℝ) ≠ 0 := earthRadius_pos.ne'
  have hrest : 1 - sqEccentricity ≠ 0 := by
    intro h
    have hpolar := sq_polarRadius
    rw [h, mul_zero] at hpolar
    exact (pow_pos polarRadius_pos 2).ne' hpolar
  ext
  · simp only [halfGradient, sitePosition, zenith, scale]
    ring
  · simp only [halfGradient, sitePosition, zenith, scale]
    ring
  · simp only [halfGradient, sitePosition, zenith, scale, sq_polarRadius]
    field_simp
    ring

theorem dot_sitePosition_zenith : dot (sitePosition lat lon 0) (zenith lat lon) =
    curvatureRadius lat * (1 - sqEccentricity * Real.sin lat ^ 2) := by
  simp only [dot, sitePosition, zenith]
  linear_combination curvatureRadius lat *
    (Real.cos lat ^ 2 * Real.sin_sq_add_cos_sq lon + Real.sin_sq_add_cos_sq lat)

/-- A site without altitude is on the surface. -/
theorem level_sitePosition : level (sitePosition lat lon 0) = 1 := by
  have ha : (earthRadius : ℝ) ^ 2 ≠ 0 := (pow_pos earthRadius_pos 2).ne'
  rw [level_eq_dot, halfGradient_sitePosition, dot_scale_right, dot_sitePosition_zenith,
    div_mul_eq_mul_div, ← mul_assoc, ← sq, sq_curvatureRadius, div_self ha]

/-- The zenith is the outward normal there. -/
theorem isOutwardNormal_zenith : IsOutwardNormal (zenith lat lon) (sitePosition lat lon 0) where
  squaredNorm_eq := squaredNorm_zenith lat lon
  hasDerivAt := by
    have hcurvature := curvatureRadius_pos lat
    have hradius := earthRadius_pos
    refine ⟨2 * (curvatureRadius lat / earthRadius ^ 2), by positivity, fun v => ?_⟩
    have hderiv := hasDerivAt_level (sitePosition lat lon 0) v
    rwa [halfGradient_sitePosition, dot_scale_right, ← mul_assoc] at hderiv

/-- A point turns at right angles to the axis of the Earth. -/
theorem dot_cross_spin_axis (p : Vec3 ℝ) : dot (cross spin p) ⟨0, 0, 1⟩ = 0 := by
  simp only [dot, cross, spin]
  ring

/-- Its speed is the rotation rate times its distance from the axis. -/
theorem norm_cross_spin (p : Vec3 ℝ) :
    norm (cross spin p) = earthRotation * √(p.x ^ 2 + p.y ^ 2) := by
  have hsquare : squaredNorm (cross spin p) = earthRotation ^ 2 * (p.x ^ 2 + p.y ^ 2) := by
    simp only [squaredNorm, dot, cross, spin]
    ring
  rw [norm_eq_sqrt, hsquare, Real.sqrt_mul (sq_nonneg _), Real.sqrt_sq earthRotation_pos.le]

/-- Every latitude from pole to pole has a site. It stands on the outward normal of the ellipsoid
that points to its zenith, as high above the foot as its altitude says, moves eastwards along its
parallel at the speed of the turning Earth, and turns with the sidereal angle. -/
theorem stands_on_normal {latitude : ℝ} (h : latitude ∈ Set.Icc (-90) 90)
    (longitude altitude sidereal : ℝ) :
    0 < 1 - sqEccentricity * Real.sin (Scalar.radians latitude) ^ 2 ∧
    ∃ site, ofGroundSite latitude longitude altitude sidereal = .ok site ∧
      (∃ foot n, n = zenith (Scalar.radians latitude) (Scalar.radians longitude + sidereal) ∧
        site.position = foot + scale altitude n ∧ level foot = 1 ∧ IsOutwardNormal n foot) ∧
      site.velocity = cross spin site.position ∧
      dot site.velocity site.position = 0 ∧ dot site.velocity ⟨0, 0, 1⟩ = 0 ∧
      norm site.velocity = earthRotation * √(site.position.x ^ 2 + site.position.y ^ 2) ∧
      ∀ d, ofGroundSite latitude longitude altitude (sidereal + d) = .ok (site.turned d) := by
  have hsite := ofGroundSite_eq_ok h longitude altitude sidereal
  refine ⟨radicand_pos _, _, hsite, ?_, rfl, ?_, ?_, ?_, fun d => ?_⟩
  · exact ⟨_, _, rfl, sitePosition_eq_add _ _ altitude, level_sitePosition _ _,
      isOutwardNormal_zenith _ _⟩
  · exact dot_cross_right spin _
  · exact dot_cross_spin_axis _
  · exact norm_cross_spin _
  · rw [ofGroundSite_turned, hsite]
    rfl

/-- A mountain at 35 degrees north stands on the normal of its foot, at its height, and turns with
the Earth. -/
theorem stands_on_normal_mountain : (35 : ℝ) ∈ Set.Icc (-90) 90 ∧
    ∃ site, ofGroundSite (35 : ℝ) (-106.6) 1.6 1.234 = .ok site ∧
      (∃ foot n, n = zenith (Scalar.radians 35) (Scalar.radians (-106.6) + 1.234) ∧
        site.position = foot + scale 1.6 n ∧ level foot = 1 ∧ IsOutwardNormal n foot) ∧
      site.velocity = cross spin site.position ∧
      dot site.velocity site.position = 0 ∧ dot site.velocity ⟨0, 0, 1⟩ = 0 ∧
      norm site.velocity = earthRotation * √(site.position.x ^ 2 + site.position.y ^ 2) ∧
      ofGroundSite (35 : ℝ) (-106.6) 1.6 (1.234 + Real.pi) = .ok (site.turned Real.pi) := by
  have hlatitude : (35 : ℝ) ∈ Set.Icc (-90) 90 := by norm_num
  obtain ⟨_, site, hsite, hnormal, hvelocity, hposition, haxis, hspeed, hturned⟩ :=
    stands_on_normal hlatitude (-106.6) 1.6 1.234
  exact ⟨hlatitude, site, hsite, hnormal, hvelocity, hposition, haxis, hspeed, hturned Real.pi⟩

end Station

end AdmissibleRegion
