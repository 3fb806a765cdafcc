import AdmissibleRegion.Construction
import AdmissibleRegion.Proofs.Noted
import AdmissibleRegion.Proofs.Station

/-!
# Turning the frame about the axis of the angles

The first axis of the frame may point anywhere in the plane of the right ascension. If the right
ascension and the station turn by the same angle about the third axis, so do all vectors a
construction computes with, and what it takes of them are scalar products; nothing of its
outcome changes. A ground site turns with the sidereal angle.
-/

namespace AdmissibleRegion

open Scalar (square_eq angle_eq)

namespace Vec3

/-- A vector turned by an angle about the third axis. -/
noncomputable def turned (d : ℝ) (a : Vec3 ℝ) : Vec3 ℝ :=
  ⟨Real.cos d * a.x - Real.sin d * a.y, Real.sin d * a.x + Real.cos d * a.y, a.z⟩

variable (d : ℝ) (a b : Vec3 ℝ)

theorem turned_add : turned d (a + b) = turned d a + turned d b := by
  ext <;> simp only [turned, add_x, add_y, add_z] <;> ring

theorem turned_scale (c : ℝ) : turned d (scale c a) = scale c (turned d a) := by
  ext <;> simp only [turned, scale] <;> ring

/-- Turning keeps scalar products. -/
theorem dot_turned : dot (turned d a) (turned d b) = dot a b := by
  simp only [dot, turned]
  linear_combination (a.x * b.x + a.y * b.y) * Real.sin_sq_add_cos_sq d

theorem squaredNorm_turned : squaredNorm (turned d a) = squaredNorm a :=
  dot_turned d a a

/-- The vector product turns with its factors. -/
theorem cross_turned : cross (turned d a) (turned d b) = turned d (cross a b) := by
  ext
  · simp only [cross, turned]
    ring
  · simp only [cross, turned]
    ring
  · simp only [cross, turned]
    linear_combination (a.x * b.y - a.y * b.x) * Real.sin_sq_add_cos_sq d

end Vec3

open Vec3

/-- A line of sight turned by an angle. -/
noncomputable def Sightline.turned (d : ℝ) (s : Sightline ℝ) : Sightline ℝ :=
  ⟨s.direction.turned d, s.byRa.turned d, s.byDec.turned d⟩

/-- The line of sight turns with the right ascension. -/
theorem Sightline.frame_turned (d ra dec : ℝ) : frame (ra + d) dec = (frame ra dec).turned d := by
  unfold frame turned Vec3.turned
  simp only [Real.cos_add, Real.sin_add, Sightline.mk.injEq, Vec3.mk.injEq, and_true]
  refine ⟨⟨?_, ?_⟩, ⟨?_, ?_⟩, ?_, ?_⟩ <;> ring

/-- A station turned by an angle. -/
noncomputable def Station.turned (d : ℝ) (s : Station ℝ) : Station ℝ :=
  ⟨s.position.turned d, s.velocity.turned d⟩

/-- The coefficients of an optical measurement do not depend on the first axis. -/
theorem Optical.ofMeasurement_turned (d ra dec raRate decRate : ℝ) (station : Station ℝ) (mu : ℝ) :
    ofMeasurement (ra + d) dec raRate decRate (station.turned d) mu =
      ofMeasurement ra dec raRate decRate station mu := by
  unfold ofMeasurement
  simp only [Sightline.of_eq, ok_bind, Sightline.frame_turned, Sightline.turned, Station.turned,
    ← turned_scale, ← turned_add, cross_turned, dot_turned, squaredNorm_turned]

/-- Neither do those of a ranging measurement. -/
theorem Ranging.ofMeasurement_turned (d ra dec range rangeRate : ℝ) (station : Station ℝ)
    (mu : ℝ) :
    ofMeasurement (ra + d) dec range rangeRate (station.turned d) mu =
      ofMeasurement ra dec range rangeRate station mu := by
  unfold ofMeasurement
  simp only [Sightline.of_eq, ok_bind, Sightline.frame_turned, Sightline.turned, Station.turned,
    ← turned_scale, ← turned_add, cross_turned, dot_turned, squaredNorm_turned]

namespace Station

/-- The position of a site turns with its angle from the first axis. -/
theorem sitePosition_turned (d lat lon altitude : ℝ) :
    sitePosition lat (lon + d) altitude = (sitePosition lat lon altitude).turned d := by
  unfold sitePosition Vec3.turned
  rw [Real.cos_add, Real.sin_add]
  ext
  · ring
  · ring
  · rfl

/-- Turning about the axis of the Earth leaves it where it is. -/
theorem spin_turned (d : ℝ) : spin.turned d = spin := by
  ext <;> simp [spin, Vec3.turned]

/-- A ground site turns with the sidereal angle. -/
theorem ofGroundSite_turned (d latitude longitude altitude sidereal : ℝ) :
    ofGroundSite latitude longitude altitude (sidereal + d) =
      (ofGroundSite latitude longitude altitude sidereal).map (turned d) := by
  by_cases h : latitude ∈ Set.Icc (-90) 90
  · rw [ofGroundSite_eq_ok h, ofGroundSite_eq_ok h, ← add_assoc, sitePosition_turned, Except.map,
      turned, ← cross_turned, spin_turned]
  · rw [ofGroundSite_eq_error h, ofGroundSite_eq_error h]
    rfl

/-- The sum of two angles in degrees is that of both in radians. -/
theorem radians_add (a b : ℝ) : Scalar.radians (a + b) = Scalar.radians a + Scalar.radians b :=
  add_mul a b _

/-- An angle may be counted in the longitude or in the sidereal angle. -/
theorem ofGroundSite_shifted (angle latitude longitude altitude sidereal : ℝ) :
    ofGroundSite latitude (longitude + angle) altitude (sidereal - Scalar.radians angle) =
      ofGroundSite latitude longitude altitude sidereal := by
  have hsum : Scalar.radians (longitude + angle) + (sidereal - Scalar.radians angle) =
      Scalar.radians longitude + sidereal := by
    rw [radians_add]
    ring
  by_cases h : latitude ∈ Set.Icc (-90) 90
  · rw [ofGroundSite_eq_ok h, ofGroundSite_eq_ok h, hsum]
  · rw [ofGroundSite_eq_error h, ofGroundSite_eq_error h]

end Station

/-- A measurement whose right ascension is turned by an angle. -/
def turnedMeasurement (d : ℝ) : List ℝ → List ℝ
  | [] => []
  | ra :: rest => (ra + d) :: rest

namespace Request

/-- A request whose right ascension and station are turned by an angle. -/
noncomputable def turned (d : ℝ) (r : Request ℝ) : Request ℝ :=
  { r with measurement := turnedMeasurement d r.measurement, station := r.station.turned d }

/-- The arguments are as good as before. -/
theorem problems_turned (d : ℝ) (r : Request ℝ) : (r.turned d).problems = r.problems := by
  have hfinite : ∀ values : List ℝ, values.all Scalar.isFinite = true := fun values =>
    List.all_eq_true.mpr fun _ _ => rfl
  have hlength : (turnedMeasurement d r.measurement).length = r.measurement.length := by
    cases r.measurement <;> rfl
  unfold problems problemIf turned
  simp only [hfinite, hlength, not_true_eq_false, ite_false]

/-- Every sample of the grid is as before. -/
theorem samples_turned (d : ℝ) (r : Request ℝ) (roots : RootFinder ℝ) :
    (r.turned d).samples roots = r.samples roots := by
  obtain ⟨measurement, station, sigma1, sigma2, step, amin, amax, emax, model, table, mu, budget,
    strict⟩ := r
  unfold samples turned
  match measurement with
  | [ra, dec, m3, m4] =>
    dsimp only [turnedMeasurement]
    rw [Optical.ofMeasurement_turned, Ranging.ofMeasurement_turned]
  | [] => rfl
  | [_] => rfl
  | [_, _] => rfl
  | [_, _, _] => rfl
  | _ :: _ :: _ :: _ :: _ :: _ => rfl

/-- The construction of a request whose observer is a ground site. -/
noncomputable def constructAtSite (solvers : Solvers ℝ) (r : Request ℝ)
    (latitude longitude altitude sidereal : ℝ) : Noted ℝ (Construction ℝ) := do
  let station ← Station.ofGroundSite latitude longitude altitude sidereal
  construct solvers { r with station }

/-- The outcome of a construction is as before. -/
theorem construct_turned (d : ℝ) (r : Request ℝ) (solvers : Solvers ℝ) :
    construct solvers (r.turned d) = construct solvers r := by
  unfold construct
  rw [problems_turned, samples_turned]
  rfl

/-- So is that of a construction from a ground site. -/
theorem constructAtSite_turned (d : ℝ) (r : Request ℝ) (solvers : Solvers ℝ)
    (latitude longitude altitude sidereal : ℝ) :
    (r.turned d).constructAtSite solvers latitude longitude altitude (sidereal + d) =
      r.constructAtSite solvers latitude longitude altitude sidereal := by
  unfold constructAtSite
  rw [Station.ofGroundSite_turned]
  cases Station.ofGroundSite latitude longitude altitude sidereal with
  | error fault => rfl
  | ok station => exact construct_turned d { r with station } solvers

/-- The first axis does not matter: when the right ascension and the station turn by one angle,
the coefficients of either measurement, every sample of the grid and the outcome of the
construction are as before. For a ground site it is enough to turn the sidereal angle, which may
also be counted in the longitude. -/
theorem outcome_independent_of_firstAxis (d : ℝ) :
    (∀ ra dec raRate decRate (station : Station ℝ) mu,
      Optical.ofMeasurement (ra + d) dec raRate decRate (station.turned d) mu =
        Optical.ofMeasurement ra dec raRate decRate station mu) ∧
    (∀ ra dec range rangeRate (station : Station ℝ) mu,
      Ranging.ofMeasurement (ra + d) dec range rangeRate (station.turned d) mu =
        Ranging.ofMeasurement ra dec range rangeRate station mu) ∧
    (∀ (r : Request ℝ) (roots : RootFinder ℝ), (r.turned d).samples roots = r.samples roots) ∧
    (∀ (r : Request ℝ) (solvers : Solvers ℝ),
      construct solvers (r.turned d) = construct solvers r) ∧
    (∀ (r : Request ℝ) (solvers : Solvers ℝ) latitude longitude altitude sidereal,
      (r.turned d).constructAtSite solvers latitude longitude altitude (sidereal + d) =
        r.constructAtSite solvers latitude longitude altitude sidereal) ∧
    ∀ latitude longitude altitude sidereal : ℝ,
      Station.ofGroundSite latitude (longitude + d) altitude (sidereal - Scalar.radians d) =
        Station.ofGroundSite latitude longitude altitude sidereal := by
  refine ⟨?_, ?_, ?_, ?_, ?_, ?_⟩
  · exact Optical.ofMeasurement_turned d
  · exact Ranging.ofMeasurement_turned d
  · exact samples_turned d
  · exact construct_turned d
  · exact constructAtSite_turned d
  · exact Station.ofGroundSite_shifted d

end Request

end AdmissibleRegion
