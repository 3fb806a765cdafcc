import AdmissibleRegion.Proofs.Optical.Grid

/-!
# How far the grid of ranges reaches

The grid ends at twice the greatest semi-major axis, wherever the station is. An object is never
farther from the centre than the apogee of its orbit, so the grid reaches every allowed orbit
seen from a station inside the least perigee of the greatest axis. From every distance beyond,
an allowed orbit can be out of its reach.
-/

namespace AdmissibleRegion

open Vec3

namespace Vec3

theorem norm_nonneg (a : Vec3 ℝ) : 0 ≤ norm a := Real.sqrt_nonneg _

/-- A scalar product is at most the product of the lengths. -/
theorem abs_dot_le (a b : Vec3 ℝ) : |dot a b| ≤ norm a * norm b := by
  have hcross := squaredNorm_nonneg (cross a b)
  rw [squaredNorm_cross, sub_nonneg, ← norm_sq, ← norm_sq, ← mul_pow] at hcross
  exact abs_le_of_sq_le_sq hcross (mul_nonneg (norm_nonneg a) (norm_nonneg b))

end Vec3

namespace Orbit

variable {mu : ℝ} {r v : Vec3 ℝ}

/-- A closed orbit does not lead through the centre. -/
theorem norm_pos_of_semiMajorAxis_pos (hmu : 0 < mu) (ha : 0 < semiMajorAxis mu r v) :
    0 < norm r := by
  refine (norm_nonneg r).lt_of_ne' fun hr => ?_
  -- the energy at the centre would be that of the motion alone
  have henergy : 0 ≤ 2 * energy mu r v := by
    rw [energy_eq_sub, hr, div_zero, sub_zero]
    have hspeed := squaredNorm_nonneg v
    positivity
  rw [semiMajorAxis_eq, neg_div, neg_pos] at ha
  exact ha.not_ge (div_nonneg hmu.le henergy)

/-- The distance from the centre is between those of perigee and apogee. -/
theorem abs_norm_sub_le (hmu : 0 < mu) (ha : 0 < semiMajorAxis mu r v) :
    |norm r - semiMajorAxis mu r v| ≤ semiMajorAxis mu r v * eccentricity mu r v := by
  have hr := norm_pos_of_semiMajorAxis_pos hmu ha
  have henergy := energy_eq_div ha.ne'
  have hshape := sq_eccentricity (v := v) hmu.ne' hr
  have hspeed : squaredNorm v = 2 * mu / norm r - mu / semiMajorAxis mu r v := by
    rw [energy_eq_sub] at henergy
    field_simp at henergy ⊢
    linarith
  have hmomentum : squaredNorm (cross r v) ≤ norm r ^ 2 * squaredNorm v := by
    rw [squaredNorm_cross, norm_sq, sub_le_self_iff]
    positivity
  have hsq : (norm r - semiMajorAxis mu r v) ^ 2 ≤
      (semiMajorAxis mu r v * eccentricity mu r v) ^ 2 := by
    set a := semiMajorAxis mu r v
    set e := eccentricity mu r v
    have hparameter : a * mu * (1 - e ^ 2) = squaredNorm (cross r v) := by
      rw [henergy] at hshape
      field_simp at hshape
      linarith
    rw [← hparameter, hspeed] at hmomentum
    have hscaled : a ^ 2 * (1 - e ^ 2) ≤ 2 * norm r * a - norm r ^ 2 := by
      have hmul : mu * (a ^ 2 * (1 - e ^ 2)) ≤ mu * (2 * norm r * a - norm r ^ 2) := by
        calc mu * (a ^ 2 * (1 - e ^ 2)) = a * (a * mu * (1 - e ^ 2)) := by ring
          _ ≤ a * (norm r ^ 2 * (2 * mu / norm r - mu / a)) :=
            mul_le_mul_of_nonneg_left hmomentum ha.le
          _ = mu * (2 * norm r * a - norm r ^ 2) := by
            field_simp
      exact le_of_mul_le_mul_left hmul hmu
    linarith
  exact abs_le_of_sq_le_sq hsq (mul_nonneg ha.le eccentricity_nonneg)

end Orbit

namespace Sighting

/-- The orbit at a range with a range rate is inside the bounds or on them. -/
structure Allows (m : Sighting) (mu amin amax emax range rangeRate : ℝ) : Prop where
  amin_le : amin ≤ Orbit.semiMajorAxis mu (m.position range) (m.velocity range rangeRate)
  le_amax : Orbit.semiMajorAxis mu (m.position range) (m.velocity range rangeRate) ≤ amax
  le_emax : Orbit.eccentricity mu (m.position range) (m.velocity range rangeRate) ≤ emax

variable {m : Sighting} {mu amin amax emax range rangeRate : ℝ}

/-- An object is at least as far from the centre as its range exceeds the distance of the
station. -/
theorem range_sub_le (m : Sighting) (hrange : 0 ≤ range) :
    range - norm m.station.position ≤ norm (m.position range) := by
  have hdot := abs_dot_le m.station.position m.sight.direction
  rw [norm_eq_sqrt m.sight.direction, m.squaredNorm_direction, Real.sqrt_one, mul_one] at hdot
  have hmul := mul_le_mul_of_nonneg_right (neg_le_of_abs_le hdot) hrange
  apply le_of_sq_le_sq _ (norm_nonneg _)
  rw [norm_sq, m.squaredNorm_position, ← norm_sq m.station.position]
  linarith

/-- The range of an allowed orbit is at most the distance of the station and that of the
greatest apogee. -/
theorem Allows.range_le (h : m.Allows mu amin amax emax range rangeRate) (hmu : 0 < mu)
    (hamin : 0 < amin) (hrange : 0 ≤ range) :
    range ≤ norm m.station.position + amax * (1 + emax) := by
  have hclosed := hamin.trans_le h.amin_le
  have hnorm := (abs_le.mp (Orbit.abs_norm_sub_le hmu hclosed)).2
  have hshape := mul_le_mul h.le_amax h.le_emax Orbit.eccentricity_nonneg
    (hclosed.le.trans h.le_amax)
  have hreach := m.range_sub_le hrange
  have hamax := h.le_amax
  linarith

end Sighting

namespace Optical

variable {g : Optical ℝ} {roots : RootFinder ℝ} {mu amin amax emax step : ℝ}

/-- The abscissas of a grid are the multiples of the step up to twice the greatest axis. -/
theorem map_abscissa_grid {samples : List (Sample ℝ)}
    (h : g.grid roots step amin amax emax = .ok samples) :
    samples.map Sample.abscissa =
      (List.range (⌊2 * amax / step⌋ + 1).toNat).map fun k : ℕ => k * step := by
  obtain ⟨hamin, hamax, hstep⟩ := ne_zero_of_grid h
  rw [grid_eq_mapM hamin hamax hstep] at h
  have hall := (forall₂_of_mapM h).imp fun k s hs => abscissa_of_sampleAt hs
  rw [← List.forall₂_eq_eq_eq, List.forall₂_map_left_iff, List.forall₂_map_right_iff]
  exact hall.flip

/-- Whether every allowed range is less than one step beyond the last sample. -/
def Covers (m : Sighting) (mu amin amax emax step : ℝ) (samples : List (Sample ℝ)) : Prop :=
  ∀ range rangeRate, 0 ≤ range → m.Allows mu amin amax emax range rangeRate →
    ∃ last, samples.getLast? = some last ∧ range < last.abscissa + step

/-- The last abscissa of a grid. -/
theorem exists_getLast?_grid {samples : List (Sample ℝ)} (hamax : 0 < amax) (hstep : 0 < step)
    (h : g.grid roots step amin amax emax = .ok samples) :
    ∃ last, samples.getLast? = some last ∧ last.abscissa = ⌊2 * amax / step⌋ * step := by
  have hfloor : 0 ≤ ⌊2 * amax / step⌋ := Int.floor_nonneg.mpr (by positivity)
  obtain ⟨n, hn⟩ := Int.eq_ofNat_of_zero_le hfloor
  have hmap := congrArg List.getLast? (map_abscissa_grid h)
  rw [hn, List.getLast?_map, List.getLast?_map] at hmap
  rw [hn]
  have hrange : (List.range ((n : ℤ) + 1).toNat).getLast? = some n := by
    have hsize : ((n : ℤ) + 1).toNat = n + 1 := by omega
    rw [hsize, List.range_succ, List.getLast?_concat]
  rw [hrange, Option.map_some, Option.map_eq_some_iff] at hmap
  obtain ⟨last, hlast, hat⟩ := hmap
  refine ⟨last, hlast, ?_⟩
  rw [hat, Int.cast_natCast]

/-- A station on the axis of the right ascension, at a distance behind the centre, moving at
right angles to the line of sight through it. -/
noncomputable def behind (distance speed : ℝ) : Sighting where
  ra := 0
  dec := 0
  raRate := 0
  decRate := 0
  station := ⟨⟨-distance, 0, 0⟩, ⟨0, speed, 0⟩⟩

section Behind

variable (distance speed range : ℝ)

theorem position_behind :
    (behind distance speed).position range = ⟨range - distance, 0, 0⟩ := by
  ext <;> simp [Sighting.position, Sighting.sight, Sightline.frame, behind, scale]
  ring

theorem velocity_behind : (behind distance speed).velocity range 0 = ⟨0, speed, 0⟩ := by
  ext <;> simp [Sighting.velocity, Sighting.rate, Sighting.sight, Sightline.rate,
    Sightline.frame, behind, scale]

theorem norm_position_behind :
    norm ((behind distance speed).position range) = |range - distance| := by
  rw [position_behind, norm_eq_sqrt, ← Real.sqrt_sq_eq_abs]
  simp [squaredNorm, dot, sq]

theorem squaredNorm_velocity_behind :
    squaredNorm ((behind distance speed).velocity range 0) = speed ^ 2 := by
  rw [velocity_behind, squaredNorm, dot]
  ring

theorem squaredNorm_momentum_behind :
    squaredNorm (cross ((behind distance speed).position range)
      ((behind distance speed).velocity range 0)) = (range - distance) ^ 2 * speed ^ 2 := by
  rw [position_behind, velocity_behind]
  simp only [squaredNorm, dot, cross]
  ring

theorem norm_station_behind (hdistance : 0 ≤ distance) :
    norm (behind distance speed).station.position = distance := by
  rw [norm_eq_sqrt]
  simp [behind, squaredNorm, dot, Real.sqrt_mul_self hdistance]

end Behind

/-- The speed at the apogee of the greatest axis and the greatest eccentricity. -/
noncomputable def apogeeSpeed (mu amax emax : ℝ) : ℝ :=
  √(mu / amax * ((1 - emax) / (1 + emax)))

section Apogee

variable (hmu : 0 < mu) (hamin : 0 < amin) (hlt : amin < amax) (hemax0 : 0 ≤ emax)
  (hemax1 : emax < 1)

include hmu hamin hlt hemax0 hemax1

/-- With the speed of the apogee, the object at its distance has just the greatest axis and the
greatest eccentricity. -/
theorem allows_behind (distance : ℝ) :
    (behind distance (apogeeSpeed mu amax emax)).Allows mu amin amax emax
      (distance + amax * (1 + emax)) 0 := by
  have hamax : 0 < amax := hamin.trans hlt
  have hplus : 0 < 1 + emax := by linarith
  have hminus : 0 ≤ 1 - emax := by linarith
  have hspeed : apogeeSpeed mu amax emax ^ 2 = mu / amax * ((1 - emax) / (1 + emax)) :=
    Real.sq_sqrt (by positivity)
  have hnorm : norm ((behind distance (apogeeSpeed mu amax emax)).position
      (distance + amax * (1 + emax))) = amax * (1 + emax) := by
    rw [norm_position_behind, add_sub_cancel_left, abs_of_pos (mul_pos hamax hplus)]
  have henergy : Orbit.energy mu
      ((behind distance (apogeeSpeed mu amax emax)).position (distance + amax * (1 + emax)))
      ((behind distance (apogeeSpeed mu amax emax)).velocity (distance + amax * (1 + emax)) 0) =
        -mu / (2 * amax) := by
    rw [Orbit.energy_eq_sub, hnorm, squaredNorm_velocity_behind, hspeed]
    field_simp
    ring
  have haxis : Orbit.semiMajorAxis mu
      ((behind distance (apogeeSpeed mu amax emax)).position (distance + amax * (1 + emax)))
      ((behind distance (apogeeSpeed mu amax emax)).velocity (distance + amax * (1 + emax)) 0) =
        amax := by
    rw [Orbit.semiMajorAxis_eq, henergy]
    field_simp
  refine ⟨haxis.symm ▸ hlt.le, haxis.le, ?_⟩
  have hshape := Orbit.sq_eccentricity
    (v := (behind distance (apogeeSpeed mu amax emax)).velocity (distance + amax * (1 + emax)) 0)
    hmu.ne' (hnorm ▸ mul_pos hamax hplus)
  have hsame : mu ^ 2 * (emax ^ 2 - 1) = 2 * (-mu / (2 * amax)) *
      ((amax * (1 + emax)) ^ 2 * (mu / amax * ((1 - emax) / (1 + emax)))) := by
    field_simp
    ring
  rw [henergy, squaredNorm_momentum_behind, add_sub_cancel_left, hspeed, ← hsame,
    mul_right_inj' (pow_ne_zero 2 hmu.ne'), sub_left_inj] at hshape
  exact ((sq_eq_sq₀ Orbit.eccentricity_nonneg hemax0).mp hshape).le

/-- The grid does not reach the apogee behind the centre if the station is more than a step
beyond the perigee on the other side. -/
theorem exists_not_covers_behind (hroots : roots.Exact) {distance : ℝ} (hstep : 0 < step)
    (hfar : amax * (1 - emax) + step ≤ distance) (hcentre : ∀ k : ℕ, k * step ≠ distance) :
    ∃ g samples, ofMeasurement 0 0 0 0 (behind distance (apogeeSpeed mu amax emax)).station mu =
        .ok g ∧
      g.grid roots step amin amax emax = .ok samples ∧
      ¬Covers (behind distance (apogeeSpeed mu amax emax)) mu amin amax emax step samples := by
  have hamax : 0 < amax := hamin.trans hlt
  have hdistance : 0 ≤ distance := by
    have hperigee : 0 < amax * (1 - emax) := mul_pos hamax (sub_pos.mpr hemax1)
    linarith
  obtain ⟨g, hg, h⟩ := exists_ofMeasurement (behind distance (apogeeSpeed mu amax emax)) mu
  obtain ⟨samples, hsamples⟩ := h.exists_grid hroots hmu hamin.ne' hamax.ne' hemax0 hemax1 hstep
    fun k _ => by
      rw [norm_position_behind]
      exact abs_pos.mpr (sub_ne_zero.mpr (hcentre k))
  refine ⟨g, samples, hg, hsamples, fun hcovers => ?_⟩
  have hrange : 0 ≤ distance + amax * (1 + emax) := by positivity
  obtain ⟨last, hlast, hreach⟩ :=
    hcovers _ 0 hrange (allows_behind hmu hamin hlt hemax0 hemax1 distance)
  obtain ⟨last', hlast', hat⟩ := exists_getLast?_grid hamax hstep hsamples
  obtain rfl := Option.some.inj (hlast.symm.trans hlast')
  have hend : last.abscissa ≤ 2 * amax := by
    rw [hat, ← le_div_iff₀ hstep]
    exact Int.floor_le _
  linarith

end Apogee

/-- Arbitrarily small steps lead past a distance. -/
theorem exists_step_ne {distance gap : ℝ} (hdistance : 0 < distance) (hgap : 0 < gap) :
    ∃ step, 0 < step ∧ step ≤ gap ∧ ∀ k : ℕ, k * step ≠ distance := by
  obtain ⟨n, hn⟩ := exists_nat_gt (distance / gap)
  have hn0 : (0 : ℝ) ≤ n := n.cast_nonneg
  have hsteps : 0 < (n : ℝ) + 1 / 2 := by positivity
  refine ⟨distance / (n + 1 / 2), div_pos hdistance hsteps, ?_, fun k hk => ?_⟩
  · rw [div_lt_iff₀ hgap] at hn
    rw [div_le_iff₀ hsteps]
    nlinarith
  · -- the distance is a half-integral number of steps
    have hhalf : (k : ℝ) = n + 1 / 2 := by
      field_simp at hk
      linarith
    have hodd : (2 * k : ℝ) = 2 * n + 1 := by linarith
    have hodd' : 2 * k = 2 * n + 1 := by exact_mod_cast hodd
    omega

/-- The abscissas of every grid are the multiples of the step up to twice the greatest axis. An
allowed range is at most the distance of the station and that of the greatest apogee, and the
grids of all stations at a distance reach all allowed ranges exactly if the distance is at most
that of the perigee of the greatest axis and eccentricity. -/
theorem grid_covers_iff (hroots : roots.Exact) (hmu : 0 < mu) (hamin : 0 < amin)
    (hlt : amin < amax) (hemax0 : 0 ≤ emax) (hemax1 : emax < 1) :
    (∀ m : Sighting, ∃ g,
      ofMeasurement m.ra m.dec m.raRate m.decRate m.station mu = .ok g ∧ ∀ step, 0 < step →
        ((∀ k : ℕ, k * step ≤ 2 * amax → 0 < norm (m.position (k * step))) →
          ∃ samples, g.grid roots step amin amax emax = .ok samples) ∧
        ∀ samples, g.grid roots step amin amax emax = .ok samples →
          samples.map Sample.abscissa =
            (List.range (⌊2 * amax / step⌋ + 1).toNat).map fun k : ℕ => k * step) ∧
    (∀ m : Sighting, ∀ range rangeRate, 0 ≤ range →
      m.Allows mu amin amax emax range rangeRate →
        range ≤ norm m.station.position + amax * (1 + emax)) ∧
    ∀ distance, 0 ≤ distance →
      ((∀ m : Sighting, norm m.station.position = distance → ∀ g step samples, 0 < step →
        ofMeasurement m.ra m.dec m.raRate m.decRate m.station mu = .ok g →
        g.grid roots step amin amax emax = .ok samples →
          Covers m mu amin amax emax step samples) ↔
        distance ≤ amax * (1 - emax)) := by
  have hamax : 0 < amax := hamin.trans hlt
  refine ⟨fun m => ?_, fun m range rangeRate hrange h => h.range_le hmu hamin hrange,
    fun distance hdistance => ⟨fun hall => ?_, fun hnear => ?_⟩⟩
  · obtain ⟨g, hg, h⟩ := exists_ofMeasurement m mu
    refine ⟨g, hg, fun step hstep => ⟨fun hcentre => ?_, fun samples => map_abscissa_grid⟩⟩
    exact h.exists_grid hroots hmu hamin.ne' hamax.ne' hemax0 hemax1 hstep hcentre
  · by_contra hfar
    rw [not_le] at hfar
    have hperigee : 0 < amax * (1 - emax) := mul_pos hamax (sub_pos.mpr hemax1)
    obtain ⟨step, hstep, hgap, hcentre⟩ :=
      exists_step_ne (hperigee.trans hfar) (sub_pos.mpr hfar)
    obtain ⟨g, samples, hg, hsamples, hlost⟩ := exists_not_covers_behind hmu hamin hlt hemax0
      hemax1 hroots hstep (by linarith) hcentre
    exact hlost (hall _ (norm_station_behind _ _ hdistance) g step samples hstep hg hsamples)
  · intro m hm g step samples hstep _ hsamples range rangeRate hrange h
    obtain ⟨last, hlast, hat⟩ := exists_getLast?_grid hamax hstep hsamples
    refine ⟨last, hlast, ?_⟩
    have hreach := h.range_le hmu hamin hrange
    have hend : 2 * amax < last.abscissa + step := by
      have hfloor := Int.lt_floor_add_one (2 * amax / step)
      rw [div_lt_iff₀ hstep] at hfloor
      linarith
    linarith

/-- From the station that an object passes at a distance of one, the grid of a greatest axis of
two and a greatest eccentricity of one half reaches all allowed ranges. -/
theorem grid_covers_iff_passing : RootFinder.Exact exactRoots ∧ ∃ g samples,
    ofMeasurement 0 0 0 0 passing.station 1 = .ok g ∧
    g.grid exactRoots 1 1 2 (1 / 2) = .ok samples ∧
    Covers passing 1 1 2 (1 / 2) 1 samples := by
  obtain ⟨hgrid, _, hcovers⟩ := grid_covers_iff exact_exactRoots one_pos one_pos one_lt_two
    one_half_pos.le one_half_lt_one
  obtain ⟨g, hg, hgrid⟩ := hgrid passing
  obtain ⟨samples, hsamples⟩ := (hgrid 1 one_pos).1 fun k _ =>
    norm_position_passing_pos (by positivity)
  have hdistance : norm passing.station.position = 1 := by
    rw [norm_eq_sqrt]
    simp [passing, squaredNorm, dot]
  have hnear : (1 : ℝ) ≤ 2 * (1 - 1 / 2) := by norm_num
  exact ⟨exact_exactRoots, g, samples, hg, hsamples,
    (hcovers 1 zero_le_one).mpr hnear passing hdistance g 1 samples one_pos hg hsamples⟩

/-- From a station at a distance of six and a half, the grid ends before the range of an allowed
orbit. -/
theorem not_covers_behind : RootFinder.Exact exactRoots ∧ ∃ g samples,
    ofMeasurement 0 0 0 0 (behind (13 / 2) (apogeeSpeed 1 2 (1 / 2))).station 1 = .ok g ∧
    g.grid exactRoots 1 1 2 (1 / 2) = .ok samples ∧
    ¬Covers (behind (13 / 2) (apogeeSpeed 1 2 (1 / 2))) 1 1 2 (1 / 2) 1 samples := by
  have hcentre : ∀ k : ℕ, (k : ℝ) * 1 ≠ 13 / 2 := by
    intro k hk
    have htwice : (2 * k : ℝ) = 13 := by linarith
    have htwice' : 2 * k = 13 := by exact_mod_cast htwice
    omega
  exact ⟨exact_exactRoots, exists_not_covers_behind one_pos one_pos one_lt_two one_half_pos.le
    one_half_lt_one exact_exactRoots one_pos (by norm_num) hcentre⟩

end Optical

end AdmissibleRegion
