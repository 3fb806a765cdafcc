import AdmissibleRegion.Proofs.Optical.Quartic

/-!
# No orbit is lost

At every range of the grid away from the centre, each range rate whose orbit is inside the
bounds of semi-major axis and eccentricity is on an arc of the sample.
-/

namespace AdmissibleRegion

open Scalar (divide_eq_ok ne_zero_of_divide_eq_ok floor?_eq mem_range_floor_iff ofNat_eq_cast
  two_literal)
open Vec3

/-- The orbit at a range with a range rate is inside the bounds. -/
structure Sighting.Admits (m : Sighting) (mu amin amax emax range rangeRate : ℝ) : Prop where
  amin_lt : amin < Orbit.semiMajorAxis mu (m.position range) (m.velocity range rangeRate)
  le_amax : Orbit.semiMajorAxis mu (m.position range) (m.velocity range rangeRate) ≤ amax
  le_emax : Orbit.eccentricity mu (m.position range) (m.velocity range rangeRate) ≤ emax

namespace Optical

variable {g : Optical ℝ} {m : Sighting} {roots : RootFinder ℝ} {mu amin amax emax range : ℝ}

/-- Away from the centre, there is a sample, whose bound of the eccentricity encloses every
range rate at which it is small enough. -/
theorem Describes.exists_sampleAt (h : g.Describes m mu) (hroots : roots.Exact) (hmu : 0 < mu)
    (hemax0 : 0 ≤ emax) (hemax1 : emax < 1) (hr : 0 < norm (m.position range))
    (least greatest : ℝ) :
    ∃ bounds, sampleAt roots g least greatest emax range = .ok {
        abscissa := range
        amin := energyBounds g.w1 (g.energyPart range) least
        amax := energyBounds g.w1 (g.energyPart range) greatest
        emax := bounds } ∧
      ∀ x, Orbit.eccentricity mu (m.position range) (m.velocity range x) ≤ emax →
        ∃ b, bounds = some b ∧ x ∈ b.ordinates := by
  obtain ⟨quartic, bounds, hquartic, _, hbounds, hencloses⟩ :=
    h.exists_encloses hroots hmu hr hemax0 hemax1
  refine ⟨bounds, ?_, fun x hx => hencloses.exists_of_le hx⟩
  unfold sampleAt
  rw [energyAt_eq_ok (h.distance_pos hr), ok_bind, hquartic, ok_bind, hbounds, ok_bind,
    pure_eq_ok]

/-- A sample holds the bounds of both energies and of the quartic at its range. -/
theorem exists_of_sampleAt {least greatest : ℝ} {s : Sample ℝ}
    (h : sampleAt roots g least greatest emax range = .ok s) :
    s.abscissa = range ∧
      (∃ f, g.energyAt range = .ok f ∧ s.amin = energyBounds g.w1 f least ∧
        s.amax = energyBounds g.w1 f greatest) ∧
      ∃ quartic, g.eccentricityQuartic range emax = .ok quartic ∧
        realRootBounds roots quartic Constants.rootTolerance = .ok s.emax := by
  obtain ⟨f, hf, h⟩ := exists_of_bind_eq_ok h
  obtain ⟨quartic, hquartic, h⟩ := exists_of_bind_eq_ok h
  obtain ⟨bounds, hbounds, h⟩ := exists_of_bind_eq_ok h
  obtain rfl := Except.ok.inj h
  exact ⟨rfl, ⟨f, hf, rfl, rfl⟩, quartic, hquartic, hbounds⟩

/-- A sample lies at its range. -/
theorem abscissa_of_sampleAt {least greatest : ℝ} {s : Sample ℝ}
    (h : sampleAt roots g least greatest emax range = .ok s) : s.abscissa = range :=
  (exists_of_sampleAt h).1

/-- The bounds of an energy hold the range rates up to its semi-major axis. -/
theorem Describes.mem_energyBounds_iff (h : g.Describes m mu) (hmu : 0 < mu) {a x : ℝ}
    (ha : 0 < a)
    (hclosed : 0 < Orbit.semiMajorAxis mu (m.position range) (m.velocity range x)) :
    (∃ b, energyBounds g.w1 (g.energyPart range) (-mu / (2 * a)) = some b ∧
      x ∈ b.ordinates) ↔
      Orbit.semiMajorAxis mu (m.position range) (m.velocity range x) ≤ a := by
  rw [AdmissibleRegion.mem_energyBounds_iff, h.twice_energy, mul_le_mul_iff_right₀ two_pos,
    Orbit.semiMajorAxis_le_iff hmu ha hclosed]

/-- In a sample, the range rate of an orbit inside the bounds is on an arc. -/
theorem Describes.exists_isArcPoint (h : g.Describes m mu) (hroots : roots.Exact)
    (hmu : 0 < mu) (hamin : 0 < amin) (hamax : 0 < amax) (hemax0 : 0 ≤ emax) (hemax1 : emax < 1)
    (hr : 0 < norm (m.position range)) {s : Sample ℝ}
    (hs : sampleAt roots g (-g.mu / (2 * amin)) (-g.mu / (2 * amax)) emax range = .ok s) {x : ℝ}
    (hx : m.Admits mu amin amax emax range x) :
    (∃ a, s.amax = some a) ∧ (∃ e, s.emax = some e) ∧ ∃ p, s.IsArcPoint p ∧ x ∈ p.ordinates := by
  obtain ⟨bounds, hsample, hbounds⟩ := h.exists_sampleAt hroots hmu hemax0 hemax1 hr
    (-g.mu / (2 * amin)) (-g.mu / (2 * amax))
  obtain rfl := Except.ok.inj (hsample.symm.trans hs)
  -- an axis above the least one is positive, so the orbit is closed and its energy tells the axis
  have hclosed := hamin.trans hx.amin_lt
  rw [h.mu_eq]
  obtain ⟨a, ha, hxa⟩ := (h.mem_energyBounds_iff hmu hamax hclosed).mpr hx.le_amax
  obtain ⟨e, he, hxe⟩ := hbounds x hx.le_emax
  refine ⟨⟨a, ha⟩, ⟨e, he⟩, Sample.exists_isArcPoint ha he hxa hxe fun hole hhole hxhole => ?_⟩
  have hle := (h.mem_energyBounds_iff hmu hamin hclosed).mp ⟨hole, hhole, hxhole⟩
  exact hle.not_gt hx.amin_lt

/-- The grid has a sample at every multiple of the step up to twice the greatest axis. -/
theorem grid_eq_mapM {step : ℝ} (hamin : amin ≠ 0) (hamax : amax ≠ 0) (hstep : step ≠ 0) :
    g.grid roots step amin amax emax =
      (List.range (⌊2 * amax / step⌋ + 1).toNat).mapM fun k : ℕ => g.sampleAt roots
        (-g.mu / (2 * amin)) (-g.mu / (2 * amax)) emax (k * step) := by
  have h2amin : 2 * amin ≠ 0 := mul_ne_zero two_ne_zero hamin
  have h2amax : 2 * amax ≠ 0 := mul_ne_zero two_ne_zero hamax
  unfold grid
  simp only [two_literal, divide_eq_ok _ hstep, divide_eq_ok _ h2amin, divide_eq_ok _ h2amax,
    floor?_eq, ok_bind, ofNat_eq_cast]

/-- A grid has neither an axis nor a step that is zero. -/
theorem ne_zero_of_grid {step : ℝ} {samples : List (Sample ℝ)}
    (h : g.grid roots step amin amax emax = .ok samples) : amin ≠ 0 ∧ amax ≠ 0 ∧ step ≠ 0 := by
  obtain ⟨_, hstep, h⟩ := exists_of_bind_eq_ok h
  obtain ⟨last, _, h⟩ := exists_of_bind_eq_ok h
  obtain ⟨least, hleast, h⟩ := exists_of_bind_eq_ok h
  obtain ⟨greatest, hgreatest, _⟩ := exists_of_bind_eq_ok h
  refine ⟨?_, ?_, ne_zero_of_divide_eq_ok hstep⟩
  · exact right_ne_zero_of_mul (ne_zero_of_divide_eq_ok hleast)
  · exact right_ne_zero_of_mul (ne_zero_of_divide_eq_ok hgreatest)

/-- Every sample of a grid is that of its abscissa. -/
theorem sampleAt_of_mem_grid {step : ℝ} {samples : List (Sample ℝ)}
    (h : g.grid roots step amin amax emax = .ok samples) {s : Sample ℝ} (hs : s ∈ samples) :
    sampleAt roots g (-g.mu / (2 * amin)) (-g.mu / (2 * amax)) emax s.abscissa = .ok s := by
  obtain ⟨hamin, hamax, hstep⟩ := ne_zero_of_grid h
  rw [grid_eq_mapM hamin hamax hstep] at h
  obtain ⟨k, _, hk⟩ := exists_of_mem_mapM h hs
  rwa [abscissa_of_sampleAt hk]

/-- The ranges of the grid end at twice the greatest axis. -/
theorem mul_step_le {step : ℝ} (hstep : 0 < step) {k : ℕ}
    (hk : k ∈ List.range (⌊2 * amax / step⌋ + 1).toNat) : k * step ≤ 2 * amax :=
  (mem_range_floor_iff hstep).mp hk

/-- A grid none of whose ranges is at the centre exists. -/
theorem Describes.exists_grid (h : g.Describes m mu) (hroots : roots.Exact) {step : ℝ}
    (hmu : 0 < mu) (hamin : amin ≠ 0) (hamax : amax ≠ 0) (hemax0 : 0 ≤ emax) (hemax1 : emax < 1)
    (hstep : 0 < step)
    (hdistance : ∀ k : ℕ, k * step ≤ 2 * amax → 0 < norm (m.position (k * step))) :
    ∃ samples, g.grid roots step amin amax emax = .ok samples := by
  rw [grid_eq_mapM hamin hamax hstep.ne']
  apply exists_mapM
  intro k hk
  have hr := hdistance k (mul_step_le hstep hk)
  obtain ⟨_, hs, _⟩ := h.exists_sampleAt hroots hmu hemax0 hemax1 hr _ _
  exact ⟨_, hs⟩

/-- A grid has a sample at every step up to twice the greatest axis. -/
theorem exists_mem_grid {step : ℝ} (hstep : 0 < step) {samples : List (Sample ℝ)}
    (h : g.grid roots step amin amax emax = .ok samples) {k : ℕ} (hk : k * step ≤ 2 * amax) :
    ∃ s ∈ samples, s.abscissa = k * step := by
  obtain ⟨hamin, hamax, _⟩ := ne_zero_of_grid h
  rw [grid_eq_mapM hamin hamax hstep.ne'] at h
  obtain ⟨s, hs, hsample⟩ := exists_mem_of_mapM h ((mem_range_floor_iff hstep).mpr hk)
  exact ⟨s, hs, abscissa_of_sampleAt hsample⟩

/-- The coefficients of every measurement exist; so do the samples of the grid if no range of
it is at the centre; and every range rate of an orbit inside the bounds is on an arc. -/
theorem admitted_on_arc (hroots : roots.Exact) (m : Sighting) {step : ℝ} (hmu : 0 < mu)
    (hamin : 0 < amin) (hamax : amin < amax) (hemax0 : 0 ≤ emax) (hemax1 : emax < 1)
    (hstep : 0 < step) :
    ∃ g, ofMeasurement m.ra m.dec m.raRate m.decRate m.station mu = .ok g ∧
      ((∀ k : ℕ, k * step ≤ 2 * amax → 0 < norm (m.position (k * step))) →
        ∃ samples, g.grid roots step amin amax emax = .ok samples) ∧
      ∀ samples, g.grid roots step amin amax emax = .ok samples →
        ∀ s ∈ samples, 0 < norm (m.position s.abscissa) →
          ∀ x, m.Admits mu amin amax emax s.abscissa x →
            (∃ a, s.amax = some a) ∧ (∃ e, s.emax = some e) ∧
              ∃ p, s.IsArcPoint p ∧ x ∈ p.ordinates := by
  obtain ⟨g, hg, hdescribes⟩ := exists_ofMeasurement m mu
  have hamax0 : 0 < amax := hamin.trans hamax
  refine ⟨g, hg, ?_, ?_⟩
  · intro hdistance
    rw [grid_eq_mapM hamin.ne' hamax0.ne' hstep.ne']
    obtain ⟨samples, hsamples, _⟩ := exists_mapM_eq_ok (P := fun _ _ => True) fun k hk => by
      have hr := hdistance k (mul_step_le hstep hk)
      obtain ⟨bounds, hsample, _⟩ := hdescribes.exists_sampleAt hroots hmu hemax0 hemax1 hr
        (-g.mu / (2 * amin)) (-g.mu / (2 * amax))
      exact ⟨_, hsample, trivial⟩
    exact ⟨samples, hsamples⟩
  · intro samples hsamples s hs hr x hx
    rw [grid_eq_mapM hamin.ne' hamax0.ne' hstep.ne'] at hsamples
    obtain ⟨k, _, hk⟩ := exists_of_mem_mapM hsamples hs
    rw [abscissa_of_sampleAt hk] at hr hx
    exact hdescribes.exists_isArcPoint hroots hmu hamin hamax0 hemax0 hemax1 hr hk hx

/-- A station on the line of sight, which the object passes at right angles. -/
noncomputable def passing : Sighting where
  ra := 0
  dec := 0
  raRate := 0
  decRate := 0
  station := ⟨⟨1, 0, 0⟩, ⟨0, 1, 0⟩⟩

theorem position_passing (range : ℝ) : passing.position range = ⟨1 + range, 0, 0⟩ := by
  ext <;> simp [Sighting.position, Sighting.sight, Sightline.frame, passing, scale]

theorem norm_position_passing {range : ℝ} (h : 0 ≤ range) :
    norm (passing.position range) = 1 + range := by
  have hsq : squaredNorm (passing.position range) = (1 + range) ^ 2 := by
    rw [position_passing, squaredNorm, dot]
    ring
  rw [norm_eq_sqrt, hsq, Real.sqrt_sq (by linarith)]

/-- No range is at the centre. -/
theorem norm_position_passing_pos {range : ℝ} (h : 0 ≤ range) :
    0 < norm (passing.position range) := by
  rw [norm_position_passing h]
  positivity

theorem velocity_passing (x : ℝ) : passing.velocity 0 x = ⟨x, 1, 0⟩ := by
  ext <;> simp [Sighting.velocity, Sighting.sight, Sightline.frame, passing, scale]

/-- The energy at the station is least without a range rate. -/
theorem energy_passing (x : ℝ) :
    Orbit.energy 1 (passing.position 0) (passing.velocity 0 x) = (x ^ 2 - 1) / 2 := by
  rw [Orbit.energy_eq_sub, norm_position_passing le_rfl, velocity_passing, squaredNorm, dot]
  ring

/-- The range rate is the eccentricity. -/
theorem eccentricity_passing (x : ℝ) :
    Orbit.eccentricity 1 (passing.position 0) (passing.velocity 0 x) = |x| := by
  have hr := norm_position_passing_pos le_rfl
  have hmomentum : squaredNorm (cross (passing.position 0) (passing.velocity 0 x)) = 1 := by
    rw [position_passing, velocity_passing]
    simp [squaredNorm, dot, cross]
  have hsq := Orbit.sq_eccentricity (v := passing.velocity 0 x) one_ne_zero hr
  rw [hmomentum, energy_passing] at hsq
  have hsq' : Orbit.eccentricity 1 (passing.position 0) (passing.velocity 0 x) ^ 2 = x ^ 2 := by
    linarith
  rw [← abs_of_nonneg Orbit.eccentricity_nonneg]
  exact (sq_eq_sq_iff_abs_eq_abs _ _).mp hsq'

/-- At the station itself, the orbit is a circle of radius one. -/
theorem admits_passing : passing.Admits 1 (1 / 2) 2 (1 / 2) 0 0 := by
  refine ⟨?_, ?_, ?_⟩
  · rw [Orbit.semiMajorAxis_eq, energy_passing]
    norm_num
  · rw [Orbit.semiMajorAxis_eq, energy_passing]
    norm_num
  · rw [eccentricity_passing]
    norm_num

/-- All grids of a station on the line of sight exist. -/
theorem exists_grid_passing (hg : ofMeasurement 0 0 0 0 passing.station 1 = .ok g)
    (hamin : 0 < amin) (hamax : 0 < amax) (hemax0 : 0 ≤ emax) (hemax1 : emax < 1) :
    ∃ samples, g.grid exactRoots 1 amin amax emax = .ok samples ∧
      ∃ s ∈ samples, s.abscissa = 0 := by
  obtain ⟨g', hg', hdescribes⟩ := exists_ofMeasurement passing 1
  obtain rfl := Except.ok.inj (hg'.symm.trans hg)
  obtain ⟨samples, hsamples⟩ := hdescribes.exists_grid exact_exactRoots one_pos hamin.ne'
    hamax.ne' hemax0 hemax1 one_pos fun k _ => norm_position_passing_pos (by positivity)
  obtain ⟨s, hs, hat⟩ := exists_mem_grid one_pos hsamples (k := 0) (by simpa using hamax.le)
  exact ⟨samples, hsamples, s, hs, by simpa using hat⟩

/-- A line of sight through the centre, for which the first coefficients of the quartic
vanish, still keeps the circle. -/
theorem admitted_on_arc_passing : RootFinder.Exact exactRoots ∧ ∃ g samples,
    ofMeasurement 0 0 0 0 passing.station 1 = .ok g ∧
    g.grid exactRoots 1 (1 / 2) 2 (1 / 2) = .ok samples ∧
    ∃ s ∈ samples, s.abscissa = 0 ∧ ∃ p, s.IsArcPoint p ∧ 0 ∈ p.ordinates := by
  obtain ⟨g, hg, hgrid, harc⟩ := admitted_on_arc exact_exactRoots passing one_pos one_half_pos
    (by norm_num : (1 / 2 : ℝ) < 2) one_half_pos.le one_half_lt_one one_pos
  obtain ⟨samples, hsamples⟩ := hgrid fun k _ => by
    rw [norm_position_passing (by positivity)]
    positivity
  have hmapM := hsamples
  rw [grid_eq_mapM one_half_pos.ne' two_ne_zero one_ne_zero] at hmapM
  have hfirst : 0 ∈ List.range (⌊2 * 2 / (1 : ℝ)⌋ + 1).toNat := by norm_num
  obtain ⟨s, hs, hsample⟩ := exists_mem_of_mapM hmapM hfirst
  have hzero : s.abscissa = 0 := by simpa using abscissa_of_sampleAt hsample
  have hr : 0 < norm (passing.position s.abscissa) := by
    rw [hzero, norm_position_passing le_rfl]
    norm_num
  obtain ⟨_, _, hpoint⟩ := harc samples hsamples s hs hr 0 (hzero ▸ admits_passing)
  exact ⟨exact_exactRoots, g, samples, hg, hsamples, s, hs, hzero, hpoint⟩

end Optical

end AdmissibleRegion
