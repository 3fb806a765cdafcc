import AdmissibleRegion.Proofs.Optical.Grid

/-!
# Bounds of the eccentricity by angles and angle rates

At every range away from the centre, the quartic of a measurement compares the eccentricity
with the greatest one at every range rate. The bounds in the sample of that range enclose the
range rates at which it is small enough, and end where it is the greatest one.
-/

namespace AdmissibleRegion.Optical

open Vec3

variable {g : Optical ℝ} {m : Sighting} {roots : RootFinder ℝ} {mu amin amax emax step : ℝ}

/-- The samples of a grid at one range hold the bounds of its quartic. -/
theorem emax_eq_of_mem_grid {samples : List (Sample ℝ)}
    (h : g.grid roots step amin amax emax = .ok samples) {s : Sample ℝ} (hs : s ∈ samples)
    {quartic : List ℝ} {bounds : Option (Interval ℝ)}
    (hquartic : g.eccentricityQuartic s.abscissa emax = .ok quartic)
    (hbounds : realRootBounds roots quartic Constants.rootTolerance = .ok bounds) :
    s.emax = bounds := by
  obtain ⟨_, _, quartic', hquartic', hemax⟩ := exists_of_sampleAt (sampleAt_of_mem_grid h hs)
  obtain rfl := Except.ok.inj (hquartic'.symm.trans hquartic)
  exact Except.ok.inj (hemax.symm.trans hbounds)

/-- The coefficients of every measurement give the square of the angular momentum; away from
the centre, the quartic compares the eccentricity with the greatest one, and the bounds in
every sample enclose the orbits that are not too eccentric. -/
theorem quartic_encloses_rangeRates (hroots : roots.Exact) (m : Sighting) (hmu : 0 < mu) :
    ∃ g, ofMeasurement m.ra m.dec m.raRate m.decRate m.station mu = .ok g ∧
      (∀ range x,
        g.c0 * x ^ 2 + (g.c1 * range ^ 2 + g.c2 * range + g.c3) * x +
          (g.c4 * range ^ 4 + g.c5 * range ^ 3 + g.c6 * range ^ 2 + g.c7 * range + g.c8) =
        squaredNorm (cross (m.position range) (m.velocity range x))) ∧
      ∀ range emax, 0 < norm (m.position range) → 0 ≤ emax → emax < 1 →
        ∃ quartic bounds, g.eccentricityQuartic range emax = .ok quartic ∧
          Orbit.Compares mu emax (m.position range) (m.velocity range) quartic ∧
          realRootBounds roots quartic Constants.rootTolerance = .ok bounds ∧
          Orbit.Encloses mu emax Constants.rootTolerance (m.position range) (m.velocity range)
            quartic bounds ∧
          ∀ step amin amax samples, g.grid roots step amin amax emax = .ok samples →
            ∀ s ∈ samples, s.abscissa = range → s.emax = bounds := by
  obtain ⟨g, hg, hdescribes⟩ := exists_ofMeasurement m mu
  refine ⟨g, hg, hdescribes.momentum_eq, fun range emax hr hemax0 hemax1 => ?_⟩
  obtain ⟨quartic, bounds, hquartic, hcompares, hbounds, hencloses⟩ :=
    hdescribes.exists_encloses hroots hmu hr hemax0 hemax1
  refine ⟨quartic, bounds, hquartic, hcompares, hbounds, hencloses, ?_⟩
  rintro step amin amax samples hsamples s hs rfl
  exact emax_eq_of_mem_grid hsamples hs hquartic hbounds

/-- At the station on a line of sight through the centre, where the first two coefficients of
the quartic vanish, the bounds hold the range rates up to the greatest eccentricity. -/
theorem quartic_encloses_rangeRates_passing : RootFinder.Exact exactRoots ∧ ∃ g samples,
    ofMeasurement 0 0 0 0 passing.station 1 = .ok g ∧
    g.grid exactRoots 1 1 2 (1 / 2) = .ok samples ∧
    ∃ s ∈ samples, s.abscissa = 0 ∧ ∃ b, s.emax = some b ∧
      Set.Icc (-1 / 2) (1 / 2) ⊆ b.ordinates := by
  obtain ⟨g, hg, _, hquartic⟩ := quartic_encloses_rangeRates exact_exactRoots passing one_pos
  obtain ⟨samples, hsamples, s, hs, hzero⟩ := exists_grid_passing hg one_pos two_pos
    one_half_pos.le one_half_lt_one
  have hr := norm_position_passing_pos le_rfl
  obtain ⟨quartic, bounds, _, _, _, hencloses, hsample⟩ :=
    hquartic 0 (1 / 2) hr one_half_pos.le one_half_lt_one
  have hemax := hsample _ _ _ samples hsamples s hs hzero
  have hsmall : ∀ x ∈ Set.Icc (-1 / 2 : ℝ) (1 / 2),
      Orbit.eccentricity 1 (passing.position 0) (passing.velocity 0 x) ≤ 1 / 2 := by
    intro x hx
    rw [eccentricity_passing, abs_le, ← neg_div]
    exact hx
  obtain ⟨b, hb, hsubset⟩ := hencloses.exists_subset (Set.nonempty_Icc.mpr (by norm_num)) hsmall
  exact ⟨exact_exactRoots, g, samples, hg, hsamples, s, hs, hzero, b, hemax.trans hb, hsubset⟩

end AdmissibleRegion.Optical
