import AdmissibleRegion.Proofs.Eccentricity
import AdmissibleRegion.Proofs.Ranging.Grid

/-!
# Bounds of the eccentricity by angles, range and range rate

For a fixed rate of the right ascension, the quartic in the rate of the declination compares
the eccentricity with the greatest one. The bounds in the sample of that rate enclose the rates
of the declination at which it is small enough, also where the first coefficient vanishes.
-/

namespace AdmissibleRegion.Ranging

open Scalar (mem_range_floor_iff square_eq raise_eq one_literal)
open Vec3

variable {g : Ranging ℝ} {m : Ranged} {roots : RootFinder ℝ} {mu amin amax emax step : ℝ}

/-- The quartic is the product of twice the energy and the square of the angular momentum, but
for a constant. -/
theorem exists_eccentricityQuartic (g : Ranging ℝ) (x emax : ℝ) :
    ∃ quartic, g.eccentricityQuartic x emax = .ok quartic ∧ ∀ y, horner quartic y =
      g.c40 * y ^ 4 + (g.c31 * x + g.c30) * y ^ 3 + (g.c22 * x ^ 2 + g.c21 * x + g.c20) * y ^ 2 +
        (g.c13 * x ^ 3 + g.c12 * x ^ 2 + g.c11 * x + g.c10) * y +
        (g.c04 * x ^ 4 + g.c03 * x ^ 3 + g.c02 * x ^ 2 + g.c01 * x + g.c00) +
        g.mu ^ 2 * (1 - emax ^ 2) := by
  unfold eccentricityQuartic
  simp only [square_eq, raise_eq, ok_bind, pure_eq_ok, one_literal]
  refine ⟨_, rfl, fun y => ?_⟩
  simp only [horner, List.foldl_cons, List.foldl_nil]
  ring

namespace Describes

/-- The quartic compares the eccentricity with the greatest one. -/
theorem exists_quartic (h : g.Describes m mu) (hmu : 0 < mu) (hr : 0 < norm m.position)
    (x emax : ℝ) :
    ∃ quartic, g.eccentricityQuartic x emax = .ok quartic ∧
      Orbit.Compares mu emax m.position (m.velocity x) quartic := by
  obtain ⟨quartic, hquartic, hvalue⟩ := g.exists_eccentricityQuartic x emax
  refine ⟨quartic, hquartic, fun y => ?_⟩
  have hsq := Orbit.sq_eccentricity (v := m.velocity x y) hmu.ne' hr
  rw [hvalue, h.product_eq, h.mu_eq, ← hsq]
  ring

/-- The energy is a quadratic in the rate of the declination. -/
theorem hasQuadraticEnergy (h : g.Describes m mu) (hrange : 0 < m.range) (x : ℝ) :
    Orbit.HasQuadraticEnergy mu m.position (m.velocity x) := by
  have hpos : 0 < g.a22 / 2 := by
    rw [h.a22_eq]
    positivity
  refine ⟨g.a22 / 2, g.a23, (g.a11 * x ^ 2 + 2 * g.a13 * x + g.a33) / 2, hpos, fun y => ?_⟩
  have htwice := h.energy_eq x y
  linarith

/-- The bounds of the real roots of the quartic enclose the orbits that are not too eccentric. -/
theorem exists_encloses (h : g.Describes m mu) (hroots : roots.Exact) (hmu : 0 < mu)
    (hrange : 0 < m.range) (hr : 0 < norm m.position) (hemax0 : 0 ≤ emax) (hemax1 : emax < 1)
    (x : ℝ) :
    ∃ quartic bounds, g.eccentricityQuartic x emax = .ok quartic ∧
      Orbit.Compares mu emax m.position (m.velocity x) quartic ∧
      realRootBounds roots quartic Constants.rootTolerance = .ok bounds ∧
      Orbit.Encloses mu emax Constants.rootTolerance m.position (m.velocity x)
        quartic bounds := by
  obtain ⟨quartic, hquartic, hcompares⟩ := h.exists_quartic hmu hr x emax
  obtain ⟨bounds, hbounds, hencloses⟩ := hcompares.exists_encloses hmu.ne' hr hemax0 hemax1
    (h.hasQuadraticEnergy hrange x) hroots rootTolerance_pos
  exact ⟨quartic, bounds, hquartic, hcompares, hbounds, hencloses⟩

/-- Unless the line of sight is along the axis of the angles, the grid exists and has a sample
at every step from one end. -/
theorem exists_grid (h : g.Describes m mu) (hroots : roots.Exact) (hmu : 0 < mu)
    (hrange : 0 < m.range) (hr : 0 < norm m.position) (hcos : Real.cos m.dec ≠ 0)
    (hemax0 : 0 ≤ emax) (hemax1 : emax < 1) (hamin : amin ≠ 0) (hamax : amax ≠ 0)
    (hstep : 0 < step) :
    ∃ samples, g.grid roots step amin amax emax = .ok samples ∧
      ∀ k : ℕ, k * step ≤ 2 * g.extent → ∃ s ∈ samples, s.abscissa = k * step - g.extent := by
  have h11 : g.a11 ≠ 0 := by
    rw [h.a11_eq]
    exact mul_ne_zero (pow_ne_zero 2 hrange.ne') (pow_ne_zero 2 hcos)
  have h22 : g.a22 ≠ 0 := by
    rw [h.a22_eq]
    exact pow_ne_zero 2 hrange.ne'
  obtain ⟨least, greatest, hgrid⟩ :=
    exists_grid_eq_mapM h11 h22 roots emax hamin hamax hstep.ne'
  have hsample : ∀ k ∈ List.range (⌊2 * g.extent / step⌋ + 1).toNat, ∃ s,
      g.sampleAt roots least greatest emax (k * step - g.extent) = .ok s := by
    intro k _
    obtain ⟨quartic, bounds, hquartic, _, hbounds, _⟩ :=
      h.exists_encloses hroots hmu hrange hr hemax0 hemax1 (k * step - g.extent)
    unfold sampleAt
    rw [hquartic, ok_bind, hbounds, ok_bind]
    exact ⟨_, rfl⟩
  obtain ⟨samples, hsamples⟩ := exists_mapM hsample
  refine ⟨samples, hgrid.trans hsamples, fun k hk => ?_⟩
  obtain ⟨s, hs, hat⟩ := exists_mem_of_mapM hsamples ((mem_range_floor_iff hstep).mpr hk)
  exact ⟨s, hs, (exists_of_sampleAt hat).1⟩

end Describes

/-- The coefficients of every measurement away from the centre exist, and so do the samples
unless the line of sight is along the axis of the angles. At every rate of the right ascension,
the quartic compares the eccentricity with the greatest one, and the bounds in every sample
enclose the orbits that are not too eccentric, also where the first coefficient vanishes because
position and derivative by declination are parallel. -/
theorem quartic_encloses_decRates (hroots : roots.Exact) (m : Ranged) (hmu : 0 < mu)
    (hrange : 0 < m.range) (hr : 0 < norm m.position) :
    ∃ g, ofMeasurement m.ra m.dec m.range m.rangeRate m.station mu = .ok g ∧
      g.c40 = m.range ^ 4 * squaredNorm (cross m.position m.sight.byDec) ∧
      (Real.cos m.dec ≠ 0 → ∀ step amin amax emax, 0 < step → amin ≠ 0 → amax ≠ 0 →
        0 ≤ emax → emax < 1 → ∃ samples, g.grid roots step amin amax emax = .ok samples) ∧
      ∀ x emax, 0 ≤ emax → emax < 1 →
        ∃ quartic bounds, g.eccentricityQuartic x emax = .ok quartic ∧
          Orbit.Compares mu emax m.position (m.velocity x) quartic ∧
          realRootBounds roots quartic Constants.rootTolerance = .ok bounds ∧
          Orbit.Encloses mu emax Constants.rootTolerance m.position (m.velocity x)
            quartic bounds ∧
          ∀ step amin amax samples, g.grid roots step amin amax emax = .ok samples →
            ∀ s ∈ samples, s.abscissa = x → s.emax = bounds := by
  obtain ⟨g, hg, hdescribes⟩ := exists_ofMeasurement m mu hr
  refine ⟨g, hg, hdescribes.c40_eq, ?_, fun x emax hemax0 hemax1 => ?_⟩
  · intro hcos step amin amax emax hstep hamin hamax hemax0 hemax1
    obtain ⟨samples, hsamples, _⟩ := hdescribes.exists_grid hroots hmu hrange hr hcos hemax0
      hemax1 hamin hamax hstep
    exact ⟨samples, hsamples⟩
  obtain ⟨quartic, bounds, hquartic, hcompares, hbounds, hencloses⟩ :=
    hdescribes.exists_encloses hroots hmu hrange hr hemax0 hemax1 x
  refine ⟨quartic, bounds, hquartic, hcompares, hbounds, hencloses, ?_⟩
  rintro step amin amax samples hsamples s hs rfl
  obtain ⟨quartic', hquartic', hemax⟩ := exists_of_mem_grid hsamples hs
  obtain rfl := Except.ok.inj (hquartic'.symm.trans hquartic)
  exact Except.ok.inj (hemax.symm.trans hbounds)

/-- A station from which an object over the pole is seen at right angles to the axis, so that
position and derivative by declination are parallel. -/
noncomputable def overPole : Ranged where
  ra := 0
  dec := 0
  range := 1
  rangeRate := 0
  station := ⟨⟨-1, 0, 1⟩, ⟨0, 0, 0⟩⟩

theorem position_overPole : overPole.position = ⟨0, 0, 1⟩ := by
  ext <;> simp [Ranged.position, Ranged.sight, Sightline.frame, overPole, scale]

theorem velocity_overPole (x y : ℝ) : overPole.velocity x y = ⟨0, x, y⟩ := by
  ext <;> simp [Ranged.velocity, Ranged.sight, Sightline.rate, Sightline.frame, overPole, scale]

theorem norm_position_overPole : norm overPole.position = 1 := by
  rw [position_overPole, norm_eq_sqrt]
  simp [squaredNorm, dot]

theorem energy_overPole (x y : ℝ) :
    Orbit.energy 2 overPole.position (overPole.velocity x y) = (x ^ 2 + y ^ 2 - 4) / 2 := by
  rw [Orbit.energy_eq_sub, norm_position_overPole, velocity_overPole, squaredNorm, dot]
  ring

theorem sq_eccentricity_overPole (y : ℝ) :
    Orbit.eccentricity 2 overPole.position (overPole.velocity (-1) y) ^ 2 = (1 + y ^ 2) / 4 := by
  have hr : 0 < norm overPole.position := norm_position_overPole ▸ one_pos
  have hmomentum :
      squaredNorm (cross overPole.position (overPole.velocity (-1) y)) = 1 := by
    rw [position_overPole, velocity_overPole]
    simp [squaredNorm, dot, cross]
  have hsq := Orbit.sq_eccentricity (v := overPole.velocity (-1) y) two_ne_zero hr
  rw [hmomentum, energy_overPole] at hsq
  linarith

theorem Describes.extent_overPole (h : g.Describes overPole 2) : g.extent = 2 := by
  have h11 : g.a11 = 1 := by
    rw [h.a11_eq]
    simp [overPole]
  have h22 : g.a22 = 1 := by
    rw [h.a22_eq]
    simp [overPole]
  -- the energies of three pairs of rates tell the other coefficients
  have hnone := h.energy_eq 0 0
  have hra := h.energy_eq 1 0
  have hdec := h.energy_eq 0 1
  rw [energy_overPole, h11, h22] at hnone hra hdec
  have h33 : g.a33 = -4 := by linarith
  have h13 : g.a13 = 0 := by linarith
  have h23 : g.a23 = 0 := by linarith
  have hroot : √(4 : ℝ) = 2 := by
    rw [Real.sqrt_eq_iff_mul_self_eq_of_pos two_pos]
    norm_num
  rw [extent, reducedTerm, h11, h13, h22, h23, h33]
  norm_num [hroot]

/-- The bounds still enclose the orbits that are not too eccentric. -/
theorem quartic_encloses_decRates_overPole : RootFinder.Exact exactRoots ∧ ∃ g samples,
    ofMeasurement 0 0 1 0 overPole.station 2 = .ok g ∧ g.c40 = 0 ∧
    g.grid exactRoots 1 1 2 (3 / 4) = .ok samples ∧
    ∃ s ∈ samples, s.abscissa = -1 ∧ ∃ b, s.emax = some b ∧ Set.Icc (-1) 1 ⊆ b.ordinates := by
  have hr : 0 < norm overPole.position := norm_position_overPole ▸ one_pos
  obtain ⟨g, hg, hc40, _, hquartic⟩ :=
    quartic_encloses_decRates exact_exactRoots overPole two_pos one_pos hr
  obtain ⟨g', hg', hdescribes⟩ := exists_ofMeasurement overPole 2 hr
  obtain rfl := Except.ok.inj (hg'.symm.trans hg)
  have hparallel : g'.c40 = 0 := by
    rw [hc40, position_overPole]
    norm_num [squaredNorm, dot, cross, Ranged.sight, Sightline.frame, overPole]
  have hcos : Real.cos overPole.dec ≠ 0 := by simp [overPole]
  have hemax0 : (0 : ℝ) ≤ 3 / 4 := by norm_num
  have hemax1 : (3 / 4 : ℝ) < 1 := by norm_num
  obtain ⟨samples, hsamples, hat⟩ := hdescribes.exists_grid exact_exactRoots two_pos one_pos hr
    hcos hemax0 hemax1 one_ne_zero two_ne_zero one_pos
  rw [hdescribes.extent_overPole] at hat
  obtain ⟨s, hs, hx⟩ := hat 1 (by norm_num)
  have hx' : s.abscissa = -1 := by
    rw [hx]
    norm_num
  obtain ⟨quartic, bounds, _, _, _, hencloses, hsample⟩ := hquartic (-1) (3 / 4) hemax0 hemax1
  have hemax := hsample _ _ _ samples hsamples s hs hx'
  have hsmall : ∀ y ∈ Set.Icc (-1 : ℝ) 1,
      Orbit.eccentricity 2 overPole.position (overPole.velocity (-1) y) ≤ 3 / 4 := by
    intro y hy
    have hsq : y ^ 2 ≤ 1 := (sq_le_one_iff_abs_le_one y).mpr (abs_le.mpr hy)
    rw [← pow_le_pow_iff_left₀ Orbit.eccentricity_nonneg hemax0 two_ne_zero,
      sq_eccentricity_overPole]
    linarith
  obtain ⟨b, hb, hsubset⟩ := hencloses.exists_subset (Set.nonempty_Icc.mpr (by norm_num)) hsmall
  exact ⟨exact_exactRoots, g', samples, hg, hparallel, hsamples, s, hs, hx', b,
    hemax.trans hb, hsubset⟩

end AdmissibleRegion.Ranging
