import AdmissibleRegion.Proofs.Ranging.Ellipse

/-!
# Rates of bound orbits

Twice the energy is a quadratic form in both rates, so that the bound orbits fill an ellipse,
whose centre is not zero when the station moves across the line of sight. The grid is laid
around zero and as wide on either side as the farther end of the ellipse, and so it holds the
rate of the right ascension of every bound orbit. Its samples lie in equal steps from the lower
end of this span, as many as fit, so that the upper end is less than a step beyond the last.
-/

namespace AdmissibleRegion

/-! ## Samples in equal steps -/

/-- Samples in equal steps over a span of abscissas. -/
structure EquallySpaced (low high step : ℝ) (samples : List (Sample ℝ)) : Prop where
  /-- The first sample is at the lower end. -/
  first : ∃ s, samples.head? = some s ∧ s.abscissa = low
  /-- Neighbours are one step apart. -/
  neighbours : samples.IsChain fun s t => t.abscissa - s.abscissa = step
  /-- No further step fits. -/
  last : ∃ s, samples.getLast? = some s ∧ s.abscissa ≤ high ∧ high < s.abscissa + step

section Steps

variable {low width step : ℝ} {samples : List (Sample ℝ)}

/-- A span that is not negative has one abscissa more than the steps that fit. -/
theorem exists_succ_eq_floor (hwidth : 0 ≤ width) (hstep : 0 < step) :
    ∃ n : ℕ, (⌊width / step⌋ + 1).toNat = n + 1 ∧ n * step ≤ width ∧ width < n * step + step := by
  obtain ⟨n, hn⟩ := Int.eq_ofNat_of_zero_le (Int.floor_nonneg.mpr (div_nonneg hwidth hstep.le))
  have hle := Int.floor_le (width / step)
  have hlt := Int.lt_floor_add_one (width / step)
  rw [hn, Int.cast_natCast] at hle hlt
  rw [le_div_iff₀ hstep] at hle
  rw [div_lt_iff₀ hstep, add_mul, one_mul] at hlt
  exact ⟨n, by omega, hle, hlt⟩

/-- The abscissas of all steps that fit into a span are equally spaced over it. -/
theorem equallySpaced_of_map_abscissa (hwidth : 0 ≤ width) (hstep : 0 < step)
    (h : samples.map Sample.abscissa =
      (List.range (⌊width / step⌋ + 1).toNat).map fun k : ℕ => k * step + low) :
    EquallySpaced low (low + width) step samples := by
  obtain ⟨n, hn, hle, hlt⟩ := exists_succ_eq_floor hwidth hstep
  rw [hn] at h
  have hfirst := congrArg List.head? h
  have hlast := congrArg List.getLast? h
  rw [List.head?_map, List.range_succ_eq_map, List.map_cons, List.head?_cons,
    Option.map_eq_some_iff] at hfirst
  rw [List.getLast?_map, List.range_succ, List.map_append, List.map_singleton,
    List.getLast?_concat, Option.map_eq_some_iff] at hlast
  obtain ⟨first, hfirst, hatFirst⟩ := hfirst
  obtain ⟨last, hlast, hatLast⟩ := hlast
  refine ⟨⟨first, hfirst, ?_⟩, ?_, last, hlast, ?_, ?_⟩
  · rw [hatFirst, Nat.cast_zero, zero_mul, zero_add]
  · have hchain : (samples.map Sample.abscissa).IsChain fun a b => b - a = step := by
      rw [h, List.isChain_map, List.isChain_range]
      intro k _
      push_cast
      ring
    exact (List.isChain_map Sample.abscissa).mp hchain
  · rw [hatLast]
    linarith
  · rw [hatLast]
    linarith

end Steps

/-! ## Bound orbits -/

open Vec3
open Scalar (divide_eq_ok floor?_eq two_literal ofNat_eq_cast)

/-- Twice the energy of the object is not positive if its angles change at the rates. -/
def Ranged.IsBound (m : Ranged) (mu x y : ℝ) : Prop :=
  squaredNorm (m.velocity x y) - 2.0 * mu / norm m.position ≤ 0

namespace Ranging

variable {g : Ranging ℝ} {m : Ranged} {roots : RootFinder ℝ} {mu step amin amax emax : ℝ}

/-- The form in both rates is twice the energy. -/
theorem Describes.form_eq (h : g.Describes m mu) (x y : ℝ) :
    g.a11 * x ^ 2 + 2 * g.a13 * x + g.a22 * y ^ 2 + 2 * g.a23 * y + g.a33 =
      squaredNorm (m.velocity x y) - 2 * mu / norm m.position := by
  have henergy := h.energy_eq x y
  rw [Orbit.energy_eq_sub] at henergy
  linear_combination henergy

theorem extent_nonneg (g : Ranging ℝ) : 0 ≤ g.extent :=
  add_nonneg (abs_nonneg _) (Real.sqrt_nonneg _)

/-- Where the form is not positive, the first rate is at most the extent, of either sign. -/
theorem abs_le_extent (h11 : 0 < g.a11) (h22 : 0 < g.a22) {x y : ℝ}
    (h : g.a11 * x ^ 2 + 2 * g.a13 * x + g.a22 * y ^ 2 + 2 * g.a23 * y + g.a33 ≤ 0) :
    |x| ≤ g.extent := by
  have hsquares := complete_squares h11.ne' h22.ne' 0 x y
  have hdec : 0 ≤ g.a22 * (y - -g.a23 / g.a22) ^ 2 := by positivity
  have hra : g.a11 * (x - -g.a13 / g.a11) ^ 2 ≤ g.reducedTerm 0 := by linarith
  -- the distance from the centre of the ellipse
  have hdistance : |x - -g.a13 / g.a11| ≤ √|g.reducedTerm 0 / g.a11| := by
    apply Real.abs_le_sqrt
    rw [← le_div_iff₀' h11] at hra
    exact hra.trans (le_abs_self _)
  have hcentre : |-g.a13 / g.a11| = |g.a13 / g.a11| := by rw [neg_div, abs_neg]
  calc |x| = |-g.a13 / g.a11 + (x - -g.a13 / g.a11)| := by rw [add_sub_cancel]
    _ ≤ |-g.a13 / g.a11| + |x - -g.a13 / g.a11| := abs_add_le _ _
    _ ≤ g.extent := by
      rw [hcentre, extent]
      exact add_le_add_right hdistance _

section Grid

variable (h11 : g.a11 ≠ 0) (h22 : g.a22 ≠ 0)

include h11 h22

/-- There is a grid if roots are found for every polynomial. -/
theorem exists_grid_of_forall (hstep : step ≠ 0) (hamin : amin ≠ 0) (hamax : amax ≠ 0)
    (hroots : ∀ coefficients, ∃ found, roots coefficients = .ok found) :
    ∃ samples, g.grid roots step amin amax emax = .ok samples := by
  obtain ⟨least, greatest, hgrid⟩ := exists_grid_eq_mapM h11 h22 roots emax hamin hamax hstep
  rw [hgrid]
  apply exists_mapM
  intro k _
  obtain ⟨quartic, hquartic, _⟩ := g.exists_eccentricityQuartic (k * step - g.extent) emax
  obtain ⟨found, hfound⟩ := hroots quartic
  unfold sampleAt realRootBounds
  rw [hquartic, ok_bind, hfound, ok_bind]
  exact ⟨_, rfl⟩

/-- The samples of a grid are equally spaced from one end of the extent to the other. -/
theorem equallySpaced_grid (hstep : 0 < step) {samples : List (Sample ℝ)}
    (h : g.grid roots step amin amax emax = .ok samples) :
    EquallySpaced (-g.extent) g.extent step samples := by
  unfold grid at h
  rw [halfWidth_eq_ok h11 h22, ok_bind, divide_eq_ok _ hstep.ne', ok_bind, floor?_eq, ok_bind] at h
  obtain ⟨_, _, h⟩ := exists_of_bind_eq_ok h
  obtain ⟨least, _, h⟩ := exists_of_bind_eq_ok h
  obtain ⟨_, _, h⟩ := exists_of_bind_eq_ok h
  obtain ⟨greatest, _, h⟩ := exists_of_bind_eq_ok h
  simp only [two_literal, ofNat_eq_cast] at h
  have hmap : samples.map Sample.abscissa =
      (List.range (⌊2 * g.extent / step⌋ + 1).toNat).map fun k : ℕ => k * step + -g.extent := by
    have hall := (forall₂_of_mapM h).imp fun k s hs => (exists_of_sampleAt hs).1
    rw [← List.forall₂_eq_eq_eq, List.forall₂_map_left_iff, List.forall₂_map_right_iff]
    exact hall.flip
  have hspaced := equallySpaced_of_map_abscissa
    (mul_nonneg zero_le_two g.extent_nonneg) hstep hmap
  have hend : -g.extent + 2 * g.extent = g.extent := by ring
  rwa [hend] at hspaced

end Grid

/-- The coefficients of a measurement give twice the energy as a form in both rates. No bound
orbit has a rate of the right ascension beyond the half width of the grid, which lies in equal
steps from the lower end of that width to less than a step before the upper one. -/
theorem grid_covers_bound (mu : ℝ) (m : Ranged) (hrange : 0 < m.range)
    (hcos : Real.cos m.dec ≠ 0) (hr : 0 < norm m.position) :
    ∃ g w, ofMeasurement m.ra m.dec m.range m.rangeRate m.station mu = .ok g ∧
      g.halfWidth = .ok w ∧
      (∀ x y, g.a11 * x ^ 2 + 2 * g.a13 * x + g.a22 * y ^ 2 + 2 * g.a23 * y + g.a33 =
        squaredNorm (m.velocity x y) - 2 * mu / norm m.position) ∧
      (∀ x y, m.IsBound mu x y → |x| ≤ w) ∧
      ∀ (roots : RootFinder ℝ) (step amin amax emax : ℝ), 0 < step →
        (amin ≠ 0 → amax ≠ 0 → (∀ coefficients, ∃ found, roots coefficients = .ok found) →
          ∃ samples, g.grid roots step amin amax emax = .ok samples) ∧
        ∀ samples, g.grid roots step amin amax emax = .ok samples →
          (samples.IsChain fun s t => t.abscissa - s.abscissa = step) ∧
          ∃ first last, samples.head? = some first ∧ samples.getLast? = some last ∧
            first.abscissa = -w ∧
            ∀ x y, m.IsBound mu x y → first.abscissa ≤ x ∧ x < last.abscissa + step := by
  obtain ⟨g, hg, h⟩ := exists_ofMeasurement m mu hr
  have h11 := h.a11_pos hrange hcos
  have h22 := h.a22_pos hrange
  have hbound : ∀ x y, m.IsBound mu x y → |x| ≤ g.extent := by
    intro x y hxy
    rw [Ranged.IsBound, two_literal, ← h.form_eq] at hxy
    exact abs_le_extent h11 h22 hxy
  refine ⟨g, g.extent, hg, halfWidth_eq_ok h11.ne' h22.ne', h.form_eq, hbound, ?_⟩
  intro roots step amin amax emax hstep
  refine ⟨exists_grid_of_forall h11.ne' h22.ne' hstep.ne', fun samples hsamples => ?_⟩
  obtain ⟨⟨first, hfirst, hlow⟩, hneighbours, last, hlast, _, hhigh⟩ :=
    equallySpaced_grid h11.ne' h22.ne' hstep hsamples
  refine ⟨hneighbours, first, last, hfirst, hlast, hlow, fun x y hxy => ?_⟩
  obtain ⟨hlower, hupper⟩ := abs_le.mp (hbound x y hxy)
  exact ⟨hlow ▸ hlower, hupper.trans_lt hhigh⟩

/-- An object over the pole, seen from a station that moves across the line of sight. -/
noncomputable def passingPole : Ranged where
  ra := 0
  dec := 0
  range := 1
  rangeRate := 0
  station := ⟨⟨-1, 0, 1⟩, ⟨0, 1, 0⟩⟩

theorem norm_position_passingPole : norm passingPole.position = 1 := by
  rw [norm_eq_sqrt]
  simp [Ranged.position, Ranged.sight, Sightline.frame, passingPole, scale, squaredNorm, dot]

theorem isBound_passingPole_iff (x y : ℝ) :
    passingPole.IsBound 2 x y ↔ (1 + x) ^ 2 + y ^ 2 ≤ 4 := by
  have hvelocity : passingPole.velocity x y = ⟨0, 1 + x, y⟩ := by
    ext <;> simp [Ranged.velocity, Ranged.sight, Sightline.rate, Sightline.frame, passingPole,
      scale]
  rw [Ranged.IsBound, two_literal, hvelocity, norm_position_passingPole, squaredNorm, dot]
  constructor <;> intro h <;> linarith

/-- Seen from the moving station, the bound orbits have rates around minus one, and a grid in
steps of four still holds them all. -/
theorem grid_covers_bound_passingPole : ∃ g samples,
    ofMeasurement 0 0 1 0 passingPole.station 2 = .ok g ∧
    g.grid exactRoots 4 1 2 (1 / 2) = .ok samples ∧
    ∃ first last, samples.head? = some first ∧ samples.getLast? = some last ∧
      ∀ x y, (1 + x) ^ 2 + y ^ 2 ≤ 4 → first.abscissa ≤ x ∧ x < last.abscissa + 4 := by
  have hr : 0 < norm passingPole.position := norm_position_passingPole ▸ one_pos
  have hcos : Real.cos passingPole.dec ≠ 0 := by simp [passingPole]
  obtain ⟨g, w, hg, _, _, _, hgrid⟩ := grid_covers_bound 2 passingPole one_pos hcos hr
  obtain ⟨hexists, hcovers⟩ := hgrid exactRoots 4 1 2 (1 / 2) four_pos
  obtain ⟨samples, hsamples⟩ := hexists one_ne_zero two_ne_zero fun _ => ⟨_, rfl⟩
  obtain ⟨_, first, last, hfirst, hlast, _, hbound⟩ := hcovers samples hsamples
  refine ⟨g, samples, hg, hsamples, first, last, hfirst, hlast, fun x y hxy => ?_⟩
  exact hbound x y ((isBound_passingPole_iff x y).mpr hxy)

end Ranging

end AdmissibleRegion
