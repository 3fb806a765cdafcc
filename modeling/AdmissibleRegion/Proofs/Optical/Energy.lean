import AdmissibleRegion.Proofs.Optical.Grid

/-!
# Bounds of the semi-major axis

At every range away from the centre, the bounds of a semi-major axis hold exactly the range
rates at which the energy is at most that of the axis, and only at the two ends is it equal.
Bounds of a smaller axis are present only inside those of a greater one.
-/

namespace AdmissibleRegion

open Scalar (two_literal)
open Vec3

/-- Bounds hold exactly the range rates at which the orbit has at most an energy. -/
structure Sighting.BoundsEnergy (m : Sighting) (mu range energy : ℝ)
    (bounds : Option (Interval ℝ)) : Prop where
  /-- There are no bounds only if no range rate has so little energy. -/
  eq_none_iff : bounds = none ↔
    ¬∃ x, Orbit.energy mu (m.position range) (m.velocity range x) ≤ energy
  mem_iff : ∀ b, bounds = some b → ∀ x,
    x ∈ b.ordinates ↔ Orbit.energy mu (m.position range) (m.velocity range x) ≤ energy
  /-- The orbits at the two ends are the only ones with just the energy. -/
  eq_iff : ∀ b, bounds = some b → ∀ x,
    Orbit.energy mu (m.position range) (m.velocity range x) = energy ↔ x = b.lower ∨ x = b.upper

namespace Optical

variable {g : Optical ℝ} {m : Sighting} {roots : RootFinder ℝ} {mu amin amax emax range : ℝ}

/-- The part of the energy that does not depend on the range rate leaves twice the energy. -/
theorem Describes.exists_energyAt (h : g.Describes m mu) (hr : 0 < norm (m.position range)) :
    ∃ f, g.energyAt range = .ok f ∧ ∀ x, x ^ 2 + g.w1 * x + f =
      squaredNorm (m.velocity range x) - 2 * mu / norm (m.position range) := by
  refine ⟨_, energyAt_eq_ok (h.distance_pos hr), fun x => ?_⟩
  rw [h.twice_energy, Orbit.energy_eq_sub]
  ring

/-- The bounds of an energy are exact. -/
theorem Describes.boundsEnergy (h : g.Describes m mu) (range energy : ℝ) :
    m.BoundsEnergy mu range energy (energyBounds g.w1 (g.energyPart range) energy) := by
  have hle : ∀ x, Orbit.energy mu (m.position range) (m.velocity range x) ≤ energy ↔
      x ^ 2 + g.w1 * x + g.energyPart range ≤ 2 * energy := by
    intro x
    rw [h.twice_energy, mul_le_mul_iff_right₀ two_pos]
  refine ⟨?_, fun b hb x => ?_, fun b hb x => ?_⟩
  · rw [Option.eq_none_iff_forall_ne_some]
    constructor
    · rintro hnone ⟨x, hx⟩
      obtain ⟨b, hb, _⟩ := AdmissibleRegion.mem_energyBounds_iff.mpr ((hle x).mp hx)
      exact hnone b hb
    · intro hnone b hb
      have hlower : b.lower ∈ b.ordinates :=
        Set.left_mem_Icc.mpr (lower_le_upper_of_energyBounds hb)
      exact hnone ⟨b.lower, (hle _).mpr ((mem_ordinates_iff_of_energyBounds hb).mp hlower)⟩
  · rw [hle, mem_ordinates_iff_of_energyBounds hb]
  · rw [← eq_iff_of_energyBounds hb, h.twice_energy, mul_right_inj' two_ne_zero]

/-- A sample holds exact bounds of both energies, one inside the other. -/
theorem Describes.bounds_of_sampleAt (h : g.Describes m mu) (hr : 0 < norm (m.position range))
    {least greatest : ℝ} {s : Sample ℝ}
    (hs : sampleAt roots g least greatest emax range = .ok s) :
    m.BoundsEnergy mu range least s.amin ∧ m.BoundsEnergy mu range greatest s.amax ∧
      (least < greatest → ∀ hole, s.amin = some hole → ∃ a, s.amax = some a ∧
        a.lower < hole.lower ∧ hole.lower ≤ hole.upper ∧ hole.upper < a.upper) := by
  obtain ⟨_, ⟨f, hf, hamin, hamax⟩, _⟩ := exists_of_sampleAt hs
  obtain rfl := Except.ok.inj ((energyAt_eq_ok (h.distance_pos hr)).symm.trans hf)
  rw [hamin, hamax]
  refine ⟨h.boundsEnergy range least, h.boundsEnergy range greatest, fun hlt hole hhole => ?_⟩
  obtain ⟨a, ha, hlower, hupper⟩ := exists_energyBounds_around hhole hlt
  exact ⟨a, ha, hlower, lower_le_upper_of_energyBounds hhole, hupper⟩

/-- A greater semi-major axis is a greater energy. -/
theorem energy_lt_energy (hmu : 0 < mu) (hamin : 0 < amin) (hlt : amin < amax) :
    -mu / (2 * amin) < -mu / (2 * amax) := by
  have htwice : 2 * amin < 2 * amax := mul_lt_mul_of_pos_left hlt two_pos
  rw [neg_div, neg_div, neg_lt_neg_iff]
  exact div_lt_div_of_pos_left hmu (mul_pos two_pos hamin) htwice

/-- In every sample of the grid away from the centre, the bounds of both semi-major axes are
exact, and those of the smaller one are present only strictly inside those of the greater. -/
theorem axis_bounds_exact (m : Sighting) (hmu : 0 < mu) :
    ∃ g, ofMeasurement m.ra m.dec m.raRate m.decRate m.station mu = .ok g ∧
      (∀ range, 0 < norm (m.position range) → ∃ f, g.energyAt range = .ok f ∧
        ∀ x, x ^ 2 + g.w1 * x + f =
          squaredNorm (m.velocity range x) - 2 * mu / norm (m.position range)) ∧
      ∀ roots step amin amax emax samples, g.grid roots step amin amax emax = .ok samples →
        ∀ s ∈ samples, 0 < norm (m.position s.abscissa) →
          m.BoundsEnergy mu s.abscissa (-mu / (2 * amin)) s.amin ∧
          m.BoundsEnergy mu s.abscissa (-mu / (2 * amax)) s.amax ∧
          (0 < amin → amin < amax → ∀ hole, s.amin = some hole → ∃ a, s.amax = some a ∧
            a.lower < hole.lower ∧ hole.lower ≤ hole.upper ∧ hole.upper < a.upper) := by
  obtain ⟨g, hg, hdescribes⟩ := exists_ofMeasurement m mu
  refine ⟨g, hg, fun range hr => hdescribes.exists_energyAt hr, ?_⟩
  intro roots step amin amax emax samples hsamples s hs hr
  have hsample := sampleAt_of_mem_grid hsamples hs
  rw [hdescribes.mu_eq] at hsample
  obtain ⟨hleast, hgreatest, hnested⟩ := hdescribes.bounds_of_sampleAt hr hsample
  exact ⟨hleast, hgreatest, fun hamin hlt => hnested (energy_lt_energy hmu hamin hlt)⟩

/-- At the station, the circle of radius one is the only orbit with at most that axis, and
it is strictly inside the bounds of twice the axis. -/
theorem axis_bounds_exact_passing : ∃ g samples,
    ofMeasurement 0 0 0 0 passing.station 1 = .ok g ∧
    g.grid exactRoots 1 1 2 (1 / 2) = .ok samples ∧
    ∃ s ∈ samples, s.abscissa = 0 ∧ s.amin = some ⟨0, 0⟩ ∧
      ∃ a, s.amax = some a ∧ a.lower < 0 ∧ 0 < a.upper := by
  obtain ⟨g, hg, _, hbounds⟩ := axis_bounds_exact passing one_pos
  obtain ⟨samples, hsamples, s, hs, hzero⟩ := exists_grid_passing hg one_pos two_pos
    one_half_pos.le one_half_lt_one
  have hr : 0 < norm (passing.position s.abscissa) := norm_position_passing_pos hzero.ge
  obtain ⟨hleast, _, hnested⟩ := hbounds _ _ _ _ _ samples hsamples s hs hr
  rw [hzero] at hleast
  have henergy : ∀ x, Orbit.energy 1 (passing.position 0) (passing.velocity 0 x) =
      -1 / (2 * 1) ↔ x = 0 := by
    intro x
    rw [energy_passing, mul_one, div_left_inj' two_ne_zero, sub_eq_neg_self, sq_eq_zero_iff]
  -- there is a range rate with little enough energy, and no other than zero
  obtain ⟨hole, hhole⟩ : ∃ hole, s.amin = some hole := by
    rw [← Option.ne_none_iff_exists']
    intro hnone
    exact hleast.eq_none_iff.mp hnone ⟨0, ((henergy 0).mpr rfl).le⟩
  have hlower : hole.lower = 0 :=
    (henergy _).mp ((hleast.eq_iff hole hhole _).mpr (Or.inl rfl))
  have hupper : hole.upper = 0 :=
    (henergy _).mp ((hleast.eq_iff hole hhole _).mpr (Or.inr rfl))
  obtain ⟨a, ha, hbefore, _, hafter⟩ := hnested one_pos one_lt_two hole hhole
  rw [hlower] at hbefore
  rw [hupper] at hafter
  obtain ⟨lower, upper⟩ := hole
  obtain rfl : lower = 0 := hlower
  obtain rfl : upper = 0 := hupper
  exact ⟨g, samples, hg, hsamples, s, hs, hzero, hhole, a, ha, hbefore, hafter⟩

end Optical

end AdmissibleRegion
