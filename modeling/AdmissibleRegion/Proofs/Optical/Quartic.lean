import AdmissibleRegion.Proofs.Eccentricity
import AdmissibleRegion.Proofs.Optical.Coefficients

/-!
# The quartic of the eccentricity

For a fixed range, the quartic in the range rate compares the square of the eccentricity with
that of the greatest one, and the energy is a quadratic in the range rate, so that the
real roots of the quartic enclose every range rate at which the eccentricity is small enough.
-/

namespace AdmissibleRegion

namespace Optical

open Scalar (square_eq raise_eq two_literal one_literal divide_eq_ok squareRoot_eq_ok)
open Vec3

variable {g : Optical ℝ} {range : ℝ}

/-- The part of twice the energy that does not depend on the range rate. -/
noncomputable def energyPart (g : Optical ℝ) (range : ℝ) : ℝ :=
  g.w2 * range ^ 2 + g.w3 * range + g.w4 - 2.0 * g.mu / √(range ^ 2 + g.w5 * range + g.w0)

/-- Away from the centre, the energy exists. -/
theorem energyAt_eq_ok (h : 0 < range ^ 2 + g.w5 * range + g.w0) :
    g.energyAt range = .ok (g.energyPart range) := by
  unfold energyAt
  rw [square_eq, ok_bind, squareRoot_eq_ok h.le, ok_bind,
    divide_eq_ok _ (Real.sqrt_pos.mpr h).ne', ok_bind, pure_eq_ok]
  rfl

/-- The quartic is the product of twice the energy and the square of the angular momentum, but
for a constant. -/
theorem exists_eccentricityQuartic (h : 0 < range ^ 2 + g.w5 * range + g.w0) (emax : ℝ) :
    ∃ quartic, g.eccentricityQuartic range emax = .ok quartic ∧ ∀ x, horner quartic x =
      (x ^ 2 + g.w1 * x + g.energyPart range) *
        (g.c0 * x ^ 2 + (g.c1 * range ^ 2 + g.c2 * range + g.c3) * x +
          (g.c4 * range ^ 4 + g.c5 * range ^ 3 + g.c6 * range ^ 2 + g.c7 * range + g.c8)) +
        g.mu ^ 2 * (1 - emax ^ 2) := by
  unfold eccentricityQuartic
  rw [energyAt_eq_ok h]
  simp only [square_eq, raise_eq, ok_bind, pure_eq_ok, one_literal]
  refine ⟨_, rfl, fun x => ?_⟩
  simp only [horner, List.foldl_cons, List.foldl_nil]
  ring

namespace Describes

variable {m : Sighting} {mu : ℝ}

theorem distance_pos (h : g.Describes m mu) (hr : 0 < norm (m.position range)) :
    0 < range ^ 2 + g.w5 * range + g.w0 := by
  rw [h.distance_eq, ← norm_sq]
  exact pow_pos hr 2

/-- Twice the energy of the orbit. -/
theorem twice_energy (h : g.Describes m mu) (x : ℝ) : x ^ 2 + g.w1 * x + g.energyPart range =
    2 * Orbit.energy mu (m.position range) (m.velocity range x) := by
  have hspeed := h.speed_eq range x
  rw [energyPart, Orbit.energy_eq_sub, two_literal, h.distance_eq, h.mu_eq, norm_eq_sqrt, ← hspeed]
  ring

/-- The energy is a quadratic in the range rate. -/
theorem hasQuadraticEnergy (h : g.Describes m mu) :
    Orbit.HasQuadraticEnergy mu (m.position range) (m.velocity range) := by
  refine ⟨1 / 2, g.w1 / 2, g.energyPart range / 2, one_half_pos, fun x => ?_⟩
  have htwice : x ^ 2 + g.w1 * x + g.energyPart range = _ := h.twice_energy x
  linarith

/-- The quartic compares the eccentricity with the greatest one. -/
theorem exists_quartic (h : g.Describes m mu) (hmu : 0 < mu)
    (hr : 0 < norm (m.position range)) (emax : ℝ) :
    ∃ quartic, g.eccentricityQuartic range emax = .ok quartic ∧
      Orbit.Compares mu emax (m.position range) (m.velocity range) quartic := by
  obtain ⟨quartic, hquartic, hvalue⟩ := exists_eccentricityQuartic (h.distance_pos hr) emax
  refine ⟨quartic, hquartic, fun x => ?_⟩
  have hsq := Orbit.sq_eccentricity (v := m.velocity range x) hmu.ne' hr
  rw [hvalue, h.twice_energy, h.momentum_eq, h.mu_eq, ← hsq]
  ring

/-- The bounds of the real roots of the quartic enclose the orbits that are not too eccentric. -/
theorem exists_encloses (h : g.Describes m mu) {roots : RootFinder ℝ} (hroots : roots.Exact)
    (hmu : 0 < mu) (hr : 0 < norm (m.position range)) {emax : ℝ} (hemax0 : 0 ≤ emax)
    (hemax1 : emax < 1) :
    ∃ quartic bounds, g.eccentricityQuartic range emax = .ok quartic ∧
      Orbit.Compares mu emax (m.position range) (m.velocity range) quartic ∧
      realRootBounds roots quartic Constants.rootTolerance = .ok bounds ∧
      Orbit.Encloses mu emax Constants.rootTolerance (m.position range) (m.velocity range)
        quartic bounds := by
  obtain ⟨quartic, hquartic, hcompares⟩ := h.exists_quartic hmu hr emax
  obtain ⟨bounds, hbounds, hencloses⟩ := hcompares.exists_encloses hmu.ne' hr hemax0 hemax1
    h.hasQuadraticEnergy hroots rootTolerance_pos
  exact ⟨quartic, bounds, hquartic, hcompares, hbounds, hencloses⟩

end Describes

end Optical

end AdmissibleRegion
