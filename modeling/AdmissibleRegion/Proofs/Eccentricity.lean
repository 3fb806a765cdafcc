import AdmissibleRegion.Proofs.Orbit
import AdmissibleRegion.Proofs.Roots

/-!
# Bounds of the eccentricity

The orbits through one position have one unknown in their velocity, and their energy is a
quadratic in it. A polynomial that compares the square of their eccentricity with that of the
greatest one is then positive far away on both sides, whether or not its first coefficients
vanish, so that its real roots enclose every value of the unknown at which the eccentricity is
small enough.
-/

namespace AdmissibleRegion

/-- A quadratic with a positive first coefficient is not negative far away on both sides. -/
theorem exists_quadratic_nonneg {a : ℝ} (ha : 0 < a) (b c x : ℝ) :
    (∃ y ≤ x, 0 ≤ a * y ^ 2 + b * y + c) ∧ ∃ z ≥ x, 0 ≤ a * z ^ 2 + b * z + c := by
  -- far enough for the square to outweigh both other terms, and beyond `x` on either side
  set t := (|b| + |c|) / a + |x| + 1 with ht
  have hb := abs_nonneg b
  have hc := abs_nonneg c
  have hx := abs_nonneg x
  have hquotient : 0 ≤ (|b| + |c|) / a := div_nonneg (add_nonneg hb hc) ha.le
  have ht1 : 1 ≤ t := by linarith
  have hat : |b| + |c| ≤ a * t := by
    rw [← div_le_iff₀' ha]
    linarith
  have houtweighs : |b| * t + |c| ≤ a * t ^ 2 := by nlinarith
  have habs : |b * t| = |b| * t := by rw [abs_mul, abs_of_pos (zero_lt_one.trans_le ht1)]
  have hle := le_abs_self (b * t)
  have hge := neg_abs_le (b * t)
  have hcge := neg_abs_le c
  refine ⟨⟨-t, ?_, ?_⟩, t, ?_, ?_⟩
  · have := neg_abs_le x
    linarith
  · nlinarith
  · have := le_abs_self x
    linarith
  · nlinarith

/-- A continuous function that is positive on both sides of a point where it is not has zeros
on both sides. -/
theorem exists_zeros_around {p : ℝ → ℝ} (hp : Continuous p) {x y z : ℝ} (hy : y ≤ x)
    (hz : x ≤ z) (hpy : 0 < p y) (hpz : 0 < p z) (hpx : p x ≤ 0) :
    (∃ l ≤ x, p l = 0) ∧ ∃ u ≥ x, p u = 0 := by
  constructor
  · obtain ⟨l, hl, hzero⟩ := intermediate_value_Icc' hy hp.continuousOn ⟨hpx, hpy.le⟩
    exact ⟨l, hl.2, hzero⟩
  · obtain ⟨u, hu, hzero⟩ := intermediate_value_Icc hz hp.continuousOn ⟨hpx, hpz.le⟩
    exact ⟨u, hu.1, hzero⟩

namespace Orbit

open Vec3

/-- The energy is a quadratic in the unknown of the velocity, with a positive first
coefficient. -/
def HasQuadraticEnergy (mu : ℝ) (r : Vec3 ℝ) (v : ℝ → Vec3 ℝ) : Prop :=
  ∃ a b c, 0 < a ∧ ∀ x, a * x ^ 2 + b * x + c = energy mu r (v x)

/-- A polynomial in the unknown of the velocity compares the square of the eccentricity with
that of the greatest one. -/
def Compares (mu emax : ℝ) (r : Vec3 ℝ) (v : ℝ → Vec3 ℝ) (coefficients : List ℝ) : Prop :=
  ∀ x, horner coefficients x = mu ^ 2 * (eccentricity mu r (v x) ^ 2 - emax ^ 2)

/-- Bounds on the unknown of the velocity enclose the orbits that are not too eccentric. -/
structure Encloses (mu emax tolerance : ℝ) (r : Vec3 ℝ) (v : ℝ → Vec3 ℝ)
    (coefficients : List ℝ) (bounds : Option (Interval ℝ)) : Prop where
  /-- Outside the bounds, and everywhere if there are none, the eccentricity is too great. -/
  lt_of_outside : ∀ x, (∀ b, bounds = some b → x ∉ b.ordinates) →
    emax < eccentricity mu r (v x)
  /-- The ends are the real parts of roots that count as real. -/
  exists_root : ∀ b, bounds = some b → ∀ y, y = b.lower ∨ y = b.upper →
    ∃ z : ℂ, IsRootOf coefficients z ∧ |z.im| < tolerance ∧ z.re = y
  /-- If such a root is real, the eccentricity at the end is the greatest one. -/
  eq_of_real : ∀ b, bounds = some b → ∀ y, y = b.lower ∨ y = b.upper →
    ∀ z : ℂ, IsRootOf coefficients z → z.re = y → z.im = 0 → eccentricity mu r (v y) = emax

namespace Encloses

variable {mu emax tolerance x : ℝ} {r : Vec3 ℝ} {v : ℝ → Vec3 ℝ} {coefficients : List ℝ}
  {bounds : Option (Interval ℝ)}

/-- An orbit that is not too eccentric is inside the bounds. -/
theorem exists_of_le (h : Encloses mu emax tolerance r v coefficients bounds)
    (hx : eccentricity mu r (v x) ≤ emax) : ∃ b, bounds = some b ∧ x ∈ b.ordinates := by
  by_contra hnone
  push Not at hnone
  exact hx.not_gt (h.lt_of_outside x hnone)

/-- So are all orbits of a set none of which is too eccentric. -/
theorem exists_subset (h : Encloses mu emax tolerance r v coefficients bounds) {S : Set ℝ}
    (hne : S.Nonempty) (hS : ∀ x ∈ S, eccentricity mu r (v x) ≤ emax) :
    ∃ b, bounds = some b ∧ S ⊆ b.ordinates := by
  obtain ⟨x, hx⟩ := hne
  obtain ⟨b, hb, _⟩ := h.exists_of_le (hS x hx)
  refine ⟨b, hb, fun y hy => ?_⟩
  obtain ⟨c, hc, hyc⟩ := h.exists_of_le (hS y hy)
  obtain rfl := Option.some.inj (hc.symm.trans hb)
  exact hyc

end Encloses

namespace Compares

variable {mu emax x : ℝ} {r : Vec3 ℝ} {v : ℝ → Vec3 ℝ} {coefficients : List ℝ}

/-- The polynomial is positive exactly where the eccentricity is too great. -/
theorem pos_iff (h : Compares mu emax r v coefficients) (hmu : mu ≠ 0) (hemax : 0 ≤ emax) :
    0 < horner coefficients x ↔ emax < eccentricity mu r (v x) := by
  rw [h, mul_pos_iff_of_pos_left (by positivity), sub_pos,
    pow_lt_pow_iff_left₀ hemax eccentricity_nonneg two_ne_zero]

/-- The real roots are where the eccentricity is the greatest one. -/
theorem eq_zero_iff (h : Compares mu emax r v coefficients) (hmu : mu ≠ 0) (hemax : 0 ≤ emax) :
    horner coefficients x = 0 ↔ eccentricity mu r (v x) = emax := by
  rw [h, mul_eq_zero, or_iff_right (pow_ne_zero 2 hmu), sub_eq_zero,
    pow_left_inj₀ eccentricity_nonneg hemax two_ne_zero]

variable (h : Compares mu emax r v coefficients) (hmu : mu ≠ 0) (hr : 0 < norm r)
  (hemax0 : 0 ≤ emax) (hemax1 : emax < 1)

include h hmu hr hemax0 hemax1

/-- The polynomial is positive where the orbit is not closed. -/
theorem pos_of_energy_nonneg (hx : 0 ≤ energy mu r (v x)) : 0 < horner coefficients x := by
  have hone := one_le_sq_eccentricity hmu hr hx
  have hlt : emax ^ 2 < 1 := pow_lt_one₀ hemax0 hemax1 two_ne_zero
  rw [h]
  exact mul_pos (by positivity) (sub_pos.mpr (hlt.trans_le hone))

variable (henergy : HasQuadraticEnergy mu r v)

include henergy

/-- The polynomial is positive far away on both sides. -/
theorem exists_pos_around (x : ℝ) :
    (∃ y ≤ x, 0 < horner coefficients y) ∧ ∃ z ≥ x, 0 < horner coefficients z := by
  obtain ⟨a, b, c, ha, henergy⟩ := henergy
  have hpos : ∀ y, 0 ≤ a * y ^ 2 + b * y + c → 0 < horner coefficients y := by
    intro y hy
    rw [henergy] at hy
    exact h.pos_of_energy_nonneg hmu hr hemax0 hemax1 hy
  obtain ⟨⟨y, hy, hey⟩, z, hz, hez⟩ := exists_quadratic_nonneg ha b c x
  exact ⟨⟨y, hy, hpos y hey⟩, z, hz, hpos z hez⟩

/-- The polynomial has a coefficient other than zero. -/
theorem exists_ne_zero : ∃ c ∈ coefficients, c ≠ 0 := by
  obtain ⟨⟨y, _, hy⟩, _⟩ := h.exists_pos_around hmu hr hemax0 hemax1 henergy 0
  exact exists_ne_zero_of_horner hy.ne'

/-- The real roots enclose every value at which the eccentricity is small enough. -/
theorem exists_roots_around (hx : eccentricity mu r (v x) ≤ emax) :
    (∃ l ≤ x, horner coefficients l = 0) ∧ ∃ u ≥ x, horner coefficients u = 0 := by
  obtain ⟨⟨y, hy, hpy⟩, z, hz, hpz⟩ := h.exists_pos_around hmu hr hemax0 hemax1 henergy x
  refine exists_zeros_around (continuous_horner coefficients) hy hz hpy hpz ?_
  rw [← not_lt, h.pos_iff hmu hemax0, not_lt]
  exact hx

/-- The bounds of the real roots exist and enclose the orbits that are not too eccentric. -/
theorem exists_encloses {roots : RootFinder ℝ} (hroots : roots.Exact) {tolerance : ℝ}
    (htolerance : 0 < tolerance) :
    ∃ bounds, realRootBounds roots coefficients tolerance = .ok bounds ∧
      Encloses mu emax tolerance r v coefficients bounds := by
  have hne := h.exists_ne_zero hmu hr hemax0 hemax1 henergy
  obtain ⟨bounds, hbounds, hmem⟩ := hroots.exists_realRootBounds hne htolerance
  refine ⟨bounds, hbounds, fun x hx => ?_, fun b hb y hy => ?_, fun b hb y hy z hz hre him => ?_⟩
  · -- the roots on both sides of a small eccentricity are in the same bounds
    by_contra hle
    obtain ⟨⟨l, hl, hlzero⟩, u, hu, huzero⟩ :=
      h.exists_roots_around hmu hr hemax0 hemax1 henergy (not_lt.mp hle)
    obtain ⟨b, hb, hlb⟩ := hmem l hlzero
    obtain ⟨c, hc, huc⟩ := hmem u huzero
    obtain rfl := Option.some.inj (hb.symm.trans hc)
    exact hx b hb ⟨hlb.1.trans hl, hu.le.trans huc.2⟩
  · rw [hb] at hbounds
    exact hroots.exists_root_of_end hne hbounds hy
  · have hreal : z = (y : ℂ) := Complex.ext hre him
    rw [hreal, isRootOf_ofReal] at hz
    exact (h.eq_zero_iff hmu hemax0).mp hz

end Compares

end Orbit

end AdmissibleRegion
