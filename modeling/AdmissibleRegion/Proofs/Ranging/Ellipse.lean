import AdmissibleRegion.Proofs.Ranging.Eccentricity

/-!
# The ellipse of a semi-major axis

The orbits of a ranging measurement with one semi-major axis lie on an ellipse in the plane of
the two rates, if there are such orbits. The speed along the line of sight is already part of
their energy; if it is too great for the axis there are none, and the ellipse that is returned
then belongs to no orbit.
-/

namespace AdmissibleRegion

open Vec3

/-- The square of a length by the parts along a line of sight and along both of its
derivatives. -/
theorem Sightline.squaredNorm_mul_sq_cos (ra dec : ℝ) (v : Vec3 ℝ) :
    squaredNorm v * Real.cos dec ^ 2 =
      dot v (frame ra dec).direction ^ 2 * Real.cos dec ^ 2 + dot v (frame ra dec).byRa ^ 2 +
        dot v (frame ra dec).byDec ^ 2 * Real.cos dec ^ 2 := by
  have hra := Real.sin_sq_add_cos_sq ra
  have hdec := Real.sin_sq_add_cos_sq dec
  simp only [squaredNorm, dot, frame]
  -- first the declination, for the part of the vector in the plane of the right ascension
  linear_combination
    -(Real.cos dec ^ 2 * ((v.x * Real.cos ra + v.y * Real.sin ra) ^ 2 + v.z ^ 2)) * hdec -
      Real.cos dec ^ 2 * (v.x ^ 2 + v.y ^ 2) * hra

namespace Ellipse

/-- Whether a point is on the ellipse; an ellipse without extent is its centre. -/
def IsOn (e : Ellipse ℝ) (x y : ℝ) : Prop :=
  if e.semiX = 0 ∧ e.semiY = 0 then x = e.centreX ∧ y = e.centreY
  else ((x - e.centreX) / e.semiX) ^ 2 + ((y - e.centreY) / e.semiY) ^ 2 = 1

/-- The ellipse where a sum of two multiples of squares has a value, up to its sign. -/
noncomputable def ofForm (a b value x y : ℝ) : Ellipse ℝ :=
  ⟨x, y, √|value / a|, √|value / b|⟩

section Form

variable {a b value x y x₀ y₀ : ℝ} (ha : 0 < a) (hb : 0 < b)

include ha hb

theorem ofForm_pos (x₀ y₀ : ℝ) (hvalue : value ≠ 0) :
    0 < (ofForm a b value x₀ y₀).semiX ∧ 0 < (ofForm a b value x₀ y₀).semiY :=
  ⟨Real.sqrt_pos.mpr (abs_pos.mpr (div_ne_zero hvalue ha.ne')),
    Real.sqrt_pos.mpr (abs_pos.mpr (div_ne_zero hvalue hb.ne'))⟩

/-- A point is on the ellipse where the sum is the value, but for the sign. -/
theorem isOn_ofForm_iff :
    (ofForm a b value x₀ y₀).IsOn x y ↔ a * (x - x₀) ^ 2 + b * (y - y₀) ^ 2 = |value| := by
  by_cases hvalue : value = 0
  · have hpoint : a * (x - x₀) ^ 2 + b * (y - y₀) ^ 2 = 0 ↔ x = x₀ ∧ y = y₀ := by
      have hx : 0 ≤ a * (x - x₀) ^ 2 := by positivity
      have hy : 0 ≤ b * (y - y₀) ^ 2 := by positivity
      rw [add_eq_zero_iff_of_nonneg hx hy, mul_eq_zero_iff_left ha.ne',
        mul_eq_zero_iff_left hb.ne', sq_eq_zero_iff, sq_eq_zero_iff, sub_eq_zero, sub_eq_zero]
    simp [IsOn, ofForm, hvalue, hpoint]
  · obtain ⟨hsemiX, hsemiY⟩ := ofForm_pos ha hb x₀ y₀ hvalue
    have hsize : 0 < |value| := abs_pos.mpr hvalue
    rw [IsOn, if_neg fun h => hsemiX.ne' h.1]
    simp only [ofForm]
    rw [div_pow, div_pow, Real.sq_sqrt (abs_nonneg _), Real.sq_sqrt (abs_nonneg _), abs_div,
      abs_div, abs_of_pos ha, abs_of_pos hb]
    field_simp

/-- Some sum has the value exactly if the value is not negative. -/
theorem exists_form_eq_iff (x₀ y₀ : ℝ) :
    (∃ x y, a * (x - x₀) ^ 2 + b * (y - y₀) ^ 2 = value) ↔ 0 ≤ value := by
  constructor
  · rintro ⟨x, y, rfl⟩
    positivity
  · intro h
    have hroot : √(value / a) ^ 2 = value / a := Real.sq_sqrt (div_nonneg h ha.le)
    refine ⟨x₀ + √(value / a), y₀, ?_⟩
    rw [add_sub_cancel_left, sub_self, hroot, mul_div_cancel₀ _ ha.ne']
    ring

/-- The ellipse is that of the value exactly if some sum has the value. -/
theorem exists_form_eq_iff_forall_isOn :
    (∃ x y, a * (x - x₀) ^ 2 + b * (y - y₀) ^ 2 = value) ↔
      ∀ x y, a * (x - x₀) ^ 2 + b * (y - y₀) ^ 2 = value ↔ (ofForm a b value x₀ y₀).IsOn x y := by
  constructor
  · intro h x y
    rw [isOn_ofForm_iff ha hb, abs_of_nonneg ((exists_form_eq_iff ha hb x₀ y₀).mp h)]
  · intro h
    -- there is a point on every ellipse
    obtain ⟨x, y, hxy⟩ := (exists_form_eq_iff ha hb x₀ y₀).mpr (abs_nonneg value)
    exact ⟨x, y, (h x y).mpr ((isOn_ofForm_iff ha hb).mpr hxy)⟩

end Form

end Ellipse

/-- How fast the object moves along the line of sight, seen from the centre. -/
noncomputable def Ranged.sightSpeed (m : Ranged) : ℝ :=
  m.rangeRate + dot m.station.velocity m.sight.direction

namespace Ranging

variable {g : Ranging ℝ} {m : Ranged} {mu a : ℝ}

/-- With both squares completed, the energy is a sum of multiples of squares. -/
theorem complete_squares (h11 : g.a11 ≠ 0) (h22 : g.a22 ≠ 0) (shift x y : ℝ) :
    g.a11 * x ^ 2 + 2 * g.a13 * x + (g.a22 * y ^ 2 + 2 * g.a23 * y) + g.a33 + shift =
      g.a11 * (x - -g.a13 / g.a11) ^ 2 + g.a22 * (y - -g.a23 / g.a22) ^ 2 -
        g.reducedTerm shift := by
  unfold reducedTerm
  field_simp
  ring

namespace Describes

/-- The coefficients of the first powers are products of velocities. -/
theorem a13_eq (h : g.Describes m mu) :
    g.a13 = m.range * dot m.station.velocity m.sight.byRa := by
  have hplus := h.energy_eq 1 0
  have hminus := h.energy_eq (-1) 0
  rw [Orbit.energy_eq_sub, m.squaredNorm_velocity] at hplus hminus
  linarith

theorem a23_eq (h : g.Describes m mu) :
    g.a23 = m.range * dot m.station.velocity m.sight.byDec := by
  have hplus := h.energy_eq 0 1
  have hminus := h.energy_eq 0 (-1)
  rw [Orbit.energy_eq_sub, m.squaredNorm_velocity] at hplus hminus
  linarith

theorem a33_eq (h : g.Describes m mu) :
    g.a33 = m.rangeRate ^ 2 + 2 * dot m.station.velocity m.sight.direction * m.rangeRate +
      squaredNorm m.station.velocity - 2 * mu / norm m.position := by
  have hnone := h.energy_eq 0 0
  rw [Orbit.energy_eq_sub, m.squaredNorm_velocity] at hnone
  linear_combination hnone

section Form

variable (h : g.Describes m mu) (hrange : 0 < m.range) (hcos : Real.cos m.dec ≠ 0)

include h hrange hcos

theorem a11_pos : 0 < g.a11 := by
  rw [h.a11_eq]
  positivity

omit hcos in
theorem a22_pos : 0 < g.a22 := by
  rw [h.a22_eq]
  positivity

/-- What is left of the energy for the motion across the line of sight. -/
theorem reducedTerm_eq (shift : ℝ) :
    g.reducedTerm shift = 2 * mu / norm m.position - shift - m.sightSpeed ^ 2 := by
  have hparts : squaredNorm m.station.velocity =
      dot m.station.velocity m.sight.direction ^ 2 +
        dot m.station.velocity m.sight.byRa ^ 2 / Real.cos m.dec ^ 2 +
        dot m.station.velocity m.sight.byDec ^ 2 := by
    have hmul := Sightline.squaredNorm_mul_sq_cos m.ra m.dec m.station.velocity
    unfold Ranged.sight
    field_simp
    linarith
  rw [reducedTerm, h.a33_eq, h.a13_eq, h.a23_eq, h.a11_eq, h.a22_eq, hparts, Ranged.sightSpeed]
  field_simp
  ring

/-- The orbits of one semi-major axis, by the form in both rates. -/
theorem energy_eq_iff (ha : a ≠ 0) (x y : ℝ) :
    Orbit.energy mu m.position (m.velocity x y) = -mu / (2 * a) ↔
      g.a11 * (x - -g.a13 / g.a11) ^ 2 + g.a22 * (y - -g.a23 / g.a22) ^ 2 =
        g.reducedTerm (mu / a) := by
  have hform := complete_squares (h.a11_pos hrange hcos).ne' (h.a22_pos hrange).ne' (mu / a) x y
  rw [h.energy_eq] at hform
  have haxis : 2 * (-mu / (2 * a)) = -(mu / a) := by
    field_simp
  rw [← mul_right_inj' (two_ne_zero : (2 : ℝ) ≠ 0), haxis, ← sub_eq_zero, sub_neg_eq_add, hform,
    sub_eq_zero]

end Form

end Describes

/-- Every semi-major axis has an ellipse. It is the curve of the orbits with that axis exactly
if there are such orbits, that is if the speed along the line of sight leaves enough energy;
otherwise its extent is still positive. -/
theorem energyEllipse_exact_iff (mu : ℝ) (m : Ranged) (hrange : 0 < m.range)
    (hcos : Real.cos m.dec ≠ 0) (hr : 0 < norm m.position) (ha : 0 < a) :
    ∃ g e, ofMeasurement m.ra m.dec m.range m.rangeRate m.station mu = .ok g ∧
      g.energyEllipse a = .ok e ∧
      ((∃ x y, Orbit.energy mu m.position (m.velocity x y) = -mu / (2 * a)) ↔
        m.sightSpeed ^ 2 ≤ 2 * mu / norm m.position - mu / a) ∧
      ((∃ x y, Orbit.energy mu m.position (m.velocity x y) = -mu / (2 * a)) ↔
        ∀ x y, Orbit.energy mu m.position (m.velocity x y) = -mu / (2 * a) ↔ e.IsOn x y) ∧
      ((¬∃ x y, Orbit.energy mu m.position (m.velocity x y) = -mu / (2 * a)) →
        0 < e.semiX ∧ 0 < e.semiY) := by
  obtain ⟨g, hg, h⟩ := exists_ofMeasurement m mu hr
  have h11 := h.a11_pos hrange hcos
  have h22 := h.a22_pos hrange
  refine ⟨g, .ofForm g.a11 g.a22 (g.reducedTerm (mu / a)) (-g.a13 / g.a11) (-g.a23 / g.a22), hg,
    ?_, ?_⟩
  · have hellipse := energyEllipse_eq_ok h11.ne' h22.ne' ha.ne'
    rwa [h.mu_eq] at hellipse
  simp only [h.energy_eq_iff hrange hcos ha.ne']
  refine ⟨?_, Ellipse.exists_form_eq_iff_forall_isOn h11 h22, fun hnone => ?_⟩
  · rw [Ellipse.exists_form_eq_iff h11 h22, h.reducedTerm_eq hrange hcos, sub_nonneg]
  · rw [Ellipse.exists_form_eq_iff h11 h22] at hnone
    exact Ellipse.ofForm_pos h11 h22 _ _ (not_le.mp hnone).ne

/-- Over the pole, the orbits of axis one have rates on a circle. -/
theorem energyEllipse_exact_iff_overPole : ∃ g e,
    ofMeasurement 0 0 1 0 overPole.station 2 = .ok g ∧ g.energyEllipse 1 = .ok e ∧
      ∀ x y, x ^ 2 + y ^ 2 = 2 ↔ e.IsOn x y := by
  have hr : 0 < norm overPole.position := norm_position_overPole ▸ one_pos
  have hcos : Real.cos overPole.dec ≠ 0 := by simp [overPole]
  obtain ⟨g, e, hg, he, _, hexact, _⟩ :=
    energyEllipse_exact_iff 2 overPole one_pos hcos hr one_pos
  have henergy : ∀ x y : ℝ, Orbit.energy 2 overPole.position (overPole.velocity x y) =
      -2 / (2 * 1) ↔ x ^ 2 + y ^ 2 = 2 := by
    intro x y
    rw [energy_overPole]
    constructor <;> intro h <;> linarith
  refine ⟨g, e, hg, he, fun x y => ?_⟩
  rw [← henergy]
  exact hexact.mp ⟨1, 1, (henergy 1 1).mpr (by norm_num)⟩ x y

/-- Over the pole, no orbit has an axis of a quarter of the distance, but the ellipse of that
axis has an extent. -/
theorem energyEllipse_of_no_orbit : ∃ g e,
    ofMeasurement 0 0 1 0 overPole.station 2 = .ok g ∧ g.energyEllipse (1 / 4) = .ok e ∧
      0 < e.semiX ∧ 0 < e.semiY ∧
      ∀ x y, Orbit.energy 2 overPole.position (overPole.velocity x y) ≠ -2 / (2 * (1 / 4)) := by
  have hr : 0 < norm overPole.position := norm_position_overPole ▸ one_pos
  have hcos : Real.cos overPole.dec ≠ 0 := by simp [overPole]
  obtain ⟨g, hg, h⟩ := exists_ofMeasurement overPole 2 hr
  have h11 := h.a11_pos one_pos hcos
  have h22 := h.a22_pos one_pos
  have hnone : ∀ x y : ℝ, Orbit.energy 2 overPole.position (overPole.velocity x y) ≠
      -2 / (2 * (1 / 4)) := by
    intro x y he
    rw [energy_overPole] at he
    have hx := sq_nonneg x
    have hy := sq_nonneg y
    linarith
  have hneg : g.reducedTerm (2 / (1 / 4)) ≠ 0 := by
    intro hzero
    have hform := (h.energy_eq_iff one_pos hcos (by norm_num : (1 / 4 : ℝ) ≠ 0)
      (-g.a13 / g.a11) (-g.a23 / g.a22)).mpr (by rw [hzero]; ring)
    exact hnone _ _ hform
  obtain ⟨hsemiX, hsemiY⟩ := Ellipse.ofForm_pos h11 h22 (-g.a13 / g.a11)
    (-g.a23 / g.a22) hneg
  refine ⟨g, _, hg, ?_, hsemiX, hsemiY, hnone⟩
  have hellipse := energyEllipse_eq_ok h11.ne' h22.ne' (by norm_num : (1 / 4 : ℝ) ≠ 0)
  rwa [h.mu_eq] at hellipse

end Ranging

end AdmissibleRegion
