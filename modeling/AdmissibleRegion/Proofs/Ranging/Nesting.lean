import AdmissibleRegion.Proofs.Ranging.Ellipse

/-!
# Nested bounds of two semi-major axes

Of two similar ellipses around one centre, the smaller one has its bounds strictly inside those
of the greater one, at every abscissa and however both tables are read there: what is read is
the lowest of the same chords, and each of them rises with the size of its ellipse. The ellipses
of two semi-major axes are similar, so that no sample of a grid has bounds for the lesser axis
without wider ones for the greater, as long as there are orbits with the lesser axis.
-/

namespace AdmissibleRegion

open Vec3

/-- One interval lies inside another, with no end in common. -/
def Interval.IsInside (inner outer : Interval ℝ) : Prop :=
  outer.lower < inner.lower ∧ inner.upper < outer.upper

namespace Ellipse

/-- The height of a chord of a circle of any size. -/
theorem mul_chord_div {s : ℝ} (hs : s ≠ 0) (k : ℕ) (v : ℝ) :
    s * chord k (v / s) =
      (s * Real.cos halfStep - v * Real.cos (middle k)) / Real.sin (middle k) := by
  unfold chord
  field_simp

/-- It rises with the size. -/
theorem mul_chord_div_lt {s t : ℝ} (hs : 0 < s) (hst : s < t) {k : ℕ} (hk : k < 180) (v : ℝ) :
    s * chord k (v / s) < t * chord k (v / t) := by
  rw [mul_chord_div hs.ne', mul_chord_div (hs.trans hst).ne']
  apply div_lt_div_of_pos_right _ (sin_middle_pos hk)
  have hrise := mul_lt_mul_of_pos_right hst cos_halfStep_pos
  linarith

/-- Similar ellipses around one centre have nested readings. -/
theorem isInside_interpolate {centreX centreY p q s t : ℝ} (hp : 0 < p) (hq : 0 < q)
    (hs : 0 < s) (hst : s < t) {inner outer : BoundaryTable ℝ}
    (hinner : BoundaryTable.ofEllipse ⟨centreX, centreY, s * p, s * q⟩ Constants.ellipseRows =
      .ok inner)
    (houter : BoundaryTable.ofEllipse ⟨centreX, centreY, t * p, t * q⟩ Constants.ellipseRows =
      .ok outer) (x : ℝ) : (inner.interpolate x).IsInside (outer.interpolate x) := by
  have ht := hs.trans hst
  obtain ⟨i, hi, hatInner⟩ :=
    exists_isReading (mul_pos hs hp) (by decide) (by decide) hinner x
  obtain ⟨j, hj, hatOuter⟩ :=
    exists_isReading (mul_pos ht hp) (by decide) (by decide) houter x
  have hrank : Constants.ellipseRows.toNat ≤ 181 := by decide
  have hj' : j < 180 := by
    have := hj.lt
    omega
  -- the chord that is read in the outer ellipse is no lower than the lowest in the inner one
  have hheight : s * chord i ((x - centreX) / (s * p)) < t * chord j ((x - centreX) / (t * p)) := by
    have hlowest := mul_le_mul_of_nonneg_left (hi.chord_le hrank hj.lt) hs.le
    have hunit : ∀ r, (x - centreX) / (r * p) = (x - centreX) / p / r := by
      intro r
      rw [mul_comm, div_div]
    rw [hunit] at hlowest
    rw [hunit, hunit]
    exact hlowest.trans_lt (mul_chord_div_lt hs hst hj' _)
  have hscaled := mul_lt_mul_of_pos_left hheight hq
  rw [hatInner, hatOuter]
  simp only [Interval.IsInside, atHeight]
  constructor <;> linarith

/-- At its centre, an ellipse with an extent has bounds. -/
theorem lower_lt_upper_centre {e : Ellipse ℝ} (hx : 0 < e.semiX) (hy : 0 < e.semiY)
    {table : BoundaryTable ℝ}
    (htable : BoundaryTable.ofEllipse e Constants.ellipseRows = .ok table) :
    (table.interpolate e.centreX).lower < (table.interpolate e.centreX).upper := by
  obtain ⟨i, hi, hat⟩ := exists_isReading hx (by decide) (by decide) htable e.centreX
  rw [sub_self, zero_div] at hi hat
  rw [hat, lower_lt_upper_iff hy, hi.chord_pos_iff, zero_mul]
  exact ⟨by norm_num, cos_halfStep_pos⟩

/-- From an ellipse without extent, both boundaries are read as one. -/
theorem interpolate_of_semiY_eq_zero {e : Ellipse ℝ} (hy : e.semiY = 0)
    {table : BoundaryTable ℝ}
    (htable : BoundaryTable.ofEllipse e Constants.ellipseRows = .ok table) (x : ℝ) :
    (table.interpolate x).lower = (table.interpolate x).upper := by
  obtain ⟨table', htable', _, hrow⟩ :=
    e.exists_ofEllipse_rowAt (by decide : 2 ≤ Constants.ellipseRows)
  obtain rfl := Except.ok.inj (htable.symm.trans htable')
  unfold BoundaryTable.interpolate
  simp only [hrow, rowAt, hy, zero_mul, sub_zero, add_zero]

end Ellipse

namespace Ranging

variable {g : Ranging ℝ} {m : Ranged} {mu amin amax : ℝ}

theorem uncrossed?_eq_some_iff {bounds b : Interval ℝ} :
    uncrossed? bounds = some b ↔ bounds.lower < bounds.upper ∧ bounds = b := by
  rw [uncrossed?, Option.ite_none_right_eq_some, Option.some.injEq]

/-- What is left of the energy for the motion across the line of sight is not negative if there
are orbits with the axis. -/
theorem Describes.exists_orbit_iff (h : g.Describes m mu) (hrange : 0 < m.range)
    (hcos : Real.cos m.dec ≠ 0) {a : ℝ} (ha : a ≠ 0) :
    (∃ x y, Orbit.energy mu m.position (m.velocity x y) = -mu / (2 * a)) ↔
      0 ≤ g.reducedTerm (mu / a) := by
  simp only [h.energy_eq_iff hrange hcos ha]
  exact Ellipse.exists_form_eq_iff (h.a11_pos hrange hcos) (h.a22_pos hrange) _ _

theorem reducedTerm_lt_reducedTerm (g : Ranging ℝ) (hmu : 0 < mu) (hamin : 0 < amin)
    (hlt : amin < amax) : g.reducedTerm (mu / amin) < g.reducedTerm (mu / amax) := by
  have hshift := div_lt_div_of_pos_left hmu hamin hlt
  unfold reducedTerm
  linarith

/-- The ellipses of all semi-major axes that orbits have are similar. -/
theorem energyEllipse_eq_scaled (h11 : 0 < g.a11) (h22 : 0 < g.a22) {a : ℝ} (ha : a ≠ 0)
    (hnonneg : 0 ≤ g.reducedTerm (g.mu / a)) :
    g.energyEllipse a = .ok ⟨-g.a13 / g.a11, -g.a23 / g.a22,
      √(g.reducedTerm (g.mu / a)) * (√g.a11)⁻¹, √(g.reducedTerm (g.mu / a)) * (√g.a22)⁻¹⟩ := by
  rw [energyEllipse_eq_ok h11.ne' h22.ne' ha, abs_of_nonneg (div_nonneg hnonneg h11.le),
    abs_of_nonneg (div_nonneg hnonneg h22.le), Real.sqrt_div' _ h11.le, Real.sqrt_div' _ h22.le]
  rfl

/-- Bounds for an axis that some orbit has are inside those for every greater axis. -/
theorem Describes.exists_isInside (h : g.Describes m mu) (hmu : 0 < mu) (hrange : 0 < m.range)
    (hcos : Real.cos m.dec ≠ 0) (hamin : 0 < amin) (hlt : amin < amax)
    (horbit : ∃ x y, Orbit.energy mu m.position (m.velocity x y) = -mu / (2 * amin))
    {inner outer : Ellipse ℝ} {least greatest : BoundaryTable ℝ}
    (hinner : g.energyEllipse amin = .ok inner) (houter : g.energyEllipse amax = .ok outer)
    (hleast : BoundaryTable.ofEllipse inner Constants.ellipseRows = .ok least)
    (hgreatest : BoundaryTable.ofEllipse outer Constants.ellipseRows = .ok greatest) {x : ℝ}
    (hcrossed : (least.interpolate x).lower < (least.interpolate x).upper) :
    (least.interpolate x).IsInside (greatest.interpolate x) := by
  have h11 := h.a11_pos hrange hcos
  have h22 := h.a22_pos hrange
  have hnonneg := (h.exists_orbit_iff hrange hcos hamin.ne').mp horbit
  have hterm := g.reducedTerm_lt_reducedTerm hmu hamin hlt
  rw [← h.mu_eq] at hnonneg hterm
  rw [energyEllipse_eq_scaled h11 h22 hamin.ne' hnonneg, Except.ok.injEq] at hinner
  rw [energyEllipse_eq_scaled h11 h22 (hamin.trans hlt).ne' (hnonneg.trans hterm.le),
    Except.ok.injEq] at houter
  subst hinner houter
  rcases hnonneg.eq_or_lt with hzero | hpos
  · -- an ellipse without extent has no bounds
    have hsemi : √(g.reducedTerm (g.mu / amin)) * (√g.a22)⁻¹ = 0 := by
      rw [← hzero, Real.sqrt_zero, zero_mul]
    exact absurd (Ellipse.interpolate_of_semiY_eq_zero hsemi hleast x) hcrossed.ne
  · exact Ellipse.isInside_interpolate (inv_pos.mpr (Real.sqrt_pos.mpr h11))
      (inv_pos.mpr (Real.sqrt_pos.mpr h22)) (Real.sqrt_pos.mpr hpos)
      (Real.sqrt_lt_sqrt hpos.le hterm) hleast hgreatest x

/-- Tables of similar ellipses around one centre have strictly nested bounds at every abscissa.
So in a grid, if some orbit has the least semi-major axis, every sample with bounds for this axis
has wider ones for the greatest. -/
theorem axisBounds_nested :
    (∀ centreX centreY p q s t : ℝ, 0 < p → 0 < q → 0 < s → s < t → ∃ inner outer,
      BoundaryTable.ofEllipse ⟨centreX, centreY, s * p, s * q⟩ Constants.ellipseRows =
        .ok inner ∧
      BoundaryTable.ofEllipse ⟨centreX, centreY, t * p, t * q⟩ Constants.ellipseRows =
        .ok outer ∧
      ∀ x, (outer.interpolate x).lower < (inner.interpolate x).lower ∧
        (inner.interpolate x).upper < (outer.interpolate x).upper) ∧
    ∀ (m : Ranged) (mu amin amax : ℝ), 0 < m.range → Real.cos m.dec ≠ 0 →
      0 < norm m.position → 0 < mu → 0 < amin → amin < amax →
      (∃ x y, Orbit.energy mu m.position (m.velocity x y) = -mu / (2 * amin)) →
      ∃ g, ofMeasurement m.ra m.dec m.range m.rangeRate m.station mu = .ok g ∧
        ∀ roots step emax samples, g.grid roots step amin amax emax = .ok samples →
          ∀ s ∈ samples, ∀ inner, s.amin = some inner → ∃ outer, s.amax = some outer ∧
            outer.lower < inner.lower ∧ inner.upper < outer.upper := by
  constructor
  · intro centreX centreY p q s t hp hq hs hst
    have hrows : 2 ≤ Constants.ellipseRows := by decide
    obtain ⟨inner, hinner⟩ := Ellipse.exists_ofEllipse
      ⟨centreX, centreY, s * p, s * q⟩ hrows
    obtain ⟨outer, houter⟩ := Ellipse.exists_ofEllipse
      ⟨centreX, centreY, t * p, t * q⟩ hrows
    exact ⟨inner, outer, hinner, houter, Ellipse.isInside_interpolate hp hq hs hst hinner houter⟩
  · intro m mu amin amax hrange hcos hr hmu hamin hlt horbit
    obtain ⟨g, hg, h⟩ := exists_ofMeasurement m mu hr
    refine ⟨g, hg, fun roots step emax samples hgrid s hs inner hsome => ?_⟩
    obtain ⟨_, _, least, greatest, hinner, houter, hleast, hgreatest, hsample⟩ :=
      exists_tables_of_mem_grid hgrid hs
    obtain ⟨_, hsmin, hsmax, _⟩ := exists_of_sampleAt hsample
    obtain ⟨hcrossed, rfl⟩ := uncrossed?_eq_some_iff.mp (hsmin.symm.trans hsome)
    obtain ⟨hlower, hupper⟩ := h.exists_isInside hmu hrange hcos hamin hlt horbit hinner houter
      hleast hgreatest hcrossed
    refine ⟨greatest.interpolate s.abscissa, ?_, hlower, hupper⟩
    rw [hsmax]
    exact uncrossed?_eq_some_iff.mpr ⟨hlower.trans (hcrossed.trans hupper), rfl⟩

/-- Over the pole, there are bounds for the lesser of two axes where the rate of the right ascension
is zero, and those for the greater axis are wider. -/
theorem axisBounds_nested_overPole :
    (∃ inner outer, BoundaryTable.ofEllipse ⟨0, 0, 1 * 3, 1 * 1⟩ Constants.ellipseRows = .ok inner ∧
      BoundaryTable.ofEllipse ⟨0, 0, 2 * 3, 2 * 1⟩ Constants.ellipseRows = .ok outer ∧
      (inner.interpolate (5 : ℝ)).upper < (outer.interpolate 5).upper) ∧
    (∃ x y, Orbit.energy 2 overPole.position (overPole.velocity x y) = -2 / (2 * 1)) ∧
    ∃ g samples, ofMeasurement 0 0 1 0 overPole.station 2 = .ok g ∧
      g.grid exactRoots 1 1 2 (3 / 4) = .ok samples ∧
      ∃ s ∈ samples, s.abscissa = 0 ∧ ∃ inner outer, s.amin = some inner ∧ s.amax = some outer ∧
        outer.lower < inner.lower ∧ inner.upper < outer.upper := by
  have hr : 0 < norm overPole.position := norm_position_overPole ▸ one_pos
  have hcos : Real.cos overPole.dec ≠ 0 := by simp [overPole]
  have horbit : ∃ x y, Orbit.energy 2 overPole.position (overPole.velocity x y) =
      -2 / (2 * 1) := ⟨1, 1, by rw [energy_overPole]; norm_num⟩
  obtain ⟨hsimilar, hgrid⟩ := axisBounds_nested
  obtain ⟨inner, outer, hinner, houter, hnested⟩ := hsimilar 0 0 3 1 1 2 three_pos one_pos one_pos
    one_lt_two
  obtain ⟨g, hg, hsamples⟩ := hgrid overPole 2 1 2 one_pos hcos hr two_pos one_pos one_lt_two horbit
  obtain ⟨g', hg', h⟩ := exists_ofMeasurement overPole 2 hr
  obtain rfl := Except.ok.inj (hg'.symm.trans hg)
  obtain ⟨samples, hsome, hat⟩ := h.exists_grid exact_exactRoots two_pos one_pos hr hcos
    (by norm_num : (0 : ℝ) ≤ 3 / 4) (by norm_num) one_ne_zero two_ne_zero one_pos
  rw [h.extent_overPole] at hat
  obtain ⟨s, hs, hx⟩ := hat 2 (by norm_num)
  have hzero : s.abscissa = 0 := by
    rw [hx]
    norm_num
  have h11 := h.a11_pos one_pos hcos
  have h22 := h.a22_pos one_pos
  have hcentre : -g'.a13 / g'.a11 = 0 := by
    rw [h.a13_eq]
    simp [overPole, dot]
  have hterm : 0 < g'.reducedTerm (g'.mu / 1) := by
    rw [h.mu_eq, h.reducedTerm_eq one_pos hcos, norm_position_overPole]
    simp [Ranged.sightSpeed, overPole, dot]
  obtain ⟨e, _, least, _, he, _, hleast, _, hsample⟩ := exists_tables_of_mem_grid hsome hs
  rw [energyEllipse_eq_scaled h11 h22 one_ne_zero hterm.le, hcentre, Except.ok.injEq] at he
  subst he
  have hcrossed := Ellipse.lower_lt_upper_centre (by positivity) (by positivity) hleast
  have hamin := (exists_of_sampleAt hsample).2.1
  rw [hzero, uncrossed?, if_pos hcrossed] at hamin
  obtain ⟨outer', hamax, hinside⟩ := hsamples _ _ _ samples hsome s hs _ hamin
  exact ⟨⟨inner, outer, hinner, houter, (hnested 5).2⟩, horbit, g', samples, hg, hsome, s, hs,
    hzero, _, outer', hamin, hamax, hinside⟩

end Ranging

end AdmissibleRegion
