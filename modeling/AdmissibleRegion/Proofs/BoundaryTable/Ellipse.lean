import AdmissibleRegion.Constants
import AdmissibleRegion.Proofs.BoundaryTable

/-!
# Reading the table of an ellipse

The rows of the table lie on the ellipse, one degree apart, from the left vertex on. What is read
at an abscissa is a chord through two neighbouring rows, and no other chord is lower there. The
reading is inside the ellipse up to the last row. That row is one degree short of the right
vertex: from there on the last chord runs outside the ellipse, and both boundaries cross only
beyond the vertex.
-/

namespace AdmissibleRegion

open Real (cos sin pi)

namespace Ellipse

/-- Half the step between the angles of two rows. -/
noncomputable def halfStep : ℝ := pi / 360

/-- The angle of a row. -/
noncomputable def angle (k : ℕ) : ℝ := pi - k * (pi / 180)

/-- The angle in the middle between a row and the next. -/
noncomputable def middle (k : ℕ) : ℝ := angle k - halfStep

/-- The first row is the left vertex. -/
theorem angle_zero : angle 0 = pi := by
  rw [angle, Nat.cast_zero, zero_mul, sub_zero]

theorem angle_eq (k : ℕ) : angle k = middle k + halfStep := by
  rw [middle, sub_add_cancel]

theorem angle_succ (k : ℕ) : angle (k + 1) = middle k - halfStep := by
  unfold middle angle halfStep
  push_cast
  ring

theorem halfStep_pos : 0 < halfStep := by
  unfold halfStep
  positivity

theorem sin_halfStep_pos : 0 < sin halfStep :=
  Real.sin_pos_of_pos_of_lt_pi halfStep_pos (by unfold halfStep; linarith [Real.pi_pos])

theorem cos_halfStep_pos : 0 < cos halfStep :=
  Real.cos_pos_of_mem_Ioo ⟨by linarith [halfStep_pos, Real.pi_pos],
    by unfold halfStep; linarith [Real.pi_pos]⟩

/-- The middles of the rows of half a turn lie in its inside. -/
theorem middle_mem_Ioo {k : ℕ} (hk : k < 180) : middle k ∈ Set.Ioo 0 pi := by
  have hcast : (k : ℝ) ≤ 179 := by exact_mod_cast Nat.le_of_lt_succ hk
  have hk0 : (0 : ℝ) ≤ k := k.cast_nonneg
  have hpi := Real.pi_pos
  unfold middle angle halfStep
  constructor <;> nlinarith

theorem sin_middle_pos {k : ℕ} (hk : k < 180) : 0 < sin (middle k) :=
  Real.sin_pos_of_mem_Ioo (middle_mem_Ioo hk)

/-- The abscissas of the rows ascend. -/
theorem cos_angle_lt_cos_angle {i j : ℕ} (hij : i < j) (hj : j ≤ 180) :
    cos (angle i) < cos (angle j) := by
  have hi0 : (0 : ℝ) ≤ i := i.cast_nonneg
  have hcast : (i : ℝ) < j := by exact_mod_cast hij
  have hcast' : (j : ℝ) ≤ 180 := by exact_mod_cast hj
  have hpi := Real.pi_pos
  unfold angle
  apply Real.cos_lt_cos_of_nonneg_of_le_pi <;> nlinarith

theorem cos_angle_le_cos_angle {i j : ℕ} (hij : i ≤ j) (hj : j ≤ 180) :
    cos (angle i) ≤ cos (angle j) := by
  rcases hij.eq_or_lt with rfl | hlt
  · exact le_rfl
  · exact (cos_angle_lt_cos_angle hlt hj).le

theorem cos_middle_le_cos_middle {i j : ℕ} (hij : i ≤ j) (hj : j < 180) :
    cos (middle i) ≤ cos (middle j) := by
  have hcast : (i : ℝ) ≤ j := by exact_mod_cast hij
  apply Real.cos_le_cos_of_nonneg_of_le_pi (middle_mem_Ioo hj).1.le
    (middle_mem_Ioo (hij.trans_lt hj)).2.le
  unfold middle angle
  nlinarith [Real.pi_pos]

/-- The height of the chord of the unit circle through a row and the next. -/
noncomputable def chord (k : ℕ) (u : ℝ) : ℝ :=
  (cos halfStep - u * cos (middle k)) / sin (middle k)

/-- A chord begins at its first row. -/
theorem chord_cos_angle {k : ℕ} (hk : k < 180) : chord k (cos (angle k)) = sin (angle k) := by
  have hcircle := Real.sin_sq_add_cos_sq (middle k)
  rw [chord, div_eq_iff (sin_middle_pos hk).ne', angle_eq, Real.cos_add, Real.sin_add]
  linear_combination -cos halfStep * hcircle

/-- It ends at the next row. -/
theorem chord_cos_angle_succ {k : ℕ} (hk : k < 180) :
    chord k (cos (angle (k + 1))) = sin (angle (k + 1)) := by
  have hcircle := Real.sin_sq_add_cos_sq (middle k)
  rw [chord, div_eq_iff (sin_middle_pos hk).ne', angle_succ, Real.cos_sub, Real.sin_sub]
  linear_combination -cos halfStep * hcircle

/-- A chord is inside the circle between its rows. -/
theorem sq_add_sq_chord_le_one_iff {k : ℕ} (hk : k < 180) (u : ℝ) :
    u ^ 2 + chord k u ^ 2 ≤ 1 ↔ cos (angle k) ≤ u ∧ u ≤ cos (angle (k + 1)) := by
  have hsin := sin_middle_pos hk
  have hlt := cos_angle_lt_cos_angle k.lt_succ_self hk
  have hcircle := Real.sin_sq_add_cos_sq (middle k)
  have hhalf := Real.sin_sq_add_cos_sq halfStep
  have hproduct : (1 - (u ^ 2 + chord k u ^ 2)) * sin (middle k) ^ 2 =
      (u - cos (angle k)) * (cos (angle (k + 1)) - u) := by
    rw [chord, angle_eq, angle_succ, Real.cos_add, Real.cos_sub]
    field_simp
    linear_combination (cos halfStep ^ 2 - u ^ 2) * hcircle - sin (middle k) ^ 2 * hhalf
  rw [← sub_nonneg, ← mul_nonneg_iff_of_pos_right (pow_pos hsin 2), hproduct, mul_nonneg_iff,
    sub_nonneg, sub_nonneg, sub_nonpos, sub_nonpos]
  constructor
  · rintro (hbetween | ⟨hl, hr⟩)
    · exact hbetween
    · linarith
  · exact .inl

/-- Neighbouring chords cross at the row they share. -/
theorem chord_succ_sub_chord {k : ℕ} (hk : k + 1 < 180) (u : ℝ) :
    chord (k + 1) u - chord k u = (cos (angle (k + 1)) - u) *
      (2 * sin halfStep * cos halfStep / (sin (middle k) * sin (middle (k + 1)))) := by
  have hleft := (sin_middle_pos (k.lt_succ_self.trans hk)).ne'
  have hright := (sin_middle_pos hk).ne'
  have hsplit : middle k = angle (k + 1) + halfStep := by rw [angle_succ]; ring
  have hcircle := Real.sin_sq_add_cos_sq (angle (k + 1))
  have hhalf := Real.sin_sq_add_cos_sq halfStep
  unfold chord
  field_simp
  rw [middle, hsplit, Real.cos_add, Real.cos_sub, Real.sin_add, Real.sin_sub]
  linear_combination -2 * u * sin halfStep * cos halfStep * hcircle

theorem chord_le_chord_succ {k : ℕ} (hk : k + 1 < 180) {u : ℝ} (hu : u ≤ cos (angle (k + 1))) :
    chord k u ≤ chord (k + 1) u := by
  have hleft := sin_middle_pos (k.lt_succ_self.trans hk)
  have hright := sin_middle_pos hk
  have hs := sin_halfStep_pos
  have hc := cos_halfStep_pos
  rw [← sub_nonneg, chord_succ_sub_chord hk]
  exact mul_nonneg (sub_nonneg.mpr hu) (by positivity)

theorem chord_succ_le_chord {k : ℕ} (hk : k + 1 < 180) {u : ℝ} (hu : cos (angle (k + 1)) ≤ u) :
    chord (k + 1) u ≤ chord k u := by
  have hleft := sin_middle_pos (k.lt_succ_self.trans hk)
  have hright := sin_middle_pos hk
  have hs := sin_halfStep_pos
  have hc := cos_halfStep_pos
  rw [← sub_nonpos, chord_succ_sub_chord hk]
  exact mul_nonpos_of_nonpos_of_nonneg (sub_nonpos.mpr hu) (by positivity)

/-- From a chord on that ends at an abscissa or beyond it, the chords rise to the right. -/
theorem chord_le_chord_of_le {i j : ℕ} (hij : i ≤ j) (hj : j < 180) {u : ℝ}
    (hu : i = j ∨ u ≤ cos (angle (i + 1))) : chord i u ≤ chord j u := by
  induction j, hij using Nat.le_induction with
  | base => exact le_rfl
  | succ j hij ih =>
    have hend : u ≤ cos (angle (i + 1)) := hu.resolve_left (by omega)
    have hrow := cos_angle_le_cos_angle (Nat.succ_le_succ hij) hj.le
    exact (ih (by omega) (.inr hend)).trans (chord_le_chord_succ hj (hend.trans hrow))

/-- From a chord on that begins before an abscissa, the chords rise to the left. -/
theorem chord_le_chord_of_ge {i j : ℕ} (hji : j ≤ i) (hi : i < 180) {u : ℝ}
    (hu : i = j ∨ cos (angle i) ≤ u) : chord i u ≤ chord j u := by
  induction i, hji using Nat.le_induction with
  | base => exact le_rfl
  | succ i hji ih =>
    have hbegin : cos (angle (i + 1)) ≤ u := hu.resolve_left (by omega)
    have hrow := cos_angle_le_cos_angle i.le_succ hi.le
    exact (chord_succ_le_chord hi hbegin).trans (ih (by omega) (.inr (hrow.trans hbegin)))

/-- The chord that is read at an abscissa in the first rows of the unit circle. -/
structure IsReading (n : ℕ) (u : ℝ) (i : ℕ) : Prop where
  /-- The chord has both rows. -/
  lt : i + 1 < n
  /-- It begins before the abscissa unless it is the first. -/
  left : i = 0 ∨ cos (angle i) < u
  /-- It ends at the abscissa or beyond it unless it is the last. -/
  right : i + 2 = n ∨ u ≤ cos (angle (i + 1))

/-- No chord is lower than the one that is read. -/
theorem IsReading.chord_le {n i j : ℕ} {u : ℝ} (h : IsReading n u i) (hn : n ≤ 181)
    (hj : j + 1 < n) : chord i u ≤ chord j u := by
  have hi := h.lt
  rcases lt_trichotomy i j with hlt | rfl | hgt
  · exact chord_le_chord_of_le hlt.le (by omega) (.inr (h.right.resolve_left (by omega)))
  · exact le_rfl
  · exact chord_le_chord_of_ge hgt.le (by omega) (.inr (h.left.resolve_left (by omega)).le)

/-- The row of an ellipse at the angle of an index. -/
noncomputable def rowAt (e : Ellipse ℝ) (k : ℕ) : BoundaryRow ℝ where
  abscissa := e.centreX + e.semiX * cos (angle k)
  lower := e.centreY - e.semiY * sin (angle k)
  upper := e.centreY + e.semiY * sin (angle k)

/-- Both boundaries at equal heights from the centre, in units of the semi-axis. -/
def atHeight (e : Ellipse ℝ) (height : ℝ) : Interval ℝ where
  lower := e.centreY - e.semiY * height
  upper := e.centreY + e.semiY * height

variable {e : Ellipse ℝ}

/-- The line through two rows is a chord. -/
theorem line_eq_chord (hx : e.semiX ≠ 0) {k : ℕ} (hk : k < 180) (semiY x : ℝ) :
    BoundaryTable.line (e.rowAt k).abscissa (e.centreY + semiY * sin (angle k))
        (e.rowAt (k + 1)).abscissa (e.centreY + semiY * sin (angle (k + 1))) x =
      e.centreY + semiY * chord k ((x - e.centreX) / e.semiX) := by
  have hsin := (sin_middle_pos hk).ne'
  have haffine : ∀ x, e.centreY + semiY * chord k ((x - e.centreX) / e.semiX) =
      -(semiY * cos (middle k) / (e.semiX * sin (middle k))) * x +
        (e.centreY + semiY * (cos halfStep * e.semiX + e.centreX * cos (middle k)) /
          (e.semiX * sin (middle k))) := by
    intro x
    unfold chord
    field_simp
    ring
  have hunit : ∀ k, ((e.rowAt k).abscissa - e.centreX) / e.semiX = cos (angle k) := by
    intro k
    rw [rowAt, add_sub_cancel_left, mul_div_cancel_left₀ _ hx]
  have hne : (e.rowAt k).abscissa ≠ (e.rowAt (k + 1)).abscissa := by
    intro heq
    have hcos := hunit k
    rw [heq, hunit] at hcos
    exact (cos_angle_lt_cos_angle k.lt_succ_self hk).ne' hcos
  rw [haffine x]
  refine BoundaryTable.line_eq hne ?_ ?_ x
  · rw [← haffine, hunit, chord_cos_angle hk]
  · rw [← haffine, hunit, chord_cos_angle_succ hk]

theorem joined_rowAt (hx : e.semiX ≠ 0) {k : ℕ} (hk : k < 180) (x : ℝ) :
    (e.rowAt k).joined (e.rowAt (k + 1)) x =
      e.atHeight (chord k ((x - e.centreX) / e.semiX)) := by
  have hlower := line_eq_chord hx hk (-e.semiY) x
  have hupper := line_eq_chord hx hk e.semiY x
  simp only [neg_mul, ← sub_eq_add_neg] at hlower
  rw [BoundaryRow.joined, atHeight, ← hlower, ← hupper]
  rfl

/-- The table of an ellipse has the rows at the angles of their indices. -/
theorem exists_ofEllipse_rowAt (e : Ellipse ℝ) {rows : ℤ} (hrows : 2 ≤ rows) :
    ∃ table, BoundaryTable.ofEllipse e rows = .ok table ∧ table.rows.size = rows.toNat ∧
      ∀ k, (hk : k < table.rows.size) → table.rows[k] = e.rowAt k := by
  have hangle : ∀ k : ℕ, Scalar.ofInt (180 - Int.ofNat k) * Scalar.pi / (180.0 : ℝ) = angle k := by
    intro k
    have hcast : (Scalar.ofInt (180 - Int.ofNat k) : ℝ) = 180 - k := by
      simp [Scalar.ofInt]
    have hpi : (Scalar.pi : ℝ) = pi := rfl
    have hdegrees : (180.0 : ℝ) = 180 := by norm_num
    rw [hcast, hpi, hdegrees]
    unfold angle
    ring
  unfold BoundaryTable.ofEllipse BoundaryTable.ofRows
  simp only [hangle]
  rw [dif_pos (by simpa using (by omega : 2 ≤ rows.toNat))]
  refine ⟨_, rfl, by simp, fun k hk => ?_⟩
  simp only [List.getElem_toArray, List.getElem_map, List.getElem_range]
  rfl

/-- Every ellipse has a table of two rows or more. -/
theorem exists_ofEllipse (e : Ellipse ℝ) {rows : ℤ} (hrows : 2 ≤ rows) :
    ∃ table, BoundaryTable.ofEllipse e rows = .ok table := by
  obtain ⟨table, htable, _⟩ := e.exists_ofEllipse_rowAt hrows
  exact ⟨table, htable⟩

/-- What is read in the table of an ellipse is the chord around the abscissa. -/
theorem exists_isReading (hx : 0 < e.semiX) {rows : ℤ} (hrows : 2 ≤ rows) (hhalf : rows ≤ 181)
    {table : BoundaryTable ℝ} (htable : BoundaryTable.ofEllipse e rows = .ok table) (x : ℝ) :
    ∃ i, IsReading rows.toNat ((x - e.centreX) / e.semiX) i ∧
      table.interpolate x = e.atHeight (chord i ((x - e.centreX) / e.semiX)) := by
  obtain ⟨table', htable', hsize, hrow⟩ := e.exists_ofEllipse_rowAt hrows
  obtain rfl := Except.ok.inj (htable.symm.trans htable')
  have hasc : table.Ascending := by
    intro i j hij hj
    rw [hrow i, hrow j hj, rowAt, rowAt]
    have hcos := cos_angle_lt_cos_angle hij (by omega)
    exact add_lt_add_right (mul_lt_mul_of_pos_left hcos hx) e.centreX
  obtain ⟨i, hi, hread, hleft, hright⟩ := BoundaryTable.exists_interpolate_eq hasc x
  rw [hrow i, rowAt] at hleft
  rw [hrow (i + 1), rowAt] at hright
  rw [hrow i, hrow (i + 1), joined_rowAt hx.ne' (by omega)] at hread
  refine ⟨i, ⟨by omega, hleft.imp_right fun h => ?_, ?_⟩, hread⟩
  · rw [lt_div_iff₀ hx]
    linarith
  · refine hright.imp (fun h => by omega) fun h => ?_
    rw [div_le_iff₀ hx]
    linarith

theorem chord_pos_iff {k : ℕ} (hk : k < 180) {u : ℝ} :
    0 < chord k u ↔ u * cos (middle k) < cos halfStep := by
  rw [chord, div_pos_iff_of_pos_right (sin_middle_pos hk), sub_pos]

/-- The first chord is as far from the centre as every other, on the left. -/
theorem cos_middle_zero : cos (middle 0) = -cos halfStep := by
  rw [middle, angle_zero, Real.cos_pi_sub]

/-- In the table that is used, all chords are above the centre where the first and the last
are. -/
theorem IsReading.chord_pos_iff {u : ℝ} {i : ℕ} (h : IsReading 180 u i) :
    0 < chord i u ↔ -1 < u ∧ u * cos (3 * halfStep) < cos halfStep := by
  have hi := h.lt
  have hc := cos_halfStep_pos
  have hlast : middle 178 = 3 * halfStep := by
    unfold middle angle halfStep
    push_cast
    ring
  constructor
  · intro hpos
    have hleft := hpos.trans_le (h.chord_le (by norm_num) (by norm_num : 0 + 1 < 180))
    have hright := hpos.trans_le (h.chord_le (by norm_num) (by norm_num : 178 + 1 < 180))
    rw [Ellipse.chord_pos_iff (by norm_num), cos_middle_zero] at hleft
    rw [Ellipse.chord_pos_iff (by norm_num), hlast] at hright
    refine ⟨?_, hright⟩
    by_contra hle
    nlinarith
  · rintro ⟨hleft, hright⟩
    -- the middle of the chord lies between those of the first and of the last
    have hle : cos (middle i) ≤ cos (middle 178) := cos_middle_le_cos_middle (by omega) (by omega)
    have hge : cos (middle 0) ≤ cos (middle i) := cos_middle_le_cos_middle i.zero_le (by omega)
    rw [hlast] at hle
    rw [cos_middle_zero] at hge
    rw [Ellipse.chord_pos_iff (by omega)]
    rcases le_total 0 u with hu | hu
    · exact (mul_le_mul_of_nonneg_left hle hu).trans_lt hright
    · nlinarith

/-- A reading above the centre is inside the circle up to the last row, and no further. -/
theorem IsReading.sq_add_sq_le_one_iff {n : ℕ} {u : ℝ} {i : ℕ} (h : IsReading n u i)
    (hn : n ≤ 181) (hpos : 0 < chord i u) :
    u ^ 2 + chord i u ^ 2 ≤ 1 ↔ u ≤ cos (angle (n - 1)) := by
  have hi := h.lt
  rw [sq_add_sq_chord_le_one_iff (by omega)]
  constructor
  · rintro ⟨_, hright⟩
    exact hright.trans (cos_angle_le_cos_angle (by omega) (by omega))
  · intro hu
    constructor
    · rcases h.left with rfl | hleft
      · -- the first chord is above the centre only to the right of the vertex
        have hc := cos_halfStep_pos
        rw [Ellipse.chord_pos_iff (by omega), cos_middle_zero] at hpos
        rw [angle_zero, Real.cos_pi]
        by_contra hlt
        nlinarith
      · exact hleft.le
    · rcases h.right with hlast | hright
      · rwa [(by omega : i + 1 = n - 1)]
      · exact hright

/-- Whether a point is on the ellipse or inside it. -/
def Contains (e : Ellipse ℝ) (x y : ℝ) : Prop :=
  ((x - e.centreX) / e.semiX) ^ 2 + ((y - e.centreY) / e.semiY) ^ 2 ≤ 1

theorem contains_lower_iff (hy : e.semiY ≠ 0) (x height : ℝ) :
    e.Contains x (e.atHeight height).lower ↔
      ((x - e.centreX) / e.semiX) ^ 2 + height ^ 2 ≤ 1 := by
  rw [Contains, atHeight, sub_sub_cancel_left, neg_div, neg_sq, mul_div_cancel_left₀ _ hy]

theorem contains_upper_iff (hy : e.semiY ≠ 0) (x height : ℝ) :
    e.Contains x (e.atHeight height).upper ↔
      ((x - e.centreX) / e.semiX) ^ 2 + height ^ 2 ≤ 1 := by
  rw [Contains, atHeight, add_sub_cancel_left, mul_div_cancel_left₀ _ hy]

theorem lower_lt_upper_iff (hy : 0 < e.semiY) (height : ℝ) :
    (e.atHeight height).lower < (e.atHeight height).upper ↔ 0 < height := by
  rw [← mul_pos_iff_of_pos_left hy]
  simp only [atHeight]
  constructor <;> intro h <;> linarith

/-- The boundaries that are read from the table of an ellipse cross at the left vertex and beyond
the right one. Where they have not crossed, each of them is inside the ellipse up to the last
row, which is one degree short of the right vertex, and outside from there on. -/
theorem reading_inside_iff (e : Ellipse ℝ) (hx : 0 < e.semiX) (hy : 0 < e.semiY) :
    ∃ table, BoundaryTable.ofEllipse e Constants.ellipseRows = .ok table ∧ ∀ x,
      ((table.interpolate x).lower < (table.interpolate x).upper ↔
        e.centreX - e.semiX < x ∧
          (x - e.centreX) * cos (pi / 120) < e.semiX * cos (pi / 360)) ∧
      ((table.interpolate x).lower < (table.interpolate x).upper →
        (e.Contains x (table.interpolate x).lower ↔
          x ≤ e.centreX + e.semiX * cos (pi / 180)) ∧
        (e.Contains x (table.interpolate x).upper ↔
          x ≤ e.centreX + e.semiX * cos (pi / 180))) := by
  obtain ⟨table, htable⟩ := e.exists_ofEllipse (by decide : 2 ≤ Constants.ellipseRows)
  refine ⟨table, htable, fun x => ?_⟩
  obtain ⟨i, hi, hbounds⟩ := exists_isReading hx (by decide) (by decide) htable x
  have hlast : angle (Constants.ellipseRows.toNat - 1) = pi / 180 := by
    have hrows : Constants.ellipseRows.toNat - 1 = 179 := by decide
    rw [hrows]
    unfold angle
    push_cast
    ring
  have hthree : 3 * halfStep = pi / 120 := by
    unfold halfStep
    ring
  rw [hbounds, lower_lt_upper_iff hy, contains_lower_iff hy.ne', contains_upper_iff hy.ne']
  constructor
  · rw [hi.chord_pos_iff, hthree, halfStep, lt_div_iff₀ hx, div_mul_eq_mul_div, div_lt_iff₀ hx,
      neg_one_mul, neg_lt_sub_iff_lt_add, sub_lt_iff_lt_add', mul_comm e.semiX]
  · intro hpos
    have hinside := hi.sq_add_sq_le_one_iff (by decide) hpos
    rw [hlast, div_le_iff₀ hx, sub_le_iff_le_add', mul_comm] at hinside
    exact ⟨hinside, hinside⟩

/-- The unit circle. -/
def circle : Ellipse ℝ := ⟨0, 0, 1, 1⟩

/-- In the table of the unit circle, both readings at the centre are inside. -/
theorem reading_inside_iff_circle : 0 < circle.semiX ∧ 0 < circle.semiY ∧
    ∃ table, BoundaryTable.ofEllipse circle Constants.ellipseRows = .ok table ∧
      (table.interpolate 0).lower < (table.interpolate 0).upper ∧
      circle.Contains 0 (table.interpolate 0).lower ∧
      circle.Contains 0 (table.interpolate 0).upper := by
  have hpos : 0 < circle.semiX ∧ 0 < circle.semiY := ⟨one_pos, one_pos⟩
  obtain ⟨table, htable, hread⟩ := reading_inside_iff circle hpos.1 hpos.2
  obtain ⟨hcrossed, hinside⟩ := hread 0
  have hstep : 0 < cos (pi / 360) := cos_halfStep_pos
  have hrow : 0 < cos (pi / 180) :=
    Real.cos_pos_of_mem_Ioo ⟨by linarith [Real.pi_pos], by linarith [Real.pi_pos]⟩
  have hlt := hcrossed.mpr ⟨by norm_num [circle], by simpa [circle] using hstep⟩
  obtain ⟨hlower, hupper⟩ := hinside hlt
  have hle : (0 : ℝ) ≤ circle.centreX + circle.semiX * cos (pi / 180) := by
    simpa [circle] using hrow.le
  exact ⟨hpos.1, hpos.2, table, htable, hlt, hlower.mpr hle, hupper.mpr hle⟩

/-- Beyond the right vertex of the unit circle, boundaries are read that have not crossed and are
outside. -/
theorem reading_beyond_vertex :
    ∃ table, BoundaryTable.ofEllipse circle Constants.ellipseRows = .ok table ∧
      (table.interpolate 1.0001).lower < (table.interpolate 1.0001).upper ∧
      ¬circle.Contains 1.0001 (table.interpolate 1.0001).lower ∧
      ¬circle.Contains 1.0001 (table.interpolate 1.0001).upper := by
  have hpos : 0 < circle.semiX ∧ 0 < circle.semiY := ⟨one_pos, one_pos⟩
  obtain ⟨table, htable⟩ := circle.exists_ofEllipse (by decide : 2 ≤ Constants.ellipseRows)
  obtain ⟨i, hi, hbounds⟩ := exists_isReading hpos.1 (by decide) (by decide) htable 1.0001
  have hunit : ((1.0001 : ℝ) - circle.centreX) / circle.semiX = 1.0001 := by
    norm_num [circle]
  have hbeyond : 1.0001 * cos (3 * halfStep) < cos halfStep := by
    have hpi := Real.pi_pos
    have hpi2 : pi ^ 2 < 9.95 := by nlinarith [Real.pi_lt_d2]
    have hsmall : |3 * halfStep| ≤ pi := by
      rw [abs_of_pos (by linarith [halfStep_pos]), halfStep]
      linarith
    have hhigh : cos (3 * halfStep) ≤ 1 - 1 / 7200 := by
      have hbound := Real.cos_le_one_sub_mul_cos_sq hsmall
      have hsquare : 2 / pi ^ 2 * (3 * halfStep) ^ 2 = 1 / 7200 := by
        unfold halfStep
        field_simp
        norm_num
      rwa [hsquare] at hbound
    have hlow : 1 - 9.95 / 360 ^ 2 / 2 ≤ cos halfStep := by
      have hbound := Real.one_sub_sq_div_two_le_cos (x := halfStep)
      unfold halfStep at hbound ⊢
      linarith
    linarith
  rw [hunit] at hi hbounds
  have houtside : ∀ height : ℝ, ¬((1.0001 : ℝ) ^ 2 + height ^ 2 ≤ 1) := by
    intro height
    nlinarith [sq_nonneg height]
  refine ⟨table, htable, ?_, ?_, ?_⟩
  · rw [hbounds, lower_lt_upper_iff hpos.2]
    exact hi.chord_pos_iff.mpr ⟨by norm_num, hbeyond⟩
  · rw [hbounds, contains_lower_iff hpos.2.ne', hunit]
    exact houtside _
  · rw [hbounds, contains_upper_iff hpos.2.ne', hunit]
    exact houtside _

end Ellipse

end AdmissibleRegion
