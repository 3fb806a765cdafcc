import AdmissibleRegion.Proofs.BoundaryTable

/-!
# The interpolant of a table

A table with ascending abscissas is read on the line through two neighbouring rows: the two around
the abscissa, or the two next to the end that the abscissa is beyond. At the abscissa of a row the
lines to its left and to its right meet in that row. What is read is therefore continuous, and
boundaries that are in order in every row are in order from the first row to the last.
-/

namespace AdmissibleRegion

open AffineMap (lineMap)

/-- Both ends of an interval as a pair. -/
def Interval.ends (b : Interval ℝ) : ℝ × ℝ := (b.lower, b.upper)

/-- The line that is read is the affine map between the two ordinates, at the part of the way. -/
theorem BoundaryTable.line_eq_lineMap (x₀ y₀ x₁ y₁ x : ℝ) :
    line x₀ y₀ x₁ y₁ x = lineMap y₀ y₁ ((x - x₀) / (x₁ - x₀)) := by
  rw [line, AffineMap.lineMap_apply_ring', div_mul_eq_mul_div, div_mul_eq_mul_div,
    mul_comm (x - x₀)]

namespace BoundaryRow

/-- Both boundaries of a row. -/
def bounds (row : BoundaryRow ℝ) : Interval ℝ := ⟨row.lower, row.upper⟩

/-- Both boundaries on the way from one row to another, in proportion to the abscissa. -/
noncomputable def interpolant (left right : BoundaryRow ℝ) (x : ℝ) : Interval ℝ where
  lower := lineMap left.lower right.lower ((x - left.abscissa) / (right.abscissa - left.abscissa))
  upper := lineMap left.upper right.upper ((x - left.abscissa) / (right.abscissa - left.abscissa))

theorem joined_eq_interpolant (left right : BoundaryRow ℝ) (x : ℝ) :
    left.joined right x = left.interpolant right x := by
  rw [joined, BoundaryTable.line_eq_lineMap, BoundaryTable.line_eq_lineMap, interpolant]

/-- The way begins in the first row. -/
theorem interpolant_left (left right : BoundaryRow ℝ) :
    left.interpolant right left.abscissa = left.bounds := by
  rw [interpolant, sub_self, zero_div, AffineMap.lineMap_apply_zero, AffineMap.lineMap_apply_zero,
    bounds]

variable {left right : BoundaryRow ℝ}

/-- It ends in the other. -/
theorem interpolant_right (h : left.abscissa < right.abscissa) :
    left.interpolant right right.abscissa = right.bounds := by
  rw [interpolant, div_self (sub_pos.mpr h).ne', AffineMap.lineMap_apply_one,
    AffineMap.lineMap_apply_one, bounds]

/-- Boundaries that are in order in both rows are in order on the way. -/
theorem lower_le_upper_interpolant (h : left.abscissa < right.abscissa)
    (hleft : left.lower ≤ left.upper) (hright : right.lower ≤ right.upper) {x : ℝ}
    (hx : x ∈ Set.Icc left.abscissa right.abscissa) :
    (left.interpolant right x).lower ≤ (left.interpolant right x).upper := by
  have hwidth := sub_pos.mpr h
  apply lineMap_mono_endpoints hleft hright
  · exact div_nonneg (sub_nonneg.mpr hx.1) hwidth.le
  · rw [div_le_one hwidth]
    exact sub_le_sub_right hx.2 _

theorem continuous_interpolant (left right : BoundaryRow ℝ) :
    Continuous fun x => (left.interpolant right x).ends := by
  have hpart : Continuous fun x => (x - left.abscissa) / (right.abscissa - left.abscissa) :=
    (continuous_id.sub continuous_const).div_const _
  exact (AffineMap.lineMap_continuous.comp hpart).prodMk (AffineMap.lineMap_continuous.comp hpart)

end BoundaryRow

namespace BoundaryTable

/-- If the items of a lower index are those that pass a test, as many as the index pass it. -/
theorem countP_eq_of_iff {α : Type} {items : Array α} {p : α → Bool} {rank : ℕ}
    (hrank : rank ≤ items.size)
    (h : ∀ i, (hi : i < items.size) → (p items[i] = true ↔ i < rank)) :
    items.countP p = rank := by
  have hbefore : (items.toList.take rank).countP p = rank := by
    rw [List.countP_eq_length.mpr, List.length_take_of_le hrank]
    intro a ha
    obtain ⟨i, hi, rfl⟩ := List.mem_take_iff_getElem.mp ha
    rw [Array.length_toList] at hi
    exact (h i (by omega)).mpr (by omega)
  have hfrom : (items.toList.drop rank).countP p = 0 := by
    rw [List.countP_eq_zero]
    intro a ha
    obtain ⟨i, hi, rfl⟩ := List.mem_drop_iff_getElem.mp ha
    rw [Array.length_toList] at hi
    exact fun hpass => absurd ((h (rank + i) (by omega)).mp hpass) (by omega)
  rw [← Array.countP_toList, ← items.toList.take_append_drop rank, List.countP_append, hbefore,
    hfrom, add_zero]

variable {table : BoundaryTable ℝ}

/-- The row to the left is found by the number of rows before the abscissa. -/
theorem bracket_eq (hasc : table.Ascending) (x : ℝ) :
    table.bracket x =
      min (table.rows.countP (fun row => row.abscissa < x) - 1) (table.rows.size - 2) := by
  obtain ⟨rank, hrank, hbracket, hiff⟩ := exists_rank hasc x
  rw [hbracket, countP_eq_of_iff hrank]
  intro i hi
  rw [decide_eq_true_iff, hiff i hi]

theorem Ascending.abscissa_le (hasc : table.Ascending) {i j : ℕ} (hij : i ≤ j)
    (hj : j < table.rows.size) : table.rows[i].abscissa ≤ table.rows[j].abscissa := by
  rcases hij.eq_or_lt with rfl | hlt
  · exact le_rfl
  · exact (hasc i j hlt hj).le

/-- The line through a row and the next is read between the two, and beyond the end where one of
them is the first or the last. -/
theorem interpolate_eq_interpolant (hasc : table.Ascending) {j : ℕ} (hj : j < table.rows.size - 1)
    {x : ℝ} (hbegin : j = 0 ∨ table.rows[j].abscissa ≤ x)
    (hend : j + 2 = table.rows.size ∨ x ≤ table.rows[j + 1].abscissa) :
    table.interpolate x = table.rows[j].interpolant table.rows[j + 1] x := by
  obtain ⟨i, hi, hread, hleft, hright⟩ := exists_interpolate_eq hasc x
  rw [hread, BoundaryRow.joined_eq_interpolant]
  rcases lt_trichotomy i j with hlt | rfl | hgt
  · -- the reading ends where the other line begins, in the row in which both lines meet
    have hx : x ≤ table.rows[i + 1].abscissa := hright.resolve_left (by omega)
    have hbegin := hbegin.resolve_left (by omega)
    obtain rfl : i + 1 = j := by
      by_contra hne
      exact absurd (hasc (i + 1) j (by omega) (by omega)) (hbegin.trans hx).not_gt
    obtain rfl := le_antisymm hx hbegin
    rw [BoundaryRow.interpolant_right (hasc i (i + 1) i.lt_succ_self hi),
      BoundaryRow.interpolant_left]
  · rfl
  · have hx := hleft.resolve_left (by omega)
    have hend := hend.resolve_left (by omega)
    exact absurd (hasc.abscissa_le hgt (by omega)) (hx.trans_le hend).not_ge

/-- At the abscissa of a row, the row is read. -/
theorem interpolate_abscissa (hasc : table.Ascending) {j : ℕ} (hj : j < table.rows.size) :
    table.interpolate table.rows[j].abscissa = table.rows[j].bounds := by
  have hsize := table.two_le_size
  cases j with
  | zero =>
    have hle := hasc.abscissa_le (Nat.zero_le 1) (by omega)
    rw [interpolate_eq_interpolant hasc (j := 0) (by omega) (.inl rfl) (.inr hle),
      BoundaryRow.interpolant_left]
  | succ j =>
    have hlt := hasc j (j + 1) j.lt_succ_self hj
    rw [interpolate_eq_interpolant hasc (by omega) (.inr hlt.le) (.inr le_rfl),
      BoundaryRow.interpolant_right hlt]

/-- The abscissas at which the line through a row and the next is read. -/
def piece (table : BoundaryTable ℝ) (i : Fin (table.rows.size - 1)) : Set ℝ :=
  {x | (i.val = 0 ∨ table.rows[i.val].abscissa ≤ x) ∧
    (i.val + 2 = table.rows.size ∨ x ≤ table.rows[i.val + 1].abscissa)}

theorem isClosed_piece (i : Fin (table.rows.size - 1)) : IsClosed (table.piece i) :=
  (isClosed_const.union isClosed_Ici).inter (isClosed_const.union isClosed_Iic)

theorem iUnion_piece (hasc : table.Ascending) : ⋃ i, table.piece i = Set.univ := by
  refine Set.eq_univ_of_forall fun x => Set.mem_iUnion.mpr ?_
  obtain ⟨i, hi, _, hleft, hright⟩ := exists_interpolate_eq hasc x
  exact ⟨⟨i, by omega⟩, hleft.imp_right le_of_lt, hright⟩

/-- What is read is continuous, as it is on each of finitely many closed pieces. -/
theorem continuous_interpolate (hasc : table.Ascending) :
    Continuous fun x => (table.interpolate x).ends := by
  refine (locallyFinite_of_finite _).continuous (iUnion_piece hasc) isClosed_piece fun i => ?_
  have hline := BoundaryRow.continuous_interpolant table.rows[i.val] table.rows[i.val + 1]
  refine hline.continuousOn.congr fun x hx => ?_
  rw [interpolate_eq_interpolant hasc i.isLt hx.1 hx.2]

/-- Boundaries that are in order in every row are read in order from the first row to the last. -/
theorem lower_le_upper_interpolate (hasc : table.Ascending)
    (hrows : ∀ row ∈ table.rows, row.lower ≤ row.upper) (h : 2 ≤ table.rows.size) {x : ℝ}
    (hx : x ∈ Set.Icc table.rows[0].abscissa table.rows[table.rows.size - 1].abscissa) :
    (table.interpolate x).lower ≤ (table.interpolate x).upper := by
  obtain ⟨i, hi, hread, hleft, hright⟩ := exists_interpolate_eq hasc x
  rw [hread, BoundaryRow.joined_eq_interpolant]
  apply BoundaryRow.lower_le_upper_interpolant (hasc i (i + 1) i.lt_succ_self hi)
  · exact hrows _ (Array.getElem_mem _)
  · exact hrows _ (Array.getElem_mem _)
  · constructor
    · rcases hleft with rfl | hlt
      · exact hx.1
      · exact hlt.le
    · rcases hright with hlast | hle
      · have hend : table.rows.size - 1 = i + 1 := by omega
        simpa only [hend] using hx.2
      · exact hle

/-- A table is read by linear interpolation. The two rows are found by the number of rows before
the abscissa, and the line that is read is that through both neighbours of the abscissa, whichever
two of them are taken, or that through the first or the last two rows beyond the ends. What is read
is the row itself at its abscissa, is continuous, and is in order between the first row and the
last if all rows are. -/
theorem interpolate_piecewise_linear (table : BoundaryTable ℝ) (hasc : table.Ascending) :
    (∀ x, table.bracket x =
      min (table.rows.countP (fun row => row.abscissa < x) - 1) (table.rows.size - 2)) ∧
    (∀ j, (hj : j < table.rows.size - 1) →
      ∀ x ∈ Set.Icc table.rows[j].abscissa table.rows[j + 1].abscissa,
        table.interpolate x = table.rows[j].interpolant table.rows[j + 1] x) ∧
    (∀ j, (hj : j < table.rows.size) →
      table.interpolate table.rows[j].abscissa = table.rows[j].bounds) ∧
    Continuous (fun x => (table.interpolate x).ends) ∧
    ∃ h : 2 ≤ table.rows.size,
      (∀ x < table.rows[0].abscissa,
        table.interpolate x = table.rows[0].interpolant table.rows[1] x) ∧
      (∀ x > table.rows[table.rows.size - 1].abscissa, table.interpolate x =
        table.rows[table.rows.size - 2].interpolant table.rows[table.rows.size - 1] x) ∧
      ((∀ row ∈ table.rows, row.lower ≤ row.upper) →
        ∀ x ∈ Set.Icc table.rows[0].abscissa table.rows[table.rows.size - 1].abscissa,
          (table.interpolate x).lower ≤ (table.interpolate x).upper) := by
  have hsize := table.two_le_size
  refine ⟨bracket_eq hasc, ?_, ?_, continuous_interpolate hasc, hsize, ?_, ?_, ?_⟩
  · intro j hj x hx
    exact interpolate_eq_interpolant hasc hj (.inr hx.1) (.inr hx.2)
  · intro j hj
    exact interpolate_abscissa hasc hj
  · intro x hx
    have hle := hasc.abscissa_le (Nat.zero_le 1) hsize
    exact interpolate_eq_interpolant hasc (by omega) (.inl rfl) (.inr (hx.le.trans hle))
  · intro x hx
    have hnext : table.rows.size - 2 + 1 = table.rows.size - 1 := by omega
    have hle : table.rows[table.rows.size - 2].abscissa ≤
        table.rows[table.rows.size - 1].abscissa := hasc.abscissa_le (by omega) (by omega)
    have hread := interpolate_eq_interpolant hasc (j := table.rows.size - 2) (by omega)
      (.inr (hle.trans hx.le)) (.inl (by omega))
    simpa only [hnext] using hread
  · intro hrows x hx
    exact lower_le_upper_interpolate hasc hrows hsize hx

/-- A table of three rows whose boundaries part at the first. -/
def wedge : BoundaryTable ℝ where
  rows := #[⟨-1, 0, 0⟩, ⟨0, -1, 1⟩, ⟨1, 0, 1⟩]
  two_le_size := by decide

theorem ascending_wedge : wedge.Ascending := by
  intro i j hij hj
  have hsize : wedge.rows.size = 3 := rfl
  obtain ⟨rfl, rfl⟩ | ⟨rfl, rfl⟩ | ⟨rfl, rfl⟩ :
    i = 0 ∧ j = 1 ∨ i = 0 ∧ j = 2 ∨ i = 1 ∧ j = 2 := by omega
  all_goals norm_num [wedge]

/-- In this table, the row in the middle is read at its abscissa, and a line between the rows and
beyond either end. The boundaries cross before the first row. -/
theorem interpolate_piecewise_linear_wedge : wedge.Ascending ∧
    wedge.interpolate 0 = ⟨-1, 1⟩ ∧ wedge.interpolate (1 / 2) = ⟨-1 / 2, 1⟩ ∧
    wedge.interpolate (-2) = ⟨1, -1⟩ ∧ wedge.interpolate 2 = ⟨1, 1⟩ ∧
    Continuous (fun x => (wedge.interpolate x).ends) ∧
    ∀ x ∈ Set.Icc (-1) 1, (wedge.interpolate x).lower ≤ (wedge.interpolate x).upper := by
  obtain ⟨_, hbetween, hrow, hcontinuous, _, hbefore, hbeyond, horder⟩ :=
    interpolate_piecewise_linear wedge ascending_wedge
  refine ⟨ascending_wedge, hrow 1 (by decide), ?_, ?_, ?_, hcontinuous, horder ?_⟩
  · rw [hbetween 1 (by decide) (1 / 2) (by norm_num [wedge])]
    norm_num [wedge, BoundaryRow.interpolant, AffineMap.lineMap_apply_ring']
  · rw [hbefore (-2) (by norm_num [wedge])]
    norm_num [wedge, BoundaryRow.interpolant, AffineMap.lineMap_apply_ring']
  · rw [hbeyond 2 (by norm_num [wedge])]
    norm_num [wedge, BoundaryRow.interpolant, AffineMap.lineMap_apply_ring']
  · intro row hmem
    simp only [wedge, List.mem_toArray, List.mem_cons, List.not_mem_nil, or_false] at hmem
    obtain rfl | rfl | rfl := hmem <;> norm_num

end BoundaryTable

end AdmissibleRegion
