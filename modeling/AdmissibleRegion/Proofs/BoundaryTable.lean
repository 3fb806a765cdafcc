import AdmissibleRegion.BoundaryTable
import AdmissibleRegion.Proofs.Exact

/-!
# The line that is read in a table

Halving finds the first index at which a test fails that failed nowhere before. In a table with
ascending abscissas, a reading is therefore taken from the two rows around its abscissa, and
beyond the ends from the first two or the last two.
-/

namespace AdmissibleRegion

/-- Halving ends where the test fails for the first time. -/
theorem bisect_spec {below : ℕ → Bool} {low high : ℕ} (hle : low ≤ high)
    (hmono : ∀ i j, i ≤ j → j < high → below j = true → below i = true) :
    low ≤ bisect below low high ∧ bisect below low high ≤ high ∧
      (∀ i, low ≤ i → i < bisect below low high → below i = true) ∧
      ∀ i, bisect below low high ≤ i → i < high → below i = false := by
  fun_induction bisect below low high with
  | case1 low high hlt middle hmiddle ih =>
    obtain ⟨hlow, hhigh, hbefore, hfrom⟩ := ih (by omega) hmono
    refine ⟨by omega, hhigh, fun i _ hi => ?_, hfrom⟩
    rcases Nat.lt_or_ge middle i with h | h
    · exact hbefore i h hi
    · exact hmono i middle h (by omega) hmiddle
  | case2 low high hlt middle hmiddle ih =>
    have hmono' : ∀ i j, i ≤ j → j < middle → below j = true → below i = true :=
      fun i j hij hj => hmono i j hij (by omega)
    obtain ⟨hlow, hhigh, hbefore, hfrom⟩ := ih (by omega) hmono'
    refine ⟨hlow, by omega, hbefore, fun i hi hihigh => ?_⟩
    rcases Nat.lt_or_ge i middle with h | h
    · exact hfrom i hi h
    · rw [Bool.eq_false_iff]
      exact fun hpass => hmiddle (hmono middle i h hihigh hpass)
  | case3 low high hge => exact ⟨le_rfl, hle, by omega, by omega⟩

/-- Both boundaries on the straight lines through two rows. -/
noncomputable def BoundaryRow.joined (left right : BoundaryRow ℝ) (x : ℝ) : Interval ℝ where
  lower := BoundaryTable.line left.abscissa left.lower right.abscissa right.lower x
  upper := BoundaryTable.line left.abscissa left.upper right.abscissa right.upper x

namespace BoundaryTable

/-- A line that meets both points is the line through them. -/
theorem line_eq {x₀ y₀ x₁ y₁ a b : ℝ} (hne : x₀ ≠ x₁) (h₀ : y₀ = a * x₀ + b)
    (h₁ : y₁ = a * x₁ + b) (x : ℝ) : line x₀ y₀ x₁ y₁ x = a * x + b := by
  have hwidth : x₁ - x₀ ≠ 0 := sub_ne_zero.mpr hne.symm
  rw [line, h₀, h₁]
  field_simp
  ring

variable {table : BoundaryTable ℝ}

/-- The abscissas of the rows ascend strictly. -/
def Ascending (table : BoundaryTable ℝ) : Prop :=
  ∀ i j, (hij : i < j) → (hj : j < table.rows.size) →
    table.rows[i].abscissa < table.rows[j].abscissa

theorem isBefore_iff {a b : ℝ} : isBefore a b = true ↔ a < b := by
  simp [isBefore, Scalar.isNaN]

/-- The row to the left is found by halving, with the test whether a row is before the
abscissa. -/
theorem exists_bracket_eq (table : BoundaryTable ℝ) (x : ℝ) : ∃ below : ℕ → Bool,
    (∀ i, (hi : i < table.rows.size) → (below i = true ↔ table.rows[i].abscissa < x)) ∧
      table.bracket x = min (bisect below 0 table.rows.size - 1) (table.rows.size - 2) := by
  refine ⟨_, fun i hi => ?_, rfl⟩
  simp only [Array.getElem?_eq_getElem hi, isBefore_iff]

/-- The search of a reading ends at a rank: the rows before the abscissa are those of a lower
index. -/
theorem exists_rank (hasc : table.Ascending) (x : ℝ) :
    ∃ rank ≤ table.rows.size, table.bracket x = min (rank - 1) (table.rows.size - 2) ∧
      ∀ i, (hi : i < table.rows.size) → (table.rows[i].abscissa < x ↔ i < rank) := by
  obtain ⟨below, hiff, hbracket⟩ := table.exists_bracket_eq x
  have hmono : ∀ i j, i ≤ j → j < table.rows.size → below j = true → below i = true := by
    intro i j hij hj hpass
    rcases hij.eq_or_lt with rfl | hlt
    · exact hpass
    · rw [hiff _ (hlt.trans hj)]
      exact (hasc i j hlt hj).trans ((hiff j hj).mp hpass)
  obtain ⟨_, hrank, hbefore, hfrom⟩ := bisect_spec (Nat.zero_le _) hmono
  refine ⟨_, hrank, hbracket, fun i hi => ?_⟩
  rw [← hiff i hi]
  constructor
  · intro hpass
    by_contra hge
    rw [hfrom i (not_lt.mp hge) hi] at hpass
    cases hpass
  · exact hbefore i i.zero_le

/-- A reading is taken from two rows. The left one is before the abscissa unless it is the first,
and the right one is not unless it is the last. -/
theorem exists_interpolate_eq (hasc : table.Ascending) (x : ℝ) :
    ∃ i, ∃ h : i + 1 < table.rows.size,
      table.interpolate x = table.rows[i].joined table.rows[i + 1] x ∧
      (i = 0 ∨ table.rows[i].abscissa < x) ∧
      (i + 2 = table.rows.size ∨ x ≤ table.rows[i + 1].abscissa) := by
  have hsize := table.two_le_size
  obtain ⟨rank, hrank, hbracket, hiff⟩ := exists_rank hasc x
  have hlt : table.bracket x + 1 < table.rows.size := by omega
  refine ⟨table.bracket x, hlt, rfl, ?_, ?_⟩
  · rw [hiff]
    omega
  · rw [← not_lt, hiff _ hlt]
    omega

end BoundaryTable

end AdmissibleRegion
