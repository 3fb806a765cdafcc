import AdmissibleRegion.Proofs.Checked
import AdmissibleRegion.Proofs.Exact
import AdmissibleRegion.SplitTable

/-!
# Covers of an interval

A table that is not empty covers every interval of positive width. The number of densities is
at least one and at most the size of the table, and their places ascend strictly between the
ends. With positive sizes, their deviation is positive as well.
-/

namespace AdmissibleRegion

open Scalar

namespace SplitTable

section Count

variable {K : Type} [Scalar K] {table : SplitTable K}

/-- At least one density is needed. -/
theorem count_pos (h : table.values ≠ []) (ratio : K) : 0 < table.count ratio := by
  unfold count
  cases table.values.findIdx? (· < ratio) with
  | none => exact List.length_pos_of_ne_nil h
  | some i => exact i.succ_pos

/-- No more densities are used than the table has sizes. -/
theorem count_le_size (table : SplitTable K) (ratio : K) : table.count ratio ≤ table.size := by
  unfold count
  cases h : table.values.findIdx? (· < ratio) with
  | none => exact le_rfl
  | some i =>
    obtain ⟨hi, _, _⟩ := List.findIdx?_eq_some_iff_getElem.mp h
    exact hi

/-- The size for as many densities as are needed is in the table. -/
theorem count_sub_one_lt (h : table.values ≠ []) (ratio : K) :
    table.count ratio - 1 < table.values.length := by
  have hpos := count_pos h ratio
  have hle := count_le_size table ratio
  unfold size at hle
  omega

end Count

variable {table : SplitTable ℝ} {start stop : ℝ}

@[simp] theorem length_places (start stop : ℝ) (n : ℕ) : (places start stop n).length = n := by
  simp [places]

/-- Places ascend. -/
theorem pairwise_places (h : start < stop) (n : ℕ) :
    (places start stop n).Pairwise (· < ·) := by
  have hn : (0 : ℝ) < (n + 1 : ℕ) := by exact_mod_cast n.succ_pos
  rw [places, List.pairwise_map]
  refine List.pairwise_lt_range.imp fun {i j} hij => ?_
  have hcast : ((i + 1 : ℕ) : ℝ) < (j + 1 : ℕ) := by exact_mod_cast Nat.succ_lt_succ hij
  rw [ofNat_eq_cast, ofNat_eq_cast, ofNat_eq_cast]
  have hmul := mul_lt_mul_of_pos_left hcast (sub_pos.mpr h)
  exact add_lt_add_right (div_lt_div_of_pos_right hmul hn) start

/-- Places lie strictly between the ends. -/
theorem mem_Ioo_of_mem_places (h : start < stop) {n : ℕ} {m : ℝ} (hm : m ∈ places start stop n) :
    m ∈ Set.Ioo start stop := by
  obtain ⟨k, hk, rfl⟩ := List.mem_map.mp hm
  have hwidth : 0 < stop - start := sub_pos.mpr h
  have hfirst : (0 : ℝ) < (k + 1 : ℕ) := by exact_mod_cast k.succ_pos
  have hcount : (0 : ℝ) < (n + 1 : ℕ) := by exact_mod_cast n.succ_pos
  have hlast : ((k + 1 : ℕ) : ℝ) < (n + 1 : ℕ) := by
    exact_mod_cast Nat.succ_lt_succ (List.mem_range.mp hk)
  have hpart : (stop - start) * (k + 1 : ℕ) / (n + 1 : ℕ) < stop - start := by
    rw [div_lt_iff₀ hcount]
    exact mul_lt_mul_of_pos_left hlast hwidth
  have hpos : 0 < (stop - start) * (k + 1 : ℕ) / (n + 1 : ℕ) :=
    div_pos (mul_pos hwidth hfirst) hcount
  rw [ofNat_eq_cast, ofNat_eq_cast]
  constructor
  · linarith
  · linarith

/-- The first place is not beyond the middle. -/
theorem le_middle_of_getElem?_places (h : start < stop) {n : ℕ} {m : ℝ}
    (hm : (places start stop n)[0]? = some m) : m ≤ (start + stop) / 2 := by
  obtain ⟨hn, rfl⟩ := List.getElem?_eq_some_iff.mp hm
  rw [length_places] at hn
  have hcount : (2 : ℝ) ≤ (n + 1 : ℕ) := by exact_mod_cast Nat.succ_le_succ hn
  have hpart : (stop - start) * (0 + 1 : ℕ) / (n + 1 : ℕ) ≤ (stop - start) / 2 := by
    rw [Nat.cast_one, mul_one]
    exact div_le_div_of_nonneg_left (sub_pos.mpr h).le two_pos hcount
  simp only [places, List.getElem_map, List.getElem_range, ofNat_eq_cast]
  linarith

/-- Places are counted from either end. -/
theorem places_swap (start stop : ℝ) (n : ℕ) :
    places stop start n = (places start stop n).reverse := by
  apply List.ext_getElem
  · simp
  · intro k hk _
    rw [length_places] at hk
    have hcount : ((n + 1 : ℕ) : ℝ) ≠ 0 := by exact_mod_cast n.succ_ne_zero
    have hcast : ((n - 1 - k + 1 : ℕ) : ℝ) = (n + 1 : ℕ) - (k + 1 : ℕ) := by
      rw [eq_sub_iff_add_eq]
      exact_mod_cast (by omega : n - 1 - k + 1 + (k + 1) = n + 1)
    simp only [places, List.getElem_reverse, List.getElem_map, List.getElem_range,
      List.length_map, List.length_range, ofNat_eq_cast]
    rw [hcast]
    field_simp
    ring

/-- Places are mirrored in the middle of the interval. -/
theorem reverse_places (start stop : ℝ) (n : ℕ) :
    (places start stop n).reverse = (places start stop n).map fun m => start + stop - m := by
  rw [← places_swap, places, places, List.map_map]
  refine List.map_congr_left fun k _ => ?_
  rw [Function.comp_apply]
  ring

/-- Places change with the ends of the interval. -/
theorem places_affine (k c start stop : ℝ) (n : ℕ) :
    places (k * start + c) (k * stop + c) n = (places start stop n).map fun m => k * m + c := by
  unfold places
  rw [List.map_map]
  refine List.map_congr_left fun i _ => ?_
  rw [Function.comp_apply]
  ring

/-- The means of a cover are places of its interval. -/
theorem exists_places_of_cover {sigma : ℝ} {cover : Cover ℝ}
    (h : table.cover start stop sigma = .ok cover) : ∃ n, cover.means = places start stop n := by
  obtain ⟨ratio, _, h⟩ := exists_of_bind_eq_ok h
  dsimp only at h
  split at h
  · obtain rfl := Except.ok.inj h
    exact ⟨_, rfl⟩
  · cases h

/-- The cover of an interval of positive width. -/
theorem exists_cover_eq_ok (hvalues : table.values ≠ []) (h : start < stop) (sigma : ℝ) :
    ∃ value, table.values[table.count (sigma / (stop - start)) - 1]? = some value ∧
      table.cover start stop sigma = .ok
        ⟨places start stop (table.count (sigma / (stop - start))), (stop - start) * value⟩ := by
  have hlt := count_sub_one_lt hvalues (sigma / (stop - start))
  refine ⟨_, List.getElem?_eq_getElem hlt, ?_⟩
  unfold cover
  simp only [divide_eq_ok _ (sub_pos.mpr h).ne', ok_bind, List.getElem?_eq_getElem hlt, pure_eq_ok]

/-- An interval of positive width has a cover. -/
theorem cover_eq_ok (hvalues : table.values ≠ []) (h : start < stop) (sigma : ℝ) :
    ∃ n value, 0 < n ∧ value ∈ table.values ∧
      table.cover start stop sigma = .ok ⟨places start stop n, (stop - start) * value⟩ := by
  obtain ⟨value, hvalue, hcover⟩ := exists_cover_eq_ok hvalues h sigma
  exact ⟨_, value, count_pos hvalues _, List.mem_of_getElem? hvalue, hcover⟩

/-- A table that can be used: it has at least one size, and its sizes are finite and positive. -/
structure Valid {K : Type} [Scalar K] (table : SplitTable K) : Prop where
  ne_nil : table.values ≠ []
  positive : ∀ value ∈ table.values, isFinite value = true ∧ 0.0 < value

theorem Valid.pos (h : table.Valid) {value : ℝ} (hv : value ∈ table.values) : 0 < value := by
  have hpos := (h.positive value hv).2
  rwa [zero_literal] at hpos

end SplitTable

/-- Normal densities cover an interval: there are some, they ascend strictly between its ends,
and their deviation is positive. -/
structure Cover.Fits (cover : Cover ℝ) (start stop : ℝ) : Prop where
  ne_nil : cover.means ≠ []
  ascending : cover.means.Pairwise (· < ·)
  inside : ∀ m ∈ cover.means, m ∈ Set.Ioo start stop
  std_pos : 0 < cover.std

/-- A valid table covers every interval of positive width. -/
theorem SplitTable.Valid.exists_cover {table : SplitTable ℝ} (htable : table.Valid)
    {start stop : ℝ} (h : start < stop) (sigma : ℝ) :
    ∃ cover, table.cover start stop sigma = .ok cover ∧ cover.Fits start stop := by
  obtain ⟨n, value, hn, hvalue, hcover⟩ := cover_eq_ok htable.ne_nil h sigma
  refine ⟨_, hcover, ?_, pairwise_places h n, fun m hm => mem_Ioo_of_mem_places h hm, ?_⟩
  · apply List.ne_nil_of_length_pos
    rwa [length_places]
  · exact mul_pos (sub_pos.mpr h) (htable.pos hvalue)

end AdmissibleRegion
