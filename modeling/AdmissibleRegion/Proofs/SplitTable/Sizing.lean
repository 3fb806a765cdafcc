import AdmissibleRegion.Proofs.SplitTable

/-!
# Sizes and places of covers

An interval is covered by the least number of densities whose size in the table is small enough
for the desired deviation, or by as many as the table has sizes. They stand in equal steps
between its ends. The unit and the origin do not matter.
-/

namespace AdmissibleRegion.SplitTable

open Scalar

section Count

variable {table : SplitTable ℝ} {ratio value width sigma : ℝ} {i n : ℕ}

/-- The count belongs to an index whose size is below the ratio, unless there is none. -/
theorem count_cases (table : SplitTable ℝ) (ratio : ℝ) :
    (∃ i value, table.values[i]? = some value ∧ value < ratio ∧ table.count ratio = i + 1) ∨
      (∀ value ∈ table.values, ratio ≤ value) ∧ table.count ratio = table.size := by
  unfold count
  cases h : table.values.findIdx? (· < ratio) with
  | none =>
    refine .inr ⟨fun value hvalue => ?_, rfl⟩
    have hnever := List.findIdx?_eq_none_iff.mp h value hvalue
    exact not_lt.mp (of_decide_eq_false hnever)
  | some i =>
    obtain ⟨hi, hlt, _⟩ := List.findIdx?_eq_some_iff_getElem.mp h
    exact .inl ⟨i, _, List.getElem?_eq_getElem hi, of_decide_eq_true hlt, rfl⟩

/-- No index before it has a size below the ratio. -/
theorem count_le_succ (hi : table.values[i]? = some value) (hlt : value < ratio) :
    table.count ratio ≤ i + 1 := by
  obtain ⟨hlength, rfl⟩ := List.getElem?_eq_some_iff.mp hi
  unfold count
  cases h : table.values.findIdx? (· < ratio) with
  | none =>
    have hnever := List.findIdx?_eq_none_iff.mp h _ (List.getElem_mem hlength)
    exact absurd hlt (of_decide_eq_false hnever)
  | some j =>
    obtain ⟨_, _, hbefore⟩ := List.findIdx?_eq_some_iff_getElem.mp h
    rw [Nat.succ_le_succ_iff]
    by_contra hij
    exact hbefore i (not_le.mp hij) (decide_eq_true hlt)

/-- A greater ratio needs no more densities. -/
theorem antitone_count (table : SplitTable ℝ) : Antitone table.count := by
  intro ratio ratio' hle
  rcases table.count_cases ratio with ⟨i, value, hi, hlt, hcount⟩ | ⟨_, hcount⟩
  · rw [hcount]
    exact count_le_succ hi (hlt.trans_le hle)
  · rw [hcount]
    exact table.count_le_size ratio'

/-- The number of densities that an interval needs for a desired deviation. -/
structure IsCount (table : SplitTable ℝ) (width sigma : ℝ) (n : ℕ) : Prop where
  one_le : 1 ≤ n
  le_size : n ≤ table.size
  /-- Its index is the least one whose size is small enough; without any, all sizes count. -/
  least : IsLeast {i | ∃ value, table.values[i]? = some value ∧ width * value < sigma} (n - 1) ∨
    (∀ value ∈ table.values, sigma ≤ width * value) ∧ n = table.size

theorem isCount_count (hvalues : table.values ≠ []) (hwidth : 0 < width) (sigma : ℝ) :
    table.IsCount width sigma (table.count (sigma / width)) where
  one_le := count_pos hvalues _
  le_size := table.count_le_size _
  least := by
    rcases table.count_cases (sigma / width) with ⟨i, value, hi, hlt, hcount⟩ | ⟨hall, hcount⟩
    · left
      rw [hcount, Nat.add_sub_cancel]
      refine ⟨⟨value, hi, (lt_div_iff₀' hwidth).mp hlt⟩, ?_⟩
      rintro j ⟨other, hj, hother⟩
      have hle := count_le_succ hj ((lt_div_iff₀' hwidth).mpr hother)
      rw [hcount] at hle
      exact Nat.succ_le_succ_iff.mp hle
    · right
      exact ⟨fun value hvalue => (div_le_iff₀' hwidth).mp (hall value hvalue), hcount⟩

/-- The size for the count is small enough exactly if some size is. -/
theorem IsCount.lt_iff (h : table.IsCount width sigma n) (hn : table.values[n - 1]? = some value) :
    width * value < sigma ↔ ∃ other ∈ table.values, width * other < sigma := by
  constructor
  · intro hlt
    exact ⟨value, List.mem_of_getElem? hn, hlt⟩
  · rintro ⟨other, hmem, hlt⟩
    rcases h.least with ⟨⟨found, hfound, hsmall⟩, _⟩ | ⟨hall, _⟩
    · obtain rfl := Option.some.inj (hn.symm.trans hfound)
      exact hsmall
    · exact absurd hlt (hall other hmem).not_gt

end Count

section Places

variable {start stop : ℝ}

/-- Places and both ends are the multiples of one step. -/
theorem cons_places_append (start stop : ℝ) (n : ℕ) :
    start :: places start stop n ++ [stop] =
      (List.range (n + 2)).map fun k : ℕ => start + k * ((stop - start) / (n + 1)) := by
  have hn : (n + 1 : ℝ) ≠ 0 := by positivity
  rw [List.range_succ, List.range_succ_eq_map, List.map_append, List.map_cons, List.map_map,
    List.map_singleton, places]
  congr 2
  · simp
  · refine List.map_congr_left fun k _ => ?_
    simp only [ofNat_eq_cast, Function.comp_apply]
    push_cast
    ring
  · push_cast
    field_simp
    ring

/-- Neighbouring places are one step apart, and so are the ends from the outermost ones. -/
theorem isChain_places (start stop : ℝ) (n : ℕ) :
    (start :: places start stop n ++ [stop]).IsChain
      fun a b => b - a = (stop - start) / (n + 1) := by
  rw [cons_places_append, List.isChain_map, List.isChain_range]
  intro k _
  push_cast
  ring

/-- The middle of the interval is the average of its places. -/
theorem sum_places (start stop : ℝ) (n : ℕ) :
    (places start stop n).sum = n * ((start + stop) / 2) := by
  have htotal : ((places start stop n).map fun m => m + (start + stop - m)).sum =
      n * (start + stop) := by simp [mul_add]
  rw [List.sum_map_add, List.map_id', ← reverse_places, List.sum_reverse] at htotal
  linarith

/-- Means that stand evenly between the ends of an interval. -/
structure EvenlyPlaced (start stop : ℝ) (means : List ℝ) : Prop where
  ascending : means.Pairwise (· < ·)
  inside : ∀ m ∈ means, m ∈ Set.Ioo start stop
  /-- Neighbours are one step apart, and so are the ends from the outermost means. -/
  spaced : (start :: means ++ [stop]).IsChain
    fun a b => b - a = (stop - start) / (means.length + 1)
  /-- From the last to the first, they are as far from the stop as they are from the start. -/
  symmetric : means.reverse = means.map fun m => start + stop - m
  average : means.sum / means.length = (start + stop) / 2

theorem evenlyPlaced_places (h : start < stop) {n : ℕ} (hn : 0 < n) :
    EvenlyPlaced start stop (places start stop n) where
  ascending := pairwise_places h n
  inside _ hm := mem_Ioo_of_mem_places h hm
  spaced := by
    rw [length_places]
    exact isChain_places start stop n
  symmetric := reverse_places start stop n
  average := by
    have hn' : (n : ℝ) ≠ 0 := by exact_mod_cast hn.ne'
    rw [length_places, sum_places, mul_div_cancel_left₀ _ hn']

end Places

section Cover

variable {table : SplitTable ℝ} {start stop : ℝ}

/-- A table with sizes covers every interval of positive width by as many densities as the desired
deviation needs. They stand evenly, their deviation is small enough if that of some size is, and
neither the unit nor the origin matters. A greater ratio of deviation to width needs no more. -/
theorem sized_and_placed (hvalues : table.values ≠ []) :
    Antitone table.count ∧
    ∀ start stop sigma : ℝ, start < stop →
      ∃ cover, table.cover start stop sigma = .ok cover ∧
        cover.means.length = table.count (sigma / (stop - start)) ∧
        table.IsCount (stop - start) sigma cover.means.length ∧
        EvenlyPlaced start stop cover.means ∧
        (∃ value, table.values[cover.means.length - 1]? = some value ∧
          cover.std = (stop - start) * value) ∧
        (cover.std < sigma ↔ ∃ value ∈ table.values, (stop - start) * value < sigma) ∧
        ∀ k c, 0 < k → table.cover (k * start + c) (k * stop + c) (k * sigma) =
          .ok ⟨cover.means.map fun m => k * m + c, k * cover.std⟩ := by
  refine ⟨table.antitone_count, fun start stop sigma h => ?_⟩
  obtain ⟨value, hvalue, hcover⟩ := exists_cover_eq_ok hvalues h sigma
  have hcount := isCount_count hvalues (sub_pos.mpr h) sigma
  refine ⟨_, hcover, ?_⟩
  rw [length_places]
  refine ⟨rfl, hcount, evenlyPlaced_places h hcount.one_le, ⟨value, hvalue, rfl⟩,
    hcount.lt_iff hvalue, fun k c hk => ?_⟩
  have hwidth : k * stop + c - (k * start + c) = k * (stop - start) := by ring
  have hscaled : k * start + c < k * stop + c := by
    linarith [mul_lt_mul_of_pos_left h hk]
  obtain ⟨value', hvalue', hcover'⟩ := exists_cover_eq_ok hvalues hscaled (k * sigma)
  rw [hwidth, mul_div_mul_left _ _ hk.ne'] at hvalue' hcover'
  obtain rfl := Option.some.inj (hvalue.symm.trans hvalue')
  rw [hcover', places_affine, mul_assoc]

/-- Sizes that neither descend nor ascend. -/
noncomputable def unsorted : SplitTable ℝ := ⟨[0.5, 0.1, 0.3], inMemory⟩

/-- On an interval of width ten, the second of them is the first one that allows a deviation of
two. -/
theorem sized_and_placed_unsorted : unsorted.values ≠ [] ∧ (0 : ℝ) < 10 ∧
    ∃ cover, unsorted.cover 0 10 2 = .ok cover ∧ cover.means.length = 2 ∧
      EvenlyPlaced 0 10 cover.means ∧ cover.std < 2 := by
  have hvalues : unsorted.values ≠ [] := List.cons_ne_nil _ _
  have hwidth : (0 : ℝ) < 10 := by norm_num
  obtain ⟨cover, hcover, _, hcount, hplaced, _, hstd, _⟩ :=
    (sized_and_placed hvalues).2 0 10 2 hwidth
  have hsecond : ∃ value ∈ unsorted.values, (10 - 0) * value < 2 :=
    ⟨0.1, by simp [unsorted], by norm_num⟩
  refine ⟨hvalues, hwidth, cover, hcover, ?_, hplaced, hstd.mpr hsecond⟩
  rcases hcount.least with ⟨⟨value, hat, hsmall⟩, hleast⟩ | ⟨hall, _⟩
  · have hle : cover.means.length - 1 ≤ 1 := hleast ⟨0.1, rfl, by norm_num⟩
    have hone := hcount.one_le
    -- the first size is too large
    have hne : cover.means.length - 1 ≠ 0 := by
      intro hzero
      rw [hzero] at hat
      obtain rfl := Option.some.inj hat
      norm_num at hsmall
    omega
  · obtain ⟨value, hmem, hlt⟩ := hsecond
    exact absurd hlt (hall value hmem).not_gt

end Cover

end AdmissibleRegion.SplitTable
