import AdmissibleRegion.Proofs.Region.Cells

/-!
# The cell of an abscissa

Neighbouring cells share an end, so that an abscissa of the grid lies in two of them. The
first cell that contains an abscissa is the one whose left end comes before it, and no other
cell has its left end before it and its right end not.
-/

namespace AdmissibleRegion

namespace Cell

/-- A cell is the one that is found at an abscissa, and the only one of some cells that the
abscissa lies in when left ends are left out. -/
structure IsAt (cells : List (Cell ℝ)) (x : ℝ) (i : ℕ) (cell : Cell ℝ) : Prop where
  getElem?_eq : cells[i]? = some cell
  find?_eq : cells.find? (·.contains x) = some cell
  mem_iff : ∀ j d, cells[j]? = some d → (x ∈ Set.Ioc d.left d.right ↔ j = i)

variable {cells : List (Cell ℝ)} {c : Cell ℝ} {x : ℝ} {i : ℕ}

theorem IsAt.mem_Ioc (h : IsAt cells x i c) : x ∈ Set.Ioc c.left c.right :=
  (h.mem_iff i c h.getElem?_eq).mpr rfl

theorem IsAt.mem_Icc (h : IsAt cells x i c) : x ∈ Set.Icc c.left c.right :=
  Set.Ioc_subset_Icc_self h.mem_Ioc

theorem contains_iff : c.contains x = true ↔ x ∈ Set.Icc c.left c.right := by
  simp [contains]

/-- The first cell is found if the abscissa lies in it and before all other cells. -/
theorem isAt_head (hx : x ∈ Set.Ioc c.left c.right) (hrest : ∀ d ∈ cells, x ≤ d.left) :
    IsAt (c :: cells) x 0 c := by
  refine ⟨rfl, ?_, fun j d hd => ?_⟩
  · exact List.find?_cons_of_pos (contains_iff.mpr (Set.Ioc_subset_Icc_self hx))
  · cases j with
    | zero =>
      obtain rfl := Option.some.inj hd
      exact ⟨fun _ => rfl, fun _ => hx⟩
    | succ j =>
      have hle := hrest d (List.mem_of_getElem? hd)
      exact ⟨fun hmem => absurd hmem.1 hle.not_gt, fun heq => absurd heq j.succ_ne_zero⟩

/-- A later cell is found if the abscissa lies after the first one. -/
theorem IsAt.cons (h : IsAt cells x i c) {first : Cell ℝ} (hx : first.right < x) :
    IsAt (first :: cells) x (i + 1) c := by
  refine ⟨h.getElem?_eq, ?_, fun j d hd => ?_⟩
  · have hout : ¬first.contains x = true := by
      rw [contains_iff]
      exact fun hmem => hmem.2.not_gt hx
    have hskip : (first :: cells).find? (·.contains x) = cells.find? (·.contains x) :=
      List.find?_cons_of_neg hout
    exact hskip.trans h.find?_eq
  · cases j with
    | zero =>
      obtain rfl := Option.some.inj hd
      exact ⟨fun hmem => absurd hmem.2 hx.not_ge, fun heq => absurd heq (i.succ_ne_zero).symm⟩
    | succ j =>
      rw [h.mem_iff j d hd, Nat.succ_inj]

/-- No cell of ascending samples begins before the first sample. -/
theorem le_left_of_mem {s : Sample ℝ} {rest : List (Sample ℝ)} (hasc : Ascending (s :: rest))
    (hc : c ∈ ofSamples (s :: rest)) : s.abscissa ≤ c.left := by
  obtain ⟨t, u, ht, _, _, rfl⟩ := exists_between_of_mem hasc hc
  rw [left_between]
  rcases List.mem_cons.mp ht with rfl | ht
  · exact le_rfl
  · exact (List.rel_of_pairwise_cons hasc ht).le

/-- Ascending samples have a cell at every abscissa after the first and not after the last. -/
theorem exists_isAt {s : Sample ℝ} {rest : List (Sample ℝ)} (hasc : Ascending (s :: rest))
    (hstart : s.abscissa < x) (hstop : ∃ t ∈ rest, x ≤ t.abscissa) :
    ∃ i c, IsAt (ofSamples (s :: rest)) x i c := by
  induction rest generalizing s with
  | nil =>
    obtain ⟨t, ht, _⟩ := hstop
    cases ht
  | cons t rest ih =>
    have hasc' : Ascending (t :: rest) := hasc.of_cons
    by_cases hx : x ≤ t.abscissa
    · refine ⟨0, between s t, isAt_head ?_ fun d hd => hx.trans (le_left_of_mem hasc' hd)⟩
      rw [left_between, right_between]
      exact ⟨hstart, hx⟩
    · have hlater : ∃ u ∈ rest, x ≤ u.abscissa := by
        obtain ⟨u, hu, hxu⟩ := hstop
        rcases List.mem_cons.mp hu with rfl | hu
        · exact absurd hxu hx
        · exact ⟨u, hu, hxu⟩
      obtain ⟨i, c, hc⟩ := ih hasc' (not_le.mp hx) hlater
      have hright : (between s t).right < x := by
        rw [right_between]
        exact not_le.mp hx
      exact ⟨i + 1, c, hc.cons hright⟩

end Cell

/-- Strictly inside a region there is a cell at every abscissa. -/
theorem Region.Of.exists_isAt {samples : List (Sample ℝ)} {region : Region ℝ}
    (h : region.Of samples) (hasc : Ascending samples) {x : ℝ}
    (hx : x ∈ Set.Ioo region.start region.stop) :
    ∃ i cell, Cell.IsAt region.cells x i cell := by
  have hlen := h.two_le_length
  have hpair := h.ascending hasc
  obtain ⟨hstart, hstop⟩ := hx
  unfold Region.start Region.abscissas at hstart
  unfold Region.stop Region.abscissas at hstop
  rw [h.cells_eq]
  match hs : region.samples with
  | [] | [_] => simp [hs] at hlen
  | s :: t :: rest =>
    rw [hs] at hpair hstart hstop
    apply Cell.exists_isAt hpair hstart
    have hlast := List.getLast_mem (List.cons_ne_nil t rest)
    rw [List.map_cons, List.getLastD_cons, List.getLastD_eq_getLast?, List.getLast?_map,
      List.getLast?_eq_some_getLast (List.cons_ne_nil t rest)] at hstop
    exact ⟨_, hlast, hstop.le⟩

end AdmissibleRegion
