import AdmissibleRegion.Proofs.Region.Arcs
import AdmissibleRegion.Region

/-!
# The window of a region

A region stands on a run of complete samples that follow each other in the grid. These lemmas
open a region once: what its samples, its cells, its area and its density are, and what is
known where there is none.
-/

namespace AdmissibleRegion

/-- The abscissas of the samples ascend strictly. -/
def Ascending (samples : List (Sample ℝ)) : Prop :=
  samples.Pairwise fun s t => s.abscissa < t.abscissa

/-- In ascending samples an abscissa belongs to one sample only. -/
theorem Ascending.eq_of_abscissa_eq {samples : List (Sample ℝ)} (h : Ascending samples)
    {s t : Sample ℝ} (hs : s ∈ samples) (ht : t ∈ samples) (he : s.abscissa = t.abscissa) :
    s = t := by
  have hdiff : (samples.map Sample.abscissa).Nodup :=
    List.pairwise_map.mpr (h.imp fun hlt => hlt.ne)
  exact List.inj_on_of_nodup_map hdiff hs ht he

/-- The samples from the first to the last index, both included. -/
def windowOf (samples : List (Sample ℝ)) (first last : ℕ) : List (Sample ℝ) :=
  (samples.drop first).take (last + 1 - first)

theorem windowOf_sublist (samples : List (Sample ℝ)) (first last : ℕ) :
    (windowOf samples first last).Sublist samples :=
  (List.take_sublist _ _).trans (List.drop_sublist _ _)

/-- A window is the run of complete samples from its first index on, and has at least two. -/
theorem windowOf_of_window? {samples : List (Sample ℝ)} {first last : ℕ}
    (h : window? samples = some (first, last)) :
    windowOf samples first last = (samples.drop first).takeWhile Sample.isComplete ∧
      2 ≤ (windowOf samples first last).length := by
  unfold window? at h
  cases hf : samples.findIdx? Sample.canStart with
  | none => simp [hf] at h
  | some start =>
    simp only [hf] at h
    split at h
    · rename_i hlen
      obtain ⟨rfl, rfl⟩ := Prod.mk.inj (Option.some.inj h)
      have hrun : windowOf samples start
          (start + ((samples.drop start).takeWhile Sample.isComplete).length - 1) =
            (samples.drop start).takeWhile Sample.isComplete := by
        have hcount : ∀ n, 2 ≤ n → start + n - 1 + 1 - start = n := by omega
        rw [windowOf, hcount _ hlen]
        exact (List.prefix_iff_eq_take.mp (List.takeWhile_prefix _)).symm
      refine ⟨hrun, ?_⟩
      rw [hrun]
      exact hlen
    · cases h

namespace Region

variable {samples : List (Sample ℝ)} {region : Region ℝ}

/-- What a region is made of. -/
structure Of (samples : List (Sample ℝ)) (region : Region ℝ) : Prop where
  window : window? samples = some (region.first, region.last)
  samples_eq : region.samples = windowOf samples region.first region.last
  cells_eq : region.cells = Cell.ofSamples region.samples
  area_eq : region.area = areaOf region.cells
  area_pos : 0 < region.area
  density_eq : region.density = region.cells.map fun cell => cell.meanWidth / region.area

/-- A region is made of its samples. -/
theorem of_ofSamples (h : ofSamples samples = .ok region) : Of samples region := by
  unfold ofSamples at h
  cases hw : window? samples with
  | none => simp [hw] at h
  | some range =>
    obtain ⟨first, last⟩ := range
    simp only [hw] at h
    split at h
    · rename_i hpos
      obtain rfl := Except.ok.inj h
      exact ⟨hw, rfl, rfl, rfl, by simpa only [Scalar.zero_literal] using hpos, rfl⟩
    · cases h

/-- A window without a region has no positive area. -/
theorem areaOf_nonpos {first last : ℕ} {reason : Emptiness ℝ}
    (hw : window? samples = some (first, last)) (h : ofSamples samples = .error reason) :
    areaOf (Cell.ofSamples (windowOf samples first last)) ≤ 0 := by
  unfold ofSamples at h
  simp only [hw] at h
  split at h
  · cases h
  · rename_i hpos
    rw [Scalar.zero_literal] at hpos
    exact not_lt.mp hpos

/-- A window with a positive area has a region. -/
theorem exists_of_areaOf_pos {first last : ℕ} (hw : window? samples = some (first, last))
    (harea : 0 < areaOf (Cell.ofSamples (windowOf samples first last))) :
    ∃ region, ofSamples samples = .ok region ∧ region.samples = windowOf samples first last := by
  cases h : ofSamples samples with
  | error reason => exact absurd (areaOf_nonpos hw h) (not_le.mpr harea)
  | ok region =>
    have hof := of_ofSamples h
    obtain ⟨rfl, rfl⟩ := Prod.mk.inj (Option.some.inj (hw.symm.trans hof.window))
    exact ⟨region, rfl, hof.samples_eq⟩

namespace Of

theorem samples_sublist (h : Of samples region) : region.samples.Sublist samples := by
  rw [h.samples_eq]
  exact windowOf_sublist _ _ _

theorem ascending (h : Of samples region) (hasc : Ascending samples) :
    Ascending region.samples :=
  hasc.sublist h.samples_sublist

theorem mem_samples (h : Of samples region) {s : Sample ℝ} (hs : s ∈ region.samples) :
    s ∈ samples :=
  h.samples_sublist.subset hs

theorem two_le_length (h : Of samples region) : 2 ≤ region.samples.length := by
  rw [h.samples_eq]
  exact (windowOf_of_window? h.window).2

/-- Every sample of a region has both outer bounds. -/
theorem isComplete (h : Of samples region) {s : Sample ℝ} (hs : s ∈ region.samples) :
    s.isComplete = true := by
  rw [h.samples_eq, (windowOf_of_window? h.window).1] at hs
  exact List.all_eq_true.mp List.all_takeWhile s hs

/-- A region begins before it ends. -/
theorem start_lt_stop (h : Of samples region) (hasc : Ascending samples) :
    region.start < region.stop := by
  have hlen := h.two_le_length
  have hpair := h.ascending hasc
  unfold Region.start Region.stop Region.abscissas
  match hs : region.samples with
  | [] | [_] => simp [hs] at hlen
  | s :: t :: rest =>
    rw [hs] at hpair
    have hlast := List.rel_of_pairwise_cons hpair (List.getLast_mem (List.cons_ne_nil t rest))
    rw [List.map_cons, List.headD_cons, List.getLastD_cons, List.getLastD_eq_getLast?,
      List.getLast?_map, List.getLast?_eq_some_getLast (List.cons_ne_nil t rest)]
    exact hlast

end Of

end Region

end AdmissibleRegion
