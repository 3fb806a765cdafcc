import AdmissibleRegion.Proofs.Checked
import AdmissibleRegion.Proofs.Region.Cells

/-!
# Area and density

The area of a region is that of all its segments, none of which is negative, so that a region
exists unless every segment is degenerate. The density of a cell is the width of its segments
in the middle as a share of the area; over all cells it integrates to one.
-/

namespace AdmissibleRegion

open Scalar

/-- No mean width is negative if the widths at the ends are not. -/
theorem Segment.meanWidth_nonneg {g : Segment ℝ} (hstart : g.start.lower ≤ g.start.upper)
    (hstop : g.stop.lower ≤ g.stop.upper) : 0 ≤ g.meanWidth := by
  rw [meanWidth_eq, ArcPoint.width_eq, ArcPoint.width_eq]
  linarith

namespace Cell

variable {c : Cell ℝ}

/-- The segments of a cell have their ends in order and lie above each other. -/
structure Ordered (c : Cell ℝ) : Prop extends Proper c where
  /-- The ends of every segment are in order. -/
  ends : ∀ g ∈ c.segments, g.start.lower ≤ g.start.upper ∧ g.stop.lower ≤ g.stop.upper
  /-- An earlier segment is above a later one at both ends. -/
  stacked : c.segments.Pairwise fun above below =>
    below.start.upper ≤ above.start.lower ∧ below.stop.upper ≤ above.stop.lower

/-- The bounds of a segment exist and are in order all over its cell. -/
theorem Ordered.exists_boundsAt (h : c.Ordered) {g : Segment ℝ} (hg : g ∈ c.segments) {x : ℝ}
    (hx : x ∈ Set.Icc c.left c.right) : ∃ b, g.boundsAt x = .ok b ∧ b.lower ≤ b.upper := by
  obtain ⟨hstart, hstop⟩ := h.ends g hg
  exact ⟨g.boundsOn x, h.boundsAt_eq hg x,
    Segment.boundsOn_lower_le_upper h.left_lt_right (h.spans g hg) hstart hstop hx⟩

/-- The segments of a cell lie above each other all over it. -/
theorem Ordered.pairwise_boundsAt (h : c.Ordered) : c.segments.Pairwise fun above below =>
    ∀ x ∈ Set.Icc c.left c.right, ∀ a b, above.boundsAt x = .ok a → below.boundsAt x = .ok b →
      b.upper ≤ a.lower := by
  refine h.stacked.imp_of_mem fun {above below} ha hb hst x hx a b hab hbb => ?_
  rw [h.boundsAt_eq ha] at hab
  rw [h.boundsAt_eq hb] at hbb
  obtain rfl := Except.ok.inj hab
  obtain rfl := Except.ok.inj hbb
  exact Segment.boundsOn_upper_le_lower h.left_lt_right (h.spans _ ha) (h.spans _ hb)
    hst.1 hst.2 hx

theorem ordered_of_mem {samples : List (Sample ℝ)} (hasc : Ascending samples)
    (hord : ∀ s ∈ samples, s.Ordered) (hc : c ∈ ofSamples samples) : c.Ordered := by
  obtain ⟨s, t, hs, ht, hlt, rfl⟩ := exists_between_of_mem hasc hc
  refine ⟨proper_between hlt, fun g hg => ?_, pairwise_between (hord s hs) (hord t ht)⟩
  obtain ⟨hp, hq⟩ := isEnd_of_mem_between hg
  exact ⟨hp.lower_le_upper (hord s hs), hq.lower_le_upper (hord t ht)⟩

/-- Neighbours are joined by at most two segments. -/
theorem length_segments_le {samples : List (Sample ℝ)} (hasc : Ascending samples)
    (hc : c ∈ ofSamples samples) : c.segments.length ≤ 2 := by
  obtain ⟨s, t, _, _, _, rfl⟩ := exists_between_of_mem hasc hc
  rcases segments_between s t with ⟨p, q, _, _, he⟩ | he
  · simp [he]
  · rw [he, List.length_append]
    have hle : ∀ g : Option (Segment ℝ), g.toList.length ≤ 1 := by rintro (_ | g) <;> simp
    have := hle (segment? s.arcs.upper t.arcs.upper)
    have := hle (segment? s.arcs.lower t.arcs.lower)
    omega

theorem meanWidth_eq (c : Cell ℝ) : c.meanWidth = (c.segments.map Segment.meanWidth).sum := by
  rw [meanWidth, sum_eq]

theorem Ordered.meanWidth_nonneg (h : c.Ordered) : 0 ≤ c.meanWidth := by
  rw [meanWidth_eq]
  apply List.sum_nonneg
  intro w hw
  obtain ⟨g, hg, rfl⟩ := List.mem_map.mp hw
  exact Segment.meanWidth_nonneg (h.ends g hg).1 (h.ends g hg).2

/-- The area of a cell is its mean width times its length. -/
theorem Proper.sum_area (h : c.Proper) :
    (c.segments.map Segment.area).sum = c.meanWidth * (c.right - c.left) := by
  rw [meanWidth_eq, ← List.sum_map_mul_right, List.map_congr_left fun g hg => ?_]
  obtain ⟨hl, hr⟩ := h.spans g hg
  rw [Segment.area, hl, hr]

/-- The widths in the middle of a cell add up to its mean width. -/
theorem Proper.exists_bounds_centre (h : c.Proper) :
    ∃ bounds, c.segments.mapM (·.boundsAt c.centre) = .ok bounds ∧
      (bounds.map fun b => b.upper - b.lower).sum = c.meanWidth := by
  have hcentre : c.centre = c.left + (c.right - c.left) / 2 := by rw [centre, two_literal]
  refine ⟨_, mapM_eq_ok fun g hg => h.boundsAt_eq hg c.centre, ?_⟩
  rw [meanWidth_eq, List.map_map, hcentre, List.map_congr_left fun g hg => ?_]
  exact Segment.boundsOn_middle h.left_lt_right (h.spans g hg)

end Cell

namespace Region

variable {cells : List (Cell ℝ)}

/-- The area of all cells is the sum of mean widths times lengths. -/
theorem areaOf_eq_sum (h : ∀ c ∈ cells, c.Proper) :
    areaOf cells = (cells.map fun c => c.meanWidth * (c.right - c.left)).sum := by
  rw [areaOf, sum_eq]
  induction cells with
  | nil => rfl
  | cons c cells ih =>
    rw [List.flatMap_cons, List.sum_append, (h c List.mem_cons_self).sum_area,
      ih fun d hd => h d (List.mem_cons_of_mem _ hd), List.map_cons, List.sum_cons]

/-- Without area, every segment is degenerate at both ends. -/
theorem width_eq_zero_of_areaOf_nonpos (h : ∀ c ∈ cells, c.Ordered) (harea : areaOf cells ≤ 0)
    {c : Cell ℝ} (hc : c ∈ cells) {g : Segment ℝ} (hg : g ∈ c.segments) :
    g.start.width = 0 ∧ g.stop.width = 0 := by
  have hnonneg : ∀ a ∈ cells.flatMap fun c => c.segments.map Segment.area, 0 ≤ a := by
    intro a ha
    obtain ⟨d, hd, ha⟩ := List.mem_flatMap.mp ha
    obtain ⟨k, hk, rfl⟩ := List.mem_map.mp ha
    obtain ⟨hl, hr⟩ := (h d hd).spans k hk
    rw [Segment.area, hl, hr]
    exact mul_nonneg (Segment.meanWidth_nonneg ((h d hd).ends k hk).1 ((h d hd).ends k hk).2)
      (sub_nonneg.mpr (h d hd).left_lt_right.le)
  have hzero : g.area = 0 := by
    apply List.all_zero_of_le_zero_le_of_sum_eq_zero hnonneg
    · rw [areaOf, sum_eq] at harea
      exact harea.antisymm (List.sum_nonneg hnonneg)
    · exact List.mem_flatMap.mpr ⟨c, hc, List.mem_map_of_mem hg⟩
  obtain ⟨hl, hr⟩ := (h c hc).spans g hg
  obtain ⟨hstart, hstop⟩ := (h c hc).ends g hg
  have hlen : c.right - c.left ≠ 0 := (sub_pos.mpr (h c hc).left_lt_right).ne'
  rw [Segment.area, hl, hr, mul_eq_zero, or_iff_left hlen, Segment.meanWidth_eq,
    ArcPoint.width_eq, ArcPoint.width_eq] at hzero
  rw [ArcPoint.width_eq, ArcPoint.width_eq]
  constructor <;> linarith

/-- What holds of every region: its cells stand between neighbouring abscissas, their segments
do not overlap, and its density is a share of its area. -/
structure WellFormed (region : Region ℝ) : Prop where
  /-- There is one cell for every pair of neighbouring abscissas. -/
  cells_length : region.cells.length + 1 = region.abscissas.length
  /-- A cell stands between the abscissas of its index and of the next one. -/
  cell_spans : ∀ (i : ℕ) (c : Cell ℝ), region.cells[i]? = some c →
    region.abscissas[i]? = some c.left ∧ region.abscissas[i + 1]? = some c.right
  /-- Segments run from the left to the right end of their cell. -/
  segment_spans : ∀ c ∈ region.cells, ∀ g ∈ c.segments,
    g.start.abscissa = c.left ∧ g.stop.abscissa = c.right
  /-- The bounds of a segment exist and are in order all over its cell. -/
  bounds_ordered : ∀ c ∈ region.cells, ∀ g ∈ c.segments, ∀ x ∈ Set.Icc c.left c.right,
    ∃ b, g.boundsAt x = .ok b ∧ b.lower ≤ b.upper
  /-- A cell has at most two segments. -/
  segments_length : ∀ c ∈ region.cells, c.segments.length ≤ 2
  /-- The later of two segments of a cell is below the earlier one all over the cell. -/
  bounds_stacked : ∀ c ∈ region.cells, c.segments.Pairwise fun above below =>
    ∀ x ∈ Set.Icc c.left c.right, ∀ a b, above.boundsAt x = .ok a → below.boundsAt x = .ok b →
      b.upper ≤ a.lower
  area_pos : 0 < region.area
  /-- There is one density for every cell. -/
  density_length : region.density.length = region.cells.length
  /-- The density of a cell is the share of its width in the middle in the area. -/
  density_eq : ∀ (i : ℕ) (c : Cell ℝ) (d : ℝ), region.cells[i]? = some c →
    region.density[i]? = some d → 0 ≤ d ∧ ∃ bounds,
      c.segments.mapM (·.boundsAt c.centre) = .ok bounds ∧
      d = (bounds.map fun b => b.upper - b.lower).sum / region.area
  /-- The density integrates to one. -/
  integral_eq_one : (List.zipWith (fun d length => d * length) region.density
    (List.zipWith (fun left right => right - left) region.abscissas region.abscissas.tail)).sum = 1

namespace Of

variable {samples : List (Sample ℝ)} {region : Region ℝ}

theorem proper (h : Of samples region) (hasc : Ascending samples) :
    ∀ c ∈ region.cells, c.Proper := fun _ hc =>
  Cell.proper_of_mem (h.ascending hasc) (h.cells_eq ▸ hc)

/-- Cell and neighbours have the same index. -/
theorem getElem?_cells (h : Of samples region) (i : ℕ) (c : Cell ℝ) :
    region.cells[i]? = some c ↔ ∃ s t, region.samples[i]? = some s ∧
      region.samples[i + 1]? = some t ∧ c = Cell.between s t := by
  rw [h.cells_eq]
  exact Cell.getElem?_ofSamples

theorem cells_length (h : Of samples region) :
    region.cells.length + 1 = region.samples.length := by
  have := h.two_le_length
  rw [h.cells_eq, Cell.ofSamples_eq_zipWith, List.length_zipWith, List.length_tail]
  omega

/-- The lengths of the cells are the distances of neighbouring abscissas. -/
theorem lengths_eq (h : Of samples region) :
    List.zipWith (fun left right => right - left) region.abscissas region.abscissas.tail =
      region.cells.map fun c => c.right - c.left := by
  rw [h.cells_eq, Cell.ofSamples_eq_zipWith, abscissas, ← List.map_tail, List.zipWith_map,
    List.map_zipWith]
  simp only [Cell.left_between, Cell.right_between]

/-- Shares of the area in every cell add up to one. -/
theorem sum_density (h : Of samples region) (hasc : Ascending samples) :
    (List.zipWith (fun d length => d * length) region.density
      (List.zipWith (fun left right => right - left) region.abscissas
        region.abscissas.tail)).sum = 1 := by
  have hshare : ∀ c : Cell ℝ, c.meanWidth / region.area * (c.right - c.left) =
      c.meanWidth * (c.right - c.left) * region.area⁻¹ := fun c => by ring
  rw [h.lengths_eq, h.density_eq, List.zipWith_map, List.zipWith_self]
  simp only [hshare]
  rw [List.sum_map_mul_right, ← areaOf_eq_sum (h.proper hasc), ← h.area_eq]
  exact mul_inv_cancel₀ h.area_pos.ne'

/-- The density of a cell is a share of the area. -/
theorem density_share (h : Of samples region) (hordered : ∀ c ∈ region.cells, c.Ordered)
    (i : ℕ) (c : Cell ℝ) (d : ℝ) (hc : region.cells[i]? = some c)
    (hd : region.density[i]? = some d) :
    0 ≤ d ∧ ∃ bounds, c.segments.mapM (·.boundsAt c.centre) = .ok bounds ∧
      d = (bounds.map fun b => b.upper - b.lower).sum / region.area := by
  have ho := hordered c (List.mem_of_getElem? hc)
  rw [h.density_eq, List.getElem?_map, hc, Option.map_some, Option.some.injEq] at hd
  obtain ⟨bounds, hbounds, hsum⟩ := ho.exists_bounds_centre
  refine ⟨?_, bounds, hbounds, ?_⟩
  · rw [← hd]
    exact div_nonneg ho.meanWidth_nonneg h.area_pos.le
  · rw [hsum, hd]

theorem wellFormed (h : Of samples region) (hasc : Ascending samples)
    (hord : ∀ s ∈ samples, s.Ordered) : region.WellFormed := by
  have hasc' := h.ascending hasc
  have hmem : ∀ c ∈ region.cells, c ∈ Cell.ofSamples region.samples :=
    fun c hc => h.cells_eq ▸ hc
  have hordered : ∀ c ∈ region.cells, c.Ordered := fun c hc =>
    Cell.ordered_of_mem hasc' (fun s hs => hord s (h.mem_samples hs)) (hmem c hc)
  exact {
    cells_length := by rw [h.cells_length, abscissas, List.length_map]
    cell_spans := by
      intro i c hc
      obtain ⟨s, t, hs, ht, rfl⟩ := (h.getElem?_cells i c).mp hc
      simp [abscissas, hs, ht]
    segment_spans := fun c hc => (hordered c hc).spans
    bounds_ordered := fun c hc _ hg _ hx => (hordered c hc).exists_boundsAt hg hx
    segments_length := fun c hc => Cell.length_segments_le hasc' (hmem c hc)
    bounds_stacked := fun c hc => (hordered c hc).pairwise_boundsAt
    area_pos := h.area_pos
    density_length := by rw [h.density_eq, List.length_map]
    density_eq := h.density_share hordered
    integral_eq_one := h.sum_density hasc }

end Of

/-- A region is well formed, and there is none only where every segment of its window is
degenerate. -/
theorem wellFormed_or_degenerate {samples : List (Sample ℝ)} (hasc : Ascending samples)
    (hord : ∀ s ∈ samples, s.Ordered) :
    (∀ region, ofSamples samples = .ok region → region.WellFormed) ∧
      ∀ first last reason, window? samples = some (first, last) →
        ofSamples samples = .error reason →
          ∀ c ∈ Cell.ofSamples (windowOf samples first last), ∀ g ∈ c.segments,
            g.start.width = 0 ∧ g.stop.width = 0 := by
  constructor
  · intro region hregion
    exact (of_ofSamples hregion).wellFormed hasc hord
  · intro first last reason hw herror c hc g hg
    have hsub := windowOf_sublist samples first last
    have hordered : ∀ d ∈ Cell.ofSamples (windowOf samples first last), d.Ordered := fun d hd =>
      Cell.ordered_of_mem (hasc.sublist hsub) (fun s hs => hord s (hsub.subset hs)) hd
    exact width_eq_zero_of_areaOf_nonpos hordered (areaOf_nonpos hw herror) hc hg

/-- Without a hole, then with one, then with bounds that are disjoint. -/
noncomputable def changing : List (Sample ℝ) :=
  [⟨0, none, some ⟨-0.8, 0.8⟩, some ⟨-0.4, 0.4⟩⟩,
   ⟨0.1, some ⟨-0.2, 0.2⟩, some ⟨-0.8, 0.8⟩, some ⟨-0.4, 0.4⟩⟩,
   ⟨0.3, some ⟨-0.2, 0.2⟩, some ⟨-0.8, 0.8⟩, some ⟨-0.4, 0.4⟩⟩,
   ⟨0.4, none, some ⟨-0.8, 0.8⟩, some ⟨0.9, 1⟩⟩]

theorem ascending_changing : Ascending changing := by
  norm_num [Ascending, changing]

/-- The cells of changing samples: one with a joined point, one with two arcs, and a gap. -/
theorem cells_changing : Cell.ofSamples changing =
    [⟨0, 0.1, .transition, [⟨⟨0, -0.4, 0.4⟩, ⟨0.1, -0.4, 0.4⟩⟩]⟩,
     ⟨0.1, 0.3, .upperLower, [⟨⟨0.1, 0.2, 0.4⟩, ⟨0.3, 0.2, 0.4⟩⟩,
       ⟨⟨0.1, -0.4, -0.2⟩, ⟨0.3, -0.4, -0.2⟩⟩]⟩,
     ⟨0.3, 0.4, .gap, []⟩] := by
  norm_num [changing, Cell.ofSamples, Cell.between, Cell.segment?, Sample.arcs, ArcPoint.between?,
    Arcs.joined?]

theorem exists_region_changing :
    ∃ region, ofSamples changing = .ok region ∧ region.samples = changing := by
  have hw : window? changing = some (0, 3) := by
    norm_num [window?, changing, List.findIdx?_cons, List.takeWhile_cons, Sample.isComplete,
      Sample.canStart]
  have harea : 0 < areaOf (Cell.ofSamples (windowOf changing 0 3)) := by
    change 0 < areaOf (Cell.ofSamples changing)
    norm_num [cells_changing, areaOf, Segment.area, Segment.meanWidth, ArcPoint.width]
  exact exists_of_areaOf_pos hw harea

theorem wellFormed_changing : Ascending changing ∧ (∀ s ∈ changing, s.Ordered) ∧
    ∃ region, ofSamples changing = .ok region ∧ region.WellFormed := by
  have hord : ∀ s ∈ changing, s.Ordered := by
    intro s hs
    fin_cases hs <;> constructor <;> rintro i ⟨⟩ <;> norm_num
  obtain ⟨region, hregion, _⟩ := exists_region_changing
  exact ⟨ascending_changing, hord, region, hregion,
    (wellFormed_or_degenerate ascending_changing hord).1 region hregion⟩

end Region

end AdmissibleRegion
