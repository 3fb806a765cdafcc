import AdmissibleRegion.Proofs.Region.Extent

/-!
# Abscissas counted the other way

Abscissas may be measured in another unit, from another origin and in the opposite direction.
The samples then follow each other in reverse, and so do the cells, whose ends change places.
Where samples are one window from either end, the region is the same but for its abscissas:
every rule for a pair of neighbours treats its left and its right end alike. In general it is
not, since a window begins only where a region can begin, but may end anywhere.
-/

namespace AdmissibleRegion

open Scalar

/-- All samples are complete, and a region can begin at the first one and, counted the other
way, at the last one. -/
structure Spanning (samples : List (Sample ℝ)) : Prop where
  ascending : Ascending samples
  two_le_length : 2 ≤ samples.length
  complete : ∀ s ∈ samples, s.Complete
  startable_head : ∃ s, samples.head? = some s ∧ s.Startable
  startable_last : ∃ s, samples.getLast? = some s ∧ s.Startable

namespace Spanning

variable {samples : List (Sample ℝ)}

/-- The window has all samples. -/
theorem window?_eq (h : Spanning samples) :
    window? samples = some (0, samples.length - 1) := by
  have hlen := h.two_le_length
  obtain ⟨s, hs, hstart⟩ := h.startable_head
  rw [window?_eq_some_iff_isWindow]
  exact {
    startable := ⟨s, by rw [← List.head?_eq_getElem?, hs], hstart⟩
    least := fun i hi => absurd hi i.not_lt_zero
    first_lt_last := by omega
    complete := by
      intro i _ hi
      have hlt : i < samples.length := by omega
      exact ⟨samples[i], List.getElem?_eq_getElem hlt, h.complete _ (List.getElem_mem hlt)⟩
    stops := .inl (by omega) }

/-- The samples of the window are all samples. -/
theorem windowOf_eq (h : Spanning samples) : windowOf samples 0 (samples.length - 1) = samples := by
  have hlen := h.two_le_length
  have hcount : samples.length - 1 + 1 = samples.length := by omega
  rw [windowOf, hcount, Nat.sub_zero, List.drop_zero, List.take_length]

end Spanning

/-- Neighbours of a reversed list are reversed neighbours. -/
theorem zipWith_tail_reverse {α β : Type} (f : α → α → β) (xs : List α) :
    List.zipWith f xs.reverse xs.reverse.tail =
      (List.zipWith (fun a b => f b a) xs xs.tail).reverse := by
  have hneighbours : ∀ (g : α → α → β) (ys : List α),
      List.zipWith g ys ys.tail = List.zipWith g ys.dropLast ys.tail := by
    intro g ys
    rw [List.zipWith_eq_zipWith_take_min, List.length_tail, Nat.min_eq_right (Nat.sub_le _ _),
      ← List.dropLast_eq_take, ← List.length_tail, List.take_length]
  have hlength : xs.tail.length = xs.dropLast.length := by
    rw [List.length_tail, List.length_dropLast]
  rw [hneighbours, List.dropLast_reverse, List.tail_reverse, ← List.reverse_zipWith hlength,
    List.zipWith_comm, ← hneighbours]

/-- A change of the unit, of the origin and of the direction of abscissas. -/
structure Reversal where
  /-- The new size of the old unit. -/
  scale : ℝ
  /-- The new place of the old origin. -/
  shift : ℝ
  scale_pos : 0 < scale

namespace Reversal

variable (R : Reversal)

/-- The new value of an abscissa. -/
def apply (x : ℝ) : ℝ := R.shift - R.scale * x

/-- A sample after the change. -/
def sample (s : Sample ℝ) : Sample ℝ := { s with abscissa := R.apply s.abscissa }

/-- Samples after the change, in the order of their new abscissas. -/
def samples (samples : List (Sample ℝ)) : List (Sample ℝ) := (samples.map R.sample).reverse

/-- A point of an arc after the change. -/
def point (p : ArcPoint ℝ) : ArcPoint ℝ := { p with abscissa := R.apply p.abscissa }

/-- The arcs through a sample after the change. -/
def arcs (arcs : Arcs ℝ) : Arcs ℝ :=
  ⟨arcs.upper.map R.point, arcs.lower.map R.point, arcs.main.map R.point⟩

/-- A segment after the change begins where it has ended. -/
def segment (g : Segment ℝ) : Segment ℝ := ⟨R.point g.stop, R.point g.start⟩

/-- A cell after the change. -/
def cell (c : Cell ℝ) : Cell ℝ where
  left := R.apply c.right
  right := R.apply c.left
  kind := c.kind
  segments := c.segments.map R.segment

/-- Cells after the change, in the order of their new abscissas. -/
def cells (cells : List (Cell ℝ)) : List (Cell ℝ) := (cells.map R.cell).reverse

/-- A region of all samples after the change. -/
noncomputable def region (r : Region ℝ) : Region ℝ where
  first := r.first
  last := r.last
  samples := R.samples r.samples
  cells := R.cells r.cells
  area := R.scale * r.area
  density := (r.density.map (· / R.scale)).reverse

/-- The reason why there is no region, after the change. -/
def emptiness : Emptiness ℝ → Emptiness ℝ
  | .noWindow samples => .noWindow samples
  | .noArea first last area => .noArea first last (R.scale * area)

theorem strictAnti_apply : StrictAnti R.apply := fun _ _ h =>
  sub_lt_sub_left (mul_lt_mul_of_pos_left h R.scale_pos) R.shift

/-- Distances are scaled and change their sign. -/
theorem apply_sub_apply (x y : ℝ) : R.apply x - R.apply y = R.scale * (y - x) := by
  unfold apply
  ring

section Samples

variable {samples : List (Sample ℝ)}

@[simp] theorem length_samples (samples : List (Sample ℝ)) :
    (R.samples samples).length = samples.length := by
  rw [Reversal.samples, List.length_reverse, List.length_map]

theorem ascending_samples (h : Ascending samples) : Ascending (R.samples samples) := by
  rw [Ascending, Reversal.samples, List.pairwise_reverse, List.pairwise_map]
  exact h.imp fun hlt => R.strictAnti_apply hlt

/-- Samples that are one window from either end stay so. -/
theorem spanning_samples (h : Spanning samples) : Spanning (R.samples samples) where
  ascending := R.ascending_samples h.ascending
  two_le_length := by
    rw [length_samples]
    exact h.two_le_length
  complete := by
    intro t ht
    obtain ⟨s, hs, rfl⟩ := List.mem_map.mp (List.mem_reverse.mp ht)
    exact h.complete s hs
  startable_head := by
    obtain ⟨s, hs, hstart⟩ := h.startable_last
    refine ⟨R.sample s, ?_, hstart⟩
    rw [Reversal.samples, List.head?_reverse, List.getLast?_map, hs, Option.map_some]
  startable_last := by
    obtain ⟨s, hs, hstart⟩ := h.startable_head
    refine ⟨R.sample s, ?_, hstart⟩
    rw [Reversal.samples, List.getLast?_reverse, List.head?_map, hs, Option.map_some]

end Samples

section Cells

theorem between?_apply (x l u : ℝ) :
    ArcPoint.between? (R.apply x) l u = (ArcPoint.between? x l u).map R.point := by
  unfold ArcPoint.between?
  split <;> rfl

/-- The arcs change with their sample. -/
theorem arcs_sample (s : Sample ℝ) : (R.sample s).arcs = R.arcs s.arcs := by
  obtain ⟨x, hole, _ | a, _ | e⟩ := s <;> try rfl
  cases hole with
  | none => simp [sample, Sample.arcs, arcs, between?_apply]
  | some hole =>
    simp [sample, Sample.arcs, arcs, between?_apply, apply_ite (Option.map R.point)]

/-- Arcs are joined from the same lowest to the same highest ordinate. -/
theorem joined?_arcs (arcs : Arcs ℝ) (x : ℝ) :
    (R.arcs arcs).joined? (R.apply x) = (arcs.joined? x).map R.point := by
  obtain ⟨_ | upper, _ | lower, main⟩ := arcs <;> rfl

/-- A segment of one arc joins the same points in the opposite direction. -/
theorem segment?_map (p q : Option (ArcPoint ℝ)) :
    Cell.segment? (q.map R.point) (p.map R.point) = (Cell.segment? p q).map R.segment := by
  cases p <;> cases q <;> rfl

/-- The cell between two samples is the old one, whichever end is the left one. -/
theorem between_sample (s t : Sample ℝ) :
    Cell.between (R.sample t) (R.sample s) = R.cell (Cell.between s t) := by
  have hleft : (R.arcs s.arcs).joined? (R.sample s).abscissa = _ := R.joined?_arcs s.arcs _
  have hright : (R.arcs t.arcs).joined? (R.sample t).abscissa = _ := R.joined?_arcs t.arcs _
  have hmain : ∀ arcs : Arcs ℝ, (R.arcs arcs).main = arcs.main.map R.point := fun _ => rfl
  have hsegments :
      (Cell.segment? (R.arcs t.arcs).upper (R.arcs s.arcs).upper).toList ++
          (Cell.segment? (R.arcs t.arcs).lower (R.arcs s.arcs).lower).toList =
        ((Cell.segment? s.arcs.upper t.arcs.upper).toList ++
          (Cell.segment? s.arcs.lower t.arcs.lower).toList).map R.segment := by
    rw [List.map_append, ← Option.toList_map, ← Option.toList_map, ← segment?_map,
      ← segment?_map]
    rfl
  unfold Cell.between
  simp only [arcs_sample, hmain, hleft, hright, hsegments, List.isEmpty_map]
  -- a joined point matters only where the main arc is at one end and not at the other
  cases s.arcs.main with
  | none =>
    cases t.arcs.main with
    | none => rfl
    | some q => cases s.arcs.joined? s.abscissa <;> rfl
  | some p =>
    cases t.arcs.main with
    | none => cases t.arcs.joined? t.abscissa <;> rfl
    | some q => rfl

/-- The cells of a list of samples change with them. -/
theorem cells_samples (samples : List (Sample ℝ)) :
    Cell.ofSamples (R.samples samples) = R.cells (Cell.ofSamples samples) := by
  rw [Cell.ofSamples_eq_zipWith, Cell.ofSamples_eq_zipWith, Reversal.samples,
    zipWith_tail_reverse, ← List.map_tail, List.zipWith_map, cells, List.map_zipWith]
  simp only [between_sample]

end Cells

section Sizes

/-- Mean widths stay the same. -/
theorem meanWidth_segment (g : Segment ℝ) : (R.segment g).meanWidth = g.meanWidth := by
  rw [Segment.meanWidth_eq, Segment.meanWidth_eq, add_comm]
  rfl

theorem meanWidth_cell (c : Cell ℝ) : (R.cell c).meanWidth = c.meanWidth := by
  rw [Cell.meanWidth_eq, Cell.meanWidth_eq, cell, List.map_map]
  exact congrArg List.sum (List.map_congr_left fun g _ => R.meanWidth_segment g)

/-- The area of a segment is scaled with its length. -/
theorem area_segment (g : Segment ℝ) : (R.segment g).area = R.scale * g.area := by
  have hlength : (R.segment g).stop.abscissa - (R.segment g).start.abscissa =
      R.scale * (g.stop.abscissa - g.start.abscissa) := R.apply_sub_apply _ _
  rw [Segment.area, meanWidth_segment, hlength, Segment.area, mul_left_comm]

/-- So is that of some cells. -/
theorem areaOf_cells (cells : List (Cell ℝ)) :
    Region.areaOf (R.cells cells) = R.scale * Region.areaOf cells := by
  have hperm : (R.cells cells).Perm (cells.map R.cell) := List.reverse_perm _
  have hareas : ((cells.map R.cell).flatMap fun c => c.segments.map Segment.area) =
      (cells.flatMap fun c => c.segments.map Segment.area).map (R.scale * ·) := by
    rw [List.flatMap_map, List.map_flatMap]
    simp only [cell, List.map_map, Function.comp_def, area_segment]
  rw [Region.areaOf, Region.areaOf, sum_eq, sum_eq, (hperm.flatMap_right _).sum_eq, hareas,
    List.sum_map_mul_left, List.map_id']

end Sizes

/-- The region changes with the samples, and so does the reason why there is none. -/
theorem ofSamples_samples {samples : List (Sample ℝ)} (h : Spanning samples) :
    Region.ofSamples (R.samples samples) =
      ((Region.ofSamples samples).map R.region).mapError R.emptiness := by
  have h' := R.spanning_samples h
  have harea : ∀ area : ℝ, 0.0 < R.scale * area ↔ 0.0 < area := by
    intro area
    rw [zero_literal, mul_pos_iff_of_pos_left R.scale_pos]
  have hdensity : ∀ c area, (R.cell c).meanWidth / (R.scale * area) =
      c.meanWidth / area / R.scale := by
    intro c area
    rw [meanWidth_cell, mul_comm, div_div]
  unfold Region.ofSamples
  rw [h'.window?_eq, h.window?_eq]
  simp only [← windowOf.eq_def, h'.windowOf_eq, h.windowOf_eq, cells_samples, areaOf_cells, harea]
  split
  · simp [Except.map, Except.mapError, region, cells, hdensity]
  · rw [length_samples]
    rfl

/-- Straight lines stay straight: the bounds at an abscissa stay at its new value. -/
theorem boundsOn_segment {g : Segment ℝ} (h : g.start.abscissa ≠ g.stop.abscissa) (x : ℝ) :
    (R.segment g).boundsOn (R.apply x) = g.boundsOn x := by
  have hlength : g.stop.abscissa - g.start.abscissa ≠ 0 := sub_ne_zero.mpr h.symm
  have hplace : (R.apply x - R.apply g.stop.abscissa) /
      (R.apply g.start.abscissa - R.apply g.stop.abscissa) =
        1 - (x - g.start.abscissa) / (g.stop.abscissa - g.start.abscissa) := by
    rw [apply_sub_apply, apply_sub_apply, mul_div_mul_left _ _ R.scale_pos.ne',
      eq_sub_iff_add_eq, ← add_div, sub_add_sub_cancel, div_self hlength]
  unfold Segment.boundsOn
  simp only [segment, point, hplace, AffineMap.lineMap_apply_one_sub]

/-- A cell and the one that takes its place after the change. -/
structure Corresponds (c image : Cell ℝ) : Prop where
  left_eq : image.left = R.apply c.right
  right_eq : image.right = R.apply c.left
  kind_eq : image.kind = c.kind
  /-- Both cells have the same bounds at every abscissa. -/
  bounds_eq : ∀ x, ∃ bounds, c.segments.mapM (·.boundsAt x) = .ok bounds ∧
    image.segments.mapM (·.boundsAt (R.apply x)) = .ok bounds

theorem proper_cell {c : Cell ℝ} (h : c.Proper) : (R.cell c).Proper where
  left_lt_right := R.strictAnti_apply h.left_lt_right
  spans := by
    intro g hg
    obtain ⟨old, hold, rfl⟩ := List.mem_map.mp hg
    obtain ⟨hl, hr⟩ := h.spans old hold
    exact ⟨congrArg R.apply hr, congrArg R.apply hl⟩

theorem corresponds_cell {c : Cell ℝ} (h : c.Proper) : R.Corresponds c (R.cell c) where
  left_eq := rfl
  right_eq := rfl
  kind_eq := rfl
  bounds_eq := by
    intro x
    have hbounds := mapM_eq_ok fun g hg => h.boundsAt_eq hg x
    have hbounds' := mapM_eq_ok fun g hg => (R.proper_cell h).boundsAt_eq hg (R.apply x)
    have hsame : ∀ g ∈ c.segments, (R.segment g).boundsOn (R.apply x) = g.boundsOn x :=
      fun g hg => R.boundsOn_segment (h.start_ne_stop hg) x
    refine ⟨_, hbounds, ?_⟩
    rw [hbounds', cell, List.map_map]
    exact congrArg Except.ok (List.map_congr_left hsame)

/-- A region and the one that takes its place after the change. -/
structure Reverses (region image : Region ℝ) : Prop where
  first_eq : image.first = region.first
  last_eq : image.last = region.last
  abscissas_eq : image.abscissas = (region.abscissas.map R.apply).reverse
  kinds_eq : image.cells.map (·.kind) = (region.cells.map (·.kind)).reverse
  area_eq : image.area = R.scale * region.area
  density_eq : image.density = (region.density.map (· / R.scale)).reverse
  /-- The last cell takes the place of the first one, and so on. -/
  cells_correspond : List.Forall₂ R.Corresponds region.cells image.cells.reverse

variable {samples : List (Sample ℝ)}

theorem reverses_region {region : Region ℝ} (h : ∀ c ∈ region.cells, c.Proper) :
    R.Reverses region (R.region region) where
  first_eq := rfl
  last_eq := rfl
  abscissas_eq := by
    simp only [Region.abscissas, Reversal.region, Reversal.samples, List.map_reverse,
      List.map_map]
    rfl
  kinds_eq := by
    simp only [Reversal.region, cells, List.map_reverse, List.map_map]
    rfl
  area_eq := rfl
  density_eq := rfl
  cells_correspond := by
    rw [Reversal.region, cells, List.reverse_reverse, List.forall₂_map_right_iff,
      List.forall₂_same]
    exact fun c hc => R.corresponds_cell (h c hc)

/-- Left and right do not matter, nor do the unit and the origin of abscissas: there is a region
exactly if there was one, and it is the same but for its abscissas. -/
theorem reverses (h : Spanning samples) :
    ((∃ reason, Region.ofSamples (R.samples samples) = .error reason) ↔
      ∃ reason, Region.ofSamples samples = .error reason) ∧
    ∀ region, Region.ofSamples samples = .ok region →
      ∃ image, Region.ofSamples (R.samples samples) = .ok image ∧ R.Reverses region image := by
  rw [R.ofSamples_samples h]
  constructor
  · exact exists_mapError_eq_error_iff
  · intro region hregion
    have hproper := (Region.of_ofSamples hregion).proper h.ascending
    exact ⟨R.region region, by rw [hregion]; rfl, R.reverses_region hproper⟩

/-- Abscissas in twice the unit, counted from the right. -/
def leftwards : Reversal := ⟨0.5, 1, by norm_num⟩

theorem spanning_changing : Spanning Region.changing where
  ascending := Region.ascending_changing
  two_le_length := by decide
  complete := by
    intro s hs
    fin_cases hs <;> exact ⟨⟨_, rfl⟩, _, rfl⟩
  startable_head := ⟨_, rfl, _, _, rfl, rfl, by rintro _ ⟨⟩⟩
  startable_last := ⟨_, rfl, _, _, rfl, rfl, by rintro _ ⟨⟩⟩

/-- A region with a joined point, two arcs in one cell and a gap can be reversed. -/
theorem reverses_changing : Spanning Region.changing ∧ ∃ region image,
    Region.ofSamples Region.changing = .ok region ∧
    Region.ofSamples (leftwards.samples Region.changing) = .ok image ∧
    leftwards.Reverses region image := by
  obtain ⟨region, hregion, _⟩ := Region.exists_region_changing
  obtain ⟨image, himage, hreverses⟩ :=
    (leftwards.reverses spanning_changing).2 region hregion
  exact ⟨spanning_changing, region, image, hregion, himage, hreverses⟩

end Reversal

end AdmissibleRegion
