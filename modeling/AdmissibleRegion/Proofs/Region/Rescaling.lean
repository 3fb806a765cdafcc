import AdmissibleRegion.Proofs.Region.Cells
import AdmissibleRegion.Proofs.Region.Window

/-!
# Other units of the ordinate

Ordinates may be measured in another unit, from another origin, and upwards or downwards. A
region is then the same but for its ordinates: the arcs above and below the hole change places
if the ordinates are turned over, and areas are scaled. Every function from the samples to the
region commutes with the change.
-/

namespace AdmissibleRegion

open Scalar

/-- A change of the unit and of the origin of ordinates. -/
structure Rescaling where
  /-- The new size of the old unit; it is negative if ordinates are turned over. -/
  factor : ℝ
  /-- The new place of the old origin. -/
  shift : ℝ
  factor_ne_zero : factor ≠ 0

namespace Rescaling

variable (T : Rescaling)

/-- The new value of an ordinate. -/
def apply (y : ℝ) : ℝ := T.factor * y + T.shift

/-- The first of two things, or the second one if ordinates are turned over. -/
noncomputable def pick {α : Type} (a b : α) : α := if T.factor < 0 then b else a

/-- An interval after the change. -/
noncomputable def interval (i : Interval ℝ) : Interval ℝ :=
  ⟨T.apply (T.pick i.lower i.upper), T.apply (T.pick i.upper i.lower)⟩

/-- A sample after the change. -/
noncomputable def sample (s : Sample ℝ) : Sample ℝ :=
  ⟨s.abscissa, s.amin.map T.interval, s.amax.map T.interval, s.emax.map T.interval⟩

/-- A point of an arc after the change. -/
noncomputable def point (p : ArcPoint ℝ) : ArcPoint ℝ :=
  ⟨p.abscissa, T.apply (T.pick p.lower p.upper), T.apply (T.pick p.upper p.lower)⟩

/-- The arcs through a sample after the change. -/
noncomputable def arcs (arcs : Arcs ℝ) : Arcs ℝ where
  upper := (T.pick arcs.upper arcs.lower).map T.point
  lower := (T.pick arcs.lower arcs.upper).map T.point
  main := arcs.main.map T.point

/-- A segment after the change. -/
noncomputable def segment (g : Segment ℝ) : Segment ℝ := ⟨T.point g.start, T.point g.stop⟩

/-- A list from top to bottom after its members have changed. -/
noncomputable def ordered {α β : Type} (f : α → β) (xs : List α) : List β :=
  T.pick (xs.map f) (xs.map f).reverse

/-- A cell after the change. -/
noncomputable def cell (c : Cell ℝ) : Cell ℝ :=
  { c with segments := T.ordered T.segment c.segments }

/-- A region after the change. -/
noncomputable def region (r : Region ℝ) : Region ℝ :=
  { r with
    samples := r.samples.map T.sample
    cells := r.cells.map T.cell
    area := |T.factor| * r.area }

/-- The reason why there is no region, after the change. -/
noncomputable def emptiness : Emptiness ℝ → Emptiness ℝ
  | .noWindow samples => .noWindow samples
  | .noArea first last area => .noArea first last (|T.factor| * area)

section Order

variable {T} {α β : Type}

theorem pick_of_neg (h : T.factor < 0) (a b : α) : T.pick a b = b := if_pos h

theorem pick_of_pos (h : 0 < T.factor) (a b : α) : T.pick a b = a := if_neg h.not_gt

variable (T)

theorem neg_or_pos : T.factor < 0 ∨ 0 < T.factor := T.factor_ne_zero.lt_or_gt

theorem abs_factor_pos : 0 < |T.factor| := abs_pos.mpr T.factor_ne_zero

@[simp] theorem pick_self (a : α) : T.pick a a = a := ite_self a

variable {T} {a b : ℝ}

theorem strictMono_apply (h : 0 < T.factor) : StrictMono T.apply := fun _ _ hab =>
  add_lt_add_left (mul_lt_mul_of_pos_left hab h) T.shift

theorem strictAnti_apply (h : T.factor < 0) : StrictAnti T.apply := fun _ _ hab =>
  add_lt_add_left (mul_lt_mul_of_neg_left hab h) T.shift

variable (T)

/-- The ends of an interval keep their order. -/
theorem apply_pick_lt_iff : T.apply (T.pick a b) < T.apply (T.pick b a) ↔ a < b := by
  rcases T.neg_or_pos with h | h
  · rw [pick_of_neg h, pick_of_neg h, (strictAnti_apply h).lt_iff_gt]
  · rw [pick_of_pos h, pick_of_pos h, (strictMono_apply h).lt_iff_lt]

/-- Widths are scaled. -/
theorem apply_pick_sub (a b : ℝ) :
    T.apply (T.pick b a) - T.apply (T.pick a b) = |T.factor| * (b - a) := by
  rcases T.neg_or_pos with h | h
  · rw [pick_of_neg h, pick_of_neg h, abs_of_neg h, apply, apply]
    ring
  · rw [pick_of_pos h, pick_of_pos h, abs_of_pos h, apply, apply]
    ring

/-- Turning a list over changes its order only. -/
theorem ordered_perm (f : α → β) (xs : List α) : (T.ordered f xs).Perm (xs.map f) := by
  rcases T.neg_or_pos with h | h
  · rw [ordered, pick_of_neg h]
    exact List.reverse_perm _
  · rw [ordered, pick_of_pos h]

end Order

/-- A point stays one between its ends. -/
theorem between?_apply (x l u : ℝ) :
    ArcPoint.between? x (T.apply (T.pick l u)) (T.apply (T.pick u l)) =
      (ArcPoint.between? x l u).map T.point := by
  unfold ArcPoint.between?
  simp only [T.apply_pick_lt_iff]
  by_cases h : u < l
  · rw [if_pos h, if_pos h]
    rfl
  · rw [if_neg h, if_neg h]
    rfl

/-- The greater of two lower ends stays one, or becomes the lesser of two upper ends. -/
theorem max_lower_interval (i j : Interval ℝ) :
    max (T.interval i).lower (T.interval j).lower =
      T.apply (T.pick (max i.lower j.lower) (min i.upper j.upper)) := by
  unfold interval
  rcases T.neg_or_pos with h | h
  · simp only [pick_of_neg h, (strictAnti_apply h).antitone.map_min]
  · simp only [pick_of_pos h, (strictMono_apply h).monotone.map_max]

/-- The lesser of two upper ends stays one, or becomes the greater of two lower ends. -/
theorem min_upper_interval (i j : Interval ℝ) :
    min (T.interval i).upper (T.interval j).upper =
      T.apply (T.pick (min i.upper j.upper) (max i.lower j.lower)) := by
  unfold interval
  rcases T.neg_or_pos with h | h
  · simp only [pick_of_neg h, (strictAnti_apply h).antitone.map_max]
  · simp only [pick_of_pos h, (strictMono_apply h).monotone.map_min]

/-- The arcs change with their sample. -/
theorem arcs_sample (s : Sample ℝ) : (T.sample s).arcs = T.arcs s.arcs := by
  obtain ⟨x, _ | hole, _ | a, _ | e⟩ := s <;> try simp [sample, Sample.arcs, arcs]
  · rw [max_lower_interval, min_upper_interval, between?_apply]
  · rw [max_lower_interval, min_upper_interval]
    rcases T.neg_or_pos with h | h
    · have hpoint : ∀ l u, ArcPoint.between? x (T.apply u) (T.apply l) =
          (ArcPoint.between? x l u).map T.point := by
        intro l u
        rw [← T.between?_apply, pick_of_neg h, pick_of_neg h]
      simp only [interval, pick_of_neg h, (strictAnti_apply h).lt_iff_gt, hpoint,
        apply_ite (Option.map T.point), Option.map_none, and_self]
    · have hpoint : ∀ l u, ArcPoint.between? x (T.apply l) (T.apply u) =
          (ArcPoint.between? x l u).map T.point := by
        intro l u
        rw [← T.between?_apply, pick_of_pos h, pick_of_pos h]
      simp only [interval, pick_of_pos h, (strictMono_apply h).lt_iff_lt, hpoint,
        apply_ite (Option.map T.point), Option.map_none, and_self]

/-- Samples stay complete. -/
theorem isComplete_sample (s : Sample ℝ) : (T.sample s).isComplete = s.isComplete := by
  simp [sample, Sample.isComplete]

/-- A region can begin where it could: each outer bound still exceeds the hole on both sides. -/
theorem canStart_sample (s : Sample ℝ) : (T.sample s).canStart = s.canStart := by
  obtain ⟨x, _ | hole, _ | a, _ | e⟩ := s <;> try rfl
  simp only [sample, Sample.canStart, Option.map_some, interval]
  rcases T.neg_or_pos with h | h
  · simp only [pick_of_neg h, (strictAnti_apply h).lt_iff_gt]
    -- the two sides have changed places
    rw [Bool.and_assoc, Bool.and_comm, ← Bool.and_assoc]
  · simp only [pick_of_pos h, (strictMono_apply h).lt_iff_lt]

/-- The window is the same. -/
theorem window?_map (samples : List (Sample ℝ)) :
    window? (samples.map T.sample) = window? samples := by
  have hstart : Sample.canStart ∘ T.sample = Sample.canStart := funext T.canStart_sample
  have hrun : Sample.isComplete ∘ T.sample = Sample.isComplete := funext T.isComplete_sample
  simp only [window?, List.findIdx?_map, hstart, ← List.map_drop, List.takeWhile_map, hrun,
    List.length_map]

/-- Arcs are joined from the new lowest to the new highest ordinate. -/
theorem joined?_arcs (arcs : Arcs ℝ) (x : ℝ) :
    (T.arcs arcs).joined? x = (arcs.joined? x).map T.point := by
  obtain ⟨_ | upper, _ | lower, main⟩ := arcs <;> rcases T.neg_or_pos with h | h <;>
    simp [Rescaling.arcs, Arcs.joined?, point, pick_of_neg, pick_of_pos, h]

/-- A segment of one arc changes with the arc. -/
theorem segment?_map (p q : Option (ArcPoint ℝ)) :
    Cell.segment? (p.map T.point) (q.map T.point) = (Cell.segment? p q).map T.segment := by
  cases p <;> cases q <;> rfl

@[simp] theorem ordered_singleton {α β : Type} (f : α → β) (a : α) : T.ordered f [a] = [f a] :=
  T.pick_self [f a]

/-- The segments above and below the hole change places if ordinates are turned over. -/
theorem segments_arcs (left right : Arcs ℝ) :
    (Cell.segment? (T.arcs left).upper (T.arcs right).upper).toList ++
        (Cell.segment? (T.arcs left).lower (T.arcs right).lower).toList =
      T.ordered T.segment ((Cell.segment? left.upper right.upper).toList ++
        (Cell.segment? left.lower right.lower).toList) := by
  unfold Rescaling.arcs ordered
  rcases T.neg_or_pos with h | h
  · simp only [pick_of_neg h, segment?_map]
    cases Cell.segment? left.upper right.upper <;>
      cases Cell.segment? left.lower right.lower <;> rfl
  · simp only [pick_of_pos h, segment?_map]
    cases Cell.segment? left.upper right.upper <;>
      cases Cell.segment? left.lower right.lower <;> rfl

@[simp] theorem isEmpty_ordered {α β : Type} (f : α → β) (xs : List α) :
    (T.ordered f xs).isEmpty = xs.isEmpty := by
  rw [(T.ordered_perm f xs).isEmpty_eq, List.isEmpty_map]

/-- Cells change with their samples. -/
theorem between_sample (s t : Sample ℝ) :
    Cell.between (T.sample s) (T.sample t) = T.cell (Cell.between s t) := by
  have hleft : (T.arcs s.arcs).joined? s.abscissa = _ := T.joined?_arcs s.arcs s.abscissa
  have hright : (T.arcs t.arcs).joined? t.abscissa = _ := T.joined?_arcs t.arcs t.abscissa
  have hmain : ∀ arcs : Arcs ℝ, (T.arcs arcs).main = arcs.main.map T.point := fun _ => rfl
  have habscissa : ∀ s : Sample ℝ, (T.sample s).abscissa = s.abscissa := fun _ => rfl
  unfold Cell.between
  simp only [arcs_sample, habscissa, hmain, hleft, hright, segments_arcs, isEmpty_ordered]
  cases s.arcs.main with
  | none =>
    cases t.arcs.main with
    | none => rfl
    | some q =>
      cases s.arcs.joined? s.abscissa with
      | none => rfl
      | some p => simp [cell, segment]
  | some p =>
    cases t.arcs.main with
    | none =>
      cases t.arcs.joined? t.abscissa with
      | none => rfl
      | some q => simp [cell, segment]
    | some q => simp [cell, segment]

/-- The cells of a list of samples change with them. -/
theorem cells_map (samples : List (Sample ℝ)) :
    Cell.ofSamples (samples.map T.sample) = (Cell.ofSamples samples).map T.cell := by
  rw [Cell.ofSamples_eq_zipWith, Cell.ofSamples_eq_zipWith, ← List.map_tail, List.zipWith_map,
    List.map_zipWith]
  simp only [between_sample]

/-- The width at a point is scaled. -/
theorem width_point (p : ArcPoint ℝ) : (T.point p).width = |T.factor| * p.width :=
  T.apply_pick_sub p.lower p.upper

/-- So is the mean width of a segment. -/
theorem meanWidth_segment (g : Segment ℝ) :
    (T.segment g).meanWidth = |T.factor| * g.meanWidth := by
  rw [Segment.meanWidth_eq, Segment.meanWidth_eq, segment, width_point, width_point, ← mul_add,
    mul_div_assoc]

/-- So is its area. -/
theorem area_segment (g : Segment ℝ) : (T.segment g).area = |T.factor| * g.area := by
  rw [Segment.area, meanWidth_segment, mul_assoc]
  rfl

/-- A sum over a cell is scaled with its summands. -/
theorem sum_ordered {size : Segment ℝ → ℝ} (h : ∀ g, size (T.segment g) = |T.factor| * size g)
    (segments : List (Segment ℝ)) :
    ((T.ordered T.segment segments).map size).sum = |T.factor| * (segments.map size).sum := by
  have hsize : size ∘ T.segment = fun g => |T.factor| * size g := funext h
  rw [((T.ordered_perm T.segment segments).map size).sum_eq, List.map_map, hsize,
    List.sum_map_mul_left]

/-- The mean width of a cell is scaled. -/
theorem meanWidth_cell (c : Cell ℝ) : (T.cell c).meanWidth = |T.factor| * c.meanWidth := by
  rw [Cell.meanWidth, Cell.meanWidth, sum_eq, sum_eq]
  exact T.sum_ordered T.meanWidth_segment c.segments

/-- The area of some cells is scaled. -/
theorem areaOf_map (cells : List (Cell ℝ)) :
    Region.areaOf (cells.map T.cell) = |T.factor| * Region.areaOf cells := by
  rw [Region.areaOf, Region.areaOf, sum_eq, sum_eq]
  induction cells with
  | nil => simp
  | cons c cells ih =>
    rw [List.map_cons, List.flatMap_cons, List.flatMap_cons, List.sum_append, List.sum_append, ih,
      mul_add]
    exact congrArg (· + _) (T.sum_ordered T.area_segment c.segments)

/-- The region changes with the samples, and so does the reason why there is none. -/
theorem ofSamples_map (samples : List (Sample ℝ)) :
    Region.ofSamples (samples.map T.sample) =
      ((Region.ofSamples samples).map T.region).mapError T.emptiness := by
  unfold Region.ofSamples
  rw [window?_map]
  cases window? samples with
  | none => simp [Except.map, Except.mapError, emptiness]
  | some range =>
    obtain ⟨first, last⟩ := range
    have harea : ∀ area : ℝ, 0.0 < |T.factor| * area ↔ 0.0 < area := by
      intro area
      rw [zero_literal, mul_pos_iff_of_pos_left T.abs_factor_pos]
    simp only [← List.map_drop, ← List.map_take, cells_map, areaOf_map, harea]
    split
    · simp [Except.map, Except.mapError, region, meanWidth_cell, Function.comp_def,
        mul_div_mul_left _ _ T.abs_factor_pos.ne']
    · rfl

/-- A curve of the new samples is one of the old ones if all of their points are. -/
theorem curve_map (side side' : Arcs ℝ → Option (ArcPoint ℝ))
    (h : ∀ arcs, side (T.arcs arcs) = (side' arcs).map T.point) (samples : List (Sample ℝ)) :
    ((samples.map T.sample).filterMap fun s => side s.arcs) =
      (samples.filterMap fun s => side' s.arcs).map T.point := by
  rw [List.filterMap_map, List.map_filterMap]
  apply List.filterMap_congr
  intro s _
  rw [Function.comp_apply, arcs_sample, h]

variable (r : Region ℝ)

theorem main_region : (T.region r).main = r.main.map T.point :=
  T.curve_map Arcs.main Arcs.main (fun _ => rfl) r.samples

/-- The upper curve was the lower one if ordinates are turned over. -/
theorem upper_region : (T.region r).upper = (T.pick r.upper r.lower).map T.point := by
  rcases T.neg_or_pos with h | h
  · rw [pick_of_neg h]
    refine T.curve_map Arcs.upper Arcs.lower (fun arcs => ?_) r.samples
    exact congrArg (Option.map T.point) (pick_of_neg h _ _)
  · rw [pick_of_pos h]
    refine T.curve_map Arcs.upper Arcs.upper (fun arcs => ?_) r.samples
    exact congrArg (Option.map T.point) (pick_of_pos h _ _)

/-- The lower curve was the upper one if ordinates are turned over. -/
theorem lower_region : (T.region r).lower = (T.pick r.lower r.upper).map T.point := by
  rcases T.neg_or_pos with h | h
  · rw [pick_of_neg h]
    refine T.curve_map Arcs.lower Arcs.upper (fun arcs => ?_) r.samples
    exact congrArg (Option.map T.point) (pick_of_neg h _ _)
  · rw [pick_of_pos h]
    refine T.curve_map Arcs.lower Arcs.lower (fun arcs => ?_) r.samples
    exact congrArg (Option.map T.point) (pick_of_pos h _ _)

end Rescaling

end AdmissibleRegion
