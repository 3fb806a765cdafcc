import AdmissibleRegion.Proofs.Region.Window

/-!
# Segments and cells

A segment between two different abscissas has bounds everywhere, and between its ends they
lie between those of the ends. Every segment of a cell runs from a point of the left sample to
a point of the right one; the segments of one cell lie above each other.
-/

namespace AdmissibleRegion

open Scalar

namespace Segment

theorem meanWidth_eq (g : Segment ℝ) : g.meanWidth = (g.start.width + g.stop.width) / 2 := by
  rw [meanWidth, two_literal]

/-- The bounds on the straight lines through the ends. -/
noncomputable def boundsOn (g : Segment ℝ) (x : ℝ) : Interval ℝ :=
  let t := (x - g.start.abscissa) / (g.stop.abscissa - g.start.abscissa)
  { lower := AffineMap.lineMap g.start.lower g.stop.lower t
    upper := AffineMap.lineMap g.start.upper g.stop.upper t }

/-- The ends of the segment lie at two abscissas, the left one first. -/
def Spans (g : Segment ℝ) (left right : ℝ) : Prop :=
  g.start.abscissa = left ∧ g.stop.abscissa = right

/-- The bounds of a segment exist unless it has no length. -/
theorem boundsAt_eq {g : Segment ℝ} (h : g.start.abscissa ≠ g.stop.abscissa) (x : ℝ) :
    g.boundsAt x = .ok (g.boundsOn x) := by
  have hd : g.stop.abscissa - g.start.abscissa ≠ 0 := sub_ne_zero.mpr h.symm
  unfold boundsAt boundsOn
  rw [divide_eq_ok _ hd]
  simp only [AffineMap.lineMap_apply_ring', add_comm]
  rfl

/-- Where an abscissa lies on the way from one end to the other. -/
private theorem place_mem_unit {left right x : ℝ} (h : left < right)
    (hx : x ∈ Set.Icc left right) :
    0 ≤ (x - left) / (right - left) ∧ (x - left) / (right - left) ≤ 1 := by
  have hd : 0 < right - left := sub_pos.mpr h
  exact ⟨div_nonneg (sub_nonneg.mpr hx.1) hd.le,
    (div_le_one hd).mpr (sub_le_sub_right hx.2 left)⟩

variable {g above below : Segment ℝ} {left right x : ℝ}

/-- Bounds that are in order at both ends are in order in between. -/
theorem boundsOn_lower_le_upper (hlt : left < right) (hg : g.Spans left right)
    (hstart : g.start.lower ≤ g.start.upper) (hstop : g.stop.lower ≤ g.stop.upper)
    (hx : x ∈ Set.Icc left right) : (g.boundsOn x).lower ≤ (g.boundsOn x).upper := by
  obtain ⟨rfl, rfl⟩ := hg
  obtain ⟨h0, h1⟩ := place_mem_unit hlt hx
  exact lineMap_mono_endpoints hstart hstop h0 h1

/-- A segment that is above another one at both ends is above it in between. -/
theorem boundsOn_upper_le_lower (hlt : left < right) (ha : above.Spans left right)
    (hb : below.Spans left right) (hstart : below.start.upper ≤ above.start.lower)
    (hstop : below.stop.upper ≤ above.stop.lower) (hx : x ∈ Set.Icc left right) :
    (below.boundsOn x).upper ≤ (above.boundsOn x).lower := by
  obtain ⟨h0, h1⟩ := place_mem_unit hlt hx
  unfold boundsOn
  rw [ha.1, ha.2, hb.1, hb.2]
  exact lineMap_mono_endpoints hstart hstop h0 h1

/-- The width in the middle is the mean of the widths at the ends. -/
theorem boundsOn_middle (hlt : left < right) (hg : g.Spans left right) :
    (g.boundsOn (left + (right - left) / 2)).upper -
      (g.boundsOn (left + (right - left) / 2)).lower = g.meanWidth := by
  have hd : right - left ≠ 0 := (sub_pos.mpr hlt).ne'
  have ht : (left + (right - left) / 2 - left) / (right - left) = 1 / 2 := by
    field_simp
    ring
  rw [meanWidth_eq, ArcPoint.width_eq, ArcPoint.width_eq]
  unfold boundsOn
  simp only [hg.1, hg.2, ht, AffineMap.lineMap_apply_ring]
  ring

end Segment

namespace Sample

/-- A point at which a segment can end: one of an arc, or the one that joins the arcs. -/
def IsEnd (s : Sample ℝ) (p : ArcPoint ℝ) : Prop :=
  s.IsArcPoint p ∨ s.arcs.joined? s.abscissa = some p

variable {s : Sample ℝ} {p : ArcPoint ℝ}

/-- Two arcs are joined from the lower end of the lower one to the upper end of the upper one,
and a single arc is its own join. -/
theorem joined?_eq_some : s.arcs.joined? s.abscissa = some p ↔
    ∃ top bottom, s.arcs.upper.or s.arcs.lower = some top ∧
      s.arcs.lower.or s.arcs.upper = some bottom ∧ p = ⟨s.abscissa, bottom.lower, top.upper⟩ := by
  unfold Arcs.joined?
  cases s.arcs.upper <;> cases s.arcs.lower <;> simp [eq_comm]

theorem IsEnd.abscissa_eq (h : s.IsEnd p) : p.abscissa = s.abscissa := by
  rcases h with h | h
  · exact h.abscissa_eq
  · obtain ⟨_, _, _, _, rfl⟩ := joined?_eq_some.mp h
    rfl

/-- The ends of every point are in order; the joined point needs a hole in order. -/
theorem IsEnd.lower_le_upper (hs : s.Ordered) (h : s.IsEnd p) : p.lower ≤ p.upper := by
  rcases h with h | h
  · exact h.lower_le_upper
  · obtain ⟨top, bottom, htop, hbottom, rfl⟩ := joined?_eq_some.mp h
    cases hu : s.arcs.upper with
    | none =>
      cases hl : s.arcs.lower with
      | none => simp [hu, hl] at htop
      | some q =>
        simp only [hu, hl, Option.none_or, Option.some_or, Option.some.injEq] at htop hbottom
        obtain rfl : top = bottom := htop.symm.trans hbottom
        have hq := IsArcPoint.lower_le_upper (.inr (.inr hl))
        exact htop ▸ hq
    | some q =>
      simp only [hu, Option.some_or, Option.some.injEq] at htop
      subst htop
      have hq := IsArcPoint.lower_le_upper (.inr (.inl hu))
      cases hl : s.arcs.lower with
      | none =>
        simp only [hu, hl, Option.none_or, Option.some.injEq] at hbottom
        exact hbottom ▸ hq
      | some r =>
        simp only [hl, Option.some_or, Option.some.injEq] at hbottom
        subst hbottom
        have hr := IsArcPoint.lower_le_upper (.inr (.inr hl))
        exact hr.trans ((Sample.lower_le_upper hs hu hl).trans hq)

end Sample

namespace Cell

variable {s t : Sample ℝ}

/-- Two neighbours are joined by one segment, or arc by arc. -/
theorem segments_between (s t : Sample ℝ) :
    (∃ p q, s.IsEnd p ∧ t.IsEnd q ∧ (between s t).segments = [⟨p, q⟩]) ∨
      (between s t).segments = (segment? s.arcs.upper t.arcs.upper).toList ++
        (segment? s.arcs.lower t.arcs.lower).toList := by
  unfold between
  dsimp only
  split
  next p q hp hq => exact .inl ⟨p, q, .inl (.inl hp), .inl (.inl hq), rfl⟩
  next q p hq hp _ => exact .inl ⟨p, q, .inr hp, .inl (.inl hq), rfl⟩
  next p q hp hq _ => exact .inl ⟨p, q, .inl (.inl hp), .inr hq, rfl⟩
  next => exact .inr rfl

/-- A segment of one arc joins its points. -/
theorem segment?_eq_some {p q : Option (ArcPoint ℝ)} {g : Segment ℝ} :
    segment? p q = some g ↔ p = some g.start ∧ q = some g.stop := by
  obtain ⟨a, b⟩ := g
  cases p <;> cases q <;> simp [segment?]

@[simp] theorem left_between (s t : Sample ℝ) : (between s t).left = s.abscissa := by
  unfold between
  dsimp only
  split <;> rfl

@[simp] theorem right_between (s t : Sample ℝ) : (between s t).right = t.abscissa := by
  unfold between
  dsimp only
  split <;> rfl

/-- Every segment of a cell runs from a point of the left sample to one of the right. -/
theorem isEnd_of_mem_between {g : Segment ℝ} (h : g ∈ (between s t).segments) :
    s.IsEnd g.start ∧ t.IsEnd g.stop := by
  rcases segments_between s t with ⟨p, q, hp, hq, he⟩ | he
  · rw [he, List.mem_singleton] at h
    subst h
    exact ⟨hp, hq⟩
  · rw [he, List.mem_append, Option.mem_toList, Option.mem_toList] at h
    rcases h with h | h
    · obtain ⟨hp, hq⟩ := segment?_eq_some.mp h
      exact ⟨.inl (.inr (.inl hp)), .inl (.inr (.inl hq))⟩
    · obtain ⟨hp, hq⟩ := segment?_eq_some.mp h
      exact ⟨.inl (.inr (.inr hp)), .inl (.inr (.inr hq))⟩

/-- The segments of a cell lie above each other at both of its ends. -/
theorem pairwise_between (hs : s.Ordered) (ht : t.Ordered) :
    (between s t).segments.Pairwise fun above below =>
      below.start.upper ≤ above.start.lower ∧ below.stop.upper ≤ above.stop.lower := by
  rcases segments_between s t with ⟨p, q, _, _, he⟩ | he
  · rw [he]
    exact List.pairwise_singleton _ _
  · rw [he, List.pairwise_append]
    refine ⟨?_, ?_, ?_⟩
    · cases segment? s.arcs.upper t.arcs.upper <;> simp
    · cases segment? s.arcs.lower t.arcs.lower <;> simp
    · intro above ha below hb
      obtain ⟨hap, haq⟩ := segment?_eq_some.mp (Option.mem_toList.mp ha)
      obtain ⟨hbp, hbq⟩ := segment?_eq_some.mp (Option.mem_toList.mp hb)
      exact ⟨Sample.lower_le_upper hs hap hbp, Sample.lower_le_upper ht haq hbq⟩

/-- Cells stand between neighbours. -/
theorem ofSamples_eq_zipWith (samples : List (Sample ℝ)) :
    ofSamples samples = List.zipWith between samples samples.tail := by
  induction samples using ofSamples.induct with
  | case1 s t rest ih => simpa [ofSamples] using ih
  | case2 samples h =>
    match samples with
    | [] => rfl
    | [_] => rfl
    | s :: t :: rest => exact absurd rfl (h s t rest)

/-- A cell stands between the samples of its index and of the next one. -/
theorem getElem?_ofSamples {samples : List (Sample ℝ)} {i : ℕ} {c : Cell ℝ} :
    (ofSamples samples)[i]? = some c ↔
      ∃ s t, samples[i]? = some s ∧ samples[i + 1]? = some t ∧ c = between s t := by
  rw [ofSamples_eq_zipWith, List.getElem?_zipWith_eq_some, List.getElem?_tail]
  simp only [eq_comm]

/-- A cell of ascending samples stands between two of them, the left one before the right. -/
theorem exists_between_of_mem {samples : List (Sample ℝ)} (hasc : Ascending samples)
    {c : Cell ℝ} (hc : c ∈ ofSamples samples) :
    ∃ s t, s ∈ samples ∧ t ∈ samples ∧ s.abscissa < t.abscissa ∧ c = between s t := by
  rw [ofSamples_eq_zipWith, List.mem_iff_getElem] at hc
  obtain ⟨i, hi, rfl⟩ := hc
  have hlen : i < samples.length - 1 := by simpa using hi
  have hleft : i < samples.length := by omega
  have hright : i + 1 < samples.length := by omega
  have hlt := List.pairwise_iff_getElem.mp hasc i (i + 1) hleft hright (by omega)
  exact ⟨samples[i], samples[i + 1], List.getElem_mem _, List.getElem_mem _, hlt, by simp⟩

/-- What holds of every cell of ascending samples. -/
structure Proper (c : Cell ℝ) : Prop where
  /-- A cell has a positive length. -/
  left_lt_right : c.left < c.right
  /-- Its segments run from its left to its right end. -/
  spans : ∀ g ∈ c.segments, g.Spans c.left c.right

theorem proper_between (h : s.abscissa < t.abscissa) : Proper (between s t) := by
  refine ⟨by simpa using h, fun g hg => ?_⟩
  obtain ⟨hp, hq⟩ := isEnd_of_mem_between hg
  exact ⟨by simpa using hp.abscissa_eq, by simpa using hq.abscissa_eq⟩

theorem proper_of_mem {samples : List (Sample ℝ)} (hasc : Ascending samples) {c : Cell ℝ}
    (hc : c ∈ ofSamples samples) : Proper c := by
  obtain ⟨s, t, _, _, hlt, rfl⟩ := exists_between_of_mem hasc hc
  exact proper_between hlt

/-- Its segments have a length as well. -/
theorem Proper.start_ne_stop {c : Cell ℝ} (h : c.Proper) {g : Segment ℝ} (hg : g ∈ c.segments) :
    g.start.abscissa ≠ g.stop.abscissa := by
  obtain ⟨hl, hr⟩ := h.spans g hg
  rw [hl, hr]
  exact h.left_lt_right.ne

/-- So their bounds exist. -/
theorem Proper.boundsAt_eq {c : Cell ℝ} (h : c.Proper) {g : Segment ℝ} (hg : g ∈ c.segments)
    (x : ℝ) : g.boundsAt x = .ok (g.boundsOn x) :=
  Segment.boundsAt_eq (h.start_ne_stop hg) x

end Cell

end AdmissibleRegion
