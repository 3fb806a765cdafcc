import AdmissibleRegion.Proofs.Exact
import AdmissibleRegion.Region.Arc

/-!
# The ordinates on the arcs

What the arcs through one sample hold, arc by arc, and in which samples. Every ordinate that
meets all three constraints is on some arc. The converse holds of the greatest semi-major axis
and of the hole, but not of the greatest eccentricity: the end of an arc that faces the hole
is that of the hole alone.
-/

namespace AdmissibleRegion

open Scalar

/-- The ordinates between the ends of an interval. -/
def Interval.ordinates (i : Interval ℝ) : Set ℝ := Set.Icc i.lower i.upper

/-- The ordinates between the ends of a point. -/
def ArcPoint.ordinates (p : ArcPoint ℝ) : Set ℝ := Set.Icc p.lower p.upper

theorem ArcPoint.width_eq (p : ArcPoint ℝ) : p.width = p.upper - p.lower := rfl

/-- There is a point between two ends exactly where they are in order. -/
theorem ArcPoint.between?_eq_some {x l u : ℝ} {p : ArcPoint ℝ} :
    ArcPoint.between? x l u = some p ↔ l ≤ u ∧ p = ⟨x, l, u⟩ := by
  unfold ArcPoint.between?
  by_cases h : u < l
  · simp [h]
  · simp [h, not_lt.mp h, eq_comm]

namespace Sample

/-- The ends of every bound that is present are in order. -/
structure Ordered (s : Sample ℝ) : Prop where
  amin : ∀ hole, s.amin = some hole → hole.lower ≤ hole.upper
  amax : ∀ a, s.amax = some a → a.lower ≤ a.upper
  emax : ∀ e, s.emax = some e → e.lower ≤ e.upper

/-- The hole lies inside the bound of the greatest semi-major axis. -/
def HoleInside (s : Sample ℝ) : Prop :=
  ∀ hole a, s.amin = some hole → s.amax = some a → a.lower ≤ hole.lower ∧ hole.upper ≤ a.upper

/-- A point of the main, of the upper or of the lower arc through a sample. -/
def IsArcPoint (s : Sample ℝ) (p : ArcPoint ℝ) : Prop :=
  s.arcs.main = some p ∨ s.arcs.upper = some p ∨ s.arcs.lower = some p

variable {s : Sample ℝ} {p : ArcPoint ℝ}

/-- Without a hole, the main arc holds what both outer bounds share. -/
theorem main_eq_some : s.arcs.main = some p ↔ ∃ a e, s.amax = some a ∧ s.emax = some e ∧
    s.amin = none ∧ max a.lower e.lower ≤ min a.upper e.upper ∧
    p = ⟨s.abscissa, max a.lower e.lower, min a.upper e.upper⟩ := by
  obtain ⟨x, _ | hole, _ | a, _ | e⟩ := s <;> simp [arcs, ArcPoint.between?_eq_some]

/-- The upper arc begins at the upper end of the hole. -/
theorem upper_eq_some : s.arcs.upper = some p ↔ ∃ a e hole, s.amax = some a ∧ s.emax = some e ∧
    s.amin = some hole ∧ hole.upper < e.upper ∧ hole.upper ≤ min a.upper e.upper ∧
    p = ⟨s.abscissa, hole.upper, min a.upper e.upper⟩ := by
  obtain ⟨x, _ | hole, _ | a, _ | e⟩ := s <;>
    simp [arcs, ArcPoint.between?_eq_some]

/-- The lower arc ends at the lower end of the hole. -/
theorem lower_eq_some : s.arcs.lower = some p ↔ ∃ a e hole, s.amax = some a ∧ s.emax = some e ∧
    s.amin = some hole ∧ e.lower < hole.lower ∧ max a.lower e.lower ≤ hole.lower ∧
    p = ⟨s.abscissa, max a.lower e.lower, hole.lower⟩ := by
  obtain ⟨x, _ | hole, _ | a, _ | e⟩ := s <;>
    simp [arcs, ArcPoint.between?_eq_some]

/-- An ordinate inside both outer bounds and outside the hole is on some arc. -/
theorem exists_isArcPoint {a e : Interval ℝ} {y : ℝ} (ha : s.amax = some a)
    (he : s.emax = some e) (hya : y ∈ a.ordinates) (hye : y ∈ e.ordinates)
    (hhole : ∀ hole, s.amin = some hole → y ∉ hole.ordinates) :
    ∃ p, s.IsArcPoint p ∧ y ∈ p.ordinates := by
  obtain ⟨hal, hau⟩ := hya
  obtain ⟨hel, heu⟩ := hye
  have hl : max a.lower e.lower ≤ y := max_le hal hel
  have hu : y ≤ min a.upper e.upper := le_min hau heu
  cases hm : s.amin with
  | none =>
    exact ⟨⟨s.abscissa, max a.lower e.lower, min a.upper e.upper⟩,
      .inl (main_eq_some.mpr ⟨a, e, ha, he, hm, hl.trans hu, rfl⟩), hl, hu⟩
  | some hole =>
    have hy : y < hole.lower ∨ hole.upper < y := by
      by_contra hc
      push Not at hc
      exact hhole hole hm hc
    rcases hy with hy | hy
    · exact ⟨⟨s.abscissa, max a.lower e.lower, hole.lower⟩, .inr (.inr (lower_eq_some.mpr
        ⟨a, e, hole, ha, he, hm, hel.trans_lt hy, hl.trans hy.le, rfl⟩)), hl, hy.le⟩
    · exact ⟨⟨s.abscissa, hole.upper, min a.upper e.upper⟩, .inr (.inl (upper_eq_some.mpr
        ⟨a, e, hole, ha, he, hm, hy.trans_le heu, hy.le.trans hu, rfl⟩)), hy.le, hu⟩

/-- Every point of an arc has the abscissa of its sample. -/
theorem IsArcPoint.abscissa_eq (h : s.IsArcPoint p) : p.abscissa = s.abscissa := by
  rcases h with h | h | h
  · obtain ⟨_, _, _, _, _, _, rfl⟩ := main_eq_some.mp h
    rfl
  · obtain ⟨_, _, _, _, _, _, _, _, rfl⟩ := upper_eq_some.mp h
    rfl
  · obtain ⟨_, _, _, _, _, _, _, _, rfl⟩ := lower_eq_some.mp h
    rfl

/-- The ends of every point of an arc are in order, whatever those of the bounds are. -/
theorem IsArcPoint.lower_le_upper (h : s.IsArcPoint p) : p.lower ≤ p.upper := by
  rcases h with h | h | h
  · obtain ⟨_, _, _, _, _, hle, rfl⟩ := main_eq_some.mp h
    exact hle
  · obtain ⟨_, _, _, _, _, _, _, hle, rfl⟩ := upper_eq_some.mp h
    exact hle
  · obtain ⟨_, _, _, _, _, _, _, hle, rfl⟩ := lower_eq_some.mp h
    exact hle

/-- Where the hole is in order, the lower arc is below the upper one. -/
theorem lower_le_upper {p q : ArcPoint ℝ} (hs : s.Ordered) (hp : s.arcs.upper = some p)
    (hq : s.arcs.lower = some q) : q.upper ≤ p.lower := by
  obtain ⟨_, _, hole, _, _, hm, _, _, rfl⟩ := upper_eq_some.mp hp
  obtain ⟨_, _, hole', _, _, hm', _, _, rfl⟩ := lower_eq_some.mp hq
  obtain rfl : hole = hole' := Option.some.inj (hm.symm.trans hm')
  exact hs.amin hole hm

end Sample

end AdmissibleRegion
