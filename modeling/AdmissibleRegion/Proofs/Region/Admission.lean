import AdmissibleRegion.Proofs.Region.Window

/-!
# Which ordinates of the arcs are admissible

A point of an arc is admissible where all its ordinates meet the constraints of its sample.
Every point meets those on the semi-major axis. Points of the main arc meet the one on the
eccentricity as well. A point above or below a hole meets it only where the bound on the
eccentricity reaches the hole: the end that faces the hole is taken from the hole, whatever
the eccentricity there is.
-/

namespace AdmissibleRegion

namespace Sample

/-- All ordinates of a point have at most the greatest semi-major axis, and none lies strictly
inside the hole. -/
structure AdmitsAxis (s : Sample ℝ) (p : ArcPoint ℝ) : Prop where
  amax : ∃ a, s.amax = some a ∧ p.ordinates ⊆ a.ordinates
  amin : ∀ hole, s.amin = some hole → Disjoint p.ordinates (Set.Ioo hole.lower hole.upper)

/-- All ordinates of a point lie between the bounds of the greatest eccentricity. -/
def AdmitsEccentricity (s : Sample ℝ) (p : ArcPoint ℝ) : Prop :=
  ∃ e, s.emax = some e ∧ p.ordinates ⊆ e.ordinates

variable {s : Sample ℝ} {p : ArcPoint ℝ}

/-- A point of the main arc is admissible. -/
theorem main_admitted (hp : s.arcs.main = some p) : s.AdmitsAxis p ∧ s.AdmitsEccentricity p := by
  obtain ⟨a, e, ha, he, hm, _, rfl⟩ := main_eq_some.mp hp
  refine ⟨⟨⟨a, ha, ?_⟩, ?_⟩, e, he, ?_⟩
  · exact Set.Icc_subset_Icc (le_max_left _ _) (min_le_left _ _)
  · intro hole hhole
    rw [hm] at hhole
    cases hhole
  · exact Set.Icc_subset_Icc (le_max_right _ _) (min_le_right _ _)

/-- A point of the upper arc meets the constraints on the semi-major axis. -/
theorem upper_admitsAxis (hs : s.Ordered) (hi : s.HoleInside) (hp : s.arcs.upper = some p) :
    s.AdmitsAxis p := by
  obtain ⟨a, e, hole, ha, he, hm, _, _, rfl⟩ := upper_eq_some.mp hp
  have hlower : a.lower ≤ hole.upper := (hi hole a hm ha).1.trans (hs.amin hole hm)
  refine ⟨⟨a, ha, Set.Icc_subset_Icc hlower (min_le_left _ _)⟩, fun hole' hm' => ?_⟩
  obtain rfl : hole = hole' := Option.some.inj (hm.symm.trans hm')
  exact Set.disjoint_left.mpr fun y hy hy' => (hy.1.trans_lt hy'.2).false

/-- A point of the lower arc meets the constraints on the semi-major axis. -/
theorem lower_admitsAxis (hs : s.Ordered) (hi : s.HoleInside) (hp : s.arcs.lower = some p) :
    s.AdmitsAxis p := by
  obtain ⟨a, e, hole, ha, he, hm, _, _, rfl⟩ := lower_eq_some.mp hp
  have hupper : hole.lower ≤ a.upper := (hs.amin hole hm).trans (hi hole a hm ha).2
  refine ⟨⟨a, ha, Set.Icc_subset_Icc (le_max_left _ _) hupper⟩, fun hole' hm' => ?_⟩
  obtain rfl : hole = hole' := Option.some.inj (hm.symm.trans hm')
  exact Set.disjoint_left.mpr fun y hy hy' => (hy'.1.trans_le hy.2).false

/-- Whether the bound on the eccentricity reaches the hole from above. -/
def ReachesFromAbove (s : Sample ℝ) : Prop :=
  ∀ e hole, s.emax = some e → s.amin = some hole → e.lower ≤ hole.upper

/-- Whether the bound on the eccentricity reaches the hole from below. -/
def ReachesFromBelow (s : Sample ℝ) : Prop :=
  ∀ e hole, s.emax = some e → s.amin = some hole → hole.lower ≤ e.upper

/-- The upper arc keeps to the eccentricity exactly where its bound reaches the hole. -/
theorem upper_admitsEccentricity_iff (hp : s.arcs.upper = some p) :
    s.AdmitsEccentricity p ↔ s.ReachesFromAbove := by
  obtain ⟨a, e, hole, ha, he, hm, _, hle, rfl⟩ := upper_eq_some.mp hp
  constructor
  · rintro ⟨e', he', hsub⟩ e'' hole' he'' hm'
    obtain rfl : e' = e'' := Option.some.inj (he'.symm.trans he'')
    obtain rfl : hole = hole' := Option.some.inj (hm.symm.trans hm')
    exact (hsub (Set.left_mem_Icc.mpr hle)).1
  · intro h
    exact ⟨e, he, Set.Icc_subset_Icc (h e hole he hm) (min_le_right _ _)⟩

/-- The lower arc keeps to the eccentricity exactly where its bound reaches the hole. -/
theorem lower_admitsEccentricity_iff (hp : s.arcs.lower = some p) :
    s.AdmitsEccentricity p ↔ s.ReachesFromBelow := by
  obtain ⟨a, e, hole, ha, he, hm, _, hle, rfl⟩ := lower_eq_some.mp hp
  constructor
  · rintro ⟨e', he', hsub⟩ e'' hole' he'' hm'
    obtain rfl : e' = e'' := Option.some.inj (he'.symm.trans he'')
    obtain rfl : hole = hole' := Option.some.inj (hm.symm.trans hm')
    exact (hsub (Set.right_mem_Icc.mpr hle)).2
  · intro h
    exact ⟨e, he, Set.Icc_subset_Icc (le_max_right _ _) (h e hole he hm)⟩

end Sample

namespace Region

variable {samples : List (Sample ℝ)} {region : Region ℝ}

/-- A point on a curve of a region belongs to the one sample with its abscissa. -/
private theorem Of.exists_sample (h : Of samples region) (hasc : Ascending samples)
    {arc : Sample ℝ → Option (ArcPoint ℝ)} (harc : ∀ s p, arc s = some p → s.IsArcPoint p)
    {p : ArcPoint ℝ} (hp : p ∈ region.samples.filterMap arc) :
    ∃ s ∈ samples, (∀ t ∈ samples, t.abscissa = p.abscissa ↔ t = s) ∧ arc s = some p := by
  obtain ⟨s, hs, hsp⟩ := List.mem_filterMap.mp hp
  have hx := (harc s p hsp).abscissa_eq
  refine ⟨s, h.mem_samples hs, fun t ht => ⟨fun he => ?_, fun he => he ▸ hx.symm⟩, hsp⟩
  exact hasc.eq_of_abscissa_eq ht (h.mem_samples hs) (he.trans hx)

/-- The main curve is admissible everywhere. The curves above and below the hole keep to the
semi-major axis everywhere, and to the eccentricity exactly where its bound reaches the hole. -/
theorem curve_admitted_iff (hasc : Ascending samples) (hord : ∀ s ∈ samples, s.Ordered)
    (hin : ∀ s ∈ samples, s.HoleInside) (hregion : ofSamples samples = .ok region) :
    (∀ p ∈ region.main, ∃ s ∈ samples, (∀ t ∈ samples, t.abscissa = p.abscissa ↔ t = s) ∧
      s.AdmitsAxis p ∧ s.AdmitsEccentricity p) ∧
    (∀ p ∈ region.upper, ∃ s ∈ samples, (∀ t ∈ samples, t.abscissa = p.abscissa ↔ t = s) ∧
      s.AdmitsAxis p ∧ (s.AdmitsEccentricity p ↔ s.ReachesFromAbove)) ∧
    (∀ p ∈ region.lower, ∃ s ∈ samples, (∀ t ∈ samples, t.abscissa = p.abscissa ↔ t = s) ∧
      s.AdmitsAxis p ∧ (s.AdmitsEccentricity p ↔ s.ReachesFromBelow)) := by
  have hof := of_ofSamples hregion
  refine ⟨fun p hp => ?_, fun p hp => ?_, fun p hp => ?_⟩
  · obtain ⟨s, hs, hone, hsp⟩ := hof.exists_sample hasc (fun _ _ => .inl) hp
    exact ⟨s, hs, hone, Sample.main_admitted hsp⟩
  · obtain ⟨s, hs, hone, hsp⟩ := hof.exists_sample hasc (fun _ _ h => .inr (.inl h)) hp
    exact ⟨s, hs, hone, Sample.upper_admitsAxis (hord s hs) (hin s hs) hsp,
      Sample.upper_admitsEccentricity_iff hsp⟩
  · obtain ⟨s, hs, hone, hsp⟩ := hof.exists_sample hasc (fun _ _ h => .inr (.inr h)) hp
    exact ⟨s, hs, hone, Sample.lower_admitsAxis (hord s hs) (hin s hs) hsp,
      Sample.lower_admitsEccentricity_iff hsp⟩

/-- The hole stays while the bound on the eccentricity leaves it upwards. -/
noncomputable def leaving : List (Sample ℝ) :=
  [⟨0, some ⟨-2, 2⟩, some ⟨-8, 8⟩, some ⟨-4, 4⟩⟩, ⟨1, some ⟨-2, 2⟩, some ⟨-8, 8⟩, some ⟨3, 4⟩⟩]

private theorem ascending_leaving : Ascending leaving := by
  norm_num [Ascending, leaving]

private theorem ordered_leaving : ∀ s ∈ leaving, s.Ordered := by
  intro s hs
  fin_cases hs <;> constructor <;> rintro i ⟨⟩ <;> norm_num

private theorem holeInside_leaving : ∀ s ∈ leaving, s.HoleInside := by
  intro s hs
  fin_cases hs <;> norm_num [Sample.HoleInside]

private theorem exists_region_leaving :
    ∃ region, ofSamples leaving = .ok region ∧ region.samples = leaving := by
  have hw : window? leaving = some (0, 1) := by
    norm_num [window?, leaving, List.findIdx?_cons, List.takeWhile_cons, Sample.isComplete,
      Sample.canStart]
  have harea : 0 < areaOf (Cell.ofSamples (windowOf leaving 0 1)) := by
    norm_num [areaOf, windowOf, leaving, Cell.ofSamples, Cell.between, Cell.segment?,
      Sample.arcs, ArcPoint.between?, Arcs.joined?, Segment.area, Segment.meanWidth,
      ArcPoint.width]
  exact exists_of_areaOf_pos hw harea

/-- Where the bound on the eccentricity has left the hole, the upper curve holds ordinates of a
greater eccentricity. -/
theorem upper_not_admitted_leaving : Ascending leaving ∧ (∀ s ∈ leaving, s.Ordered) ∧
    (∀ s ∈ leaving, s.HoleInside) ∧ ∃ region, ofSamples leaving = .ok region ∧
      ∃ p ∈ region.upper, ∃ s ∈ leaving, s.abscissa = p.abscissa ∧
        ¬s.AdmitsEccentricity p := by
  refine ⟨ascending_leaving, ordered_leaving, holeInside_leaving, ?_⟩
  obtain ⟨region, hregion, hsamples⟩ := exists_region_leaving
  refine ⟨region, hregion, ⟨1, 2, 4⟩, ?_, ⟨1, some ⟨-2, 2⟩, some ⟨-8, 8⟩, some ⟨3, 4⟩⟩, ?_, rfl, ?_⟩
  · rw [upper, hsamples]
    norm_num [leaving, Sample.arcs, ArcPoint.between?]
  · simp [leaving]
  · rintro ⟨e, he, hsub⟩
    obtain rfl := Option.some.inj he
    have hmem : (2 : ℝ) ∈ ArcPoint.ordinates ⟨1, 2, 4⟩ := by norm_num [ArcPoint.ordinates]
    have hin := hsub hmem
    norm_num [Interval.ordinates] at hin

/-- Both points of the upper curve keep to the semi-major axis, and the first one to the
eccentricity. -/
theorem curve_admitted_leaving : Ascending leaving ∧ (∀ s ∈ leaving, s.Ordered) ∧
    (∀ s ∈ leaving, s.HoleInside) ∧ ∃ region, ofSamples leaving = .ok region ∧
      ∀ p ∈ region.upper, ∃ s ∈ leaving, (∀ t ∈ leaving, t.abscissa = p.abscissa ↔ t = s) ∧
        s.AdmitsAxis p ∧ (s.AdmitsEccentricity p ↔ s.ReachesFromAbove) := by
  obtain ⟨region, hregion, _⟩ := exists_region_leaving
  exact ⟨ascending_leaving, ordered_leaving, holeInside_leaving, region, hregion,
    (curve_admitted_iff ascending_leaving ordered_leaving holeInside_leaving hregion).2.1⟩

end Region

end AdmissibleRegion
