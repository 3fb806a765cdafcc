import AdmissibleRegion.Proofs.Region.Density

/-!
# The first run of complete samples

A region is built on the run of complete samples that begins at the first sample at which it can
begin, and on no other. It exists exactly if a cell of that run has a width. Two neighbours
without a hole whose outer bounds overlap are part of a region unless that run ends before them;
if it ends and has no width, later samples are not considered.
-/

namespace AdmissibleRegion

/-- The longest prefix of members with a property holds those up to which all members have it. -/
theorem getElem?_takeWhile_eq_some_iff {α : Type} {p : α → Bool} {xs : List α} {k : ℕ}
    {x : α} : (xs.takeWhile p)[k]? = some x ↔
      xs[k]? = some x ∧ ∀ j ≤ k, ∃ y, xs[j]? = some y ∧ p y = true := by
  induction xs generalizing k with
  | nil => simp
  | cons first xs ih =>
    by_cases hfirst : p first = true
    · rw [List.takeWhile_cons_of_pos hfirst]
      cases k with
      | zero => simp [hfirst]
      | succ k =>
        rw [List.getElem?_cons_succ, List.getElem?_cons_succ, ih]
        refine and_congr_right fun _ => ⟨fun h j hj => ?_, fun h j hj => ?_⟩
        · cases j with
          | zero => exact ⟨first, rfl, hfirst⟩
          | succ j => exact h j (Nat.succ_le_succ_iff.mp hj)
        · exact h (j + 1) (Nat.succ_le_succ hj)
    · rw [List.takeWhile_cons_of_neg hfirst]
      constructor
      · intro h
        cases h
      · rintro ⟨_, h⟩
        obtain ⟨y, hy, hpass⟩ := h 0 (Nat.zero_le k)
        obtain rfl := Option.some.inj hy
        exact absurd hpass hfirst

/-- All samples from one index to another are complete. -/
def CompleteOn (samples : List (Sample ℝ)) (first last : ℕ) : Prop :=
  ∀ k, first ≤ k → k ≤ last → ∃ s, samples[k]? = some s ∧ s.isComplete = true

theorem CompleteOn.mono {samples : List (Sample ℝ)} {first last last' : ℕ}
    (h : CompleteOn samples first last) (hle : last' ≤ last) : CompleteOn samples first last' :=
  fun k hfirst hlast => h k hfirst (hlast.trans hle)

/-- The run of complete samples from an index on. -/
def runFrom (samples : List (Sample ℝ)) (start : ℕ) : List (Sample ℝ) :=
  (samples.drop start).takeWhile Sample.isComplete

theorem getElem?_runFrom {samples : List (Sample ℝ)} {start k : ℕ} {s : Sample ℝ} :
    (runFrom samples start)[k]? = some s ↔
      samples[start + k]? = some s ∧ CompleteOn samples start (start + k) := by
  rw [runFrom, getElem?_takeWhile_eq_some_iff, List.getElem?_drop]
  refine and_congr_right fun _ => ⟨fun h j hfirst hlast => ?_, fun h j hj => ?_⟩
  · obtain ⟨y, hy, hcomplete⟩ := h (j - start) (by omega)
    rw [List.getElem?_drop, Nat.add_sub_cancel' hfirst] at hy
    exact ⟨y, hy, hcomplete⟩
  · rw [List.getElem?_drop]
    exact h (start + j) (Nat.le_add_right _ _) (Nat.add_le_add_left hj _)

theorem runFrom_sublist (samples : List (Sample ℝ)) (start : ℕ) :
    (runFrom samples start).Sublist samples :=
  (List.takeWhile_sublist _).trans (List.drop_sublist _ _)

namespace Sample

variable {s : Sample ℝ}

/-- Without a hole, both outer bounds are present and share more than a point. -/
def IsOpen (s : Sample ℝ) : Prop :=
  s.amin = none ∧ ∃ a e, s.amax = some a ∧ s.emax = some e ∧
    max a.lower e.lower < min a.upper e.upper

theorem IsOpen.isComplete (h : s.IsOpen) : s.isComplete = true := by
  obtain ⟨_, a, e, ha, he, _⟩ := h
  simp [Sample.isComplete, ha, he]

theorem IsOpen.canStart (h : s.IsOpen) : s.canStart = true := by
  obtain ⟨hm, a, e, ha, he, _⟩ := h
  simp [Sample.canStart, hm, ha, he]

/-- The main arc has a width there. -/
theorem IsOpen.exists_main (h : s.IsOpen) : ∃ p, s.arcs.main = some p ∧ 0 < p.width := by
  obtain ⟨hm, a, e, ha, he, hlt⟩ := h
  refine ⟨_, main_eq_some.mpr ⟨a, e, ha, he, hm, hlt.le, rfl⟩, ?_⟩
  rw [ArcPoint.width_eq]
  exact sub_pos.mpr hlt

/-- A cell between two such samples has a width. -/
theorem IsOpen.meanWidth_between_pos {t : Sample ℝ} (hs : s.IsOpen) (ht : t.IsOpen) :
    0 < (Cell.between s t).meanWidth := by
  obtain ⟨p, hp, hpwidth⟩ := hs.exists_main
  obtain ⟨q, hq, hqwidth⟩ := ht.exists_main
  have hcell : (Cell.between s t).segments = [⟨p, q⟩] := by
    unfold Cell.between
    simp only [hp, hq]
  rw [Cell.meanWidth_eq, hcell, List.map_singleton, List.sum_singleton, Segment.meanWidth_eq]
  positivity

end Sample

namespace Region

variable {samples : List (Sample ℝ)} {start : ℕ}

/-- The area of ordered cells is positive exactly if one of them has a width. -/
theorem areaOf_pos_iff {cells : List (Cell ℝ)} (h : ∀ c ∈ cells, c.Ordered) :
    0 < areaOf cells ↔ ∃ c ∈ cells, 0 < c.meanWidth := by
  have hsum := areaOf_eq_sum fun c hc => (h c hc).toProper
  have hnonneg : ∀ a ∈ cells.map fun c => c.meanWidth * (c.right - c.left), 0 ≤ a := by
    intro a ha
    obtain ⟨c, hc, rfl⟩ := List.mem_map.mp ha
    exact mul_nonneg (h c hc).meanWidth_nonneg (sub_nonneg.mpr (h c hc).left_lt_right.le)
  constructor
  · intro harea
    by_contra hnone
    push Not at hnone
    have hzero : ∀ a ∈ cells.map fun c => c.meanWidth * (c.right - c.left), a = 0 := by
      intro a ha
      obtain ⟨c, hc, rfl⟩ := List.mem_map.mp ha
      rw [(hnone c hc).antisymm (h c hc).meanWidth_nonneg, zero_mul]
    rw [hsum, List.sum_eq_zero hzero] at harea
    exact harea.false
  · rintro ⟨c, hc, hwidth⟩
    rw [hsum]
    have hpart : 0 < c.meanWidth * (c.right - c.left) :=
      mul_pos hwidth (sub_pos.mpr (h c hc).left_lt_right)
    exact hpart.trans_le (List.single_le_sum hnonneg _ (List.mem_map_of_mem hc))

/-- The window of some samples is the run from the first one at which a region can begin. -/
theorem window?_eq_some_iff (hstart : samples.findIdx? Sample.canStart = some start)
    {first last : ℕ} : window? samples = some (first, last) ↔
      first = start ∧ 2 ≤ (runFrom samples start).length ∧
        last = start + (runFrom samples start).length - 1 := by
  unfold window?
  simp only [hstart, ← runFrom.eq_def]
  split
  · rename_i hlen
    rw [Option.some.injEq, Prod.mk.injEq]
    constructor
    · rintro ⟨rfl, rfl⟩
      exact ⟨rfl, hlen, rfl⟩
    · rintro ⟨rfl, _, rfl⟩
      exact ⟨rfl, rfl⟩
  · rename_i hlen
    constructor
    · intro h
      cases h
    · rintro ⟨_, hlen', _⟩
      exact absurd hlen' hlen

/-- Some samples have a region exactly if the first run has a cell with a width. -/
theorem exists_ofSamples_iff (hasc : Ascending samples) (hord : ∀ s ∈ samples, s.Ordered)
    (hstart : samples.findIdx? Sample.canStart = some start) :
    (∃ region, ofSamples samples = .ok region) ↔
      ∃ c ∈ Cell.ofSamples (runFrom samples start), 0 < c.meanWidth := by
  have hsub := runFrom_sublist samples start
  have hordered : ∀ c ∈ Cell.ofSamples (runFrom samples start), c.Ordered := fun c hc =>
    Cell.ordered_of_mem (hasc.sublist hsub) (fun s hs => hord s (hsub.subset hs)) hc
  rw [← areaOf_pos_iff hordered]
  constructor
  · rintro ⟨region, hregion⟩
    have hof := of_ofSamples hregion
    obtain ⟨hfirst, _, _⟩ := (window?_eq_some_iff hstart).mp hof.window
    have hpos := hof.area_pos
    rwa [hof.area_eq, hof.cells_eq, hof.samples_eq, (windowOf_of_window? hof.window).1,
      hfirst] at hpos
  · intro harea
    -- a cell needs two samples
    obtain ⟨c, hc, _⟩ := (areaOf_pos_iff hordered).mp harea
    obtain ⟨i, hi⟩ := List.mem_iff_getElem?.mp hc
    obtain ⟨_, _, _, ht, _⟩ := Cell.getElem?_ofSamples.mp hi
    have hlen : 2 ≤ (runFrom samples start).length := by
      have hlt := (List.getElem?_eq_some_iff.mp ht).1
      omega
    have hw : window? samples = some (start, start + (runFrom samples start).length - 1) :=
      (window?_eq_some_iff hstart).mpr ⟨rfl, hlen, rfl⟩
    rw [runFrom, ← (windowOf_of_window? hw).1] at harea
    obtain ⟨region, hregion, _⟩ := exists_of_areaOf_pos hw harea
    exact ⟨region, hregion⟩

/-- The cell between two neighbours has a width, and the run from a sample on reaches the later
of them. -/
def HasWidthAt (samples : List (Sample ℝ)) (start j : ℕ) : Prop :=
  start ≤ j ∧ CompleteOn samples start (j + 1) ∧ ∃ s t, samples[j]? = some s ∧
    samples[j + 1]? = some t ∧ 0 < (Cell.between s t).meanWidth

/-- The same by the indices of neighbours. -/
theorem exists_ofSamples_iff_exists_hasWidthAt (hasc : Ascending samples)
    (hord : ∀ s ∈ samples, s.Ordered)
    (hstart : samples.findIdx? Sample.canStart = some start) :
    (∃ region, ofSamples samples = .ok region) ↔ ∃ j, HasWidthAt samples start j := by
  rw [exists_ofSamples_iff hasc hord hstart]
  constructor
  · rintro ⟨c, hc, hwidth⟩
    obtain ⟨i, hi⟩ := List.mem_iff_getElem?.mp hc
    obtain ⟨s, t, hs, ht, rfl⟩ := Cell.getElem?_ofSamples.mp hi
    obtain ⟨hs, _⟩ := getElem?_runFrom.mp hs
    obtain ⟨ht, hcomplete⟩ := getElem?_runFrom.mp ht
    exact ⟨start + i, Nat.le_add_right _ _, hcomplete, s, t, hs, ht, hwidth⟩
  · rintro ⟨j, hle, hcomplete, s, t, hs, ht, hwidth⟩
    obtain ⟨i, rfl⟩ := Nat.exists_eq_add_of_le hle
    refine ⟨Cell.between s t, List.mem_iff_getElem?.mpr ⟨i, ?_⟩, hwidth⟩
    exact Cell.getElem?_ofSamples.mpr ⟨s, t,
      getElem?_runFrom.mpr ⟨hs, hcomplete.mono (Nat.le_succ _)⟩,
      getElem?_runFrom.mpr ⟨ht, hcomplete⟩, rfl⟩

/-- A region can begin at the first sample before an open one, or at that one. -/
theorem exists_start_le {i : ℕ} {s : Sample ℝ} (hs : samples[i]? = some s) (hopen : s.IsOpen) :
    ∃ start, samples.findIdx? Sample.canStart = some start ∧ start ≤ i := by
  obtain ⟨hi, rfl⟩ := List.getElem?_eq_some_iff.mp hs
  cases hfind : samples.findIdx? Sample.canStart with
  | none =>
    have hnever := List.findIdx?_eq_none_iff.mp hfind _ (List.getElem_mem hi)
    rw [hopen.canStart] at hnever
    cases hnever
  | some start =>
    refine ⟨start, rfl, ?_⟩
    obtain ⟨_, _, hbefore⟩ := List.findIdx?_eq_some_iff_getElem.mp hfind
    by_contra hlt
    exact hbefore i (not_le.mp hlt) hopen.canStart

/-- Two open neighbours are part of a region if all samples from the first one at which a region
can begin are complete. If a sample in between is not, there is a region exactly if a cell
before that sample has a width. -/
theorem open_neighbours_iff (hasc : Ascending samples) (hord : ∀ s ∈ samples, s.Ordered) {i : ℕ}
    {s t : Sample ℝ} (hs : samples[i]? = some s) (ht : samples[i + 1]? = some t)
    (hopen : s.IsOpen) (hopen' : t.IsOpen) :
    ∃ start ≤ i, samples.findIdx? Sample.canStart = some start ∧
      ((∃ region, ofSamples samples = .ok region) ↔
        CompleteOn samples start i ∨ ∃ j, j + 1 < i ∧ HasWidthAt samples start j) ∧
      (CompleteOn samples start i → ∀ region, ofSamples samples = .ok region →
        region.first = start ∧ i + 1 ≤ region.last) := by
  obtain ⟨start, hstart, hle⟩ := exists_start_le hs hopen
  have hextend : CompleteOn samples start i → CompleteOn samples start (i + 1) := by
    intro hcomplete k hfirst hlast
    rcases Nat.le_succ_iff.mp hlast with hk | rfl
    · exact hcomplete k hfirst hk
    · exact ⟨t, ht, hopen'.isComplete⟩
  refine ⟨start, hle, hstart, ?_, fun hcomplete region hregion => ?_⟩
  · rw [exists_ofSamples_iff_exists_hasWidthAt hasc hord hstart]
    constructor
    · rintro ⟨j, hj⟩
      rcases Nat.lt_or_ge (j + 1) i with hlt | hge
      · exact .inr ⟨j, hlt, hj⟩
      · exact .inl (hj.2.1.mono hge)
    · rintro (hcomplete | ⟨j, _, hj⟩)
      · exact ⟨i, hle, hextend hcomplete, s, t, hs, ht, hopen.meanWidth_between_pos hopen'⟩
      · exact ⟨j, hj⟩
  · obtain ⟨hfirst, _, hlast⟩ :=
      (window?_eq_some_iff hstart).mp (of_ofSamples hregion).window
    have hmem : (runFrom samples start)[i + 1 - start]? = some t := by
      have hindex : start + (i + 1 - start) = i + 1 := by omega
      rw [getElem?_runFrom, hindex]
      exact ⟨ht, hextend hcomplete⟩
    have hlt := (List.getElem?_eq_some_iff.mp hmem).1
    exact ⟨hfirst, by omega⟩

/-- A sample at which a region can begin. -/
def openAt (k : ℕ) : Sample ℝ := ⟨k, none, some ⟨-1, 1⟩, some ⟨-1, 1⟩⟩

theorem isOpen_openAt (k : ℕ) : (openAt k).IsOpen :=
  ⟨rfl, _, _, rfl, rfl, by norm_num⟩

/-- A sample at which a region can begin, one without a bound on the semi-major axis, and two
more at which a region can begin. -/
def interrupted : List (Sample ℝ) :=
  [openAt 0, ⟨1, none, none, some ⟨-1, 1⟩⟩, openAt 2, openAt 3]

theorem ascending_interrupted : Ascending interrupted := by
  norm_num [Ascending, interrupted, openAt]

theorem ordered_interrupted : ∀ s ∈ interrupted, s.Ordered := by
  intro s hs
  fin_cases hs <;> constructor <;> rintro i ⟨⟩ <;> norm_num

/-- The last two samples alone have a region. -/
theorem open_neighbours_iff_drop_interrupted : Ascending (interrupted.drop 2) ∧
    (∀ s ∈ interrupted.drop 2, s.Ordered) ∧
    ∃ region, ofSamples (interrupted.drop 2) = .ok region ∧ 1 ≤ region.last := by
  have hsub := List.drop_sublist 2 interrupted
  have hasc := ascending_interrupted.sublist hsub
  have hord : ∀ s ∈ interrupted.drop 2, s.Ordered := fun s hs =>
    ordered_interrupted s (hsub.subset hs)
  obtain ⟨start, hle, _, hiff, hinside⟩ := open_neighbours_iff (i := 0) hasc hord rfl rfl
    (isOpen_openAt 2) (isOpen_openAt 3)
  have hcomplete : CompleteOn (interrupted.drop 2) start 0 := by
    intro k _ hk
    obtain rfl := Nat.le_zero.mp hk
    exact ⟨_, rfl, (isOpen_openAt 2).isComplete⟩
  obtain ⟨region, hregion⟩ := hiff.mpr (.inl hcomplete)
  exact ⟨hasc, hord, region, hregion, (hinside hcomplete region hregion).2⟩

/-- After the interruption, two open neighbours do not get a region. -/
theorem no_region_interrupted : Ascending interrupted ∧ (∀ s ∈ interrupted, s.Ordered) ∧
    (∃ s t, interrupted[2]? = some s ∧ interrupted[3]? = some t ∧ s.IsOpen ∧ t.IsOpen) ∧
    ¬∃ region, ofSamples interrupted = .ok region := by
  refine ⟨ascending_interrupted, ordered_interrupted,
    ⟨_, _, rfl, rfl, isOpen_openAt 2, isOpen_openAt 3⟩, ?_⟩
  have hstart : interrupted.findIdx? Sample.canStart = some 0 := by
    simp [interrupted, openAt, List.findIdx?_cons, Sample.canStart]
  rw [exists_ofSamples_iff_exists_hasWidthAt ascending_interrupted ordered_interrupted hstart]
  rintro ⟨j, _, hcomplete, _⟩
  obtain ⟨s, hs, hbounds⟩ := hcomplete 1 zero_le_one (by omega)
  obtain rfl := Option.some.inj hs
  simp [Sample.isComplete] at hbounds

end Region

end AdmissibleRegion
