import AdmissibleRegion.Proofs.Hypotheses
import AdmissibleRegion.Proofs.Region.Location
import AdmissibleRegion.Proofs.SplitTable.Reader

/-!
# Where hypotheses stand

Fitted means lie strictly inside a region, so that each has a cell and no remark says that one
lies outside. The components of a mean stand strictly inside the segments of its cell, at
pairwise different ordinates, and no segment of positive width there is left without one.
-/

namespace AdmissibleRegion

namespace Component

variable {mean std weight : ℝ} {covers : List (Cover ℝ)}

/-- A component stands at an ordinate of a cover, with the deviations of its mean and of the
cover. -/
theorem exists_of_mem_share {c : Component ℝ} (h : c ∈ share mean std weight covers) :
    ∃ cover ∈ covers, c.ordinateMean ∈ cover.means ∧ c.abscissaStd = std ∧
      c.ordinateStd = cover.std := by
  obtain ⟨cover, hcover, h⟩ := List.mem_flatMap.mp h
  obtain ⟨ordinate, hordinate, rfl⟩ := List.mem_map.mp h
  exact ⟨cover, hcover, hordinate, rfl, rfl⟩

/-- The components stand at the ordinates of all covers, in order. -/
theorem map_ordinateMean_share (mean std weight : ℝ) (covers : List (Cover ℝ)) :
    (share mean std weight covers).map (·.ordinateMean) = covers.flatMap (·.means) := by
  simp [share, List.map_flatMap, Function.comp_def]

/-- Every ordinate of a cover has its component. -/
theorem exists_mem_share {cover : Cover ℝ} (hcover : cover ∈ covers) {y : ℝ}
    (hy : y ∈ cover.means) : ∃ c ∈ share mean std weight covers, c.ordinateMean = y := by
  have hmem : y ∈ covers.flatMap (·.means) := List.mem_flatMap.mpr ⟨cover, hcover, hy⟩
  rw [← map_ordinateMean_share mean std weight] at hmem
  exact List.mem_map.mp hmem

end Component

namespace Cell

/-- The components of one mean as they stand in its cell. -/
structure Filled (cell : Cell ℝ) (mean : ℝ) (part : List (Component ℝ)) : Prop where
  /-- Every component is strictly between the bounds of a segment. -/
  inside : ∀ c ∈ part, ∃ g ∈ cell.segments, ∃ b, g.boundsAt mean = .ok b ∧
    c.ordinateMean ∈ Set.Ioo b.lower b.upper
  /-- No two have the same ordinate. -/
  distinct : (part.map (·.ordinateMean)).Nodup
  /-- Every segment of positive width has a component. -/
  occupied : ∀ g ∈ cell.segments, ∀ b, g.boundsAt mean = .ok b → b.lower < b.upper →
    ∃ c ∈ part, c.ordinateMean ∈ Set.Ioo b.lower b.upper
  std_pos : ∀ c ∈ part, 0 < c.abscissaStd ∧ 0 < c.ordinateStd

variable {cell : Cell ℝ} {mean : ℝ} {part : List (Component ℝ)}

/-- Other weights leave the components where they stand. -/
theorem Filled.map_scaled (h : cell.Filled mean part) (total : ℝ) :
    cell.Filled mean (part.map (Component.scaled total)) := by
  refine ⟨fun c hc => ?_, ?_, fun g hg b hb hlt => ?_, fun c hc => ?_⟩
  · obtain ⟨d, hd, rfl⟩ := List.mem_map.mp hc
    exact h.inside d hd
  · rw [List.map_map]
    exact h.distinct
  · obtain ⟨c, hc, hy⟩ := h.occupied g hg b hb hlt
    exact ⟨c.scaled total, List.mem_map_of_mem hc, hy⟩
  · obtain ⟨d, hd, rfl⟩ := List.mem_map.mp hc
    exact h.std_pos d hd

/-- What covers the segments of a cell at an abscissa. -/
structure Covers (cell : Cell ℝ) (x : ℝ) (cover : Segment ℝ → Option (Cover ℝ)) : Prop where
  /-- A cover fits its segment. -/
  fits : ∀ g ∈ cell.segments, ∀ k, cover g = some k →
    k.Fits (g.boundsOn x).lower (g.boundsOn x).upper
  /-- A segment of positive width has a cover. -/
  exists_of_lt : ∀ g ∈ cell.segments, (g.boundsOn x).lower < (g.boundsOn x).upper →
    ∃ k, cover g = some k

/-- The segments of a cell have covers. -/
theorem Proper.exists_covers (h : cell.Proper) {table : SplitTable ℝ} (htable : table.Valid)
    (x sigma : ℝ) :
    ∃ cover, (∀ g ∈ cell.segments, g.cover? x sigma table = .ok (cover g)) ∧
      cell.Covers x cover := by
  have hsegment : ∀ g ∈ cell.segments, ∃ cover, g.cover? x sigma table = .ok cover ∧
      (∀ k, cover = some k → k.Fits (g.boundsOn x).lower (g.boundsOn x).upper) ∧
      ((g.boundsOn x).lower < (g.boundsOn x).upper → ∃ k, cover = some k) := by
    intro g hg
    unfold Segment.cover?
    rw [h.boundsAt_eq hg x, ok_bind]
    by_cases hlt : (g.boundsOn x).lower < (g.boundsOn x).upper
    · obtain ⟨k, hk, hfits⟩ := htable.exists_cover hlt sigma
      rw [if_pos hlt, hk, ok_bind, pure_eq_ok]
      refine ⟨some k, rfl, ?_, fun _ => ⟨k, rfl⟩⟩
      rintro k' ⟨⟩
      exact hfits
    · rw [if_neg hlt, pure_eq_ok]
      exact ⟨none, rfl, by rintro k ⟨⟩, fun hlt' => absurd hlt' hlt⟩
  choose! cover hcover hfits hopen using hsegment
  exact ⟨cover, hcover, hfits, hopen⟩

/-- Covers of different segments have different ordinates. -/
theorem Ordered.nodup_means (h : cell.Ordered) {x : ℝ} (hx : x ∈ Set.Icc cell.left cell.right)
    {cover : Segment ℝ → Option (Cover ℝ)} (hcovers : cell.Covers x cover) :
    ((cell.segments.filterMap cover).flatMap (·.means)).Nodup := by
  rw [List.nodup_flatMap, List.pairwise_filterMap]
  constructor
  · intro k hk
    obtain ⟨g, hg, hk⟩ := List.mem_filterMap.mp hk
    exact (hcovers.fits g hg k hk).ascending.imp ne_of_lt
  · refine h.pairwise_boundsAt.imp_of_mem fun {above below} ha hb hstacked k hk l hl => ?_
    have hle := hstacked x hx _ _ (h.boundsAt_eq ha x) (h.boundsAt_eq hb x)
    -- a common ordinate would be above itself
    refine List.disjoint_left.mpr fun y hyk hyl => ?_
    have hlower := ((hcovers.fits above ha k hk).inside y hyk).1
    have hupper := ((hcovers.fits below hb l hl).inside y hyl).2
    exact (hupper.trans (hle.trans_lt hlower)).false

/-- The components of a mean fill its cell. -/
theorem Ordered.filled (h : cell.Ordered) (hx : mean ∈ Set.Icc cell.left cell.right)
    {cover : Segment ℝ → Option (Cover ℝ)} (hcovers : cell.Covers mean cover) {std : ℝ}
    (hstd : 0 < std) (weight : ℝ) :
    cell.Filled mean (Component.share mean std weight (cell.segments.filterMap cover)) := by
  refine ⟨fun c hc => ?_, ?_, fun g hg b hb hlt => ?_, fun c hc => ?_⟩
  · obtain ⟨k, hk, hy, _⟩ := Component.exists_of_mem_share hc
    obtain ⟨g, hg, hk⟩ := List.mem_filterMap.mp hk
    exact ⟨g, hg, g.boundsOn mean, h.boundsAt_eq hg mean,
      (hcovers.fits g hg k hk).inside _ hy⟩
  · rw [Component.map_ordinateMean_share]
    exact h.nodup_means hx hcovers
  · obtain rfl := Except.ok.inj ((h.boundsAt_eq hg mean).symm.trans hb)
    obtain ⟨k, hk⟩ := hcovers.exists_of_lt g hg hlt
    have hfits := hcovers.fits g hg k hk
    obtain ⟨y, hy⟩ := List.exists_mem_of_ne_nil _ hfits.ne_nil
    have hmem : k ∈ cell.segments.filterMap cover := List.mem_filterMap.mpr ⟨g, hg, hk⟩
    obtain ⟨c, hc, rfl⟩ := Component.exists_mem_share hmem hy
    exact ⟨c, hc, hfits.inside _ hy⟩
  · obtain ⟨k, hk, _, habscissa, hordinate⟩ := Component.exists_of_mem_share hc
    obtain ⟨g, hg, hk⟩ := List.mem_filterMap.mp hk
    rw [habscissa, hordinate]
    exact ⟨hstd, (hcovers.fits g hg k hk).std_pos⟩

end Cell

namespace Region

/-- Hypotheses stand for surviving means, and those of each mean fill the one cell it lies
in. -/
structure Populated (region : Region ℝ) (surviving : List (ℝ × ℝ))
    (components : List (Component ℝ)) : Prop where
  abscissaMean_mem : ∀ c ∈ components, ∃ p ∈ surviving, c.abscissaMean = p.1
  filled : ∀ p ∈ surviving, ∃ i cell, Cell.IsAt region.cells p.1 i cell ∧
    cell.Filled p.1 (components.filter fun c => c.abscissaMean = p.1)

variable {samples : List (Sample ℝ)} {region : Region ℝ} {table : SplitTable ℝ}

theorem Of.ordered (h : region.Of samples) (hasc : Ascending samples)
    (hord : ∀ s ∈ samples, s.Ordered) {c : Cell ℝ} (hc : c ∈ region.cells) : c.Ordered := by
  rw [h.cells_eq] at hc
  exact Cell.ordered_of_mem (h.ascending hasc) (fun s hs => hord s (h.mem_samples hs)) hc

/-- Strictly inside a region, the components of a mean fill its cell. -/
theorem Of.exists_filled (h : region.Of samples) (hasc : Ascending samples)
    (hord : ∀ s ∈ samples, s.Ordered) (htable : table.Valid) {mean std : ℝ}
    (hmean : mean ∈ Set.Ioo region.start region.stop) (hstd : 0 < std) (sigma weight : ℝ) :
    ∃ i cell, Cell.IsAt region.cells mean i cell ∧ ∃ part,
      (componentsAt region table std sigma mean weight).outcome = .ok part ∧
      cell.Filled mean part := by
  obtain ⟨i, cell, hat⟩ := h.exists_isAt hasc hmean
  have hordered := h.ordered hasc hord (List.mem_of_getElem? hat.getElem?_eq)
  obtain ⟨cover, hcover, hcovers⟩ := hordered.exists_covers htable mean sigma
  refine ⟨i, cell, hat, _, ?_, hordered.filled hat.mem_Icc hcovers hstd weight⟩
  have hlocate : region.locate? mean = some cell := hat.find?_eq
  rw [componentsAt_eq hlocate hcover]

/-- Every mean of a fit lies strictly inside the region, and their deviation is positive. -/
theorem Of.fit_inside (h : region.Of samples) (hasc : Ascending samples) (htable : table.Valid)
    {solve : WeightSolver ℝ} {sigma : ℝ} {budget : ℤ} {tolerance : ℝ} {strict : Bool}
    {fit : Fit ℝ}
    (hfit : (fitMixture solve region sigma table budget tolerance strict).outcome = .ok fit) :
    (∀ m ∈ fit.mixture.means, m ∈ Set.Ioo region.start region.stop) ∧ 0 < fit.mixture.sigma := by
  obtain ⟨cover, _, _, hcover, _, _, hmade⟩ := exists_of_outcome_fitMixture hfit
  obtain ⟨cover', hcover', hfits⟩ := htable.exists_cover (h.start_lt_stop hasc) sigma
  obtain rfl := Except.ok.inj (hcover'.symm.trans hcover)
  rw [hmade.means_eq, hmade.sigma_eq]
  exact ⟨hfits.inside, hfits.std_pos⟩

/-- The hypotheses of a fit populate the cells of its surviving means, and the only remarks are
about cells without ordinates. -/
theorem Of.exists_populated (h : region.Of samples) (hasc : Ascending samples)
    (hord : ∀ s ∈ samples, s.Ordered) (htable : table.Valid) (sigma : ℝ) {point : List ℝ}
    {fit : Fit ℝ} (hfit : fit.Of point)
    (hmeans : ∀ m ∈ fit.mixture.means, m ∈ Set.Ioo region.start region.stop)
    (hsigma : 0 < fit.mixture.sigma) :
    ∃ notices components,
      hypotheses region fit.mixture sigma table = ⟨notices, .ok components⟩ ∧
      region.Populated fit.mixture.surviving components ∧
      ∀ notice ∈ notices, ∃ mean kind weight, notice = .noOrdinates mean kind weight := by
  have hsurviving : ∀ p ∈ fit.mixture.surviving, p.1 ∈ Set.Ioo region.start region.stop :=
    fun p hp => hmeans p.1 (List.of_mem_zip (List.mem_of_mem_filter hp)).1
  choose part hpart hshares hordinates using fun p : ℝ × ℝ =>
    h.exists_componentsAt hasc htable.ne_nil fit.mixture.sigma sigma p.1 p.2
  have hallot := hfit.allotment fun p _ => hshares p
  obtain ⟨total, _, _, hrun⟩ :=
    hallot.exists_hypotheses_eq hfit.sum_surviving_eq_one fun p _ => hpart p
  refine ⟨_, _, hrun, ⟨fun c hc => ?_, fun p hp => ?_⟩, fun notice hnotice => ?_⟩
  · obtain ⟨p, hp, hmean, _⟩ := hallot.exists_of_mem_scaled hc
    exact ⟨p, hp, hmean⟩
  · obtain ⟨i, cell, hat, part', hpart', hfilled⟩ :=
      h.exists_filled hasc hord htable (hsurviving p hp) hsigma sigma p.2
    rw [hpart p] at hpart'
    obtain rfl := Except.ok.inj hpart'
    refine ⟨i, cell, hat, ?_⟩
    rw [hallot.filter_scaled total hp]
    exact hfilled.map_scaled total
  · obtain ⟨p, hp, hnotice⟩ := List.mem_flatMap.mp hnotice
    obtain ⟨i, cell, hat⟩ := h.exists_isAt hasc (hsurviving p hp)
    have hloss : region.loss p.1 p.2 = .noOrdinates p.1 cell.kind p.2 := by
      have hlocate : region.locate? p.1 = some cell := hat.find?_eq
      rw [loss, hlocate]
    split at hnotice
    · exact ⟨p.1, cell.kind, p.2, (List.mem_singleton.mp hnotice).trans hloss⟩
    · cases hnotice

/-- Whatever point a solver finds, all fitted means lie strictly inside the region, those with a
positive weight survive, and the hypotheses populate their cells. -/
theorem populated_by_hypotheses (hasc : Ascending samples) (hord : ∀ s ∈ samples, s.Ordered)
    (hregion : ofSamples samples = .ok region) (htable : table.Valid) (sigma₁ sigma₂ : ℝ)
    (budget : ℤ) (tolerance : ℝ) (strict : Bool) :
    ∃ problem : WeightProblem ℝ, 0 < problem.candidates ∧ ∀ solve solution,
      solve problem = .ok solution → solution.point.length = problem.candidates →
      (strict = true → solution.converged = true) →
      ∃ fit notices components,
        (fitMixture solve region sigma₁ table budget tolerance strict).outcome = .ok fit ∧
        (∀ m ∈ fit.mixture.means, m ∈ Set.Ioo region.start region.stop) ∧
        fit.Of solution.point ∧ fit.mixture.Accounted ∧
        hypotheses region fit.mixture sigma₂ table = ⟨notices, .ok components⟩ ∧
        region.Populated fit.mixture.surviving components ∧
        ∀ notice ∈ notices, ∃ mean kind weight, notice = .noOrdinates mean kind weight := by
  have hof := of_ofSamples hregion
  obtain ⟨problem, hcandidates, hproblem⟩ :=
    hof.exists_fit hasc htable.ne_nil sigma₁ budget tolerance strict
  refine ⟨problem, hcandidates, fun solve solution hsolve hlength hstrict => ?_⟩
  obtain ⟨_, fit, _, houtcome, _, hfit⟩ := hproblem solve solution hsolve hlength hstrict
  obtain ⟨hmeans, hsigma⟩ := hof.fit_inside hasc htable houtcome
  obtain ⟨notices, components, hrun, hpopulated, hnotices⟩ :=
    hof.exists_populated hasc hord htable sigma₂ hfit hmeans hsigma
  exact ⟨fit, notices, components, houtcome, hmeans, hfit, hfit.accounted, hrun, hpopulated,
    hnotices⟩

theorem ordered_changing : ∀ s ∈ changing, s.Ordered := by
  intro s hs
  fin_cases hs <;> constructor <;> rintro i ⟨⟩ <;> norm_num

/-- Before its gap, the region of changing samples has a segment of positive width everywhere. -/
theorem exists_lt_boundsAt_changing {x : ℝ} (hx : x ∈ Set.Ioc 0 0.3) {i : ℕ} {cell : Cell ℝ}
    (hat : Cell.IsAt (Cell.ofSamples changing) x i cell) :
    ∃ g ∈ cell.segments, ∃ b, g.boundsAt x = .ok b ∧ b.lower < b.upper := by
  rw [cells_changing] at hat
  have hlevel : ∀ p q : ArcPoint ℝ, p.abscissa < q.abscissa → q.lower = p.lower →
      q.upper = p.upper → (Segment.mk p q).boundsAt x = .ok ⟨p.lower, p.upper⟩ := by
    intro p q hlt hlower hupper
    rw [Segment.boundsAt, Scalar.divide_eq_ok _ (sub_pos.mpr hlt).ne', ok_bind, hlower, hupper]
    simp
  rcases le_or_gt x 0.1 with hle | hlt
  · obtain rfl := (hat.mem_iff 0 _ rfl).mp ⟨hx.1, hle⟩
    obtain rfl := Option.some.inj hat.getElem?_eq
    refine ⟨_, List.mem_cons_self, _, hlevel _ _ ?_ rfl rfl, ?_⟩ <;> norm_num
  · obtain rfl := (hat.mem_iff 1 _ rfl).mp ⟨hlt, hx.2⟩
    obtain rfl := Option.some.inj hat.getElem?_eq
    refine ⟨_, List.mem_cons_self, _, hlevel _ _ ?_ rfl rfl, ?_⟩ <;> norm_num

/-- Two sizes, one on a line. -/
def twoSizes : List Char := "0.5\n\n 0.25 \n".toList

theorem exists_parse_twoSizes :
    ∃ table, SplitTable.parse twoSizes SplitTable.inMemory = .ok table := by
  have hok : (SplitTable.parse twoSizes SplitTable.inMemory).isOk = true := by decide +kernel
  cases h : SplitTable.parse twoSizes SplitTable.inMemory with
  | error problem =>
    rw [h] at hok
    cases hok
  | ok table => exact ⟨table, rfl⟩

/-- With a table that was read, and a point that leaves the box on both sides, the first mean
survives and has a component. -/
theorem populated_by_hypotheses_changing : Ascending changing ∧ (∀ s ∈ changing, s.Ordered) ∧
    ∃ region table fit notices components, ofSamples changing = .ok region ∧
      SplitTable.parse twoSizes SplitTable.inMemory = .ok table ∧ table.toReal.Valid ∧
      (fitMixture outside region 1 table.toReal 100 0 true).outcome = .ok fit ∧
      fit.mixture.Accounted ∧
      hypotheses region fit.mixture 1 table.toReal = ⟨notices, .ok components⟩ ∧
      region.Populated fit.mixture.surviving components ∧
      ∃ p ∈ fit.mixture.surviving, fit.mixture.means[0]? = some p.1 ∧
        ∃ c ∈ components, c.abscissaMean = p.1 := by
  obtain ⟨region, hregion, hsamples⟩ := exists_region_changing
  obtain ⟨table, hparse⟩ := exists_parse_twoSizes
  have htable := (SplitTable.valid_of_parse hparse).toReal
  obtain ⟨problem, hcandidates, hproblem⟩ := populated_by_hypotheses ascending_changing
    ordered_changing hregion htable 1 1 100 0 true
  have hlength : ((1.5 : ℝ) :: List.replicate (problem.candidates - 1) (-1)).length =
      problem.candidates := by
    rw [List.length_cons, List.length_replicate]
    omega
  obtain ⟨fit, notices, components, houtcome, hmeans, hfit, haccounted, hrun, hpopulated, _⟩ :=
    hproblem outside _ rfl hlength fun _ => rfl
  obtain ⟨p, hp, hfirst⟩ :=
    haccounted.exists_mem_surviving hfit.fitted (k := 0) rfl (by norm_num : (0 : ℝ) < 1.5)
  refine ⟨ascending_changing, ordered_changing, region, table, fit, notices, components, hregion,
    hparse, htable, houtcome, haccounted, hrun, hpopulated, p, hp, hfirst, ?_⟩
  obtain ⟨i, cell, hat, hfilled⟩ := hpopulated.filled p hp
  have hmean : p.1 ∈ Set.Ioc 0 0.3 := by
    have hstart : region.start = 0 := by simp [start, abscissas, hsamples, changing]
    have hstop : region.stop = 0.4 := by simp [stop, abscissas, hsamples, changing]
    obtain ⟨cover, _, _, hcover, _, _, hmade⟩ := exists_of_outcome_fitMixture houtcome
    obtain ⟨n, hplaces⟩ := SplitTable.exists_places_of_cover hcover
    have hinside := hmeans p.1 (List.mem_of_getElem? hfirst)
    rw [hmade.means_eq, hplaces] at hfirst
    have hle := SplitTable.le_middle_of_getElem?_places (hinside.1.trans hinside.2) hfirst
    rw [hstart, hstop] at hle
    rw [hstart] at hinside
    exact ⟨hinside.1, hle.trans (by norm_num)⟩
  rw [(of_ofSamples hregion).cells_eq, hsamples] at hat
  obtain ⟨g, hg, b, hb, hlt⟩ := exists_lt_boundsAt_changing hmean hat
  obtain ⟨c, hc, _⟩ := hfilled.occupied g hg b hb hlt
  obtain ⟨hc, hmean⟩ := List.mem_filter.mp hc
  exact ⟨c, hc, of_decide_eq_true hmean⟩

end Region

end AdmissibleRegion
