import AdmissibleRegion.Proofs.Hypotheses
import AdmissibleRegion.Proofs.Region.Rescaling

/-!
# Hypotheses in other units of the ordinate

Where the desired deviation of the ordinate changes with its unit, an interval is covered by as
many densities as before, in the reverse order if ordinates are turned over. So every fitted
mean has the same components but for their ordinates, and leaves the same remarks.
-/

namespace AdmissibleRegion

open Scalar

namespace Component

variable {mean std weight : ℝ} {covers covers' : List (Cover ℝ)}

/-- The order of covers does not matter. -/
theorem share_perm (h : covers.Perm covers') :
    (share mean std weight covers).Perm (share mean std weight covers') := by
  unfold share
  rw [(h.flatMap_right (·.means)).length_eq]
  exact h.flatMap_right _

end Component

namespace Rescaling

variable (T : Rescaling)

/-- A cover after the change. -/
noncomputable def cover (c : Cover ℝ) : Cover ℝ :=
  ⟨T.ordered T.apply c.means, |T.factor| * c.std⟩

/-- A component after the change. -/
noncomputable def component (c : Component ℝ) : Component ℝ :=
  { c with
    ordinateMean := T.apply c.ordinateMean
    ordinateStd := |T.factor| * c.ordinateStd }

/-- Straight lines stay straight. -/
theorem boundsAt_segment (g : Segment ℝ) (x : ℝ) :
    (T.segment g).boundsAt x = (g.boundsAt x).map T.interval := by
  have hline : ∀ t a b, T.apply a + t * (T.apply b - T.apply a) = T.apply (a + t * (b - a)) := by
    intro t a b
    unfold apply
    ring
  unfold Segment.boundsAt
  change (divide (x - g.start.abscissa) (g.stop.abscissa - g.start.abscissa) >>= _) = _
  cases divide (x - g.start.abscissa) (g.stop.abscissa - g.start.abscissa) with
  | error fault => rfl
  | ok t =>
    rcases T.neg_or_pos with h | h
    · simp [segment, point, interval, pick_of_neg h, hline, Except.map]
    · simp [segment, point, interval, pick_of_pos h, hline, Except.map]

/-- The places of an interval change with its ends. -/
theorem places_interval (start stop : ℝ) (n : ℕ) :
    SplitTable.places (T.apply (T.pick start stop)) (T.apply (T.pick stop start)) n =
      T.ordered T.apply (SplitTable.places start stop n) := by
  have hplaces : ∀ a b, SplitTable.places (T.apply a) (T.apply b) n =
      (SplitTable.places a b n).map T.apply := fun a b =>
    SplitTable.places_affine T.factor T.shift a b n
  unfold ordered
  rcases T.neg_or_pos with h | h
  · rw [pick_of_neg h, pick_of_neg h, pick_of_neg h, hplaces, SplitTable.places_swap,
      List.map_reverse]
  · rw [pick_of_pos h, pick_of_pos h, pick_of_pos h, hplaces]

variable (table : SplitTable ℝ)

/-- The cover of an interval changes with its ends and the desired deviation. -/
theorem cover_interval (start stop sigma : ℝ) :
    table.cover (T.apply (T.pick start stop)) (T.apply (T.pick stop start)) (|T.factor| * sigma) =
      (table.cover start stop sigma).map T.cover := by
  unfold SplitTable.cover
  simp only [apply_pick_sub, divide_mul_left T.abs_factor_pos.ne', places_interval]
  cases divide sigma (stop - start) with
  | error fault => rfl
  | ok ratio =>
    rw [ok_bind, ok_bind]
    cases table.values[table.count ratio - 1]? with
    | none => rfl
    | some value => simp [Except.map, cover, mul_assoc]

/-- The cover of a segment changes with it, where it has one. -/
theorem cover?_segment (g : Segment ℝ) (x sigma : ℝ) :
    (T.segment g).cover? x (|T.factor| * sigma) table =
      (g.cover? x sigma table).map (Option.map T.cover) := by
  unfold Segment.cover?
  rw [boundsAt_segment]
  cases g.boundsAt x with
  | error fault => rfl
  | ok b =>
    rw [Except.map, ok_bind, ok_bind]
    simp only [interval, apply_pick_lt_iff, cover_interval]
    split
    · cases table.cover b.lower b.upper sigma <;> rfl
    · rfl

/-- An abscissa lies in the same cell. -/
theorem locate?_region (r : Region ℝ) (x : ℝ) :
    (T.region r).locate? x = (r.locate? x).map T.cell :=
  List.find?_map

variable {mean std weight : ℝ} {table}

/-- The components of a mean change with its covers. -/
theorem share_map (covers : List (Cover ℝ)) :
    (Component.share mean std weight (covers.map T.cover)).Perm
      ((Component.share mean std weight covers).map T.component) := by
  have hmeans : ∀ c : Cover ℝ, (T.cover c).means.Perm (c.means.map T.apply) := fun c =>
    T.ordered_perm T.apply c.means
  have hlength : ((covers.map T.cover).flatMap (·.means)).length =
      (covers.flatMap (·.means)).length := by
    simp only [List.length_flatMap, List.map_map, Function.comp_def, (hmeans _).length_eq,
      List.length_map]
  unfold Component.share
  rw [hlength, List.flatMap_map, List.map_flatMap]
  refine List.Perm.flatMap_left _ fun c _ => ?_
  have hperm := (hmeans c).map fun ordinate : ℝ => (⟨mean, ordinate, std, (T.cover c).std,
    weight / ofNat (covers.flatMap (·.means)).length⟩ : Component ℝ)
  rw [List.map_map] at hperm ⊢
  exact hperm

/-- The covers in a cell are those of its segments, changed. -/
theorem exists_covers {c : Cell ℝ} (h : c.Proper) (hvalues : table.values ≠ []) (x sigma : ℝ) :
    ∃ cover cover' : Segment ℝ → Option (Cover ℝ),
      (∀ g ∈ c.segments, g.cover? x sigma table = .ok (cover g)) ∧
      (∀ g ∈ (T.cell c).segments, g.cover? x (|T.factor| * sigma) table = .ok (cover' g)) ∧
      ((T.cell c).segments.filterMap cover').Perm ((c.segments.filterMap cover).map T.cover) := by
  choose! cover hcover _ _ using fun g (hg : g ∈ c.segments) => h.exists_cover? hg hvalues x sigma
  have hmapped : ∀ g ∈ c.segments, (T.segment g).cover? x (|T.factor| * sigma) table =
      .ok ((cover g).map T.cover) := by
    intro g hg
    rw [cover?_segment, hcover g hg]
    rfl
  have hsegments : (T.cell c).segments.Perm (c.segments.map T.segment) :=
    T.ordered_perm T.segment c.segments
  have hexists : ∀ g ∈ (T.cell c).segments,
      ∃ k, g.cover? x (|T.factor| * sigma) table = .ok k := by
    intro g hg
    obtain ⟨old, hold, rfl⟩ := List.mem_map.mp (hsegments.mem_iff.mp hg)
    exact ⟨_, hmapped old hold⟩
  choose! cover' hcover' using hexists
  have heq : ∀ g ∈ c.segments, (cover' ∘ T.segment) g = (cover g).map T.cover := by
    intro g hg
    have hmem := hsegments.mem_iff.mpr (List.mem_map_of_mem hg)
    exact Except.ok.inj ((hcover' _ hmem).symm.trans (hmapped g hg))
  refine ⟨cover, cover', hcover, hcover', ?_⟩
  have hperm := hsegments.filterMap cover'
  rw [List.filterMap_map, List.filterMap_congr heq, ← List.map_filterMap] at hperm
  exact hperm

variable {samples : List (Sample ℝ)} {region : Region ℝ}

/-- A mean has the same components but for their ordinates, and leaves the same remarks. -/
theorem exists_componentsAt (h : region.Of samples) (hasc : Ascending samples)
    (hvalues : table.values ≠ []) (std sigma mean weight : ℝ) :
    ∃ notices part part',
      componentsAt region table std sigma mean weight = ⟨notices, .ok part⟩ ∧
      componentsAt (T.region region) table std (|T.factor| * sigma) mean weight =
        ⟨notices, .ok part'⟩ ∧
      part'.Perm (part.map T.component) ∧ Shares mean weight part := by
  cases hcell : region.locate? mean with
  | none =>
    refine ⟨[.outsideRegion mean], [], [], ?_, ?_, .nil, ⟨by simp, by simp⟩⟩
    · unfold componentsAt
      rw [hcell]
      rfl
    · unfold componentsAt
      rw [locate?_region, hcell]
      rfl
  | some cell =>
    have hcell' : (T.region region).locate? mean = some (T.cell cell) := by
      rw [locate?_region, hcell, Option.map_some]
    have hproper := h.proper hasc cell (List.mem_of_find?_eq_some hcell)
    obtain ⟨cover, cover', hcover, hcover', hcovers⟩ :=
      T.exists_covers hproper hvalues mean sigma
    have hshare : (Component.share mean std weight ((T.cell cell).segments.filterMap cover')).Perm
        ((Component.share mean std weight (cell.segments.filterMap cover)).map T.component) :=
      (Component.share_perm hcovers).trans (T.share_map _)
    refine ⟨_, _, _, componentsAt_eq hcell hcover, ?_, hshare, Component.shares_share⟩
    rw [componentsAt_eq hcell' hcover', hshare.isEmpty_eq, List.isEmpty_map]
    rfl

/-- Normalising does not depend on ordinates. -/
theorem exists_normalised {components components' : List (Component ℝ)}
    (hpos : ∀ c ∈ components, 0 < c.weight)
    (h : components'.Perm (components.map T.component)) :
    ∃ result result', normalised components = .ok result ∧ normalised components' = .ok result' ∧
      result'.Perm (result.map T.component) := by
  by_cases hnil : components = []
  · obtain rfl := hnil
    obtain rfl := h.eq_nil
    exact ⟨[], [], rfl, rfl, .nil⟩
  · have hsum : (components'.map (·.weight)).sum = (components.map (·.weight)).sum := by
      rw [(h.map (·.weight)).sum_eq, List.map_map]
      rfl
    have htotal : (components.map (·.weight)).sum ≠ 0 := by
      apply ne_of_gt
      apply List.sum_pos
      · intro w hw
        obtain ⟨c, hc, rfl⟩ := List.mem_map.mp hw
        exact hpos c hc
      · exact mt List.map_eq_nil_iff.mp hnil
    have hresult' := normalised_eq_ok (hsum.trans_ne htotal)
    have hscaled := h.map (Component.scaled (components.map (·.weight)).sum)
    rw [List.map_map] at hscaled
    rw [hsum] at hresult'
    refine ⟨_, _, normalised_eq_ok htotal, hresult', ?_⟩
    rw [List.map_map]
    exact hscaled

/-- A mixture has the same hypotheses but for their ordinates. -/
theorem exists_hypotheses (h : region.Of samples) (hasc : Ascending samples)
    (hvalues : table.values ≠ []) (mixture : Mixture ℝ) (sigma : ℝ) :
    ∃ notices components components',
      hypotheses region mixture sigma table = ⟨notices, .ok components⟩ ∧
      hypotheses (T.region region) mixture (|T.factor| * sigma) table =
        ⟨notices, .ok components'⟩ ∧
      components'.Perm (components.map T.component) := by
  choose notes part part' hpart hpart' hperm hshares using fun p : ℝ × ℝ =>
    T.exists_componentsAt h hasc hvalues mixture.sigma sigma p.1 p.2
  have hrun : (mixture.surviving.mapM fun (mean, weight) =>
      componentsAt region table mixture.sigma sigma mean weight) =
      ⟨mixture.surviving.flatMap notes, .ok (mixture.surviving.map part)⟩ :=
    Noted.mapM_eq_ok fun p _ => hpart p
  have hrun' : (mixture.surviving.mapM fun (mean, weight) =>
      componentsAt (T.region region) table mixture.sigma (|T.factor| * sigma) mean weight) =
      ⟨mixture.surviving.flatMap notes, .ok (mixture.surviving.map part')⟩ :=
    Noted.mapM_eq_ok fun p _ => hpart' p
  have hflat : (mixture.surviving.flatMap part').Perm
      ((mixture.surviving.flatMap part).map T.component) := by
    rw [List.map_flatMap]
    exact List.Perm.flatMap_left _ fun p _ => hperm p
  have hpos : ∀ c ∈ mixture.surviving.flatMap part, 0 < c.weight := by
    intro c hc
    obtain ⟨p, hp, hc⟩ := List.mem_flatMap.mp hc
    exact (hshares p).weight_pos (Mixture.weight_pos_of_mem_surviving hp) hc
  have hany : (mixture.surviving.map part').any (·.isEmpty) =
      (mixture.surviving.map part).any (·.isEmpty) := by
    simp only [List.any_map, Function.comp_def, (hperm _).isEmpty_eq, List.isEmpty_map]
  obtain ⟨result, result', hresult, hresult', hnormalised⟩ := T.exists_normalised hpos hflat
  unfold hypotheses
  rw [hrun, hrun', Noted.ok_bind, Noted.ok_bind, hany, ← List.flatMap_def, ← List.flatMap_def,
    hresult, hresult']
  by_cases hlost : (mixture.surviving.map part).any (·.isEmpty) = true
  · rw [if_pos hlost, if_pos hlost]
    exact ⟨_, _, _, rfl, rfl, hnormalised⟩
  · rw [if_neg hlost, if_neg hlost]
    exact ⟨_, _, _, rfl, rfl, hflat⟩

/-- A region and the one that takes its place after the change. -/
structure Rescales (region image : Region ℝ) : Prop where
  first_eq : image.first = region.first
  last_eq : image.last = region.last
  abscissas_eq : image.abscissas = region.abscissas
  kinds_eq : image.cells.map (·.kind) = region.cells.map (·.kind)
  density_eq : image.density = region.density
  area_eq : image.area = |T.factor| * region.area
  main_eq : image.main = region.main.map T.point
  upper_eq : image.upper = (T.pick region.upper region.lower).map T.point
  lower_eq : image.lower = (T.pick region.lower region.upper).map T.point
  /-- Every mixture has the same hypotheses but for their ordinates. -/
  hypotheses_perm : ∀ (table : SplitTable ℝ) mixture sigma, table.values ≠ [] →
    ∃ notices components components',
      hypotheses region mixture sigma table = ⟨notices, .ok components⟩ ∧
      hypotheses image mixture (|T.factor| * sigma) table = ⟨notices, .ok components'⟩ ∧
      components'.Perm (components.map T.component)

/-- The unit of ordinates does not matter, nor does their origin and their direction: there is a
region exactly if there was one, and it is the same but for its ordinates. -/
theorem rescales (hasc : Ascending samples) :
    ((∃ reason, Region.ofSamples (samples.map T.sample) = .error reason) ↔
      ∃ reason, Region.ofSamples samples = .error reason) ∧
    ∀ region, Region.ofSamples samples = .ok region →
      ∃ image, Region.ofSamples (samples.map T.sample) = .ok image ∧ T.Rescales region image := by
  rw [ofSamples_map]
  constructor
  · cases Region.ofSamples samples with
    | error reason => exact ⟨fun _ => ⟨_, rfl⟩, fun _ => ⟨_, rfl⟩⟩
    | ok region =>
      constructor
      · rintro ⟨_, h⟩
        cases h
      · rintro ⟨_, h⟩
        cases h
  · intro region hregion
    refine ⟨T.region region, by rw [hregion]; rfl, ?_⟩
    exact {
      first_eq := rfl
      last_eq := rfl
      abscissas_eq := List.map_map
      kinds_eq := List.map_map
      density_eq := rfl
      area_eq := rfl
      main_eq := T.main_region region
      upper_eq := T.upper_region region
      lower_eq := T.lower_region region
      hypotheses_perm := fun _ mixture sigma hvalues =>
        T.exists_hypotheses (Region.of_ofSamples hregion) hasc hvalues mixture sigma }

/-- Ordinates in twice the unit, counted downwards. -/
noncomputable def downwards : Rescaling := ⟨-0.5, 1, by norm_num⟩

/-- With and without a hole, a region can be turned over. -/
theorem rescales_changing : Ascending Region.changing ∧ ∃ region image,
    Region.ofSamples Region.changing = .ok region ∧
    Region.ofSamples (Region.changing.map downwards.sample) = .ok image ∧
    downwards.Rescales region image := by
  obtain ⟨region, hregion, _⟩ := Region.exists_region_changing
  obtain ⟨image, himage, hrescales⟩ :=
    (downwards.rescales Region.ascending_changing).2 region hregion
  exact ⟨Region.ascending_changing, region, image, hregion, himage, hrescales⟩

end Rescaling

end AdmissibleRegion
