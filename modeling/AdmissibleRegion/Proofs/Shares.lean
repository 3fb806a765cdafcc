import AdmissibleRegion.Hypothesis
import AdmissibleRegion.Proofs.Noted
import AdmissibleRegion.Proofs.Region.Density
import AdmissibleRegion.Proofs.SplitTable

/-!
# The components of one mean

A fitted mean has components exactly where some segment of its cell has a positive width. They
share its weight equally; a mean without components leaves one remark instead.
-/

namespace AdmissibleRegion

open Scalar

/-- Components of one mean that share its weight equally. -/
structure Shares (mean weight : ℝ) (part : List (Component ℝ)) : Prop where
  abscissaMean_eq : ∀ c ∈ part, c.abscissaMean = mean
  weight_eq : ∀ c ∈ part, c.weight = weight / part.length

namespace Shares

variable {mean weight : ℝ} {part : List (Component ℝ)}

/-- Equal shares make up the weight. -/
theorem sum_weight (h : Shares mean weight part) (hne : part ≠ []) :
    (part.map (·.weight)).sum = weight := by
  have hlen : (part.length : ℝ) ≠ 0 := by exact_mod_cast (List.length_pos_of_ne_nil hne).ne'
  rw [List.map_congr_left h.weight_eq, List.map_const', List.sum_replicate, nsmul_eq_mul,
    mul_div_cancel₀ weight hlen]

theorem weight_pos (h : Shares mean weight part) (hweight : 0 < weight) {c : Component ℝ}
    (hc : c ∈ part) : 0 < c.weight := by
  rw [h.weight_eq c hc]
  exact div_pos hweight (by exact_mod_cast List.length_pos_of_mem hc)

end Shares

namespace Component

variable {mean std weight : ℝ} {covers : List (Cover ℝ)}

/-- There are as many components as ordinates. -/
theorem length_share :
    (share mean std weight covers).length = (covers.flatMap (·.means)).length := by
  simp [share, List.length_flatMap]

theorem shares_share : Shares mean weight (share mean std weight covers) := by
  have hmem : ∀ c ∈ share mean std weight covers, c.abscissaMean = mean ∧
      c.weight = weight / ((covers.flatMap (·.means)).length : ℝ) := by
    intro c hc
    obtain ⟨cover, _, hc⟩ := List.mem_flatMap.mp hc
    obtain ⟨ordinate, _, rfl⟩ := List.mem_map.mp hc
    exact ⟨rfl, by rw [ofNat_eq_cast]⟩
  refine ⟨fun c hc => (hmem c hc).1, fun c hc => ?_⟩
  rw [(hmem c hc).2, length_share]

/-- Covers that are not empty give components. -/
theorem share_eq_nil_iff (h : ∀ cover ∈ covers, cover.means ≠ []) :
    share mean std weight covers = [] ↔ covers = [] := by
  cases covers with
  | nil => simp [share]
  | cons cover covers => simp [share, h cover List.mem_cons_self]

end Component

/-- A segment has a positive width at an abscissa. -/
def Segment.IsOpenAt (g : Segment ℝ) (x : ℝ) : Prop :=
  ∃ b, g.boundsAt x = .ok b ∧ b.lower < b.upper

/-- An abscissa lies in a cell with a segment of positive width there. -/
def Region.HasOrdinates (region : Region ℝ) (x : ℝ) : Prop :=
  ∃ cell, region.locate? x = some cell ∧ ∃ g ∈ cell.segments, g.IsOpenAt x

/-- The remark for a mean whose weight is lost. -/
noncomputable def Region.loss (region : Region ℝ) (mean weight : ℝ) : Notice ℝ :=
  match region.locate? mean with
  | none => .outsideRegion mean
  | some cell => .noOrdinates mean cell.kind weight

/-- A loss is a warning. -/
theorem Region.level_loss (region : Region ℝ) (mean weight : ℝ) :
    (region.loss mean weight).level = .warning := by
  unfold loss
  cases region.locate? mean <;> rfl

variable {table : SplitTable ℝ}

/-- In a cell, a segment is covered exactly where it has a positive width. -/
theorem Cell.Proper.exists_cover? {c : Cell ℝ} (h : c.Proper) {g : Segment ℝ}
    (hg : g ∈ c.segments) (hvalues : table.values ≠ []) (x sigma : ℝ) :
    ∃ cover, g.cover? x sigma table = .ok cover ∧ (∀ k ∈ cover, k.means ≠ []) ∧
      (cover = none ↔ ¬g.IsOpenAt x) := by
  have hbounds := h.boundsAt_eq hg x
  unfold Segment.cover? Segment.IsOpenAt
  rw [hbounds, ok_bind]
  by_cases hlt : (g.boundsOn x).lower < (g.boundsOn x).upper
  · obtain ⟨n, value, hn, _, hcover⟩ := table.cover_eq_ok hvalues hlt sigma
    rw [if_pos hlt, hcover, ok_bind, pure_eq_ok]
    refine ⟨_, rfl, ?_, ?_⟩
    · rintro k ⟨⟩
      refine List.ne_nil_of_length_pos ?_
      rwa [SplitTable.length_places]
    · simpa using hlt
  · refine ⟨none, ?_, ?_, ?_⟩
    · rw [if_neg hlt, pure_eq_ok]
    · rintro k ⟨⟩
    · simpa using hlt

/-- The components of a mean are those of the covers in its cell; without any there is a remark
instead. -/
theorem componentsAt_eq {region : Region ℝ} {cell : Cell ℝ} {std sigma mean weight : ℝ}
    (hcell : region.locate? mean = some cell) {cover : Segment ℝ → Option (Cover ℝ)}
    (hcover : ∀ g ∈ cell.segments, g.cover? mean sigma table = .ok (cover g)) :
    componentsAt region table std sigma mean weight =
      ⟨if (Component.share mean std weight (cell.segments.filterMap cover)).isEmpty then
          [.noOrdinates mean cell.kind weight] else [],
        .ok (Component.share mean std weight (cell.segments.filterMap cover))⟩ := by
  unfold componentsAt
  rw [hcell]
  dsimp only
  rw [Noted.mapM_lift_eq_ok hcover, Noted.ok_bind, List.filterMap_map, Function.id_comp]
  split
  · rfl
  · rfl

/-- A fitted mean has components that share its weight, or a remark. -/
theorem Region.Of.exists_componentsAt {samples : List (Sample ℝ)} {region : Region ℝ}
    (h : region.Of samples) (hasc : Ascending samples) (hvalues : table.values ≠ [])
    (std sigma mean weight : ℝ) :
    ∃ part, componentsAt region table std sigma mean weight =
        ⟨if part.isEmpty then [region.loss mean weight] else [], .ok part⟩ ∧
      Shares mean weight part ∧ (part = [] ↔ ¬region.HasOrdinates mean) := by
  unfold Region.loss Region.HasOrdinates
  cases hcell : region.locate? mean with
  | none =>
    refine ⟨[], ?_, ⟨by simp, by simp⟩, by simp⟩
    unfold componentsAt
    rw [hcell]
    rfl
  | some cell =>
    have hproper := h.proper hasc cell (List.mem_of_find?_eq_some hcell)
    choose! cover hcover hmeans hopen using fun g (hg : g ∈ cell.segments) =>
      hproper.exists_cover? hg hvalues mean sigma
    have hne : ∀ k ∈ cell.segments.filterMap cover, k.means ≠ [] := by
      intro k hk
      obtain ⟨g, hg, hk⟩ := List.mem_filterMap.mp hk
      exact hmeans g hg k hk
    refine ⟨_, componentsAt_eq hcell hcover, Component.shares_share, ?_⟩
    rw [Component.share_eq_nil_iff hne, List.filterMap_eq_nil_iff]
    simp only [Option.some.injEq, exists_eq_left', not_exists, not_and]
    exact forall₂_congr hopen

end AdmissibleRegion
