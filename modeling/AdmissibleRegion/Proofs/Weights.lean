import AdmissibleRegion.Mixture
import AdmissibleRegion.Proofs.Noted
import AdmissibleRegion.Proofs.Region.Window
import AdmissibleRegion.Proofs.SplitTable

/-!
# Fitted weights

Whatever point a solver hands back, the weights made of it are shares of one whole: clamping
keeps the sign of a coordinate, and no share exceeds one, so that nothing is cut afterwards.
-/

namespace AdmissibleRegion

open Scalar
open ProbabilityTheory (gaussianPDFReal gaussianPDFReal_def)

/-- The weights of a point: positive where its coordinates are, and with sum one unless no
coordinate is positive. -/
structure Fitted (point weights : List ℝ) : Prop where
  /-- A weight lies between zero and one and is positive with its coordinate. -/
  share : List.Forall₂ (fun x w => 0 ≤ w ∧ w ≤ 1 ∧ (0 < w ↔ 0 < x)) point weights
  /-- The weights of a point with a positive coordinate are a whole. -/
  sum_eq_one : (∃ x ∈ point, 0 < x) → weights.sum = 1
  /-- A point without a positive coordinate has no weight. -/
  eq_zero : (∀ x ∈ point, x ≤ 0) → ∀ w ∈ weights, w = 0

/-- No weight is negative. -/
theorem Fitted.nonneg {point weights : List ℝ} (h : Fitted point weights) :
    ∀ w ∈ weights, 0 ≤ w :=
  ((List.forall₂_and_left weights point).mp h.share.flip).1

theorem clamp_eq (x : ℝ) : clamp x = min (max x 0) 1 := by
  rw [clamp, larger_eq_max, smaller_eq_min, zero_literal, one_literal]

theorem clamp_nonneg (x : ℝ) : 0 ≤ clamp x := by
  rw [clamp_eq]
  exact le_min (le_max_right x 0) zero_le_one

theorem clamp_le_one (x : ℝ) : clamp x ≤ 1 := by
  rw [clamp_eq]
  exact min_le_right _ 1

/-- Clamping keeps what is positive. -/
theorem clamp_pos_iff {x : ℝ} : 0 < clamp x ↔ 0 < x := by
  rw [clamp_eq, lt_min_iff, lt_max_iff, or_iff_left (lt_irrefl 0), and_iff_left zero_lt_one]

/-- What lies between zero and one is kept. -/
theorem withoutExcess_eq {x : ℝ} (h0 : 0 ≤ x) (h1 : x ≤ 1) : withoutExcess x = x := by
  have hx : ¬(x < 0.0 ∨ 1.0 < x) := by
    rw [zero_literal, one_literal, not_or, not_lt, not_lt]
    exact ⟨h0, h1⟩
  rw [withoutExcess, if_neg hx]

variable {point : List ℝ}

/-- The clamped coordinates of a point are not negative. -/
theorem nonneg_of_mem_map_clamp {w : ℝ} (h : w ∈ point.map clamp) : 0 ≤ w := by
  obtain ⟨x, _, rfl⟩ := List.mem_map.mp h
  exact clamp_nonneg x

/-- No clamped coordinate exceeds the sum of all. -/
theorem clamp_le_sum {x : ℝ} (h : x ∈ point) : clamp x ≤ (point.map clamp).sum :=
  List.single_le_sum (fun _ => nonneg_of_mem_map_clamp) _ (List.mem_map_of_mem h)

/-- The clamped coordinates have a positive sum as soon as one coordinate is positive. -/
theorem sum_clamp_pos_iff : 0 < (point.map clamp).sum ↔ ∃ x ∈ point, 0 < x := by
  constructor
  · intro h
    by_contra hnone
    have hzero : ∀ w ∈ point.map clamp, w = 0 := by
      intro w hw
      obtain ⟨x, hx, rfl⟩ := List.mem_map.mp hw
      have hle : ¬0 < clamp x := fun hpos => hnone ⟨x, hx, clamp_pos_iff.mp hpos⟩
      exact le_antisymm (not_lt.mp hle) (clamp_nonneg x)
    exact h.ne' (List.sum_eq_zero hzero)
  · rintro ⟨x, hx, hpos⟩
    exact (clamp_pos_iff.mpr hpos).trans_le (clamp_le_sum hx)

/-- The shares of clamped coordinates in a positive sum make a whole. -/
theorem fitted_of_sum_pos (h : 0 < (point.map clamp).sum) :
    Fitted point (point.map fun x => clamp x / (point.map clamp).sum) := by
  obtain ⟨y, hy, hypos⟩ := sum_clamp_pos_iff.mp h
  refine ⟨?_, fun _ => ?_, fun hall => absurd (hall y hy) hypos.not_ge⟩
  · rw [List.forall₂_map_right_iff, List.forall₂_same]
    intro x hx
    refine ⟨div_nonneg (clamp_nonneg x) h.le, (div_le_one h).mpr (clamp_le_sum hx), ?_⟩
    rw [div_pos_iff_of_pos_right h, clamp_pos_iff]
  · simp only [div_eq_mul_inv]
    rw [List.sum_map_mul_right, mul_inv_cancel₀ h.ne']

/-- Without a positive coordinate, clamping leaves nothing. -/
theorem fitted_of_forall_le (h : ∀ x ∈ point, x ≤ 0) : Fitted point (point.map clamp) := by
  have hzero : ∀ x ∈ point, clamp x = 0 := fun x hx =>
    le_antisymm (not_lt.mp fun hpos => (h x hx).not_gt (clamp_pos_iff.mp hpos)) (clamp_nonneg x)
  refine ⟨?_, fun ⟨x, hx, hpos⟩ => absurd (h x hx) hpos.not_ge, fun _ w hw => ?_⟩
  · rw [List.forall₂_map_right_iff, List.forall₂_same]
    exact fun x _ => ⟨clamp_nonneg x, clamp_le_one x, clamp_pos_iff⟩
  · obtain ⟨x, hx, rfl⟩ := List.mem_map.mp hw
    exact hzero x hx

/-- Normalising never fails, and cuts no share afterwards. -/
theorem exists_normalisedWeights (point : List ℝ) :
    ∃ notices weights, normalisedWeights point = ⟨notices, .ok weights⟩ ∧ Fitted point weights := by
  unfold normalisedWeights
  simp only [sum_eq, zero_literal, List.map_map, Function.comp_def]
  by_cases hpos : 0 < (point.map clamp).sum
  · rw [if_pos hpos]
    refine ⟨[], _, rfl, ?_⟩
    rw [List.map_congr_left fun x hx => withoutExcess_eq (div_nonneg (clamp_nonneg x) hpos.le)
      ((div_le_one hpos).mpr (clamp_le_sum hx))]
    exact fitted_of_sum_pos hpos
  · rw [if_neg hpos]
    refine ⟨[.noWeights point.length], _, rfl, ?_⟩
    rw [List.map_congr_left fun x _ => withoutExcess_eq (clamp_nonneg x) (clamp_le_one x)]
    rw [sum_clamp_pos_iff] at hpos
    push Not at hpos
    exact fitted_of_forall_le hpos

/-- The square of a deviation. -/
noncomputable def varianceOf (sigma : ℝ) : NNReal := ⟨sigma ^ 2, sq_nonneg sigma⟩

theorem coe_varianceOf (sigma : ℝ) : (varianceOf sigma : ℝ) = sigma ^ 2 := rfl

/-- The basis consists of the values of normal densities at all centres. -/
theorem gaussianBasis_eq (centres means : List ℝ) (sigma : ℝ) :
    gaussianBasis centres means sigma =
      .ok (centres.map fun c => means.map fun m => gaussianPDFReal m (varianceOf sigma) c) := by
  have hpi : (0 : ℝ) ≤ 2.0 * Scalar.pi * sigma ^ 2 := by
    rw [two_literal]
    exact mul_nonneg (mul_nonneg zero_le_two Real.pi_pos.le) (sq_nonneg sigma)
  have hvalue : ∀ c m : ℝ, Scalar.exp (-((c - m) * (c - m)) / (2.0 * sigma ^ 2)) /
      √(2.0 * Scalar.pi * sigma ^ 2) = gaussianPDFReal m (varianceOf sigma) c := by
    intro c m
    rw [gaussianPDFReal_def, coe_varianceOf, two_literal, ← sq, div_eq_inv_mul]
    rfl
  unfold gaussianBasis
  rw [square_eq, ok_bind, squareRoot_eq_ok hpi, ok_bind, pure_eq_ok]
  simp only [hvalue]

/-- The means of a fit ascend, and its weights are those of the point that was found. -/
structure Fit.Of (point : List ℝ) (fit : Fit ℝ) : Prop where
  ascending : fit.mixture.means.Pairwise (· < ·)
  /-- Every mean has a weight. -/
  length_eq : fit.mixture.means.length = fit.mixture.weights.length
  fitted : Fitted point fit.mixture.weights

theorem Mixture.weight_pos_of_mem_surviving {m : Mixture ℝ} {p : ℝ × ℝ}
    (h : p ∈ m.surviving) : 0 < p.2 := by
  have hpos := (List.mem_filter.mp h).2
  rwa [decide_eq_true_eq, zero_literal] at hpos

/-- Every mean of a mixture is accounted for: it survives with its weight exactly if that is
positive. -/
structure Mixture.Accounted (m : Mixture ℝ) : Prop where
  /-- Every mean has a weight. -/
  length_eq : m.means.length = m.weights.length
  /-- What survives are the means with a positive weight, each with its own. -/
  mem_surviving_iff : ∀ p, p ∈ m.surviving ↔
    0 < p.2 ∧ ∃ k : ℕ, m.means[k]? = some p.1 ∧ m.weights[k]? = some p.2
  /-- No weight is lost with the other means. -/
  sum_surviving : (m.surviving.map Prod.snd).sum = m.weights.sum

theorem Mixture.mem_surviving_iff {m : Mixture ℝ} {p : ℝ × ℝ} : p ∈ m.surviving ↔
    0 < p.2 ∧ ∃ k : ℕ, m.means[k]? = some p.1 ∧ m.weights[k]? = some p.2 := by
  have hzip : p ∈ m.means.zip m.weights ↔
      ∃ k : ℕ, m.means[k]? = some p.1 ∧ m.weights[k]? = some p.2 := by
    rw [List.mem_iff_getElem?]
    exact exists_congr fun k => List.getElem?_zip_eq_some
  rw [surviving, List.mem_filter, hzip, decide_eq_true_eq, zero_literal, and_comm]

/-- The mean of a positive coordinate survives. -/
theorem Mixture.Accounted.exists_mem_surviving {m : Mixture ℝ} (h : m.Accounted)
    (hfitted : Fitted point m.weights) {k : ℕ} {x : ℝ} (hk : point[k]? = some x) (hx : 0 < x) :
    ∃ p ∈ m.surviving, m.means[k]? = some p.1 := by
  obtain ⟨hpoint, rfl⟩ := List.getElem?_eq_some_iff.mp hk
  have hweights : k < m.weights.length := hfitted.share.length_eq ▸ hpoint
  have hmeans : k < m.means.length := h.length_eq ▸ hweights
  have hpos := ((List.forall₂_iff_get.mp hfitted.share).2 k hpoint hweights).2.2.mpr hx
  refine ⟨(m.means[k], m.weights[k]), (h.mem_surviving_iff _).mpr ?_,
    List.getElem?_eq_getElem hmeans⟩
  exact ⟨hpos, k, List.getElem?_eq_getElem hmeans, List.getElem?_eq_getElem hweights⟩

/-- Dropping the weights that are not positive keeps their sum if none is negative. -/
theorem sum_filter_pos {pairs : List (ℝ × ℝ)} (h : ∀ p ∈ pairs, 0 ≤ p.2) :
    ((pairs.filter fun p => 0.0 < p.2).map Prod.snd).sum = (pairs.map Prod.snd).sum := by
  induction pairs with
  | nil => rfl
  | cons p pairs ih =>
    have htail := ih fun q hq => h q (List.mem_cons_of_mem _ hq)
    by_cases hpos : (0.0 : ℝ) < p.2
    · rw [List.filter_cons_of_pos (by simpa using hpos), List.map_cons, List.sum_cons, htail,
        List.map_cons, List.sum_cons]
    · have hzero : p.2 = 0 := by
        rw [zero_literal, not_lt] at hpos
        exact le_antisymm hpos (h p List.mem_cons_self)
      rw [List.filter_cons_of_neg (by simpa using hpos), htail, List.map_cons, List.sum_cons,
        hzero, zero_add]

theorem Mixture.sum_surviving {m : Mixture ℝ} (hlength : m.means.length = m.weights.length)
    (hnonneg : ∀ w ∈ m.weights, 0 ≤ w) : (m.surviving.map Prod.snd).sum = m.weights.sum := by
  have hzip : (m.means.zip m.weights).map Prod.snd = m.weights := List.map_snd_zip hlength.ge
  rw [← hzip, surviving, sum_filter_pos]
  intro p hp
  exact hnonneg p.2 (List.of_mem_zip hp).2

namespace Fit.Of

variable {fit : Fit ℝ}

/-- The surviving means ascend. -/
theorem pairwise_surviving (h : fit.Of point) :
    (fit.mixture.surviving.map Prod.fst).Pairwise (· < ·) := by
  have hsub : (fit.mixture.surviving.map Prod.fst).Sublist fit.mixture.means := by
    have hzip := List.map_fst_zip h.length_eq.le
    rw [← hzip]
    exact List.filter_sublist.map Prod.fst
  exact h.ascending.sublist hsub

theorem accounted (h : fit.Of point) : fit.mixture.Accounted :=
  ⟨h.length_eq, fun _ => Mixture.mem_surviving_iff,
    Mixture.sum_surviving h.length_eq h.fitted.nonneg⟩

/-- The surviving weights make a whole unless there is none. -/
theorem sum_surviving_eq_one (h : fit.Of point) (hne : fit.mixture.surviving ≠ []) :
    (fit.mixture.surviving.map Prod.snd).sum = 1 := by
  obtain ⟨p, hp⟩ := List.exists_mem_of_ne_nil _ hne
  have hpos := Mixture.weight_pos_of_mem_surviving hp
  have hw := (List.of_mem_zip (List.mem_of_mem_filter hp)).2
  rw [Mixture.sum_surviving h.length_eq h.fitted.nonneg]
  apply h.fitted.sum_eq_one
  by_contra hnone
  push Not at hnone
  exact hpos.ne' (h.fitted.eq_zero hnone p.2 hw)

end Fit.Of

/-- The weight problem of a region, for the values of some candidates at its centres. -/
def Region.problem {K : Type} (region : Region K) (basis : List (List K)) (candidates : ℕ)
    (budget : ℤ) (tolerance : K) : WeightProblem K :=
  { basis, target := region.density, candidates, budget, tolerance }

section Outcome

variable {K : Type} [Scalar K]

/-- A fit has the candidates of a cover, and the weights of a solution. -/
structure Fit.MadeOf (cover : Cover K) (solution : WeightSolution K) (fit : Fit K) : Prop where
  means_eq : fit.mixture.means = cover.means
  sigma_eq : fit.mixture.sigma = cover.std
  outcome_weights : (normalisedWeights solution.point).outcome = .ok fit.mixture.weights
  converged_eq : fit.converged = solution.converged
  evaluations_eq : fit.evaluations = solution.evaluations
  cost_eq : fit.cost = solution.cost

variable {solve : WeightSolver K} {region : Region K} {sigma : K} {table : SplitTable K}
  {budget : ℤ} {tolerance : K} {strict : Bool} {fit : Fit K}

/-- The weights that a fit ends with are those of its solution. -/
theorem outcome_weights_iff {cover : Cover K} {solution : WeightSolution K} :
    Noted.outcome (do
      let weights ← normalisedWeights solution.point
      return {
        mixture := ⟨cover.means, cover.std, weights⟩
        converged := solution.converged
        evaluations := solution.evaluations
        cost := solution.cost }) = .ok fit ↔ fit.MadeOf cover solution := by
  constructor
  · intro h
    obtain ⟨weights, hweights, h⟩ := Noted.exists_of_bind_eq_ok h
    obtain rfl := Except.ok.inj h
    exact ⟨rfl, rfl, hweights, rfl, rfl, rfl⟩
  · rintro ⟨hmeans, hsigma, hweights, hconverged, hevaluations, hcost⟩
    rw [Noted.outcome_bind, hweights, ok_bind, ← hmeans, ← hsigma, ← hconverged, ← hevaluations,
      ← hcost]
    rfl

/-- The result of a fit is made of what its solver finds for the problem of the region; if
`strict`, the solver must have converged. -/
theorem outcome_fitMixture_iff {cover : Cover K} {basis : List (List K)}
    (hcover : table.cover region.start region.stop sigma = .ok cover)
    (hbasis : gaussianBasis region.centres cover.means cover.std = .ok basis) :
    (fitMixture solve region sigma table budget tolerance strict).outcome = .ok fit ↔
      ∃ solution, solve (region.problem basis cover.means.length budget tolerance) = .ok solution ∧
        (strict = true → solution.converged = true) ∧ fit.MadeOf cover solution := by
  unfold fitMixture
  rw [hcover]
  simp only [Noted.lift_eq, Noted.ok_bind, hbasis]
  change Noted.outcome (⟨[], solve (region.problem basis cover.means.length budget tolerance)⟩ >>=
    _) = _ ↔ _
  cases solve (region.problem basis cover.means.length budget tolerance) with
  | error fault =>
    constructor
    · rintro ⟨⟩
    · rintro ⟨_, ⟨⟩, _⟩
  | ok solution =>
    simp only [Except.ok.injEq, exists_eq_left', ← outcome_weights_iff]
    cases hconverged : solution.converged with
    | true => simp [Noted.ok_bind, hconverged]
    | false =>
      cases strict with
      | true =>
        -- a strict fit that did not converge has failed
        simp only [Noted.ok_bind, hconverged]
        exact iff_of_false nofun fun h => absurd (h.1 trivial) Bool.false_ne_true
      | false => simp [Noted.ok_bind, hconverged, Noted.note]

/-- A fit that succeeds has covered the region and solved its problem. -/
theorem exists_of_outcome_fitMixture
    (h : (fitMixture solve region sigma table budget tolerance strict).outcome = .ok fit) :
    ∃ cover basis solution, table.cover region.start region.stop sigma = .ok cover ∧
      gaussianBasis region.centres cover.means cover.std = .ok basis ∧
      solve (region.problem basis cover.means.length budget tolerance) = .ok solution ∧
      fit.MadeOf cover solution := by
  obtain ⟨cover, hcover, hrest⟩ := Noted.exists_of_bind_eq_ok h
  obtain ⟨basis, hbasis, _⟩ := Noted.exists_of_bind_eq_ok hrest
  obtain ⟨solution, hsolution, _, hfit⟩ := (outcome_fitMixture_iff hcover hbasis).mp h
  exact ⟨cover, basis, solution, hcover, hbasis, hsolution, hfit⟩

end Outcome

/-- Every solution makes a fit, whose weights are those of its point. -/
theorem Fit.exists_madeOf (cover : Cover ℝ) (solution : WeightSolution ℝ) :
    ∃ fit : Fit ℝ, fit.MadeOf cover solution ∧ Fitted solution.point fit.mixture.weights := by
  obtain ⟨notices, weights, hweights, hfitted⟩ := exists_normalisedWeights solution.point
  exact ⟨⟨⟨_, _, weights⟩, _, _, _⟩, ⟨rfl, rfl, congrArg Noted.outcome hweights, rfl, rfl, rfl⟩,
    hfitted⟩

/-- The mixture of a region is fitted by one problem, whatever solves it, and made of the
solution. -/
theorem Region.Of.exists_fit {samples : List (Sample ℝ)} {region : Region ℝ}
    {table : SplitTable ℝ} (h : region.Of samples) (hasc : Ascending samples)
    (hvalues : table.values ≠ []) (sigma : ℝ) (budget : ℤ) (tolerance : ℝ) (strict : Bool) :
    ∃ problem : WeightProblem ℝ, 0 < problem.candidates ∧ ∀ solve solution,
      solve problem = .ok solution → solution.point.length = problem.candidates →
      (strict = true → solution.converged = true) →
      ∃ cover fit, table.cover region.start region.stop sigma = .ok cover ∧
        (fitMixture solve region sigma table budget tolerance strict).outcome = .ok fit ∧
        fit.MadeOf cover solution ∧ fit.Of solution.point := by
  obtain ⟨n, value, hn, _, hcover⟩ := table.cover_eq_ok hvalues (h.start_lt_stop hasc) sigma
  obtain ⟨basis, hbasis⟩ : ∃ basis, gaussianBasis region.centres
      (SplitTable.places region.start region.stop n) ((region.stop - region.start) * value) =
        .ok basis := ⟨_, gaussianBasis_eq _ _ _⟩
  have hpos : 0 < (SplitTable.places region.start region.stop n).length := by
    rwa [SplitTable.length_places]
  refine ⟨region.problem basis (SplitTable.places region.start region.stop n).length budget
    tolerance, hpos, fun solve solution hsolve hlength hstrict => ?_⟩
  obtain ⟨fit, hmade, hfitted⟩ := Fit.exists_madeOf _ solution
  refine ⟨_, fit, hcover, (outcome_fitMixture_iff hcover hbasis).mpr
    ⟨solution, hsolve, hstrict, hmade⟩, hmade, ?_, ?_, hfitted⟩
  · rw [hmade.means_eq]
    exact SplitTable.pairwise_places (h.start_lt_stop hasc) n
  · rw [hmade.means_eq]
    exact hlength.symm.trans hfitted.share.length_eq

end AdmissibleRegion
