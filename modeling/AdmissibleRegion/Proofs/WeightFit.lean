import AdmissibleRegion.Proofs.Exponentials
import AdmissibleRegion.Proofs.LeastSquares
import AdmissibleRegion.Proofs.Region.FirstRun

/-!
# The weight fit of a region

The candidates of a fit are normal densities of one deviation. Up to factors they are
exponentials, and therefore independent on as many different centres, so that the weight problem
of a region is well posed. If the region is mirrored in its middle, so is the problem, and its
solution reads the same backwards. A fit is made of what its solver finds for this problem, and the
binary64 solver keeps to it.
-/

namespace AdmissibleRegion

open Scalar
open ProbabilityTheory (gaussianPDFReal gaussianPDFReal_def gaussianPDFReal_pos)

section Basis

variable {centres means : List ℝ} {sigma : ℝ}

/-- A normal density is an exponential of the abscissa, up to a factor of the abscissa and one of
the mean. -/
theorem gaussianPDFReal_eq_exp (hsigma : 0 < sigma) (m x : ℝ) :
    gaussianPDFReal m (varianceOf sigma) x =
      gaussianPDFReal 0 (varianceOf sigma) x *
        (Real.exp (-m ^ 2 / (2 * sigma ^ 2)) * Real.exp (m / sigma ^ 2 * x)) := by
  have hexponent : -(x - m) ^ 2 / (2 * sigma ^ 2) =
      -(x - 0) ^ 2 / (2 * sigma ^ 2) + (-m ^ 2 / (2 * sigma ^ 2) + m / sigma ^ 2 * x) := by
    field_simp
    ring
  simp only [gaussianPDFReal_def, coe_varianceOf]
  rw [hexponent, Real.exp_add, Real.exp_add, ← mul_assoc]

/-- A combination of normal densities with different means vanishes if it has as many zeros. -/
theorem eq_zero_of_sum_gaussianPDFReal {n : ℕ} {m coefficient : Fin n → ℝ} {zeros : Finset ℝ}
    (hsigma : 0 < sigma) (hmean : Function.Injective m) (hcard : n ≤ zeros.card)
    (hzero : ∀ x ∈ zeros, ∑ k, coefficient k * gaussianPDFReal (m k) (varianceOf sigma) x = 0) :
    ∀ k, coefficient k = 0 := by
  have hsq : 0 < sigma ^ 2 := pow_pos hsigma 2
  have hvariance : varianceOf sigma ≠ 0 := fun h => hsq.ne' (congrArg NNReal.toReal h)
  have hrate : Function.Injective fun k => m k / sigma ^ 2 := fun i j h =>
    hmean ((div_left_inj' hsq.ne').mp h)
  have hexp : ∀ x ∈ zeros, ∑ k, coefficient k * Real.exp (-m k ^ 2 / (2 * sigma ^ 2)) *
      Real.exp (m k / sigma ^ 2 * x) = 0 := by
    intro x hx
    have hfactor := hzero x hx
    simp only [gaussianPDFReal_eq_exp hsigma (m _),
      mul_left_comm (coefficient _) (gaussianPDFReal 0 _ _), ← mul_assoc (coefficient _)] at hfactor
    rw [← Finset.mul_sum] at hfactor
    exact (mul_eq_zero.mp hfactor).resolve_left (gaussianPDFReal_pos 0 _ x hvariance).ne'
  rw [← Finset.card_fin n] at hcard
  intro k
  have hk := eq_zero_of_sum_exp hrate.injOn hcard hexp k (Finset.mem_univ k)
  exact (mul_eq_zero.mp hk).resolve_right (Real.exp_ne_zero _)

end Basis

section Problem

variable {K : Type} [Scalar K] {region : Region K} {basis : List (List K)}

/-- A region has a density on every cell. -/
theorem Region.length_density {samples : List (Sample K)} (h : ofSamples samples = .ok region) :
    region.density.length = region.cells.length := by
  unfold ofSamples at h
  split at h
  · cases h
  · rcases ite_eq_iff.mp h with ⟨_, h⟩ | ⟨_, h⟩
    · obtain rfl := Except.ok.inj h
      exact List.length_map _
    · cases h

/-- Every candidate has a value at every cell. -/
theorem Region.shaped_problem {means : List K} {sigma : K}
    (hdensity : region.density.length = region.cells.length)
    (hbasis : gaussianBasis region.centres means sigma = .ok basis) (budget : ℤ)
    (tolerance : K) : (region.problem basis means.length budget tolerance).Shaped := by
  obtain ⟨variance, _, hbasis⟩ := exists_of_bind_eq_ok hbasis
  obtain ⟨height, _, hbasis⟩ := exists_of_bind_eq_ok hbasis
  obtain rfl := Except.ok.inj hbasis
  constructor
  · intro row hrow
    obtain ⟨c, _, rfl⟩ := List.mem_map.mp hrow
    exact List.length_map _
  · rw [problem, List.length_map, centres, List.length_map, hdensity]

/-- A fit asks its solver for the weights of one problem only. -/
theorem fitMixture_congr {table : SplitTable K} {sigma : K} {cover : Cover K}
    (hcover : table.cover region.start region.stop sigma = .ok cover)
    (hbasis : gaussianBasis region.centres cover.means cover.std = .ok basis)
    (solve : WeightSolver K) (budget : ℤ) (tolerance : K) (strict : Bool) :
    fitMixture solve region sigma table budget tolerance strict =
      fitMixture (fun _ => solve (region.problem basis cover.means.length budget tolerance))
        region sigma table budget tolerance strict := by
  unfold fitMixture
  rw [hcover]
  simp only [Noted.lift_eq, Noted.ok_bind, hbasis]
  rfl

end Problem

namespace Region

/-- A region whose centres and whose density are mirrored in the middle. -/
structure Mirrored (region : Region ℝ) : Prop where
  /-- From the last to the first, the centres are as far from the stop as they are from the
  start. -/
  reverse_centres :
    region.centres.reverse = region.centres.map fun c => region.start + region.stop - c
  reverse_density : region.density.reverse = region.density

variable {samples : List (Sample ℝ)} {region : Region ℝ} {means : List ℝ} {sigma : ℝ}
  {basis : List (List ℝ)}

/-- The centres of a region ascend with its abscissas. -/
theorem Of.pairwise_centres (h : region.Of samples)
    (hasc : region.abscissas.Pairwise (· < ·)) : region.centres.Pairwise (· < ·) := by
  have hcentre : ∀ s t : Sample ℝ, (Cell.between s t).centre = (s.abscissa + t.abscissa) / 2 := by
    intro s t
    rw [Cell.centre, Cell.left_between, Cell.right_between, two_literal]
    ring
  rw [abscissas, List.pairwise_map, List.pairwise_iff_getElem] at hasc
  rw [centres, h.cells_eq, Cell.ofSamples_eq_zipWith, List.pairwise_map,
    List.pairwise_iff_getElem]
  intro i j hi hj hij
  simp only [List.length_zipWith, List.length_tail, lt_inf_iff] at hi hj
  simp only [List.getElem_zipWith, List.getElem_tail, hcentre]
  have hleft := hasc i j hi.1 hj.1 hij
  have hright := hasc (i + 1) (j + 1) (by omega) (by omega) (by omega)
  linarith

/-- Candidates with different means are independent on as many different centres. -/
theorem linearIndependent_column (hcentres : region.centres.Nodup) (hmeans : means.Nodup)
    (hlength : means.length ≤ region.centres.length) (hsigma : 0 < sigma)
    (hbasis : gaussianBasis region.centres means sigma = .ok basis) (budget : ℤ)
    (tolerance : ℝ) :
    LinearIndependent ℝ (region.problem basis means.length budget tolerance).column := by
  rw [gaussianBasis_eq] at hbasis
  obtain rfl := Except.ok.inj hbasis
  rw [Fintype.linearIndependent_iff]
  intro coefficient hsum
  have hcard : means.length ≤ region.centres.toFinset.card := by
    rwa [List.toFinset_card_of_nodup hcentres]
  refine eq_zero_of_sum_gaussianPDFReal (m := means.get) hsigma
    (List.nodup_iff_injective_get.mp hmeans) hcard fun x hx => ?_
  obtain ⟨i, hi, rfl⟩ := List.mem_iff_getElem.mp (List.mem_toFinset.mp hx)
  have hcell := congrFun hsum ⟨i, by simpa [problem] using hi⟩
  rw [Finset.sum_apply] at hcell
  refine (Finset.sum_congr rfl fun k _ => ?_).trans hcell
  rw [Pi.smul_apply, smul_eq_mul]
  simp [WeightProblem.column, problem]

/-- If a region and the means of its candidates are mirrored, so is their problem. -/
theorem Mirrored.mirrored_problem (h : region.Mirrored)
    (hmeans : means.reverse = means.map fun m => region.start + region.stop - m)
    (hbasis : gaussianBasis region.centres means sigma = .ok basis) (budget : ℤ)
    (tolerance : ℝ) : (region.problem basis means.length budget tolerance).Mirrored := by
  rw [gaussianBasis_eq] at hbasis
  obtain rfl := Except.ok.inj hbasis
  have hmirror : ∀ c m, gaussianPDFReal m (varianceOf sigma) (region.start + region.stop - c) =
      gaussianPDFReal (region.start + region.stop - m) (varianceOf sigma) c := by
    intro c m
    have hsq : (region.start + region.stop - c - m) ^ 2 =
        (c - (region.start + region.stop - m)) ^ 2 := by ring
    simp only [gaussianPDFReal_def, hsq]
  refine ⟨?_, h.reverse_density⟩
  simp only [Region.problem, ← List.map_reverse, h.reverse_centres, hmeans, List.map_map,
    Function.comp_def, hmirror]

/-- The weight fit of a region is well posed: its candidates are independent, exactly one point
of the box is best, and the basis is the derivative of the residuals. That problem is the one a
fit asks its solver for, and a fit is made of the solution; if the region is mirrored, the best
point reads the same backwards. The binary64 solver keeps to the problem of its region. -/
theorem weightFit_wellPosed (hregion : ofSamples samples = .ok region)
    (hasc : region.abscissas.Pairwise (· < ·)) (hmeans : means.Nodup)
    (hcells : means.length ≤ region.cells.length) (hsigma : 0 < sigma) (budget : ℤ)
    (tolerance : ℝ) :
    (∃ basis, gaussianBasis region.centres means sigma = .ok basis ∧
      let problem := region.problem basis means.length budget tolerance
      problem.WellPosed ∧
      ∀ table desired cover, SplitTable.cover table region.start region.stop desired = .ok cover →
        cover.means = means →
        (cover.std = sigma → ∀ solve strict,
          fitMixture solve region desired table budget tolerance strict =
            fitMixture (fun _ => solve problem) region desired table budget tolerance strict ∧
          ∀ solution, solve problem = .ok solution →
            (strict = true → solution.converged = true) →
            ∃ fit, (fitMixture solve region desired table budget tolerance strict).outcome =
                .ok fit ∧
              fit.MadeOf cover solution ∧ Fitted solution.point fit.mixture.weights) ∧
        (region.Mirrored → ∀ point, problem.IsBest point → point.reverse = point)) ∧
    ∀ (samples : List (Sample Float)) (region : Region Float), ofSamples samples = .ok region →
      ∀ desired table budget tolerance strict fit,
        (fitMixture LeastSquares.binary64Weights region desired table budget tolerance
          strict).outcome = .ok fit →
        ∃ cover basis solution, table.cover region.start region.stop desired = .ok cover ∧
          gaussianBasis region.centres cover.means cover.std = .ok basis ∧
          let problem := region.problem basis cover.means.length budget tolerance
          LeastSquares.KeepsTo problem ∧ LeastSquares.binary64Weights problem = .ok solution ∧
            fit.MadeOf cover solution := by
  have hof := of_ofSamples hregion
  have hbasis := gaussianBasis_eq region.centres means sigma
  have hshaped := shaped_problem (length_density hregion) hbasis budget tolerance
  have hcentres : region.centres.Nodup := (hof.pairwise_centres hasc).imp ne_of_lt
  have hlength : means.length ≤ region.centres.length := by rwa [centres, List.length_map]
  have hposed := hshaped.wellPosed
    (linearIndependent_column hcentres hmeans hlength hsigma hbasis budget tolerance)
  refine ⟨⟨_, hbasis, hposed, fun table desired cover hcover hcovered => ⟨?_, ?_⟩⟩, ?_⟩
  · rintro rfl solve strict
    obtain rfl := hcovered
    refine ⟨fitMixture_congr hcover hbasis solve budget tolerance strict, ?_⟩
    intro solution hsolution hstrict
    obtain ⟨fit, hmade, hfitted⟩ := Fit.exists_madeOf cover solution
    exact ⟨fit, (outcome_fitMixture_iff hcover hbasis).mpr ⟨solution, hsolution, hstrict, hmade⟩,
      hmade, hfitted⟩
  · intro hmirrored point hbest
    obtain ⟨n, hplaces⟩ := SplitTable.exists_places_of_cover hcover
    have hreverse : means.reverse = means.map fun m => region.start + region.stop - m := by
      rw [← hcovered, hplaces]
      exact SplitTable.reverse_places region.start region.stop n
    exact hshaped.reverse_eq hposed
      (hmirrored.mirrored_problem hreverse hbasis budget tolerance) hbest
  · intro samples region hregion desired table budget tolerance strict fit hfit
    obtain ⟨cover, basis, solution, hcover, hbasis, hsolution, hmade⟩ :=
      exists_of_outcome_fitMixture hfit
    exact ⟨cover, basis, solution, hcover, hbasis,
      LeastSquares.keepsTo (shaped_problem (length_density hregion) hbasis budget tolerance),
      hsolution, hmade⟩

/-- Three samples at which a region can begin. -/
def even : List (Sample ℝ) := [openAt 0, openAt 1, openAt 2]

/-- A table with two sizes. -/
noncomputable def double : SplitTable ℝ := ⟨[0.5, 0.25], SplitTable.inMemory⟩

/-- A solver that hands back a given point. -/
noncomputable def handing (point : List ℝ) : WeightSolver ℝ := fun problem =>
  .ok ⟨point, problem.cost point, 1, true⟩

/-- Neither bound of such samples moves. -/
theorem between_openAt (j k : ℕ) : Cell.between (openAt j) (openAt k) =
    ⟨j, k, .main, [⟨⟨j, -1, 1⟩, ⟨k, -1, 1⟩⟩]⟩ := by
  have harcs : ∀ k, (openAt k).arcs = ⟨none, none, some ⟨k, -1, 1⟩⟩ := by
    intro k
    norm_num [Sample.arcs, openAt, ArcPoint.between?]
  unfold Cell.between
  simp only [harcs]
  rfl

/-- Even samples have a region, and it is mirrored in its middle. -/
theorem exists_region_even : ∃ region, ofSamples even = .ok region ∧
    region.abscissas = [0, 1, 2] ∧ region.cells.length = 2 ∧ region.Mirrored := by
  have hw : window? even = some (0, 2) := by
    simp [window?, even, openAt, List.findIdx?_cons, Sample.isComplete, Sample.canStart]
  have hcells : Cell.ofSamples even =
      [Cell.between (openAt 0) (openAt 1), Cell.between (openAt 1) (openAt 2)] := rfl
  have harea : 0 < areaOf (Cell.ofSamples even) := by
    rw [hcells, between_openAt, between_openAt]
    norm_num [areaOf, Segment.area, Segment.meanWidth, ArcPoint.width]
  obtain ⟨region, hregion, hsamples⟩ := exists_of_areaOf_pos hw harea
  have hof := of_ofSamples hregion
  have habscissas : region.abscissas = [0, 1, 2] := by
    rw [abscissas, hsamples]
    simp [windowOf, even, openAt]
  have hpair := hof.cells_eq
  rw [hsamples] at hpair
  change region.cells = Cell.ofSamples even at hpair
  rw [hcells, between_openAt, between_openAt] at hpair
  refine ⟨region, hregion, habscissas, by rw [hpair]; rfl, ?_, ?_⟩
  · rw [centres, start, stop, habscissas, hpair]
    norm_num [Cell.centre]
  · rw [hof.density_eq, hpair]
    simp [Cell.meanWidth, Segment.meanWidth, ArcPoint.width]

/-- On even samples, a table with two sizes gives two candidates. The best point reads the same
backwards, and a solver that finds it makes a fit with weights that are shares of one whole. -/
theorem weightFit_wellPosed_even : ∃ region cover basis point fit,
    ofSamples even = .ok region ∧ region.abscissas.Pairwise (· < ·) ∧ region.Mirrored ∧
      double.cover region.start region.stop 0.25 = .ok cover ∧ cover.means.Nodup ∧
      cover.means.length ≤ region.cells.length ∧ 0 < cover.std ∧
      gaussianBasis region.centres cover.means cover.std = .ok basis ∧
      (region.problem basis cover.means.length 100 0).IsBest point ∧
      point.length = 2 ∧ point.reverse = point ∧
      (fitMixture (handing point) region 0.25 double 100 0 true).outcome = .ok fit ∧
      fit.mixture.means = cover.means ∧ Fitted point fit.mixture.weights := by
  obtain ⟨region, hregion, habscissas, hcells, hmirrored⟩ := exists_region_even
  have hstart : region.start = 0 := by simp [start, habscissas]
  have hstop : region.stop = 2 := by simp [stop, habscissas]
  have hcover : double.cover region.start region.stop 0.25 =
      .ok ⟨SplitTable.places 0 2 2, 2 * 0.25⟩ := by
    have hcount : double.count ((0.25 : ℝ) / 2) = 2 := by
      norm_num [SplitTable.count, double, SplitTable.size, List.findIdx?_cons]
    rw [hstart, hstop, SplitTable.cover, sub_zero, divide_eq_ok _ two_ne_zero, ok_bind]
    simp only [hcount]
    rfl
  have hasc : region.abscissas.Pairwise (· < ·) := by
    rw [habscissas]
    norm_num
  have hnodup : (SplitTable.places (0 : ℝ) 2 2).Nodup :=
    (SplitTable.pairwise_places two_pos 2).imp ne_of_lt
  have hlength : (SplitTable.places (0 : ℝ) 2 2).length ≤ region.cells.length := by
    rw [SplitTable.length_places, hcells]
  have hstd : (0 : ℝ) < 2 * 0.25 := by norm_num
  obtain ⟨⟨basis, hbasis, hposed, hcovers⟩, _⟩ :=
    weightFit_wellPosed hregion hasc hnodup hlength hstd 100 0
  obtain ⟨hfits, hmirror⟩ := hcovers double 0.25 _ hcover rfl
  obtain ⟨point, hbest, _⟩ := hposed.existsUnique
  obtain ⟨fit, hfit, hmade, hfitted⟩ :=
    (hfits rfl (handing point) true).2 _ rfl fun _ => rfl
  refine ⟨region, _, basis, point, fit, hregion, hasc, hmirrored, hcover, hnodup, hlength, hstd,
    hbasis, hbest, ?_, hmirror hmirrored point hbest, hfit, hmade.means_eq, hfitted⟩
  rw [hbest.1.1]
  exact SplitTable.length_places 0 2 2

end Region

end AdmissibleRegion
