import AdmissibleRegion.Construction
import AdmissibleRegion.LeastSquares.Reflective
import AdmissibleRegion.Polynomial.Roots
import AdmissibleRegion.Proofs.Binary64.Rounding
import AdmissibleRegion.Proofs.Optical.Operations
import AdmissibleRegion.Proofs.Ranging.Operations
import AdmissibleRegion.Proofs.SplitTable.Reader

/-!
# The operations of a construction

A construction on binary64 numbers performs the operations of its grid, a quotient by the width of
the region, the square of a deviation, quotients by the widths of the segments at the fitted means
and, where a weight was dropped, quotients by the sum of the weights. The rules for the arguments
keep all other divisors from zero.

Both solvers fail only by refusing a problem: the roots of a polynomial need finite quotients, and
a weight fit needs evaluations, a tolerance that can be met, and finite residuals and derivatives.
-/

namespace AdmissibleRegion

/-! ## What the solvers refuse -/

theorem Polynomial.performs_binary64Roots (coefficients : List Float) :
    Performs [] (binary64Roots coefficients) := by
  have hproper : ∀ proper, Performs [] (properRoots proper) := by
    intro proper
    unfold properRoots
    split
    · exact .of_ok _
    · exact .of_ok _
    · exact .ite (fun _ => .of_ok _) fun _ => .of_refusal rfl
  exact (hproper _).map

namespace LeastSquares

theorem performs_strideToBall (x s : FloatArray) (radius : Float) :
    Performs [] (strideToBall x s radius) :=
  .ite (fun _ => .of_refusal rfl) fun _ =>
    .ite (fun _ => .of_refusal rfl) fun _ => .of_ok _

theorem performs_select (m : QuadraticModel) (p : FloatArray) (radius theta : Float) :
    Performs [] (m.select p radius theta) := by
  unfold QuadraticModel.select
  refine .ite (fun _ => .of_ok _) fun _ => ?_
  refine .nil_bind (performs_strideToBall _ _ _) fun toBall _ => ?_
  exact .ite (fun _ => .of_ok _) fun _ => .ite (fun _ => .of_ok _) fun _ => .of_ok _

/-- Trying steps fails only as choosing one does. -/
theorem performs_attempt (problem : Problem) (model : QuadraticModel) (spectrum : Spectrum)
    (budget : ℕ) (theta tolerance : Float) (fuel : ℕ) (now : Progress) :
    Performs [] (attempt problem model spectrum budget theta tolerance fuel now) := by
  induction fuel generalizing now with
  | zero => exact .of_ok _
  | succ fuel ih =>
    unfold attempt
    refine .ite (fun _ => .of_ok _) fun _ => ?_
    refine .nil_bind (performs_select _ _ _ _) fun step _ => ?_
    refine .ite (fun _ => ih _) fun _ => ?_
    exact .ite (fun _ => .of_ok _) fun _ => .ite (fun _ => .of_ok _) fun _ => ih _

theorem performs_improve (problem : Problem) (budget : ℕ) (tolerance : Float) (fuel : ℕ)
    (now : Progress) : Performs [] (improve problem budget tolerance fuel now) := by
  induction fuel generalizing now with
  | zero => exact .of_ok _
  | succ fuel ih =>
    unfold improve
    refine .ite (fun _ => .of_ok _) fun _ => .ite (fun _ => .of_ok _) fun _ => ?_
    refine .ite (fun _ => ?_) fun _ => ?_
    · exact .nil_bind (performs_attempt _ _ _ _ _ _ _ _) fun next _ => ih next
    · -- the derivatives are not all finite
      exact .nil_bind (.of_refusal rfl) fun _ h => nomatch h

theorem performs_binary64Weights (problem : WeightProblem Float) :
    Performs [] (binary64Weights problem) := by
  unfold binary64Weights
  refine .ite (fun _ => .of_refusal rfl) fun _ => .ite (fun _ => .of_refusal rfl) fun _ => ?_
  refine .ite (fun _ => .of_refusal rfl) fun _ => ?_
  exact .nil_bind (performs_improve _ _ _ _ _) fun _ _ => .of_ok _

end LeastSquares

/-! ## Constructions -/

open Scalar

section Fit

variable {K : Type} [Scalar K] {table : SplitTable K}

/-- A table that is not empty has a size for every number of densities. -/
theorem SplitTable.performs_cover (h : table.values ≠ []) (start stop sigma : K) :
    Performs [.quotient (stop - start)] (table.cover start stop sigma) := by
  unfold cover
  refine .divide_bind ?_
  dsimp only
  rw [List.getElem?_eq_getElem (count_sub_one_lt h _)]
  exact .of_ok _

theorem performs_gaussianBasis (centres means : List K) (sigma : K) :
    Performs [.power sigma 2] (gaussianBasis centres means sigma) := by
  unfold gaussianBasis
  exact .square_bind <| .squareRoot_bind <| .of_ok _

theorem performs_normalisedWeights (point : List K) :
    Performs [] (normalisedWeights point).outcome := by
  unfold normalisedWeights
  dsimp only
  split
  · exact .of_ok _
  · exact .of_ok _

/-- The operations of a fit. -/
def Region.fitOperations (region : Region K) (sigma : K) (table : SplitTable K) :
    List (Operation K) :=
  .quotient (region.stop - region.start) ::
    Operation.following (table.cover region.start region.stop sigma) fun cover =>
      [.power cover.std 2]

theorem performs_fitMixture {solve : WeightSolver K} (hsolve : ∀ p, Performs [] (solve p))
    (htable : table.values ≠ []) (region : Region K) (sigma : K) (budget : ℤ) (tolerance : K)
    (strict : Bool) :
    Performs (region.fitOperations sigma table)
      (fitMixture solve region sigma table budget tolerance strict).outcome := by
  unfold fitMixture Region.fitOperations
  refine .lift_bind (s := [_]) (SplitTable.performs_cover htable _ _ _) fun cover hcover => ?_
  rw [hcover]
  refine .lift_bind (s := [_]) (performs_gaussianBasis _ _ _) fun basis _ => ?_
  refine .lift_bind (s := []) (hsolve _) fun solution _ => ?_
  dsimp only
  split
  · split
    · -- a strict fit that did not converge
      exact .of_refusal rfl
    · refine .outcome_bind (s := []) (.of_ok ()) fun _ _ => ?_
      exact .outcome_bind_nil (performs_normalisedWeights _) fun _ _ => .of_ok _
  · exact .outcome_bind_nil (performs_normalisedWeights _) fun _ _ => .of_ok _

end Fit

section Hypotheses

variable {table : SplitTable Float}

/-- Numbers in order have a difference other than zero, so that their interval has a cover. -/
theorem SplitTable.performs_cover_of_lt (h : table.values ≠ []) {start stop : Float}
    (hlt : start < stop) (sigma : Float) : Performs [] (table.cover start stop sigma) := by
  refine (Performs.cons_iff ?_).mp (performs_cover h start stop sigma)
  simp [Operation.failure?, Binary64.isZero_sub hlt]

/-- The quotient by the width of a segment. -/
def Segment.operation {K : Type} [Scalar K] (s : Segment K) : Operation K :=
  .quotient (s.stop.abscissa - s.start.abscissa)

theorem Segment.performs_cover? (h : table.values ≠ []) (s : Segment Float) (x sigma : Float) :
    Performs [s.operation] (s.cover? x sigma table) := by
  unfold cover? boundsAt
  refine .bind (s := [_]) (.divide_bind (.of_ok _)) fun bounds _ => ?_
  refine .ite (fun hlt => ?_) fun _ => .of_ok _
  exact .nil_bind (SplitTable.performs_cover_of_lt h hlt sigma) fun _ _ => .of_ok _

/-- The operations at a fitted mean. -/
def Region.operationsAt {K : Type} [Scalar K] (region : Region K) (mean : K) : List (Operation K) :=
  match region.locate? mean with
  | none => []
  | some cell => cell.segments.map Segment.operation

theorem performs_componentsAt (h : table.values ≠ []) (region : Region Float)
    (std sigma mean weight : Float) :
    Performs (region.operationsAt mean)
      (componentsAt region table std sigma mean weight).outcome := by
  unfold componentsAt Region.operationsAt
  cases region.locate? mean with
  | none => exact .of_ok _
  | some cell =>
    dsimp only
    rw [List.map_eq_flatMap]
    refine .outcome_bind_nil (.outcome_mapM fun s _ => Segment.performs_cover? h s mean sigma)
      fun covers _ => ?_
    split
    · exact .of_ok _
    · exact .of_ok _

/-- The quotients of all weights by their sum. -/
def Component.operations {K : Type} [Scalar K] (components : List (Component K)) :
    List (Operation K) :=
  components.map fun _ => .quotient (sum (components.map (·.weight)))

theorem performs_normalised (components : List (Component Float)) :
    Performs (Component.operations components) (normalised components) := by
  unfold normalised Component.operations
  rw [List.map_eq_flatMap]
  exact .mapM fun c _ => .divide_bind <| .of_ok _

/-- The operations of all hypotheses. -/
def Region.hypothesisOperations {K : Type} [Scalar K] (region : Region K) (mixture : Mixture K)
    (sigma : K) (table : SplitTable K) : List (Operation K) :=
  mixture.surviving.flatMap (fun p => region.operationsAt p.1) ++
    Operation.following (mixture.surviving.mapM fun (mean, weight) =>
      componentsAt region table mixture.sigma sigma mean weight).outcome fun parts =>
        if parts.any (·.isEmpty) then Component.operations parts.flatten else []

theorem performs_hypotheses (h : table.values ≠ []) (region : Region Float)
    (mixture : Mixture Float) (sigma : Float) :
    Performs (region.hypothesisOperations mixture sigma table)
      (hypotheses region mixture sigma table).outcome := by
  unfold hypotheses Region.hypothesisOperations
  refine .outcome_bind (.outcome_mapM fun p _ => performs_componentsAt h region _ _ _ _)
    fun parts hparts => ?_
  rw [hparts]
  dsimp only [Operation.following]
  split
  · exact performs_normalised parts.flatten
  · exact .of_ok _

end Hypotheses

/-- The solvers of binary64 numbers. -/
def Solvers.binary64 : Solvers Float :=
  ⟨Polynomial.binary64Roots, LeastSquares.binary64Weights⟩

section Request

theorem problemIf_eq_nil_iff {K : Type} {p : Prop} [Decidable p] {problem : ArgumentProblem K} :
    problemIf p problem = [] ↔ ¬p := by
  unfold problemIf
  split <;> simp [*]

variable {K : Type} [Scalar K]

namespace Request

/-- The arguments of a request obey all rules. -/
structure Accepted (r : Request K) : Prop where
  length_measurement : r.measurement.length = 4
  finite : r.measurement.all isFinite = true
  sigma1_pos : 0.0 < r.sigma1
  sigma2_pos : 0.0 < r.sigma2
  step_pos : 0.0 < r.step
  amin_pos : 0.0 < r.amin
  amin_lt_amax : r.amin < r.amax
  emax_nonneg : 0.0 ≤ r.emax
  emax_lt_one : r.emax < 1.0

theorem Accepted.exists_measurement {r : Request K} (h : r.Accepted) :
    ∃ m1 m2 m3 m4, r.measurement = [m1, m2, m3, m4] := by
  match r.measurement, h.length_measurement with
  | [m1, m2, m3, m4], _ => exact ⟨m1, m2, m3, m4, rfl⟩

/-- No rule is broken exactly if all are obeyed. -/
theorem problems_eq_nil_iff {r : Request K} : r.problems = [] ↔ r.Accepted := by
  unfold problems
  simp only [List.append_eq_nil_iff, problemIf_eq_nil_iff, not_not]
  constructor
  · rintro ⟨⟨⟨⟨⟨hmeasurement, hsigmas⟩, hstep⟩, hamin⟩, haxes⟩, hemax⟩
    push Not at hsigmas
    split at hmeasurement
    · cases hmeasurement
    · rename_i hlength
      rw [problemIf_eq_nil_iff, not_not] at hmeasurement
      exact ⟨not_not.mp hlength, hmeasurement, hsigmas.1, hsigmas.2, hstep, hamin, haxes, hemax.1,
        hemax.2⟩
  · intro h
    rw [if_neg (not_not.mpr h.length_measurement), problemIf_eq_nil_iff, not_not]
    exact ⟨⟨⟨⟨⟨h.finite, by simp [h.sigma1_pos, h.sigma2_pos]⟩, h.step_pos⟩, h.amin_pos⟩,
      h.amin_lt_amax⟩, h.emax_nonneg, h.emax_lt_one⟩

/-- The operations of the samples. -/
def sampleOperations (r : Request K) : List (Operation K) :=
  match r.measurement, r.model with
  | [m1, m2, m3, m4], .optical =>
    Optical.measurementOperations m2 m3 m4 ++
      Operation.following (Optical.ofMeasurement m1 m2 m3 m4 r.station r.mu) fun g =>
        g.gridOperations r.step r.amax
  | [m1, m2, m3, m4], .ranging =>
    Ranging.measurementOperations m1 m2 m3 m4 r.station ++
      Operation.following (Ranging.ofMeasurement m1 m2 m3 m4 r.station r.mu) fun g =>
        g.gridOperations r.step
  | _, _ => []

/-- The operations of a construction. -/
def operations (solvers : Solvers K) (r : Request K) : List (Operation K) :=
  r.sampleOperations ++ Operation.following (r.samples solvers.roots) fun samples =>
    match anyAdmissible samples, Region.ofSamples samples with
    | true, .ok region =>
      region.fitOperations r.sigma1 r.table ++
        Operation.following (fitMixture solvers.weights region r.sigma1 r.table r.budget
          Constants.fitTolerance r.strict).outcome fun fit =>
            region.hypothesisOperations fit.mixture r.sigma2 r.table
    | _, _ => []

/-- The rules for the arguments keep the divisors of both grids from zero, and the square of the
greatest eccentricity finite. -/
theorem performs_samples {r : Request Float} (h : r.Accepted) {roots : RootFinder Float}
    (hroots : ∀ c, Performs [] (roots c)) : Performs r.sampleOperations (r.samples roots) := by
  have hstep := Binary64.isZero_of_pos h.step_pos
  have hamax_pos := Binary64.pos_of_pos_of_lt h.amin_pos h.amin_lt_amax
  have hemax : (Operation.power r.emax 2).failure? = none := by
    have hfinite := Binary64.isFinite_mul_self h.emax_nonneg h.emax_lt_one
    have hpower : isFinite (power r.emax 2) = true := hfinite
    simp [Operation.failure?, hpower]
  obtain ⟨m1, m2, m3, m4, hm⟩ := h.exists_measurement
  unfold samples sampleOperations
  rw [hm]
  cases r.model with
  | optical =>
    refine (Optical.performs_ofMeasurement _ _ _ _ _ _).bind_following fun g _ => ?_
    exact g.performs_grid hroots hemax hstep (Binary64.isZero_two_mul h.amin_pos)
      (Binary64.isZero_two_mul hamax_pos)
  | ranging =>
    refine .ite (fun _ => .of_refusal rfl) fun _ => ?_
    refine (Ranging.performs_ofMeasurement _ _ _ _ _ _).bind_following fun g _ => ?_
    exact g.performs_grid hroots hemax hstep (Binary64.isZero_of_pos h.amin_pos)
      (Binary64.isZero_of_pos hamax_pos)
  | other name => exact .of_refusal rfl

/-- A construction of arguments that obey all rules performs its operations. -/
theorem performs_construct {r : Request Float} (h : r.Accepted) (htable : r.table.values ≠ [])
    {solvers : Solvers Float} (hroots : ∀ c, Performs [] (solvers.roots c))
    (hweights : ∀ p, Performs [] (solvers.weights p)) :
    Performs (r.operations solvers) (construct solvers r).outcome := by
  have hnone := problems_eq_nil_iff.mpr h
  unfold construct operations
  rw [hnone]
  refine .lift_bind (performs_samples h hroots) fun samples hsamples => ?_
  rw [hsamples]
  dsimp only [Operation.following]
  cases anyAdmissible samples with
  | false => exact .of_ok _
  | true =>
    cases Region.ofSamples samples with
    | error reason => exact .of_ok _
    | ok region =>
      refine .outcome_bind (performs_fitMixture hweights htable region _ _ _ _) fun fit hfit => ?_
      rw [hfit]
      exact (performs_hypotheses htable region _ _).outcome_bind_nil fun components _ => .of_ok _

/-- A construction refuses arguments that break a rule. -/
theorem construct_of_problems {solvers : Solvers K} {r : Request K} (h : r.problems ≠ []) :
    (construct solvers r).outcome = .error (.invalidArguments r.problems) := by
  unfold construct
  rw [if_neg (mt List.isEmpty_iff.mp h)]
  rfl

/-- An optical construction fails unchecked if its grid has infinitely many steps. -/
theorem unchecked_of_infinite_span {solvers : Solvers Float} {r : Request Float}
    (h : r.Accepted) (hmodel : r.model = .optical)
    (hspan : floor? (2.0 * r.amax / r.step) = .error .floorOfInfinity) :
    ∃ fault, (construct solvers r).outcome = .error fault ∧ fault.isUnchecked = true := by
  have hstep := Binary64.isZero_of_pos h.step_pos
  obtain ⟨m1, m2, m3, m4, hm⟩ := h.exists_measurement
  have hfinite := h.finite
  rw [hm] at hfinite
  simp only [List.all_cons, Bool.and_eq_true] at hfinite
  have hsamples : ∃ fault, r.samples solvers.roots = .error fault ∧ fault.isUnchecked = true := by
    unfold samples
    rw [hm, hmodel]
    dsimp only
    rcases Optical.ofMeasurement_cases hfinite.1 hfinite.2.1 m3 m4 r.station r.mu with
      ⟨g, hg⟩ | hoverflow
    · rw [hg, ok_bind]
      unfold Optical.grid divide
      rw [hstep, if_neg Bool.false_ne_true, ok_bind, hspan]
      exact ⟨_, rfl, rfl⟩
    · rw [hoverflow]
      exact ⟨_, rfl, rfl⟩
  obtain ⟨fault, hfault, hunchecked⟩ := hsamples
  refine ⟨fault, ?_, hunchecked⟩
  unfold construct
  rw [problems_eq_nil_iff.mpr h, hfault]
  rfl

/-- A construction fails unchecked only if its arguments obey all rules and one of its operations
fails, and never by an index outside its table. It has no result if one of its operations fails. -/
theorem unchecked_cause (r : Request Float) {text : List Char} {source : String}
    (htable : SplitTable.parse text source = .ok r.table) :
    (∀ fault, (construct .binary64 r).outcome = .error fault → fault.isUnchecked = true →
      r.problems = [] ∧ fault ≠ .outsideTable ∧
        ∃ op ∈ r.operations .binary64, op.failure? = some fault) ∧
    ∀ op ∈ r.operations .binary64, ∀ fault, op.failure? = some fault →
      ∃ reported, (construct .binary64 r).outcome = .error reported := by
  have hvalues := (SplitTable.valid_of_parse htable).ne_nil
  by_cases hproblems : r.problems = []
  · have haccepted := problems_eq_nil_iff.mp hproblems
    have hperforms : Performs (r.operations .binary64) (construct .binary64 r).outcome :=
      performs_construct haccepted hvalues Polynomial.performs_binary64Roots
        LeastSquares.performs_binary64Weights
    refine ⟨fun fault hfault hunchecked => ?_, hperforms.needed⟩
    obtain ⟨op, hop, hfails⟩ := hperforms.cause fault hfault hunchecked
    refine ⟨hproblems, ?_, op, hop, hfails⟩
    rintro rfl
    exact op.failure?_ne_outsideTable hfails
  · rw [construct_of_problems hproblems]
    refine ⟨fun fault hfault hunchecked => ?_, fun _ _ _ _ => ⟨_, rfl⟩⟩
    obtain rfl := Except.error.inj hfault
    cases hunchecked

/-- A request whose greatest semi-major axis is so large that twice the axis is infinite. -/
def infiniteAxis : Request Float where
  measurement := [0.0, 0.0, 0.0, 0.0]
  station := ⟨⟨7000.0, 0.0, 0.0⟩, ⟨0.0, 7.5, 0.0⟩⟩
  sigma1 := 100.0
  sigma2 := 0.1
  step := 10.0
  amin := 7000.0
  amax := 1e308
  emax := 0.5
  model := .optical
  table := ⟨[0.5], "sizes"⟩
  mu := Constants.earthMu
  budget := Constants.fitBudget
  strict := false

theorem accepted_infiniteAxis : infiniteAxis.Accepted := by
  constructor <;> decide +kernel

theorem parse_infiniteAxis : SplitTable.parse ['0', '.', '5'] "sizes" = .ok infiniteAxis.table := by
  rfl

/-- Its grid has infinitely many steps. -/
theorem floor?_infiniteAxis :
    floor? (2.0 * infiniteAxis.amax / infiniteAxis.step) = .error .floorOfInfinity := by
  have hdefined : isNaN (2.0 * infiniteAxis.amax / infiniteAxis.step) = false := by
    decide +kernel
  have hinfinite : isFinite (2.0 * infiniteAxis.amax / infiniteAxis.step) = false := by
    decide +kernel
  simp only [floor?, hdefined, hinfinite, Bool.false_eq_true, if_false]

/-- Its failures have a cause, and none is an index outside the table. -/
theorem unchecked_cause_infiniteAxis :
    SplitTable.parse ['0', '.', '5'] "sizes" = .ok infiniteAxis.table ∧
    ∀ fault, (construct .binary64 infiniteAxis).outcome = .error fault →
      fault.isUnchecked = true → fault ≠ .outsideTable ∧
        ∃ op ∈ infiniteAxis.operations .binary64, op.failure? = some fault := by
  refine ⟨parse_infiniteAxis, fun fault hfault hunchecked => ?_⟩
  exact ((unchecked_cause infiniteAxis parse_infiniteAxis).1 fault hfault hunchecked).2

/-- Its arguments obey all rules, and its construction fails unchecked. -/
theorem construct_infiniteAxis : infiniteAxis.problems = [] ∧
    SplitTable.parse ['0', '.', '5'] "sizes" = .ok infiniteAxis.table ∧
    ∃ fault, (construct .binary64 infiniteAxis).outcome = .error fault ∧
      fault.isUnchecked = true :=
  ⟨problems_eq_nil_iff.mpr accepted_infiniteAxis, parse_infiniteAxis,
    unchecked_of_infinite_span accepted_infiniteAxis rfl floor?_infiniteAxis⟩

end Request

end Request

end AdmissibleRegion
