import AdmissibleRegion.Proofs.Weights

/-!
# Weight problems

The cost of a weight problem is half the squared length of its residuals, which count weights as
if they were between zero and one. If no combination of the candidates vanishes at all cells, the
cost has exactly one least point in the box of weights between zero and one, and a problem that
reads the same backwards has a solution that does.
-/

namespace AdmissibleRegion

open Scalar

section Closest

variable {n m : ℕ} {f : (Fin n → ℝ) →ₗ[ℝ] Fin m → ℝ}

/-- The image of the middle is closer to a target than those of both ends in the mean, by a
quarter of their squared distance. -/
theorem sum_sq_midpoint (f : (Fin n → ℝ) →ₗ[ℝ] Fin m → ℝ) (target : Fin m → ℝ)
    (x y : Fin n → ℝ) :
    ∑ i, (f (midpoint ℝ x y) i - target i) ^ 2 =
      (∑ i, (f x i - target i) ^ 2 + ∑ i, (f y i - target i) ^ 2) / 2 -
        (∑ i, (f y i - f x i) ^ 2) / 4 := by
  rw [← Finset.sum_add_distrib, Finset.sum_div, Finset.sum_div, ← Finset.sum_sub_distrib]
  refine Finset.sum_congr rfl fun i _ => ?_
  have hmiddle : f (midpoint ℝ x y) i = (f x i + f y i) / 2 := by
    rw [midpoint_eq_smul_add, map_smul, map_add, Pi.smul_apply, Pi.add_apply, smul_eq_mul,
      invOf_eq_inv]
    ring
  rw [hmiddle]
  ring

/-- On a compact and convex set, an injective linear map has exactly one image closest to a
target. -/
theorem existsUnique_isMinOn_sum_sq (hf : Function.Injective f) (target : Fin m → ℝ)
    {s : Set (Fin n → ℝ)} (hs : IsCompact s) (hne : s.Nonempty) (hconvex : Convex ℝ s) :
    ∃! x, x ∈ s ∧ IsMinOn (fun y => ∑ i, (f y i - target i) ^ 2) s x := by
  have hcontinuous : Continuous fun y => ∑ i, (f y i - target i) ^ 2 :=
    continuous_finsetSum _ fun i _ =>
      (((continuous_apply i).comp f.continuous_of_finiteDimensional).sub continuous_const).pow 2
  obtain ⟨x, hx, hmin⟩ := hs.exists_isMinOn hne hcontinuous.continuousOn
  refine ⟨x, ⟨hx, hmin⟩, fun y ⟨hy, hmin'⟩ => ?_⟩
  have hmiddle : midpoint ℝ x y ∈ s := hconvex.midpoint_mem hx hy
  have hxm := isMinOn_iff.mp hmin _ hmiddle
  have hym := isMinOn_iff.mp hmin' _ hmiddle
  have hmean := sum_sq_midpoint f target x y
  have hdistance : ∑ i, (f y i - f x i) ^ 2 = 0 := by
    apply le_antisymm
    · linarith
    · exact Finset.sum_nonneg fun i _ => sq_nonneg _
  rw [Finset.sum_eq_zero_iff_of_nonneg fun i _ => sq_nonneg _] at hdistance
  refine hf (funext fun i => ?_)
  exact sub_eq_zero.mp (pow_eq_zero_iff two_ne_zero |>.mp (hdistance i (Finset.mem_univ i)))

end Closest

theorem dot_eq (xs ys : List ℝ) : dot xs ys = (List.zipWith (· * ·) xs ys).sum := by
  rw [dot, sum_eq]

/-- The scalar product with a list of the same length, by coordinates. -/
theorem dot_ofFn {n : ℕ} (x : Fin n → ℝ) {ys : List ℝ} (h : ys.length = n) :
    dot (List.ofFn x) ys = ∑ k : Fin n, x k * ys.getD k 0 := by
  rw [dot_eq, ← List.sum_ofFn]
  congr 1
  apply List.ext_getElem
  · simp [h]
  · intro k hk _
    have hk' : k < ys.length := by simpa [h] using hk
    simp [hk']

/-- The scalar product of lists of the same length, both read backwards. -/
theorem dot_reverse {xs ys : List ℝ} (h : xs.length = ys.length) :
    dot xs.reverse ys.reverse = dot xs ys := by
  rw [dot_eq, ← List.reverse_zipWith h, List.sum_reverse, dot_eq]

namespace WeightProblem

/-- A problem with a value of every candidate and a density at every cell. -/
structure Shaped {K : Type} (p : WeightProblem K) : Prop where
  length_row : ∀ row ∈ p.basis, row.length = p.candidates
  length_target : p.target.length = p.basis.length

section Cost

variable {K : Type} [Scalar K]

/-- What the candidates add up to at every cell, with the weights of a point. -/
def product (p : WeightProblem K) (point : List K) : List K := p.basis.map (dot point)

/-- The residuals at a point, whose weights count as if they were between zero and one. -/
def residuals (p : WeightProblem K) (point : List K) : List K :=
  List.zipWith (· - ·) (p.product (point.map clamp)) p.target

/-- Half the squared length of the residuals. -/
def cost (p : WeightProblem K) (point : List K) : K :=
  0.5 * dot (p.residuals point) (p.residuals point)

end Cost

/-- The points with a weight between zero and one for every candidate. -/
def box (p : WeightProblem ℝ) : Set (List ℝ) :=
  {point | point.length = p.candidates ∧ ∀ x ∈ point, x ∈ Set.Icc 0 1}

/-- No point of the box costs less. -/
def IsBest (p : WeightProblem ℝ) (point : List ℝ) : Prop :=
  point ∈ p.box ∧ IsMinOn p.cost p.box point

/-- The values of a candidate at all cells. -/
def column (p : WeightProblem ℝ) (k : Fin p.candidates) (i : Fin p.basis.length) : ℝ :=
  p.basis[i].getD k 0

/-- A problem with one solution, on whose box the residuals are linear in the weights. -/
structure WellPosed (p : WeightProblem ℝ) : Prop where
  /-- No combination of the candidates vanishes at all cells. -/
  independent : LinearIndependent ℝ p.column
  /-- Exactly one point of the box is best. -/
  existsUnique : ∃! point, p.IsBest point
  /-- The basis is the derivative of the residuals. -/
  residuals_sub : ∀ v ∈ p.box, ∀ w ∈ p.box,
    List.zipWith (· - ·) (p.residuals w) (p.residuals v) =
      p.product (List.zipWith (· - ·) w v)

/-- A problem that reads the same with cells and candidates in the opposite order. -/
structure Mirrored (p : WeightProblem ℝ) : Prop where
  reverse_basis : p.basis.reverse = p.basis.map List.reverse
  reverse_target : p.target.reverse = p.target

variable {p : WeightProblem ℝ} {v w : List ℝ}

/-- Clamping changes no point of the box. -/
theorem map_clamp_of_mem_box (h : w ∈ p.box) : w.map clamp = w := by
  rw [List.map_congr_left fun x hx => ?_, List.map_id]
  obtain ⟨h0, h1⟩ := h.2 x hx
  rw [clamp_eq, max_eq_left h0, min_eq_left h1, id]

theorem reverse_mem_box (h : w ∈ p.box) : w.reverse ∈ p.box :=
  ⟨by rw [List.length_reverse, h.1], fun x hx => h.2 x (List.mem_reverse.mp hx)⟩

/-- The points of the box by coordinates. -/
theorem ofFn_mem_box_iff {x : Fin p.candidates → ℝ} :
    List.ofFn x ∈ p.box ↔ x ∈ Set.Icc 0 1 := by
  simp [box, Pi.le_def, forall_and]

theorem exists_ofFn_of_mem_box (h : w ∈ p.box) : ∃ x : Fin p.candidates → ℝ, w = List.ofFn x := by
  refine ⟨fun k => w.get (k.cast h.1.symm), ?_⟩
  apply List.ext_getElem
  · simp [h.1]
  · simp

namespace Shaped

/-- The candidates add up to the linear combination of their columns. -/
theorem product_ofFn (h : p.Shaped) (x : Fin p.candidates → ℝ) :
    p.product (List.ofFn x) = List.ofFn (Fintype.linearCombination ℝ p.column x) := by
  apply List.ext_getElem
  · simp [product]
  · intro i hi _
    have hi' : i < p.basis.length := by simpa [product] using hi
    have hrow := h.length_row p.basis[i] (List.getElem_mem hi')
    simp [product, dot_ofFn x hrow, Fintype.linearCombination_apply, column]

theorem residuals_ofFn (h : p.Shaped) {x : Fin p.candidates → ℝ} (hx : x ∈ Set.Icc 0 1) :
    p.residuals (List.ofFn x) = List.ofFn fun i =>
      Fintype.linearCombination ℝ p.column x i - p.target.getD i 0 := by
  rw [residuals, map_clamp_of_mem_box (ofFn_mem_box_iff.mpr hx), h.product_ofFn]
  apply List.ext_getElem
  · simp [h.length_target]
  · intro i _ hi
    have htarget : i < p.target.length := by simpa [h.length_target] using hi
    simp [htarget]

theorem cost_ofFn (h : p.Shaped) {x : Fin p.candidates → ℝ} (hx : x ∈ Set.Icc 0 1) :
    p.cost (List.ofFn x) =
      1 / 2 * ∑ i, (Fintype.linearCombination ℝ p.column x i - p.target.getD i 0) ^ 2 := by
  have hhalf : (0.5 : ℝ) = 1 / 2 := by norm_num
  rw [cost, h.residuals_ofFn hx, dot_ofFn _ List.length_ofFn, hhalf]
  congr 1
  refine Finset.sum_congr rfl fun i _ => ?_
  simp [sq]

/-- Residuals are linear on the box. -/
theorem residuals_sub (h : p.Shaped) (hv : v ∈ p.box) (hw : w ∈ p.box) :
    List.zipWith (· - ·) (p.residuals w) (p.residuals v) =
      p.product (List.zipWith (· - ·) w v) := by
  obtain ⟨x, rfl⟩ := exists_ofFn_of_mem_box hv
  obtain ⟨y, rfl⟩ := exists_ofFn_of_mem_box hw
  have hsub : List.zipWith (· - ·) (List.ofFn y) (List.ofFn x) = List.ofFn (y - x) := by
    apply List.ext_getElem
    · simp
    · simp
  rw [hsub, h.product_ofFn, map_sub, h.residuals_ofFn (ofFn_mem_box_iff.mp hv),
    h.residuals_ofFn (ofFn_mem_box_iff.mp hw)]
  apply List.ext_getElem
  · simp
  · simp

/-- A point of the box is best if its combination of the candidates is closest to the target. -/
theorem isBest_ofFn_iff (h : p.Shaped) {x : Fin p.candidates → ℝ} :
    p.IsBest (List.ofFn x) ↔ x ∈ Set.Icc 0 1 ∧
      IsMinOn (fun y => ∑ i, (Fintype.linearCombination ℝ p.column y i - p.target.getD i 0) ^ 2)
        (Set.Icc 0 1) x := by
  rw [IsBest, ofFn_mem_box_iff]
  refine and_congr_right fun hx => ?_
  rw [isMinOn_iff, isMinOn_iff]
  constructor
  · intro hmin y hy
    have hle := hmin _ (ofFn_mem_box_iff.mpr hy)
    rw [h.cost_ofFn hx, h.cost_ofFn hy] at hle
    linarith
  · intro hmin v hv
    obtain ⟨y, rfl⟩ := exists_ofFn_of_mem_box hv
    have hy := ofFn_mem_box_iff.mp hv
    have hle := hmin y hy
    rw [h.cost_ofFn hx, h.cost_ofFn hy]
    linarith

/-- A problem is well posed if its candidates are independent. -/
theorem wellPosed (h : p.Shaped) (hindependent : LinearIndependent ℝ p.column) :
    p.WellPosed := by
  refine ⟨hindependent, ?_, fun v hv w hw => h.residuals_sub hv hw⟩
  obtain ⟨x, hbest, hunique⟩ := existsUnique_isMinOn_sum_sq
    (linearIndependent_iff_injective_fintypeLinearCombination.mp hindependent)
    (fun i => p.target.getD i 0) isCompact_Icc ⟨0, le_rfl, zero_le_one⟩
    (convex_Icc (0 : Fin p.candidates → ℝ) 1)
  refine ⟨List.ofFn x, h.isBest_ofFn_iff.mpr hbest, fun w hw => ?_⟩
  obtain ⟨y, rfl⟩ := exists_ofFn_of_mem_box hw.1
  exact congrArg List.ofFn (hunique y (h.isBest_ofFn_iff.mp hw))

/-- Read backwards, the points of a mirrored problem have their residuals backwards. -/
theorem residuals_reverse (h : p.Shaped) (hmirror : p.Mirrored) (hw : w.length = p.candidates) :
    p.residuals w.reverse = (p.residuals w).reverse := by
  have hproduct : p.product (w.map clamp).reverse = (p.product (w.map clamp)).reverse := by
    rw [product, product, ← List.map_reverse (l := p.basis), hmirror.reverse_basis, List.map_map]
    refine List.map_congr_left fun row hrow => ?_
    have hlength : (w.map clamp).length = row.reverse.length := by
      rw [List.length_map, List.length_reverse, hw, h.length_row row hrow]
    rw [Function.comp_apply, ← dot_reverse hlength, List.reverse_reverse]
  have hlength : (p.product (w.map clamp)).length = p.target.length := by
    rw [product, List.length_map, h.length_target]
  rw [residuals, List.map_reverse, hproduct, residuals, List.reverse_zipWith hlength,
    hmirror.reverse_target]

theorem cost_reverse (h : p.Shaped) (hmirror : p.Mirrored) (hw : w.length = p.candidates) :
    p.cost w.reverse = p.cost w := by
  rw [cost, h.residuals_reverse hmirror hw, dot_reverse rfl, cost]

/-- The best point of a well posed problem that is mirrored reads the same backwards. -/
theorem reverse_eq (h : p.Shaped) (hposed : p.WellPosed) (hmirror : p.Mirrored)
    (hw : p.IsBest w) : w.reverse = w := by
  refine hposed.existsUnique.unique ⟨reverse_mem_box hw.1, isMinOn_iff.mpr fun v hv => ?_⟩ hw
  rw [h.cost_reverse hmirror hw.1.1]
  exact isMinOn_iff.mp hw.2 v hv

end Shaped

end WeightProblem

end AdmissibleRegion
