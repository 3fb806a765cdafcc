import AdmissibleRegion.LeastSquares.Reflective
import AdmissibleRegion.Proofs.WeightProblem

/-!
# What the binary64 solver works on

The solver keeps vectors and matrices in flat arrays. Its residuals are those of the weight
problem it was given, with the same sums in the same order, and so is its cost. Every step leaves
a point inside the box with its own residuals, cost and gradient, so that the cost of a solution
is that of its point.
-/

namespace AdmissibleRegion.LeastSquares

/-- The numbers of an array. -/
def numbers (a : FloatArray) : List Float := a.data.toList

section Column

variable {a b : FloatArray}

@[simp] theorem length_numbers (a : FloatArray) : (numbers a).length = a.size := rfl

/-- An array has the numbers at its indices. -/
theorem numbers_eq_map_get (a : FloatArray) : numbers a = (List.range a.size).map a.get! := by
  apply List.ext_getElem
  · simp
  · intro i hi _
    rw [length_numbers] at hi
    rw [List.getElem_map, List.getElem_range]
    exact (getElem!_pos a.data i hi).symm

/-- Numbers that are pushed one by one stand behind those that were there. -/
theorem numbers_fold_push (n : ℕ) (f : ℕ → Float) (a : FloatArray) :
    numbers (n.fold (fun i _ acc => acc.push (f i)) a) = numbers a ++ (List.range n).map f := by
  induction n with
  | zero => simp
  | succ n ih =>
    have hpush : ∀ (b : FloatArray) (x : Float), numbers (b.push x) = numbers b ++ [x] :=
      fun b x => Array.toList_push
    rw [Nat.fold_succ, hpush, ih, List.range_succ, List.map_append, List.append_assoc,
      List.map_singleton]

theorem numbers_tabulate (n : ℕ) (f : ℕ → Float) :
    numbers (tabulate n f) = (List.range n).map f :=
  numbers_fold_push n f _

@[simp] theorem size_tabulate (n : ℕ) (f : ℕ → Float) : (tabulate n f).size = n := by
  rw [← length_numbers, numbers_tabulate, List.length_map, List.length_range]

theorem size_mapColumn (f : Float → Float) (a : FloatArray) : (mapColumn f a).size = a.size :=
  size_tabulate _ _

theorem size_zipColumns (f : Float → Float → Float) (a b : FloatArray) :
    (zipColumns f a b).size = a.size :=
  size_tabulate _ _

/-- A tabulated array has the numbers it was made of. -/
theorem get_tabulate {n i : ℕ} (f : ℕ → Float) (h : i < n) : (tabulate n f).get! i = f i := by
  have hnumbers := congrArg (·[i]?) (numbers_tabulate n f)
  rw [numbers_eq_map_get, size_tabulate] at hnumbers
  simpa [h] using hnumbers

theorem numbers_mapColumn (f : Float → Float) (a : FloatArray) :
    numbers (mapColumn f a) = (numbers a).map f := by
  rw [mapColumn, numbers_tabulate, numbers_eq_map_get, List.map_map]
  rfl

theorem numbers_zipColumns (f : Float → Float → Float) (h : a.size = b.size) :
    numbers (zipColumns f a b) = List.zipWith f (numbers a) (numbers b) := by
  rw [zipColumns, numbers_tabulate, numbers_eq_map_get, numbers_eq_map_get b, ← h,
    List.zipWith_map, List.zipWith_self]

/-- The scalar product of two runs sums their products from the left. -/
theorem dotRuns_eq (a : FloatArray) (p : ℕ) (b : FloatArray) (q n : ℕ) (sum : Float) :
    dotRuns a p b q n sum =
      (List.range n).foldl (fun sum i => sum + a.get! (p + i) * b.get! (q + i)) sum := by
  induction n generalizing p q sum with
  | zero => rfl
  | succ n ih =>
    rw [dotRuns, ih, List.range_succ_eq_map, List.foldl_cons, List.foldl_map]
    simp only [Nat.succ_eq_add_one, Nat.add_right_comm _ _ 1, ← Nat.add_assoc, Nat.add_zero]

theorem dot_eq (h : a.size = b.size) : dot a b = Scalar.dot (numbers a) (numbers b) := by
  rw [dot, dotRuns_eq, numbers_eq_map_get, numbers_eq_map_get b, ← h, Scalar.dot, Scalar.sum,
    List.zipWith_map, List.zipWith_self, List.foldl_map]
  simp only [Nat.zero_add]
  rfl

theorem size_set (a : FloatArray) (q : ℕ) (x : Float) : (a.set! q x).size = a.size :=
  Array.size_setIfInBounds

theorem get_set {q : ℕ} (h : q < a.size) (x : Float) (i : ℕ) :
    (a.set! q x).get! i = if i = q then x else a.get! i := by
  obtain ⟨data⟩ := a
  change (data.set! q x)[i]! = if i = q then x else data[i]!
  have hq : q < data.size := h
  by_cases hi : i = q
  · rw [if_pos hi, hi]
    simp [hq]
  · rw [if_neg hi]
    simp [Ne.symm hi, getElem!_def]

/-- Adding a column changes the numbers of the run it is added to. -/
theorem get_addRun (t : Float) (a : FloatArray) (p : ℕ) {q n : ℕ} (h : q + n ≤ b.size) (i : ℕ) :
    (addRun t a p q n b).get! i =
      if q ≤ i ∧ i < q + n then b.get! i + t * a.get! (p + (i - q)) else b.get! i := by
  induction n generalizing p q b with
  | zero =>
    have hnone : ¬(q ≤ i ∧ i < q + 0) := by omega
    rw [if_neg hnone, addRun]
  | succ n ih =>
    have hq : q < b.size := by omega
    have hrest : q + 1 + n ≤ (b.set! q (b.get! q + t * a.get! p)).size := by
      rw [size_set]
      omega
    rw [addRun, ih (p + 1) hrest, get_set hq]
    rcases Nat.lt_trichotomy i q with hlt | rfl | hlt
    · rw [if_neg (by omega), if_neg hlt.ne, if_neg (by omega)]
    · rw [if_neg (by omega), if_pos rfl, if_pos (by omega), Nat.sub_self, Nat.add_zero]
    · have hindex : p + 1 + (i - (q + 1)) = p + (i - q) := by omega
      have hiff : q + 1 ≤ i ∧ i < q + 1 + n ↔ q ≤ i ∧ i < q + (n + 1) := by omega
      rw [if_neg hlt.ne', hindex]
      exact if_congr hiff rfl rfl

theorem size_addRun (t : Float) (a : FloatArray) (p q n : ℕ) (b : FloatArray) :
    (addRun t a p q n b).size = b.size := by
  induction n generalizing p q b with
  | zero => rfl
  | succ n ih => rw [addRun, ih, size_set]

end Column

namespace Matrix

/-- An entry of a matrix stands at its place. -/
theorem get_ofEntries {rows columns i j : ℕ} (entry : ℕ → ℕ → Float) (hi : i < rows)
    (hj : j < columns) :
    (ofEntries rows columns entry).entries.get! (j * rows + i) = entry i j := by
  have hplace : j * rows + i < rows * columns := by
    calc j * rows + i < (j + 1) * rows := by rw [Nat.succ_mul]; omega
      _ ≤ columns * rows := Nat.mul_le_mul_right rows hj
      _ = rows * columns := Nat.mul_comm columns rows
  have hrow : (j * rows + i) % rows = i := by
    rw [Nat.mul_add_mod', Nat.mod_eq_of_lt hi]
  have hcolumn : (j * rows + i) / rows = j := by
    rw [Nat.mul_comm, Nat.mul_add_div (by omega), Nat.div_eq_of_lt hi, Nat.add_zero]
  rw [ofEntries, get_tabulate _ hplace, hrow, hcolumn]

theorem size_fold_addRun (a : Matrix) (x : FloatArray) (n : ℕ) :
    (n.fold (fun j _ y => addRun (x.get! j) a.entries (j * a.rows) 0 a.rows y)
      (tabulate a.rows fun _ => 0)).size = a.rows := by
  induction n with
  | zero => exact size_tabulate _ _
  | succ n ih => rw [Nat.fold_succ, size_addRun, ih]

/-- Adding some columns, each with a factor of its own, sums every row from the left. -/
theorem get_fold_addRun (a : Matrix) (x : FloatArray) (n : ℕ) {i : ℕ} (hi : i < a.rows) :
    (n.fold (fun j _ y => addRun (x.get! j) a.entries (j * a.rows) 0 a.rows y)
      (tabulate a.rows fun _ => 0)).get! i =
        (List.range n).foldl (fun sum j => sum + x.get! j * a.entries.get! (j * a.rows + i)) 0 := by
  induction n with
  | zero => exact get_tabulate _ hi
  | succ n ih =>
    have hsize := size_fold_addRun a x n
    rw [Nat.fold_succ, get_addRun _ _ _ (by omega), if_pos (by omega), ih, List.range_succ,
      List.foldl_append, Nat.sub_zero]
    rfl

/-- The product with a vector sums the columns from the left. -/
theorem numbers_mulVec (a : Matrix) (x : FloatArray) :
    numbers (a.mulVec x) = (List.range a.rows).map fun i => (List.range a.columns).foldl
      (fun sum j => sum + x.get! j * a.entries.get! (j * a.rows + i)) 0 := by
  rw [mulVec, numbers_eq_map_get, size_fold_addRun]
  exact List.map_congr_left fun i hi => get_fold_addRun a x a.columns (List.mem_range.mp hi)

/-- The entries of a matrix are those of the rows it was made of. -/
theorem get_ofRows {columns i j : ℕ} {rows : List (List Float)} (hi : i < rows.length)
    (hj : j < columns) :
    (ofRows columns rows).entries.get! (j * rows.length + i) = rows[i].getD j 0 := by
  have hrow : rows[i]? = some rows[i] := List.getElem?_eq_getElem hi
  have hsize : (rows.map fun row => row.toArray).toArray.size = rows.length := by simp
  unfold ofRows
  rw [← hsize] at hi ⊢
  rw [get_ofEntries _ hi hj]
  simp [hrow]

end Matrix

variable {problem : WeightProblem Float} {x : FloatArray}

/-- The scalar product with a list of the same length sums from the left. -/
theorem dot_numbers {row : List Float} (h : row.length = x.size) :
    Scalar.dot (numbers x) row =
      (List.range x.size).foldl (fun sum j => sum + x.get! j * row.getD j 0) 0 := by
  have hrow : row = (List.range x.size).map fun j => row.getD j 0 := by
    apply List.ext_getElem
    · simp [h]
    · intro j hj _
      simp [hj]
  rw [Scalar.dot, Scalar.sum, numbers_eq_map_get]
  nth_rewrite 1 [hrow]
  rw [List.zipWith_map, List.zipWith_self, List.foldl_map]
  rfl

/-- The residuals of the solver are those of the weight problem. -/
theorem numbers_residuals (h : problem.Shaped) (hx : x.size = problem.candidates) :
    numbers ((Problem.of problem).residuals x) = problem.residuals (numbers x) := by
  have hrows : (Problem.of problem).jacobian.rows = problem.basis.length := by
    simp [Problem.of, Matrix.ofRows, Matrix.ofEntries]
  have hclamped : (mapColumn clamp x).size = problem.candidates := by
    rw [mapColumn, size_tabulate, hx]
  have hproduct : numbers ((Problem.of problem).jacobian.mulVec (mapColumn clamp x)) =
      problem.product ((numbers x).map clamp) := by
    rw [Matrix.numbers_mulVec, hrows, WeightProblem.product, ← numbers_mapColumn]
    apply List.ext_getElem
    · simp
    · intro i hi _
      have hi' : i < problem.basis.length := by simpa using hi
      have hrow := h.length_row problem.basis[i] (List.getElem_mem hi')
      rw [List.getElem_map, List.getElem_map, List.getElem_range,
        dot_numbers (hrow.trans hclamped.symm), hclamped]
      have hentry : ∀ j < problem.candidates, (Problem.of problem).jacobian.entries.get!
          (j * problem.basis.length + i) = problem.basis[i].getD j 0 := fun j hj =>
        Matrix.get_ofRows hi' hj
      refine List.foldl_ext _ _ _ fun sum j hj => ?_
      rw [hentry j (List.mem_range.mp hj)]
  have hsize : ((Problem.of problem).jacobian.mulVec (mapColumn clamp x)).size =
      (Problem.of problem).target.size := by
    rw [← length_numbers, hproduct, WeightProblem.product, List.length_map, ← h.length_target]
    rfl
  rw [Problem.residuals, numbers_zipColumns _ hsize, hproduct]
  rfl

/-- Half the squared length of the residuals is the cost of the weight problem. -/
theorem cost_eq (h : problem.Shaped) (hx : x.size = problem.candidates) :
    0.5 * dot ((Problem.of problem).residuals x) ((Problem.of problem).residuals x) =
      problem.cost (numbers x) := by
  rw [dot_eq rfl, numbers_residuals h hx]
  rfl

/-- A weight is neither on a bound nor beyond. -/
def IsInside (x : Float) : Prop := ¬x ≤ 0 ∧ ¬1 ≤ x

/-- Whatever is moved inside is there. -/
theorem isInside_inside (x : Float) : IsInside (inside x) := by
  unfold inside IsInside
  split_ifs with hlow hhigh
  · decide +kernel
  · decide +kernel
  · exact ⟨hlow, hhigh⟩

/-- A point inside the box, with its residuals, their cost and the gradient of the cost. -/
structure Progress.IsAt (linear : Problem) (now : Progress) : Prop where
  size_point : now.point.size = linear.jacobian.columns
  isInside : ∀ x ∈ numbers now.point, IsInside x
  residuals_eq : now.residuals = linear.residuals now.point
  cost_eq : now.cost = 0.5 * dot now.residuals now.residuals
  gradient_eq : now.gradient = linear.jacobian.transposeMulVec now.residuals

section Run

variable {linear : Problem} {now next : Progress}

/-- Trying steps either keeps the point or moves to another one, with all that belongs to it. -/
theorem Progress.IsAt.of_attempt {model : QuadraticModel} {spectrum : Spectrum} {budget fuel : ℕ}
    {theta tolerance : Float} (h : now.IsAt linear)
    (hrun : attempt linear model spectrum budget theta tolerance fuel now = .ok next) :
    next.IsAt linear := by
  induction fuel generalizing now with
  | zero =>
    obtain rfl := Except.ok.inj hrun
    exact h
  | succ fuel ih =>
    unfold attempt at hrun
    rcases ite_eq_iff.mp hrun with ⟨_, hrun⟩ | ⟨_, hrun⟩
    · obtain rfl := Except.ok.inj hrun
      exact h
    obtain ⟨step, _, hrun⟩ := exists_of_bind_eq_ok hrun
    -- what else a trial changes does not belong to the point
    rcases ite_eq_iff.mp hrun with ⟨_, hrun⟩ | ⟨_, hrun⟩
    · refine ih ?_ hrun
      exact ⟨h.size_point, h.isInside, h.residuals_eq, h.cost_eq, h.gradient_eq⟩
    rcases ite_eq_iff.mp hrun with ⟨_, hrun⟩ | ⟨_, hrun⟩
    · obtain rfl := Except.ok.inj hrun
      refine ⟨?_, fun x hx => ?_, rfl, rfl, rfl⟩
      · rw [size_mapColumn, size_zipColumns, h.size_point]
      · rw [numbers_mapColumn] at hx
        obtain ⟨y, _, rfl⟩ := List.mem_map.mp hx
        exact isInside_inside y
    rcases ite_eq_iff.mp hrun with ⟨_, hrun⟩ | ⟨_, hrun⟩
    · obtain rfl := Except.ok.inj hrun
      exact ⟨h.size_point, h.isInside, h.residuals_eq, h.cost_eq, h.gradient_eq⟩
    · refine ih ?_ hrun
      exact ⟨h.size_point, h.isInside, h.residuals_eq, h.cost_eq, h.gradient_eq⟩

/-- So does a whole fit, however it ends. -/
theorem Progress.IsAt.of_improve {budget fuel : ℕ} {tolerance : Float} {converged : Bool}
    (h : now.IsAt linear)
    (hrun : improve linear budget tolerance fuel now = .ok (next, converged)) :
    next.IsAt linear := by
  induction fuel generalizing now with
  | zero =>
    obtain ⟨rfl, _⟩ := Prod.mk.inj (Except.ok.inj hrun)
    exact h
  | succ fuel ih =>
    unfold improve at hrun
    rcases ite_eq_iff.mp hrun with ⟨_, hrun⟩ | ⟨_, hrun⟩
    · obtain ⟨rfl, _⟩ := Prod.mk.inj (Except.ok.inj hrun)
      exact h
    rcases ite_eq_iff.mp hrun with ⟨_, hrun⟩ | ⟨_, hrun⟩
    · obtain ⟨rfl, _⟩ := Prod.mk.inj (Except.ok.inj hrun)
      exact h
    rcases ite_eq_iff.mp hrun with ⟨_, hrun⟩ | ⟨_, hrun⟩
    · obtain ⟨tried, htried, hrun⟩ := exists_of_bind_eq_ok hrun
      exact ih (h.of_attempt htried) hrun
    · cases hrun

end Run

/-- The solver keeps to a weight problem: it works with the basis and with the residuals of the
problem, and a solution has a weight inside the box for every candidate and costs what its point
does. -/
structure KeepsTo (problem : WeightProblem Float) : Prop where
  /-- The derivatives of the residuals are the basis. -/
  jacobian_eq : ∀ i (hi : i < problem.basis.length), ∀ j < problem.candidates,
    (Problem.of problem).jacobian.entries.get! (j * problem.basis.length + i) =
      problem.basis[i].getD j 0
  residuals_eq : ∀ x : FloatArray, x.size = problem.candidates →
    numbers ((Problem.of problem).residuals x) = problem.residuals (numbers x)
  length_point : ∀ solution, binary64Weights problem = .ok solution →
    solution.point.length = problem.candidates
  isInside : ∀ solution, binary64Weights problem = .ok solution → ∀ x ∈ solution.point, IsInside x
  cost_eq : ∀ solution, binary64Weights problem = .ok solution →
    solution.cost = problem.cost solution.point

/-- A solution is the point at which the fit ends. -/
theorem exists_isAt_of_binary64Weights {solution : WeightSolution Float}
    (h : binary64Weights problem = .ok solution) :
    ∃ last : Progress, last.IsAt (Problem.of problem) ∧ solution.point = numbers last.point ∧
      solution.cost = last.cost := by
  unfold binary64Weights at h
  rcases ite_eq_iff.mp h with ⟨_, h⟩ | ⟨_, h⟩
  · cases h
  rcases ite_eq_iff.mp h with ⟨_, h⟩ | ⟨_, h⟩
  · cases h
  rcases ite_eq_iff.mp h with ⟨_, h⟩ | ⟨_, h⟩
  · cases h
  obtain ⟨⟨last, converged⟩, hrun, h⟩ := exists_of_bind_eq_ok h
  obtain rfl := Except.ok.inj h
  refine ⟨last, Progress.IsAt.of_improve ?_ hrun, rfl, rfl⟩
  refine ⟨size_tabulate _ _, fun x hx => ?_, rfl, rfl, rfl⟩
  -- the first point is close to zero
  rw [numbers_tabulate] at hx
  obtain ⟨_, _, rfl⟩ := List.mem_map.mp hx
  unfold IsInside
  decide +kernel

/-- The solver keeps to every problem with a value of each candidate at each cell. -/
theorem keepsTo (h : problem.Shaped) : KeepsTo problem where
  jacobian_eq _ hi _ hj := Matrix.get_ofRows hi hj
  residuals_eq _ hx := numbers_residuals h hx
  length_point solution hsolution := by
    obtain ⟨last, hlast, hpoint, _⟩ := exists_isAt_of_binary64Weights hsolution
    rw [hpoint, length_numbers, hlast.size_point]
    rfl
  isInside solution hsolution := by
    obtain ⟨last, hlast, hpoint, _⟩ := exists_isAt_of_binary64Weights hsolution
    rw [hpoint]
    exact hlast.isInside
  cost_eq solution hsolution := by
    obtain ⟨last, hlast, hpoint, hcost⟩ := exists_isAt_of_binary64Weights hsolution
    rw [hcost, hpoint, hlast.cost_eq, hlast.residuals_eq, cost_eq h hlast.size_point]

end AdmissibleRegion.LeastSquares
