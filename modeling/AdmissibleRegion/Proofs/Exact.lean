import AdmissibleRegion.Vec3
import Mathlib

/-!
# Exact arithmetic

The real numbers are scalars: every operation is the mathematical one, and no number is
infinite or undefined. The lemmas say what each scalar operation is over them, so that later
proofs speak of sums, maxima and powers only. Both products and the length of vectors of real
components follow, with the identities between them.
-/

namespace AdmissibleRegion

/-- Exact arithmetic. -/
noncomputable instance : Scalar ℝ where
  decLt := inferInstance
  decLe := inferInstance
  ofInt n := n
  floor x := ⌊x⌋
  magnitude x := |x|
  sqrt := Real.sqrt
  sin := Real.sin
  cos := Real.cos
  exp := Real.exp
  pi := Real.pi
  isZero x := x = 0
  isFinite _ := true
  isNaN _ := false

namespace Scalar

theorem zero_literal : (0.0 : ℝ) = 0 := by norm_num

theorem one_literal : (1.0 : ℝ) = 1 := by norm_num

theorem two_literal : (2.0 : ℝ) = 2 := by norm_num

theorem four_literal : (4.0 : ℝ) = 4 := by norm_num

@[simp] theorem larger_eq_max (a b : ℝ) : larger a b = max a b := by
  rw [larger, max_def_lt]

@[simp] theorem smaller_eq_min (a b : ℝ) : smaller a b = min a b := by
  rw [smaller, min_comm, min_def_lt]

@[simp] theorem ofNat_eq_cast (n : ℕ) : (ofNat n : ℝ) = n := by
  simp [ofNat, ofInt]

/-- The sum from the left is the sum. -/
@[simp] theorem sum_eq (xs : List ℝ) : sum xs = xs.sum := by
  rw [sum, List.sum_eq_foldl]
  simp [ofInt]

/-- Repeated multiplication is the power. -/
@[simp] theorem power_eq_pow (x : ℝ) (n : ℕ) : power x n = x ^ n := by
  induction n using power.induct with
  | case1 => simp [power, ofInt]
  | case2 => simp [power]
  | case3 n ih => rw [power, ih, ← pow_succ]

@[simp] theorem raise_eq (x : ℝ) (n : ℕ) : raise x n = .ok (x ^ n) := by
  simp [raise, isFinite]

@[simp] theorem square_eq (x : ℝ) : square x = .ok (x ^ 2) := raise_eq x 2

@[simp] theorem angle_eq (x : ℝ) : angle x = .ok x := rfl

@[simp] theorem floor?_eq (x : ℝ) : floor? x = .ok ⌊x⌋ := rfl

/-- A quotient exists unless the divisor is zero. -/
theorem divide_eq_ok (a : ℝ) {b : ℝ} (h : b ≠ 0) : divide a b = .ok (a / b) := by
  simp [divide, isZero, h]

/-- A quotient has a divisor other than zero. -/
theorem ne_zero_of_divide_eq_ok {a b c : ℝ} (h : divide a b = .ok c) : b ≠ 0 := by
  rintro rfl
  simp [divide, isZero] at h

/-- A common factor does not matter to a quotient. -/
theorem divide_mul_left {c : ℝ} (hc : c ≠ 0) (a b : ℝ) :
    divide (c * a) (c * b) = divide a b := by
  by_cases hb : b = 0
  · rw [hb, mul_zero]
    simp [divide, isZero]
  · rw [divide_eq_ok _ hb, divide_eq_ok _ (mul_ne_zero hc hb), mul_div_mul_left a b hc]

/-- The steps that fit into a width are counted from zero. -/
theorem mem_range_floor_iff {width step : ℝ} (hstep : 0 < step) {k : ℕ} :
    k ∈ List.range (⌊width / step⌋ + 1).toNat ↔ k * step ≤ width := by
  have hfloor : (k : ℤ) ≤ ⌊width / step⌋ ↔ k * step ≤ width := by
    rw [Int.le_floor, Int.cast_natCast, le_div_iff₀ hstep]
  rw [List.mem_range, ← hfloor]
  omega

/-- A root exists unless the radicand is negative. -/
theorem squareRoot_eq_ok {x : ℝ} (h : 0 ≤ x) : squareRoot x = .ok √x := by
  have hx : ¬x < 0.0 := by simpa only [zero_literal, not_lt] using h
  simp only [squareRoot, hx, ite_false]
  rfl

end Scalar

/-! ## Vectors -/

attribute [ext] Vec3

namespace Vec3

@[simp] theorem add_x (a b : Vec3 ℝ) : (a + b).x = a.x + b.x := rfl

@[simp] theorem add_y (a b : Vec3 ℝ) : (a + b).y = a.y + b.y := rfl

@[simp] theorem add_z (a b : Vec3 ℝ) : (a + b).z = a.z + b.z := rfl

/-- A square of a length is not negative. -/
theorem squaredNorm_nonneg (a : Vec3 ℝ) : 0 ≤ squaredNorm a :=
  add_nonneg (add_nonneg (mul_self_nonneg a.x) (mul_self_nonneg a.y)) (mul_self_nonneg a.z)

/-- The square of the vector product is what the scalar product leaves of both lengths. -/
theorem squaredNorm_cross (a b : Vec3 ℝ) :
    squaredNorm (cross a b) = squaredNorm a * squaredNorm b - dot a b ^ 2 := by
  unfold squaredNorm dot cross
  ring

/-- The vector product is at right angles to its second factor. -/
theorem dot_cross_right (a b : Vec3 ℝ) : dot (cross a b) b = 0 := by
  unfold dot cross
  ring

/-- The square of the length of a sum. -/
theorem squaredNorm_add (a b : Vec3 ℝ) :
    squaredNorm (a + b) = squaredNorm a + 2 * dot a b + squaredNorm b := by
  simp only [squaredNorm, dot, add_x, add_y, add_z]
  ring

theorem squaredNorm_scale (c : ℝ) (a : Vec3 ℝ) :
    squaredNorm (scale c a) = c ^ 2 * squaredNorm a := by
  simp only [squaredNorm, dot, scale]
  ring

theorem dot_add_left (a b c : Vec3 ℝ) : dot (a + b) c = dot a c + dot b c := by
  simp only [dot, add_x, add_y, add_z]
  ring

theorem dot_add_right (a b c : Vec3 ℝ) : dot a (b + c) = dot a b + dot a c := by
  simp only [dot, add_x, add_y, add_z]
  ring

theorem dot_scale_right (c : ℝ) (a b : Vec3 ℝ) : dot a (scale c b) = c * dot a b := by
  simp only [dot, scale]
  ring

theorem dot_scale_scale (c d : ℝ) (a b : Vec3 ℝ) :
    dot (scale c a) (scale d b) = c * d * dot a b := by
  simp only [dot, scale]
  ring

/-- The length. -/
def norm {K : Type} [Scalar K] (a : Vec3 K) : K := Scalar.sqrt (squaredNorm a)

theorem norm_eq_sqrt (a : Vec3 ℝ) : norm a = √(squaredNorm a) := rfl

theorem norm_sq (a : Vec3 ℝ) : norm a ^ 2 = squaredNorm a :=
  Real.sq_sqrt (squaredNorm_nonneg a)

end Vec3

end AdmissibleRegion
