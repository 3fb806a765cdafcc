import AdmissibleRegion.Constants
import AdmissibleRegion.Proofs.Bounds
import AdmissibleRegion.Proofs.Checked

/-!
# Exact roots

A root finder is exact if it finds the complex roots of every polynomial other than zero, and
nothing else. With an exact root finder, the bounds of a polynomial hold all its real roots,
and end at real parts of roots.
-/

namespace AdmissibleRegion

open Scalar

/-- The value of a polynomial by its coefficients, the highest degree first. -/
def horner {R : Type} [Semiring R] (coefficients : List R) (x : R) : R :=
  coefficients.foldl (fun value c => value * x + c) 0

theorem horner_concat {R : Type} [Semiring R] (coefficients : List R) (c x : R) :
    horner (coefficients ++ [c]) x = horner coefficients x * x + c := by
  rw [horner, List.foldl_append]
  rfl

/-- A homomorphism takes values to values. -/
theorem map_horner {R S : Type} [Semiring R] [Semiring S] (f : R →+* S) (coefficients : List R)
    (x : R) : f (horner coefficients x) = horner (coefficients.map f) (f x) := by
  induction coefficients using List.reverseRecOn with
  | nil => exact map_zero f
  | append_singleton coefficients c ih =>
    rw [horner_concat, List.map_append, List.map_singleton, horner_concat, map_add, map_mul, ih]

theorem continuous_horner (coefficients : List ℝ) : Continuous (horner coefficients) := by
  induction coefficients using List.reverseRecOn with
  | nil => exact continuous_const
  | append_singleton coefficients c ih =>
    simp only [funext (horner_concat coefficients c)]
    exact (ih.mul continuous_id).add continuous_const

theorem horner_eq_zero {R : Type} [Semiring R] {coefficients : List R}
    (h : ∀ c ∈ coefficients, c = 0) (x : R) : horner coefficients x = 0 := by
  induction coefficients using List.reverseRecOn with
  | nil => rfl
  | append_singleton coefficients c ih =>
    have hrest := ih fun d hd => h d (List.mem_append_left _ hd)
    rw [horner_concat, hrest, zero_mul, zero_add,
      h c (List.mem_append_right _ (List.mem_singleton_self c))]

/-- A polynomial with a value other than zero has a coefficient other than zero. -/
theorem exists_ne_zero_of_horner {R : Type} [Semiring R] {coefficients : List R} {x : R}
    (h : horner coefficients x ≠ 0) : ∃ c ∈ coefficients, c ≠ 0 := by
  by_contra hzero
  push Not at hzero
  exact h (horner_eq_zero hzero x)

/-- The complex roots of a polynomial with real coefficients. -/
def IsRootOf (coefficients : List ℝ) (z : ℂ) : Prop :=
  horner (coefficients.map Complex.ofRealHom) z = 0

/-- The real ones among them. -/
theorem isRootOf_ofReal {coefficients : List ℝ} {x : ℝ} :
    IsRootOf coefficients x ↔ horner coefficients x = 0 := by
  have hmap := map_horner Complex.ofRealHom coefficients x
  rw [IsRootOf, ← Complex.ofRealHom_eq_coe, ← hmap, Complex.ofRealHom_eq_coe,
    Complex.ofReal_eq_zero]

/-- A root finder finds the roots of every polynomial other than zero, and nothing else. -/
def RootFinder.Exact (roots : RootFinder ℝ) : Prop :=
  ∀ coefficients, (∃ c ∈ coefficients, c ≠ 0) →
    ∃ found, roots coefficients = .ok found ∧
      ∀ z : ℂ, (⟨z.re, z.im⟩ : Root ℝ) ∈ found ↔ IsRootOf coefficients z

/-- The bounds of a polynomial exist and hold all its real roots. -/
theorem RootFinder.Exact.exists_realRootBounds {roots : RootFinder ℝ} (h : roots.Exact)
    {coefficients : List ℝ} (hne : ∃ c ∈ coefficients, c ≠ 0) {tolerance : ℝ}
    (htolerance : 0 < tolerance) :
    ∃ bounds, realRootBounds roots coefficients tolerance = .ok bounds ∧
      ∀ x, horner coefficients x = 0 → ∃ b, bounds = some b ∧ x ∈ b.ordinates := by
  obtain ⟨found, hfound, hroots⟩ := h coefficients hne
  unfold realRootBounds
  rw [hfound, ok_bind, pure_eq_ok]
  refine ⟨_, rfl, fun x hx => ?_⟩
  have hmem : (⟨x, 0⟩ : Root ℝ) ∈ found := (hroots x).mpr (isRootOf_ofReal.mpr hx)
  have hreal : x ∈ (found.filter fun root => magnitude root.im < tolerance).map (·.re) := by
    refine List.mem_map.mpr ⟨⟨x, 0⟩, List.mem_filter.mpr ⟨hmem, ?_⟩, rfl⟩
    rw [decide_eq_true_eq]
    change |(0 : ℝ)| < tolerance
    rwa [abs_zero]
  obtain ⟨b, hb⟩ := Interval.exists_hull? hreal
  exact ⟨b, hb, Interval.mem_of_hull? hb hreal⟩

/-- Both ends of the bounds of a polynomial are real parts of roots that count as real. -/
theorem RootFinder.Exact.exists_root_of_end {roots : RootFinder ℝ} (h : roots.Exact)
    {coefficients : List ℝ} (hne : ∃ c ∈ coefficients, c ≠ 0) {tolerance : ℝ} {b : Interval ℝ}
    (hb : realRootBounds roots coefficients tolerance = .ok (some b)) {y : ℝ}
    (hy : y = b.lower ∨ y = b.upper) :
    ∃ z : ℂ, IsRootOf coefficients z ∧ |z.im| < tolerance ∧ z.re = y := by
  obtain ⟨found, hfound, hroots⟩ := h coefficients hne
  unfold realRootBounds at hb
  rw [hfound, ok_bind, pure_eq_ok] at hb
  have hends := Interval.ends_mem_of_hull? (Except.ok.inj hb)
  have hmem : y ∈ (found.filter fun root => magnitude root.im < tolerance).map (·.re) := by
    rcases hy with rfl | rfl
    · exact hends.1
    · exact hends.2
  obtain ⟨root, hroot, rfl⟩ := List.mem_map.mp hmem
  obtain ⟨hroot, him⟩ := List.mem_filter.mp hroot
  exact ⟨⟨root.re, root.im⟩, (hroots _).mp hroot, of_decide_eq_true him, rfl⟩

/-- A root that counts as real may have a small imaginary part. -/
theorem rootTolerance_pos : 0 < (Constants.rootTolerance : ℝ) := by
  norm_num [Constants.rootTolerance]

/-- The polynomial of some coefficients, the highest degree first. -/
noncomputable def polynomialOf (coefficients : List ℂ) : Polynomial ℂ :=
  horner (coefficients.map Polynomial.C) Polynomial.X

/-- A polynomial with a coefficient other than zero is not zero. -/
theorem polynomialOf_ne_zero {coefficients : List ℂ} (h : ∃ c ∈ coefficients, c ≠ 0) :
    polynomialOf coefficients ≠ 0 := by
  unfold polynomialOf
  induction coefficients using List.reverseRecOn with
  | nil => simp at h
  | append_singleton coefficients c ih =>
    intro hzero
    rw [List.map_append, List.map_singleton, horner_concat] at hzero
    have hc : c = 0 := by simpa using congrArg (Polynomial.coeff · 0) hzero
    rw [hc, map_zero, add_zero, mul_eq_zero, or_iff_left Polynomial.X_ne_zero] at hzero
    obtain ⟨d, hd, hne⟩ := h
    rcases List.mem_append.mp hd with hd | hd
    · exact ih ⟨d, hd, hne⟩ hzero
    · exact hne ((List.mem_singleton.mp hd).trans hc)

/-- The polynomial takes the values. -/
theorem eval_polynomialOf (coefficients : List ℂ) (z : ℂ) :
    (polynomialOf coefficients).eval z = horner coefficients z := by
  have hmap := map_horner (Polynomial.evalRingHom z) (coefficients.map Polynomial.C) Polynomial.X
  have hconst : ⇑(Polynomial.evalRingHom z) ∘ Polynomial.C = id := by
    funext c
    exact Polynomial.eval_C
  rwa [List.map_map, hconst, List.map_id, Polynomial.coe_evalRingHom, Polynomial.eval_X] at hmap

/-- The roots that the fundamental theorem of algebra gives. -/
noncomputable def exactRoots : RootFinder ℝ := fun coefficients =>
  .ok ((polynomialOf (coefficients.map Complex.ofRealHom)).roots.toList.map fun z => ⟨z.re, z.im⟩)

theorem exact_exactRoots : RootFinder.Exact exactRoots := by
  intro coefficients hne
  refine ⟨_, rfl, fun z => ?_⟩
  have hpoly : polynomialOf (coefficients.map Complex.ofRealHom) ≠ 0 := by
    apply polynomialOf_ne_zero
    obtain ⟨c, hc, hc0⟩ := hne
    exact ⟨c, List.mem_map_of_mem hc, Complex.ofReal_ne_zero.mpr hc0⟩
  rw [IsRootOf, ← eval_polynomialOf, ← Polynomial.IsRoot.def, ← Polynomial.mem_roots hpoly,
    ← Multiset.mem_toList]
  constructor
  · intro h
    obtain ⟨w, hw, heq⟩ := List.mem_map.mp h
    obtain ⟨hre, him⟩ := Root.mk.inj heq
    rwa [← Complex.ext hre him]
  · intro h
    exact List.mem_map.mpr ⟨z, h, rfl⟩

end AdmissibleRegion
