import Mathlib

/-!
# Combinations of exponentials

A combination of exponentials with as many zeros as rates vanishes altogether: divided by one
of the exponentials and differentiated it has one rate less and, by Rolle's theorem, at most
one zero less.
-/

namespace AdmissibleRegion

/-- Between any two zeros of a function lies one of its derivative, so that the derivative has
at most one zero less. -/
theorem exists_zeros_deriv {f f' : ℝ → ℝ} (hf : ∀ x, HasDerivAt f (f' x) x) {zeros : Finset ℝ}
    (hzero : ∀ x ∈ zeros, f x = 0) :
    ∃ between : Finset ℝ, zeros.card ≤ between.card + 1 ∧ ∀ x ∈ between, f' x = 0 := by
  have hrolle : ∀ p ∈ zeros ×ˢ zeros, p.1 < p.2 → ∃ c ∈ Set.Ioo p.1 p.2, f' c = 0 := by
    intro p hp hlt
    obtain ⟨hx, hy⟩ := Finset.mem_product.mp hp
    exact exists_hasDerivAt_eq_zero hlt (fun x _ => (hf x).continuousAt.continuousWithinAt)
      ((hzero _ hx).trans (hzero _ hy).symm) fun x _ => hf x
  choose! c hc hderiv using hrolle
  refine ⟨((zeros ×ˢ zeros).filter fun p => p.1 < p.2).image c, ?_, fun x hx => ?_⟩
  · apply Finset.card_le_of_interleaved
    intro x hx y hy hlt _
    have hmem : (x, y) ∈ zeros ×ˢ zeros := Finset.mem_product.mpr ⟨hx, hy⟩
    have hbetween := hc (x, y) hmem hlt
    refine ⟨c (x, y), Finset.mem_image_of_mem c ?_, hbetween.1, hbetween.2⟩
    exact Finset.mem_filter.mpr ⟨hmem, hlt⟩
  · obtain ⟨p, hp, rfl⟩ := Finset.mem_image.mp hx
    obtain ⟨hmem, hlt⟩ := Finset.mem_filter.mp hp
    exact hderiv p hmem hlt

section Rates

variable {ι : Type} {rates : Finset ι} {rate coefficient : ι → ℝ} {zeros : Finset ℝ}

/-- A common factor can be taken out of all exponentials. -/
theorem sum_exp_eq (rates : Finset ι) (rate coefficient : ι → ℝ) (b x : ℝ) :
    ∑ i ∈ rates, coefficient i * Real.exp (rate i * x) =
      (∑ i ∈ rates, coefficient i * Real.exp ((rate i - b) * x)) * Real.exp (b * x) := by
  rw [Finset.sum_mul]
  refine Finset.sum_congr rfl fun i _ => ?_
  rw [mul_assoc, ← Real.exp_add, ← add_mul, sub_add_cancel]

/-- What is added to a constant keeps its derivative: every coefficient is multiplied by its
rate. -/
theorem hasDerivAt_const_add_sum_exp (rates : Finset ι) (rate coefficient : ι → ℝ) (c x : ℝ) :
    HasDerivAt (fun y => c + ∑ i ∈ rates, coefficient i * Real.exp (rate i * y))
      (∑ i ∈ rates, coefficient i * rate i * Real.exp (rate i * x)) x := by
  refine HasDerivAt.const_add c (HasDerivAt.fun_sum fun i _ => ?_)
  have hexp := ((hasDerivAt_const_mul (rate i) (x := x)).exp).const_mul (coefficient i)
  rwa [mul_comm (Real.exp _), ← mul_assoc] at hexp

/-- A combination of exponentials with different rates vanishes if it has as many zeros as
rates. -/
theorem eq_zero_of_sum_exp (hrate : Set.InjOn rate rates) (hcard : rates.card ≤ zeros.card)
    (hzero : ∀ x ∈ zeros, ∑ i ∈ rates, coefficient i * Real.exp (rate i * x) = 0) :
    ∀ i ∈ rates, coefficient i = 0 := by
  classical
  induction rates using Finset.induction_on generalizing coefficient zeros with
  | empty => simp
  | insert j rates hj ih =>
    rw [Finset.coe_insert] at hrate
    rw [Finset.card_insert_of_notMem hj] at hcard
    -- divided by the exponential of `j`, the combination is constant but for the other rates
    have hquotient : ∀ x ∈ zeros, coefficient j +
        ∑ i ∈ rates, coefficient i * Real.exp ((rate i - rate j) * x) = 0 := by
      intro x hx
      have hsum := hzero x hx
      rw [sum_exp_eq _ _ _ (rate j), Finset.sum_insert hj, sub_self, zero_mul, Real.exp_zero,
        mul_one] at hsum
      exact (mul_eq_zero.mp hsum).resolve_right (Real.exp_ne_zero _)
    obtain ⟨between, hless, hbetween⟩ := exists_zeros_deriv
      (hasDerivAt_const_add_sum_exp rates (fun i => rate i - rate j) coefficient _) hquotient
    have hsmaller : rates.card ≤ between.card := by omega
    have hothers : ∀ i ∈ rates, coefficient i * (rate i - rate j) = 0 := by
      refine ih (hrate.mono (Set.subset_insert _ _)) hsmaller fun x hx => ?_
      rw [sum_exp_eq _ _ _ (rate j), hbetween x hx, zero_mul]
    have hrest : ∀ i ∈ rates, coefficient i = 0 := by
      intro i hi
      have hne : rate i ≠ rate j := fun heq =>
        hj (hrate (Set.mem_insert_of_mem _ hi) (Set.mem_insert _ _) heq ▸ hi)
      exact (mul_eq_zero.mp (hothers i hi)).resolve_right (sub_ne_zero.mpr hne)
    have hpos : 0 < zeros.card := by omega
    obtain ⟨x, hx⟩ := Finset.card_pos.mp hpos
    have hfirst := hquotient x hx
    rw [Finset.sum_eq_zero fun i hi => by rw [hrest i hi, zero_mul], add_zero] at hfirst
    intro i hi
    rcases Finset.mem_insert.mp hi with rfl | hi
    · exact hfirst
    · exact hrest i hi

end Rates

end AdmissibleRegion
