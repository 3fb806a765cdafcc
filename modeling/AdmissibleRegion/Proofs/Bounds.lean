import AdmissibleRegion.Proofs.Region.Arcs
import AdmissibleRegion.Sample

/-!
# Bounds at one abscissa

The bounds of an energy hold exactly the ordinates up to it, its ends are the only ones with
just that energy, and the bounds of a smaller energy lie strictly inside. The hull of some
numbers holds all of them, and ends at two of them.
-/

namespace AdmissibleRegion

open Scalar

/-- Completing the square: the distance from the vertex tells on which side of an energy an
ordinate is. -/
private theorem le_iff_sq_le {w1 f energy x : ℝ} :
    x ^ 2 + w1 * x + f ≤ 2 * energy ↔ (x + w1 / 2) ^ 2 ≤ w1 * w1 / 4 - f + 2 * energy := by
  constructor
  · intro h
    linarith
  · intro h
    linarith

/-- There are bounds unless the energy is below that of the vertex. -/
theorem energyBounds_eq_none_iff {w1 f energy : ℝ} :
    energyBounds w1 f energy = none ↔ w1 * w1 / 4 - f + 2 * energy < 0 := by
  unfold energyBounds
  simp only [zero_literal, two_literal, four_literal]
  by_cases hneg : w1 * w1 / 4 - f + 2 * energy < 0
  · simp [hneg]
  · simp [hneg]

/-- The bounds are equally far from the vertex. -/
theorem energyBounds_eq_some_iff {w1 f energy : ℝ} {b : Interval ℝ} :
    energyBounds w1 f energy = some b ↔ ∃ root, 0 ≤ root ∧
      root ^ 2 = w1 * w1 / 4 - f + 2 * energy ∧ b = ⟨-w1 / 2 - root, -w1 / 2 + root⟩ := by
  constructor
  · intro h
    have hnonneg : 0 ≤ w1 * w1 / 4 - f + 2 * energy := by
      by_contra hneg
      rw [energyBounds_eq_none_iff.mpr (not_le.mp hneg)] at h
      cases h
    unfold energyBounds at h
    simp only [zero_literal, two_literal, four_literal, if_neg hnonneg.not_gt] at h
    exact ⟨_, Real.sqrt_nonneg _, Real.sq_sqrt hnonneg, (Option.some.inj h).symm⟩
  · rintro ⟨root, hroot, hsq, rfl⟩
    have hnonneg : 0 ≤ w1 * w1 / 4 - f + 2 * energy := hsq ▸ sq_nonneg root
    have heq : √(w1 * w1 / 4 - f + 2 * energy) = root := by
      rw [← hsq, Real.sqrt_sq hroot]
    unfold energyBounds
    simp only [zero_literal, two_literal, four_literal, if_neg hnonneg.not_gt]
    change some (Interval.mk (-w1 / 2 - √(w1 * w1 / 4 - f + 2 * energy))
      (-w1 / 2 + √(w1 * w1 / 4 - f + 2 * energy))) = _
    rw [heq]

/-- The bounds of an energy are in order. -/
theorem lower_le_upper_of_energyBounds {w1 f energy : ℝ} {b : Interval ℝ}
    (h : energyBounds w1 f energy = some b) : b.lower ≤ b.upper := by
  obtain ⟨root, hroot, _, rfl⟩ := energyBounds_eq_some_iff.mp h
  change -w1 / 2 - root ≤ -w1 / 2 + root
  linarith

/-- The ordinates between the bounds are those up to the energy. -/
theorem mem_ordinates_iff_of_energyBounds {w1 f energy x : ℝ} {b : Interval ℝ}
    (h : energyBounds w1 f energy = some b) :
    x ∈ b.ordinates ↔ x ^ 2 + w1 * x + f ≤ 2 * energy := by
  obtain ⟨root, hroot, hsq, rfl⟩ := energyBounds_eq_some_iff.mp h
  rw [le_iff_sq_le, ← hsq, sq_le_sq, abs_of_nonneg hroot, abs_le]
  change -w1 / 2 - root ≤ x ∧ x ≤ -w1 / 2 + root ↔ _
  constructor
  · rintro ⟨hl, hu⟩
    constructor <;> linarith
  · rintro ⟨hl, hu⟩
    constructor <;> linarith

/-- The bounds are the only ordinates with just the energy. -/
theorem eq_iff_of_energyBounds {w1 f energy x : ℝ} {b : Interval ℝ}
    (h : energyBounds w1 f energy = some b) :
    x ^ 2 + w1 * x + f = 2 * energy ↔ x = b.lower ∨ x = b.upper := by
  obtain ⟨root, _, hsq, rfl⟩ := energyBounds_eq_some_iff.mp h
  have hsquare : x ^ 2 + w1 * x + f = 2 * energy ↔ (x + w1 / 2) ^ 2 = root ^ 2 := by
    constructor
    · intro h
      linarith
    · intro h
      linarith
  rw [hsquare, sq_eq_sq_iff_eq_or_eq_neg]
  change _ ↔ x = -w1 / 2 - root ∨ x = -w1 / 2 + root
  constructor
  · rintro (hx | hx)
    · right
      linarith
    · left
      linarith
  · rintro (rfl | rfl)
    · right
      ring
    · left
      ring

/-- The bounds of a smaller energy lie strictly inside those of a greater one. -/
theorem exists_energyBounds_around {w1 f least greatest : ℝ} {hole : Interval ℝ}
    (h : energyBounds w1 f least = some hole) (hlt : least < greatest) :
    ∃ outer, energyBounds w1 f greatest = some outer ∧
      outer.lower < hole.lower ∧ hole.upper < outer.upper := by
  obtain ⟨root, hroot, hsq, rfl⟩ := energyBounds_eq_some_iff.mp h
  have hless : root ^ 2 < w1 * w1 / 4 - f + 2 * greatest := by linarith
  have hnonneg := (sq_nonneg root).trans hless.le
  have hroots : root < √(w1 * w1 / 4 - f + 2 * greatest) := Real.lt_sqrt_of_sq_lt hless
  refine ⟨_, energyBounds_eq_some_iff.mpr
    ⟨_, Real.sqrt_nonneg _, Real.sq_sqrt hnonneg, rfl⟩, ?_, ?_⟩
  · exact sub_lt_sub_left hroots _
  · exact add_lt_add_right hroots _

/-- The bounds of an energy hold the ordinates up to it. -/
theorem mem_energyBounds_iff {w1 f energy x : ℝ} :
    (∃ b, energyBounds w1 f energy = some b ∧ x ∈ b.ordinates) ↔
      x ^ 2 + w1 * x + f ≤ 2 * energy := by
  constructor
  · rintro ⟨b, hb, hx⟩
    exact (mem_ordinates_iff_of_energyBounds hb).mp hx
  · intro h
    cases hb : energyBounds w1 f energy with
    | none =>
      have hneg := energyBounds_eq_none_iff.mp hb
      exact absurd ((le_iff_sq_le.mp h).trans_lt hneg) (sq_nonneg _).not_gt
    | some b => exact ⟨b, rfl, (mem_ordinates_iff_of_energyBounds hb).mpr h⟩

namespace Interval

/-- A fold of the smaller of two numbers is at most each of them. -/
theorem foldl_smaller_le (x : ℝ) (rest : List ℝ) : ∀ y ∈ x :: rest, rest.foldl smaller x ≤ y := by
  induction rest generalizing x with
  | nil => simp
  | cons z rest ih =>
    intro y hy
    rw [List.foldl_cons, smaller_eq_min]
    rcases List.mem_cons.mp hy with rfl | hy
    · exact (ih _ _ List.mem_cons_self).trans (min_le_left _ _)
    rcases List.mem_cons.mp hy with rfl | hy
    · exact (ih _ _ List.mem_cons_self).trans (min_le_right _ _)
    · exact ih _ y (List.mem_cons_of_mem _ hy)

/-- A fold of the larger of two numbers is at least each of them. -/
theorem le_foldl_larger (x : ℝ) (rest : List ℝ) : ∀ y ∈ x :: rest, y ≤ rest.foldl larger x := by
  induction rest generalizing x with
  | nil => simp
  | cons z rest ih =>
    intro y hy
    rw [List.foldl_cons, larger_eq_max]
    rcases List.mem_cons.mp hy with rfl | hy
    · exact (le_max_left _ _).trans (ih _ _ List.mem_cons_self)
    rcases List.mem_cons.mp hy with rfl | hy
    · exact (le_max_right _ _).trans (ih _ _ List.mem_cons_self)
    · exact ih _ y (List.mem_cons_of_mem _ hy)

/-- A fold that keeps one of two numbers ends at one of them all. -/
theorem foldl_mem_cons {keep : ℝ → ℝ → ℝ} (hkeep : ∀ a b, keep a b = a ∨ keep a b = b) (x : ℝ)
    (rest : List ℝ) : rest.foldl keep x ∈ x :: rest := by
  induction rest generalizing x with
  | nil => exact List.mem_singleton_self x
  | cons y rest ih =>
    rw [List.foldl_cons]
    rcases List.mem_cons.mp (ih (keep x y)) with hfirst | hlater
    · rw [hfirst]
      rcases hkeep x y with hx | hy
      · rw [hx]
        exact List.mem_cons_self
      · rw [hy]
        exact List.mem_cons_of_mem _ List.mem_cons_self
    · exact List.mem_cons_of_mem _ (List.mem_cons_of_mem _ hlater)

/-- Both ends of a hull are among the numbers. -/
theorem ends_mem_of_hull? {xs : List ℝ} {b : Interval ℝ} (h : hull? xs = some b) :
    b.lower ∈ xs ∧ b.upper ∈ xs := by
  cases xs with
  | nil => cases h
  | cons x rest =>
    obtain rfl := Option.some.inj h
    constructor
    · exact foldl_mem_cons (fun a b => (ite_eq_or_eq (b < a) b a).symm) x rest
    · exact foldl_mem_cons (fun a b => (ite_eq_or_eq (a < b) b a).symm) x rest

/-- The hull of some numbers holds all of them. -/
theorem mem_of_hull? {xs : List ℝ} {b : Interval ℝ} (h : hull? xs = some b) {y : ℝ}
    (hy : y ∈ xs) : y ∈ b.ordinates := by
  cases xs with
  | nil => cases hy
  | cons x rest =>
    obtain rfl := Option.some.inj h
    exact ⟨foldl_smaller_le x rest y hy, le_foldl_larger x rest y hy⟩

/-- Any number has a hull. -/
theorem exists_hull? {xs : List ℝ} {y : ℝ} (hy : y ∈ xs) : ∃ b, hull? xs = some b := by
  cases xs with
  | nil => cases hy
  | cons x rest => exact ⟨_, rfl⟩

end Interval

end AdmissibleRegion
