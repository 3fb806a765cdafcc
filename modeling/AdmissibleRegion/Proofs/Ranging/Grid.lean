import AdmissibleRegion.Proofs.BoundaryTable.Ellipse
import AdmissibleRegion.Proofs.Ranging.Coefficients

/-!
# Samples at rates of the right ascension

If neither of the first coefficients of the energy vanishes, there are the half width, the
ellipses and their tables, and the grid has a sample at every step from one end to the other.
Every sample of a grid holds the bounds of the quartic at its abscissa.
-/

namespace AdmissibleRegion

open Scalar (square_eq two_literal divide_eq_ok squareRoot_eq_ok floor?_eq ofNat_eq_cast)

namespace Ranging

variable {g : Ranging ℝ} {roots : RootFinder ℝ} {step amin amax emax x : ℝ}

/-- What completing both squares leaves of the constant term of the energy, negated. -/
noncomputable def reducedTerm (g : Ranging ℝ) (shift : ℝ) : ℝ :=
  -(g.a33 + shift) + g.a13 ^ 2 / g.a11 + g.a23 ^ 2 / g.a22

/-- The greatest rate of the right ascension, of either sign. -/
noncomputable def extent (g : Ranging ℝ) : ℝ :=
  |g.a13 / g.a11| + √|g.reducedTerm 0 / g.a11|

section Coefficients

variable (h11 : g.a11 ≠ 0) (h22 : g.a22 ≠ 0)

include h11 h22

theorem reduced_eq_ok (shift : Option ℝ) :
    g.reduced shift = .ok (g.reducedTerm (shift.getD 0)) := by
  unfold reduced
  rw [square_eq, square_eq, ok_bind, divide_eq_ok _ h11, ok_bind, ok_bind, divide_eq_ok _ h22,
    ok_bind, pure_eq_ok, reducedTerm]
  cases shift with
  | none => rw [Option.getD_none, add_zero]
  | some s => rw [Option.getD_some]

theorem halfWidth_eq_ok : g.halfWidth = .ok g.extent := by
  unfold halfWidth
  rw [divide_eq_ok _ h11, ok_bind, reduced_eq_ok h11 h22, ok_bind, divide_eq_ok _ h11, ok_bind]
  change (Scalar.squareRoot |g.reducedTerm 0 / g.a11| >>= _) = _
  rw [squareRoot_eq_ok (abs_nonneg _), ok_bind]
  rfl

/-- Every semi-major axis other than zero has an ellipse. -/
theorem energyEllipse_eq_ok {a : ℝ} (ha : a ≠ 0) :
    g.energyEllipse a = .ok {
      centreX := -g.a13 / g.a11
      centreY := -g.a23 / g.a22
      semiX := √|g.reducedTerm (g.mu / a) / g.a11|
      semiY := √|g.reducedTerm (g.mu / a) / g.a22| } := by
  unfold energyEllipse
  rw [divide_eq_ok _ ha, ok_bind, reduced_eq_ok h11 h22, ok_bind, divide_eq_ok _ h11, ok_bind,
    divide_eq_ok _ h22, ok_bind, divide_eq_ok _ h11, ok_bind]
  change (Scalar.squareRoot |g.reducedTerm (g.mu / a) / g.a11| >>= _) = _
  rw [squareRoot_eq_ok (abs_nonneg _), ok_bind, divide_eq_ok _ h22, ok_bind]
  change (Scalar.squareRoot |g.reducedTerm (g.mu / a) / g.a22| >>= _) = _
  rw [squareRoot_eq_ok (abs_nonneg _), ok_bind]
  rfl

/-- The grid has a sample at every step from one end. -/
theorem exists_grid_eq_mapM (roots : RootFinder ℝ) (emax : ℝ) (hamin : amin ≠ 0)
    (hamax : amax ≠ 0) (hstep : step ≠ 0) :
    ∃ least greatest, g.grid roots step amin amax emax =
      (List.range (⌊2 * g.extent / step⌋ + 1).toNat).mapM fun k : ℕ =>
        g.sampleAt roots least greatest emax (k * step - g.extent) := by
  have hrows : 2 ≤ Constants.ellipseRows := by decide
  obtain ⟨least, hleast⟩ := Ellipse.exists_ofEllipse _ hrows
  obtain ⟨greatest, hgreatest⟩ := Ellipse.exists_ofEllipse _ hrows
  refine ⟨least, greatest, ?_⟩
  unfold grid
  rw [halfWidth_eq_ok h11 h22, ok_bind, divide_eq_ok _ hstep, ok_bind, floor?_eq, ok_bind,
    energyEllipse_eq_ok h11 h22 hamin, ok_bind, hleast, ok_bind,
    energyEllipse_eq_ok h11 h22 hamax, ok_bind, hgreatest, ok_bind]
  simp only [two_literal, ofNat_eq_cast]

end Coefficients

/-- A sample holds the bounds of both tables and of the quartic at its abscissa. -/
theorem exists_of_sampleAt {least greatest : BoundaryTable ℝ} {s : Sample ℝ}
    (h : g.sampleAt roots least greatest emax x = .ok s) :
    s.abscissa = x ∧ s.amin = uncrossed? (least.interpolate x) ∧
      s.amax = uncrossed? (greatest.interpolate x) ∧
      ∃ quartic, g.eccentricityQuartic x emax = .ok quartic ∧
        realRootBounds roots quartic Constants.rootTolerance = .ok s.emax := by
  obtain ⟨quartic, hquartic, h⟩ := exists_of_bind_eq_ok h
  obtain ⟨bounds, hbounds, h⟩ := exists_of_bind_eq_ok h
  obtain rfl := Except.ok.inj h
  exact ⟨rfl, rfl, rfl, quartic, hquartic, hbounds⟩

/-- Every sample of a grid is taken from the tables of both ellipses. -/
theorem exists_tables_of_mem_grid {samples : List (Sample ℝ)}
    (h : g.grid roots step amin amax emax = .ok samples) {s : Sample ℝ} (hs : s ∈ samples) :
    ∃ inner outer least greatest, g.energyEllipse amin = .ok inner ∧
      g.energyEllipse amax = .ok outer ∧
      BoundaryTable.ofEllipse inner Constants.ellipseRows = .ok least ∧
      BoundaryTable.ofEllipse outer Constants.ellipseRows = .ok greatest ∧
      g.sampleAt roots least greatest emax s.abscissa = .ok s := by
  unfold grid at h
  obtain ⟨halfWidth, _, h⟩ := exists_of_bind_eq_ok h
  obtain ⟨_, _, h⟩ := exists_of_bind_eq_ok h
  obtain ⟨last, _, h⟩ := exists_of_bind_eq_ok h
  obtain ⟨inner, hinner, h⟩ := exists_of_bind_eq_ok h
  obtain ⟨least, hleast, h⟩ := exists_of_bind_eq_ok h
  obtain ⟨outer, houter, h⟩ := exists_of_bind_eq_ok h
  obtain ⟨greatest, hgreatest, h⟩ := exists_of_bind_eq_ok h
  obtain ⟨k, _, hsample⟩ := exists_of_mem_mapM h hs
  obtain ⟨hx, _⟩ := exists_of_sampleAt hsample
  rw [← hx] at hsample
  exact ⟨inner, outer, least, greatest, hinner, houter, hleast, hgreatest, hsample⟩

/-- Every sample of a grid holds the bounds of the quartic at its abscissa. -/
theorem exists_of_mem_grid {samples : List (Sample ℝ)}
    (h : g.grid roots step amin amax emax = .ok samples) {s : Sample ℝ} (hs : s ∈ samples) :
    ∃ quartic, g.eccentricityQuartic s.abscissa emax = .ok quartic ∧
      realRootBounds roots quartic Constants.rootTolerance = .ok s.emax := by
  obtain ⟨_, _, _, _, _, _, _, _, hsample⟩ := exists_tables_of_mem_grid h hs
  exact (exists_of_sampleAt hsample).2.2.2

end Ranging

end AdmissibleRegion
