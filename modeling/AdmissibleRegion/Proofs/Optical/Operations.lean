import AdmissibleRegion.Optical
import AdmissibleRegion.Proofs.Operations

/-!
# The operations of an optical grid

The coefficients of an optical measurement take three squares. The grid takes the floor of its
number of steps, and at every range four powers and a quotient by the distance from the centre;
its other divisors and the square of the greatest eccentricity are checked with the arguments.
-/

namespace AdmissibleRegion

variable {K : Type} [Scalar K]

open Scalar

namespace Optical

/-- The operations of the coefficients. -/
def measurementOperations (dec raRate decRate : K) : List (Operation K) :=
  [.power raRate 2, .power (cos dec) 2, .power decRate 2]

theorem performs_ofMeasurement (ra dec raRate decRate : K) (station : Station K) (mu : K) :
    Performs (measurementOperations dec raRate decRate)
      (ofMeasurement ra dec raRate decRate station mu) := by
  unfold ofMeasurement measurementOperations
  refine .nil_bind (Sightline.performs_of ra dec) fun sight _ => ?_
  exact .square_bind <| .square_bind <| .square_bind <| .of_ok _

/-- With finite angles, the coefficients exist unless a square is too large. -/
theorem ofMeasurement_cases {ra dec : K} (hra : isFinite ra = true) (hdec : isFinite dec = true)
    (raRate decRate : K) (station : Station K) (mu : K) :
    (∃ g, ofMeasurement ra dec raRate decRate station mu = .ok g) ∨
      ofMeasurement ra dec raRate decRate station mu = .error .powerOverflow := by
  unfold ofMeasurement Sightline.of
  simp only [angle, hra, hdec, Bool.true_or, if_true, ok_bind, pure_eq_ok]
  rcases square_cases raRate with h | h <;> rw [h]
  · rcases square_cases (cos dec) with h | h <;> rw [h]
    · rcases square_cases decRate with h | h <;> rw [h]
      · exact .inl ⟨_, rfl⟩
      · exact .inr rfl
    · exact .inr rfl
  · exact .inr rfl

/-- The operations of the energy at a range: its square and the quotient by the distance from the
centre. -/
def energyOperations (g : Optical K) (range : K) : List (Operation K) :=
  [.power range 2, .quotient (sqrt (power range 2 + g.w5 * range + g.w0))]

theorem performs_energyAt (g : Optical K) (range : K) :
    Performs (g.energyOperations range) (g.energyAt range) := by
  unfold energyAt energyOperations
  exact .square_bind <| .squareRoot_bind <| .divide_bind <| .of_ok _

/-- The operations at a range. -/
def sampleOperations (g : Optical K) (range : K) : List (Operation K) :=
  g.energyOperations range ++ [.power range 3, .power range 4, .power g.mu 2]

section Grid

variable {roots : RootFinder K} {emax : K} (g : Optical K)

theorem performs_eccentricityQuartic (hemax : (Operation.power emax 2).failure? = none)
    (range : K) : Performs (g.sampleOperations range) (g.eccentricityQuartic range emax) := by
  have hmem : ∀ op, op ∈ g.energyOperations range ++
      [.power range 2, .power range 4, .power range 3, .power g.mu 2] ↔
      op ∈ g.sampleOperations range := by
    grind [sampleOperations, energyOperations]
  refine .congr ?_ fun op _ _ => hmem op
  unfold eccentricityQuartic
  refine (g.performs_energyAt range).bind fun f _ => ?_
  refine .square_bind <| .raise_bind <| .raise_bind <| .square_bind ?_
  exact (Performs.cons_iff hemax).mp <| .square_bind <| .of_ok _

theorem performs_sampleAt (hroots : ∀ c, Performs [] (roots c))
    (hemax : (Operation.power emax 2).failure? = none) (leastEnergy greatestEnergy range : K) :
    Performs (g.sampleOperations range)
      (g.sampleAt roots leastEnergy greatestEnergy emax range) := by
  have hmem : ∀ op, op ∈ g.energyOperations range ++ g.sampleOperations range ↔
      op ∈ g.sampleOperations range := by
    grind [sampleOperations]
  refine .congr ?_ fun op _ _ => hmem op
  unfold sampleAt
  refine (g.performs_energyAt range).bind fun f _ => ?_
  refine (g.performs_eccentricityQuartic hemax range).bind_nil fun quartic _ => ?_
  exact .nil_bind (performs_realRootBounds hroots _ _) fun _ _ => .of_ok _

/-- The operations of the grid. -/
def gridOperations (g : Optical K) (step amax : K) : List (Operation K) :=
  .floor (2.0 * amax / step) ::
    (List.range (floor (2.0 * amax / step) + 1).toNat).flatMap fun k =>
      g.sampleOperations (ofNat k * step)

theorem performs_grid (hroots : ∀ c, Performs [] (roots c))
    (hemax : (Operation.power emax 2).failure? = none) {step amin amax : K}
    (hstep : isZero step = false) (hamin : isZero (2.0 * amin) = false)
    (hamax : isZero (2.0 * amax) = false) :
    Performs (g.gridOperations step amax) (g.grid roots step amin amax emax) := by
  unfold grid
  refine .divide_bind_of_isZero_eq_false hstep <| .floor?_bind ?_
  refine .divide_bind_of_isZero_eq_false hamin <| .divide_bind_of_isZero_eq_false hamax ?_
  exact .mapM fun k _ => g.performs_sampleAt hroots hemax _ _ _

end Grid

end Optical

end AdmissibleRegion
