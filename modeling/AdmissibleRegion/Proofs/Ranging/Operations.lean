import AdmissibleRegion.Proofs.Operations
import AdmissibleRegion.Ranging

/-!
# The operations of a ranging grid

The coefficients of a ranging measurement take three squares and a quotient by the distance from
the centre. The ends of the grid and the ellipses of both axes take two more squares and quotients
by the coefficients of the squared rates. The grid takes the floor of its number of steps, and
four powers at every rate.
-/

namespace AdmissibleRegion

variable {K : Type} [Scalar K]

open Scalar

theorem BoundaryTable.performs_ofEllipse (ellipse : Ellipse K) (rows : ℤ) :
    Performs [] (ofEllipse ellipse rows) := by
  unfold ofEllipse ofRows
  split
  · exact .of_ok _
  · exact .of_refusal rfl

namespace Ranging

/-- The operations of the coefficients. -/
def measurementOperations (ra dec range rangeRate : K) (station : Station K) :
    List (Operation K) :=
  Operation.following (Sightline.of ra dec) fun sight =>
    let w0 := station.position.squaredNorm
    let w5 := 2.0 * station.position.dot sight.direction
    [.power range 2, .power (cos dec) 2, .power rangeRate 2,
      .quotient (sqrt (power range 2 + w5 * range + w0))]

theorem performs_ofMeasurement (ra dec range rangeRate : K) (station : Station K) (mu : K) :
    Performs (measurementOperations ra dec range rangeRate station)
      (ofMeasurement ra dec range rangeRate station mu) := by
  unfold ofMeasurement measurementOperations
  refine .bind_following (s := []) (Sightline.performs_of ra dec) fun sight _ => ?_
  refine .square_bind <| .square_bind <| .square_bind ?_
  exact .squareRoot_bind <| .divide_bind <| .of_ok _

/-- The operations that complete both squares of the energy. -/
def reducedOperations (g : Ranging K) : List (Operation K) :=
  [.power g.a13 2, .quotient g.a11, .power g.a23 2, .quotient g.a22]

section Grid

variable {roots : RootFinder K} {emax : K} (g : Ranging K)

theorem performs_reduced (shift : Option K) :
    Performs g.reducedOperations (g.reduced shift) := by
  unfold reduced reducedOperations
  exact .square_bind <| .divide_bind <| .square_bind <| .divide_bind <| .of_ok _

theorem performs_halfWidth : Performs g.reducedOperations g.halfWidth := by
  have hmem : ∀ op, op ∈ .quotient g.a11 :: (g.reducedOperations ++ [.quotient g.a11]) ↔
      op ∈ g.reducedOperations := by
    grind [reducedOperations]
  refine .congr ?_ fun op _ _ => hmem op
  unfold halfWidth
  refine .divide_bind <| (g.performs_reduced none).bind fun reduced _ => ?_
  exact .divide_bind <| .squareRoot_bind <| .of_ok _

theorem performs_energyEllipse {semiMajorAxis : K} (h : isZero semiMajorAxis = false) :
    Performs g.reducedOperations (g.energyEllipse semiMajorAxis) := by
  have hmem : ∀ op, op ∈ g.reducedOperations ++
      [.quotient g.a11, .quotient g.a22, .quotient g.a11, .quotient g.a22] ↔
      op ∈ g.reducedOperations := by
    grind [reducedOperations]
  refine .congr ?_ fun op _ _ => hmem op
  unfold energyEllipse
  refine .divide_bind_of_isZero_eq_false h <| (g.performs_reduced _).bind fun reduced _ => ?_
  refine .divide_bind <| .divide_bind <| .divide_bind <| .squareRoot_bind ?_
  exact .divide_bind <| .squareRoot_bind <| .of_ok _

/-- The operations at a rate of right ascension. -/
def sampleOperations (g : Ranging K) (raRate : K) : List (Operation K) :=
  [.power raRate 2, .power raRate 3, .power raRate 4, .power g.mu 2]

theorem performs_eccentricityQuartic (hemax : (Operation.power emax 2).failure? = none)
    (raRate : K) : Performs (g.sampleOperations raRate) (g.eccentricityQuartic raRate emax) := by
  unfold eccentricityQuartic sampleOperations
  refine .square_bind <| .raise_bind <| .raise_bind <| .square_bind ?_
  exact (Performs.cons_iff hemax).mp <| .square_bind <| .of_ok _

theorem performs_sampleAt (hroots : ∀ c, Performs [] (roots c))
    (hemax : (Operation.power emax 2).failure? = none) (least greatest : BoundaryTable K)
    (raRate : K) :
    Performs (g.sampleOperations raRate) (g.sampleAt roots least greatest emax raRate) := by
  unfold sampleAt
  refine (g.performs_eccentricityQuartic hemax raRate).bind_nil fun quartic _ => ?_
  exact .nil_bind (performs_realRootBounds hroots _ _) fun _ _ => .of_ok _

/-- The operations of the grid. -/
def gridOperations (g : Ranging K) (step : K) : List (Operation K) :=
  g.reducedOperations ++ Operation.following g.halfWidth fun halfWidth =>
    .floor (2.0 * halfWidth / step) ::
      (List.range (floor (2.0 * halfWidth / step) + 1).toNat).flatMap fun k =>
        g.sampleOperations (ofNat k * step - halfWidth)

theorem performs_grid (hroots : ∀ c, Performs [] (roots c))
    (hemax : (Operation.power emax 2).failure? = none) {step amin amax : K}
    (hstep : isZero step = false) (hamin : isZero amin = false) (hamax : isZero amax = false) :
    Performs (g.gridOperations step) (g.grid roots step amin amax emax) := by
  have hmem : ∀ op, op ∈ g.reducedOperations ++ Operation.following g.halfWidth (fun halfWidth =>
      .floor (2.0 * halfWidth / step) :: (g.reducedOperations ++ (g.reducedOperations ++
        (List.range (floor (2.0 * halfWidth / step) + 1).toNat).flatMap fun k =>
          g.sampleOperations (ofNat k * step - halfWidth)))) ↔ op ∈ g.gridOperations step := by
    unfold gridOperations
    cases g.halfWidth <;> grind [Operation.following]
  refine .congr ?_ fun op _ _ => hmem op
  unfold grid
  refine g.performs_halfWidth.bind_following fun halfWidth _ => ?_
  refine .divide_bind_of_isZero_eq_false hstep <| .floor?_bind ?_
  refine (g.performs_energyEllipse hamin).bind fun small _ => ?_
  refine .nil_bind (BoundaryTable.performs_ofEllipse small _) fun least _ => ?_
  refine (g.performs_energyEllipse hamax).bind fun large _ => ?_
  refine .nil_bind (BoundaryTable.performs_ofEllipse large _) fun greatest _ => ?_
  exact .mapM fun k _ => g.performs_sampleAt hroots hemax least greatest _

end Grid

end Ranging

end AdmissibleRegion
