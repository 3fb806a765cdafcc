import AdmissibleRegion.Scalar

/-!
# Ordinate bounds at one abscissa

A sample holds what each of the three constraints allows at one value of the abscissa: an
interval of ordinates, or nothing where the constraint has no bound there.

The bound of the eccentricity comes from the roots of a polynomial, which is given by its
coefficients, the highest degree first. What finds the roots is a parameter of every
computation that needs them.
-/

namespace AdmissibleRegion

/-- A complex root by its two parts. -/
structure Root (K : Type) where
  /-- The real part. -/
  re : K
  /-- The imaginary part. -/
  im : K
  deriving Repr

/-- What finds the complex roots of a polynomial, or says why it cannot. -/
abbrev RootFinder (K : Type) := List K → Except (Fault K) (List (Root K))

/-- An interval of ordinates by its two ends, which need not be in order. -/
structure Interval (K : Type) where
  /-- The lower end. -/
  lower : K
  /-- The upper end. -/
  upper : K
  deriving Repr

/-- The bounds at one value of the abscissa. -/
structure Sample (K : Type) where
  /-- The value of the abscissa. -/
  abscissa : K
  /-- The ordinates with at most the least semi-major axis. -/
  amin : Option (Interval K)
  /-- The ordinates with at most the greatest semi-major axis. -/
  amax : Option (Interval K)
  /-- The least interval around the ordinates with at most the greatest eccentricity. -/
  emax : Option (Interval K)
  deriving Repr

variable {K : Type} [Scalar K]

open Scalar

/-- The ends of the interval of the ordinates `x` with `x ^ 2 + w1 * x + f ≤ 2 * energy`, if
there are any. -/
def energyBounds (w1 f energy : K) : Option (Interval K) :=
  let discriminant := w1 * w1 / 4.0 - f + 2.0 * energy
  if discriminant < 0.0 then none
  else
    let root := sqrt discriminant
    some ⟨-w1 / 2.0 - root, -w1 / 2.0 + root⟩

/-- The least interval around some numbers, if there are any. -/
def Interval.hull? : List K → Option (Interval K)
  | [] => none
  | x :: rest => some ⟨rest.foldl smaller x, rest.foldl larger x⟩

/-- The least interval around the real roots of a polynomial; a root counts as real when its
imaginary part is below `tolerance`. -/
def realRootBounds (roots : RootFinder K) (coefficients : List K) (tolerance : K) :
    Except (Fault K) (Option (Interval K)) := do
  let found ← roots coefficients
  return Interval.hull? ((found.filter fun root => magnitude root.im < tolerance).map (·.re))

/-- Whether some sample is bounded in eccentricity and in semi-major axis. -/
def anyAdmissible (samples : List (Sample K)) : Bool :=
  samples.any fun s => s.emax.isSome && (s.amax.isSome || s.amin.isSome)

end AdmissibleRegion
