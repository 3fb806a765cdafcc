import AdmissibleRegion.Fault

/-!
# The numbers a region is computed with

Every computation of the library is written once, over any type of numbers that has the
operations of this class. It runs on binary64 numbers; over exact numbers the same
definitions are the mathematics they stand for. Comparisons may all be false, as they are
for what is not a number, so no law is asked for here.

A checked operation fails where its value would not be a number, or where a power of a finite
number would be infinite; over exact numbers only a zero divisor and a negative radicand
remain. An index into a list of numbers that is not negative counts from the start of the
list, a negative one from its end.
-/

namespace AdmissibleRegion

/-- The operations of a type of numbers: arithmetic, order, decimal literals, the elementary
functions of spherical astronomy and of normal densities, and the tests that tell apart the
values binary64 arithmetic adds to the real numbers. -/
class Scalar (K : Type) extends Add K, Sub K, Mul K, Div K, Neg K, LT K, LE K, OfScientific K where
  /-- The order is decidable. -/
  decLt : DecidableLT K
  /-- The weak order is decidable. -/
  decLe : DecidableLE K
  /-- The number nearest to an integer. -/
  ofInt : Int → K
  /-- The largest integer at most a finite number. -/
  floor : K → Int
  /-- The absolute value. -/
  magnitude : K → K
  /-- The square root. -/
  sqrt : K → K
  /-- The sine of an angle in radians. -/
  sin : K → K
  /-- The cosine of an angle in radians. -/
  cos : K → K
  /-- The exponential function. -/
  exp : K → K
  /-- Half the circumference of the unit circle. -/
  pi : K
  /-- Whether a number is zero, of either sign. -/
  isZero : K → Bool
  /-- Whether a number is neither infinite nor undefined. -/
  isFinite : K → Bool
  /-- Whether a number is undefined. -/
  isNaN : K → Bool

-- A type with operations of its own keeps them: those of this class are tried last.
attribute [reducible, instance (100)] Scalar.decLt Scalar.decLe
attribute [instance (100)] Scalar.toAdd Scalar.toSub Scalar.toMul Scalar.toDiv Scalar.toNeg
  Scalar.toLT Scalar.toLE Scalar.toOfScientific

namespace Scalar

variable {K : Type} [Scalar K]

/-- A natural number as a scalar. -/
def ofNat (n : Nat) : K := ofInt n

/-- The second of two numbers if it is greater, else the first. -/
def larger (a b : K) : K := if a < b then b else a

/-- The second of two numbers if it is less, else the first. -/
def smaller (a b : K) : K := if b < a then b else a

/-- The sum of a list, from the left. -/
def sum (xs : List K) : K := xs.foldl (· + ·) (ofInt 0)

/-- The scalar product of two lists, from the left. -/
def dot (xs ys : List K) : K := sum (List.zipWith (· * ·) xs ys)

/-- The power of a number, by repeated multiplication from the left. -/
def power (x : K) : Nat → K
  | 0 => ofInt 1
  | 1 => x
  | n + 2 => power x (n + 1) * x

/-- An angle in degrees, in radians. -/
def radians (degrees : K) : K := degrees * (pi / 180.0)

/-! ## Checked operations -/

/-- The quotient by a number other than zero. -/
def divide (a b : K) : Except (Fault K) K :=
  if isZero b then .error .divisionByZero else .ok (a / b)

/-- A power that is finite unless the number itself is not. -/
def raise (x : K) (n : Nat) : Except (Fault K) K :=
  let y := power x n
  if isFinite x && !isFinite y && !isNaN y then .error .powerOverflow else .ok y

/-- The square of a number. -/
def square (x : K) : Except (Fault K) K := raise x 2

/-- The square root of a number that is not negative. -/
def squareRoot (x : K) : Except (Fault K) K :=
  if x < 0.0 then .error .outsideDomain else .ok (sqrt x)

/-- Passes on an angle that is not infinite. -/
def angle (x : K) : Except (Fault K) K :=
  if isFinite x || isNaN x then .ok x else .error .outsideDomain

/-- The largest integer at most a number. -/
def floor? (x : K) : Except (Fault K) Int :=
  if isNaN x then .error .floorOfNaN
  else if isFinite x then .ok (floor x)
  else .error .floorOfInfinity

end Scalar

/-! ## Places in a list -/

namespace Index

/-- The place that an index means among `size` items, if it means one. -/
def place? (index : Int) (size : Nat) : Option Nat :=
  let place := if index < 0 then index + size else index
  if 0 ≤ place ∧ place < size then some place.toNat else none

/-- A place is that of an item. -/
theorem lt_of_place? {index : Int} {size place : Nat} (h : place? index size = some place) :
    place < size := by
  simp only [place?] at h
  split at h <;> grind

/-- Indices from the start are their own places. -/
theorem place?_ofNat {place size : Nat} (h : place < size) :
    place? place size = some place := by
  grind [place?]

/-- Minus one is the index of the last item, minus two that of the one before, and so on. -/
theorem place?_sub {place size : Nat} (h : place < size) :
    place? (place - size) size = some place := by
  grind [place?]

end Index

end AdmissibleRegion
