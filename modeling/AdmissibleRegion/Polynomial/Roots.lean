import AdmissibleRegion.Polynomial.Companion
import AdmissibleRegion.Sample

/-!
# Roots of a polynomial with binary64 coefficients

Leading zeros are dropped, and every trailing zero is a root at zero. The rest is divided by
its first coefficient, and its roots are the eigenvalues of the companion of the quotients, in
which all entries below the line next to the diagonal are zero.

Where an entry of that line is negligible the matrix splits, and blocks of one or two rows give
eigenvalues. Until then the last block is swept: a reflection chosen by two shifts puts a bulge
below the line at its top, and further reflections drive the bulge out at its bottom, which
makes entries of the line ever smaller. A reflection is applied to three neighbouring rows and to
the columns of the same indices, so that the eigenvalues stay. The two eigenvalues of a block of
two rows are real or conjugate; when the discriminant does not stand out from rounding, the block
is turned first until its two diagonal entries are equal, and the signs of the other two entries
decide.
-/

namespace AdmissibleRegion.Polynomial

/-! ## Two rows -/

/-- The distance between one and the next greater number. -/
def unitStep : Float := 2.220446049250313e-16

/-- A number with the sign of another one, plus for zero. -/
def withSign (x y : Float) : Float := if y < 0 then -x.abs else x.abs

/-- Two real roots. -/
def realPair (x y : Float) : List (Root Float) := [⟨x, 0⟩, ⟨y, 0⟩]

/-- The roots with a real part and the imaginary parts of a size, of either sign. -/
def conjugatePair (re size : Float) : List (Root Float) := [⟨re, size⟩, ⟨re, -size⟩]

/-- The eigenvalues of the matrix whose diagonal entries are equal; `b` and `c` are the others. -/
def levelPair (diagonal b c : Float) : List (Root Float) :=
  let size := b.abs.sqrt * c.abs.sqrt
  if b == 0 || c == 0 then realPair diagonal diagonal
  else if (b < 0) = (c < 0) then realPair (diagonal + withSign size c) (diagonal - withSign size c)
  else conjugatePair diagonal size

/-- The eigenvalues of the matrix with the rows `(a, b)` and `(c, d)`, turned until its diagonal
entries are equal. -/
def turnedPair (a b c d : Float) : List (Root Float) :=
  let sum := b + c
  let tau := vectorLength [sum, a - d]
  let cosine := (0.5 * (1 + sum.abs / tau)).sqrt
  let sine := -(0.5 * (a - d) / (tau * cosine)) * withSign 1 sum
  let aa := a * cosine + b * sine
  let bb := -a * sine + b * cosine
  let cc := c * cosine + d * sine
  let dd := -c * sine + d * cosine
  levelPair (0.5 * ((aa * cosine + cc * sine) + (-bb * sine + dd * cosine)))
    (bb * cosine + dd * sine) (-aa * sine + cc * cosine)

/-- The eigenvalues of the matrix with the rows `(a, b)` and `(c, d)`. -/
def eigenvaluePair (a b c d : Float) : List (Root Float) :=
  if b == 0 || c == 0 then realPair a d
  else if a == d && (b < 0) != (c < 0) then levelPair a b c
  else
    let half := 0.5 * (a - d)
    let more := max b.abs c.abs
    let less := min b.abs c.abs * withSign 1 b * withSign 1 c
    let scale := max half.abs more
    let discriminant := half / scale * half + more / scale * less
    if 4 * unitStep ≤ discriminant then
      let z := half + withSign (scale.sqrt * discriminant.sqrt) half
      realPair (d + z) (d - more / z * less)
    else turnedPair a b c d

/-! ## Reflections of three rows -/

/-- The reflection along a vector `(1, second, third)`. -/
structure Reflection where
  /-- What the first entry of the given vector becomes. -/
  image : Float
  /-- Two over the squared length of the vector, or zero for no reflection. -/
  weight : Float
  /-- The second entry of the vector. -/
  second : Float
  /-- The third entry of the vector. -/
  third : Float

namespace Reflection

/-- The reflection that leaves nothing of the second and third entries of a vector that is not
very short. -/
def ofProper (x y z : Float) : Reflection :=
  let rest := vectorLength [y, z]
  if rest == 0 then ⟨x, 0, y, z⟩
  else
    let image := -withSign (vectorLength [x, rest]) x
    let scale := 1 / (x - image)
    ⟨image, (image - x) / image, y * scale, z * scale⟩

/-- The reflection that leaves nothing of the second and third entries of a vector. -/
def ofVector (x y z : Float) : Reflection :=
  let r := ofProper x y z
  if r.image.abs < Float.scaleB 1 (-969) then
    let large (t : Float) : Float := t.scaleB 969
    let r := ofProper (large x) (large y) (large z)
    { r with image := r.image.scaleB (-969) }
  else r

/-- Reflects in one column the rows from `k` on, `rows` of them, two or three. -/
def onColumn (r : Reflection) (rows k j : Nat) (a : Square) : Square :=
  let along := a.get k j + r.second * a.get (k + 1) j
    + (if rows = 3 then r.third * a.get (k + 2) j else 0)
  let a := a.set k j (a.get k j - along * r.weight)
  let a := a.set (k + 1) j (a.get (k + 1) j - along * (r.weight * r.second))
  if rows = 3 then a.set (k + 2) j (a.get (k + 2) j - along * (r.weight * r.third)) else a

/-- Reflects in one row the columns from `k` on, `columns` of them, two or three. -/
def onRow (r : Reflection) (columns k i : Nat) (a : Square) : Square :=
  let along := a.get i k + r.second * a.get i (k + 1)
    + (if columns = 3 then r.third * a.get i (k + 2) else 0)
  let a := a.set i k (a.get i k - along * r.weight)
  let a := a.set i (k + 1) (a.get i (k + 1) - along * (r.weight * r.second))
  if columns = 3 then a.set i (k + 2) (a.get i (k + 2) - along * (r.weight * r.third)) else a

end Reflection

/-! ## Sweeps -/

/-- The least positive number of full precision. -/
def leastNormal : Float := Float.scaleB 1 (-1022)

/-- A shift by the matrix with the rows `(h11, h12)` and `(h21, h22)`: one of its conjugate
eigenvalues, or the real one that is nearer to `h22`. -/
def shiftOf (h11 h12 h21 h22 : Float) : Root Float :=
  let s := h11.abs + h12.abs + h21.abs + h22.abs
  if s == 0 then ⟨0, 0⟩
  else
    let corner := h22 / s
    let mean := (h11 / s + corner) / 2
    let det := (h11 / s - mean) * (corner - mean) - h12 / s * (h21 / s)
    let root := det.abs.sqrt
    let nearer :=
      if (mean + root - corner).abs ≤ (mean - root - corner).abs then mean + root
      else mean - root
    if 0 ≤ det then ⟨mean * s, root * s⟩ else ⟨nearer * s, 0⟩

namespace Square

/-- The size below which an entry next to the diagonal is negligible whatever its neighbours. -/
def tiny (a : Square) : Float := leastNormal * (a.size.toFloat / unitStep)

/-- Whether the entry below the diagonal in row `k` is negligible, for `0 < k`. -/
def isSplit (a : Square) (k : Nat) : Bool :=
  let below := (a.get k (k - 1)).abs
  let beside := (a.get (k - 1) k).abs
  let here := a.get k k
  let before := a.get (k - 1) (k - 1)
  let size :=
    if before == 0 && here == 0 then
      (if 2 ≤ k then (a.get (k - 1) (k - 2)).abs else 0)
        + (if k + 1 < a.size then (a.get (k + 1) k).abs else 0)
    else before.abs + here.abs
  let more := max here.abs (before - here).abs
  let less := min here.abs (before - here).abs
  let sum := more + max below beside
  below ≤ a.tiny ||
    below ≤ unitStep * size &&
      min below beside * (max below beside / sum) ≤ max a.tiny (unitStep * (less * (more / sum)))

/-- The first row of the block that ends with a row. -/
def blockStart (a : Square) : Nat → Nat
  | 0 => 0
  | k + 1 => if a.isSplit (k + 1) then k + 1 else a.blockStart k

/-- The shift for a sweep of the block from `first` to `last`; every tenth sweep takes one that
has little to do with the eigenvalues, at the bottom and at the top of the block in turn. -/
def shift (a : Square) (first last sweeps : Nat) : Root Float :=
  let unusual (s corner : Float) : Root Float :=
    shiftOf (0.75 * s + corner) (-0.4375 * s) s (0.75 * s + corner)
  if sweeps % 20 = 0 then
    unusual ((a.get last (last - 1)).abs + (a.get (last - 1) (last - 2)).abs) (a.get last last)
  else if sweeps % 10 = 0 then
    unusual ((a.get (first + 1) first).abs + (a.get (first + 2) (first + 1)).abs)
      (a.get first first)
  else
    shiftOf (a.get (last - 1) (last - 1)) (a.get (last - 1) last) (a.get last (last - 1))
      (a.get last last)

/-- The vector, up to its length, of the reflection that begins a sweep in row `m`. -/
def opening (a : Square) (shift : Root Float) (m : Nat) : Float × Float × Float :=
  let h := a.get m m
  let s := (h - shift.re).abs + shift.im.abs + (a.get (m + 1) m).abs
  let below := a.get (m + 1) m / s
  let x := below * a.get m (m + 1) + (h - shift.re) * ((h - shift.re) / s)
    + shift.im * (shift.im / s)
  let y := below * (h + a.get (m + 1) (m + 1) - shift.re - shift.re)
  let z := below * a.get (m + 2) (m + 1)
  let size := x.abs + y.abs + z.abs
  (x / size, y / size, z / size)

/-- The lowest row, at most `m`, of the block from `first` in which a sweep can begin without
disturbing the row above. -/
def sweepStart (a : Square) (shift : Root Float) (first : Nat) : Nat → Nat
  | 0 => 0
  | m + 1 =>
    if m + 1 ≤ first then m + 1
    else
      let (x, y, z) := a.opening shift (m + 1)
      let size := (a.get m m).abs + (a.get (m + 1) (m + 1)).abs + (a.get (m + 2) (m + 2)).abs
      if (a.get (m + 1) m).abs * (y.abs + z.abs) ≤ unitStep * x.abs * size then m + 1
      else a.sweepStart shift first m

/-- The part of column `k - 1` on and below the line next to the diagonal, of `rows` rows. -/
def bulge (a : Square) (rows k : Nat) : Float × Float × Float :=
  (a.get k (k - 1), a.get (k + 1) (k - 1), if rows = 3 then a.get (k + 2) (k - 1) else 0)

/-- Clears the part of column `k - 1` below the line next to the diagonal, of `rows` rows. -/
def clear (a : Square) (rows k : Nat) (image : Float) : Square :=
  let a := (a.set k (k - 1) image).set (k + 1) (k - 1) 0
  if rows = 3 then a.set (k + 2) (k - 1) 0 else a

/-- Applies a reflection of `rows` rows from `k` on within the block from `first` to `last`, as
far as there are entries, to the columns from `k` on and to the rows. -/
def reflect (a : Square) (r : Reflection) (first last rows k : Nat) : Square :=
  let a := (last + 1 - k).fold (fun j _ a => r.onColumn rows k (k + j) a) a
  (min (k + 3) last + 1 - first).fold (fun i _ a => r.onRow rows k (first + i) a) a

/-- Begins a sweep of the block from `first` to `last` in row `m`. -/
def openSweep (a : Square) (shift : Root Float) (first last m : Nat) : Square :=
  let (x, y, z) := a.opening shift m
  let r := Reflection.ofVector x y z
  let a := if first < m then a.set m (m - 1) (a.get m (m - 1) * (1 - r.weight)) else a
  a.reflect r first last 3 m

/-- Drives the bulge of a sweep of the block from `first` to `last` one row down, to row `k`. -/
def driveBulge (a : Square) (first last k : Nat) : Square :=
  let rows := min 3 (last + 1 - k)
  let (x, y, z) := a.bulge rows k
  let r := Reflection.ofVector x y z
  (a.clear rows k r.image).reflect r first last rows k

/-- Sweeps the block from `first` to `last`, which has at least three rows. -/
def sweep (a : Square) (first last sweeps : Nat) : Square :=
  let shift := a.shift first last sweeps
  let m := a.sweepStart shift first (last - 2)
  (last - (m + 1)).fold (fun i _ a => a.driveBulge first last (m + 1 + i))
    (a.openSweep shift first last m)

/-- The eigenvalues of the leading rows up to `last`, after a number of sweeps of the last
block, in at most `fuel` sweeps; the diagonal stands for what they leave. -/
def eigenvaluesUpTo : Nat → Square → Nat → Nat → List (Root Float)
  | 0, a, last, _ => (List.range (last + 1)).map fun i => ⟨a.get i i, 0⟩
  | fuel + 1, a, last, sweeps =>
    let first := a.blockStart last
    let a := if first = 0 then a else a.set first (first - 1) 0
    if first + 1 < last then
      eigenvaluesUpTo fuel (a.sweep first last (sweeps + 1)) last (sweeps + 1)
    else
      let found :=
        if first = last then [⟨a.get last last, 0⟩]
        else eigenvaluePair (a.get first first) (a.get first last) (a.get last first)
          (a.get last last)
      found ++ if first = 0 then [] else eigenvaluesUpTo fuel a (first - 1) 0

/-- The eigenvalues of a matrix with one line below the diagonal. A matrix of very large or very
small entries is measured in other units meanwhile. -/
def eigenvalues (a : Square) : List (Root Float) :=
  let top := greatestSize a.entries.data.toList
  let least := Float.scaleB 1 (-459)
  let unit := if 0 < top && top < least then least else if 1 / least < top then 1 / least else top
  let inUnits := if unit == top then a else a.scaled (unit / top)
  let found :=
    if a.size = 0 then []
    else inUnits.balanced.eigenvaluesUpTo (a.size * (30 * max 10 a.size + 1)) (a.size - 1) 0
  if unit == top then found
  else found.map fun root => ⟨root.re * (top / unit), root.im * (top / unit)⟩

end Square

/-! ## Roots -/

/-- The roots of a polynomial whose first and last coefficients are not zero; a quotient that
is too small for a number counts as a trailing zero. -/
def properRoots (coefficients : List Float) : Except (Fault Float) (List (Root Float)) :=
  match coefficients with
  | [] | [_] => .ok []
  | lead :: rest =>
    let quotients := rest.map (· / lead)
    if quotients.all Float.isFinite then
      let lost := (quotients.reverse.takeWhile (· == 0)).length
      .ok ((companion (quotients.take (quotients.length - lost))).eigenvalues
        ++ List.replicate lost ⟨0, 0⟩)
    else .error .coefficientsNotFinite

/-- The complex roots of a polynomial with binary64 coefficients. -/
def binary64Roots : RootFinder Float := fun coefficients =>
  let trimmed := coefficients.dropWhile (· == 0)
  let zeros := (trimmed.reverse.takeWhile (· == 0)).length
  (properRoots (trimmed.take (trimmed.length - zeros))).map
    (· ++ List.replicate zeros ⟨0, 0⟩)

end AdmissibleRegion.Polynomial
