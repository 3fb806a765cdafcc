/-!
# Matrices and their singular values

The vectors and matrices of the weight fit are flat arrays of numbers. A matrix is stored column
after column, and a column is a run of the array. Its triangular factor is found by reflections,
and the singular values of the factor by turning pairs of its columns until all are orthogonal.
-/

namespace AdmissibleRegion.LeastSquares

/-! ## Columns -/

/-- The distance between one and the next greater number. -/
def resolution : Float := 2.220446049250313e-16

/-- The array of `n` numbers given by their indices. -/
def tabulate (n : Nat) (f : Nat → Float) : FloatArray :=
  n.fold (fun i _ acc => acc.push (f i)) (FloatArray.emptyWithCapacity n)

/-- The numbers of an array, changed one by one. -/
def mapColumn (f : Float → Float) (a : FloatArray) : FloatArray :=
  tabulate a.size fun i => f (a.get! i)

/-- The numbers of two arrays, combined one by one. -/
def zipColumns (f : Float → Float → Float) (a b : FloatArray) : FloatArray :=
  tabulate a.size fun i => f (a.get! i) (b.get! i)

/-- The scalar product of the columns of length `n` that begin at `p` and at `q`, added to a
number. -/
def dotRuns (a : FloatArray) (p : Nat) (b : FloatArray) (q : Nat) : Nat → Float → Float
  | 0, acc => acc
  | n + 1, acc => dotRuns a (p + 1) b (q + 1) n (acc + a.get! p * b.get! q)

/-- The scalar product of two arrays. -/
def dot (a b : FloatArray) : Float := dotRuns a 0 b 0 a.size 0

/-- The length of an array as a vector. -/
def norm (a : FloatArray) : Float := (dot a a).sqrt

/-- The greater of two numbers, undefined if one of them is. -/
def upper (x y : Float) : Float := if x < y || y.isNaN then y else x

/-- The lesser of two numbers, undefined if one of them is. -/
def lower (x y : Float) : Float := if y < x || y.isNaN then y else x

/-- The greatest of zero and the numbers of an array, undefined if one of them is. -/
def greatest (a : FloatArray) : Float :=
  a.size.fold (fun i _ top => upper top (a.get! i)) 0

/-- Adds `t` times the column at `p` of `a` to the column at `q` of `b`. -/
def addRun (t : Float) (a : FloatArray) (p q : Nat) : Nat → FloatArray → FloatArray
  | 0, b => b
  | n + 1, b => addRun t a (p + 1) (q + 1) n (b.set! q (b.get! q + t * a.get! p))

/-- Adds `t` times the column at `p` to the column at `q` of the same array. -/
def addWithin (t : Float) (p q : Nat) : Nat → FloatArray → FloatArray
  | 0, a => a
  | n + 1, a => addWithin t (p + 1) (q + 1) n (a.set! q (a.get! q + t * a.get! p))

/-- Turns the plane of the columns at `p` and at `q` by the angle of cosine `c` and sine `s`. -/
def rotateRuns (c s : Float) (p q : Nat) : Nat → FloatArray → FloatArray
  | 0, a => a
  | n + 1, a =>
    let x := a.get! p
    let y := a.get! q
    rotateRuns c s (p + 1) (q + 1) n ((a.set! p (c * x - s * y)).set! q (s * x + c * y))

/-! ## Matrices -/

/-- A matrix; entry `(i, j)` stands at `j * rows + i`. -/
structure Matrix where
  /-- The number of rows. -/
  rows : Nat
  /-- The number of columns. -/
  columns : Nat
  /-- The entries. -/
  entries : FloatArray

namespace Matrix

/-- The matrix of given entries. -/
def ofEntries (rows columns : Nat) (entry : Nat → Nat → Float) : Matrix where
  rows := rows
  columns := columns
  entries := tabulate (rows * columns) fun k => entry (k % rows) (k / rows)

/-- The matrix with given rows. -/
def ofRows (columns : Nat) (rows : List (List Float)) : Matrix :=
  let table := (rows.map fun row => row.toArray).toArray
  ofEntries table.size columns fun i j => (table.getD i #[]).getD j 0

/-- The product with a vector. -/
def mulVec (a : Matrix) (x : FloatArray) : FloatArray :=
  a.columns.fold (fun j _ y => addRun (x.get! j) a.entries (j * a.rows) 0 a.rows y)
    (tabulate a.rows fun _ => 0)

/-- The product of the transpose with a vector. -/
def transposeMulVec (a : Matrix) (x : FloatArray) : FloatArray :=
  tabulate a.columns fun j => dotRuns a.entries (j * a.rows) x 0 a.rows 0

/-- Reflects the columns behind column `k`, from row `k` down, so that column `k` becomes zero
below row `k`. What it was below that row is left as it is. -/
def reflect (a : Matrix) (k : Nat) : Matrix :=
  let p := k * a.rows + k
  let length := a.rows - k
  let head := a.entries.get! p
  let below := dotRuns a.entries (p + 1) a.entries (p + 1) (length - 1) 0
  let size := (head * head + below).sqrt
  if size == 0 then a
  else
    let image := if head < 0 then size else -size
    let lead := head - image
    let weight := 2 / (lead * lead + below)
    let entries := (a.columns - (k + 1)).fold (fun i _ entries =>
      let q := (k + 1 + i) * a.rows + k
      let t := weight * dotRuns entries p entries q length 0
      addWithin (-t) p q length entries) (a.entries.set! p lead)
    { a with entries := entries.set! p image }

/-- Makes the first `n` columns upper triangular by reflections of all columns. -/
def triangularise (a : Matrix) (n : Nat) : Matrix :=
  (min n a.rows).fold (fun k _ a => a.reflect k) a

end Matrix

/-- A square matrix `r` with orthogonal columns that became so by turning, and the product of
the turns `v`, stacked column by column in one array of `2 * n` rows. -/
structure Turned where
  /-- The number of columns. -/
  n : Nat
  /-- Column `j` of `r` and below it column `j` of `v`, for all `j`. -/
  entries : FloatArray
  /-- Whether some pair of columns was turned. -/
  moved : Bool

namespace Turned

/-- Turns columns `i` and `j` so that they are orthogonal, unless they are to the resolution of
the numbers. -/
def turnPair (t : Turned) (i j : Nat) : Turned :=
  let p := i * (2 * t.n)
  let q := j * (2 * t.n)
  let a := dotRuns t.entries p t.entries p t.n 0
  let b := dotRuns t.entries q t.entries q t.n 0
  let c := dotRuns t.entries p t.entries q t.n 0
  if c.abs ≤ resolution * t.n.toFloat.sqrt * (a.sqrt * b.sqrt) then t
  else
    let zeta := (b - a) / (2 * c)
    let tangent := (if zeta < 0 then -1 else 1) / (zeta.abs + (1 + zeta * zeta).sqrt)
    let cosine := 1 / (1 + tangent * tangent).sqrt
    { t with
      entries := rotateRuns cosine (cosine * tangent) p q (2 * t.n) t.entries
      moved := true }

/-- Turns every pair of columns once. -/
def sweep (t : Turned) : Turned :=
  t.n.fold (fun i _ t => (t.n - (i + 1)).fold (fun j _ t => t.turnPair i (i + 1 + j)) t)
    { t with moved := false }

/-- Sweeps until no pair is turned any more, at most `fuel` times. -/
def settle : Nat → Turned → Turned
  | 0, t => t
  | fuel + 1, t =>
    let next := t.sweep
    if next.moved then settle fuel next else next

end Turned

/-- A matrix and a vector in the directions of the singular vectors of the matrix. -/
structure Spectrum where
  /-- The number of columns. -/
  n : Nat
  /-- The singular values. -/
  values : FloatArray
  /-- The vector, by the singular directions of its side. -/
  sides : FloatArray
  /-- The singular directions of the other side, column after column. -/
  directions : FloatArray

/-- The spectrum of a matrix with at least as many rows as columns, and of a vector. The matrix
is measured in a power of two near its greatest entry meanwhile. -/
def Spectrum.of (a : Matrix) (f : FloatArray) : Spectrum :=
  let n := a.columns
  let unit := (greatest (mapColumn Float.abs a.entries)).frExp.2
  let inUnits := mapColumn (Float.scaleB · (-unit)) a.entries
  let extended : Matrix := ⟨a.rows, n + 1, a.rows.fold (fun i _ e => e.push (f.get! i)) inUnits⟩
  let factor := extended.triangularise n
  let entry (i j : Nat) : Float :=
    if i < n then (if i ≤ j then factor.entries.get! (j * a.rows + i) else 0)
    else if i = n + j then 1 else 0
  let turned := (Turned.settle 60 ⟨n, (Matrix.ofEntries (2 * n) n entry).entries, true⟩).entries
  let side := tabulate n fun i => factor.entries.get! (n * a.rows + i)
  let length (j : Nat) : Float :=
    (dotRuns turned (j * (2 * n)) turned (j * (2 * n)) n 0).sqrt
  { n
    values := tabulate n fun j => (length j).scaleB unit
    sides := tabulate n fun j =>
      let size := length j
      if size == 0 then 0 else dotRuns turned (j * (2 * n)) side 0 n 0 / size
    directions := tabulate (n * n) fun k => turned.get! (k / n * (2 * n) + n + k % n) }

namespace Spectrum

/-- The squares of the singular values. -/
def squares (s : Spectrum) : FloatArray := mapColumn (fun x => x * x) s.values

/-- The gradient of the least-squares problem, by singular directions. -/
def pull (s : Spectrum) : FloatArray := zipColumns (· * ·) s.values s.sides

/-- The vector with given parts in the singular directions, negated. -/
def against (s : Spectrum) (parts : FloatArray) : FloatArray :=
  Matrix.mulVec ⟨s.n, s.n, s.directions⟩ (mapColumn (-·) parts)

/-- The solution of the least-squares problem. -/
def solution (s : Spectrum) : FloatArray := s.against (zipColumns (· / ·) s.sides s.values)

/-- The solution of the problem whose squared singular values are raised by a number. -/
def raisedSolution (s : Spectrum) (raised : Float) : FloatArray :=
  s.against (zipColumns (fun pull square => pull / (square + raised)) s.pull s.squares)

end Spectrum

end AdmissibleRegion.LeastSquares
