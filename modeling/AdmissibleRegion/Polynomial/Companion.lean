/-!
# The companion of a polynomial

The roots of a polynomial are the eigenvalues of its companion, a square matrix whose first row
holds the coefficients and which has ones below the diagonal. A matrix is stored row after row.

A row of a matrix may be divided by a number by which the column of the same index is
multiplied: the eigenvalues stay the same. With powers of two the entries stay exact. A matrix
is balanced when no such exchange shortens row and column together by a twentieth.
-/

namespace AdmissibleRegion.Polynomial

/-! ## Square matrices -/

/-- A square matrix; entry `(i, j)` stands at `i * size + j`. -/
structure Square where
  /-- The number of rows and of columns. -/
  size : Nat
  /-- The entries. -/
  entries : FloatArray

namespace Square

/-- The matrix of given entries. -/
def ofEntries (size : Nat) (entry : Nat → Nat → Float) : Square where
  size := size
  entries := (size * size).fold (fun k _ entries => entries.push (entry (k / size) (k % size)))
    (FloatArray.emptyWithCapacity (size * size))

/-- An entry. -/
def get (a : Square) (i j : Nat) : Float := a.entries.get! (i * a.size + j)

/-- Puts a number in the place of an entry. -/
def set (a : Square) (i j : Nat) (x : Float) : Square :=
  { a with entries := a.entries.set! (i * a.size + j) x }

/-- The numbers of a row. -/
def row (a : Square) (i : Nat) : List Float := (List.range a.size).map (a.get i)

/-- The numbers of a column. -/
def column (a : Square) (j : Nat) : List Float := (List.range a.size).map (a.get · j)

/-- The matrix multiplied by a number. -/
def scaled (a : Square) (t : Float) : Square :=
  { a with entries := ⟨a.entries.data.map (t * ·)⟩ }

end Square

/-- The greatest of the absolute values of some numbers. -/
def greatestSize (xs : List Float) : Float :=
  xs.foldl (fun top x => if top < x.abs then x.abs else top) 0

/-- The length of a vector, computed without squares of numbers that are very large or small. -/
def vectorLength (xs : List Float) : Float :=
  let top := greatestSize xs
  if top == 0 then 0
  else top * (xs.foldl (fun sum x => sum + x / top * (x / top)) 0).sqrt

/-- The companion of the polynomial whose first coefficient is one and whose other coefficients
are given. -/
def companion (coefficients : List Float) : Square :=
  let first := coefficients.toArray
  .ofEntries first.size fun i j =>
    if i = 0 then -first.getD j 0 else if i = j + 1 then 1 else 0

/-! ## Balanced matrices -/

/-- The least factor that an index is given in one exchange or altogether. -/
def leastFactor : Float := Float.scaleB 1 (-970)

/-- Row and column of one index while powers of two are moved from one to the other. -/
structure Exchange where
  /-- What the column has been multiplied by. -/
  factor : Float
  /-- The length of the column. -/
  column : Float
  /-- The greatest entry of the column. -/
  columnTop : Float
  /-- The length of the row. -/
  row : Float
  /-- The greatest entry of the row. -/
  rowTop : Float

namespace Exchange

/-- Doubles the column as long as it is below half the row, at most `fuel` times. -/
def lengthen : Nat → Exchange → Exchange
  | 0, x => x
  | fuel + 1, x =>
    let mayGrow := [x.factor, x.column, x.columnTop].all (2 * leastFactor * · < 1)
    let mayShrink := [x.row / 2, x.rowTop].all (2 * leastFactor < ·)
    if x.column < x.row / 2 && mayGrow && mayShrink then
      lengthen fuel ⟨x.factor * 2, x.column * 2, x.columnTop * 2, x.row / 2, x.rowTop / 2⟩
    else x

/-- Halves the column as long as that leaves it no shorter than the row, at most `fuel` times. -/
def shorten : Nat → Exchange → Exchange
  | 0, x => x
  | fuel + 1, x =>
    let mayGrow := [x.row, x.rowTop].all (2 * leastFactor * · < 1)
    let mayShrink := [x.factor, x.column / 2, x.columnTop].all (2 * leastFactor < ·)
    if x.row ≤ x.column / 2 && mayGrow && mayShrink then
      shorten fuel ⟨x.factor / 2, x.column / 2, x.columnTop / 2, x.row * 2, x.rowTop * 2⟩
    else x

/-- The exchange that makes row and column alike in length; a binary64 number can be doubled or
halved little more than two thousand times. -/
def settled (x : Exchange) : Exchange := (x.lengthen 2200).shorten 2200

end Exchange

/-- A matrix while it is balanced. -/
structure Balance where
  /-- The matrix. -/
  matrix : Square
  /-- The factors that the columns were given so far. -/
  factors : FloatArray
  /-- Whether something was exchanged in the present round. -/
  changed : Bool

namespace Balance

/-- Whether an index with a factor may be given a further one. -/
def allows (sofar further : Float) : Bool :=
  !(further < 1 && sofar < 1 && further * sofar ≤ leastFactor)
    && !(1 < further && 1 < sofar && 1 / leastFactor / further ≤ sofar)

/-- Balances row and column of one index if that is worth while. -/
def balanceIndex (b : Balance) (i : Nat) : Balance :=
  let column := b.matrix.column i
  let row := b.matrix.row i
  let start : Exchange :=
    ⟨1, vectorLength column, greatestSize column, vectorLength row, greatestSize row⟩
  if start.column == 0 || start.row == 0 then b
  else
    let x := start.settled
    let isWorthWhile := x.column + x.row < 0.95 * (start.column + start.row)
    let sofar := b.factors.get! i
    if isWorthWhile && allows sofar x.factor then
      let n := b.matrix.size
      let divided := n.fold (fun j _ a => a.set i j (1 / x.factor * a.get i j)) b.matrix
      { matrix := n.fold (fun j _ a => a.set j i (x.factor * a.get j i)) divided
        factors := b.factors.set! i (sofar * x.factor)
        changed := true }
    else b

/-- Balances every index once, in rounds until nothing is exchanged, at most `fuel` times. -/
def rounds : Nat → Balance → Balance
  | 0, b => b
  | fuel + 1, b =>
    let next := b.matrix.size.fold (fun i _ b => b.balanceIndex i) { b with changed := false }
    if next.changed then rounds fuel next else next

end Balance

/-- A balanced matrix with the same eigenvalues. -/
def Square.balanced (a : Square) : Square :=
  (Balance.rounds 1000 ⟨a, ⟨Array.replicate a.size 1⟩, true⟩).matrix

end AdmissibleRegion.Polynomial
