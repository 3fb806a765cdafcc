import AdmissibleRegion.Sample

/-!
# Tables of a lower and an upper boundary

A table gives two boundaries at ascending abscissas and is read by linear interpolation;
beyond either end the first or the last two rows are extrapolated, so that the boundaries
may cross there. An ellipse with axes parallel to those of the plane is tabulated in steps of
one degree from its left vertex.
-/

namespace AdmissibleRegion

/-- An ellipse whose axes are parallel to those of the plane. -/
structure Ellipse (K : Type) where
  /-- The abscissa of the centre. -/
  centreX : K
  /-- The ordinate of the centre. -/
  centreY : K
  /-- The semi-axis along the abscissa. -/
  semiX : K
  /-- The semi-axis along the ordinate. -/
  semiY : K
  deriving Repr

/-- Both boundaries at one abscissa. -/
structure BoundaryRow (K : Type) where
  /-- The abscissa. -/
  abscissa : K
  /-- The lower boundary. -/
  lower : K
  /-- The upper boundary. -/
  upper : K
  deriving Repr

/-- A table of at least two rows. -/
structure BoundaryTable (K : Type) where
  /-- The rows, by ascending abscissas. -/
  rows : Array (BoundaryRow K)
  /-- There are enough rows for one line. -/
  two_le_size : 2 ≤ rows.size

/-- The least index from `low` up to `high` at which `below` fails, found by halving, when
`below` holds up to some index and fails from there on. -/
def bisect (below : Nat → Bool) (low high : Nat) : Nat :=
  if low < high then
    let middle := low + (high - low) / 2
    if below middle then bisect below (middle + 1) high else bisect below low middle
  else low
termination_by high - low

namespace BoundaryTable

variable {K : Type} [Scalar K]

open Scalar

/-- The table with the given rows. -/
def ofRows (rows : Array (BoundaryRow K)) : Except (Fault K) (BoundaryTable K) :=
  if h : 2 ≤ rows.size then .ok ⟨rows, h⟩ else .error .tableShape

/-- The table with the given columns, which must be equally long. -/
def ofColumns (abscissas lower upper : List K) : Except (Fault K) (BoundaryTable K) :=
  if abscissas.length = lower.length ∧ lower.length = upper.length then
    ofRows ((abscissas.zip (lower.zip upper)).map fun (x, l, u) => ⟨x, l, u⟩).toArray
  else .error .tableShape

/-- The row at an index; negative indices count from the end. -/
def row? (table : BoundaryTable K) (index : Int) : Option (BoundaryRow K) :=
  (Index.place? index table.rows.size).bind (table.rows[·]?)

/-- Whether one abscissa comes before another; an undefined one comes after all others. -/
def isBefore (a b : K) : Bool := decide (a < b) || (isNaN b && !isNaN a)

/-- The number of the row to the left of the line that is read at an abscissa: the last row
before it, but neither less than the first nor more than the last but one. -/
def bracket (table : BoundaryTable K) (x : K) : Nat :=
  let rank := bisect
    (fun i => match table.rows[i]? with
      | some row => isBefore row.abscissa x
      | none => false) 0 table.rows.size
  min (rank - 1) (table.rows.size - 2)

/-- The line through two points, at an abscissa. -/
def line (x0 y0 x1 y1 x : K) : K := (y1 - y0) / (x1 - x0) * (x - x0) + y0

/-- Both boundaries at an abscissa. -/
def interpolate (table : BoundaryTable K) (x : K) : Interval K :=
  let i := table.bracket x
  have h : i + 1 < table.rows.size := by
    have := table.two_le_size
    have : i ≤ table.rows.size - 2 := Nat.min_le_right _ _
    omega
  let left := table.rows[i]
  let right := table.rows[i + 1]
  { lower := line left.abscissa left.lower right.abscissa right.lower x
    upper := line left.abscissa left.upper right.abscissa right.upper x }

/-- The two arcs of an ellipse at the angles of 180, 179, ... degrees. -/
def ofEllipse (ellipse : Ellipse K) (rows : Int) : Except (Fault K) (BoundaryTable K) :=
  ofRows ((List.range rows.toNat).map fun k =>
    let angle : K := ofInt (180 - Int.ofNat k) * pi / 180.0
    { abscissa := ellipse.centreX + ellipse.semiX * cos angle
      lower := ellipse.centreY - ellipse.semiY * sin angle
      upper := ellipse.centreY + ellipse.semiY * sin angle }).toArray

end BoundaryTable

end AdmissibleRegion
