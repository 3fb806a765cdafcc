import AdmissibleRegion.Region.Arc

/-!
# The cells between neighbouring samples

Between two abscissas the arcs present at both ends are joined by straight lines. Where the
hole opens or closes in between, the outer ends of the split side are joined to the main arc
of the other.
-/

namespace AdmissibleRegion

variable {K : Type} [Scalar K]

open Scalar

/-- Part of an arc between two abscissas. -/
structure Segment (K : Type) where
  /-- The left end. -/
  start : ArcPoint K
  /-- The right end. -/
  stop : ArcPoint K
  deriving Repr

namespace Segment

/-- The mean of the widths at both ends. -/
def meanWidth (s : Segment K) : K := (s.start.width + s.stop.width) / 2.0

/-- The area of the trapezoid between the two bounds. -/
def area (s : Segment K) : K := s.meanWidth * (s.stop.abscissa - s.start.abscissa)

/-- Both bounds at an abscissa, on the straight lines through the ends. -/
def boundsAt (s : Segment K) (x : K) : Except (Fault K) (Interval K) := do
  let t ← divide (x - s.start.abscissa) (s.stop.abscissa - s.start.abscissa)
  return {
    lower := s.start.lower + t * (s.stop.lower - s.start.lower)
    upper := s.start.upper + t * (s.stop.upper - s.start.upper) }

end Segment

/-- Which arcs are active across a cell. -/
inductive CellKind where
  /-- The upper arc, the lower arc, or both. -/
  | upperLower
  /-- The hole opens or closes inside the cell. -/
  | transition
  /-- The main arc. -/
  | main
  /-- None. -/
  | gap
  deriving DecidableEq, Repr

/-- The name of a kind of cells. -/
def CellKind.name : CellKind → String
  | .upperLower => "upper_lower"
  | .transition => "transition"
  | .main => "main"
  | .gap => "gap"

/-- What lies between two neighbouring abscissas. -/
structure Cell (K : Type) where
  /-- The left abscissa. -/
  left : K
  /-- The right abscissa. -/
  right : K
  /-- Which arcs are active. -/
  kind : CellKind
  /-- The segments of the active arcs, the upper one first. -/
  segments : List (Segment K)
  deriving Repr

namespace Cell

/-- The middle between both abscissas. -/
def centre (c : Cell K) : K := c.left + (c.right - c.left) / 2.0

/-- Whether an abscissa lies between the two, or is one of them. -/
def contains (c : Cell K) (x : K) : Bool := c.left ≤ x && x ≤ c.right

/-- The segment between two points, if both are present. -/
def segment? : Option (ArcPoint K) → Option (ArcPoint K) → Option (Segment K)
  | some p, some q => some ⟨p, q⟩
  | _, _ => none

/-- The cell between two samples. -/
def between (s t : Sample K) : Cell K :=
  let left := s.arcs
  let right := t.arcs
  let cell := Cell.mk s.abscissa t.abscissa
  match left.main, right.main, left.joined? s.abscissa, right.joined? t.abscissa with
  | some p, some q, _, _ => cell .main [⟨p, q⟩]
  | _, some q, some p, _ => cell .transition [⟨p, q⟩]
  | some p, _, _, some q => cell .transition [⟨p, q⟩]
  | _, _, _, _ =>
    let segments := (segment? left.upper right.upper).toList
      ++ (segment? left.lower right.lower).toList
    cell (if segments.isEmpty then .gap else .upperLower) segments

/-- The cells between the samples of a list, one for each pair of neighbours. -/
def ofSamples : List (Sample K) → List (Cell K)
  | s :: t :: rest => between s t :: ofSamples (t :: rest)
  | _ => []

/-- The mean widths of the segments of a cell, added up. -/
def meanWidth (c : Cell K) : K := sum (c.segments.map Segment.meanWidth)

end Cell

end AdmissibleRegion
