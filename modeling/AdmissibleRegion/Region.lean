import AdmissibleRegion.Region.Cell

/-!
# The admissible region

The region is built on a window of the grid: from the first sample at which it can begin to
the last one before an outer bound is missing. Its area is that of all its segments, and the
density of the abscissa is constant on every cell.
-/

namespace AdmissibleRegion

variable {K : Type} [Scalar K]

open Scalar

/-- The first and the last index of the window of some samples; it has at least two. -/
def window? (samples : List (Sample K)) : Option (Nat × Nat) :=
  match samples.findIdx? Sample.canStart with
  | none => none
  | some start =>
    let run := (samples.drop start).takeWhile Sample.isComplete
    if 2 ≤ run.length then some (start, start + run.length - 1) else none

/-- An admissible region with its area and the density of its abscissa. -/
structure Region (K : Type) where
  /-- The index of the first sample of the window. -/
  first : Nat
  /-- The index of the last sample of the window. -/
  last : Nat
  /-- The samples of the window. -/
  samples : List (Sample K)
  /-- The cells between the samples of the window. -/
  cells : List (Cell K)
  /-- The area of all cells. -/
  area : K
  /-- The density of the abscissa on each cell. -/
  density : List K
  deriving Repr

/-- Why some samples have no region. -/
inductive Emptiness (K : Type) where
  /-- They have no window. -/
  | noWindow (samples : Nat)
  /-- The cells of their window have no positive area. -/
  | noArea (first last : Nat) (area : K)
  deriving Repr

namespace Region

/-- The area of some cells. -/
def areaOf (cells : List (Cell K)) : K :=
  sum (cells.flatMap fun cell => cell.segments.map Segment.area)

/-- The region of some samples. -/
def ofSamples (samples : List (Sample K)) : Except (Emptiness K) (Region K) :=
  match window? samples with
  | none => .error (.noWindow samples.length)
  | some (first, last) =>
    let window := (samples.drop first).take (last + 1 - first)
    let cells := Cell.ofSamples window
    let area := areaOf cells
    if 0.0 < area then
      .ok {
        first, last, samples := window, cells, area
        density := cells.map fun cell => cell.meanWidth / area }
    else .error (.noArea first last area)

/-- The abscissas of the window. -/
def abscissas (r : Region K) : List K := r.samples.map Sample.abscissa

/-- The first abscissa. -/
def start (r : Region K) : K := r.abscissas.headD 0.0

/-- The last abscissa. -/
def stop (r : Region K) : K := r.abscissas.getLastD 0.0

/-- The upper arc. -/
def upper (r : Region K) : List (ArcPoint K) := r.samples.filterMap (·.arcs.upper)

/-- The lower arc. -/
def lower (r : Region K) : List (ArcPoint K) := r.samples.filterMap (·.arcs.lower)

/-- The main arc. -/
def main (r : Region K) : List (ArcPoint K) := r.samples.filterMap (·.arcs.main)

/-- The middles of the cells. -/
def centres (r : Region K) : List K := r.cells.map Cell.centre

/-- The first cell that contains an abscissa. -/
def locate? (r : Region K) (x : K) : Option (Cell K) := r.cells.find? (·.contains x)

/-- The index of the first cell that contains an abscissa. -/
def locateIndex? (r : Region K) (x : K) : Option Nat := r.cells.findIdx? (·.contains x)

end Region

end AdmissibleRegion
