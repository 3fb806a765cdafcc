import AdmissibleRegion.Sample

/-!
# The arcs through a sample

At one abscissa the admissible ordinates are those inside the bounds of the greatest
semi-major axis and of the greatest eccentricity, without the hole that the least semi-major
axis cuts out. Without a hole they form one interval of the main arc; otherwise what is left
above and below the hole belongs to the upper and to the lower arc.
-/

namespace AdmissibleRegion

variable {K : Type}

/-- The admissible ordinates of one arc at one abscissa. -/
structure ArcPoint (K : Type) where
  /-- The abscissa. -/
  abscissa : K
  /-- The lower end. -/
  lower : K
  /-- The upper end. -/
  upper : K
  deriving Repr

/-- The points of the three arcs at one abscissa. -/
structure Arcs (K : Type) where
  /-- The point above the hole. -/
  upper : Option (ArcPoint K)
  /-- The point below the hole. -/
  lower : Option (ArcPoint K)
  /-- The point where there is no hole. -/
  main : Option (ArcPoint K)
  deriving Repr

namespace Arcs

/-- Whether there is a point above or below a hole. -/
def isSplit (arcs : Arcs K) : Bool := arcs.upper.isSome || arcs.lower.isSome

/-- From the lowest to the highest ordinate of the points above and below a hole. -/
def joined? (arcs : Arcs K) (abscissa : K) : Option (ArcPoint K) :=
  match arcs.upper.or arcs.lower, arcs.lower.or arcs.upper with
  | some top, some bottom => some ⟨abscissa, bottom.lower, top.upper⟩
  | _, _ => none

/-- Points can be joined exactly where the arcs are split. -/
theorem isSome_joined? (arcs : Arcs K) (x : K) : (arcs.joined? x).isSome = arcs.isSplit := by
  unfold joined? isSplit
  cases arcs.upper <;> cases arcs.lower <;> rfl

end Arcs

variable [Scalar K]

open Scalar

/-- The length of the interval of ordinates. -/
def ArcPoint.width (p : ArcPoint K) : K := p.upper - p.lower

/-- A point of an arc, unless its ends are out of order: constraints that are disjoint leave
nothing admissible. -/
def ArcPoint.between? (abscissa lower upper : K) : Option (ArcPoint K) :=
  if upper < lower then none else some ⟨abscissa, lower, upper⟩

namespace Sample

/-- Whether both outer bounds are present. -/
def isComplete (s : Sample K) : Bool := s.amax.isSome && s.emax.isSome

/-- Whether a region can begin here: both outer bounds are present, and they exceed the hole on
either side if there is one. -/
def canStart (s : Sample K) : Bool :=
  match s.amax, s.emax, s.amin with
  | some a, some e, some hole =>
    hole.upper < a.upper && hole.upper < e.upper && a.lower < hole.lower && e.lower < hole.lower
  | some _, some _, none => true
  | _, _, _ => false

/-- The arcs through a sample; there are none unless both outer bounds are present. -/
def arcs (s : Sample K) : Arcs K :=
  match s.amax, s.emax with
  | some a, some e =>
    match s.amin with
    | none => {
        upper := none
        lower := none
        main :=
          ArcPoint.between? s.abscissa (larger a.lower e.lower) (smaller a.upper e.upper) }
    | some hole => {
        upper :=
          if hole.upper < e.upper then
            ArcPoint.between? s.abscissa hole.upper (smaller a.upper e.upper)
          else none
        lower :=
          if e.lower < hole.lower then
            ArcPoint.between? s.abscissa (larger a.lower e.lower) hole.lower
          else none
        main := none }
  | _, _ => ⟨none, none, none⟩

end Sample

end AdmissibleRegion
