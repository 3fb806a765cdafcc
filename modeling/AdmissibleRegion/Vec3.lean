import AdmissibleRegion.Scalar

/-!
# Vectors of three components

Sums, multiples and the two products of vectors in space, and the check that a list of
numbers is a vector of finite components.

Numbers may be given in lists of lists. They are read where lists beside each other are
alike, so that the numbers fill a box, and where not too many lists stand in each other; a row
is a box that has no lists in its list.
-/

namespace AdmissibleRegion

/-! ## Numbers in nested lists -/

/-- A value, or a list of values and lists. -/
inductive Nested (α : Type) where
  /-- One value. -/
  | leaf (value : α)
  /-- A list of values and lists. -/
  | list (items : List (Nested α))

/-- The lengths of the lists from the outside in, as far as lists beside each other agree. -/
structure Outline where
  /-- The lengths. -/
  lengths : List Nat
  /-- Whether all lists agree. -/
  isBox : Bool
  deriving DecidableEq, Repr

namespace Outline

/-- The lengths that two lists of lengths share at their start. -/
def shared : List Nat → List Nat → List Nat
  | a :: as, b :: bs => if a = b then a :: shared as bs else []
  | _, _ => []

/-- The outline that two neighbours have in common. -/
def meet (a b : Outline) : Outline :=
  ⟨shared a.lengths b.lengths, a.isBox && b.isBox && a.lengths == b.lengths⟩

/-- The outline of a list by the outlines of its items. -/
def ofItems (items : List Outline) : Outline :=
  let inner : Outline := match items with
    | [] => ⟨[], true⟩
    | item :: rest => rest.foldl meet item
  ⟨items.length :: inner.lengths, inner.isBox⟩

end Outline

namespace Nested

variable {α K : Type}

mutual

/-- All values, in order. -/
def leaves : Nested α → List α
  | .leaf value => [value]
  | .list items => leavesOfItems items

/-- All values of some items, in order. -/
def leavesOfItems : List (Nested α) → List α
  | [] => []
  | item :: rest => leaves item ++ leavesOfItems rest

end

/-- The greatest number of lists that may stand in each other. -/
def maximalDepth : Nat := 64

mutual

/-- The outline of a value or a list as far as `room` lists may stand in each other; a further
list has no lengths and is no box. -/
def outlineWithin (room : Nat) : Nested α → Outline
  | .leaf _ => ⟨[], true⟩
  | .list items =>
    match room with
    | 0 => ⟨[], false⟩
    | room + 1 => .ofItems (outlinesOfItems room items)

/-- The outlines of some items. -/
def outlinesOfItems (room : Nat) : List (Nested α) → List Outline
  | [] => []
  | item :: rest => outlineWithin room item :: outlinesOfItems room rest

end

/-- The outline of a value or a list. -/
def outline (nested : Nested α) : Outline := nested.outlineWithin maximalDepth

/-- The numbers of a box, in order. -/
def numbers (nested : Nested K) : Except (Fault K) (List K) :=
  let outline := nested.outline
  if outline.isBox then .ok nested.leaves
  else if outline.lengths.length = maximalDepth then .error (.tooDeep maximalDepth)
  else .error (.ragged outline.lengths)

/-- The numbers of a row; a number alone is a row. -/
def row (nested : Nested K) : Except (Fault K) (List K) := do
  let numbers ← nested.numbers
  if nested.outline.lengths.length ≤ 1 then return numbers else throw .coefficientsNotARow

/-- The values of a list of values are these. -/
theorem leaves_list_map_leaf (values : List α) :
    (list (values.map leaf)).leaves = values := by
  rw [leaves]
  induction values with
  | nil => rfl
  | cons value rest ih => simp [leavesOfItems, leaves, ih]

end Nested

/-! ## Vectors -/

/-- A vector in space. -/
structure Vec3 (K : Type) where
  /-- The component along the first axis. -/
  x : K
  /-- The component along the second axis. -/
  y : K
  /-- The component along the third axis. -/
  z : K
  deriving Repr

namespace Vec3

variable {K : Type} [Scalar K]

instance : Add (Vec3 K) := ⟨fun a b => ⟨a.x + b.x, a.y + b.y, a.z + b.z⟩⟩

/-- The multiple of a vector. -/
def scale (c : K) (a : Vec3 K) : Vec3 K := ⟨c * a.x, c * a.y, c * a.z⟩

/-- The scalar product. -/
def dot (a b : Vec3 K) : K := a.x * b.x + a.y * b.y + a.z * b.z

/-- The vector product. -/
def cross (a b : Vec3 K) : Vec3 K :=
  ⟨a.y * b.z - a.z * b.y, a.z * b.x - a.x * b.z, a.x * b.y - a.y * b.x⟩

/-- The square of the length. -/
def squaredNorm (a : Vec3 K) : K := dot a a

/-- The components as a list. -/
def toList (a : Vec3 K) : List K := [a.x, a.y, a.z]

/-- A list of exactly three finite numbers as a vector; `name` is what a message calls it. -/
def ofList (name : String) (components : List K) : Except (Fault K) (Vec3 K) :=
  match components with
  | [x, y, z] =>
    if Scalar.isFinite x && Scalar.isFinite y && Scalar.isFinite z then .ok ⟨x, y, z⟩
    else .error (.componentNotFinite name)
  | _ => .error (.componentCount name components.length)

/-- Three finite numbers in any box as a vector. -/
def ofNested (name : String) (components : Nested K) : Except (Fault K) (Vec3 K) := do
  ofList name (← components.numbers)

end Vec3

end AdmissibleRegion
