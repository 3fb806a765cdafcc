/-!
# A tree of files

A tree of files says what stands at every place: a directory or a file with some bytes. Places
are counted from a directory at hand, which always stands, as do those that hold it; other
places begin at the root. Names and paths have greatest lengths, beyond which nothing is looked
up.
-/

namespace AdmissibleRegion

/-- The names from the directory at hand, or from the root, to a place. It begins with as many
double dots as directories are left first. -/
abbrev Place := List String

namespace Place

/-- The place of the root. -/
def root : Place := ["/"]

/-- The place one step further. Two dots lead back by one, or from the root nowhere. -/
def next (place : Place) (step : String) : Place :=
  if step = ".." then
    match place.getLast? with
    | none | some ".." => place ++ [".."]
    | some "/" => place
    | some _ => place.dropLast
  else place ++ [step]

/-- Whether a directory stands at a place in every tree. -/
def isFixed (place : Place) : Bool := place == root || place.all (· == "..")

end Place

/-- The steps of a path, without empty ones and those that stay in place, and where it begins. -/
structure Path where
  /-- The slashes that a path from the root begins with, one or two; none for a path from the
  directory at hand. -/
  root : String
  /-- The names along the path. -/
  steps : List String
  deriving DecidableEq, Repr

namespace Path

/-- The path that a text names. Exactly two slashes in front are kept; more count as one. -/
def ofText (text : String) : Path where
  root :=
    if text.startsWith "//" && !text.startsWith "///" then "//"
    else if text.startsWith "/" then "/"
    else ""
  steps := (text.splitOn "/").filter fun step => step ≠ "" ∧ step ≠ "."

/-- The shortest text that names a path. -/
def text (path : Path) : String :=
  if path.root.isEmpty && path.steps.isEmpty then "."
  else path.root ++ "/".intercalate path.steps

/-- The greatest length in bytes of the text of a path. -/
def longest : Nat := 4095

/-- The greatest length in bytes of one name along a path. -/
def longestName : Nat := 255

/-- Whether the text of a path is short enough to be looked up. -/
def fits (path : Path) : Bool := path.text.utf8ByteSize ≤ longest

/-- Whether the text of a path has a character that no name can hold. -/
def hasNull (path : Path) : Bool := path.steps.any fun step => step.contains '\x00'

/-- The place that a path begins at. -/
def start (path : Path) : Place := if path.root.isEmpty then [] else .root

/-- The place that a path leads to when every step on the way can be taken. -/
def place (path : Path) : Place := path.steps.foldl .next path.start

/-- The places that a path passes before its last step, in order. -/
def way (path : Path) : List Place :=
  (List.range path.steps.length).map fun n => place { path with steps := path.steps.take n }

end Path

/-- What stands at a place. -/
inductive Entry where
  /-- A directory. -/
  | directory
  /-- A file and its bytes. -/
  | file (bytes : List UInt8)
  deriving DecidableEq, Repr

/-- A tree of files: the places at which something stands, the latest first. -/
structure FileTree where
  /-- The places other than those at which a directory stands in every tree. -/
  entries : List (Place × Entry)
  deriving Repr

/-- Why a file cannot be read. -/
inductive Unreadable where
  /-- Nothing stands at the place. -/
  | missing
  /-- A directory stands at the place. -/
  | directory
  /-- The way leads through a file. -/
  | throughFile
  /-- The path, or a name on the way through a directory, is too long. -/
  | nameTooLong
  deriving DecidableEq, Repr

namespace FileTree

/-- The tree in which nothing stands. -/
def empty : FileTree := ⟨[]⟩

/-- What stands at a place. -/
def entry? (tree : FileTree) (place : Place) : Option Entry :=
  if place.isFixed then some .directory else tree.entries.lookup place

/-- Takes away what stands at a place and below it. -/
def remove (tree : FileTree) (place : Place) : FileTree :=
  ⟨tree.entries.filter fun (p, _) => !place.isPrefixOf p⟩

/-- Puts something at a place in the stead of what stands there. -/
def set (tree : FileTree) (place : Place) (entry : Entry) : FileTree :=
  ⟨(place, entry) :: tree.entries.filter fun (p, _) => p ≠ place⟩

/-- Puts something at the place of a path, after making those directories on the way that are
missing. -/
def put (tree : FileTree) (path : Path) (entry : Entry) : FileTree :=
  let opened := path.way.foldl
    (fun tree p => if (tree.entry? p).isNone then tree.set p .directory else tree) tree
  opened.set path.place entry

/-- Follows the steps of a path from a place, each of them through a directory. -/
def walk (tree : FileTree) : Place → List String → Except Unreadable Place
  | place, [] => .ok place
  | place, step :: rest =>
    match tree.entry? place with
    | some .directory =>
      if Path.longestName < step.utf8ByteSize then .error .nameTooLong
      else walk tree (place.next step) rest
    | some (.file _) => .error .throughFile
    | none => .error .missing

/-- The bytes of the file that a path leads to. -/
def read (tree : FileTree) (path : Path) : Except Unreadable (List UInt8) := do
  unless path.fits do throw .nameTooLong
  match tree.entry? (← tree.walk path.start path.steps) with
  | some (.file bytes) => return bytes
  | some .directory => throw .directory
  | none => throw .missing

end FileTree

end AdmissibleRegion
