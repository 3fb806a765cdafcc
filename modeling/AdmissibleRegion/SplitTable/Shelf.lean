import AdmissibleRegion.Binary64
import AdmissibleRegion.FileTree
import AdmissibleRegion.SplitTable.Reader
import AdmissibleRegion.Text.Utf8

/-!
# Tables that were loaded before

A table is loaded once for every name it is asked for by. Later requests by the same name
get the same copy, whatever became of the file; a failure is not kept. Names are the same if
they are the same text or the same path, and a text is never the same as a path.
-/

namespace AdmissibleRegion

/-- What a table is asked for by. -/
inductive TableName where
  /-- The table that comes with the library. -/
  | uniform
  /-- The file at a path given as text. -/
  | text (name : String)
  /-- The file at a path. -/
  | path (path : Path)
  deriving DecidableEq, Repr

/-- The source that a table of a name states. -/
def TableName.source : TableName → String
  | .uniform => (SplitTable.uniform (K := Float)).source
  | .text name => name
  | .path place => place.text

/-- A table with the number of the copy. -/
structure TableCopy where
  /-- The number of copies that were made before. -/
  number : Nat
  /-- The table. -/
  table : SplitTable Float

/-- The tables loaded so far, the latest first. -/
structure Shelf where
  /-- The copies by the names they were asked for by. -/
  copies : List (TableName × TableCopy)

namespace Shelf

/-- The shelf on which nothing stands. -/
def empty : Shelf := ⟨[]⟩

/-- Reads a table from the file at a path. -/
def readFile (files : FileTree) (path : Path) (source : String) :
    Except (Fault Float) (SplitTable Float) :=
  if path.hasNull then .error .nullInPath else
  match files.read path with
  | .error .missing => .error (.table (.missing source path.text))
  | .error .directory => .error (.table (.directory source path.text))
  | .error .throughFile => .error (.table (.notADirectory source path.text))
  | .error .nameTooLong => .error (.table (.nameTooLong source path.text))
  | .ok bytes =>
    match Text.Utf8.decode bytes with
    | .error failure => .error (.undecodable failure)
    | .ok text => (SplitTable.parse (Text.withLineFeeds text) source).mapError .table

/-- Reads the table of a name. -/
def read (files : FileTree) : TableName → Except (Fault Float) (SplitTable Float)
  | .uniform => .ok SplitTable.uniform
  | .text name => readFile files (.ofText name) name
  | .path path => readFile files path path.text

/-- The copy of the table of a name, and the shelf with that copy; the table is read only if
there is no copy yet. -/
def load (shelf : Shelf) (files : FileTree) (name : TableName) :
    Except (Fault Float) (TableCopy × Shelf) :=
  match shelf.copies.lookup name with
  | some copy => .ok (copy, shelf)
  | none => do
    let copy : TableCopy := ⟨shelf.copies.length, ← read files name⟩
    return (copy, ⟨(name, copy) :: shelf.copies⟩)

end Shelf

/-- What can happen while tables are in use. -/
inductive SessionStep where
  /-- A file is written. -/
  | write (path : String) (bytes : List UInt8)
  /-- A file is removed. -/
  | remove (path : String)
  /-- A directory is made. -/
  | makeDirectory (path : String)
  /-- A table is asked for. -/
  | load (name : TableName)

/-- The files and the tables loaded so far. -/
structure Session where
  /-- The files. -/
  files : FileTree
  /-- The tables. -/
  shelf : Shelf

namespace Session

/-- A session in an empty directory, before anything was loaded. -/
def fresh : Session := ⟨.empty, .empty⟩

/-- One step of a session; a load answers with its copy or its failure. -/
def step (session : Session) : SessionStep →
    Session × Option (Except (Fault Float) TableCopy)
  | .write path bytes =>
    ({ session with files := session.files.put (.ofText path) (.file bytes) }, none)
  | .remove path =>
    ({ session with files := session.files.remove (Path.ofText path).place }, none)
  | .makeDirectory path =>
    ({ session with files := session.files.put (.ofText path) .directory }, none)
  | .load name =>
    match session.shelf.load session.files name with
    | .ok (copy, shelf) => ({ session with shelf }, some (.ok copy))
    | .error fault => (session, some (.error fault))

/-- The answers of the steps of a session, in order. -/
def run (session : Session) : List SessionStep → List (Option (Except (Fault Float) TableCopy))
  | [] => []
  | step :: rest =>
    let (next, answer) := session.step step
    answer :: next.run rest

end Session

end AdmissibleRegion
