import AdmissibleRegion.Proofs.Checked
import AdmissibleRegion.Proofs.SplitTable.Reader
import AdmissibleRegion.SplitTable.Shelf

/-!
# Sessions with loaded tables

Files change and tables are loaded in any order. The shelf only grows, and only by loads that
succeed, so that the first successful load of a name decides what all later ones return. It
read the file as it stood then, whatever was loaded before under other names.
-/

namespace AdmissibleRegion

/-- The path of the file that a name asks for. -/
def TableName.file? : TableName → Option Path
  | .uniform => none
  | .text name => some (.ofText name)
  | .path place => some place

/-- Whether a step changes files or loads the table of a name. -/
def SessionStep.concerns (name : TableName) : SessionStep → Bool
  | .load other => other = name
  | _ => true

namespace Shelf

variable {shelf grown : Shelf} {files : FileTree} {name : TableName} {copy : TableCopy}

/-- The shelf with one more copy. -/
def keep (shelf : Shelf) (name : TableName) (copy : TableCopy) : Shelf :=
  ⟨(name, copy) :: shelf.copies⟩

/-- The copy that is made of a table when it is read. -/
def newCopy (shelf : Shelf) (table : SplitTable Float) : TableCopy := ⟨shelf.copies.length, table⟩

/-- A copy that stands on the shelf is returned. -/
theorem load_of_lookup (h : shelf.copies.lookup name = some copy) :
    shelf.load files name = .ok (copy, shelf) := by
  unfold load
  rw [h]

/-- Without a copy, the table is read, and kept if that succeeds. -/
theorem load_of_lookup_eq_none (h : shelf.copies.lookup name = none) :
    shelf.load files name = (read files name).map fun table =>
      (shelf.newCopy table, shelf.keep name (shelf.newCopy table)) := by
  unfold load
  rw [h]
  cases read files name <;> rfl

theorem lookup_keep_self : (shelf.keep name copy).copies.lookup name = some copy := by
  simp [keep]

theorem lookup_keep_of_ne {other : TableName} (h : other ≠ name) :
    (shelf.keep name copy).copies.lookup other = shelf.copies.lookup other := by
  have hne : (other == name) = false := beq_false_of_ne h
  simp [keep, List.lookup_cons, hne]

/-- A copy that is found stands on the shelf. -/
theorem mem_of_lookup (h : shelf.copies.lookup name = some copy) :
    (name, copy) ∈ shelf.copies := by
  obtain ⟨before, after, heq, _⟩ := List.lookup_eq_some_iff.mp h
  rw [heq]
  exact List.mem_append_right before List.mem_cons_self

/-- What a load that succeeds does: it returns the copy on the shelf, or keeps a new one. -/
theorem load_cases (h : shelf.load files name = .ok (copy, grown)) :
    (shelf.copies.lookup name = some copy ∧ grown = shelf) ∨
      (shelf.copies.lookup name = none ∧ ∃ table, read files name = .ok table ∧
        copy = shelf.newCopy table ∧ grown = shelf.keep name copy) := by
  cases hlookup : shelf.copies.lookup name with
  | some found =>
    rw [load_of_lookup hlookup] at h
    obtain ⟨rfl, rfl⟩ := Prod.mk.inj (Except.ok.inj h)
    exact .inl ⟨rfl, rfl⟩
  | none =>
    rw [load_of_lookup_eq_none hlookup] at h
    cases hread : read files name with
    | error fault =>
      rw [hread] at h
      cases h
    | ok table =>
      rw [hread] at h
      obtain ⟨rfl, rfl⟩ := Prod.mk.inj (Except.ok.inj h)
      exact .inr ⟨rfl, table, rfl, rfl, rfl⟩

/-- After a load that succeeds, the copy stands on the shelf. -/
theorem lookup_of_load (h : shelf.load files name = .ok (copy, grown)) :
    grown.copies.lookup name = some copy := by
  rcases load_cases h with ⟨hlookup, rfl⟩ | ⟨_, _, _, _, rfl⟩
  · exact hlookup
  · exact lookup_keep_self

/-- The table of a name is read from its file. -/
theorem read_of_file? {path : Path} (h : name.file? = some path) :
    read files name = readFile files path name.source := by
  cases name with
  | uniform => cases h
  | text name =>
    obtain rfl := Option.some.inj h
    rfl
  | path place =>
    obtain rfl := Option.some.inj h
    rfl

/-- A table that was read from a file is what its text holds. -/
theorem exists_of_readFile {path : Path} {source : String} {table : SplitTable Float}
    (h : readFile files path source = .ok table) :
    ∃ bytes text, files.read path = .ok bytes ∧ Text.Utf8.decode bytes = .ok text ∧
      SplitTable.parse (Text.withLineFeeds text) source = .ok table := by
  unfold readFile at h
  split at h
  · cases h
  · cases hbytes : files.read path with
    | error reason =>
      rw [hbytes] at h
      cases reason <;> cases h
    | ok bytes =>
      simp only [hbytes] at h
      cases htext : Text.Utf8.decode bytes with
      | error failure =>
        simp only [htext] at h
        cases h
      | ok text =>
        simp only [htext] at h
        refine ⟨bytes, text, rfl, htext, ?_⟩
        cases hparse : SplitTable.parse (Text.withLineFeeds text) source with
        | error problem =>
          rw [hparse] at h
          cases h
        | ok parsed =>
          rw [hparse] at h
          obtain rfl := Except.ok.inj h
          rfl

/-- What the text of a file holds is read. -/
theorem readFile_of_parse {path : Path} {source : String} {bytes : List UInt8} {text : List Char}
    {table : SplitTable Float} (hnull : path.hasNull = false) (hbytes : files.read path = .ok bytes)
    (htext : Text.Utf8.decode bytes = .ok text)
    (htable : SplitTable.parse (Text.withLineFeeds text) source = .ok table) :
    readFile files path source = .ok table := by
  unfold readFile
  rw [hnull, hbytes]
  simp only [Bool.false_eq_true, if_false, htext, htable]
  rfl

/-- The table that comes with the library is valid. -/
theorem valid_uniform : (SplitTable.uniform (K := Float)).Valid := by
  refine ⟨List.cons_ne_nil _ _, ?_⟩
  change ∀ value ∈ (SplitTable.uniformValues : List Float), _
  decide +kernel

/-- Every table that is read is valid. -/
theorem valid_of_read {table : SplitTable Float} (h : read files name = .ok table) :
    table.Valid := by
  cases hfile : name.file? with
  | none =>
    cases name with
    | uniform =>
      obtain rfl := Except.ok.inj h
      exact valid_uniform
    | text name => cases hfile
    | path place => cases hfile
  | some path =>
    rw [read_of_file? hfile] at h
    obtain ⟨_, _, _, _, hparse⟩ := exists_of_readFile h
    exact SplitTable.valid_of_parse hparse

/-- What holds of every shelf: its copies are numbered in the order in which they were made, and
their tables are valid. -/
structure Sound (shelf : Shelf) : Prop where
  numbered : shelf.copies.map (·.2.number) = (List.range shelf.copies.length).reverse
  valid : ∀ p ∈ shelf.copies, p.2.table.Valid

theorem sound_empty : empty.Sound := ⟨rfl, by simp [empty]⟩

/-- A load keeps a shelf sound. -/
theorem Sound.of_load (hsound : shelf.Sound) (h : shelf.load files name = .ok (copy, grown)) :
    grown.Sound := by
  rcases load_cases h with ⟨_, rfl⟩ | ⟨_, table, hread, rfl, rfl⟩
  · exact hsound
  · constructor
    · simp [keep, newCopy, List.range_succ, hsound.numbered]
    · intro p hp
      rcases List.mem_cons.mp hp with rfl | hp
      · exact valid_of_read hread
      · exact hsound.valid p hp

/-- Names with copies of one number are the same. -/
theorem Sound.eq_of_number_eq (h : shelf.Sound) {other : TableName} {copy' : TableCopy}
    (hname : shelf.copies.lookup name = some copy)
    (hother : shelf.copies.lookup other = some copy') (heq : copy.number = copy'.number) :
    name = other := by
  have hdiff : (shelf.copies.map (·.2.number)).Nodup := by
    rw [h.numbered, List.nodup_reverse]
    exact List.nodup_range
  have hmem := mem_of_lookup hname
  have hmem' := mem_of_lookup hother
  exact congrArg Prod.fst (List.inj_on_of_nodup_map hdiff hmem hmem' heq)

end Shelf

end AdmissibleRegion
