import AdmissibleRegion.Proofs.SplitTable.Joining
import AdmissibleRegion.Proofs.SplitTable.Session
import AdmissibleRegion.Proofs.Text.Utf8

/-!
# What loads fail with

A load that returns no table names a problem of the table, unless the path has a null character
or the bytes of the file are those of no text. These two are reported as what they are, and
nothing else is. Names and paths are texts of Unicode scalar values: one with a lone surrogate,
which no text has, cannot be asked for here.
-/

namespace AdmissibleRegion

/-- The source that a problem of a table names. -/
def TableProblem.source : TableProblem → String
  | .notANumber source _ _ | .notPositive source _ _ | .empty source | .missing source _
  | .directory source _ | .notADirectory source _ | .nameTooLong source _ => source

/-- Bytes that some text is written with. -/
def Text.Utf8.IsText (bytes : List UInt8) : Prop :=
  ∃ text : List Char, bytes = text.flatMap String.utf8EncodeChar

/-- Bytes are either read or refused. -/
theorem Text.Utf8.isText_iff {bytes : List UInt8} :
    IsText bytes ↔ ∃ text, decode bytes = .ok text :=
  exists_congr fun _ => decode_eq_ok_iff.symm

theorem Text.Utf8.not_isText_iff {bytes : List UInt8} :
    ¬IsText bytes ↔ ∃ failure, decode bytes = .error failure := by
  rw [isText_iff]
  cases decode bytes <;> simp

namespace SplitTable

/-- A text that is no table has a problem that names its source. -/
theorem source_of_parse {text : List Char} {source : String} {problem : TableProblem}
    (h : parse text source = .error problem) : problem.source = source := by
  by_cases hnone : ∀ line ∈ Text.lines text, ¬Offends line
  · rw [parse_of_forall hnone] at h
    split at h
    · obtain rfl := Except.error.inj h
      rfl
    · cases h
  · push Not at hnone
    obtain ⟨i, line, hfirst⟩ := exists_firstOffence hnone
    rw [parse_of_firstOffence hfirst] at h
    obtain rfl := Except.error.inj h
    unfold offence
    cases Decimal.numeral? (Text.strip line) <;> rfl

end SplitTable

namespace Shelf

variable {files : FileTree} {name : TableName} {path : Path} {source : String}

/-- A table that can be used, or a problem that names its source. -/
def Promised (source : String) (result : Except (Fault Float) (SplitTable Float)) : Prop :=
  (∃ table, result = .ok table ∧ table.Valid) ∨
    ∃ problem, result = .error (.table problem) ∧ problem.source = source

theorem readFile_of_hasNull (h : path.hasNull = true) :
    readFile files path source = .error .nullInPath := if_pos h

/-- A file that cannot be read is a problem of the table. -/
theorem promised_of_unreadable {reason : Unreadable} (hnull : path.hasNull = false)
    (h : files.read path = .error reason) : Promised source (readFile files path source) := by
  unfold readFile
  rw [hnull, h]
  cases reason <;> exact .inr ⟨_, rfl, rfl⟩

theorem readFile_of_undecodable {bytes : List UInt8} {failure : Text.Utf8.Failure}
    (hnull : path.hasNull = false) (h : files.read path = .ok bytes)
    (hfailure : Text.Utf8.decode bytes = .error failure) :
    readFile files path source = .error (.undecodable failure) := by
  unfold readFile
  rw [hnull, h]
  simp only [Bool.false_eq_true, if_false, hfailure]

/-- A text is a table, or has a problem. -/
theorem promised_of_text {bytes : List UInt8} {text : List Char} (hnull : path.hasNull = false)
    (h : files.read path = .ok bytes) (htext : Text.Utf8.decode bytes = .ok text) :
    Promised source (readFile files path source) := by
  unfold readFile
  rw [hnull, h]
  simp only [Bool.false_eq_true, if_false, htext]
  cases hparse : SplitTable.parse (Text.withLineFeeds text) source with
  | ok table => exact .inl ⟨table, rfl, SplitTable.valid_of_parse hparse⟩
  | error problem => exact .inr ⟨problem, rfl, SplitTable.source_of_parse hparse⟩

/-- Why no table and no problem of one is the result of a read. -/
inductive Escapes (files : FileTree) (name : TableName) : Fault Float → Prop where
  /-- The path has a null character. -/
  | nullInPath {path : Path} : name.file? = some path → path.hasNull = true →
      Escapes files name .nullInPath
  /-- The bytes of the file are those of no text. -/
  | undecodable {path : Path} {bytes : List UInt8} {failure : Text.Utf8.Failure} :
      name.file? = some path → path.hasNull = false → files.read path = .ok bytes →
      Text.Utf8.decode bytes = .error failure → Escapes files name (.undecodable failure)

/-- A read keeps what is promised, or there is a reason why not. -/
theorem promised_or_escapes (files : FileTree) (name : TableName) :
    Promised name.source (read files name) ∨
      ∃ fault, read files name = .error fault ∧ Escapes files name fault := by
  cases hfile : name.file? with
  | none =>
    cases name with
    | uniform => exact .inl (.inl ⟨_, rfl, valid_uniform⟩)
    | text name => cases hfile
    | path place => cases hfile
  | some path =>
    rw [read_of_file? hfile]
    cases hnull : path.hasNull with
    | true => exact .inr ⟨_, readFile_of_hasNull hnull, .nullInPath hfile hnull⟩
    | false =>
      cases hread : files.read path with
      | error reason => exact .inl (promised_of_unreadable hnull hread)
      | ok bytes =>
        cases hbytes : Text.Utf8.decode bytes with
        | ok text => exact .inl (promised_of_text hnull hread hbytes)
        | error failure =>
          exact .inr ⟨_, readFile_of_undecodable hnull hread hbytes,
            .undecodable hfile hnull hread hbytes⟩

/-- Where there is a reason, the fault is the result. -/
theorem Escapes.read_eq {fault : Fault Float} (h : Escapes files name fault) :
    read files name = .error fault := by
  cases h with
  | nullInPath hfile hnull =>
    rw [read_of_file? hfile]
    exact readFile_of_hasNull hnull
  | undecodable hfile hnull hread hbytes =>
    rw [read_of_file? hfile]
    exact readFile_of_undecodable hnull hread hbytes

/-- Such a fault is no problem of the table. -/
theorem Escapes.not_promised {fault : Fault Float} (h : Escapes files name fault) :
    ¬Promised source (.error fault) := by
  rintro (⟨_, heq, _⟩ | ⟨problem, heq, _⟩)
  · cases heq
  · obtain rfl := Except.error.inj heq
    cases h

/-- There is no such reason exactly if the path has no null character and the bytes of the file,
if it has any, are those of a text. -/
theorem forall_not_escapes_iff : (∀ fault, ¬Escapes files name fault) ↔
    ∀ path, name.file? = some path → path.hasNull = false ∧
      ∀ bytes, files.read path = .ok bytes → Text.Utf8.IsText bytes := by
  constructor
  · intro h path hfile
    have hnull : path.hasNull = false := by
      rw [Bool.eq_false_iff]
      exact fun hnull => h _ (.nullInPath hfile hnull)
    refine ⟨hnull, fun bytes hread => ?_⟩
    by_contra htext
    obtain ⟨failure, hbytes⟩ := Text.Utf8.not_isText_iff.mp htext
    exact h _ (.undecodable hfile hnull hread hbytes)
  · intro h fault hescapes
    cases hescapes with
    | nullInPath hfile hnull =>
      rw [(h _ hfile).1] at hnull
      cases hnull
    | undecodable hfile _ hread hbytes =>
      exact Text.Utf8.not_isText_iff.mpr ⟨_, hbytes⟩ ((h _ hfile).2 _ hread)

/-- A read keeps what is promised exactly if the path has no null character and the bytes of the
file are those of a text. -/
theorem promised_read_iff : Promised name.source (read files name) ↔
    ∀ path, name.file? = some path → path.hasNull = false ∧
      ∀ bytes, files.read path = .ok bytes → Text.Utf8.IsText bytes := by
  rw [← forall_not_escapes_iff]
  constructor
  · intro h fault hescapes
    rw [hescapes.read_eq] at h
    exact hescapes.not_promised h
  · intro h
    rcases promised_or_escapes files name with hpromised | ⟨fault, _, hescapes⟩
    · exact hpromised
    · exact absurd hescapes (h fault)

end Shelf

namespace Session

variable {session : Session} {name : TableName} {copy : TableCopy}

/-- A copy on the shelf is returned as what is promised. -/
theorem promised_of_lookup (hsound : session.shelf.Sound)
    (h : session.shelf.copies.lookup name = some copy) :
    Shelf.Promised name.source ((session.answer name).map (·.table)) := by
  rw [answer_of_lookup h]
  exact .inl ⟨copy.table, rfl, hsound.valid _ (Shelf.mem_of_lookup h)⟩

/-- A load returns a table that can be used, or names a problem of the table, exactly if a table
was loaded by that name before, or the path has no null character and the bytes of the file are
those of a text. Otherwise it fails with that null character or with those bytes. -/
theorem load_promised_iff (files : FileTree) (steps : List SessionStep) (name : TableName) :
    (Shelf.Promised name.source ((((opened files).after steps).answer name).map (·.table)) ↔
      (∃ copy, ((opened files).after steps).shelf.copies.lookup name = some copy) ∨
        ∀ path, name.file? = some path → path.hasNull = false ∧
          ∀ bytes, ((opened files).after steps).files.read path = .ok bytes →
            Text.Utf8.IsText bytes) ∧
    ∀ fault, ((opened files).after steps).answer name = .error fault →
      (∃ problem, fault = .table problem ∧ problem.source = name.source) ∨
        Shelf.Escapes ((opened files).after steps).files name fault := by
  have hsound : ((opened files).after steps).shelf.Sound := sound_after Shelf.sound_empty steps
  generalize (opened files).after steps = session at hsound ⊢
  cases hlookup : session.shelf.copies.lookup name with
  | some copy =>
    refine ⟨iff_of_true (promised_of_lookup hsound hlookup) (.inl ⟨copy, rfl⟩), ?_⟩
    intro fault hfault
    rw [answer_of_lookup hlookup] at hfault
    cases hfault
  | none =>
    have hread := table_answer_of_lookup_eq_none hlookup
    constructor
    · rw [hread, Shelf.promised_read_iff]
      simp
    · intro fault hfault
      rw [hfault] at hread
      rcases Shelf.promised_or_escapes session.files name with hpromised | ⟨other, hother, h⟩
      · rw [← hread] at hpromised
        rcases hpromised with ⟨_, heq, _⟩ | ⟨problem, heq, hsource⟩
        · cases heq
        · exact .inl ⟨problem, Except.error.inj heq, hsource⟩
      · obtain rfl := Except.error.inj (hread.trans hother)
        exact .inr h

/-- A file of one byte, with which no character begins. -/
def garbled : FileTree := ⟨[(["sizes"], .file [0xff])]⟩

/-- The table in that file. -/
def garbledName : TableName := .path ⟨"", ["sizes"]⟩

/-- A load of it fails, and names no problem of a table. -/
theorem load_garbled :
    (opened garbled).answer garbledName = .error (.undecodable ⟨0, 1, 0xff, .start⟩) ∧
    ¬((∃ copy, (opened garbled).answer garbledName = .ok copy ∧ copy.table.Valid) ∨
      ∃ problem, (opened garbled).answer garbledName = .error (.table problem)) := by
  have hbyte : Text.Utf8.decode [0xff] = .error ⟨0, 1, 0xff, .start⟩ := by
    rw [Text.Utf8.decode, Text.Utf8.decodeFrom]
    rfl
  have hescapes : Shelf.Escapes garbled garbledName (.undecodable ⟨0, 1, 0xff, .start⟩) :=
    .undecodable rfl (by simp [Path.hasNull]) (by decide +kernel) hbyte
  have hanswer : (opened garbled).answer garbledName =
      .error (.undecodable ⟨0, 1, 0xff, .start⟩) := by
    unfold answer
    rw [Shelf.load_of_lookup_eq_none rfl]
    have hread : Shelf.read (opened garbled).files garbledName = _ := hescapes.read_eq
    rw [hread]
    rfl
  refine ⟨hanswer, ?_⟩
  rw [hanswer]
  rintro (⟨_, heq, _⟩ | ⟨_, heq⟩)
  · cases heq
  · cases heq

end Session

end AdmissibleRegion
