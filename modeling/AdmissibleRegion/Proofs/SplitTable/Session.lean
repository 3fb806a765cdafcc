import AdmissibleRegion.Proofs.SplitTable.Shelf

/-!
# What sessions answer

A step of a session keeps every copy on the shelf, and adds at most the one that it returns. So
a copy that is found was returned by an earlier load of its name. Sessions that agree in the
steps that change files or load one name agree in what they load by that name.
-/

namespace AdmissibleRegion

namespace Shelf

variable {shelf grown : Shelf} {files : FileTree} {name : TableName} {copy : TableCopy}

/-- Every copy of a shelf stands on another one as well. -/
def Extends (shelf grown : Shelf) : Prop :=
  ∀ name copy, shelf.copies.lookup name = some copy → grown.copies.lookup name = some copy

theorem Extends.refl (shelf : Shelf) : shelf.Extends shelf := fun _ _ h => h

theorem Extends.trans {third : Shelf} (h : shelf.Extends grown) (h' : grown.Extends third) :
    shelf.Extends third := by
  intro name copy hlookup
  exact h' name copy (h name copy hlookup)

/-- A load keeps every copy. -/
theorem extends_of_load (h : shelf.load files name = .ok (copy, grown)) : shelf.Extends grown := by
  rcases load_cases h with ⟨_, rfl⟩ | ⟨hnone, _, _, _, rfl⟩
  · exact Extends.refl _
  · intro other found hlookup
    have hne : other ≠ name := by
      rintro rfl
      rw [hnone] at hlookup
      cases hlookup
    rw [lookup_keep_of_ne hne]
    exact hlookup

/-- A load changes nothing under other names. -/
theorem lookup_load_of_ne {other : TableName} (hne : other ≠ name)
    (h : shelf.load files name = .ok (copy, grown)) :
    grown.copies.lookup other = shelf.copies.lookup other := by
  rcases load_cases h with ⟨_, rfl⟩ | ⟨_, _, _, _, rfl⟩
  · rfl
  · exact lookup_keep_of_ne hne

end Shelf

namespace Session

variable {session : Session} {files : FileTree} {steps : List SessionStep} {step : SessionStep}
  {name other : TableName} {i j : ℕ} {copy : TableCopy}
  {outcome : Except (Fault Float) TableCopy}

/-- A session among some files, before anything was loaded. -/
def opened (files : FileTree) : Session := ⟨files, .empty⟩

/-- The state that some steps lead to. -/
def after (session : Session) (steps : List SessionStep) : Session :=
  steps.foldl (fun state step => (state.step step).1) session

/-- What a load by a name returns in a state. -/
def answer (session : Session) (name : TableName) : Except (Fault Float) TableCopy :=
  (session.shelf.load session.files name).map Prod.fst

/-- The step at an index loads by a name, with an outcome. -/
def Loads (session : Session) (steps : List SessionStep) (i : ℕ) (name : TableName)
    (outcome : Except (Fault Float) TableCopy) : Prop :=
  steps[i]? = some (.load name) ∧ (session.run steps)[i]? = some (some outcome)

/-- The step at an index is the first load by a name that succeeds. -/
def FirstLoads (session : Session) (steps : List SessionStep) (i : ℕ) (name : TableName)
    (copy : TableCopy) : Prop :=
  session.Loads steps i name (.ok copy) ∧
    ∀ k < i, ∀ earlier, ¬ session.Loads steps k name (.ok earlier)

theorem step_load_snd : (session.step (.load name)).2 = some (session.answer name) := by
  unfold answer
  cases h : session.shelf.load session.files name <;> simp [step, h, Except.map]

/-- What a step does to the shelf: nothing, or what a load that succeeds does. -/
theorem step_cases (session : Session) (step : SessionStep) :
    (session.step step).1.shelf = session.shelf ∨
      ∃ name copy, step = .load name ∧
        session.shelf.load session.files name = .ok (copy, (session.step step).1.shelf) := by
  cases step with
  | write path bytes => exact .inl rfl
  | remove path => exact .inl rfl
  | makeDirectory path => exact .inl rfl
  | load name =>
    cases h : session.shelf.load session.files name with
    | error fault => exact .inl (by simp [Session.step, h])
    | ok result =>
      obtain ⟨copy, grown⟩ := result
      exact .inr ⟨name, copy, rfl, by simp [Session.step, h]⟩

/-- A load leaves the files as they are. -/
theorem files_step_load : (session.step (.load name)).1.files = session.files := by
  cases h : session.shelf.load session.files name <;> simp [step, h]

theorem files_step_write (path : String) (bytes : List UInt8) :
    (session.step (.write path bytes)).1.files =
      session.files.put (.ofText path) (.file bytes) := rfl

/-- A load that fails leaves everything as it is. -/
theorem step_of_answer_eq_error {fault : Fault Float} (h : session.answer name = .error fault) :
    (session.step (.load name)).1 = session := by
  unfold answer at h
  cases hload : session.shelf.load session.files name with
  | error problem => simp [step, hload]
  | ok result =>
    rw [hload] at h
    cases h

/-- After a load that succeeds, its copy stands on the shelf. -/
theorem lookup_of_answer_eq_ok (h : session.answer name = .ok copy) :
    (session.step (.load name)).1.shelf.copies.lookup name = some copy := by
  unfold answer at h
  cases hload : session.shelf.load session.files name with
  | error problem =>
    rw [hload] at h
    cases h
  | ok result =>
    obtain ⟨found, grown⟩ := result
    rw [hload] at h
    obtain rfl := Except.ok.inj h
    have hlookup := Shelf.lookup_of_load hload
    simpa [step, hload] using hlookup

/-- A copy on the shelf is what a load by its name returns. -/
theorem answer_of_lookup (h : session.shelf.copies.lookup name = some copy) :
    session.answer name = .ok copy := by
  unfold answer
  rw [Shelf.load_of_lookup h]
  rfl

/-- Without a copy on the shelf, a load reads the table. -/
theorem table_answer_of_lookup_eq_none (h : session.shelf.copies.lookup name = none) :
    (session.answer name).map (·.table) = Shelf.read session.files name := by
  unfold answer
  rw [Shelf.load_of_lookup_eq_none h]
  cases Shelf.read session.files name <;> rfl

/-- The table that is found after a load by the name is the one that it returned. -/
theorem lookup_step_load (session : Session) (name : TableName) :
    (((session.step (.load name)).1.shelf.copies.lookup name).map (·.table)) =
      ((session.answer name).map (·.table)).toOption := by
  cases hanswer : session.answer name with
  | ok copy =>
    rw [lookup_of_answer_eq_ok hanswer]
    rfl
  | error fault =>
    rw [step_of_answer_eq_error hanswer]
    cases hlookup : session.shelf.copies.lookup name with
    | none => rfl
    | some copy =>
      rw [answer_of_lookup hlookup] at hanswer
      cases hanswer

theorem extends_step (session : Session) (step : SessionStep) :
    session.shelf.Extends (session.step step).1.shelf := by
  rcases session.step_cases step with h | ⟨_, _, _, h⟩
  · rw [h]
    exact Shelf.Extends.refl _
  · exact Shelf.extends_of_load h

theorem sound_step (h : session.shelf.Sound) (step : SessionStep) :
    (session.step step).1.shelf.Sound := by
  rcases session.step_cases step with heq | ⟨_, _, _, hload⟩
  · rw [heq]
    exact h
  · exact h.of_load hload

/-- A copy that a step brings is the one that it returns. -/
theorem answer_of_lookup_step (hnone : session.shelf.copies.lookup name = none)
    (h : (session.step step).1.shelf.copies.lookup name = some copy) :
    step = .load name ∧ session.answer name = .ok copy := by
  rcases session.step_cases step with heq | ⟨asked, found, rfl, hload⟩
  · rw [heq, hnone] at h
    cases h
  · by_cases hname : name = asked
    · obtain rfl := hname
      rw [Shelf.lookup_of_load hload] at h
      obtain rfl := Option.some.inj h
      refine ⟨rfl, ?_⟩
      unfold answer
      rw [hload]
      rfl
    · rw [Shelf.lookup_load_of_ne hname hload, hnone] at h
      cases h

@[simp] theorem after_nil : session.after [] = session := rfl

@[simp] theorem after_cons : session.after (step :: steps) = (session.step step).1.after steps :=
  rfl

theorem after_append (steps rest : List SessionStep) :
    session.after (steps ++ rest) = (session.after steps).after rest :=
  List.foldl_append

theorem after_take_succ (h : steps[i]? = some step) :
    session.after (steps.take (i + 1)) = ((session.after (steps.take i)).step step).1 := by
  rw [List.take_add_one, h, after_append]
  rfl

theorem extends_after (session : Session) (steps : List SessionStep) :
    session.shelf.Extends (session.after steps).shelf := by
  induction steps generalizing session with
  | nil => exact Shelf.Extends.refl _
  | cons step steps ih => exact (extends_step session step).trans (ih _)

theorem sound_after (h : session.shelf.Sound) (steps : List SessionStep) :
    (session.after steps).shelf.Sound := by
  induction steps generalizing session with
  | nil => exact h
  | cons step steps ih => exact ih (sound_step h step)

theorem extends_of_le (h : i ≤ j) :
    (session.after (steps.take i)).shelf.Extends (session.after (steps.take j)).shelf := by
  obtain ⟨k, rfl⟩ := Nat.exists_eq_add_of_le h
  rw [List.take_add, after_append]
  exact extends_after _ _

/-- The answer of a step is what it returns in the state that the steps before it lead to. -/
theorem getElem?_run : (session.run steps)[i]? =
    steps[i]?.map fun step => ((session.after (steps.take i)).step step).2 := by
  induction steps generalizing session i with
  | nil => rfl
  | cons step steps ih =>
    cases i with
    | zero => rfl
    | succ i => exact ih

theorem loads_iff : session.Loads steps i name outcome ↔
    steps[i]? = some (.load name) ∧ (session.after (steps.take i)).answer name = outcome := by
  refine and_congr_right fun h => ?_
  rw [getElem?_run, h, Option.map_some, step_load_snd, Option.some_inj, Option.some_inj]

/-- After a load that succeeds, its copy stays on the shelf. -/
theorem Loads.lookup (h : session.Loads steps i name (.ok copy)) (hij : i < j) :
    (session.after (steps.take j)).shelf.copies.lookup name = some copy := by
  obtain ⟨hstep, hanswer⟩ := loads_iff.mp h
  refine extends_of_le hij name copy ?_
  rw [after_take_succ hstep]
  exact lookup_of_answer_eq_ok hanswer

/-- A copy that was not on the shelf at first was returned by a load of its name. -/
theorem exists_loads_of_lookup (hnone : session.shelf.copies.lookup name = none)
    (h : (session.after (steps.take j)).shelf.copies.lookup name = some copy) :
    ∃ k < j, session.Loads steps k name (.ok copy) := by
  -- the copy stood there before the last step, or that step returned it
  induction j with
  | zero =>
    rw [List.take_zero, after_nil, hnone] at h
    cases h
  | succ j ih =>
    cases hstep : steps[j]? with
    | none =>
      rw [List.take_add_one, hstep, Option.toList_none, List.append_nil] at h
      obtain ⟨k, hk, hloads⟩ := ih h
      exact ⟨k, hk.trans j.lt_succ_self, hloads⟩
    | some step =>
      rw [after_take_succ hstep] at h
      cases hbefore : (session.after (steps.take j)).shelf.copies.lookup name with
      | some found =>
        have hkept := extends_step (session.after (steps.take j)) step name found hbefore
        obtain rfl := Option.some.inj (hkept.symm.trans h)
        obtain ⟨k, hk, hloads⟩ := ih hbefore
        exact ⟨k, hk.trans j.lt_succ_self, hloads⟩
      | none =>
        obtain ⟨rfl, hanswer⟩ := answer_of_lookup_step hbefore h
        exact ⟨j, j.lt_succ_self, loads_iff.mpr ⟨hstep, hanswer⟩⟩

/-- Two states have the same files, and the same table on the shelf under a name if any. -/
structure Agree (name : TableName) (session second : Session) : Prop where
  files_eq : session.files = second.files
  lookup_eq : (session.shelf.copies.lookup name).map (·.table) =
    (second.shelf.copies.lookup name).map (·.table)

namespace Agree

variable {second : Session}

/-- States that agree return the same table or fault. -/
theorem table_answer (h : Agree name session second) :
    (session.answer name).map (·.table) = (second.answer name).map (·.table) := by
  have hlookup := h.lookup_eq
  cases hfirst : session.shelf.copies.lookup name with
  | some copy =>
    cases hsecond : second.shelf.copies.lookup name with
    | some copy' =>
      rw [hfirst, hsecond] at hlookup
      rw [answer_of_lookup hfirst, answer_of_lookup hsecond]
      exact congrArg Except.ok (Option.some.inj hlookup)
    | none =>
      rw [hfirst, hsecond] at hlookup
      cases hlookup
  | none =>
    cases hsecond : second.shelf.copies.lookup name with
    | some copy' =>
      rw [hfirst, hsecond] at hlookup
      cases hlookup
    | none =>
      rw [table_answer_of_lookup_eq_none hfirst, table_answer_of_lookup_eq_none hsecond,
        h.files_eq]

/-- A step that both take keeps the agreement. -/
theorem of_step (h : Agree name session second) (hstep : step.concerns name = true) :
    Agree name (session.step step).1 (second.step step).1 := by
  cases step with
  | write path bytes => exact ⟨by simp [Session.step, h.files_eq], h.lookup_eq⟩
  | remove path => exact ⟨by simp [Session.step, h.files_eq], h.lookup_eq⟩
  | makeDirectory path => exact ⟨by simp [Session.step, h.files_eq], h.lookup_eq⟩
  | load asked =>
    obtain rfl : asked = name := of_decide_eq_true hstep
    refine ⟨?_, ?_⟩
    · rw [files_step_load, files_step_load, h.files_eq]
    · rw [lookup_step_load, lookup_step_load, h.table_answer]

/-- So does a load by another name that only one of them takes. -/
theorem of_step_left (h : Agree name session second) (hstep : ¬ step.concerns name = true) :
    Agree name (session.step step).1 second := by
  cases step with
  | write path bytes => exact absurd rfl hstep
  | remove path => exact absurd rfl hstep
  | makeDirectory path => exact absurd rfl hstep
  | load asked =>
    have hne : name ≠ asked := fun heq => hstep (decide_eq_true heq.symm)
    refine ⟨files_step_load.trans h.files_eq, ?_⟩
    rw [← h.lookup_eq]
    rcases session.step_cases (.load asked) with heq | ⟨_, _, hload, hok⟩
    · rw [heq]
    · obtain rfl := SessionStep.load.inj hload
      rw [Shelf.lookup_load_of_ne hne hok]

/-- Loads by other names can be left out. -/
theorem after_filter (h : Agree name session second) (steps : List SessionStep) :
    Agree name (session.after steps) (second.after (steps.filter (·.concerns name))) := by
  induction steps generalizing session second with
  | nil => exact h
  | cons step steps ih =>
    by_cases hstep : step.concerns name = true
    · rw [List.filter_cons_of_pos hstep, after_cons, after_cons]
      exact ih (h.of_step hstep)
    · rw [List.filter_cons_of_neg hstep, after_cons]
      exact ih (h.of_step_left hstep)

end Agree

/-- What loaded tables are throughout a session that begins among some files. -/
structure Coherent (files : FileTree) (steps : List SessionStep) : Prop where
  /-- Every load answers, with what a load by its name returns in the state it is made in. -/
  answers : ∀ {i name}, steps[i]? = some (.load name) →
    (opened files).Loads steps i name (((opened files).after (steps.take i)).answer name)
  /-- Once a load by a name has succeeded, every later one returns the same copy. -/
  same_copy : ∀ {i j name copy outcome}, (opened files).Loads steps i name (.ok copy) →
    (opened files).Loads steps j name outcome → i ≤ j → outcome = .ok copy
  /-- Until then, every load reads the file as it stands, also after loads that failed. -/
  reads : ∀ {j name outcome}, (opened files).Loads steps j name outcome →
    (∀ k < j, ∀ copy, ¬ (opened files).Loads steps k name (.ok copy)) →
    outcome.map (·.table) = Shelf.read ((opened files).after (steps.take j)).files name
  /-- The first load that succeeds returns what the text of the file holds at that moment. -/
  parsed : ∀ {i name path copy}, name.file? = some path →
    (opened files).FirstLoads steps i name copy →
    ∃ bytes text, ((opened files).after (steps.take i)).files.read path = .ok bytes ∧
      Text.Utf8.decode bytes = .ok text ∧
      SplitTable.parse (Text.withLineFeeds text) name.source = .ok copy.table
  /-- A load that fails changes neither the files nor the shelf. -/
  unchanged : ∀ {i name fault}, (opened files).Loads steps i name (.error fault) →
    (opened files).after (steps.take (i + 1)) = (opened files).after (steps.take i)
  /-- Loads return one copy if and only if their names are the same. -/
  number_eq_iff : ∀ {i j name other copy copy'}, (opened files).Loads steps i name (.ok copy) →
    (opened files).Loads steps j other (.ok copy') → (copy.number = copy'.number ↔ name = other)
  /-- A load has the table or the fault that it has in every session among the same files that
  changes them in the same way and loads by the same name between the same changes. -/
  alone : ∀ {steps' i j name outcome outcome'},
    (steps.take i).filter (·.concerns name) = (steps'.take j).filter (·.concerns name) →
    (opened files).Loads steps i name outcome → (opened files).Loads steps' j name outcome' →
    outcome.map (·.table) = outcome'.map (·.table)
  /-- Every table on the shelf is valid. -/
  valid : ∀ p ∈ ((opened files).after steps).shelf.copies, p.2.table.Valid

theorem lookup_opened : (opened files).shelf.copies.lookup name = none := rfl

/-- A load that no successful load by its name precedes reads the file. -/
theorem Loads.table_eq_read (h : (opened files).Loads steps j name outcome)
    (hfirst : ∀ k < j, ∀ copy, ¬ (opened files).Loads steps k name (.ok copy)) :
    outcome.map (·.table) = Shelf.read ((opened files).after (steps.take j)).files name := by
  obtain ⟨_, rfl⟩ := loads_iff.mp h
  apply table_answer_of_lookup_eq_none
  cases hlookup : ((opened files).after (steps.take j)).shelf.copies.lookup name with
  | none => rfl
  | some found =>
    obtain ⟨k, hk, hloads⟩ := exists_loads_of_lookup lookup_opened hlookup
    exact absurd hloads (hfirst k hk found)

/-- After a load that succeeds, all loads by its name return the same copy. -/
theorem Loads.eq_of_le (h : session.Loads steps i name (.ok copy))
    (h' : session.Loads steps j name outcome) (hij : i ≤ j) : outcome = .ok copy := by
  rcases hij.eq_or_lt with rfl | hlt
  · exact ((loads_iff.mp h').2.symm.trans (loads_iff.mp h).2)
  · rw [← (loads_iff.mp h').2]
    exact answer_of_lookup (h.lookup hlt)

/-- Sessions are coherent. -/
theorem coherent (files : FileTree) (steps : List SessionStep) : Coherent files steps where
  answers h := loads_iff.mpr ⟨h, rfl⟩
  same_copy h h' hij := h.eq_of_le h' hij
  reads h hfirst := h.table_eq_read hfirst
  parsed hfile h := by
    have hread := h.1.table_eq_read h.2
    rw [Shelf.read_of_file? hfile] at hread
    exact Shelf.exists_of_readFile hread.symm
  unchanged h := by
    obtain ⟨hstep, hanswer⟩ := loads_iff.mp h
    rw [after_take_succ hstep]
    exact step_of_answer_eq_error hanswer
  number_eq_iff {i j name other copy copy'} h h' := by
    -- both copies stand on the shelf after the later of the two loads
    have hlookup := h.lookup (Nat.lt_succ_of_le (le_max_left i j))
    have hlookup' := h'.lookup (Nat.lt_succ_of_le (le_max_right i j))
    refine ⟨fun heq => ?_, ?_⟩
    · exact (sound_after Shelf.sound_empty _).eq_of_number_eq hlookup hlookup' heq
    · rintro rfl
      rw [Option.some.inj (hlookup.symm.trans hlookup')]
  alone {steps' i j name outcome outcome'} hfilter h h' := by
    have hagree : Agree name (opened files) (opened files) := ⟨rfl, rfl⟩
    have hleft := (hagree.after_filter (steps.take i)).table_answer
    have hright := (hagree.after_filter (steps'.take j)).table_answer
    rw [← (loads_iff.mp h).2, ← (loads_iff.mp h').2, hleft, hright, hfilter]
  valid := (sound_after Shelf.sound_empty steps).valid

/-- If no load by a name succeeded before, a load returns the table that is read. -/
theorem Coherent.exists_loads (h : Coherent files steps) (hstep : steps[j]? = some (.load name))
    (hfirst : ∀ k < j, ∀ copy, ¬(opened files).Loads steps k name (.ok copy))
    {table : SplitTable Float}
    (hread : Shelf.read ((opened files).after (steps.take j)).files name = .ok table) :
    ∃ copy, (opened files).FirstLoads steps j name copy ∧ copy.table = table := by
  have hloads := h.answers hstep
  have htable := h.reads hloads hfirst
  rw [hread] at htable
  cases hanswer : ((opened files).after (steps.take j)).answer name with
  | error fault =>
    rw [hanswer] at htable
    cases htable
  | ok copy =>
    rw [hanswer] at hloads htable
    exact ⟨copy, ⟨hloads, hfirst⟩, Except.ok.inj htable⟩

/-- A name of one letter. -/
def shortName : TableName := .text "t"

/-- The path of the file that it names. -/
def shortPath : Path := ⟨"", ["t"]⟩

/-- A file is asked for before it is written, loaded, overwritten, and asked for again by the same
name and by its path. -/
def overwritten : List SessionStep :=
  [.load shortName, .write "t" [0x30, 0x2e, 0x35], .load shortName,
    .write "t" [0x30, 0x2e, 0x35, 0x0a, 0x31], .load shortName, .load (.path shortPath)]

theorem ofText_shortName : Path.ofText "t" = shortPath := by
  cbv

/-- A file with a text of some sizes is read as a table with as many. -/
theorem exists_readFile_shortPath {source : String} {bytes : List UInt8} {text : List Char} {n : ℕ}
    (hbytes : files.read shortPath = .ok bytes) (htext : Text.Utf8.decode bytes = .ok text)
    (hcount : (SplitTable.parse (Text.withLineFeeds text) source).toOption.map
      (·.values.length) = some n) :
    ∃ table, Shelf.readFile files shortPath source = .ok table ∧ table.values.length = n := by
  have hnull : shortPath.hasNull = false := by simp [Path.hasNull, shortPath]
  obtain ⟨table, htable, hlength⟩ := Option.map_eq_some_iff.mp hcount
  refine ⟨table, Shelf.readFile_of_parse hnull hbytes htext ?_, hlength⟩
  cases hparse : SplitTable.parse (Text.withLineFeeds text) source with
  | error problem =>
    rw [hparse] at htable
    cases htable
  | ok parsed =>
    rw [hparse] at htable
    exact congrArg Except.ok (Option.some.inj htable)

theorem exists_read_written : ∃ table,
    Shelf.read ((opened .empty).after (overwritten.take 2)).files shortName = .ok table ∧
      table.values.length = 1 := by
  have hfiles : ((opened .empty).after (overwritten.take 2)).files =
      FileTree.empty.put shortPath (.file [0x30, 0x2e, 0x35]) := by
    simp only [overwritten, List.take_succ_cons, List.take_zero, after_cons, after_nil,
      files_step_write, files_step_load, ofText_shortName]
    rfl
  have htext : Text.Utf8.decode [0x30, 0x2e, 0x35] = .ok "0.5".toList := by cbv
  rw [hfiles, shortName, Shelf.read, ofText_shortName]
  exact exists_readFile_shortPath (by cbv) htext (by decide +kernel)

theorem exists_read_overwritten : ∃ table,
    Shelf.read ((opened .empty).after (overwritten.take 5)).files (.path shortPath) = .ok table ∧
      table.values.length = 2 := by
  have hfiles : ((opened .empty).after (overwritten.take 5)).files =
      (FileTree.empty.put shortPath (.file [0x30, 0x2e, 0x35])).put shortPath
        (.file [0x30, 0x2e, 0x35, 0x0a, 0x31]) := by
    simp only [overwritten, List.take_succ_cons, List.take_zero, after_cons, after_nil,
      files_step_write, files_step_load, ofText_shortName]
    rfl
  have htext : Text.Utf8.decode [0x30, 0x2e, 0x35, 0x0a, 0x31] = .ok "0.5\n1".toList := by cbv
  rw [hfiles, Shelf.read]
  exact exists_readFile_shortPath (by cbv) htext (by decide +kernel)

/-- The first load fails, the next two return one copy, and the load by the path returns another
copy, of the file as it was written last. -/
theorem coherent_overwritten : Coherent .empty overwritten ∧ ∃ fault copy other,
    (opened .empty).Loads overwritten 0 shortName (.error fault) ∧
    (opened .empty).FirstLoads overwritten 2 shortName copy ∧ copy.table.values.length = 1 ∧
    (opened .empty).Loads overwritten 4 shortName (.ok copy) ∧
    (opened .empty).Loads overwritten 5 (.path shortPath) (.ok other) ∧
    other.table.values.length = 2 ∧ copy.number ≠ other.number := by
  have hcoherent := coherent .empty overwritten
  have hmissing : (opened .empty).answer shortName = .error (.table (.missing "t" "t")) := by
    cbv
  have hfailed := hcoherent.answers (i := 0) rfl
  rw [List.take_zero, after_nil, hmissing] at hfailed
  have hnone : ∀ k < 2, ∀ copy, ¬(opened .empty).Loads overwritten k shortName (.ok copy) := by
    intro k hk copy h
    interval_cases k
    · have heq := (loads_iff.mp h).2.symm.trans (loads_iff.mp hfailed).2
      cases heq
    · cases h.1
  have hother : ∀ k < 5, ∀ copy,
      ¬(opened .empty).Loads overwritten k (.path shortPath) (.ok copy) := by
    intro k hk copy h
    have hstep := h.1
    interval_cases k <;> cases hstep
  obtain ⟨table, hread, hlength⟩ := exists_read_written
  obtain ⟨table', hread', hlength'⟩ := exists_read_overwritten
  obtain ⟨copy, hcopy, rfl⟩ := hcoherent.exists_loads (j := 2) rfl hnone hread
  obtain ⟨copy', hcopy', rfl⟩ := hcoherent.exists_loads (j := 5) rfl hother hread'
  have hagain : (opened .empty).Loads overwritten 4 shortName _ := hcoherent.answers rfl
  rw [hcoherent.same_copy hcopy.1 hagain (by omega)] at hagain
  refine ⟨hcoherent, _, copy, copy', hfailed, hcopy, hlength, hagain, hcopy'.1, hlength', ?_⟩
  rw [ne_eq, hcoherent.number_eq_iff hcopy.1 hcopy'.1]
  rintro ⟨⟩

end Session

end AdmissibleRegion
