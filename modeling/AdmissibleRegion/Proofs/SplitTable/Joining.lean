import AdmissibleRegion.Proofs.SplitTable.Reader

/-!
# Tables of joined texts

A text is a table unless one of its lines offends or all are blank. The first line that offends
decides what is reported. So two texts with a line feed in between hold the values of both, in
order, and the first offence of the second one is reported under its number in the joined text.

A line feed between two texts ends the last line of the first one, also together with a carriage
return in front of it. So the lines of both follow each other, with at most an empty one in
between.
-/

namespace AdmissibleRegion.Text

/-! ## Lines of joined texts -/

variable {c : Char} {text : List Char}

/-- A character breaks a line or is part of the first one, unless a line feed that breaks the line
with it follows. -/
theorem lines_cons (h : ∀ rest, c = '\r' → text = '\n' :: rest → False) :
    lines (c :: text) = if isBreak c then [] :: lines text else consLine c (lines text) := by
  rw [lines]
  exact h

theorem consLine_append {found : List (List Char)} (h : found ≠ []) (rest : List (List Char)) :
    consLine c (found ++ rest) = consLine c found ++ rest := by
  obtain ⟨line, found, rfl⟩ := List.exists_cons_of_ne_nil h
  rfl

/-- A text that is not empty has a line. -/
theorem lines_ne_nil (h : text ≠ []) : lines text ≠ [] := by
  fun_cases lines text with
  | case1 => exact absurd rfl h
  | case2 rest => exact List.cons_ne_nil _ _
  | case3 c rest => exact List.cons_ne_nil _ _
  | case4 c rest => cases lines rest <;> exact List.cons_ne_nil _ _

/-- Behind a text, a line feed ends its last line, or begins and ends an empty one. -/
theorem exists_lines_append (a : List Char) : ∃ between : List (List Char),
    (∀ line ∈ between, line = []) ∧
      ∀ b, lines (a ++ '\n' :: b) = lines a ++ (between ++ lines b) := by
  fun_induction lines a with
  | case1 => exact ⟨[[]], by simp, fun b => rfl⟩
  | case2 rest ih =>
    obtain ⟨between, hempty, hlines⟩ := ih
    refine ⟨between, hempty, fun b => ?_⟩
    simp [lines, hlines b]
  | case3 c rest hnot hbreak ih =>
    by_cases hlast : c = '\r' ∧ rest = []
    · -- the carriage return and the line feed break one line
      obtain ⟨rfl, rfl⟩ := hlast
      exact ⟨[], by simp, fun b => rfl⟩
    · obtain ⟨between, hempty, hlines⟩ := ih
      refine ⟨between, hempty, fun b => ?_⟩
      rw [List.cons_append, lines_cons, if_pos hbreak, hlines b]
      · rfl
      · rintro after rfl hafter
        cases rest with
        | nil => exact hlast ⟨rfl, rfl⟩
        | cons d rest =>
          obtain rfl := (List.cons.inj hafter).1
          exact hnot rest rfl rfl
  | case4 c rest hnot hbreak ih =>
    have hcarriage : ∀ text after : List Char, c = '\r' → text = '\n' :: after → False := by
      rintro _ _ rfl
      exact absurd rfl hbreak
    cases rest with
    | nil =>
      refine ⟨[], by simp, fun b => ?_⟩
      rw [List.cons_append, lines_cons (hcarriage _), if_neg hbreak]
      rfl
    | cons d rest =>
      obtain ⟨between, hempty, hlines⟩ := ih
      refine ⟨between, hempty, fun b => ?_⟩
      rw [List.cons_append, lines_cons (hcarriage _), if_neg hbreak, hlines b,
        consLine_append (lines_ne_nil (List.cons_ne_nil d rest))]

/-- The lines of two texts with a line feed in between are those of the first one with the line
feed, and those of the second one. -/
theorem lines_append_lineFeed (a b : List Char) :
    lines (a ++ '\n' :: b) = lines (a ++ ['\n']) ++ lines b := by
  obtain ⟨between, _, hlines⟩ := exists_lines_append a
  rw [hlines, hlines, List.append_assoc, List.append_assoc]
  rfl

/-- A carriage return at the end of the first text and the line feed break one line. -/
example : lines (['a', '\r'] ++ '\n' :: ['b']) = [['a'], ['b']] := by decide

end AdmissibleRegion.Text

namespace AdmissibleRegion.SplitTable

/-! ## Joined tables -/

variable {source : String} {number i : ℕ} {line : List Char} {lines rest : List (List Char)}
  {text a b : List Char}

/-- The first line that offends stands at an index. -/
structure FirstOffence (lines : List (List Char)) (i : ℕ) (line : List Char) : Prop where
  at_index : lines[i]? = some line
  offends : Offends line
  before : ∀ j < i, ∀ earlier, lines[j]? = some earlier → ¬Offends earlier

/-- The values of some lines, of which none offends. -/
def valuesOf (lines : List (List Char)) : List Float :=
  lines.filterMap fun line => Decimal.numeral? (Text.strip line)

theorem valuesOf_append (lines rest : List (List Char)) :
    valuesOf (lines ++ rest) = valuesOf lines ++ valuesOf rest :=
  List.filterMap_append

/-- Blank lines have no values. -/
theorem valuesOf_eq_nil (h : ∀ line ∈ lines, line = []) : valuesOf lines = [] := by
  refine List.filterMap_eq_nil_iff.mpr fun line hline => ?_
  rw [h line hline]
  exact numeral?_nil

theorem not_offends_nil : ¬Offends [] := fun h => h.1 rfl

theorem exists_firstOffence (h : ∃ line ∈ lines, Offends line) :
    ∃ i line, FirstOffence lines i line := by
  induction lines with
  | nil =>
    obtain ⟨line, hline, _⟩ := h
    cases hline
  | cons first lines ih =>
    by_cases hfirst : Offends first
    · exact ⟨0, first, rfl, hfirst, fun j hj => absurd hj j.not_lt_zero⟩
    · obtain ⟨line, hline, hoffends⟩ := h
      have hrest : line ∈ lines := by
        refine (List.mem_cons.mp hline).resolve_left ?_
        rintro rfl
        exact hfirst hoffends
      obtain ⟨i, found, hfound⟩ := ih ⟨line, hrest, hoffends⟩
      refine ⟨i + 1, found, hfound.at_index, hfound.offends, fun j hj earlier hearlier => ?_⟩
      cases j with
      | zero =>
        obtain rfl := Option.some.inj hearlier
        exact hfirst
      | succ j => exact hfound.before j (Nat.succ_lt_succ_iff.mp hj) earlier hearlier

/-- Lines behind an offence do not matter. -/
theorem FirstOffence.append (h : FirstOffence lines i line) (rest : List (List Char)) :
    FirstOffence (lines ++ rest) i line := by
  have hi := (List.getElem?_eq_some_iff.mp h.at_index).1
  refine ⟨?_, h.offends, fun j hj earlier hearlier => ?_⟩
  · rw [List.getElem?_append_left hi]
    exact h.at_index
  · rw [List.getElem?_append_left (hj.trans hi)] at hearlier
    exact h.before j hj earlier hearlier

/-- Lines in front that do not offend move the first offence. -/
theorem FirstOffence.prepend (h : FirstOffence rest i line)
    (hlines : ∀ line ∈ lines, ¬Offends line) :
    FirstOffence (lines ++ rest) (lines.length + i) line := by
  refine ⟨?_, h.offends, fun j hj earlier hearlier => ?_⟩
  · rw [List.getElem?_append_right (Nat.le_add_right _ _), Nat.add_sub_cancel_left]
    exact h.at_index
  · by_cases hj' : j < lines.length
    · rw [List.getElem?_append_left hj'] at hearlier
      exact hlines earlier (List.mem_of_getElem? hearlier)
    · rw [List.getElem?_append_right (not_lt.mp hj')] at hearlier
      exact h.before (j - lines.length) (by omega) earlier hearlier

/-- Lines are read up to the first one that offends. -/
theorem readLines_of_firstOffence (h : FirstOffence lines i line) :
    readLines source number lines = .error (offence source (number + i) line) := by
  induction lines generalizing number i with
  | nil => cases h.at_index
  | cons first lines ih =>
    unfold readLines
    cases i with
    | zero =>
      obtain rfl := Option.some.inj h.at_index
      rw [readLine_of_offends h.offends]
      rfl
    | succ i =>
      have hrest : FirstOffence lines i line :=
        ⟨h.at_index, h.offends, fun j hj => h.before (j + 1) (Nat.succ_lt_succ hj)⟩
      rw [readLine_of_not_offends (h.before 0 i.succ_pos first rfl), ok_bind, ih hrest,
        Nat.add_assoc number, Nat.add_comm 1]
      rfl

/-- Without an offence, every line contributes what it holds. -/
theorem readLines_of_forall (h : ∀ line ∈ lines, ¬Offends line) :
    readLines source number lines = .ok (valuesOf lines) := by
  induction lines generalizing number with
  | nil => rfl
  | cons first lines ih =>
    unfold readLines
    rw [readLine_of_not_offends (h first List.mem_cons_self), ok_bind,
      ih fun line hline => h line (List.mem_cons_of_mem _ hline), ok_bind]
    unfold valuesOf
    rw [List.filterMap_cons]
    cases Decimal.numeral? (Text.strip first) <;> rfl

/-- The first line that offends decides what is reported. -/
theorem parse_of_firstOffence (h : FirstOffence (Text.lines text) i line) :
    parse text source = .error (offence source (i + 1) line) := by
  unfold parse
  rw [readLines_of_firstOffence h, Nat.add_comm]
  rfl

/-- Without an offence, the values are a table unless there are none. -/
theorem parse_of_forall (h : ∀ line ∈ Text.lines text, ¬Offends line) :
    parse text source = if valuesOf (Text.lines text) = [] then .error (.empty source)
      else .ok ⟨valuesOf (Text.lines text), source⟩ := by
  unfold parse
  rw [readLines_of_forall h, ok_bind]
  simp only [List.isEmpty_iff]
  rfl

/-- A line feed behind a text adds no offence. -/
theorem not_offends_append_lineFeed (h : ∀ line ∈ Text.lines a, ¬Offends line) :
    ∀ line ∈ Text.lines (a ++ ['\n']), ¬Offends line := by
  obtain ⟨between, hempty, hlines⟩ := Text.exists_lines_append a
  rw [hlines, Text.lines, List.append_nil]
  refine List.forall_mem_append.mpr ⟨h, fun line hline => ?_⟩
  rw [hempty line hline]
  exact not_offends_nil

/-- It adds no value either. -/
theorem valuesOf_append_lineFeed (a : List Char) :
    valuesOf (Text.lines (a ++ ['\n'])) = valuesOf (Text.lines a) := by
  obtain ⟨between, hempty, hlines⟩ := Text.exists_lines_append a
  rw [hlines, Text.lines, List.append_nil, valuesOf_append, valuesOf_eq_nil hempty,
    List.append_nil]

/-- How texts are read as tables. -/
structure LineByLine (source : String) : Prop where
  /-- Of the lines that offend there is a first one. -/
  exists_first : ∀ text, (∃ line ∈ Text.lines text, Offends line) →
    ∃ i line, FirstOffence (Text.lines text) i line
  /-- It decides what is reported; blank lines count for its number. -/
  reported : ∀ {text i line}, FirstOffence (Text.lines text) i line →
    parse text source = .error (offence source (i + 1) line)
  /-- Without any, all values are a table, unless there are none. -/
  alone : ∀ {text}, (∀ line ∈ Text.lines text, ¬Offends line) →
    parse text source = if valuesOf (Text.lines text) = [] then .error (.empty source)
      else .ok ⟨valuesOf (Text.lines text), source⟩
  /-- An offence of the first text is reported as if nothing followed. -/
  first : ∀ {a i line} b, FirstOffence (Text.lines a) i line →
    parse (a ++ '\n' :: b) source = parse a source
  /-- Otherwise one of the second text is reported under a later number. -/
  second : ∀ {a b i line}, (∀ line ∈ Text.lines a, ¬Offends line) →
    FirstOffence (Text.lines b) i line → parse (a ++ '\n' :: b) source =
      .error (offence source (i + 1 + (Text.lines (a ++ ['\n'])).length) line)
  /-- Without an offence, the values of the second text follow those of the first one. -/
  neither : ∀ {a b}, (∀ line ∈ Text.lines a, ¬Offends line) →
    (∀ line ∈ Text.lines b, ¬Offends line) → parse (a ++ '\n' :: b) source =
      if valuesOf (Text.lines a) ++ valuesOf (Text.lines b) = [] then .error (.empty source)
      else .ok ⟨valuesOf (Text.lines a) ++ valuesOf (Text.lines b), source⟩
  /-- A text is a table exactly if some line is not blank and none offends. -/
  succeeds_iff : ∀ text, (∃ table, parse text source = .ok table) ↔
    (∃ line ∈ Text.lines text, Text.strip line ≠ []) ∧ ∀ line ∈ Text.lines text, ¬Offends line
  /-- Every line that is not blank holds one value, in order. -/
  in_order : ∀ {text table}, parse text source = .ok table →
    (((Text.lines text).map Text.strip).filter (· ≠ [])).map Decimal.numeral? =
      table.values.map some
  /-- There are values, and all of them are finite and positive. -/
  valid : ∀ {text table}, parse text source = .ok table → table.Valid

/-- A line that is not blank and does not offend holds a value. -/
theorem exists_numeral?_of_not_offends (h : ¬Offends line) (hne : Text.strip line ≠ []) :
    ∃ value, Decimal.numeral? (Text.strip line) = some value := by
  by_contra hnone
  exact h ⟨hne, fun value hvalue => absurd ⟨value, hvalue⟩ hnone⟩

/-- Values are those of the lines that are not blank, one for each. -/
theorem map_some_valuesOf (h : ∀ line ∈ lines, ¬Offends line) :
    ((lines.map Text.strip).filter (· ≠ [])).map Decimal.numeral? =
      (valuesOf lines).map some := by
  induction lines with
  | nil => rfl
  | cons first lines ih =>
    have hrest := ih fun line hline => h line (List.mem_cons_of_mem _ hline)
    unfold valuesOf at hrest ⊢
    rw [List.map_cons, List.filterMap_cons]
    by_cases hblank : Text.strip first = []
    · rw [hblank, numeral?_nil, List.filter_cons_of_neg (by simp)]
      exact hrest
    · obtain ⟨value, hvalue⟩ :=
        exists_numeral?_of_not_offends (h first List.mem_cons_self) hblank
      rw [List.filter_cons_of_pos (by simpa using hblank), List.map_cons, hrest, hvalue]
      rfl

/-- A text that is a table has no offence. -/
theorem not_offends_of_parse {table : SplitTable Float} (h : parse text source = .ok table) :
    ∀ line ∈ Text.lines text, ¬Offends line := by
  intro line hline hoffends
  obtain ⟨i, found, hfound⟩ := exists_firstOffence ⟨line, hline, hoffends⟩
  rw [parse_of_firstOffence hfound] at h
  cases h

/-- Its values are those of its lines. -/
theorem values_of_parse {table : SplitTable Float} (h : parse text source = .ok table) :
    table.values = valuesOf (Text.lines text) := by
  rw [parse_of_forall (not_offends_of_parse h)] at h
  split at h
  · cases h
  · obtain rfl := Except.ok.inj h
    rfl

/-- Without an offence, there are values exactly if some line is not blank. -/
theorem valuesOf_ne_nil_iff (h : ∀ line ∈ lines, ¬Offends line) :
    valuesOf lines ≠ [] ↔ ∃ line ∈ lines, Text.strip line ≠ [] := by
  unfold valuesOf
  rw [ne_eq, List.filterMap_eq_nil_iff, not_forall]
  simp only [Classical.not_imp]
  refine exists_congr fun line => and_congr_right fun hline => ?_
  constructor
  · intro hnumeral hblank
    rw [hblank] at hnumeral
    exact hnumeral numeral?_nil
  · intro hne hnone
    obtain ⟨value, hvalue⟩ := exists_numeral?_of_not_offends (h line hline) hne
    rw [hnone] at hvalue
    cases hvalue

/-- A text is a table exactly if some line is not blank and none offends. -/
theorem exists_parse_iff : (∃ table, parse text source = .ok table) ↔
    (∃ line ∈ Text.lines text, Text.strip line ≠ []) ∧
      ∀ line ∈ Text.lines text, ¬Offends line := by
  constructor
  · rintro ⟨table, htable⟩
    have hnone := not_offends_of_parse htable
    refine ⟨(valuesOf_ne_nil_iff hnone).mp ?_, hnone⟩
    rw [← values_of_parse htable]
    exact (valid_of_parse htable).ne_nil
  · rintro ⟨hsome, hnone⟩
    rw [parse_of_forall hnone, if_neg ((valuesOf_ne_nil_iff hnone).mpr hsome)]
    exact ⟨_, rfl⟩

/-- Tables are read line by line. -/
theorem parsed_line_by_line (source : String) : LineByLine source where
  exists_first _ := exists_firstOffence
  reported := parse_of_firstOffence
  alone := parse_of_forall
  first {a i line} b h := by
    obtain ⟨between, _, hlines⟩ := Text.exists_lines_append a
    have hjoined : FirstOffence (Text.lines (a ++ '\n' :: b)) i line := by
      rw [hlines]
      exact h.append _
    rw [parse_of_firstOffence hjoined, parse_of_firstOffence h]
  second {a b i line} ha h := by
    have hjoined : FirstOffence (Text.lines (a ++ '\n' :: b))
        ((Text.lines (a ++ ['\n'])).length + i) line := by
      rw [Text.lines_append_lineFeed]
      exact h.prepend (not_offends_append_lineFeed ha)
    rw [parse_of_firstOffence hjoined, Nat.add_comm _ i, Nat.add_right_comm]
  neither {a b} ha hb := by
    have hjoined : ∀ line ∈ Text.lines (a ++ '\n' :: b), ¬Offends line := by
      rw [Text.lines_append_lineFeed]
      exact List.forall_mem_append.mpr ⟨not_offends_append_lineFeed ha, hb⟩
    rw [parse_of_forall hjoined, Text.lines_append_lineFeed, valuesOf_append,
      valuesOf_append_lineFeed]
  succeeds_iff _ := exists_parse_iff
  in_order h := by
    rw [map_some_valuesOf (not_offends_of_parse h), values_of_parse h]
  valid := valid_of_parse

end AdmissibleRegion.SplitTable
