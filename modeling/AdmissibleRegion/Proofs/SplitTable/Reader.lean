import AdmissibleRegion.Proofs.Binary64
import AdmissibleRegion.Proofs.SplitTable
import AdmissibleRegion.SplitTable.Reader

/-!
# Tables that were read

Reading refuses every number that is not finite and positive, and a text without numbers, so
that a table that was read is valid. So is the table of the numbers its sizes stand for.
-/

namespace AdmissibleRegion.SplitTable

variable {source : String} {number : ℕ}

/-- A line that can be no part of a table: it is not blank, and not a number that is finite and
positive. -/
def Offends (line : List Char) : Prop :=
  Text.strip line ≠ [] ∧ ∀ value, Decimal.numeral? (Text.strip line) = some value →
    ¬(value.isFinite = true ∧ 0 < value)

/-- What is reported of a line that offends. -/
def offence (source : String) (number : ℕ) (line : List Char) : TableProblem :=
  match Decimal.numeral? (Text.strip line) with
  | none => .notANumber source number (Text.strip line)
  | some _ => .notPositive source number (Text.strip line)

theorem numeral?_nil : Decimal.numeral? [] = none := rfl

theorem readLine_of_offends {line : List Char} (h : Offends line) :
    readLine source number line = .error (offence source number line) := by
  obtain ⟨hne, hvalue⟩ := h
  unfold readLine offence
  dsimp only
  rw [if_neg (by simpa using hne)]
  cases hnumeral : Decimal.numeral? (Text.strip line) with
  | none => rfl
  | some value =>
    have hrefused : (value.isFinite && decide (0 < value)) = false := by
      simpa using hvalue value hnumeral
    simp only [hrefused, Bool.false_eq_true, if_false]

/-- Any other line contributes the number that it holds; a blank line holds none. -/
theorem readLine_of_not_offends {line : List Char} (h : ¬Offends line) :
    readLine source number line = .ok (Decimal.numeral? (Text.strip line)) := by
  unfold readLine
  dsimp only
  by_cases hblank : Text.strip line = []
  · rw [hblank]
    rfl
  · rw [if_neg (by simpa using hblank)]
    have hnumber : ∃ value, Decimal.numeral? (Text.strip line) = some value ∧
        value.isFinite = true ∧ 0 < value := by
      by_contra hnone
      exact h ⟨hblank, fun value hvalue hpositive => hnone ⟨value, hvalue, hpositive⟩⟩
    obtain ⟨value, hvalue, hfinite, hpos⟩ := hnumber
    simp [hvalue, hfinite, hpos]

/-- A line contributes no number that is not finite and positive. -/
theorem positive_of_readLine {line : List Char} {value : Float}
    (h : readLine source number line = .ok (some value)) : value.isFinite = true ∧ 0 < value := by
  by_cases hoffends : Offends line
  · rw [readLine_of_offends hoffends] at h
    cases h
  · rw [readLine_of_not_offends hoffends] at h
    have hvalue := Except.ok.inj h
    by_contra hpositive
    refine hoffends ⟨fun hblank => ?_, fun other hother => ?_⟩
    · rw [hblank, numeral?_nil] at hvalue
      cases hvalue
    · obtain rfl := Option.some.inj (hvalue.symm.trans hother)
      exact hpositive

/-- Neither do some lines. -/
theorem positive_of_readLines {lines : List (List Char)} {values : List Float}
    (h : readLines source number lines = .ok values) :
    ∀ value ∈ values, value.isFinite = true ∧ 0 < value := by
  induction lines generalizing number values with
  | nil =>
    obtain rfl := Except.ok.inj h
    simp
  | cons line lines ih =>
    obtain ⟨first, hfirst, h⟩ := exists_of_bind_eq_ok h
    obtain ⟨rest, hrest, h⟩ := exists_of_bind_eq_ok h
    obtain rfl := Except.ok.inj h
    intro value hvalue
    rcases List.mem_append.mp hvalue with hvalue | hvalue
    · obtain rfl := Option.mem_toList.mp hvalue
      exact positive_of_readLine hfirst
    · exact ih hrest value hvalue

/-- A table that was read is valid. -/
theorem valid_of_parse {text : List Char} {table : SplitTable Float}
    (h : parse text source = .ok table) : table.Valid := by
  obtain ⟨values, hvalues, h⟩ := exists_of_bind_eq_ok h
  split at h
  · cases h
  · rename_i hne
    obtain rfl := Except.ok.inj h
    rw [List.isEmpty_iff] at hne
    exact ⟨hne, positive_of_readLines hvalues⟩

/-- The table of the numbers that the sizes stand for. -/
noncomputable def toReal (table : SplitTable Float) : SplitTable ℝ :=
  ⟨table.values.map fun value => (Binary64.ofFloat value).value, table.source⟩

/-- Sizes that are positive stand for positive numbers. -/
theorem Valid.toReal {table : SplitTable Float} (h : table.Valid) : table.toReal.Valid := by
  refine ⟨mt List.map_eq_nil_iff.mp h.ne_nil, fun value hvalue => ⟨rfl, ?_⟩⟩
  obtain ⟨x, hx, rfl⟩ := List.mem_map.mp hvalue
  obtain ⟨hfinite, hpos⟩ := h.positive x hx
  rw [Scalar.zero_literal, Rat.cast_pos]
  exact Binary64.value_pos hfinite hpos

end AdmissibleRegion.SplitTable
