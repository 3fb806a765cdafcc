import AdmissibleRegion.Decimal.Numeral
import AdmissibleRegion.SplitTable

/-!
# Reading a table of split sizes

A table is written with one positive number on a line. Blank lines are skipped, but count
for the number of a line in a message. The first line that is not a positive number decides
what is reported.

Blanks are the characters of Unicode's white space together with the four information
separators. Ten characters break a line; a carriage return and the line feed that follows
it break it once.
-/

namespace AdmissibleRegion.Text

/-! ## Blank characters and line breaks -/

/-- The code points of the blanks. -/
def blankCodes : List Nat :=
  [0x9, 0xa, 0xb, 0xc, 0xd, 0x1c, 0x1d, 0x1e, 0x1f, 0x20, 0x85, 0xa0, 0x1680, 0x2000, 0x2001,
   0x2002, 0x2003, 0x2004, 0x2005, 0x2006, 0x2007, 0x2008, 0x2009, 0x200a, 0x2028, 0x2029,
   0x202f, 0x205f, 0x3000]

/-- A character that is left out at either end of a line. -/
def isBlank (c : Char) : Bool := blankCodes.contains c.toNat

/-- The code points of the characters that break a line. -/
def breakCodes : List Nat := [0xa, 0xb, 0xc, 0xd, 0x1c, 0x1d, 0x1e, 0x85, 0x2028, 0x2029]

/-- A character that ends a line. -/
def isBreak (c : Char) : Bool := breakCodes.contains c.toNat

/-- What breaks a line is blank. -/
theorem isBlank_of_isBreak {c : Char} (h : isBreak c = true) : isBlank c = true := by
  have hsub : ∀ n ∈ breakCodes, n ∈ blankCodes := by decide
  simp only [isBreak, isBlank, List.contains_iff_mem] at h ⊢
  exact hsub _ h

/-- A text without the blanks at its two ends. -/
def strip (text : List Char) : List Char :=
  ((text.dropWhile isBlank).reverse.dropWhile isBlank).reverse

/-- Puts a character in front of the first line, or begins one. -/
def consLine (c : Char) : List (List Char) → List (List Char)
  | [] => [[c]]
  | line :: rest => (c :: line) :: rest

/-- The lines of a text without their breaks; nothing follows a break that ends the text. -/
def lines : List Char → List (List Char)
  | [] => []
  | '\r' :: '\n' :: rest => [] :: lines rest
  | c :: rest => if isBreak c then [] :: lines rest else consLine c (lines rest)

/-- Every line break of a text written as a line feed, whether it was a carriage return, a
line feed, or one after the other. -/
def withLineFeeds : List Char → List Char
  | [] => []
  | '\r' :: '\n' :: rest => '\n' :: withLineFeeds rest
  | '\r' :: rest => '\n' :: withLineFeeds rest
  | c :: rest => c :: withLineFeeds rest

end AdmissibleRegion.Text

namespace AdmissibleRegion.SplitTable

/-! ## Lines of a table -/

/-- What one line contributes: nothing, a value, or a problem. -/
def readLine (source : String) (number : Nat) (line : List Char) :
    Except TableProblem (Option Float) :=
  let text := Text.strip line
  if text.isEmpty then .ok none
  else
    match Decimal.numeral? text with
    | none => .error (.notANumber source number text)
    | some value =>
      if value.isFinite && 0 < value then .ok (some value)
      else .error (.notPositive source number text)

/-- The values of some lines, the first of which has the given number. -/
def readLines (source : String) (number : Nat) :
    List (List Char) → Except TableProblem (List Float)
  | [] => .ok []
  | line :: rest => do
    let value ← readLine source number line
    let values ← readLines source (number + 1) rest
    return value.toList ++ values

/-- The table that a text holds; it has at least one value. -/
def parse (text : List Char) (source : String) : Except TableProblem (SplitTable Float) := do
  let values ← readLines source 1 (Text.lines text)
  if values.isEmpty then throw (.empty source) else return ⟨values, source⟩

end AdmissibleRegion.SplitTable
