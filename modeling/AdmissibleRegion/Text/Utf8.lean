/-!
# Reading bytes as characters

A character takes one to four bytes. The first byte says how many follow and bounds the
second, so that no character has two encodings, no surrogate has one, and nothing lies
beyond the last code point. A failure names the longest run of bytes that began a character
and could not be completed.
-/

namespace AdmissibleRegion.Text.Utf8

/-- Why a run of bytes is no character. -/
inductive Reason where
  /-- No character begins with this byte. -/
  | start
  /-- The byte after the run does not continue it. -/
  | continuation
  /-- The text ends inside a character. -/
  | truncated
  deriving DecidableEq, Repr

/-- The bytes that could not be read: how many, the place and the value of the first of
them, and the reason. -/
structure Failure where
  /-- The number of bytes before the run. -/
  position : Nat
  /-- The number of bytes in the run. -/
  length : Nat
  /-- The first byte of the run. -/
  byte : UInt8
  /-- Why the run is no character. -/
  reason : Reason
  deriving DecidableEq, Repr

/-- What the first byte of a character says: how many bytes follow, the least and the
greatest value of the next one, and the payload bits of the first byte itself. -/
def lead? (b : UInt8) : Option (Nat × UInt8 × UInt8 × Nat) :=
  if b < 0x80 then some (0, 0x80, 0xBF, b.toNat)
  else if b < 0xC2 then none
  else if b < 0xE0 then some (1, 0x80, 0xBF, b.toNat - 0xC0)
  else if b < 0xF0 then
    some (2, if b = 0xE0 then 0xA0 else 0x80, if b = 0xED then 0x9F else 0xBF, b.toNat - 0xE0)
  else if b < 0xF5 then
    some (3, if b = 0xF0 then 0x90 else 0x80, if b = 0xF4 then 0x8F else 0xBF, b.toNat - 0xF0)
  else none

/-- Reads `owed` further bytes of a character whose first bytes gave `code`, the next one
between `low` and `high`; gives the code point and the bytes behind it, or the number of
bytes that fitted and the reason why the next one did not. -/
def tail (owed : Nat) (low high : UInt8) (code fitted : Nat) (bytes : List UInt8) :
    Except (Nat × Reason) (Nat × List UInt8) :=
  match owed, bytes with
  | 0, rest => .ok (code, rest)
  | _ + 1, [] => .error (fitted, .truncated)
  | owed + 1, b :: rest =>
    if low ≤ b ∧ b ≤ high then
      tail owed 0x80 0xBF (code * 64 + (b.toNat - 0x80)) (fitted + 1) rest
    else .error (fitted, .continuation)

/-- What is left after a character is no longer than what was there. -/
theorem length_tail_le {owed : Nat} {low high : UInt8} {code fitted : Nat} {bytes : List UInt8}
    {result : Nat × List UInt8} (h : tail owed low high code fitted bytes = .ok result) :
    result.2.length ≤ bytes.length := by
  induction owed generalizing low high code fitted bytes with
  | zero => simp only [tail, Except.ok.injEq] at h; simp [← h]
  | succ owed ih =>
    cases bytes with
    | nil => simp [tail] at h
    | cons b rest =>
      simp only [tail] at h
      split at h
      · exact Nat.le_succ_of_le (ih h)
      · simp at h

/-- Reads all characters of a run of bytes that begins at a given place. -/
def decodeFrom (position : Nat) (bytes : List UInt8) : Except Failure (List Char) :=
  match bytes with
  | [] => .ok []
  | b :: rest =>
    match lead? b with
    | none => .error ⟨position, 1, b, .start⟩
    | some (owed, low, high, code) =>
      match h : tail owed low high code 1 rest with
      | .error (fitted, reason) => .error ⟨position, fitted, b, reason⟩
      | .ok (code, behind) => do
        let text ← decodeFrom (position + owed + 1) behind
        return Char.ofNat code :: text
termination_by bytes.length
decreasing_by
  have := length_tail_le h
  simp only [List.length_cons] at this ⊢
  omega

/-- The characters that a run of bytes holds. -/
def decode (bytes : List UInt8) : Except Failure (List Char) := decodeFrom 0 bytes

/-- The reason in words. -/
def Reason.message : Reason → String
  | .start => "invalid start byte"
  | .continuation => "invalid continuation byte"
  | .truncated => "unexpected end of data"

/-- The letters of a byte in hexadecimal notation. -/
def byteText (b : UInt8) : String :=
  String.ofList ((Nat.toDigits 16 (b.toNat + 256)).drop 1)

/-- The failure in words; a run of more than one byte is given by its first and last place. -/
def Failure.message (f : Failure) : String :=
  let what :=
    if f.length = 1 then s!"byte 0x{byteText f.byte} in position {f.position}"
    else s!"bytes in position {f.position}-{f.position + f.length - 1}"
  s!"'utf-8' codec can't decode {what}: {f.reason.message}"

end AdmissibleRegion.Text.Utf8
