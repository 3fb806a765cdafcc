/-!
# Reading a decimal number

A numeral is an optional sign and then a word for infinity or for what is not a number, in
letters of either case, or digits with an optional point and an optional exponent. One low
line may stand between two digits. The value is the binary64 number nearest to the exact one.

Digits of every script count. Unicode gives each script's ten decimal digits ten consecutive
code points, from zero to nine, so that a character is a digit exactly when it is at most nine
places after one of the zeros.
-/

namespace AdmissibleRegion.Text

/-! ## Decimal digits of every script -/

/-- The code points of the zeros of all scripts, in ascending order. -/
def zeros : List Nat :=
  [0x30, 0x660, 0x6f0, 0x7c0, 0x966, 0x9e6, 0xa66, 0xae6, 0xb66,
   0xbe6, 0xc66, 0xce6, 0xd66, 0xde6, 0xe50, 0xed0, 0xf20, 0x1040,
   0x1090, 0x17e0, 0x1810, 0x1946, 0x19d0, 0x1a80, 0x1a90, 0x1b50, 0x1bb0,
   0x1c40, 0x1c50, 0xa620, 0xa8d0, 0xa900, 0xa9d0, 0xa9f0, 0xaa50, 0xabf0,
   0xff10, 0x104a0, 0x10d30, 0x11066, 0x110f0, 0x11136, 0x111d0, 0x112f0, 0x11450,
   0x114d0, 0x11650, 0x116c0, 0x11730, 0x118e0, 0x11950, 0x11c50, 0x11d50, 0x11da0,
   0x16a60, 0x16ac0, 0x16b50, 0x1d7ce, 0x1d7d8, 0x1d7e2, 0x1d7ec, 0x1d7f6, 0x1e140,
   0x1e2f0, 0x1e950, 0x1fbf0]

/-- The value of a decimal digit of any script. -/
def digitValue? (c : Char) : Option Nat :=
  (zeros.find? fun z => z ≤ c.toNat && c.toNat ≤ z + 9).map (c.toNat - ·)

/-- The ten digits of the Latin script have their usual values. -/
example : "0123456789".toList.map digitValue? = (List.range 10).map some := by decide

/-- A letter is no digit. -/
example : digitValue? 'e' = none := by decide

end AdmissibleRegion.Text

namespace AdmissibleRegion.Decimal

/-! ## Numerals -/

/-- The characters of a numeral with its digits in the Latin script; any other character
beyond that script becomes one that no numeral holds. -/
def latinDigits (text : List Char) : List Char :=
  text.map fun c =>
    if c.toNat < 128 then c
    else match Text.digitValue? c with
      | some value => Nat.digitChar value
      | none => '?'

/-- Takes out the low lines, each of which must stand between two digits; `before` says
whether a digit stands before the text. -/
def withoutLowLines (before : Bool) : List Char → Option (List Char)
  | [] => some []
  | '_' :: rest =>
    match rest with
    | c :: _ => if before && c.isDigit then withoutLowLines false rest else none
    | [] => none
  | c :: rest => (withoutLowLines c.isDigit rest).map (c :: ·)

/-- The value of a run of Latin digits. -/
def naturalOf (digits : List Char) : Nat :=
  digits.foldl (fun n c => 10 * n + (c.toNat - 48)) 0

/-- A sign, if there is one, and the rest. -/
def takeSign : List Char → Bool × List Char
  | '-' :: rest => (true, rest)
  | '+' :: rest => (false, rest)
  | rest => (false, rest)

/-- The exponent that a numeral ends with, `none` if something else stands there. -/
def exponentOf? : List Char → Option Int
  | [] => some 0
  | c :: rest =>
    if c = 'e' ∨ c = 'E' then
      let (negative, digits) := takeSign rest
      if digits.isEmpty || !digits.all Char.isDigit then none
      else
        let n : Int := naturalOf digits
        some (if negative then -n else n)
    else none

/-- The binary64 number nearest to `m * 10 ^ e`. Exponents that put every nonzero number past
the largest, or below half the least, need not be carried out. -/
def nearest (m : Nat) (e : Int) : Float :=
  let length : Int := (Nat.toDigits 10 m).length
  if m = 0 then 0
  else if 310 < e + length then Float.ofScientific 1 false 400
  else if e + length < -330 then 0
  else
    match e with
    | .ofNat e => Float.ofScientific m false e
    | .negSucc e => Float.ofScientific m true (e + 1)

/-- The number that unsigned digits, point and exponent stand for. -/
def unsigned? (text : List Char) : Option Float :=
  let whole := text.takeWhile Char.isDigit
  let rest := text.dropWhile Char.isDigit
  let (places, rest) :=
    match rest with
    | '.' :: rest => (rest.takeWhile Char.isDigit, rest.dropWhile Char.isDigit)
    | rest => ([], rest)
  if whole.isEmpty && places.isEmpty then none
  else (exponentOf? rest).map fun e => nearest (naturalOf (whole ++ places)) (e - places.length)

/-- The number that a word stands for. -/
def named? (text : List Char) : Option Float :=
  let word := String.ofList (text.map Char.toLower)
  if word = "inf" ∨ word = "infinity" then some (1 / 0)
  else if word = "nan" then some (0 / 0)
  else none

/-- The number that a numeral stands for. -/
def numeral? (text : List Char) : Option Float := do
  let plain ← withoutLowLines false (latinDigits text)
  let (negative, body) := takeSign plain
  let x ← (named? body).or (unsigned? body)
  return if negative then -x else x

end AdmissibleRegion.Decimal
