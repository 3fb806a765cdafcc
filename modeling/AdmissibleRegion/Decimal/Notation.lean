import AdmissibleRegion.Binary64

/-!
# Writing a number

A positive quotient of natural numbers has a decimal exponent, the position of its first
digit, and a nearest integer. Both are found in exact arithmetic, so that every notation of a
binary64 number rounds its exact value. With a fixed count of digits, there is a notation by
significant digits with an exponent and one by places behind the point, both to nearest with
ties to even.

The fewest digits that read back are found from the reals that round to a number. They form an
interval around it, closed exactly when the mantissa is even. For one digit, two digits and so
on, the two neighbours of the number on the decimal grid of that many digits are tried; the
first grid with a point in the interval wins, and of two such points the nearer. Seventeen
digits always suffice.
-/

namespace AdmissibleRegion.Decimal

/-! ## Digits of a quotient -/

/-- The integer nearest to `num / den`, the even one of two that are equally near. -/
def roundQuotient (num den : Nat) : Nat :=
  let q := num / den
  let r := num % den
  if den < 2 * r ∨ (2 * r = den ∧ q % 2 = 1) then q + 1 else q

/-- Whether `10 ^ k ≤ num / den`. -/
def reaches (num den : Nat) : Int → Bool
  | .ofNat k => den * Nat.pow 10 k ≤ num
  | .negSucc k => den ≤ num * Nat.pow 10 (k + 1)

/-- Raises an exponent, at most `steps` times, as long as the quotient reaches the next power. -/
def raise (num den : Nat) : Nat → Int → Int
  | 0, k => k
  | steps + 1, k => if reaches num den (k + 1) then raise num den steps (k + 1) else k

/-- The exponent `k` with `10 ^ k ≤ num / den < 10 ^ (k + 1)`. The search begins at the
exponent that the lengths in bits guarantee, which is short of it by a few. -/
def exponent (num den : Nat) : Int :=
  let bits : Int := (num.log2 : Int) - den.log2 - 1
  raise num den 8 ((bits * 30103).fdiv 100000 - 2)

/-- The quotient `num / den` divided by `10 ^ k`. -/
def scaleDown (num den : Nat) : Int → Nat × Nat
  | .ofNat k => (num, den * Nat.pow 10 k)
  | .negSucc k => (num * Nat.pow 10 (k + 1), den)

/-- The quotient `num / den` as `digits` significant digits and the exponent of the first of
them, rounded to nearest; a carry past the first digit raises the exponent. -/
def significant (digits num den : Nat) : Nat × Int :=
  if num = 0 then (0, 0)
  else
    let k := exponent num den
    let (n, d) := scaleDown num den (k - (digits - 1))
    let q := roundQuotient n d
    if q = Nat.pow 10 digits then (Nat.pow 10 (digits - 1), k + 1) else (q, k)

/-- The last `width` decimal digits of a number. -/
def lastDigits (width n : Nat) : List Char :=
  match width with
  | 0 => []
  | width + 1 => lastDigits width (n / 10) ++ [Nat.digitChar (n % 10)]

/-! ## A fixed count of digits -/

/-- A finite number without its sign, as a quotient. -/
def quotient (mantissa : Nat) : Int → Nat × Nat
  | .ofNat e => (mantissa <<< e, 1)
  | .negSucc e => (mantissa, 1 <<< (e + 1))

/-- The sign of an exponent and at least two digits. -/
def exponentText (k : Int) : String :=
  let digits := Nat.toDigits 10 k.natAbs
  let padded := if digits.length < 2 then '0' :: digits else digits
  String.ofList ('e' :: (if k < 0 then '-' else '+') :: padded)

/-- A sign in front of a text. -/
def signed (negative : Bool) (text : String) : String :=
  if negative then "-" ++ text else text

/-- A number with one digit before the point and `places` digits behind it. -/
def scientific (places : Nat) (x : Float) : String :=
  match Binary64.ofFloat x with
  | .nan => "nan"
  | .infinite negative => signed negative "inf"
  | .finite negative mantissa e =>
    let (num, den) := quotient mantissa e
    let (q, k) := significant (places + 1) num den
    let point := if places = 0 then "" else "."
    signed negative (String.ofList (lastDigits 1 (q / Nat.pow 10 places)) ++ point
      ++ String.ofList (lastDigits places q) ++ exponentText k)

/-- A number with `places` digits behind the point. -/
def fixed (places : Nat) (x : Float) : String :=
  match Binary64.ofFloat x with
  | .nan => "nan"
  | .infinite negative => signed negative "inf"
  | .finite negative mantissa e =>
    let (num, den) := quotient mantissa e
    let q := roundQuotient (num * Nat.pow 10 places) den
    let point := if places = 0 then "" else "."
    signed negative (String.ofList (Nat.toDigits 10 (q / Nat.pow 10 places)) ++ point
      ++ String.ofList (lastDigits places q))

/-! ## The fewest digits that read back -/

/-- The interval of the reals that round to a number, all in units of a quarter of its last
place: the number itself is `4 * mantissa`. Below a power of two the gap is half as wide. -/
structure Basin where
  /-- The lower end. -/
  low : Nat
  /-- The number itself. -/
  centre : Nat
  /-- The upper end. -/
  high : Nat
  /-- Whether the ends belong to it. -/
  closed : Bool

/-- The basin of a positive number. -/
def Basin.of (mantissa : Nat) (e : Int) : Basin where
  low := 4 * mantissa - (if mantissa = Binary64.hiddenBit ∧ -1074 < e then 1 else 2)
  centre := 4 * mantissa
  high := 4 * mantissa + 2
  closed := mantissa % 2 = 0

/-- Whether the quotient `num / den` lies in a basin. -/
def Basin.holds (b : Basin) (num den : Nat) : Bool :=
  if b.closed then b.low * den ≤ num && num ≤ b.high * den
  else b.low * den < num && num < b.high * den

/-- The number of `digits` digits nearest to `x` among the two neighbours of `x` on that grid,
if one of them rounds to `x`; `num / den` is the unit of the basin, `k` the exponent of `x`. -/
def candidate? (b : Basin) (num den : Nat) (k : Int) (digits : Nat) : Option (Nat × Int) :=
  let (n, d) := scaleDown num den (k - (digits - 1))
  let below := b.centre * n / d
  let fits (q : Nat) : Bool := b.holds (q * d) n
  let gapBelow := b.centre * n - below * d
  let gapAbove := (below + 1) * d - b.centre * n
  let lowerFirst := gapBelow < gapAbove || (gapBelow = gapAbove && below % 2 = 0)
  let (first, second) := if lowerFirst then (below, below + 1) else (below + 1, below)
  if fits first then some (first, k)
  else if fits second then some (second, k)
  else none

/-- Tries ever longer grids. -/
def search (b : Basin) (num den : Nat) (k : Int) : Nat → Nat → Nat × Nat × Int
  | 0, digits => (digits, 0, k)
  | steps + 1, digits =>
    match candidate? b num den k digits with
    | some (q, k) => (digits, q, k)
    | none => search b num den k steps (digits + 1)

/-- The digits of a positive number that read back, as an integer without trailing zeros, and
the exponent of the first digit. -/
def shortestDigits (mantissa : Nat) (e : Int) : List Char × Int :=
  let (num, den) := quotient 1 (e - 2)
  let k := exponent (4 * mantissa * num) den
  let (digits, q, k) := search (.of mantissa e) num den k 17 1
  if q = Nat.pow 10 digits then (['1'], k + 1)
  else
    let text := Nat.toDigits 10 q
    ((text.reverse.dropWhile (· = '0')).reverse, k)

/-- Digits with the point behind the digit of exponent zero, and at least one digit on either
side of it. -/
def positional (digits : List Char) (k : Int) : String :=
  match k with
  | .negSucc k => String.ofList ('0' :: '.' :: List.replicate k '0' ++ digits)
  | .ofNat k =>
    let whole := digits.take (k + 1)
    let behind := digits.drop (k + 1)
    String.ofList (whole ++ List.replicate (k + 1 - whole.length) '0' ++ '.' ::
      (if behind.isEmpty then ['0'] else behind))

/-- Digits with the point behind the first one, if more follow, and the exponent. -/
def exponential (digits : List Char) (k : Int) : String :=
  match digits with
  | first :: second :: rest => String.ofList (first :: '.' :: second :: rest) ++ exponentText k
  | _ => String.ofList digits ++ exponentText k

/-- A number with the fewest digits that read back: positional from `0.0001` to below `10 ^ 16`,
with an exponent outside. -/
def shortest (x : Float) : String :=
  match Binary64.ofFloat x with
  | .nan => "nan"
  | .infinite negative => signed negative "inf"
  | .finite negative 0 _ => signed negative "0.0"
  | .finite negative mantissa e =>
    let (digits, k) := shortestDigits mantissa e
    signed negative (if -4 ≤ k ∧ k < 16 then positional digits k else exponential digits k)

end AdmissibleRegion.Decimal
