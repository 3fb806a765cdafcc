import AdmissibleRegion.Scalar

/-!
# The value of a binary64 number

A finite number is an integer times a power of two, with a sign of its own so that both
zeros are kept apart. The other two kinds are the infinities and what is not a number. The
library runs on this arithmetic; the floor of a number is read off its exact value.
-/

namespace AdmissibleRegion

/-- The kinds of binary64 numbers, with the exact value of a finite one. -/
inductive Binary64 where
  /-- Not a number. -/
  | nan
  /-- An infinity of either sign. -/
  | infinite (negative : Bool)
  /-- The number `mantissa * 2 ^ exponent`, negated if so marked. -/
  | finite (negative : Bool) (mantissa : Nat) (exponent : Int)
  deriving DecidableEq, Repr

namespace Binary64

/-- The weight of the leading digit of a mantissa, which is not stored. -/
def hiddenBit : Nat := 1 <<< 52

/-- Reads sign, exponent and fraction from the sixty-four bits. -/
def ofFloat (x : Float) : Binary64 :=
  let bits := x.toBits.toNat
  let negative := bits >>> 63 = 1
  let biased := (bits >>> 52) % 2048
  let fraction := bits % hiddenBit
  if biased = 2047 then
    if fraction = 0 then .infinite negative else .nan
  else if biased = 0 then .finite negative fraction (-1074)
  else .finite negative (hiddenBit + fraction) (Int.ofNat biased - 1075)

/-- The largest integer that is at most a finite number; zero for all others. -/
def floor : Binary64 → Int
  | .finite negative mantissa exponent =>
    let signed : Int := if negative then -mantissa else mantissa
    match exponent with
    | .ofNat e => signed <<< e
    | .negSucc e => signed >>> (e + 1)
  | _ => 0

end Binary64

/-! ## Binary64 numbers as scalars -/

instance : Scalar Float where
  decLt := inferInstance
  decLe := inferInstance
  ofInt := Float.ofInt
  floor x := (Binary64.ofFloat x).floor
  magnitude := Float.abs
  sqrt := Float.sqrt
  sin := Float.sin
  cos := Float.cos
  exp := Float.exp
  pi := 3.141592653589793
  isZero x := x == 0
  isFinite := Float.isFinite
  isNaN := Float.isNaN

end AdmissibleRegion
