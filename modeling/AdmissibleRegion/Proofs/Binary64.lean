import AdmissibleRegion.Binary64
import AdmissibleRegion.Proofs.Exact

/-!
# What a binary64 number stands for

A finite binary64 number stands for a rational number. Reading the bits of a number agrees with
the model of binary64 arithmetic, so that what compares as positive stands for a positive
number.
-/

namespace AdmissibleRegion.Binary64

open Float.Model (UnpackedFloat)
open Float.Model.UnpackedFloat (unpackSign unpackExponent unpackMantissa)

/-- The number that a finite binary64 number stands for; zero for all others. -/
def value : Binary64 → ℚ
  | .finite negative mantissa exponent =>
    (if negative then -(mantissa : ℚ) else mantissa) * 2 ^ exponent
  | _ => 0

private theorem toNat_unpackMantissa (b : BitVec 64) :
    (@unpackMantissa .binary64 b).toNat = b.toNat % hiddenBit := by
  simp [unpackMantissa, hiddenBit]

private theorem toNat_unpackExponent (b : BitVec 64) :
    (@unpackExponent .binary64 b).toNat = (b.toNat >>> 52) % 2048 := by
  simp [unpackExponent]

private theorem toNat_unpackSign (b : BitVec 64) :
    (@unpackSign .binary64 b).toNat = b.toNat >>> 63 := by
  have hlt : b.toNat >>> 63 < 2 := by
    have := b.isLt
    rw [Nat.shiftRight_eq_div_pow]
    omega
  simp only [unpackSign, BitVec.toNat_cast, BitVec.extractLsb_toNat]
  exact Nat.mod_eq_of_lt hlt

/-- A positive number has no sign bit. -/
private theorem toNat_ne_one_of_positive {b : BitVec 1}
    (h : UnpackedFloat.Sign.ofBitVec b = .positive) : b.toNat ≠ 1 := by
  intro hone
  obtain rfl : b = 1#1 := BitVec.eq_of_toNat_eq hone
  cases h

/-- A leading one makes a fraction a mantissa. -/
theorem toNat_one_append (fraction : BitVec 52) :
    (1#1 ++ fraction).toNat = hiddenBit + fraction.toNat := by
  change 2 ^ 52 ||| fraction.toNat = 2 ^ 52 + fraction.toNat
  rw [Nat.or_comm, Nat.or_two_pow_eq_add_of_lt fraction.isLt, Nat.add_comm]

/-- The bits of a positive number are read as its mantissa and exponent. -/
theorem ofFloat_of_unpack {x : Float} {mantissa : ℕ} {exponent : ℤ} {hm : 0 < mantissa}
    (h : x.toModel.unpack = .finite .positive mantissa exponent hm) :
    ofFloat x = .finite false mantissa exponent := by
  have hsign := toNat_unpackSign x.toBits.toBitVec
  have hexponent := toNat_unpackExponent x.toBits.toBitVec
  have hmantissa := toNat_unpackMantissa x.toBits.toBitVec
  rw [UInt64.toNat_toBitVec] at hsign hexponent hmantissa
  change UnpackedFloat.unpack .binary64 x.toBits.toBitVec = _ at h
  unfold UnpackedFloat.unpack at h
  unfold ofFloat
  dsimp only at h ⊢
  rw [← hsign, ← hexponent, ← hmantissa]
  have hmax : @unpackExponent .binary64 x.toBits.toBitVec = -1#11 ↔
      (@unpackExponent .binary64 x.toBits.toBitVec).toNat = 2047 := BitVec.toNat_inj.symm
  have hzero : @unpackExponent .binary64 x.toBits.toBitVec = 0#11 ↔
      (@unpackExponent .binary64 x.toBits.toBitVec).toNat = 0 := BitVec.toNat_inj.symm
  simp only [hmax, hzero] at h
  split at h
  · -- neither infinities nor what is not a number are finite
    split at h <;> cases h
  · rename_i hfinite
    rw [if_neg hfinite]
    split at h
    · rename_i hsmall
      rw [if_pos hsmall]
      split at h
      · cases h
      · obtain ⟨hs, rfl, rfl⟩ := UnpackedFloat.finite.inj h
        rw [decide_eq_false (toNat_ne_one_of_positive hs), hsmall]
        rfl
    · rename_i hnormal
      rw [if_neg hnormal]
      obtain ⟨hs, rfl, rfl⟩ := UnpackedFloat.finite.inj h
      rw [decide_eq_false (toNat_ne_one_of_positive hs), toNat_one_append]
      rfl

/-- A finite number that compares as positive stands for a positive number. -/
theorem value_pos {x : Float} (hfinite : x.isFinite = true) (hpos : 0 < x) :
    0 < (ofFloat x).value := by
  have hfinite' : x.toModel.unpack.isFinite = true := hfinite
  have hless : UnpackedFloat.compare (.zero .positive) x.toModel.unpack = some .lt :=
    beq_iff_eq.mp (of_decide_eq_true hpos)
  cases hx : x.toModel.unpack with
  | notANumber =>
    rw [hx] at hfinite'
    cases hfinite'
  | infinity sign =>
    rw [hx] at hfinite'
    cases hfinite'
  | zero sign =>
    rw [hx] at hless
    cases hless
  | finite sign mantissa exponent hm =>
    cases sign with
    | negative =>
      rw [hx] at hless
      cases hless
    | positive =>
      rw [ofFloat_of_unpack hx]
      have hmantissa : (0 : ℚ) < mantissa := by exact_mod_cast hm
      simpa [value] using mul_pos hmantissa (zpow_pos two_pos exponent)

end AdmissibleRegion.Binary64
