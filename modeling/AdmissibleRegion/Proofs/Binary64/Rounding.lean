import AdmissibleRegion.Proofs.Binary64

/-!
# Rounding to binary64

What is at least the least positive number does not round to zero. Hence the difference of two
binary64 numbers that compare as different is not zero, and neither is twice a positive number;
and the square of a number below one is finite.
-/

namespace AdmissibleRegion.Binary64

open Float.Model (Format UnpackedFloat totalExponent)
open Float.Model.UnpackedFloat

/-- Mantissa and exponent of a binary64 number, whose exponent may still be too large. -/
structure Fits (mantissa : ℕ) (exponent : ℤ) : Prop where
  mantissa_lt : mantissa < 2 ^ 53
  le_exponent : -1074 ≤ exponent

section Shift

private theorem mantissa_shiftRight (em : ExtendedMantissa) (n : ℕ) :
    (em >>> n).mantissa = em.mantissa / 2 ^ n := by
  induction n with
  | zero => exact (Nat.div_one _).symm
  | succ n ih =>
    change (em >>> n).mantissa / 2 = _
    rw [ih, Nat.div_div_eq_div_mul, pow_succ]

private theorem mantissa_ofMantissaAndAccuracy (mantissa : ℕ) (accuracy : Accuracy) :
    (ExtendedMantissa.ofMantissaAndAccuracy mantissa accuracy).mantissa = mantissa := by
  cases accuracy with
  | exact => rfl
  | inexact ordering => cases ordering <;> rfl

/-- Rounding adds one at most. -/
private theorem roundedMantissa_bounds (em : ExtendedMantissa) :
    em.mantissa ≤ em.roundedMantissa ∧ em.roundedMantissa ≤ em.mantissa + 1 := by
  obtain ⟨mantissa, round, sticky⟩ := em
  cases round <;> cases sticky <;>
    simp [ExtendedMantissa.roundedMantissa, ExtendedMantissa.accuracy,
      Accuracy.roundToNearestEven]
  omega

variable {mantissa : ℕ} {exponent : ℤ}

/-- How many digits are dropped. -/
private def dropped (mantissa : ℕ) (exponent : ℤ) : ℕ :=
  (Format.binary64.targetExponent (totalExponent mantissa exponent) - exponent).toNat

private theorem toNat_targetExponent_sub (mantissa : ℕ) (exponent : ℤ) :
    (Format.binary64.targetExponent (totalExponent mantissa exponent) - exponent).toNat =
      dropped mantissa exponent := rfl

private theorem dropped_eq (mantissa : ℕ) (exponent : ℤ) :
    dropped mantissa exponent =
      (max ((mantissa.log2 : ℤ) + 1 + exponent - 53) (-1074) - exponent).toNat := rfl

/-- At most fifty-three digits are kept. -/
private theorem fits_shift (mantissa : ℕ) (exponent : ℤ) :
    Fits (mantissa / 2 ^ dropped mantissa exponent)
      (exponent + dropped mantissa exponent) := by
  have hgreatest : mantissa < 2 ^ (mantissa.log2 + 1) := Nat.lt_log2_self
  have hfew : mantissa.log2 + 1 ≤ 53 + dropped mantissa exponent := by
    rw [dropped_eq]
    omega
  refine ⟨?_, ?_⟩
  · rw [Nat.div_lt_iff_lt_mul (Nat.two_pow_pos _), ← pow_add]
    exact hgreatest.trans_le (Nat.pow_le_pow_right two_pos hfew)
  · rw [dropped_eq]
    omega

/-- What is at least the least positive number keeps a digit. -/
private theorem shift_pos (exponent : ℤ) (hm : 0 < mantissa)
    (h : -1074 ≤ mantissa.log2 + exponent) :
    0 < mantissa / 2 ^ dropped mantissa exponent := by
  have hkeep : dropped mantissa exponent ≤ mantissa.log2 := by
    rw [dropped_eq]
    omega
  refine Nat.div_pos ?_ (Nat.two_pow_pos _)
  exact (Nat.pow_le_pow_right two_pos hkeep).trans (Nat.log2_self_le hm.ne')

end Shift

/-- A number rounds to zero or to digits that fit, and to zero only if it is less than the least
positive number. What is less than one keeps an exponent of at most zero. -/
theorem roundWithAccuracy_cases (sign : Sign) (mantissa : ℕ) (exponent : ℤ)
    (accuracy : Accuracy) :
    (roundWithAccuracy .binary64 sign mantissa exponent accuracy = .zero sign ∧
      ¬(0 < mantissa ∧ -1074 ≤ mantissa.log2 + exponent)) ∨
    ∃ m e, ∃ hm : 0 < m, roundWithAccuracy .binary64 sign mantissa exponent accuracy =
      .finite sign m e hm ∧ Fits m e ∧ (mantissa.log2 + exponent < 0 → e ≤ 0) := by
  have hbounds := roundedMantissa_bounds
    (ExtendedMantissa.ofMantissaAndAccuracy mantissa accuracy >>> dropped mantissa exponent)
  rw [mantissa_shiftRight, mantissa_ofMantissaAndAccuracy] at hbounds
  set rounded := (ExtendedMantissa.ofMantissaAndAccuracy mantissa accuracy >>>
    dropped mantissa exponent).roundedMantissa
  have hfits := fits_shift mantissa exponent
  -- rounding may have made a digit more, so the number is shifted once again
  have hfits' := fits_shift rounded (exponent + dropped mantissa exponent)
  by_cases hzero : rounded / 2 ^ dropped rounded (exponent + dropped mantissa exponent) = 0
  · refine .inl ⟨?_, fun ⟨hm, h⟩ => ?_⟩
    · unfold roundWithAccuracy shiftToTargetExponent shiftToExponent
      simp only [mantissa_shiftRight, mantissa_ofMantissaAndAccuracy, toNat_targetExponent_sub]
      exact dif_pos hzero
    · have hrounded : 0 < rounded := (shift_pos exponent hm h).trans_le hbounds.1
      have hexponent := hfits.le_exponent
      have hpos := shift_pos (exponent + dropped mantissa exponent) hrounded (by omega)
      exact hpos.ne' hzero
  · refine .inr ⟨_, _, Nat.pos_of_ne_zero hzero, ?_, hfits', fun hless => ?_⟩
    · unfold roundWithAccuracy shiftToTargetExponent shiftToExponent
      simp only [mantissa_shiftRight, mantissa_ofMantissaAndAccuracy, toNat_targetExponent_sub]
      exact dif_neg hzero
    · have hdigits : rounded.log2 ≤ 53 := by
        have hlt : rounded < 2 ^ 54 := by
          have := hfits.mantissa_lt
          omega
        rcases Nat.eq_zero_or_pos rounded with hnone | hpos
        · rw [hnone]
          decide
        · have := (Nat.log2_lt hpos.ne').mpr hlt
          omega
      have hnegative : exponent + dropped mantissa exponent < 0 := by
        rw [dropped_eq]
        omega
      generalize exponent + (dropped mantissa exponent : ℤ) = shifted at hnegative ⊢
      rw [dropped_eq]
      omega

/-- What is at least the least positive number does not round to zero. -/
theorem exists_roundWithAccuracy (sign : Sign) {mantissa : ℕ} (exponent : ℤ) (hm : 0 < mantissa)
    (h : -1074 ≤ mantissa.log2 + exponent) (accuracy : Accuracy) :
    ∃ m e, ∃ hm' : 0 < m, roundWithAccuracy .binary64 sign mantissa exponent accuracy =
      .finite sign m e hm' ∧ Fits m e := by
  rcases roundWithAccuracy_cases sign mantissa exponent accuracy with
    ⟨_, hsmall⟩ | ⟨m, e, hm', hround, hfits, _⟩
  · exact absurd ⟨hm, h⟩ hsmall
  · exact ⟨m, e, hm', hround, hfits⟩

/-- The same with as many digits added before as there is room for. -/
theorem exists_round (sign : Sign) {mantissa : ℕ} {exponent : ℤ} (hm : 0 < mantissa)
    (h : -1074 ≤ exponent) :
    ∃ m e, ∃ hm' : 0 < m, UnpackedFloat.round .binary64 sign mantissa exponent =
      .finite sign m e hm' ∧ Fits m e := by
  unfold UnpackedFloat.round decreaseExponent
  dsimp only
  generalize (exponent - Format.binary64.targetExponent (totalExponent mantissa exponent)).toNat =
    added
  have hpos : 0 < mantissa <<< added := by
    rw [Nat.shiftLeft_eq]
    positivity
  have hlog : mantissa.log2 + added ≤ (mantissa <<< added).log2 := by
    rw [Nat.le_log2 hpos.ne', pow_add, Nat.shiftLeft_eq]
    exact Nat.mul_le_mul_right _ (Nat.log2_self_le hm.ne')
  obtain ⟨m, e, hm', hround, hfits⟩ :=
    exists_roundWithAccuracy sign (exponent - added) hpos (by omega) .exact
  exact ⟨m, e, hm', hround, hfits⟩

/-- A difference that is not zero does not round to zero. -/
theorem exists_normalize {mantissa exponent : ℤ} (hm : mantissa ≠ 0) (h : -1074 ≤ exponent)
    (zeroSign : Sign) :
    ∃ sign m e, ∃ hm' : 0 < m, UnpackedFloat.normalize .binary64 mantissa exponent zeroSign =
      .finite sign m e hm' ∧ Fits m e := by
  unfold UnpackedFloat.normalize
  rcases hm.lt_or_gt with hneg | hpos
  · rw [compare_lt_iff_lt.mpr hneg]
    have hm' : 0 < (-mantissa).toNat := by omega
    obtain ⟨m, e, h', hround, hfits⟩ := exists_round .negative hm' h
    exact ⟨_, m, e, h', hround, hfits⟩
  · rw [compare_gt_iff_gt.mpr hpos]
    have hm' : 0 < mantissa.toNat := by omega
    obtain ⟨m, e, h', hround, hfits⟩ := exists_round .positive hm' h
    exact ⟨_, m, e, h', hround, hfits⟩

section Pack

variable (sign : Sign) {mantissa : ℕ} {exponent : ℤ} (hm : 0 < mantissa)

private theorem exponentBias_eq : Format.binary64.exponentBias = 1023 := rfl

/-- What fits is packed as a finite number unless its exponent is too large. -/
theorem exists_unpack_pack (hfits : Fits mantissa exponent) (h : exponent ≤ 971) :
    ∃ s m e, ∃ hm' : 0 < m,
      (Float.Model.pack (.finite sign mantissa exponent hm)).unpack = .finite s m e hm' := by
  have hlt := hfits.mantissa_lt
  have hmin := hfits.le_exponent
  have hbiased : ¬2 ^ 11 ≤ (exponent + 1023 + 52).toNat + 1 := by omega
  change ∃ s m e, ∃ hm' : 0 < m, UnpackedFloat.unpack .binary64
    (UnpackedFloat.pack .binary64 (.finite sign mantissa exponent hm)) = _
  unfold UnpackedFloat.pack
  dsimp only
  change ∃ s m e, ∃ hm' : 0 < m, UnpackedFloat.unpack .binary64
    (if 2 ^ 11 ≤ (exponent + 1023 + 52).toNat + 1 then _ else _) = _
  rw [if_neg hbiased]
  split
  · unfold UnpackedFloat.unpack
    simp only [unpackExponent_packComponents, unpackMantissa_packComponents, exponentBias_eq,
      Nat.cast_ofNat]
    have htop : BitVec.ofNat 11 (exponent + 1023 + 52).toNat ≠ -1#11 := by
      rw [ne_eq, ← BitVec.toNat_inj, BitVec.toNat_ofNat, Nat.mod_eq_of_lt (by omega)]
      change (exponent + 1023 + 52).toNat ≠ 2047
      omega
    have hzero : BitVec.ofNat 11 (exponent + 1023 + 52).toNat ≠ 0#11 := by
      rw [ne_eq, ← BitVec.toNat_inj, BitVec.toNat_ofNat, Nat.mod_eq_of_lt (by omega)]
      change (exponent + 1023 + 52).toNat ≠ 0
      omega
    rw [if_neg htop, if_neg hzero]
    refine ⟨_, _, _, ?_, rfl⟩
    rw [toNat_one_append]
    exact Nat.add_pos_left (by decide) _
  · rename_i hsubnormal
    unfold UnpackedFloat.unpack
    simp only [unpackExponent_packComponents, unpackMantissa_packComponents]
    have hsmall : mantissa < 2 ^ 52 := by
      have hle : mantissa.log2 < 53 := (Nat.log2_lt hm.ne').mpr hlt
      change ¬mantissa.log2 + 1 = 53 at hsubnormal
      exact (Nat.log2_lt hm.ne').mp (by omega)
    have hmantissa : BitVec.ofNat 52 mantissa ≠ 0#52 := by
      rw [ne_eq, ← BitVec.toNat_inj, BitVec.toNat_ofNat, Nat.mod_eq_of_lt hsmall]
      exact hm.ne'
    rw [if_neg (by decide), if_pos trivial, dif_neg hmantissa]
    refine ⟨_, _, _, ?_, rfl⟩
    rwa [BitVec.toNat_ofNat, Nat.mod_eq_of_lt hsmall]

theorem exists_unpack_pack_infinity (h : 971 < exponent) :
    ∃ s, (Float.Model.pack (.finite sign mantissa exponent hm)).unpack = .infinity s := by
  have hbiased : 2 ^ 11 ≤ (exponent + 1023 + 52).toNat + 1 := by omega
  change ∃ s, UnpackedFloat.unpack .binary64
    (UnpackedFloat.pack .binary64 (.finite sign mantissa exponent hm)) = _
  unfold UnpackedFloat.pack
  dsimp only
  change ∃ s, UnpackedFloat.unpack .binary64
    (if 2 ^ 11 ≤ (exponent + 1023 + 52).toNat + 1 then _ else _) = _
  rw [if_pos hbiased]
  unfold UnpackedFloat.unpack packedInfinity
  simp only [unpackExponent_packComponents, unpackMantissa_packComponents]
  exact ⟨_, rfl⟩

end Pack

section Unpack

variable {x : Float} {sign : Sign} {mantissa : ℕ} {exponent : ℤ} {hm : 0 < mantissa}

/-- A finite number fits, and all of its digits are used unless it is very small. -/
theorem fits_of_unpack (h : x.toModel.unpack = .finite sign mantissa exponent hm) :
    Fits mantissa exponent ∧ (-1074 < exponent → 2 ^ 52 ≤ mantissa) := by
  change UnpackedFloat.unpack .binary64 x.toModel.toBits.toBitVec = _ at h
  unfold UnpackedFloat.unpack at h
  dsimp only at h
  split at h
  · split at h <;> cases h
  · split at h
    · rename_i hzero
      split at h
      · cases h
      · obtain ⟨_, rfl, rfl⟩ := UnpackedFloat.finite.inj h
        have hlt := (@unpackMantissa .binary64 x.toModel.toBits.toBitVec).isLt
        rw [hzero, exponentBias_eq]
        refine ⟨⟨hlt.trans (by decide), by decide⟩, fun hexponent => ?_⟩
        exact absurd hexponent (by decide)
    · rename_i hnormal
      obtain ⟨_, rfl, rfl⟩ := UnpackedFloat.finite.inj h
      have hlt := (@unpackMantissa .binary64 x.toModel.toBits.toBitVec).isLt
      have hone : 1 ≤ (@unpackExponent .binary64 x.toModel.toBits.toBitVec).toNat := by
        rw [Nat.one_le_iff_ne_zero]
        intro hzero
        exact hnormal (BitVec.eq_of_toNat_eq hzero)
      change (@unpackMantissa .binary64 x.toModel.toBits.toBitVec).toNat < 2 ^ 52 at hlt
      rw [toNat_one_append, exponentBias_eq]
      have hhidden : hiddenBit = 2 ^ 52 := by decide
      refine ⟨⟨?_, ?_⟩, fun _ => ?_⟩
      · omega
      · push_cast
        omega
      · omega

end Unpack

section Order

variable {a b x : Float}

theorem lt_iff : a < b ↔ UnpackedFloat.compare a.toModel.unpack b.toModel.unpack = some .lt := by
  change decide _ = true ↔ _
  rw [decide_eq_true_iff]
  exact beq_iff_eq

theorem isZero_iff : Scalar.isZero x = true ↔ ∃ sign, x.toModel.unpack = .zero sign := by
  change (UnpackedFloat.compare x.toModel.unpack (.zero .positive) == some .eq) = true ↔ _
  cases hx : x.toModel.unpack with
  | notANumber => simp [UnpackedFloat.compare]
  | infinity sign => cases sign <;> simp [UnpackedFloat.compare]
  | zero sign => simp [UnpackedFloat.compare]
  | finite sign mantissa exponent hm => cases sign <;> simp [UnpackedFloat.compare]

theorem isZero_eq_false_iff :
    Scalar.isZero x = false ↔ ∀ sign, x.toModel.unpack ≠ .zero sign := by
  rw [← Bool.not_eq_true, isZero_iff, not_exists]

/-- What is positive is infinite, or finite with a positive sign. -/
theorem pos_iff : (0.0 : Float) < x ↔ x.toModel.unpack = .infinity .positive ∨
    ∃ m e, ∃ hm : 0 < m, x.toModel.unpack = .finite .positive m e hm := by
  have hzero : (0.0 : Float).toModel.unpack = .zero .positive := rfl
  rw [lt_iff, hzero]
  cases hx : x.toModel.unpack with
  | notANumber => simp [UnpackedFloat.compare]
  | infinity sign => cases sign <;> simp [UnpackedFloat.compare]
  | zero sign => simp [UnpackedFloat.compare]
  | finite sign mantissa exponent hm => cases sign <;> simp [UnpackedFloat.compare, hm]

/-- What is greater than a positive number is positive. -/
theorem pos_of_pos_of_lt (ha : (0.0 : Float) < a) (hab : a < b) : (0.0 : Float) < b := by
  rw [pos_iff] at ha ⊢
  rw [lt_iff] at hab
  cases hb : b.toModel.unpack with
  | notANumber =>
    rw [hb] at hab
    rcases ha with ha | ⟨_, _, _, ha⟩ <;> simp [ha, UnpackedFloat.compare] at hab
  | infinity sign =>
    cases sign with
    | positive => exact .inl rfl
    | negative =>
      rcases ha with ha | ⟨_, _, _, ha⟩ <;> simp [ha, hb, UnpackedFloat.compare] at hab
  | zero sign =>
    rcases ha with ha | ⟨_, _, _, ha⟩ <;> simp [ha, hb, UnpackedFloat.compare] at hab
  | finite sign m e hm =>
    cases sign with
    | positive => exact .inr ⟨m, e, hm, rfl⟩
    | negative =>
      rcases ha with ha | ⟨_, _, _, ha⟩ <;> simp [ha, hb, UnpackedFloat.compare] at hab

/-- A positive number is not zero. -/
theorem isZero_of_pos (h : (0.0 : Float) < x) : Scalar.isZero x = false := by
  rw [isZero_eq_false_iff]
  rcases pos_iff.mp h with hx | ⟨_, _, _, hx⟩ <;> simp [hx]

/-- A result is visible if it is infinite or finite with digits that fit; the other two kinds of
results are zeros and what is not a number. -/
def Visible (f : UnpackedFloat) : Prop :=
  (∃ sign, f = .infinity sign) ∨ ∃ sign m e, ∃ hm : 0 < m, f = .finite sign m e hm ∧ Fits m e

/-- A visible result is not zero. -/
theorem isZero_of_visible {f : UnpackedFloat} (h : x.toModel = Float.Model.pack f)
    (hf : Visible f) : Scalar.isZero x = false := by
  rw [isZero_eq_false_iff, h]
  rcases hf with ⟨sign, rfl⟩ | ⟨sign, m, e, hm, rfl, hfits⟩
  · cases sign <;> rintro _ ⟨⟩
  · rcases le_or_gt e 971 with hle | hgt
    · obtain ⟨_, _, _, _, hunpack⟩ := exists_unpack_pack sign hm hfits hle
      simp [hunpack]
    · obtain ⟨_, hunpack⟩ := exists_unpack_pack_infinity sign hm hgt
      simp [hunpack]

/-- Twice a positive number is not zero. -/
theorem isZero_two_mul (h : (0.0 : Float) < x) : Scalar.isZero (2.0 * x) = false := by
  have htwo : (2.0 : Float).toModel.unpack = .finite .positive (2 ^ 52) (-51) (by decide) := rfl
  have hmul : (2.0 * x).toModel = Float.Model.pack
      (UnpackedFloat.mul .binary64 (2.0 : Float).toModel.unpack x.toModel.unpack) := rfl
  refine isZero_of_visible hmul ?_
  rw [htwo]
  rcases pos_iff.mp h with hx | ⟨m, e, hm, hx⟩
  · rw [hx]
    exact .inl ⟨_, rfl⟩
  · obtain ⟨hfits, _⟩ := fits_of_unpack hx
    have hmin := hfits.le_exponent
    have hlog : 52 ≤ (2 ^ 52 * m).log2 := by
      rw [Nat.le_log2 (by positivity)]
      exact Nat.le_mul_of_pos_right _ hm
    have hpos : 0 < 2 ^ 52 * m := by positivity
    obtain ⟨m', e', hm', hround, hfits'⟩ :=
      exists_roundWithAccuracy .positive (-51 + e) hpos (by omega) .exact
    rw [hx]
    exact .inr ⟨_, m', e', hm', hround, hfits'⟩

/-- Of two numbers of one sign, that with the greater exponent is greater, since it uses all of its
digits. -/
theorem shiftLeft_lt_shiftLeft {m n : ℕ} {d e : ℤ} (hm : Fits m d)
    (hn : Fits n e ∧ (-1074 < e → 2 ^ 52 ≤ n))
    (hlt : (compare d e).then (compare m n) = .lt) :
    m <<< (d - min d e).toNat < n <<< (e - min d e).toNat := by
  rw [Ordering.then_eq_lt, compare_lt_iff_lt, compare_eq_iff_eq, compare_lt_iff_lt] at hlt
  rcases hlt with hlt | ⟨rfl, hlt⟩
  · rw [min_eq_left hlt.le, sub_self]
    have hn52 := hn.2 (hm.le_exponent.trans_lt hlt)
    have hshift : 1 ≤ (e - d).toNat := by omega
    rw [Int.toNat_zero, Nat.shiftLeft_zero, Nat.shiftLeft_eq]
    calc m < 2 ^ 52 * 2 ^ 1 := hm.mantissa_lt
      _ ≤ n * 2 ^ (e - d).toNat :=
        Nat.mul_le_mul hn52 (Nat.pow_le_pow_right two_pos hshift)
  · simpa using hlt

/-- Different finite numbers have a difference other than zero, before it is rounded. -/
theorem aligned_sub_ne_zero {s t : Sign} {m n : ℕ} {d e : ℤ} {hm : 0 < m} {hn : 0 < n}
    (hfitsm : Fits m d ∧ (-1074 < d → 2 ^ 52 ≤ m)) (hfitsn : Fits n e ∧ (-1074 < e → 2 ^ 52 ≤ n))
    (hlt : UnpackedFloat.compare (.finite s m d hm) (.finite t n e hn) = some .lt) :
    t.apply (n <<< (e - min e d).toNat : ℕ) - s.apply (m <<< (d - min e d).toNat : ℕ) ≠ 0 := by
  have hmpos : 0 < m <<< (d - min e d).toNat := by
    rw [Nat.shiftLeft_eq]
    positivity
  have hnpos : 0 < n <<< (e - min e d).toNat := by
    rw [Nat.shiftLeft_eq]
    positivity
  cases s with
  | negative =>
    cases t with
    | negative =>
      have hswap : (compare e d).then (compare n m) = .lt := by
        have hthen : ((compare d e).then (compare m n)).swap = .lt := Option.some.inj hlt
        rwa [Ordering.swap_then, Int.compare_swap, Nat.compare_swap] at hthen
      have hless := shiftLeft_lt_shiftLeft hfitsn.1 hfitsm hswap
      simp only [Sign.apply]
      omega
    | positive =>
      simp only [Sign.apply]
      omega
  | positive =>
    cases t with
    | negative => cases hlt
    | positive =>
      have hless := shiftLeft_lt_shiftLeft hfitsm.1 hfitsn (Option.some.inj hlt)
      rw [min_comm] at hless
      simp only [Sign.apply]
      omega

/-- Numbers that compare as different have a visible difference. -/
theorem visible_sub (h : a < b) :
    Visible (UnpackedFloat.sub .binary64 b.toModel.unpack a.toModel.unpack) := by
  rw [lt_iff] at h
  cases ha : a.toModel.unpack with
  | notANumber =>
    rw [ha] at h
    cases h
  | infinity s =>
    rw [ha] at h
    cases hb : b.toModel.unpack with
    | notANumber =>
      rw [hb] at h
      cases s <;> cases h
    | infinity t =>
      rw [hb] at h
      cases s <;> cases t <;> first | exact .inl ⟨_, rfl⟩ | cases h
    | zero t => exact .inl ⟨_, rfl⟩
    | finite t n e hn => exact .inl ⟨_, rfl⟩
  | zero s =>
    rw [ha] at h
    cases hb : b.toModel.unpack with
    | notANumber =>
      rw [hb] at h
      cases h
    | infinity t => exact .inl ⟨_, rfl⟩
    | zero t =>
      rw [hb] at h
      cases h
    | finite t n e hn => exact .inr ⟨t, n, e, hn, rfl, (fits_of_unpack hb).1⟩
  | finite s m d hm =>
    rw [ha] at h
    cases hb : b.toModel.unpack with
    | notANumber =>
      rw [hb] at h
      cases s <;> cases h
    | infinity t => exact .inl ⟨_, rfl⟩
    | zero t => exact .inr ⟨-s, m, d, hm, rfl, (fits_of_unpack ha).1⟩
    | finite t n e hn =>
      rw [hb] at h
      have hfitsa := fits_of_unpack ha
      have hfitsb := fits_of_unpack hb
      exact .inr (exists_normalize (aligned_sub_ne_zero hfitsa hfitsb h)
        (le_min hfitsb.1.le_exponent hfitsa.1.le_exponent) .positive)

/-- Their difference is not zero. -/
theorem isZero_sub (h : a < b) : Scalar.isZero (b - a) = false :=
  isZero_of_visible rfl (visible_sub h)

/-- The exact square of what is less than one is less than one. -/
theorem log2_mul_self_add_neg {m : ℕ} {e : ℤ} (hm : 0 < m) (hm53 : m < 2 ^ 53)
    (hlt : (compare e (-52)).then (compare m (2 ^ 52)) = .lt) :
    (m * m).log2 + (e + e) < 0 := by
  have hne : m * m ≠ 0 := (Nat.mul_pos hm hm).ne'
  rw [Ordering.then_eq_lt, compare_lt_iff_lt, compare_eq_iff_eq, compare_lt_iff_lt] at hlt
  rcases hlt with he | ⟨he, hm52⟩
  · have hsquare : m * m < 2 ^ (53 + 53) := by
      rw [pow_add]
      exact Nat.mul_lt_mul'' hm53 hm53
    have hlog := (Nat.log2_lt hne).mpr hsquare
    omega
  · have hsquare : m * m < 2 ^ (52 + 52) := by
      rw [pow_add]
      exact Nat.mul_lt_mul'' hm52 hm52
    have hlog := (Nat.log2_lt hne).mpr hsquare
    omega

/-- What is less than one rounds to a finite number. -/
theorem isFinite_roundWithAccuracy (sign : Sign) {mantissa : ℕ} {exponent : ℤ}
    (accuracy : Accuracy) (h : mantissa.log2 + exponent < 0) :
    (Float.Model.pack
      (roundWithAccuracy .binary64 sign mantissa exponent accuracy)).unpack.isFinite = true := by
  rcases roundWithAccuracy_cases sign mantissa exponent accuracy with
    ⟨hround, _⟩ | ⟨m, e, hm, hround, hfits, he⟩
  · rw [hround]
    cases sign <;> rfl
  · obtain ⟨_, _, _, _, hunpack⟩ := exists_unpack_pack sign hm hfits ((he h).trans (by decide))
    rw [hround, hunpack]
    rfl

/-- The square of a number from zero to below one is finite. -/
theorem isFinite_mul_self (h0 : (0.0 : Float) ≤ x) (h1 : x < 1.0) : (x * x).isFinite = true := by
  have hone : (1.0 : Float).toModel.unpack = .finite .positive (2 ^ 52) (-52) (by decide) := rfl
  have hnonneg : UnpackedFloat.le (.zero .positive) x.toModel.unpack = true :=
    of_decide_eq_true h0
  rw [lt_iff, hone] at h1
  change (Float.Model.pack
    (UnpackedFloat.mul .binary64 x.toModel.unpack x.toModel.unpack)).unpack.isFinite = true
  cases hx : x.toModel.unpack with
  | notANumber =>
    rw [hx] at h1
    cases h1
  | infinity s =>
    rw [hx] at h1 hnonneg
    cases s with
    | negative => cases hnonneg
    | positive => cases h1
  | zero s => cases s <;> rfl
  | finite s m e hm =>
    rw [hx] at h1 hnonneg
    cases s with
    | negative => cases hnonneg
    | positive =>
      have hm53 := (fits_of_unpack hx).1.mantissa_lt
      exact isFinite_roundWithAccuracy .positive .exact
        (log2_mul_self_add_neg hm hm53 (Option.some.inj h1))

end Order

end AdmissibleRegion.Binary64
