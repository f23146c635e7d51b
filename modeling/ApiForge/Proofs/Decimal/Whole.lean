import ApiForge.Proofs.Decimal.Binary64
import ApiForge.Rule.Annotate

/-!
# Whole numbers

A binary64 number without a fraction may be written as an integer: reading it as a number again gives the same value.
Only the sign of zero is lost.

* `isInteger_of_wholeValue?`: the integer is the value of the number.
* `ofInt_of_wholeValue?`: an integer of moderate size is the same number.
-/

namespace ApiForge.Decimal

open Float.Model Float.Model.UnpackedFloat

/-! ## The bits of a number -/

section Bits

variable (b : BitVec Format.binary64.numBits)

theorem toNat_unpackMantissa : (unpackMantissa b).toNat = b.toNat % 2 ^ 52 := by
  rw [unpackMantissa, BitVec.toNat_cast, BitVec.extractLsb_toNat, Nat.shiftRight_zero]
  rfl

theorem toNat_unpackExponent : (unpackExponent b).toNat = b.toNat / 2 ^ 52 % 2 ^ 11 := by
  rw [unpackExponent, BitVec.toNat_cast, BitVec.extractLsb_toNat, Nat.shiftRight_eq_div_pow]
  rfl

theorem unpackSign_eq_zero : unpackSign b = 0#1 ↔ b.toNat / 2 ^ 63 = 0 := by
  have hlt : b.toNat / 2 ^ 63 < 2 := by
    have : b.toNat < 2 ^ 64 := b.isLt
    omega
  rw [← BitVec.toNat_inj, unpackSign, BitVec.toNat_cast, BitVec.extractLsb_toNat, Nat.shiftRight_eq_div_pow]
  change b.toNat / 2 ^ 63 % 2 = 0 ↔ _
  omega

end Bits

/-- A significand that is divided by a power of two without a rest has at least as many digits. -/
theorem exponent_low {m : Nat} {e : Int} (hm : 0 < m) (hlt : m < 2 ^ 53) (hdvd : m % 2 ^ (-e).toNat = 0) : -52 ≤ e := by
  by_contra hlow
  have hpow : 2 ^ 53 ≤ 2 ^ (-e).toNat := Nat.pow_le_pow_right (by decide) (by omega)
  rw [Nat.mod_eq_of_lt (Nat.lt_of_lt_of_le hlt hpow)] at hdvd
  omega

/-- What is left of a significand without its fraction is the integer. -/
theorem mul_two_pow_of_whole {m : Nat} {e : Int} (hlow : -52 ≤ e) (hdvd : m % 2 ^ (-e).toNat = 0) :
    m * 2 ^ (e + 52).toNat = m / 2 ^ (-e).toNat * 2 ^ e.toNat * 2 ^ 52 := by
  have hexponents : e.toNat + 52 = (-e).toNat + (e + 52).toNat := by omega
  rw [Nat.mul_assoc, ← Nat.pow_add, hexponents, Nat.pow_add, ← Nat.mul_assoc,
    Nat.div_mul_cancel (Nat.dvd_of_mod_eq_zero hdvd)]

/-- The sign of a number. -/
def signOf (negative : Bool) : Sign := if negative then .negative else .positive

theorem ofBitVec_unpackSign (b : BitVec Format.binary64.numBits) :
    Sign.ofBitVec (unpackSign b) = signOf (b.toNat / 2 ^ 63 == 1) := by
  have hlt : b.toNat < 2 ^ 64 := b.isLt
  rw [Sign.ofBitVec, signOf]
  by_cases hzero : unpackSign b = 0#1
  · rw [if_pos hzero, (unpackSign_eq_zero b).1 hzero]
    rfl
  · have hone : b.toNat / 2 ^ 63 = 1 := by
      have := mt (unpackSign_eq_zero b).2 hzero
      omega
    rw [if_neg hzero, hone]
    rfl

section Fields

variable (b : BitVec Format.binary64.numBits)

theorem unpackExponent_eq_ones : unpackExponent b = -1#_ ↔ b.toNat / 2 ^ 52 % 2 ^ 11 = 2047 := by
  rw [← BitVec.toNat_inj, toNat_unpackExponent]
  rfl

theorem unpackExponent_eq_zero : unpackExponent b = 0#_ ↔ b.toNat / 2 ^ 52 % 2 ^ 11 = 0 := by
  rw [← BitVec.toNat_inj, toNat_unpackExponent]
  rfl

theorem unpackMantissa_eq_zero : unpackMantissa b = 0#_ ↔ b.toNat % 2 ^ 52 = 0 := by
  rw [← BitVec.toNat_inj, toNat_unpackMantissa]
  rfl

/-- The first digit of a significand is not stored. -/
theorem toNat_significand : (1#1 ++ unpackMantissa b).toNat = 2 ^ 52 + b.toNat % 2 ^ 52 := by
  rw [BitVec.toNat_append, ← Nat.shiftLeft_add_eq_or_of_lt (unpackMantissa b).isLt, toNat_unpackMantissa,
    Nat.shiftLeft_eq]
  rfl

end Fields

/-- The parts of a finite number are those that the operations on numbers work with. -/
theorem unpack_of_ofFloat {x : Float} {negative : Bool} {b : Binary} (h : Parts.ofFloat x = .finite negative b) :
    b.mantissa = 0 ∧ x.toModel.unpack = .zero (signOf negative) ∨
      b.mantissa < 2 ^ 53 ∧ (-52 ≤ b.exponent → Normal b.mantissa b.exponent) ∧
        ∃ hpos, x.toModel.unpack = .finite (signOf negative) b.mantissa b.exponent hpos := by
  have hbits : x.toBits.toNat = x.toModel.toBits.toBitVec.toNat := rfl
  rw [Parts.ofFloat, hbits] at h
  simp only [Nat.pow_eq, beq_iff_eq] at h
  rw [Float.Model.unpack]
  generalize hw : (x.toModel.toBits.toBitVec : BitVec Format.binary64.numBits) = word
  rw [hw] at h
  clear hw hbits
  have hfield : word.toNat / 2 ^ 52 % 2 ^ 11 < 2 ^ 11 := Nat.mod_lt _ (by decide)
  have hfraction : word.toNat % 2 ^ 52 < 2 ^ 52 := Nat.mod_lt _ (by decide)
  rw [UnpackedFloat.unpack, ofBitVec_unpackSign]
  have hbias : (Format.binary64.exponentBias + Format.binary64.mantissaBitsWithoutImplicit : Int) = 1075 := rfl
  -- the two exponents at the ends are set apart: the greatest for what is not finite, the least for no first digit
  by_cases hones : word.toNat / 2 ^ 52 % 2 ^ 11 = 2047
  · rw [if_pos hones] at h
    split at h <;> cases h
  rw [if_neg hones] at h
  rw [if_neg (mt (unpackExponent_eq_ones word).1 hones), hbias]
  by_cases hzero : word.toNat / 2 ^ 52 % 2 ^ 11 = 0
  · rw [if_pos hzero] at h
    cases h
    rw [if_pos ((unpackExponent_eq_zero word).2 hzero), toNat_unpackExponent, hzero]
    by_cases hnone : word.toNat % 2 ^ 52 = 0
    · rw [dif_pos ((unpackMantissa_eq_zero word).2 hnone)]
      exact .inl ⟨hnone, rfl⟩
    · rw [dif_neg (mt (unpackMantissa_eq_zero word).1 hnone)]
      refine .inr ⟨Nat.lt_of_lt_of_le hfraction (by decide), fun hlow => absurd hlow ?_, Nat.pos_of_ne_zero hnone, ?_⟩
      · change ¬(-52 ≤ (-1074 : Int))
        decide
      · simp only [toNat_unpackMantissa]
        rfl
  · rw [if_neg hzero] at h
    cases h
    rw [if_neg (mt (unpackExponent_eq_zero word).1 hzero)]
    refine .inr ⟨?_, fun hlow => ⟨Nat.le_add_right _ _, ?_, hlow, ?_⟩, Nat.add_pos_left (by decide) _, ?_⟩
    · change 2 ^ 52 + word.toNat % 2 ^ 52 < _
      omega
    · change 2 ^ 52 + word.toNat % 2 ^ 52 < _
      omega
    · change ((word.toNat / 2 ^ 52 % 2 ^ 11 : Nat) : Int) - 1075 ≤ 971
      omega
    · rw [UnpackedFloat.finite.injEq]
      exact ⟨rfl, toNat_significand word, by rw [toNat_unpackExponent]⟩

/-- **The integer that is read off a number is its value.** -/
theorem isInteger_of_wholeValue? {x : Float} {n : Int} (h : wholeValue? x = some n) :
    IsInteger x.toModel.unpack n := by
  rw [wholeValue?] at h
  split at h
  · rename_i negative b hparts
    dsimp only at h
    split at h
    · rename_i hwhole
      have hdvd : b.mantissa % 2 ^ (-b.exponent).toNat = 0 := beq_iff_eq.1 hwhole
      have hn : n = (signOf negative).apply (b.mantissa / 2 ^ (-b.exponent).toNat * 2 ^ b.exponent.toNat : Nat) := by
        cases h
        cases negative <;> rfl
      rcases unpack_of_ofFloat hparts with ⟨hzero, hunpack⟩ | ⟨hlt, hnormal, hpos, hunpack⟩
      · rw [hunpack]
        have : n = 0 := by
          rw [hn, hzero, Nat.zero_div, Nat.zero_mul]
          cases negative <;> rfl
        rw [this]
        exact .zero _
      · rw [hunpack, hn]
        have hlow := exponent_low hpos hlt hdvd
        exact .finite _ (hnormal hlow) (mul_two_pow_of_whole hlow hdvd)
    · cases h
  · cases h

/-- **A number that is written as an integer of moderate size is the same number.** -/
theorem ofInt_of_wholeValue? {x : Float} {n : Int} (h : wholeValue? x = some n) (hsmall : n.natAbs ≤ 2 ^ 53) :
    (Float.ofInt n == x) = true := by
  have hn := isInteger_ofInt (log2_natAbs_le (Nat.lt_of_le_of_lt hsmall (by decide)))
  rw [rounded_of_small hsmall] at hn
  change ((Float.ofInt n).toModel.unpack.compare x.toModel.unpack == some .eq) = true
  rw [hn.compare (isInteger_of_wholeValue? h), beq_iff_eq, Option.some.injEq, Int.compare_eq_eq]

end ApiForge.Decimal
