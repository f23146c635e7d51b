import ApiForge.Proofs.Decimal.Rounding
import Mathlib

/-!
# Integers as binary64 numbers

An integer is made a floating-point number by shifting its digits until 53 are left, with a note of what has been
shifted out, and comparison looks at signs, exponents and significands. Both are taken apart here once, so that
comparing two integers as floating-point numbers is comparing what they are rounded to.

* `IsInteger f v`: the unpacked number `f` is the integer `v`, in normal form. `IsInteger.compare`: such numbers are
  compared as the integers that they are.
* `isInteger_roundWithAccuracy`: a significand with too many digits is rounded as `nearestEven` does.
* `isInteger_ofInt`: an integer below `2 ^ 1023` is made the number that it is rounded to.
* `ofInt_lt`, `ofInt_le`, `ofInt_beq`: comparing integers as floating-point numbers.
-/

namespace ApiForge.Decimal

open Float.Model Float.Model.UnpackedFloat

/-! ## Numbers that are integers -/

/-- A significand of 53 bits, and an exponent that fits and leaves at most 52 of them for a fraction. -/
structure Normal (m : Nat) (e : Int) : Prop where
  ge : 2 ^ 52 ≤ m
  lt : m < 2 ^ 53
  low : -52 ≤ e
  high : e ≤ 971

/-- The unpacked number is an integer: its significand, shifted by its exponent. -/
inductive IsInteger : UnpackedFloat → Int → Prop where
  | zero (s : Sign) : IsInteger (.zero s) 0
  | finite (s : Sign) {m : Nat} {e : Int} {h : 0 < m} {n : Nat} :
      Normal m e → m * 2 ^ (e + 52).toNat = n * 2 ^ 52 → IsInteger (.finite s m e h) (s.apply n)

variable {f g : UnpackedFloat} {v w : Int} {m m' n n' : Nat} {e e' : Int}

/-! ## Comparison -/

/-- Of two numbers in normal form, the one with the smaller exponent is smaller. -/
theorem Normal.lt_of_exponent (h : Normal m e) (h' : Normal m' e') (he : e < e') :
    m * 2 ^ (e + 52).toNat < m' * 2 ^ (e' + 52).toNat := by
  have hlow := h.low
  calc m * 2 ^ (e + 52).toNat < 2 ^ 53 * 2 ^ (e + 52).toNat := Nat.mul_lt_mul_of_pos_right h.lt (Nat.two_pow_pos _)
    _ = 2 ^ 52 * 2 ^ ((e + 52).toNat + 1) := by rw [← Nat.pow_add, ← Nat.pow_add]; congr 1; omega
    _ ≤ m' * 2 ^ (e' + 52).toNat := Nat.mul_le_mul h'.ge (Nat.pow_le_pow_right (by decide) (by omega))

/-- Of one exponent, the number with the smaller significand is smaller. -/
theorem compare_of_mul_eq {p q : Nat} (hp : 0 < p) (hq : 0 < q) (h : m * p = n * q) (h' : m' * p = n' * q) :
    Ord.compare m m' = Ord.compare (n : Int) (n' : Int) := by
  have hlt {m m' n n' : Nat} (h : m * p = n * q) (h' : m' * p = n' * q) (hm : m < m') : n < n' := by
    have hmul : m * p < m' * p := Nat.mul_lt_mul_of_pos_right hm hp
    rw [h, h'] at hmul
    exact Nat.lt_of_mul_lt_mul_right hmul
  rcases Nat.lt_trichotomy m m' with hm | rfl | hm
  · rw [Nat.compare_eq_lt.2 hm, Int.compare_eq_lt.2 (Int.ofNat_lt.2 (hlt h h' hm))]
  · rw [Nat.compare_eq_eq.2 rfl, Nat.eq_of_mul_eq_mul_right hq (h.symm.trans h'), Int.compare_eq_eq.2 rfl]
  · rw [Nat.compare_eq_gt.2 hm, Int.compare_eq_gt.2 (Int.ofNat_lt.2 (hlt h' h hm))]

/-- Exponents first, then significands: this is how numbers in normal form are compared. -/
theorem Normal.compare (h : Normal m e) (h' : Normal m' e') (hn : m * 2 ^ (e + 52).toNat = n * 2 ^ 52)
    (hn' : m' * 2 ^ (e' + 52).toNat = n' * 2 ^ 52) :
    (Ord.compare e e').then (Ord.compare m m') = Ord.compare (n : Int) (n' : Int) := by
  rcases Int.lt_trichotomy e e' with he | rfl | he
  · have hlt := h.lt_of_exponent h' he
    rw [hn, hn'] at hlt
    rw [Int.compare_eq_lt.2 he, Int.compare_eq_lt.2 (Int.ofNat_lt.2 (Nat.lt_of_mul_lt_mul_right hlt))]
    rfl
  · rw [Int.compare_eq_eq.2 rfl, Ordering.eq_then]
    exact compare_of_mul_eq (Nat.two_pow_pos _) (Nat.two_pow_pos _) hn hn'
  · have hlt := h'.lt_of_exponent h he
    rw [hn, hn'] at hlt
    rw [Int.compare_eq_gt.2 he, Int.compare_eq_gt.2 (Int.ofNat_lt.2 (Nat.lt_of_mul_lt_mul_right hlt))]
    rfl

/-- What is in normal form is not zero. -/
theorem Normal.pos (h : Normal m e) (hn : m * 2 ^ (e + 52).toNat = n * 2 ^ 52) : 0 < n := by
  have hleft : 0 < m * 2 ^ (e + 52).toNat := Nat.mul_pos (Nat.lt_of_lt_of_le (by decide) h.ge) (Nat.two_pow_pos _)
  rw [hn] at hleft
  exact Nat.pos_of_mul_pos_right hleft

/-- **Numbers that are integers are compared as these.** -/
theorem IsInteger.compare (hf : IsInteger f v) (hg : IsInteger g w) : f.compare g = some (Ord.compare v w) := by
  cases hf with
  | zero s =>
    cases hg with
    | zero s' => rfl
    | finite s' h' hn' =>
      have hpos := h'.pos hn'
      cases s' with
      | negative => exact congrArg some (Int.compare_eq_gt.2 (by simp only [Sign.apply]; omega)).symm
      | positive => exact congrArg some (Int.compare_eq_lt.2 (by simp only [Sign.apply]; omega)).symm
  | finite s h hn =>
    have hpos := h.pos hn
    cases hg with
    | zero s' =>
      cases s with
      | negative => exact congrArg some (Int.compare_eq_lt.2 (by simp only [Sign.apply]; omega)).symm
      | positive => exact congrArg some (Int.compare_eq_gt.2 (by simp only [Sign.apply]; omega)).symm
    | finite s' h' hn' =>
      have hpos' := h'.pos hn'
      cases s <;> cases s'
      · -- of two negative numbers the one with the greater magnitude is smaller
        refine congrArg some ?_
        rw [h.compare h' hn hn', Int.compare_swap]
        simp only [Sign.apply, Int.compare_eq_ite_lt, Int.neg_lt_neg_iff]
      · exact congrArg some (Int.compare_eq_lt.2 (by simp only [Sign.apply]; omega)).symm
      · exact congrArg some (Int.compare_eq_gt.2 (by simp only [Sign.apply]; omega)).symm
      · exact congrArg some (h.compare h' hn hn')

/-! ## Rounding a significand -/

theorem log2_mul_two_pow (hn : n ≠ 0) (j : Nat) : (n * 2 ^ j).log2 = n.log2 + j := by
  induction j with
  | zero => rw [Nat.pow_zero, Nat.mul_one, Nat.add_zero]
  | succ j ih =>
    rw [Nat.pow_succ, ← Nat.mul_assoc, Nat.mul_comm _ 2,
      Nat.log2_two_mul (Nat.mul_ne_zero hn (Nat.two_pow_pos j).ne'), ih, Nat.add_assoc]

/-- How great an integer is says its exponent. -/
theorem log2_of_mul_eq {p : Nat} (hge : 2 ^ 52 ≤ m) (hlt : m < 2 ^ 53) (h : m * 2 ^ p = n * 2 ^ 52) : n.log2 = p := by
  have hm : m ≠ 0 := by omega
  have hn : n ≠ 0 := by
    rintro rfl
    rw [Nat.zero_mul] at h
    exact Nat.mul_ne_zero hm (Nat.two_pow_pos p).ne' h
  have hlog := congrArg Nat.log2 h
  rw [log2_mul_two_pow hm, log2_mul_two_pow hn, (Nat.log2_eq_iff hm).2 ⟨hge, hlt⟩] at hlog
  omega

/-- What shifting a significand leaves: the quotient, whether the rest is at least a half, and whether it is anything
else than nothing or a half. -/
theorem repeat_shiftRightOne (m k : Nat) :
    Nat.repeat ExtendedMantissa.shiftRightOne k ⟨m, false, false⟩ =
      ⟨m / 2 ^ k, decide (2 ^ k ≤ 2 * (m % 2 ^ k)), decide (m % 2 ^ k ≠ 0 ∧ 2 * (m % 2 ^ k) ≠ 2 ^ k)⟩ := by
  induction k with
  | zero => simp [Nat.repeat, Nat.mod_one]
  | succ k ih =>
    have hrest : m % 2 ^ (k + 1) = m % 2 ^ k + 2 ^ k * (m / 2 ^ k % 2) := by rw [Nat.pow_succ, Nat.mod_mul]
    have hlt : m % 2 ^ k < 2 ^ k := Nat.mod_lt _ (Nat.two_pow_pos k)
    rw [Nat.repeat, ih, ExtendedMantissa.shiftRightOne, hrest, Nat.div_div_eq_div_mul, ← Nat.pow_succ]
    have hbit := Nat.mod_two_eq_zero_or_one (m / 2 ^ k)
    generalize m / 2 ^ k % 2 = bit at hbit
    have hmul : 2 ^ k * bit = if bit = 0 then 0 else 2 ^ k := by rcases hbit with rfl | rfl <;> simp
    rw [hmul]
    congr 1
    · rw [Bool.eq_iff_iff, bne_iff_ne, decide_eq_true_iff]
      split_ifs <;> omega
    · rw [Bool.eq_iff_iff, Bool.or_eq_true, decide_eq_true_iff, decide_eq_true_iff, decide_eq_true_iff]
      split_ifs <;> omega

/-- Rounding what has been shifted is rounding the quotient. -/
theorem roundedMantissa_repeat (m k : Nat) :
    (Nat.repeat ExtendedMantissa.shiftRightOne k ⟨m, false, false⟩).roundedMantissa = nearestEven m (2 ^ k) := by
  have hpos := Nat.two_pow_pos k
  rw [repeat_shiftRightOne, ExtendedMantissa.roundedMantissa, nearestEven]
  cases hhalf : decide (2 ^ k ≤ 2 * (m % 2 ^ k)) <;>
    cases hrest : decide (m % 2 ^ k ≠ 0 ∧ 2 * (m % 2 ^ k) ≠ 2 ^ k) <;>
    simp only [decide_eq_true_eq, decide_eq_false_iff_not] at hhalf hrest <;>
    simp only [ExtendedMantissa.accuracy, Accuracy.roundToNearestEven] <;>
    split_ifs <;> omega

/-- A number is shifted until 53 digits are left. -/
theorem shiftToTargetExponent_exact {m k : Nat} (hlog : m.log2 = 52 + k) (hlow : -1074 ≤ e + k) :
    shiftToTargetExponent .binary64 m e .exact =
      (Nat.repeat ExtendedMantissa.shiftRightOne k ⟨m, false, false⟩, e + k) := by
  have htarget : (Format.binary64.targetExponent (totalExponent m e) - e).toNat = k := by
    simp only [Format.targetExponent, totalExponent, Format.mantissaBits, Format.minExponent, hlog]
    omega
  simp only [shiftToTargetExponent, shiftToExponent, htarget]
  rfl

/-- Then 53 digits are left. -/
theorem div_of_log2 {m k : Nat} (hlog : m.log2 = 52 + k) : 2 ^ 52 ≤ m / 2 ^ k ∧ m / 2 ^ k < 2 ^ 53 := by
  have hm : m ≠ 0 := by
    rintro rfl
    rw [Nat.log2_zero] at hlog
    omega
  constructor
  · rw [Nat.le_div_iff_mul_le (Nat.two_pow_pos k), ← Nat.pow_add, ← hlog]
    exact Nat.log2_self_le hm
  · rw [Nat.div_lt_iff_lt_mul (Nat.two_pow_pos k), ← Nat.pow_add, show 53 + k = m.log2 + 1 by omega]
    exact Nat.lt_log2_self

/-- **A significand with too many digits is rounded to 53.** Rounding up may give one digit more, which is then zero
and is dropped. -/
theorem isInteger_roundWithAccuracy (s : Sign) {m k : Nat} (hlog : m.log2 = 52 + k) (hlow : -52 ≤ e + k)
    (hn : nearestEven m (2 ^ k) * 2 ^ (e + k + 52).toNat = n * 2 ^ 52) (hhigh : n.log2 ≤ 1023) :
    IsInteger (roundWithAccuracy .binary64 s m e .exact) (s.apply n) := by
  have hge : 2 ^ 52 ≤ nearestEven m (2 ^ k) := (div_of_log2 hlog).1.trans (le_nearestEven _ _)
  have hle : nearestEven m (2 ^ k) ≤ 2 ^ 53 := (nearestEven_le _ _).trans (div_of_log2 hlog).2
  obtain ⟨j, hj, hlog', hdvd⟩ :
      ∃ j ≤ 1, (nearestEven m (2 ^ k)).log2 = 52 + j ∧ 2 ^ j ∣ nearestEven m (2 ^ k) := by
    rcases Nat.lt_or_eq_of_le hle with hlt | heq
    · exact ⟨0, by decide, (Nat.log2_eq_iff (by omega)).2 ⟨hge, hlt⟩, Nat.one_dvd _⟩
    · rw [heq]
      exact ⟨1, by decide, by decide, by decide⟩
  have hbounds := div_of_log2 hlog'
  have hfirst := shiftToTargetExponent_exact (e := e) hlog (by omega)
  have hsecond := shiftToTargetExponent_exact (e := e + k) hlog' (by omega)
  rw [roundWithAccuracy]
  simp only [hfirst, roundedMantissa_repeat, hsecond]
  simp only [repeat_shiftRightOne]
  rw [dif_neg (by omega)]
  have hvalue : nearestEven m (2 ^ k) / 2 ^ j * 2 ^ (e + k + j + 52).toNat = n * 2 ^ 52 := by
    rw [show (e + k + j + 52).toNat = j + (e + k + 52).toNat by omega, Nat.pow_add, ← Nat.mul_assoc,
      Nat.div_mul_cancel hdvd, hn]
  refine .finite s ⟨hbounds.1, hbounds.2, by omega, ?_⟩ hvalue
  have := log2_of_mul_eq hbounds.1 hbounds.2 hvalue
  omega

/-! ## Packed numbers -/

/-- **A number in normal form is not changed by packing it.** -/
theorem Normal.unpack_pack (h : Normal m e) (s : Sign) (hm : 0 < m) :
    unpack .binary64 (pack .binary64 (.finite s m e hm)) = .finite s m e hm := by
  obtain ⟨hge, hlt, hlow, hhigh⟩ := h
  have hlog : m.log2 = 52 := (Nat.log2_eq_iff (by omega)).2 ⟨hge, hlt⟩
  -- the exponent that is stored is neither of the two that mean something else
  have hbiased : (e + (Format.binary64.exponentBias : Int) + (52 : Nat)).toNat = (e + 1075).toNat := by
    rw [show Format.binary64.exponentBias = 1023 from rfl]
    omega
  have hexponent : (BitVec.ofNat 11 (e + 1075).toNat).toNat = (e + 1075).toNat := by
    rw [BitVec.toNat_ofNat, Nat.mod_eq_of_lt (by omega)]
  have hall : BitVec.ofNat 11 (e + 1075).toNat ≠ -1#11 := fun hall => by
    have := congrArg BitVec.toNat hall
    rw [hexponent] at this
    simp at this
    omega
  have hnone : BitVec.ofNat 11 (e + 1075).toNat ≠ 0#11 := fun hnone => by
    have := congrArg BitVec.toNat hnone
    rw [hexponent] at this
    simp at this
    omega
  -- the first digit of the significand is not stored
  have hmantissa : (1#1 ++ BitVec.ofNat 52 m).toNat = m := by
    rw [BitVec.toNat_append, ← Nat.shiftLeft_add_eq_or_of_lt (BitVec.ofNat 52 m).isLt, BitVec.toNat_ofNat,
      Nat.shiftLeft_eq]
    simp only [BitVec.toNat_ofNat]
    omega
  rw [UnpackedFloat.pack]
  simp only [hlog, hbiased]
  rw [if_neg (by omega), if_pos (by rfl), UnpackedFloat.unpack]
  simp only [unpackMantissa_packComponents, unpackExponent_packComponents, unpackSign_packComponents,
    Sign.ofBitVec_toBitVec]
  rw [if_neg hall, if_neg hnone]
  have hvalue : ((e + 1075).toNat : Int) - (Format.binary64.exponentBias + (52 : Nat)) = e := by
    rw [show Format.binary64.exponentBias = 1023 from rfl]
    omega
  simp only [hmantissa, hexponent, hvalue]

/-- **An integer is not changed by packing it.** -/
theorem IsInteger.pack (hf : IsInteger f v) : IsInteger (Float.Model.pack f).unpack v := by
  cases hf with
  | zero s => cases s <;> exact .zero _
  | finite s h hn =>
    change IsInteger (UnpackedFloat.unpack .binary64 (UnpackedFloat.pack .binary64 _)) _
    rw [h.unpack_pack]
    exact .finite s h hn

theorem IsInteger.neg (hf : IsInteger f v) : IsInteger f.neg (-v) := by
  cases hf with
  | zero s => exact .zero _
  | finite s h hn =>
    cases s with
    | negative =>
      simp only [Sign.apply, Int.neg_neg]
      exact .finite .positive h hn
    | positive => exact .finite .negative h hn

/-! ## Making an integer a floating-point number -/

/-- An integer is not changed by multiplying it by one. -/
theorem IsInteger.mul_one (hf : IsInteger f v) (hone : 0 < 2 ^ 52) :
    IsInteger (UnpackedFloat.mul .binary64 f (.finite .positive (2 ^ 52) (-52) hone)) v := by
  cases hf with
  | zero s => exact .zero _
  | @finite s m e _ n h hn =>
    obtain ⟨hge, hlt, hlow, hhigh⟩ := id h
    have hlog : (m * 2 ^ 52).log2 = 52 + (52 : Nat) := (Nat.log2_eq_iff (by omega)).2 ⟨by omega, by omega⟩
    have hsame : nearestEven (m * 2 ^ 52) (2 ^ 52) = m := by
      simpa only [Nat.one_mul, nearestEven_one] using nearestEven_mul m 1 (Nat.two_pow_pos 52)
    have hsign : s * Sign.positive = s := by cases s <;> rfl
    change IsInteger (roundWithAccuracy .binary64 (s * .positive) (m * 2 ^ 52) (e + -52) .exact) _
    have hvalue := log2_of_mul_eq hge hlt hn
    rw [hsign]
    refine isInteger_roundWithAccuracy s hlog (by omega) ?_ (by omega)
    rw [hsame, show e + -52 + (52 : Nat) = e by omega, hn]

/-- A number with at most 53 digits is not rounded. -/
theorem isInteger_round (hn : n ≠ 0) (hlog : n.log2 ≤ 52) :
    IsInteger (UnpackedFloat.round .binary64 .positive n 0) n := by
  have htarget : Format.binary64.targetExponent (totalExponent n 0) = (n.log2 : Int) - 52 := by
    simp only [Format.targetExponent, totalExponent, Format.mantissaBits, Format.minExponent]
    omega
  have hshift : (0 - ((n.log2 : Int) - 52)).toNat = 52 - n.log2 := by omega
  rw [UnpackedFloat.round]
  simp only [htarget, decreaseExponent, hshift, Nat.shiftLeft_eq]
  have hlog' : (n * 2 ^ (52 - n.log2)).log2 = 52 + 0 := by
    rw [log2_mul_two_pow hn]
    omega
  refine isInteger_roundWithAccuracy .positive hlog' (by omega) ?_ (by omega)
  rw [Nat.pow_zero, nearestEven_one, Nat.mul_assoc, ← Nat.pow_add]
  congr 2
  omega

/-- A number with more digits is rounded. -/
theorem isInteger_ofScientific (hn : n ≠ 0) (hlog : n.log2 ≤ 1022) :
    IsInteger (UnpackedFloat.ofScientific .binary64 n 0) (roundedNat n) := by
  have hlog' : (n * 2 ^ 53).log2 = 52 + (n.log2 + 1) := by
    rw [log2_mul_two_pow hn]
    omega
  have hbound : (roundedNat n).log2 ≤ 1023 := by
    have hpos : roundedNat n ≠ 0 := (Nat.lt_of_lt_of_le (Nat.two_pow_pos _) (two_pow_le_roundedNat hn)).ne'
    have hlt : roundedNat n < 2 ^ (n.log2 + 2) :=
      Nat.lt_of_le_of_lt (roundedNat_le_two_pow n) (Nat.pow_lt_pow_right (by decide) (Nat.lt_succ_self _))
    have := (Nat.log2_lt hpos).2 hlt
    omega
  have hround := isInteger_roundWithAccuracy .positive (e := -53) (n := roundedNat n) hlog' (by omega) ?_ hbound
  · rw [UnpackedFloat.ofScientific, dif_neg hn, if_neg (by decide), if_neg (by simp), if_pos (by decide)]
    simp only [UnpackedFloat.mul, Int.toNat_zero, Nat.pow_zero, Nat.mul_one, Int.add_zero, Nat.shiftLeft_eq]
    exact hround
  · rw [show (-53 + ((n.log2 + 1 : Nat) : Int) + 52).toNat = n.log2 by omega, roundedNat]
    rcases Nat.le_total n.log2 52 with hle | hle
    · have hnum : n * 2 ^ 53 = n * 2 ^ (52 - n.log2) * 2 ^ (n.log2 + 1) := by
        rw [Nat.mul_assoc, ← Nat.pow_add]
        congr 2
        omega
      have hquot := nearestEven_mul (n * 2 ^ (52 - n.log2)) 1 (Nat.two_pow_pos (n.log2 + 1))
      rw [Nat.one_mul, nearestEven_one, ← hnum] at hquot
      rw [hquot, Nat.sub_eq_zero_of_le hle, Nat.pow_zero, nearestEven_one, Nat.mul_one, Nat.mul_assoc, ← Nat.pow_add,
        Nat.sub_add_cancel hle]
    · have hquot := nearestEven_mul n (2 ^ (n.log2 - 52)) (Nat.two_pow_pos 53)
      rw [← Nat.pow_add, show n.log2 - 52 + 53 = n.log2 + 1 by omega] at hquot
      rw [hquot, Nat.mul_assoc, ← Nat.pow_add, Nat.sub_add_cancel hle]

/-- The unit, as it is stored. -/
theorem unpack_one :
    (Float.exactlyRepresentablePowersOfTen[0]).toModel.unpack = .finite .positive (2 ^ 52) (-52) (by decide) := rfl

/-- A natural number is made the floating-point number that it is rounded to. -/
theorem isInteger_ofNat (hlog : n.log2 ≤ 1022) : IsInteger (Float.ofNat n).toModel.unpack (roundedNat n) := by
  rcases eq_or_ne n 0 with rfl | hn
  · exact .zero _
  change IsInteger (Float.ofScientific n false 0).toModel.unpack _
  rw [Float.ofScientific]
  split
  next hsmall =>
    have hword : n.toUInt64.toNat = n := by
      rw [Nat.toUInt64, UInt64.toNat_ofNat']
      exact Nat.mod_eq_of_lt (by omega)
    have hround := (isInteger_round hn (Nat.lt_succ_iff.1 ((Nat.log2_lt hn).2 hsmall.1))).pack
    have hunpacked : IsInteger n.toUInt64.toFloat.toModel.unpack n := by
      change IsInteger
        (Float.Model.pack (UnpackedFloat.normalize .binary64 (n.toUInt64.toNat : Int) 0 .positive)).unpack n
      rwa [hword, UnpackedFloat.normalize, Int.compare_eq_gt.2 (by omega)]
    have hmul := (hunpacked.mul_one (by decide)).pack
    rw [← unpack_one] at hmul
    rw [roundedNat_of_small hsmall.1.le]
    exact hmul
  next => exact (isInteger_ofScientific hn hlog).pack

/-- **An integer is made the floating-point number that it is rounded to.** -/
theorem isInteger_ofInt (hlog : v.natAbs.log2 ≤ 1022) : IsInteger (Float.ofInt v).toModel.unpack (rounded v) := by
  cases v with
  | ofNat n => exact isInteger_ofNat hlog
  | negSucc n => exact (isInteger_ofNat (n := n + 1) hlog).neg.pack

/-! ## Comparing integers -/

theorem log2_natAbs_le {x : Int} (hx : x.natAbs < 2 ^ 64) : x.natAbs.log2 ≤ 1022 := by
  rcases eq_or_ne x.natAbs 0 with h | h
  · rw [h, Nat.log2_zero]
    exact Nat.zero_le _
  · have := (Nat.log2_lt h).2 hx
    omega

variable (hv : v.natAbs.log2 ≤ 1022) (hw : w.natAbs.log2 ≤ 1022)

include hv hw

theorem ofInt_lt : Float.ofInt v < Float.ofInt w ↔ rounded v < rounded w := by
  have hcompare := (isInteger_ofInt hv).compare (isInteger_ofInt hw)
  change decide
    (((Float.ofInt v).toModel.unpack.compare (Float.ofInt w).toModel.unpack == some .lt) = true) = true ↔ _
  rw [decide_eq_true_iff, hcompare, beq_iff_eq, Option.some.injEq, Int.compare_eq_lt]

theorem ofInt_le : Float.ofInt v ≤ Float.ofInt w ↔ rounded v ≤ rounded w := by
  have hcompare := (isInteger_ofInt hv).compare (isInteger_ofInt hw)
  change decide
    (((Float.ofInt v).toModel.unpack.compare (Float.ofInt w).toModel.unpack).any Ordering.isLE = true) = true ↔ _
  rw [decide_eq_true_iff, hcompare, Option.any_some, Int.isLE_compare]

theorem ofInt_beq : (Float.ofInt v == Float.ofInt w) = true ↔ rounded v = rounded w := by
  have hcompare := (isInteger_ofInt hv).compare (isInteger_ofInt hw)
  change ((Float.ofInt v).toModel.unpack.compare (Float.ofInt w).toModel.unpack == some .eq) = true ↔ _
  rw [hcompare, beq_iff_eq, Option.some.injEq, Int.compare_eq_eq]

end ApiForge.Decimal
