import Mathlib.Data.Int.Order.Basic
import Mathlib.Data.Nat.Log
import Mathlib.Tactic.Ring

/-!
# Integers rounded to binary64

A binary64 number has 53 significant bits. A larger integer is rounded to the nearest number that has no more, and of
two that are equally near to the even one.

* `nearestEven m w`: the quotient of `m` by `w`, rounded in this way.
* `rounded n`: the integer that `n` is rounded to. For a natural number, `roundedNat_nearest`: nothing with 53 significant
  bits is nearer.
* `rounded_mono`: rounding is monotone; `rounded_of_small`: up to `2 ^ 53` it changes nothing.
* `rounded_injective`: an integer below `2 ^ 53` is not rounded to the same as another one.
-/

namespace ApiForge.Decimal

/-! ## Quotients -/

/-- The quotient rounded to the nearest integer, of two to the even one. -/
def nearestEven (m w : Nat) : Nat :=
  if 2 * (m % w) < w then m / w
  else if 2 * (m % w) = w then m / w + m / w % 2
  else m / w + 1

theorem nearestEven_one (m : Nat) : nearestEven m 1 = m := by
  simp [nearestEven, Nat.mod_one]

theorem le_nearestEven (m w : Nat) : m / w ≤ nearestEven m w := by
  unfold nearestEven
  split
  · exact Nat.le_refl _
  · split <;> omega

theorem nearestEven_le (m w : Nat) : nearestEven m w ≤ m / w + 1 := by
  unfold nearestEven
  split
  · omega
  · split <;> omega

theorem nearestEven_mono {m m' : Nat} (w : Nat) (h : m ≤ m') : nearestEven m w ≤ nearestEven m' w := by
  have hquot : m / w ≤ m' / w := Nat.div_le_div_right h
  rcases Nat.lt_or_eq_of_le hquot with hlt | heq
  · exact (nearestEven_le m w).trans (Nat.le_trans hlt (le_nearestEven m' w))
  · -- of one quotient, the greater remainder is rounded up if the lesser one is
    have hrest : m % w ≤ m' % w := by
      have hm := Nat.div_add_mod m w
      have hm' := Nat.div_add_mod m' w
      rw [← heq] at hm'
      omega
    unfold nearestEven
    rw [← heq]
    split_ifs <;> omega

/-- Numerator and denominator may be multiplied by the same number. -/
theorem nearestEven_mul (m w : Nat) {c : Nat} (hc : 0 < c) : nearestEven (m * c) (w * c) = nearestEven m w := by
  have hrest : 2 * (m % w * c) = 2 * (m % w) * c := (Nat.mul_assoc _ _ _).symm
  simp only [nearestEven, Nat.mul_div_mul_right _ _ hc, Nat.mul_mod_mul_right, hrest, Nat.mul_lt_mul_right hc,
    Nat.mul_left_inj hc.ne']

/-- **The rounded quotient is nearest**: no multiple of `w` is nearer to `m`. -/
theorem nearestEven_nearest {m w : Nat} (hw : 0 < w) (j : Nat) :
    ((m : Int) - (nearestEven m w * w : Nat)).natAbs ≤ ((m : Int) - (j * w : Nat)).natAbs := by
  have hm : w * (m / w) + m % w = m := Nat.div_add_mod m w
  have hrest : m % w < w := Nat.mod_lt m hw
  rw [Nat.mul_comm] at hm
  -- a multiple of `w` is at most the one below `m` or at least the one above
  have hj : j * w ≤ m / w * w ∨ (m / w + 1) * w ≤ j * w := by
    rcases Nat.lt_or_ge (m / w) j with h | h
    · exact .inr (Nat.mul_le_mul_right w h)
    · exact .inl (Nat.mul_le_mul_right w h)
  have hcases : nearestEven m w = m / w ∧ 2 * (m % w) ≤ w ∨ nearestEven m w = m / w + 1 ∧ w ≤ 2 * (m % w) := by
    unfold nearestEven
    split_ifs with hlt heq
    · exact .inl ⟨rfl, hlt.le⟩
    · rcases Nat.mod_two_eq_zero_or_one (m / w) with h | h
      · exact .inl ⟨by omega, heq.le⟩
      · exact .inr ⟨by omega, heq.ge⟩
    · exact .inr ⟨rfl, by omega⟩
  rw [Nat.succ_mul] at hj
  rcases hcases with ⟨h, hhalf⟩ | ⟨h, hhalf⟩
  · rw [h]
    omega
  · rw [h, Nat.succ_mul]
    omega

/-! ## Natural numbers -/

/-- The natural number that a natural number is rounded to: what does not fit into 53 bits is rounded off. -/
def roundedNat (n : Nat) : Nat := nearestEven n (2 ^ (n.log2 - 52)) * 2 ^ (n.log2 - 52)

theorem roundedNat_of_log2_le {n : Nat} (h : n.log2 ≤ 52) : roundedNat n = n := by
  rw [roundedNat, Nat.sub_eq_zero_of_le h, Nat.pow_zero, nearestEven_one, Nat.mul_one]

/-- Rounding keeps the greatest power of two below a number. -/
theorem two_pow_le_roundedNat {n : Nat} (hn : n ≠ 0) : 2 ^ n.log2 ≤ roundedNat n := by
  have hself : 2 ^ n.log2 ≤ n := Nat.log2_self_le hn
  rcases Nat.le_total n.log2 52 with h | h
  · rwa [roundedNat_of_log2_le h]
  · have hpow : 2 ^ n.log2 = 2 ^ 52 * 2 ^ (n.log2 - 52) := by
      rw [← Nat.pow_add]
      congr 1
      omega
    have hquot : 2 ^ 52 ≤ n / 2 ^ (n.log2 - 52) := by
      rw [Nat.le_div_iff_mul_le (Nat.two_pow_pos _), ← hpow]
      exact hself
    rw [hpow, roundedNat]
    exact Nat.mul_le_mul_right _ (hquot.trans (le_nearestEven _ _))

/-- Rounding gets at most to the next power of two. -/
theorem roundedNat_le_two_pow (n : Nat) : roundedNat n ≤ 2 ^ (n.log2 + 1) := by
  have hself : n < 2 ^ (n.log2 + 1) := Nat.lt_log2_self
  rcases Nat.le_total n.log2 52 with h | h
  · rw [roundedNat_of_log2_le h]
    exact hself.le
  · have hpow : 2 ^ (n.log2 + 1) = 2 ^ 53 * 2 ^ (n.log2 - 52) := by
      rw [← Nat.pow_add]
      congr 1
      omega
    have hquot : n / 2 ^ (n.log2 - 52) < 2 ^ 53 := by
      rw [Nat.div_lt_iff_lt_mul (Nat.two_pow_pos _), ← hpow]
      exact hself
    rw [hpow, roundedNat]
    exact Nat.mul_le_mul_right _ ((nearestEven_le _ _).trans hquot)

/-- **What a number is rounded to is nearest**: no number with at most 53 significant bits is nearer. -/
theorem roundedNat_nearest (n : Nat) {j : Nat} (hj : j ≤ 2 ^ 53) (e : Nat) :
    ((n : Int) - roundedNat n).natAbs ≤ ((n : Int) - (j * 2 ^ e : Nat)).natAbs := by
  have hnearest := fun i => nearestEven_nearest (m := n) (Nat.two_pow_pos (n.log2 - 52)) i
  rcases Nat.lt_or_ge e (n.log2 - 52) with he | he
  · -- a number with fewer digits behind is less than the least one of this size
    have hself : 2 ^ n.log2 ≤ n := Nat.log2_self_le (by rintro rfl; simp at he)
    have hpow : 2 ^ 52 * 2 ^ (n.log2 - 52) = 2 ^ n.log2 := by
      rw [← Nat.pow_add]
      congr 1
      omega
    have hle : j * 2 ^ e ≤ 2 ^ n.log2 := by
      calc j * 2 ^ e ≤ 2 ^ 53 * 2 ^ e := Nat.mul_le_mul_right _ hj
        _ = 2 ^ (53 + e) := (Nat.pow_add ..).symm
        _ ≤ 2 ^ n.log2 := Nat.pow_le_pow_right (by decide) (by omega)
    have hleast := hnearest (2 ^ 52)
    rw [hpow] at hleast
    exact hleast.trans (by omega)
  · have hmul : j * 2 ^ e = j * 2 ^ (e - (n.log2 - 52)) * 2 ^ (n.log2 - 52) := by
      rw [Nat.mul_assoc, ← Nat.pow_add, Nat.sub_add_cancel he]
    rw [hmul]
    exact hnearest _

/-- **Rounding is monotone**: numbers of one size are cut at the same bit, and a power of two lies between others. -/
theorem roundedNat_mono {n m : Nat} (h : n ≤ m) : roundedNat n ≤ roundedNat m := by
  rcases Nat.eq_zero_or_pos n with rfl | hn
  · rw [roundedNat_of_log2_le (by decide)]
    exact Nat.zero_le _
  have hm : m ≠ 0 := by omega
  have hlog : n.log2 ≤ m.log2 := (Nat.le_log2 hm).2 ((Nat.log2_self_le hn.ne').trans h)
  rcases Nat.lt_or_eq_of_le hlog with hlt | heq
  · calc roundedNat n ≤ 2 ^ (n.log2 + 1) := roundedNat_le_two_pow n
      _ ≤ 2 ^ m.log2 := Nat.pow_le_pow_right (by decide) hlt
      _ ≤ roundedNat m := two_pow_le_roundedNat hm
  · rw [roundedNat, roundedNat, ← heq]
    exact Nat.mul_le_mul_right _ (nearestEven_mono _ h)

theorem roundedNat_of_small {n : Nat} (h : n ≤ 2 ^ 53) : roundedNat n = n := by
  rcases Nat.lt_or_eq_of_le h with h | rfl
  · rcases Nat.eq_zero_or_pos n with rfl | hn
    · exact roundedNat_of_log2_le (by decide)
    · exact roundedNat_of_log2_le (Nat.lt_succ_iff.1 ((Nat.log2_lt hn.ne').2 h))
  · decide +kernel

/-! ## Integers -/

/-- The integer that an integer is rounded to. -/
def rounded : Int → Int
  | .ofNat n => roundedNat n
  | .negSucc n => -(roundedNat (n + 1) : Int)

theorem rounded_ofNat (n : Nat) : rounded n = roundedNat n := rfl

theorem rounded_neg (n : Nat) : rounded (-n) = -(roundedNat n : Int) := by
  cases n with
  | zero => decide
  | succ n => rfl

/-- **Rounding is monotone** on all integers. -/
theorem rounded_mono {x y : Int} (h : x ≤ y) : rounded x ≤ rounded y := by
  obtain ⟨n, rfl | rfl⟩ := x.eq_nat_or_neg <;> obtain ⟨m, rfl | rfl⟩ := y.eq_nat_or_neg
  · rw [rounded_ofNat, rounded_ofNat]
    exact Int.ofNat_le.2 (roundedNat_mono (by omega))
  · obtain ⟨rfl, rfl⟩ : n = 0 ∧ m = 0 := by omega
    decide
  · rw [rounded_neg, rounded_ofNat]
    omega
  · rw [rounded_neg, rounded_neg]
    have := roundedNat_mono (show m ≤ n by omega)
    omega

theorem rounded_le_iff {x y : Int} : rounded x ≤ rounded y ↔ x ≤ y ∨ rounded x = rounded y := by
  constructor
  · intro h
    rcases Int.le_total x y with hxy | hyx
    · exact .inl hxy
    · exact .inr (Int.le_antisymm h (rounded_mono hyx))
  · rintro (h | h)
    · exact rounded_mono h
    · exact h.le

theorem rounded_lt_iff {x y : Int} : rounded x < rounded y ↔ x < y ∧ rounded x ≠ rounded y := by
  rw [← not_le, rounded_le_iff, not_or, not_le, ne_comm]

/-- **Small integers are not changed** by rounding. -/
theorem rounded_of_small {x : Int} (h : x.natAbs ≤ 2 ^ 53) : rounded x = x := by
  obtain ⟨n, rfl | rfl⟩ := x.eq_nat_or_neg
  · rw [rounded_ofNat, roundedNat_of_small (by simpa using h)]
  · rw [rounded_neg, roundedNat_of_small (by simpa using h)]

/-- An integer below `2 ^ 53` is not confused with any other one: its neighbours are not changed either. -/
theorem rounded_injective {x y : Int} (hx : x.natAbs < 2 ^ 53) (h : rounded x = rounded y) : x = y := by
  rw [rounded_of_small hx.le] at h
  rcases Int.lt_trichotomy x y with hlt | rfl | hgt
  · have hle := rounded_mono (Int.add_one_le_of_lt hlt)
    rw [rounded_of_small (x := x + 1) (by omega)] at hle
    omega
  · rfl
  · have hle := rounded_mono (Int.le_sub_one_of_lt hgt)
    rw [rounded_of_small (x := x - 1) (by omega)] at hle
    omega

end ApiForge.Decimal
