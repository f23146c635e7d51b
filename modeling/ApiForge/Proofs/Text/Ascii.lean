import ApiForge.Text.Ascii

/-!
# ASCII classes by code point

The classes are intervals of code points, and the change of case moves a letter from one interval to the other.
-/

namespace ApiForge.Text

variable {c : Char}

theorem isUpperAscii_iff : isUpperAscii c = true ↔ 65 ≤ c.toNat ∧ c.toNat ≤ 90 := by
  simp [isUpperAscii, Char.le_def, UInt32.le_iff_toNat_le]

theorem isLowerAscii_iff : isLowerAscii c = true ↔ 97 ≤ c.toNat ∧ c.toNat ≤ 122 := by
  simp [isLowerAscii, Char.le_def, UInt32.le_iff_toNat_le]

theorem isDigitAscii_iff : isDigitAscii c = true ↔ 48 ≤ c.toNat ∧ c.toNat ≤ 57 := by
  simp [isDigitAscii, Char.le_def, UInt32.le_iff_toNat_le]

theorem isAlnumAscii_iff : isAlnumAscii c = true ↔
    isLowerAscii c = true ∨ isUpperAscii c = true ∨ isDigitAscii c = true := by
  simp [isAlnumAscii, isLetterAscii, or_assoc]

/-- The code point of a character that is given by its code point. -/
theorem toNat_ofNat {n : Nat} (h : n < 0xD800) : (Char.ofNat n).toNat = n := by
  have hn : n.isValidChar := .inl h
  rw [Char.ofNat, dif_pos hn]
  rfl

theorem isLowerAscii_lowerChar (h : isUpperAscii c = true) : isLowerAscii (lowerChar c) = true := by
  have hc := isUpperAscii_iff.1 h
  rw [lowerChar, if_pos h, isLowerAscii_iff, toNat_ofNat (by omega)]
  omega

theorem isUpperAscii_upperChar (h : isLowerAscii c = true) : isUpperAscii (upperChar c) = true := by
  have hc := isLowerAscii_iff.1 h
  rw [upperChar, if_pos h, isUpperAscii_iff, toNat_ofNat (by omega)]
  omega

/-- A change of case leaves letters and digits letters and digits. -/
theorem isAlnumAscii_lowerChar (h : isAlnumAscii c = true) : isAlnumAscii (lowerChar c) = true := by
  cases hu : isUpperAscii c with
  | true => exact isAlnumAscii_iff.2 (.inl (isLowerAscii_lowerChar hu))
  | false => rwa [lowerChar, if_neg (by simp [hu])]

end ApiForge.Text
