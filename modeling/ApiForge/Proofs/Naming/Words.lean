import ApiForge.Proofs.Naming.Identifier

/-!
# Names that no pattern constant has

The constant of a pattern is named in capitals and has an underscore before the `P` of its last word. Type names are put
together without underscores, but an underscore guards a leading digit, or it stands for a key without words.

* `flatten_words`: the words of a name, put together, are its letters and digits.
* `isGuarded cs`: every underscore is followed by a digit.
* `Mild`: a name with a small letter or without unguarded underscores. Names that are put together from mild ones are
  mild, and so is the Pascal case of every key with a letter or a digit (`Legible.mild_pascalCase`).
* `PatternName`: what the names of pattern constants have in common; no mild name is one (`PatternName.not_mild`).
-/

namespace ApiForge.Naming

open Text

/-! ## Words -/

theorem flatten_wordsFrom : ∀ (cs word : List Char) (breaks : Bool),
    (wordsFrom word breaks cs).flatten = word ++ cs.filter isAlnumAscii
  | [], word, _ => by
    rw [wordsFrom]
    split
    · rename_i h
      rw [List.isEmpty_iff.1 h]
      rfl
    · simp
  | c :: cs, word, breaks => by
    rw [wordsFrom]
    split
    · rename_i hc
      have hword : (if word.isEmpty then [] else [word]).flatten = word := by cases word <;> simp
      rw [List.flatten_append, hword, flatten_wordsFrom cs, List.nil_append,
        List.filter_cons_of_neg (by simpa using hc)]
    · rename_i hc
      have hkept : (c :: cs).filter isAlnumAscii = c :: cs.filter isAlnumAscii :=
        List.filter_cons_of_pos (by simpa using hc)
      split
      · rw [List.flatten_cons, flatten_wordsFrom cs, hkept]
        rfl
      · rw [flatten_wordsFrom cs, hkept, List.append_assoc]
        rfl

/-- **The words of a name**, put together, are its letters and digits. -/
theorem flatten_words (cs : List Char) : (words cs).flatten = cs.filter isAlnumAscii := flatten_wordsFrom cs [] false

/-! ## Guarded underscores -/

/-- Whether every underscore is followed by a digit. -/
def isGuarded : List Char → Bool
  | [] => true
  | c :: cs => (c != '_' || cs.head?.any isDigitAscii) && isGuarded cs

theorem isGuarded_append : ∀ {a b : List Char}, isGuarded a = true → isGuarded b = true → isGuarded (a ++ b) = true
  | [], _, _, hb => hb
  | c :: cs, b, ha, hb => by
    rw [isGuarded, Bool.and_eq_true, Bool.or_eq_true] at ha
    rw [List.cons_append, isGuarded, Bool.and_eq_true, Bool.or_eq_true]
    refine ⟨ha.1.imp_right fun h => ?_, isGuarded_append ha.2 hb⟩
    cases cs with
    | nil => cases h
    | cons d ds => exact h

theorem isGuarded_of_alnum : ∀ {cs : List Char}, (∀ c ∈ cs, isAlnumAscii c = true) → isGuarded cs = true
  | [], _ => rfl
  | c :: cs, h => by
    obtain ⟨hc, hcs⟩ := List.forall_mem_cons.1 h
    have hne : c ≠ '_' := by
      rintro rfl
      revert hc
      decide
    rw [isGuarded, isGuarded_of_alnum hcs, Bool.and_true, Bool.or_eq_true]
    exact .inl (by simpa using hne)

/-- A word is guarded, also with an underscore before a leading digit. -/
theorem isGuarded_guardStart : ∀ {cs : List Char}, cs ≠ [] → (∀ c ∈ cs, isAlnumAscii c = true) →
    isGuarded (guardStart cs) = true
  | [], hne, _ => absurd rfl hne
  | c :: cs, _, h => by
    rw [guardStart]
    split
    · rename_i hdigit
      rw [isGuarded, isGuarded_of_alnum h, Bool.and_true, Bool.or_eq_true]
      exact .inr hdigit
    · exact isGuarded_of_alnum h

/-- An underscore before something else than a digit is not guarded. -/
theorem isGuarded_infix {a b : List Char} {c : Char} (hc : isDigitAscii c = false) :
    isGuarded (a ++ '_' :: c :: b) = false := by
  induction a with
  | nil => simp [isGuarded, hc]
  | cons x xs ih => rw [List.cons_append, isGuarded, ih, Bool.and_false]

/-! ## Mild names -/

/-- A name with a small letter. -/
def Lowered (name : String) : Prop := ∃ c ∈ name.toList, isLowerAscii c = true

/-- A name with a small letter, or one in which every underscore is followed by a digit. -/
def Mild (name : String) : Prop := Lowered name ∨ isGuarded name.toList = true

/-- A key with a letter or a digit. -/
def Legible (key : String) : Prop := ∃ c ∈ key.toList, isAlnumAscii c = true

section Names

variable {a b : String}

theorem Lowered.append_left : Lowered a → Lowered (a ++ b)
  | ⟨c, hc, h⟩ => ⟨c, by rw [String.toList_append]; exact List.mem_append_left _ hc, h⟩

theorem Lowered.append_right : Lowered b → Lowered (a ++ b)
  | ⟨c, hc, h⟩ => ⟨c, by rw [String.toList_append]; exact List.mem_append_right _ hc, h⟩

theorem Lowered.fresh (names : Allocator) (h : Lowered a) : Lowered (names.fresh a) := by
  rcases names.fresh_cases a with hf | ⟨n, hf⟩
  · rwa [hf]
  · rw [hf]
    exact h.append_left

theorem Mild.append : Mild a → Mild b → Mild (a ++ b)
  | .inl ha, _ => .inl ha.append_left
  | .inr _, .inl hb => .inl hb.append_right
  | .inr ha, .inr hb => .inr (by rw [String.toList_append]; exact isGuarded_append ha hb)

theorem mild_toString (n : Nat) : Mild (toString n) := by
  refine .inr (isGuarded_of_alnum fun c hc => ?_)
  rw [Nat.toString_eq_ofList_toDigits, String.toList_ofList] at hc
  have hdigit : c.isDigit = true := Nat.isDigit_of_mem_toDigits (by decide) (by decide) hc
  exact isAlnumAscii_iff.2 (.inr (.inr hdigit))

/-- A name that is given out for a mild one is mild. -/
theorem Mild.fresh (names : Allocator) (h : Mild a) : Mild (names.fresh a) := by
  rcases names.fresh_cases a with hf | ⟨n, hf⟩
  · rwa [hf]
  · rw [hf]
    exact h.append (mild_toString n)

theorem isAlnumAscii_upperChar {c : Char} (h : isAlnumAscii c = true) : isAlnumAscii (upperChar c) = true := by
  cases hl : isLowerAscii c with
  | true => exact isAlnumAscii_iff.2 (.inr (.inl (isUpperAscii_upperChar hl)))
  | false => rwa [upperChar, if_neg (by simp [hl])]

/-- Capitalised words consist of letters and digits. -/
theorem alnum_capitalized {cs : List Char} {c : Char} (h : c ∈ (words cs).flatMap capitalize) :
    isAlnumAscii c = true := by
  obtain ⟨word, hword, hc⟩ := List.mem_flatMap.1 h
  have halnum : ∀ x ∈ word, isAlnumAscii x = true := fun x hx => by
    have hmem : x ∈ (words cs).flatten := List.mem_flatten.2 ⟨word, hword, hx⟩
    rw [flatten_words] at hmem
    exact (List.mem_filter.1 hmem).2
  cases word with
  | nil => cases hc
  | cons x xs =>
    rcases List.mem_cons.1 hc with rfl | hc
    · exact isAlnumAscii_upperChar (halnum x List.mem_cons_self)
    · exact halnum c (List.mem_cons_of_mem x hc)

theorem Legible.capitalized_ne_nil {key : String} : Legible key → (words key.toList).flatMap capitalize ≠ []
  | ⟨c, hc, halnum⟩, h => by
    have hmem : c ∈ (words key.toList).flatten := by
      rw [flatten_words]
      exact List.mem_filter.2 ⟨hc, halnum⟩
    obtain ⟨word, hword, hc⟩ := List.mem_flatten.1 hmem
    have hnone : capitalize word = [] := List.flatMap_eq_nil_iff.1 h word hword
    cases word with
    | nil => cases hc
    | cons x xs => cases hnone

/-- **The Pascal case of a key with a letter or a digit is mild.** -/
theorem Legible.mild_pascalCase {key : String} (h : Legible key) : Mild (pascalCase key) := by
  unfold pascalCase
  dsimp only
  split
  · exact .inl ⟨'e', by decide, by decide⟩
  · refine .inr ?_
    rw [String.toList_ofList]
    exact isGuarded_guardStart h.capitalized_ne_nil fun _ hc => alnum_capitalized hc

end Names

/-! ## Names of pattern constants -/

/-- A name without small letters that has an underscore before a word in `P`. -/
def PatternName (name : String) : Prop := Shouting name ∧ "_PATTERN".toList <:+: name.toList

theorem PatternName.fresh {name : String} (names : Allocator) (h : PatternName name) :
    PatternName (names.fresh name) := by
  refine ⟨h.1.fresh names, ?_⟩
  rcases names.fresh_cases name with hf | ⟨n, hf⟩
  · rw [hf]
    exact h.2
  · rw [hf, String.toList_append]
    exact h.2.trans (List.prefix_append _ _).isInfix

/-- **No mild name is that of a pattern constant.** -/
theorem PatternName.not_mild {name : String} (h : PatternName name) : ¬Mild name := by
  obtain ⟨hshouting, a, b, hname⟩ := h
  rintro (⟨c, hc, hlower⟩ | hguarded)
  · rw [hshouting c hc] at hlower
    cases hlower
  · have hsplit : name.toList = a ++ '_' :: 'P' :: ("ATTERN".toList ++ b) := by
      rw [← hname, List.append_assoc]
      rfl
    rw [hsplit, isGuarded_infix (by decide)] at hguarded
    cases hguarded

end ApiForge.Naming
