import ApiForge.Proofs.Naming.Snake

/-!
# Names that the generated language accepts

An identifier is a word of letters, digits and underscores that begins with no digit, is not reserved, and is not the
underscore alone. A field may also be named by a reserved word with a raw mark.

* `IsWord`, `IsIdentifier`, `IsFieldName`: the shapes of names. The reserved words are listed here as the language has
  them, apart from the words that the naming functions avoid.
* `isWord_pascalCase`, `isWord_snakeCase`: converted names are words. A word with a number behind it is an identifier
  (`IsWord.number`).
* `Compound.isIdentifier`: so is a compound word. A Pascal case is one unless it is the underscore alone, which it is
  for keys without letters and digits (`pascalCase_eq_underscore_iff`).
* `isFieldName_fieldIdent`: the identifier of a wire key names a field.
* `IsFieldName.withoutMark_inj`: names of fields differ also without their raw marks.
-/

namespace ApiForge.Naming

open Text

/-! ## Shapes of names -/

/-- A character of a word. -/
def isWordChar (c : Char) : Bool := isAlnumAscii c || c == '_'

/-- A text of letters, digits and underscores. -/
def Wordy (text : String) : Prop := ∀ c ∈ text.toList, isWordChar c = true

instance (text : String) : Decidable (Wordy text) :=
  decidable_of_iff (text.toList.all isWordChar = true) List.all_eq_true

/-- A text of letters, digits and underscores that is not empty and begins with no digit. -/
structure IsWord (name : String) : Prop where
  chars : Wordy name
  start : ∃ c cs, name.toList = c :: cs ∧ isDigitAscii c = false

theorem isWord_iff {name : String} :
    IsWord name ↔ Wordy name ∧ name.toList.head?.any (!isDigitAscii ·) = true := by
  refine ⟨fun ⟨hchars, c, cs, hcs, hc⟩ => ⟨hchars, by simp [hcs, hc]⟩, fun ⟨hchars, hstart⟩ => ?_⟩
  cases hcs : name.toList with
  | nil => rw [hcs] at hstart; cases hstart
  | cons c cs => exact ⟨hchars, c, cs, hcs, by simpa [hcs] using hstart⟩

instance (name : String) : Decidable (IsWord name) := decidable_of_iff _ isWord_iff.symm

/-- The words that have a meaning in the language, or are kept for one, in any of its editions. -/
def reservedWords : List String := [
  "abstract", "as", "async", "await", "become", "box", "break", "const", "continue", "crate", "do", "dyn", "else",
  "enum", "extern", "false", "final", "fn", "for", "gen", "if", "impl", "in", "let", "loop", "macro", "match", "mod",
  "move", "mut", "override", "priv", "pub", "ref", "return", "Self", "self", "static", "struct", "super", "trait",
  "true", "try", "type", "typeof", "unsafe", "unsized", "use", "virtual", "where", "while", "yield"]

/-- A word that can name a type, a constant or a function. -/
structure IsIdentifier (name : String) : Prop where
  word : IsWord name
  free : name ∉ reservedWords
  ne : name ≠ "_"

instance (name : String) : Decidable (IsIdentifier name) :=
  decidable_of_iff (IsWord name ∧ name ∉ reservedWords ∧ name ≠ "_")
    ⟨fun ⟨hword, hfree, hne⟩ => ⟨hword, hfree, hne⟩, fun h => ⟨h.word, h.free, h.ne⟩⟩

/-- The reserved words that no raw mark makes an identifier. -/
def pathWords : List String := ["Self", "crate", "self", "super"]

/-- A word that can name a field: an identifier, or a reserved word with a raw mark. -/
inductive IsFieldName : String → Prop where
  | plain {name : String} : IsIdentifier name → IsFieldName name
  | raw {word : String} : word ∈ reservedWords → word ∉ pathWords → IsFieldName ("r#" ++ word)

/-- The name without the raw mark that it may begin with. -/
def withoutMark (name : String) : String := (dropLead? "r#" name).getD name

/-! ## Words -/

section Words

variable {a b : String} {cs : List Char}

theorem IsWord.append (ha : IsWord a) (hb : Wordy b) : IsWord (a ++ b) := by
  obtain ⟨c, cs, hcs, hc⟩ := ha.start
  refine ⟨fun x hx => ?_, c, cs ++ b.toList, by rw [String.toList_append, hcs]; rfl, hc⟩
  rw [String.toList_append, List.mem_append] at hx
  exact hx.elim (ha.chars x) (hb x)

theorem wordy_toString (n : Nat) : Wordy (toString n) := by
  intro c h
  rw [Nat.toString_eq_ofList_toDigits, String.toList_ofList] at h
  have hdigit : c.isDigit = true := Nat.isDigit_of_mem_toDigits (by decide) (by decide) h
  rw [isWordChar, Bool.or_eq_true, isAlnumAscii_iff]
  exact .inl (.inr (.inr hdigit))

theorem isWord_guardStart (h : ∀ c ∈ cs, isWordChar c = true) : IsWord (String.ofList (guardStart cs)) := by
  cases cs with
  | nil => exact (by decide : IsWord "_")
  | cons c cs =>
    rw [guardStart]
    split
    · exact ⟨by simpa [Wordy, isWordChar] using h, '_', c :: cs, String.toList_ofList, by decide⟩
    · rename_i hc
      exact ⟨by simpa [Wordy] using h, c, cs, String.toList_ofList, by simpa using hc⟩

theorem isWord_pascalCase (key : String) : IsWord (pascalCase key) := by
  unfold pascalCase
  dsimp only
  split
  · exact (by decide : IsWord "Self_")
  · exact isWord_guardStart fun c hc => by rw [isWordChar, alnum_capitalized hc, Bool.true_or]

theorem isWordChar_snakeCase {key : String} {c : Char} (h : c ∈ joinWith ['_'] (lowerWords key)) :
    isWordChar c = true := by
  rcases mem_or_mem_of_mem_joinWith h with h | ⟨word, hword, hc⟩
  · rw [List.mem_singleton.1 h]
    decide
  · rw [isWordChar, alnum_of_mem_lowerWords hword hc, Bool.true_or]

theorem isWord_snakeCase (key : String) : IsWord (snakeCase key) := isWord_guardStart fun _ => isWordChar_snakeCase

theorem isDigitAscii_upperChar {c : Char} (h : isDigitAscii c = false) : isDigitAscii (upperChar c) = false := by
  cases hl : isLowerAscii c with
  | false => rwa [upperChar, if_neg (by simp [hl])]
  | true =>
    have hupper := isUpperAscii_iff.1 (isUpperAscii_upperChar hl)
    refine Bool.eq_false_iff.2 fun hdigit => ?_
    have := isDigitAscii_iff.1 hdigit
    omega

theorem IsWord.upperAscii (h : IsWord a) : IsWord (upperAscii a) := by
  obtain ⟨c, cs, hcs, hc⟩ := h.start
  refine ⟨fun x hx => ?_, upperChar c, cs.map upperChar, ?_, isDigitAscii_upperChar hc⟩
  · rw [Text.upperAscii, String.toList_ofList] at hx
    obtain ⟨y, hy, rfl⟩ := List.mem_map.1 hx
    have hchar := h.chars y hy
    rw [isWordChar, Bool.or_eq_true, beq_iff_eq] at hchar ⊢
    rcases hchar with hchar | rfl
    · exact .inl (isAlnumAscii_upperChar hchar)
    · exact .inr (by decide)
  · rw [Text.upperAscii, String.toList_ofList, hcs, List.map_cons]

end Words

/-! ## Identifiers -/

section Identifiers

variable {a : String}

theorem digits_reservedWords : ∀ word ∈ "_" :: reservedWords, word.toList.any isDigitAscii = false := by
  decide +kernel

/-- A word with a number behind it is an identifier. -/
theorem IsWord.number (h : IsWord a) (n : Nat) : IsIdentifier (a ++ toString n) := by
  obtain ⟨c, hc⟩ := List.exists_mem_of_ne_nil (toString n).toList fun hnil => by
    rw [Nat.toString_eq_ofList_toDigits, String.toList_ofList] at hnil
    exact Nat.toDigits_ne_nil hnil
  have hdigit : isDigitAscii c = true := by
    rw [Nat.toString_eq_ofList_toDigits, String.toList_ofList] at hc
    exact Nat.isDigit_of_mem_toDigits (by decide) (by decide) hc
  have hfree : a ++ toString n ∉ "_" :: reservedWords := fun hmem => by
    refine List.any_eq_false.1 (digits_reservedWords _ hmem) c ?_ hdigit
    rw [String.toList_append]
    exact List.mem_append_right _ hc
  rw [List.mem_cons, not_or] at hfree
  exact ⟨h.append (wordy_toString n), hfree.2, hfree.1⟩

theorem IsIdentifier.fresh (names : Allocator) (h : IsIdentifier a) : IsIdentifier (names.fresh a) := by
  rcases names.fresh_cases a with hf | ⟨n, hf⟩
  · rwa [hf]
  · rw [hf]
    exact h.word.number n

theorem head_reservedWords : ∀ word ∈ reservedWords, word = "Self" ∨ word.toList.head?.any isLowerAscii = true := by
  decide +kernel

/-- A capital name is not reserved, unless it is the receiver's type name. -/
theorem Capital.not_reserved (h : Capital a) (hne : a ≠ "Self") : a ∉ reservedWords := by
  intro hmem
  obtain ⟨c, cs, ha, hc⟩ := h
  have hlower := (head_reservedWords a hmem).resolve_left hne
  rw [ha, List.head?_cons, Option.any_some, hc] at hlower
  cases hlower

theorem pascalCase_not_reserved (key : String) : pascalCase key ∉ reservedWords :=
  (capital_pascalCase key).not_reserved (pascalCase_ne_self key)

theorem isIdentifier_pascalCase {key : String} (h : pascalCase key ≠ "_") : IsIdentifier (pascalCase key) :=
  ⟨isWord_pascalCase key, pascalCase_not_reserved key, h⟩

/-- A compound word is an identifier: nothing but small letters follows in a reserved word. -/
theorem Compound.isIdentifier (h : Compound a) (hword : IsWord a) : IsIdentifier a := by
  obtain ⟨c, cs, ha, hc, x, hx, hlower⟩ := h
  refine ⟨hword, Capital.not_reserved ⟨c, cs, ha, hc⟩ fun hself => ?_, fun heq => ?_⟩
  · have hcs : cs = "elf".toList := by
      rw [hself] at ha
      exact (List.cons.inj ha).2.symm
    have hall : "elf".toList.all isLowerAscii = true := by decide
    rw [List.all_eq_true.1 hall x (hcs ▸ hx)] at hlower
    cases hlower
  · rw [heq] at ha
    rw [← (List.cons.inj ha).2] at hx
    cases hx

theorem capitalized_eq_nil_iff {key : String} : (words key.toList).flatMap capitalize = [] ↔ ¬Legible key := by
  refine ⟨fun h hlegible => hlegible.capitalized_ne_nil h, fun h => List.flatMap_eq_nil_iff.2 fun word hword => ?_⟩
  cases word with
  | nil => rfl
  | cons c cs =>
    have hmem : c ∈ (words key.toList).flatten := List.mem_flatten.2 ⟨c :: cs, hword, List.mem_cons_self⟩
    rw [flatten_words] at hmem
    obtain ⟨hc, halnum⟩ := List.mem_filter.1 hmem
    exact absurd ⟨c, hc, halnum⟩ h

/-- Pascal case leaves nothing but an underscore of a key exactly if the key has no letters and no digits. -/
theorem pascalCase_eq_underscore_iff {key : String} : pascalCase key = "_" ↔ ¬Legible key := by
  rw [← capitalized_eq_nil_iff]
  constructor
  · intro h
    unfold pascalCase at h
    dsimp only at h
    split at h
    · exact absurd h (by decide)
    · refine Classical.byContradiction fun hne => ?_
      obtain ⟨c, cs, hcs⟩ := List.exists_cons_of_ne_nil hne
      have hmem : c ∈ guardStart (c :: cs) := by
        rw [guardStart]
        split <;> simp
      rw [hcs] at h
      rw [← String.toList_ofList (l := guardStart (c :: cs)), h] at hmem
      have halnum : isAlnumAscii c = true := alnum_capitalized (hcs ▸ List.mem_cons_self)
      rw [List.mem_singleton.1 hmem] at halnum
      revert halnum
      decide
  · intro h
    rw [pascalCase, h]
    rfl

end Identifiers

/-! ## Names of fields -/

section Fields

theorem isUpperAscii_lowerChar (c : Char) : isUpperAscii (lowerChar c) = false := by
  refine Bool.eq_false_iff.2 fun h => ?_
  have hlow := isUpperAscii_iff.1 h
  cases hc : isUpperAscii c with
  | true =>
    have := isLowerAscii_iff.1 (isLowerAscii_lowerChar hc)
    omega
  | false =>
    rw [lowerChar, if_neg (by simp [hc]), hc] at h
    cases h

theorem mem_guardStart {cs : List Char} {c : Char} (h : c ∈ guardStart cs) : c = '_' ∨ c ∈ cs := by
  cases cs with
  | nil => exact .inl (List.mem_singleton.1 h)
  | cons d ds =>
    rw [guardStart] at h
    split at h
    · exact List.mem_cons.1 h
    · exact .inr h

theorem not_upper_snakeCase {key : String} {c : Char} (h : c ∈ (snakeCase key).toList) : isUpperAscii c = false := by
  rw [snakeCase, String.toList_ofList] at h
  have hmark : isUpperAscii '_' = false := by decide
  rcases mem_guardStart h with rfl | h
  · exact hmark
  · rcases mem_or_mem_of_mem_joinWith h with h | ⟨word, hword, hc⟩
    · rwa [List.mem_singleton.1 h]
    · obtain ⟨w, -, rfl⟩ := List.mem_map.1 hword
      obtain ⟨x, -, rfl⟩ := List.mem_map.1 hc
      exact isUpperAscii_lowerChar x

theorem reservedWords_subset : reservedWords ⊆ keywords := by decide +kernel

theorem keywords_subset : keywords ⊆ reservedWords := by decide +kernel

/-- **The identifier of a wire key** names a field. -/
theorem isFieldName_fieldIdent (key : String) : IsFieldName (fieldIdent key) := by
  have hword := isWord_snakeCase key
  unfold fieldIdent
  dsimp only
  split
  · -- A path word, or the underscore alone, gets an underscore behind it.
    rename_i hunraw
    refine .plain ⟨hword.append (by decide), fun hmem => ?_, fun heq => ?_⟩
    · have hnone : ∀ word ∈ reservedWords, '_' ∉ word.toList := by decide +kernel
      exact hnone _ hmem (by simp)
    · have hlength := congrArg (fun s : String => s.toList.length) heq
      obtain ⟨c, cs, hcs, -⟩ := hword.start
      simp [hcs] at hlength
  · rename_i hunraw
    have hpath : snakeCase key ∉ unraw := fun h => hunraw (List.contains_iff_mem.2 h)
    split
    · rename_i hkeyword
      refine .raw (keywords_subset (List.contains_iff_mem.1 hkeyword)) fun hmem => ?_
      simp only [pathWords, List.mem_cons, List.not_mem_nil, or_false] at hmem
      rcases hmem with h | h | h | h
      · have hcapital : isUpperAscii 'S' = false := not_upper_snakeCase (h ▸ by decide : 'S' ∈ (snakeCase key).toList)
        revert hcapital
        decide
      all_goals exact hpath (by rw [h]; decide)
    · rename_i hkeyword
      refine .plain ⟨hword, fun hmem => hkeyword ?_, fun heq => hpath (by rw [heq]; decide)⟩
      exact List.contains_iff_mem.2 (reservedWords_subset hmem)

theorem withoutMark_raw (word : String) : withoutMark ("r#" ++ word) = word := by
  rw [withoutMark, dropLead?, String.toList_append, afterLead?_append, Option.map_some, Option.getD_some,
    String.ofList_toList]

/-- A word has no raw mark. -/
theorem IsWord.not_marked {name : String} (h : IsWord name) (rest : List Char) : name.toList ≠ 'r' :: '#' :: rest := by
  intro hname
  have hchar := h.chars '#' (by simp [hname])
  revert hchar
  decide

theorem IsWord.withoutMark_eq {name : String} (h : IsWord name) : withoutMark name = name := by
  cases hdrop : afterLead? "r#".toList name.toList with
  | none => rw [withoutMark, dropLead?, hdrop]; rfl
  | some rest => exact absurd (afterLead?_eq_some_iff.1 hdrop) (h.not_marked rest)

/-- Without its raw mark, the name of a field is an identifier that had none, or a reserved word. -/
theorem IsFieldName.cases {name : String} (h : IsFieldName name) :
    IsIdentifier name ∧ withoutMark name = name ∨
      name = "r#" ++ withoutMark name ∧ withoutMark name ∈ reservedWords := by
  cases h with
  | plain h => exact .inl ⟨h, h.word.withoutMark_eq⟩
  | raw hmem =>
    rw [withoutMark_raw]
    exact .inr ⟨rfl, hmem⟩

theorem isWord_reservedWords : ∀ word ∈ reservedWords, IsWord word := by decide +kernel

/-- Without its raw mark, the name of a field is a word. -/
theorem IsFieldName.isWord {name : String} (h : IsFieldName name) : IsWord (withoutMark name) := by
  rcases h.cases with ⟨h, hsame⟩ | ⟨-, hmem⟩
  · rw [hsame]
    exact h.word
  · exact isWord_reservedWords _ hmem

/-- **Names of fields differ** also without their raw marks. -/
theorem IsFieldName.withoutMark_inj {a b : String} (ha : IsFieldName a) (hb : IsFieldName b)
    (h : withoutMark a = withoutMark b) : a = b := by
  rcases ha.cases with ⟨ha, hsame⟩ | ⟨hmark, hmem⟩ <;> rcases hb.cases with ⟨hb, hsame'⟩ | ⟨hmark', hmem'⟩
  · rw [← hsame, h, hsame']
  · rw [← h, hsame] at hmem'
    exact absurd hmem' ha.free
  · rw [h, hsame'] at hmem
    exact absurd hmem hb.free
  · rw [hmark, hmark', h]

end Fields

end ApiForge.Naming
