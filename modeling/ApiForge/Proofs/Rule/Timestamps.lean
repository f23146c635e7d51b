import ApiForge.Proofs.Pattern.Matching
import ApiForge.Proofs.Text.Ascii
import ApiForge.Rule.Evaluate

/-!
# The lexical form of timestamps

The pattern of timestamps is read as an expression, and what this expression matches is read off its parts. It is bound
to both ends of the text, so a text contains a match if it is one.

* `Timestamp digit cs`: the lexical form, with digits of the class `digit`.
* `expression?_eq`, `matches_moment_iff`, `matches_fraction_iff`, `matches_offset_iff`: the parts of the pattern.
* `isDateTime_iff`: what is accepted has the form with the digits of all scripts.
* `timestamp_ascii_iff`: the form with ASCII digits is what is left if no other digit occurs.
* `shapeAccepts_dateTime`: which texts have the shape, and when they are those with ASCII digits.
* `shapeAccepts_fullwidth`: a text with other digits.
-/

namespace ApiForge.DateTime

open Pattern Text

/-! ## The form -/

/-- A text of `n` characters of a class. -/
def Run (digit : Char → Bool) (n : Nat) (cs : List Char) : Prop := cs.length = n ∧ ∀ c ∈ cs, digit c = true

/-- A date and a time of day. -/
inductive Moment (digit : Char → Bool) : List Char → Prop where
  | parts {year month day hour minute second : List Char} {mark : Char} :
      Run digit 4 year → Run digit 2 month → Run digit 2 day → mark ∈ ['T', 't', ' '] →
      Run digit 2 hour → Run digit 2 minute → Run digit 2 second →
      Moment digit (year ++ '-' :: (month ++ '-' :: (day ++ mark :: (hour ++ ':' :: (minute ++ ':' :: second)))))

/-- A fraction of a second, which may be absent. -/
inductive Fraction (digit : Char → Bool) : List Char → Prop where
  | absent : Fraction digit []
  | present {ds : List Char} : ds ≠ [] → (∀ c ∈ ds, digit c = true) → Fraction digit ('.' :: ds)

/-- An offset from universal time. -/
inductive Offset (digit : Char → Bool) : List Char → Prop where
  | utc {mark : Char} : mark ∈ ['Z', 'z'] → Offset digit [mark]
  | hours {sign : Char} {hour minute : List Char} : sign ∈ ['+', '-'] → Run digit 2 hour → Run digit 2 minute →
      Offset digit (sign :: (hour ++ ':' :: minute))

/-- A timestamp. -/
inductive Timestamp (digit : Char → Bool) : List Char → Prop where
  | parts {moment fraction offset : List Char} : Moment digit moment → Fraction digit fraction →
      Offset digit offset → Timestamp digit (moment ++ (fraction ++ offset))

/-! ## The parts of the pattern -/

/-- Digits of any script. -/
def digits (n : Nat) : Regex := (Regex.chars .digit).times .empty n

/-- A fixed character. -/
def mark (c : Char) : Regex := .chars (.single c)

/-- One of several characters. -/
def oneOf (cs : List Char) : Regex := .chars (cs.foldl (fun set c => .union set (.single c)) .none)

/-- The parts of a date and a time of day. -/
def momentParts : List Regex :=
  [digits 4, mark '-', digits 2, mark '-', digits 2, oneOf ['T', 't', ' '],
    digits 2, mark ':', digits 2, mark ':', digits 2]

/-- An optional fraction. -/
def fractionPart : Regex :=
  .alt .empty (.sequence [mark '.', .seq (.chars .digit) (.star (.chars .digit))])

/-- An offset. -/
def offsetPart : Regex :=
  .alt (oneOf ['Z', 'z']) (.sequence [oneOf ['+', '-'], digits 2, mark ':', digits 2])

/-- The pattern is read as its parts one after another, between the two ends of the text. -/
theorem expression?_eq : expression? =
    some (.sequence (.assert .textStart :: (momentParts ++ [fractionPart, offsetPart, .assert .textEnd]))) := by
  decide +kernel

section Parts

variable {before : Option Char} {cs rest : List Char}

@[simp] theorem has_single {c d : Char} : (CharSet.single c).has d = true ↔ d = c := by
  simp only [CharSet.single, CharSet.has, Bool.and_eq_true, decide_eq_true_eq]
  constructor
  · rintro ⟨hle, hge⟩
    exact Char.toNat_inj.1 (Nat.le_antisymm hge hle)
  · rintro rfl
    exact ⟨Nat.le_refl _, Nat.le_refl _⟩

theorem matches_digits_iff {n : Nat} : Matches (digits n) before cs rest ↔ Run isDecimalDigit n cs :=
  matches_times_chars_iff

@[simp] theorem matches_mark_iff {c : Char} : Matches (mark c) before cs rest ↔ cs = [c] := by
  simp [mark]

theorem matches_oneOf_iff {marks : List Char} : Matches (oneOf marks) before cs rest ↔ ∃ c ∈ marks, cs = [c] := by
  have hfold : ∀ (marks : List Char) (set : CharSet) (c : Char),
      (marks.foldl (fun set c => CharSet.union set (.single c)) set).has c = true ↔ set.has c = true ∨ c ∈ marks := by
    intro marks
    induction marks with
    | nil => simp
    | cons d marks ih => simp [ih, CharSet.has, or_assoc]
  have hnone : ∀ c : Char, CharSet.none.has c = false := by
    intro c
    simp only [CharSet.none, CharSet.has, Bool.and_eq_false_iff, decide_eq_false_iff_not]
    omega
  simp [oneOf, hfold, hnone]

theorem matches_moment_iff : Matches (.sequence momentParts) before cs rest ↔ Moment isDecimalDigit cs := by
  simp only [momentParts, matches_sequence_cons_iff, matches_sequence_nil_iff, matches_digits_iff, matches_mark_iff,
    matches_oneOf_iff]
  constructor
  · rintro ⟨year, _, rfl, hyear, _, _, rfl, rfl, month, _, rfl, hmonth, _, _, rfl, rfl, day, _, rfl, hday,
      _, _, rfl, ⟨mark, hmark, rfl⟩, hour, _, rfl, hhour, _, _, rfl, rfl, minute, _, rfl, hminute,
      _, _, rfl, rfl, second, _, rfl, hsecond, rfl⟩
    simpa using Moment.parts hyear hmonth hday hmark hhour hminute hsecond
  · rintro ⟨hyear, hmonth, hday, hmark, hhour, hminute, hsecond⟩
    exact ⟨_, _, rfl, hyear, [_], _, rfl, rfl, _, _, rfl, hmonth, [_], _, rfl, rfl, _, _, rfl, hday,
      [_], _, rfl, ⟨_, hmark, rfl⟩, _, _, rfl, hhour, [_], _, rfl, rfl, _, _, rfl, hminute,
      [_], _, rfl, rfl, _, [], (List.append_nil _).symm, hsecond, rfl⟩

theorem matches_fraction_iff : Matches fractionPart before cs rest ↔ Fraction isDecimalDigit cs := by
  simp only [fractionPart, matches_alt_iff, matches_empty_iff, matches_sequence_cons_iff, matches_sequence_nil_iff,
    matches_mark_iff, matches_seq_iff, matches_chars_iff, matches_star_chars_iff]
  constructor
  · rintro (rfl | ⟨_, _, rfl, rfl, _, _, rfl, ⟨_, ds, rfl, ⟨d, hd, rfl⟩, hds⟩, rfl⟩)
    · exact .absent
    · have hdigits : ∀ c ∈ d :: ds, isDecimalDigit c = true := List.forall_mem_cons.2 ⟨hd, hds⟩
      simpa using Fraction.present (List.cons_ne_nil d ds) hdigits
  · intro h
    cases h with
    | absent => exact .inl rfl
    | @present ds hne hds =>
      obtain ⟨d, ds, rfl⟩ := List.exists_cons_of_ne_nil hne
      obtain ⟨hd, hds⟩ := List.forall_mem_cons.1 hds
      exact .inr ⟨[_], d :: ds, rfl, rfl, d :: ds, [], (List.append_nil _).symm, ⟨[d], ds, rfl, ⟨d, hd, rfl⟩, hds⟩, rfl⟩

theorem matches_offset_iff : Matches offsetPart before cs rest ↔ Offset isDecimalDigit cs := by
  simp only [offsetPart, matches_alt_iff, matches_sequence_cons_iff, matches_sequence_nil_iff, matches_digits_iff,
    matches_mark_iff, matches_oneOf_iff]
  constructor
  · rintro (⟨mark, hmark, rfl⟩ | ⟨_, _, rfl, ⟨sign, hsign, rfl⟩, hour, _, rfl, hhour, _, _, rfl, rfl,
      minute, _, rfl, hminute, rfl⟩)
    · exact .utc hmark
    · simpa using Offset.hours hsign hhour hminute
  · intro h
    cases h with
    | utc hmark => exact .inl ⟨_, hmark, rfl⟩
    | hours hsign hhour hminute =>
      exact .inr ⟨[_], _, rfl, ⟨_, hsign, rfl⟩, _, _, rfl, hhour, [_], _, rfl, rfl, _, [], (List.append_nil _).symm,
        hminute, rfl⟩

/-- **Timestamps are read exactly**: a text is accepted if and only if it has the form, with digits of any script. -/
theorem isDateTime_iff {s : String} : isDateTime s = true ↔ Timestamp isDecimalDigit s.toList := by
  simp only [isDateTime, expression?_eq, Option.any_some, occursIn_iff, matches_sequence_cons_iff,
    matches_sequence_append_iff, matches_sequence_nil_iff, matches_assert_iff, matches_moment_iff,
    matches_fraction_iff, matches_offset_iff, Assertion.holds]
  constructor
  · rintro ⟨skipped, _, rest, htext, _, _, rfl, ⟨rfl, hstart⟩, moment, _, rfl, hmoment, fraction, _, rfl, hfraction,
      offset, _, rfl, hoffset, _, _, rfl, ⟨rfl, hend⟩, rfl⟩
    have hskipped : skipped = [] := by simpa using hstart
    have hrest : rest = [] := by simpa using hend
    subst hskipped hrest
    rw [htext]
    simpa using Timestamp.parts hmoment hfraction hoffset
  · intro h
    generalize s.toList = cs at h
    cases h with
    | @parts moment fraction offset hmoment hfraction hoffset =>
      exact ⟨[], _, [], by simp, [], _, rfl, ⟨rfl, rfl⟩, moment, _, rfl, hmoment, fraction, _, rfl, hfraction,
        offset, [], (List.append_nil _).symm, hoffset, [], [], rfl, ⟨rfl, rfl⟩, rfl⟩

end Parts

/-! ## ASCII digits -/

/-- The characters of a timestamp other than its digits. -/
def marks : List Char := ['-', ':', 'T', 't', ' ', '.', 'Z', 'z', '+']

section Classes

variable {p q : Char → Bool} {n : Nat} {c : Char} {cs : List Char}

theorem isDecimalDigit_of_ascii (h : isDigitAscii c = true) : isDecimalDigit c = true := by
  have hzero : 0x30 ∈ decimalZeros := by decide
  refine List.any_eq_true.2 ⟨0x30, hzero, ?_⟩
  simpa [isDigitAscii, Char.le_def, UInt32.le_iff_toNat_le] using h

theorem Run.mono (h : Run p n cs) (hpq : ∀ c ∈ cs, p c = true → q c = true) : Run q n cs :=
  ⟨h.1, fun c hc => hpq c hc (h.2 c hc)⟩

/-- The form depends on the class of the digits only on the characters of the text. -/
theorem Timestamp.mono (h : Timestamp p cs) (hpq : ∀ c ∈ cs, p c = true → q c = true) : Timestamp q cs := by
  cases h with
  | parts hmoment hfraction hoffset =>
    simp only [List.forall_mem_append] at hpq
    obtain ⟨hpq₁, hpq₂, hpq₃⟩ := hpq
    refine .parts ?_ ?_ ?_
    · cases hmoment with
      | parts hyear hmonth hday hmark hhour hminute hsecond =>
        simp only [List.forall_mem_append, List.forall_mem_cons] at hpq₁
        obtain ⟨hy, -, hm, -, hd, -, hh, -, hmin, -, hs⟩ := hpq₁
        exact .parts (hyear.mono hy) (hmonth.mono hm) (hday.mono hd) hmark (hhour.mono hh) (hminute.mono hmin)
          (hsecond.mono hs)
    · cases hfraction with
      | absent => exact .absent
      | present hne hds =>
        exact .present hne fun c hc => hpq₂ c (List.mem_cons_of_mem _ hc) (hds c hc)
    · cases hoffset with
      | utc hmark => exact .utc hmark
      | hours hsign hhour hminute =>
        simp only [List.forall_mem_append, List.forall_mem_cons] at hpq₃
        obtain ⟨-, hh, -, hm⟩ := hpq₃
        exact .hours hsign (hhour.mono hh) (hminute.mono hm)

/-- A timestamp consists of digits and marks. -/
theorem Timestamp.mem (h : Timestamp p cs) (hc : c ∈ cs) : p c = true ∨ c ∈ marks := by
  have hrun : ∀ {n ds}, Run p n ds → c ∈ ds → p c = true ∨ c ∈ marks := fun hds hc => .inl (hds.2 c hc)
  have hmark : ∀ {x xs}, c = x → x ∈ xs → xs ⊆ marks → p c = true ∨ c ∈ marks := by
    rintro x xs rfl hx hxs
    exact .inr (hxs hx)
  have hfixed : ∀ {x}, c = x → x ∈ marks → p c = true ∨ c ∈ marks := fun hcx hx => .inr (hcx ▸ hx)
  cases h with
  | parts hmoment hfraction hoffset =>
    rcases List.mem_append.1 hc with hc | hc
    · cases hmoment with
      | parts hyear hmonth hday hsep hhour hminute hsecond =>
        simp only [List.mem_append, List.mem_cons] at hc
        rcases hc with hc | hc | hc | hc | hc | hc | hc | hc | hc | hc | hc
        · exact hrun hyear hc
        · exact hfixed hc (by decide)
        · exact hrun hmonth hc
        · exact hfixed hc (by decide)
        · exact hrun hday hc
        · exact hmark hc hsep (by decide)
        · exact hrun hhour hc
        · exact hfixed hc (by decide)
        · exact hrun hminute hc
        · exact hfixed hc (by decide)
        · exact hrun hsecond hc
    · rcases List.mem_append.1 hc with hc | hc
      · cases hfraction with
        | absent => cases hc
        | present hne hds =>
          rcases List.mem_cons.1 hc with hc | hc
          · exact hfixed hc (by decide)
          · exact .inl (hds c hc)
      · cases hoffset with
        | utc hsep => exact hmark (List.mem_singleton.1 hc) hsep (by decide)
        | hours hsign hhour hminute =>
          simp only [List.mem_cons, List.mem_append] at hc
          rcases hc with hc | hc | hc | hc
          · exact hmark hc hsign (by decide)
          · exact hrun hhour hc
          · exact hfixed hc (by decide)
          · exact hrun hminute hc

/-- All digits of a text are ASCII digits. -/
def PlainDigits (cs : List Char) : Prop := ∀ c ∈ cs, isDecimalDigit c = true → isDigitAscii c = true

/-- **The form with ASCII digits** is the form with the digits of all scripts, if no digit of another one occurs. -/
theorem timestamp_ascii_iff : Timestamp isDigitAscii cs ↔ Timestamp isDecimalDigit cs ∧ PlainDigits cs := by
  have hmarks : (marks.all fun c => !isDecimalDigit c) = true := by decide
  constructor
  · intro h
    refine ⟨h.mono fun c _ => isDecimalDigit_of_ascii, fun c hc hdigit => ?_⟩
    refine (h.mem hc).resolve_right fun hmark => ?_
    have := List.all_eq_true.1 hmarks c hmark
    rw [hdigit] at this
    cases this
  · rintro ⟨h, hascii⟩
    exact h.mono hascii

end Classes

end ApiForge.DateTime

namespace ApiForge.Rule

open DateTime Text

/-- **What has the shape of a timestamp**: the texts of the lexical form, in which digits of every script count. The
form with ASCII digits is that of the accepted texts whose digits are all ASCII digits; so being accepted is having this
form, unless the text is accepted and has a digit of another script. -/
theorem shapeAccepts_dateTime (s : String) :
    (shapeAccepts (.str s) .dateTime = true ↔ Timestamp isDecimalDigit s.toList) ∧
    (Timestamp isDigitAscii s.toList ↔ shapeAccepts (.str s) .dateTime = true ∧ PlainDigits s.toList) ∧
    ((shapeAccepts (.str s) .dateTime = true ↔ Timestamp isDigitAscii s.toList) ↔
      (shapeAccepts (.str s) .dateTime = true → PlainDigits s.toList)) := by
  have haccepts : shapeAccepts (.str s) .dateTime = true ↔ Timestamp isDecimalDigit s.toList := by
    simp [shapeAccepts, Json.text?, isDateTime_iff]
  have hascii : Timestamp isDigitAscii s.toList ↔ shapeAccepts (.str s) .dateTime = true ∧ PlainDigits s.toList := by
    rw [haccepts, timestamp_ascii_iff]
  refine ⟨haccepts, hascii, ?_⟩
  rw [hascii]
  exact ⟨fun h haccepts => (h.1 haccepts).2, fun h => ⟨fun haccepts => ⟨haccepts, h haccepts⟩, And.left⟩⟩

/-- A year in fullwidth digits is accepted, although the form asks for ASCII digits. -/
theorem shapeAccepts_fullwidth : shapeAccepts (.str "２０２４-05-01T10:00:00Z") .dateTime = true ∧
    ¬Timestamp isDigitAscii "２０２４-05-01T10:00:00Z".toList := by
  refine ⟨by decide, fun h => ?_⟩
  have hascii := (timestamp_ascii_iff.1 h).2 '２' (by decide) (by decide)
  exact absurd hascii (by decide)

end ApiForge.Rule
