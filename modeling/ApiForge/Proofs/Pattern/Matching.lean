import ApiForge.Pattern.Regex
import Mathlib.Data.List.Basic

/-!
# What an expression matches

Running an expression as the set of what is left of it is compared with the usual reading by its parts. Conditions look
at both neighbours of a place, so a match is said together with the character before it and the text behind it.

* `Matches r before xs rest`: `r` matches `xs` between the character `before` and the text `rest`.
* `acceptsEmpty_iff`, `matches_cons_iff`: the two questions that are asked at each place.
* `occursIn_iff`: a text contains a match exactly if some part of it is one, read by the parts of the expression.
-/

namespace ApiForge.Pattern

/-- The character before a place, once `xs` lies behind it. -/
def lastOf (before : Option Char) (xs : List Char) : Option Char := xs.getLast?.or before

/-- What an expression matches between the character before it and the text behind it. -/
inductive Matches : Regex → Option Char → List Char → List Char → Prop where
  | empty {before rest} : Matches .empty before [] rest
  | chars {set : CharSet} {c : Char} {before rest} : set.has c = true → Matches (.chars set) before [c] rest
  | assert {condition : Assertion} {before} {rest : List Char} : condition.holds ⟨before, rest.head?⟩ = true →
      Matches (.assert condition) before [] rest
  | seq {r s before xs ys rest} : Matches r before xs (ys ++ rest) → Matches s (lastOf before xs) ys rest →
      Matches (.seq r s) before (xs ++ ys) rest
  | altLeft {r s before xs rest} : Matches r before xs rest → Matches (.alt r s) before xs rest
  | altRight {r s before xs rest} : Matches s before xs rest → Matches (.alt r s) before xs rest
  | starDone {r before rest} : Matches (.star r) before [] rest
  | starMore {r before xs ys rest} : Matches r before xs (ys ++ rest) →
      Matches (.star r) (lastOf before xs) ys rest → Matches (.star r) before (xs ++ ys) rest

section Parts

variable {r s : Regex} {set : CharSet} {condition : Assertion} {before : Option Char} {c : Char}
  {xs ys rest : List Char}

@[simp] theorem lastOf_nil : lastOf before [] = before := rfl

@[simp] theorem lastOf_cons : lastOf before (c :: xs) = lastOf (some c) xs := by
  cases xs <;> simp [lastOf, List.getLast?_cons]

@[simp] theorem lastOf_append : lastOf before (xs ++ ys) = lastOf (lastOf before xs) ys := by
  simp [lastOf, List.getLast?_append, Option.or_assoc]

@[simp] theorem matches_empty_iff : Matches .empty before xs rest ↔ xs = [] := by
  constructor
  · rintro ⟨⟩
    rfl
  · rintro rfl
    exact .empty

@[simp] theorem matches_chars_iff : Matches (.chars set) before xs rest ↔ ∃ c, set.has c = true ∧ xs = [c] := by
  constructor
  · rintro ⟨⟩
    exact ⟨_, ‹_›, rfl⟩
  · rintro ⟨c, hc, rfl⟩
    exact .chars hc

@[simp] theorem matches_assert_iff : Matches (.assert condition) before xs rest ↔
    xs = [] ∧ condition.holds ⟨before, rest.head?⟩ = true := by
  constructor
  · rintro ⟨⟩
    exact ⟨rfl, ‹_›⟩
  · rintro ⟨rfl, h⟩
    exact .assert h

theorem matches_seq_iff : Matches (.seq r s) before xs rest ↔
    ∃ ys zs, xs = ys ++ zs ∧ Matches r before ys (zs ++ rest) ∧ Matches s (lastOf before ys) zs rest := by
  constructor
  · rintro ⟨⟩
    exact ⟨_, _, rfl, ‹_›, ‹_›⟩
  · rintro ⟨ys, zs, rfl, hr, hs⟩
    exact .seq hr hs

@[simp] theorem matches_alt_iff : Matches (.alt r s) before xs rest ↔
    Matches r before xs rest ∨ Matches s before xs rest := by
  constructor
  · rintro ⟨⟩
    · exact .inl ‹_›
    · exact .inr ‹_›
  · rintro (h | h)
    · exact .altLeft h
    · exact .altRight h

/-- Dropping the empty expression changes no match. -/
theorem matches_andThen_iff : Matches (r.andThen s) before xs rest ↔ Matches (.seq r s) before xs rest := by
  unfold Regex.andThen
  split
  · simp [matches_seq_iff]
  · simp only [matches_seq_iff, matches_empty_iff]
    constructor
    · intro h
      exact ⟨xs, [], by simp, by simpa using h, rfl⟩
    · rintro ⟨ys, _, rfl, h, rfl⟩
      simpa using h
  · rfl

/-! ## Sequences and repetitions -/

@[simp] theorem matches_sequence_nil_iff : Matches (Regex.sequence []) before xs rest ↔ xs = [] := matches_empty_iff

theorem matches_sequence_cons_iff {rs : List Regex} : Matches (Regex.sequence (r :: rs)) before xs rest ↔
    ∃ ys zs, xs = ys ++ zs ∧ Matches r before ys (zs ++ rest) ∧
      Matches (Regex.sequence rs) (lastOf before ys) zs rest := by
  rw [Regex.sequence, List.foldr_cons, matches_andThen_iff, matches_seq_iff]
  rfl

theorem matches_sequence_append_iff {rs ss : List Regex} : Matches (Regex.sequence (rs ++ ss)) before xs rest ↔
    ∃ ys zs, xs = ys ++ zs ∧ Matches (Regex.sequence rs) before ys (zs ++ rest) ∧
      Matches (Regex.sequence ss) (lastOf before ys) zs rest := by
  induction rs generalizing before xs with
  | nil => simp
  | cons r rs ih =>
    simp only [List.cons_append, matches_sequence_cons_iff, ih]
    constructor
    · rintro ⟨ys, _, rfl, hr, us, vs, rfl, hrs, hss⟩
      exact ⟨ys ++ us, vs, by simp, ⟨ys, us, rfl, by simpa using hr, hrs⟩, by simpa using hss⟩
    · rintro ⟨_, vs, rfl, ⟨ys, us, rfl, hr, hrs⟩, hss⟩
      exact ⟨ys, us ++ vs, by simp, by simpa using hr, us, vs, rfl, hrs, by simpa using hss⟩

/-- As many characters of a set. -/
theorem matches_times_chars_iff {n : Nat} : Matches ((Regex.chars set).times .empty n) before xs rest ↔
    xs.length = n ∧ ∀ c ∈ xs, set.has c = true := by
  induction n generalizing before xs with
  | zero =>
    rw [Regex.times, matches_empty_iff, List.length_eq_zero_iff]
    constructor
    · rintro rfl
      exact ⟨rfl, by nofun⟩
    · exact And.left
  | succ n ih =>
    rw [Regex.times, matches_andThen_iff, matches_seq_iff]
    simp only [matches_chars_iff, ih]
    constructor
    · rintro ⟨_, ys, rfl, ⟨c, hc, rfl⟩, hlength, hys⟩
      exact ⟨congrArg Nat.succ hlength, List.forall_mem_cons.2 ⟨hc, hys⟩⟩
    · rintro ⟨hlength, hxs⟩
      cases xs with
      | nil => cases hlength
      | cons c xs =>
        obtain ⟨hc, hxs⟩ := List.forall_mem_cons.1 hxs
        exact ⟨[c], xs, rfl, ⟨c, hc, rfl⟩, Nat.succ.inj hlength, hxs⟩

/-- The first round of a repetition that matches something. -/
theorem matches_star_cons_iff : Matches (.star r) before (c :: xs) rest ↔
    ∃ ys zs, xs = ys ++ zs ∧ Matches r before (c :: ys) (zs ++ rest) ∧
      Matches (.star r) (lastOf (some c) ys) zs rest := by
  constructor
  · intro h
    generalize hs : Regex.star r = s, hw : c :: xs = word at h
    induction h with
    | empty | chars | assert | seq | altLeft | altRight => cases hs
    | starDone => cases hw
    | @starMore r' before ys zs rest hr hstar _ ih =>
      cases hs
      cases ys with
      | nil => exact ih rfl hw
      | cons d ys =>
        obtain ⟨rfl, rfl⟩ := List.cons.inj hw
        exact ⟨ys, zs, rfl, hr, by simpa using hstar⟩
  · rintro ⟨ys, zs, rfl, hr, hstar⟩
    exact .starMore hr (by simpa using hstar)

/-- Any number of characters of a set. -/
theorem matches_star_chars_iff : Matches (.star (.chars set)) before xs rest ↔ ∀ c ∈ xs, set.has c = true := by
  induction xs generalizing before with
  | nil => exact iff_of_true .starDone (by nofun)
  | cons c xs ih =>
    rw [matches_star_cons_iff, List.forall_mem_cons]
    simp only [matches_chars_iff]
    constructor
    · rintro ⟨ys, zs, rfl, ⟨_, hc, h⟩, hzs⟩
      obtain ⟨rfl, rfl⟩ := List.cons.inj h
      exact ⟨hc, ih.1 hzs⟩
    · rintro ⟨hc, hxs⟩
      exact ⟨[], xs, rfl, ⟨c, hc, rfl⟩, ih.2 hxs⟩

/-! ## One place -/

/-- A match of nothing. -/
theorem acceptsEmpty_iff (rest : List Char) : r.acceptsEmpty ⟨before, rest.head?⟩ = true ↔ Matches r before [] rest := by
  induction r generalizing before rest with
  | empty => simp [Regex.acceptsEmpty]
  | chars set => simp [Regex.acceptsEmpty]
  | assert condition => simp [Regex.acceptsEmpty]
  | seq r s ihr ihs =>
    rw [Regex.acceptsEmpty, Bool.and_eq_true, ihr, ihs, matches_seq_iff]
    constructor
    · rintro ⟨hr, hs⟩
      exact ⟨[], [], rfl, hr, hs⟩
    · rintro ⟨ys, zs, h, hr, hs⟩
      obtain ⟨rfl, rfl⟩ := List.append_eq_nil_iff.1 h.symm
      exact ⟨hr, hs⟩
  | alt r s ihr ihs => rw [Regex.acceptsEmpty, Bool.or_eq_true, ihr, ihs, matches_alt_iff]
  | star r => exact iff_of_true rfl .starDone

/-- A first character belongs to the first part, or to the second one behind nothing. -/
theorem matches_seq_cons_iff : Matches (.seq r s) before (c :: xs) rest ↔
    (∃ ys zs, xs = ys ++ zs ∧ Matches r before (c :: ys) (zs ++ rest) ∧ Matches s (lastOf (some c) ys) zs rest) ∨
      (Matches r before [] (c :: (xs ++ rest)) ∧ Matches s before (c :: xs) rest) := by
  rw [matches_seq_iff]
  constructor
  · rintro ⟨ys, zs, h, hr, hs⟩
    rcases List.cons_eq_append_iff.1 h with ⟨rfl, rfl⟩ | ⟨ys, rfl, rfl⟩
    · exact .inr ⟨hr, hs⟩
    · exact .inl ⟨ys, zs, rfl, hr, by simpa using hs⟩
  · rintro (⟨ys, zs, rfl, hr, hs⟩ | ⟨hr, hs⟩)
    · exact ⟨c :: ys, zs, rfl, hr, by simpa using hs⟩
    · exact ⟨[], c :: xs, rfl, hr, hs⟩

/-- A match of a first character and more, by what is left after this character. -/
theorem matches_cons_iff : Matches r before (c :: xs) rest ↔
    ∃ r' ∈ r.step ⟨before, some c⟩ c, Matches r' (some c) xs rest := by
  induction r generalizing before xs rest with
  | empty => simp [Regex.step]
  | chars set =>
    rw [Regex.step, matches_chars_iff]
    split
    · rename_i hc
      simp [hc]
    · rename_i hc
      simp [hc]
  | assert condition => simp [Regex.step]
  | seq r s ihr ihs =>
    have hempty : r.acceptsEmpty ⟨before, some c⟩ = true ↔ Matches r before [] (c :: (xs ++ rest)) :=
      acceptsEmpty_iff (c :: (xs ++ rest))
    rw [matches_seq_cons_iff, Regex.step]
    simp only [List.mem_append, List.mem_map, or_and_right, exists_or, exists_exists_and_eq_and, matches_andThen_iff]
    refine or_congr ?_ ?_
    · simp only [matches_seq_iff, ihr]
      constructor
      · rintro ⟨ys, zs, rfl, ⟨r', hmem, hr⟩, hs⟩
        exact ⟨r', hmem, ys, zs, rfl, hr, hs⟩
      · rintro ⟨r', hmem, ys, zs, rfl, hr, hs⟩
        exact ⟨ys, zs, rfl, ⟨r', hmem, hr⟩, hs⟩
    · rw [← hempty, ihs]
      split <;> simp_all
  | alt r s ihr ihs =>
    simp only [Regex.step, List.mem_append, or_and_right, exists_or, matches_alt_iff, ihr, ihs]
  | star r ih =>
    rw [matches_star_cons_iff, Regex.step]
    simp only [List.mem_map, exists_exists_and_eq_and, matches_andThen_iff, matches_seq_iff, ih]
    constructor
    · rintro ⟨ys, zs, rfl, ⟨r', hmem, hr⟩, hstar⟩
      exact ⟨r', hmem, ys, zs, rfl, hr, hstar⟩
    · rintro ⟨r', hmem, ys, zs, rfl, hr, hstar⟩
      exact ⟨ys, zs, rfl, ⟨r', hmem, hr⟩, hstar⟩

end Parts

/-! ## A whole text -/

section Search

variable {r : Regex} {before : Option Char} {c : Char} {cs : List Char} {left : List Regex}

/-- An expression matches what a text begins with. -/
def MatchesStart (r : Regex) (before : Option Char) (cs : List Char) : Prop :=
  ∃ xs rest, cs = xs ++ rest ∧ Matches r before xs rest

/-- An expression matches what a text begins with from some place on. -/
def MatchesWithin (r : Regex) (before : Option Char) (cs : List Char) : Prop :=
  ∃ skipped rest, cs = skipped ++ rest ∧ MatchesStart r (lastOf before skipped) rest

theorem matchesStart_nil_iff : MatchesStart r before [] ↔ r.acceptsEmpty ⟨before, none⟩ = true := by
  have hempty : r.acceptsEmpty ⟨before, none⟩ = true ↔ Matches r before [] [] := acceptsEmpty_iff []
  rw [hempty]
  constructor
  · rintro ⟨xs, rest, h, hmatch⟩
    obtain ⟨rfl, rfl⟩ := List.append_eq_nil_iff.1 h.symm
    exact hmatch
  · intro h
    exact ⟨[], [], rfl, h⟩

/-- A match at the start of a text: of nothing, or of its first character and more. -/
theorem matchesStart_cons_iff : MatchesStart r before (c :: cs) ↔
    r.acceptsEmpty ⟨before, some c⟩ = true ∨ ∃ r' ∈ r.step ⟨before, some c⟩ c, MatchesStart r' (some c) cs := by
  have hempty : r.acceptsEmpty ⟨before, some c⟩ = true ↔ Matches r before [] (c :: cs) :=
    acceptsEmpty_iff (c :: cs)
  rw [hempty]
  constructor
  · rintro ⟨xs, rest, h, hmatch⟩
    rcases List.cons_eq_append_iff.1 h with ⟨rfl, rfl⟩ | ⟨xs, rfl, rfl⟩
    · exact .inl hmatch
    · obtain ⟨r', hmem, hmatch⟩ := matches_cons_iff.1 hmatch
      exact .inr ⟨r', hmem, xs, rest, rfl, hmatch⟩
  · rintro (hmatch | ⟨r', hmem, xs, rest, rfl, hmatch⟩)
    · exact ⟨[], c :: cs, rfl, hmatch⟩
    · exact ⟨c :: xs, rest, rfl, matches_cons_iff.2 ⟨r', hmem, hmatch⟩⟩

theorem matchesWithin_nil_iff : MatchesWithin r before [] ↔ MatchesStart r before [] := by
  constructor
  · rintro ⟨skipped, rest, h, hstart⟩
    obtain ⟨rfl, rfl⟩ := List.append_eq_nil_iff.1 h.symm
    exact hstart
  · intro h
    exact ⟨[], [], rfl, h⟩

theorem matchesWithin_cons_iff :
    MatchesWithin r before (c :: cs) ↔ MatchesStart r before (c :: cs) ∨ MatchesWithin r (some c) cs := by
  constructor
  · rintro ⟨skipped, rest, h, hstart⟩
    rcases List.cons_eq_append_iff.1 h with ⟨rfl, rfl⟩ | ⟨skipped, rfl, rfl⟩
    · exact .inl hstart
    · exact .inr ⟨skipped, rest, rfl, by simpa using hstart⟩
  · rintro (hstart | ⟨skipped, rest, rfl, hstart⟩)
    · exact ⟨[], c :: cs, rfl, hstart⟩
    · exact ⟨c :: skipped, rest, rfl, by simpa using hstart⟩

/-- **A search**: one of the expressions that are left matches here, or the expression matches from some place on. -/
theorem search_iff : ∀ {cs : List Char} {before : Option Char} {left : List Regex},
    Regex.search r before left cs = true ↔ (∃ r' ∈ left, MatchesStart r' before cs) ∨ MatchesWithin r before cs
  | [], before, left => by
    simp only [Regex.search, List.any_cons, Bool.or_eq_true, List.any_eq_true, matchesWithin_nil_iff,
      matchesStart_nil_iff]
    exact or_comm
  | c :: cs, before, left => by
    -- What is left after `c` comes from the states before it, among which is `r` itself.
    simp only [Regex.search, Bool.or_eq_true, List.any_eq_true, search_iff, List.mem_flatMap, List.mem_eraseDups,
      List.mem_cons, matchesWithin_cons_iff, matchesStart_cons_iff]
    grind

/-- **A text contains a match** exactly if one of its parts is a match between what stands before it and behind it. -/
theorem occursIn_iff {text : String} : r.occursIn text = true ↔
    ∃ skipped xs rest, text.toList = skipped ++ (xs ++ rest) ∧ Matches r skipped.getLast? xs rest := by
  have hlast : ∀ skipped : List Char, lastOf none skipped = skipped.getLast? := fun _ => Option.or_none
  simp only [Regex.occursIn, search_iff, List.not_mem_nil, false_and, exists_false, false_or, MatchesWithin,
    MatchesStart, hlast]
  constructor
  · rintro ⟨skipped, _, htext, xs, rest, rfl, h⟩
    exact ⟨skipped, xs, rest, htext, h⟩
  · rintro ⟨skipped, xs, rest, htext, h⟩
    exact ⟨skipped, _, htext, xs, rest, rfl, h⟩

end Search

end ApiForge.Pattern
