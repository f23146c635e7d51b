import ApiForge.Text.Basic

/-!
# What cutting gives

Every function that cuts a text is determined by how its results make up the text again.

* `afterLead?_eq_some_iff`, `beforeTrail?_eq_some_iff`: what stays when a given beginning or end is removed.
* `startsWith_iff`: texts with a given beginning.
* `dropWhile_append_cons`: a run at the beginning of a text ends before the first character that does not belong to it.
* `cut?_eq_some_iff`, `splitOnce?_of_append`: the parts around the first separator.
* `joinWith_pieces` and `pieces_joinWith`: cutting at every separator and joining undo each other, on texts and on lists
  of texts without the separator.
* `newline_not_mem_of_mem_lines`: lines have no line break.
-/

namespace ApiForge.Text

/-! ## Beginnings and ends -/

theorem afterLead?_eq_some_iff : ∀ {lead text rest : List Char},
    afterLead? lead text = some rest ↔ text = lead ++ rest
  | [], text, rest => by simp [afterLead?]
  | a :: lead, [], rest => by simp [afterLead?]
  | a :: lead, c :: text, rest => by
    by_cases h : a = c
    · simp [afterLead?, h, afterLead?_eq_some_iff]
    · simp [afterLead?, h, Ne.symm h]

theorem afterLead?_append (lead rest : List Char) : afterLead? lead (lead ++ rest) = some rest :=
  afterLead?_eq_some_iff.2 rfl

theorem beforeTrail?_eq_some_iff {trail text rest : List Char} :
    beforeTrail? trail text = some rest ↔ text = rest ++ trail := by
  rw [beforeTrail?, Option.map_eq_some_iff]
  constructor
  · rintro ⟨reversed, h, rfl⟩
    rw [← List.reverse_reverse text, afterLead?_eq_some_iff.1 h, List.reverse_append, List.reverse_reverse]
  · rintro rfl
    exact ⟨rest.reverse, afterLead?_eq_some_iff.2 List.reverse_append, List.reverse_reverse rest⟩

theorem beforeTrail?_append (rest trail : List Char) : beforeTrail? trail (rest ++ trail) = some rest :=
  beforeTrail?_eq_some_iff.2 rfl

theorem startsWith_iff {lead text : String} : startsWith lead text = true ↔ ∃ rest, text = lead ++ rest := by
  simp only [startsWith, dropLead?, Option.isSome_map, Option.isSome_iff_exists, afterLead?_eq_some_iff]
  constructor
  · rintro ⟨rest, h⟩
    exact ⟨String.ofList rest, String.toList_injective (by simpa using h)⟩
  · rintro ⟨rest, rfl⟩
    exact ⟨rest.toList, String.toList_append⟩

theorem dropTrail?_isSome_iff {trail text : String} :
    (dropTrail? trail text).isSome = true ↔ ∃ rest, text = rest ++ trail := by
  simp only [dropTrail?, Option.isSome_map, Option.isSome_iff_exists, beforeTrail?_eq_some_iff]
  constructor
  · rintro ⟨rest, h⟩
    exact ⟨String.ofList rest, String.toList_injective (by simpa using h)⟩
  · rintro ⟨rest, rfl⟩
    exact ⟨rest.toList, String.toList_append⟩

/-- A character that does not belong to a run ends it. -/
theorem dropWhile_append_cons {p : Char → Bool} {c : Char} (h : p c = false) (after : List Char) :
    ∀ before : List Char, (before ++ c :: after).dropWhile p = before.dropWhile p ++ c :: after
  | [] => List.dropWhile_cons_of_neg (by simp [h])
  | b :: before => by
    by_cases hb : p b = true
    · rw [List.cons_append, List.dropWhile_cons_of_pos hb, List.dropWhile_cons_of_pos hb,
        dropWhile_append_cons h after before]
    · rw [List.cons_append, List.dropWhile_cons_of_neg hb, List.dropWhile_cons_of_neg hb, List.cons_append]

/-! ## The first separator -/

theorem cut?_eq_some_iff {sep : Char} : ∀ {text before after : List Char},
    cut? sep text = some (before, after) ↔ text = before ++ sep :: after ∧ sep ∉ before
  | [], before, after => by simp [cut?]
  | c :: text, before, after => by
    by_cases h : c = sep
    · subst h
      cases before with
      | nil => simp [cut?]
      | cons b before =>
        simp only [cut?, if_pos, List.cons_append, List.cons.injEq, List.mem_cons, not_or]
        constructor
        · intro h
          cases h
        · rintro ⟨⟨rfl, -⟩, hne, -⟩
          exact absurd rfl hne
    · simp only [cut?, if_neg h, Option.map_eq_some_iff]
      cases before with
      | nil => simp [h]
      | cons b before =>
        simp only [Prod.exists, Prod.mk.injEq, List.cons.injEq, List.cons_append, List.mem_cons, not_or]
        constructor
        · rintro ⟨x, y, hcut, ⟨rfl, rfl⟩, rfl⟩
          obtain ⟨rfl, hmem⟩ := cut?_eq_some_iff.1 hcut
          exact ⟨⟨rfl, rfl⟩, Ne.symm h, hmem⟩
        · rintro ⟨⟨rfl, rfl⟩, -, hmem⟩
          exact ⟨before, after, cut?_eq_some_iff.2 ⟨rfl, hmem⟩, ⟨rfl, rfl⟩, rfl⟩

theorem splitOnce?_of_append {sep : Char} {text before after : String}
    (htext : text.toList = before.toList ++ sep :: after.toList) (h : sep ∉ before.toList) :
    splitOnce? sep text = some (before, after) := by
  have hcut : cut? sep text.toList = some (before.toList, after.toList) := cut?_eq_some_iff.2 ⟨htext, h⟩
  rw [splitOnce?, hcut]
  simp

theorem splitOnce?_eq_none {sep : Char} {text : String} (h : sep ∉ text.toList) : splitOnce? sep text = none := by
  rw [splitOnce?, Option.map_eq_none_iff]
  cases hcut : cut? sep text.toList with
  | none => rfl
  | some parts =>
    obtain ⟨htext, -⟩ := cut?_eq_some_iff.1 hcut
    exact absurd (htext ▸ List.mem_append_right _ List.mem_cons_self) h

/-! ## Every separator -/

section Pieces

variable {sep : Char}

theorem pieces_ne_nil (sep : Char) (text : List Char) : pieces sep text ≠ [] := by
  cases text with
  | nil => simp [pieces]
  | cons c text =>
    unfold pieces
    split
    · simp
    · split <;> simp

theorem not_mem_of_mem_pieces : ∀ {text piece : List Char}, piece ∈ pieces sep text → sep ∉ piece
  | [], piece, h => by
    rw [List.mem_singleton.1 h]
    exact List.not_mem_nil
  | c :: text, piece, h => by
    by_cases hc : c = sep
    · rw [pieces, if_pos hc] at h
      rcases List.mem_cons.1 h with rfl | h
      · exact List.not_mem_nil
      · exact not_mem_of_mem_pieces h
    · rw [pieces, if_neg hc] at h
      cases hps : pieces sep text with
      | nil => exact absurd hps (pieces_ne_nil sep text)
      | cons p ps =>
        rw [hps] at h
        rcases List.mem_cons.1 h with rfl | h
        · rw [List.mem_cons, not_or]
          exact ⟨Ne.symm hc, not_mem_of_mem_pieces (hps ▸ List.mem_cons_self)⟩
        · exact not_mem_of_mem_pieces (hps ▸ List.mem_cons_of_mem p h)

theorem pieces_of_not_mem : ∀ {piece : List Char}, sep ∉ piece → pieces sep piece = [piece]
  | [], _ => rfl
  | c :: piece, h => by
    rw [List.mem_cons, not_or] at h
    obtain ⟨hc, hpiece⟩ := h
    rw [pieces, if_neg (Ne.symm hc), pieces_of_not_mem hpiece]

/-- A separator cuts a text in two. -/
theorem pieces_append_cons (rest : List Char) : ∀ text : List Char,
    pieces sep (text ++ sep :: rest) = pieces sep text ++ pieces sep rest
  | [] => by simp [pieces]
  | c :: text => by
    rw [List.cons_append, pieces, pieces_append_cons rest text, pieces.eq_def sep (c :: text)]
    dsimp only
    split
    · rfl
    · cases hps : pieces sep text with
      | nil => exact absurd hps (pieces_ne_nil sep text)
      | cons p ps => rfl

theorem pieces_append (rest : List Char) {piece : List Char} (h : sep ∉ piece) :
    pieces sep (piece ++ sep :: rest) = piece :: pieces sep rest := by
  rw [pieces_append_cons, pieces_of_not_mem h, List.singleton_append]

theorem joinWith_cons (sep : List Char) (piece : List Char) {ps : List (List Char)} (h : ps ≠ []) :
    joinWith sep (piece :: ps) = piece ++ sep ++ joinWith sep ps := by
  cases ps with
  | nil => exact absurd rfl h
  | cons p ps => rfl

theorem mem_joinWith_of_mem (sep : List Char) {c : Char} {p : List Char} (hc : c ∈ p) :
    ∀ {ps : List (List Char)}, p ∈ ps → c ∈ joinWith sep ps
  | [q], hp => List.mem_singleton.1 hp ▸ hc
  | q :: r :: ps, hp => by
    rw [joinWith_cons _ _ (List.cons_ne_nil r ps), List.mem_append]
    rcases List.mem_cons.1 hp with rfl | hp
    · exact .inl (List.mem_append_left _ hc)
    · exact .inr (mem_joinWith_of_mem sep hc hp)

theorem mem_or_mem_of_mem_joinWith {sep : List Char} {c : Char} :
    ∀ {ps : List (List Char)}, c ∈ joinWith sep ps → c ∈ sep ∨ ∃ p ∈ ps, c ∈ p
  | [], h => by cases h
  | [p], h => .inr ⟨p, List.mem_cons_self, h⟩
  | p :: q :: ps, h => by
    rw [joinWith_cons _ _ (List.cons_ne_nil q ps), List.mem_append, List.mem_append] at h
    rcases h with (h | h) | h
    · exact .inr ⟨p, List.mem_cons_self, h⟩
    · exact .inl h
    · exact (mem_or_mem_of_mem_joinWith h).imp_right fun ⟨r, hr, hc⟩ => ⟨r, List.mem_cons_of_mem p hr, hc⟩

/-- Joining the pieces gives the text. -/
theorem joinWith_pieces (sep : Char) : ∀ text : List Char, joinWith [sep] (pieces sep text) = text
  | [] => rfl
  | c :: text => by
    have ih := joinWith_pieces sep text
    by_cases hc : c = sep
    · rw [pieces, if_pos hc, joinWith_cons _ _ (pieces_ne_nil sep text), ih, hc]
      rfl
    · rw [pieces, if_neg hc]
      cases hps : pieces sep text with
      | nil => exact absurd hps (pieces_ne_nil sep text)
      | cons p ps =>
        rw [hps] at ih
        cases ps with
        | nil => exact congrArg (c :: ·) ih
        | cons q ps => exact congrArg (c :: ·) ih

/-- Cutting a join of texts without the separator gives the texts. -/
theorem pieces_joinWith : ∀ {ps : List (List Char)}, ps ≠ [] → (∀ p ∈ ps, sep ∉ p) →
    pieces sep (joinWith [sep] ps) = ps
  | [], h, _ => absurd rfl h
  | [p], _, hp => pieces_of_not_mem (hp p List.mem_cons_self)
  | p :: q :: ps, _, hp => by
    have hrest : ∀ x ∈ q :: ps, sep ∉ x := fun x hx => hp x (List.mem_cons_of_mem p hx)
    rw [joinWith_cons _ _ (List.cons_ne_nil q ps), List.append_assoc, List.singleton_append,
      pieces_append _ (hp p List.mem_cons_self), pieces_joinWith (List.cons_ne_nil q ps) hrest]

end Pieces

theorem joinWith_eq_intercalate (sep : List Char) : ∀ ps : List (List Char), joinWith sep ps = List.intercalate sep ps
  | [] => rfl
  | [p] => by simp [joinWith]
  | p :: q :: ps => by
    rw [joinWith_cons _ _ (List.cons_ne_nil q ps), joinWith_eq_intercalate sep (q :: ps)]
    simp

/-- Cutting lines that have been joined gives the lines. -/
theorem split_intercalate {sep : Char} {ss : List String} (hne : ss ≠ []) (h : ∀ s ∈ ss, sep ∉ s.toList) :
    split sep (String.intercalate (String.singleton sep) ss) = ss := by
  have hpieces : pieces sep (joinWith [sep] (ss.map String.toList)) = ss.map String.toList := by
    refine pieces_joinWith (by simpa using hne) fun p hp => ?_
    obtain ⟨s, hs, rfl⟩ := List.mem_map.1 hp
    exact h s hs
  rw [split, String.toList_intercalate, String.toList_singleton, ← joinWith_eq_intercalate, hpieces, List.map_map]
  simp [Function.comp_def]

/-- A separator between two texts cuts them apart. -/
theorem split_append (sep : Char) (a b : String) :
    split sep (a ++ String.singleton sep ++ b) = split sep a ++ split sep b := by
  have hchars : (a ++ String.singleton sep ++ b).toList = a.toList ++ sep :: b.toList := by simp
  rw [split, hchars, pieces_append_cons, List.map_append, split, split]

/-- What the separator ends with may as well begin the texts behind it. -/
theorem intercalate_append (sep blank s : String) : ∀ ss : List String,
    String.intercalate (sep ++ blank) (s :: ss) = String.intercalate sep (s :: ss.map (blank ++ ·))
  | [] => by simp
  | t :: ss => by
    rw [String.intercalate_cons_cons, intercalate_append sep blank t ss]
    simp [String.append_assoc]

/-! ## Lines -/

theorem mem_of_mem_dropReturn {c : Char} {cs : List Char} (h : c ∈ dropReturn cs) : c ∈ cs := by
  unfold dropReturn at h
  split at h
  · rename_i r hr
    exact List.mem_reverse.1 (hr ▸ List.mem_cons_of_mem _ (List.mem_reverse.1 h))
  · exact h

theorem newline_not_mem_of_mem_lines {cs line : List Char} (h : line ∈ lines cs) : '\n' ∉ line := by
  have hpiece : ∀ p ∈ (pieces '\n' cs).reverse, '\n' ∉ p := fun p hp => not_mem_of_mem_pieces (List.mem_reverse.1 hp)
  unfold lines at h
  split at h
  · cases h
  · rename_i last before hrev
    rw [hrev] at hpiece
    have hclosed : ∀ l ∈ before.reverse.map dropReturn, '\n' ∉ l := by
      intro l hl hmem
      obtain ⟨p, hp, rfl⟩ := List.mem_map.1 hl
      exact hpiece p (List.mem_cons_of_mem _ (List.mem_reverse.1 hp)) (mem_of_mem_dropReturn hmem)
    dsimp only at h
    split at h
    · exact hclosed line h
    · rcases List.mem_append.1 h with h | h
      · exact hclosed line h
      · exact List.mem_singleton.1 h ▸ hpiece last List.mem_cons_self

end ApiForge.Text
