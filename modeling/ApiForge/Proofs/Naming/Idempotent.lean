import ApiForge.Proofs.Naming.Legal

/-!
# Normal names

A name that has been put into Pascal case, into snake case or into a slug is left as it is by doing so again. Its words
are cut anew, and not always where they were put together, but nothing is left to change in them.

* `capitalized_of_mem_wordsFrom`: the words of a text of letters and digits begin with no small letter, up to the first.
* `IsRun`: small letters and digits. Joined by underscores, such words are read back (`words_joinWith`).
* `IsSlug`: one or more runs joined by single underscores. Every slug is one (`isSlug_slug`), and a slug is its own slug
  (`IsSlug.slug_eq`).
-/

namespace ApiForge.Naming

open Text

/-! ## Pascal case -/

theorem upperChar_of_not_lower {c : Char} (h : isLowerAscii c = false) : upperChar c = c := by
  rw [upperChar, h]
  rfl

/-- A word ends before a capital only, so each further word begins with one. -/
theorem capitalized_of_mem_wordsFrom {cs word : List Char} {breaks : Bool} (hcs : ∀ c ∈ cs, isAlnumAscii c = true)
    (hne : word ≠ []) (hword : capitalize word = word) : ∀ w ∈ wordsFrom word breaks cs, capitalize w = w := by
  induction cs generalizing word breaks with
  | nil =>
    intro w hw
    rw [wordsFrom, if_neg (by simpa using hne)] at hw
    rwa [List.mem_singleton.1 hw]
  | cons c cs ih =>
    obtain ⟨hc, hcs⟩ := List.forall_mem_cons.1 hcs
    intro w hw
    rw [wordsFrom, if_neg (by simp [hc])] at hw
    split at hw
    · rename_i hbreak
      obtain ⟨hupper, -⟩ := Bool.and_eq_true_iff.1 hbreak
      have hcapital : capitalize [c] = [c] := by
        have hupper := isUpperAscii_iff.1 hupper
        rw [capitalize, upperChar_of_not_lower]
        refine Bool.eq_false_iff.2 fun hlower => ?_
        have hlower := isLowerAscii_iff.1 hlower
        omega
      rcases List.mem_cons.1 hw with rfl | hw
      · exact hword
      · exact ih hcs (by simp) hcapital w hw
    · have hlonger : capitalize (word ++ [c]) = word ++ [c] := by
        obtain ⟨d, rest, rfl⟩ := List.exists_cons_of_ne_nil hne
        rw [List.cons_append, capitalize, (List.cons.inj hword).1]
      exact ih hcs (by simp) hlonger w hw

/-- Letters and digits that begin with no small letter are the same after their words are capitalised. -/
theorem flatMap_capitalize_words {cs : List Char} (halnum : ∀ c ∈ cs, isAlnumAscii c = true)
    (hcapital : capitalize cs = cs) : (words cs).flatMap capitalize = cs := by
  have hwords : ∀ w ∈ words cs, capitalize w = w := by
    cases cs with
    | nil => exact fun w hw => by cases hw
    | cons c cs =>
      obtain ⟨hc, hcs⟩ := List.forall_mem_cons.1 halnum
      -- Only the first word may begin with something other than a capital, and it begins as the text does.
      have hfirst : capitalize [c] = [c] := by
        rw [capitalize, (List.cons.inj hcapital).1]
      have hstart : words (c :: cs) = wordsFrom [c] (isLowerAscii c || isDigitAscii c) cs := by
        rw [words, wordsFrom, if_neg (by simp [hc]), if_neg (by simp), List.nil_append]
      intro w hw
      rw [hstart] at hw
      exact capitalized_of_mem_wordsFrom hcs (by simp) hfirst w hw
  calc (words cs).flatMap capitalize
      = ((words cs).map fun w => w).flatten := by rw [List.flatMap_def, List.map_congr_left hwords]
    _ = (words cs).flatten := by rw [List.map_id']
    _ = cs.filter isAlnumAscii := flatten_words cs
    _ = cs := List.filter_eq_self.2 halnum

/-- What guards the start of a name is no part of its words. -/
theorem words_guardStart (cs : List Char) : words (guardStart cs) = words cs := by
  have hmark (ds : List Char) : words ('_' :: ds) = words ds := rfl
  cases cs with
  | nil => rfl
  | cons c cs =>
    rw [guardStart]
    split
    · exact hmark _
    · rfl

/-- **Pascal case is normal.** -/
theorem pascalCase_pascalCase (s : String) : pascalCase (pascalCase s) = pascalCase s := by
  let name := (words s.toList).flatMap capitalize
  have hcapital : capitalize name = name := by
    cases hname : name with
    | nil => rfl
    | cons c cs => rw [capitalize, upperChar_of_not_lower (head_capitalized _ hname)]
  have hagain : (words (guardStart name)).flatMap capitalize = name := by
    rw [words_guardStart]
    exact flatMap_capitalize_words (fun _ => alnum_capitalized) hcapital
  by_cases hself : String.ofList (guardStart name) = "Self"
  · have hpascal : pascalCase s = "Self_" := if_pos (beq_iff_eq.2 hself)
    rw [hpascal]
    decide
  · have hpascal : pascalCase s = String.ofList (guardStart name) := if_neg (by simpa using hself)
    rw [hpascal, pascalCase, String.toList_ofList, hagain]
    exact if_neg (by simpa using hself)

/-! ## Snake case -/

/-- Small letters and digits, at least one of them. -/
structure IsRun (run : List Char) : Prop where
  ne_nil : run ≠ []
  chars : ∀ c ∈ run, isLowerAscii c = true ∨ isDigitAscii c = true

theorem alnum_of_lower_or_digit {c : Char} (h : isLowerAscii c = true ∨ isDigitAscii c = true) :
    isAlnumAscii c = true :=
  isAlnumAscii_iff.2 (h.imp_right .inr)

theorem not_upper_of_lower_or_digit {c : Char} (h : isLowerAscii c = true ∨ isDigitAscii c = true) :
    isUpperAscii c = false := by
  refine Bool.eq_false_iff.2 fun hupper => ?_
  rw [isLowerAscii_iff, isDigitAscii_iff] at h
  rw [isUpperAscii_iff] at hupper
  omega

theorem lowerChar_of_lower_or_digit {c : Char} (h : isLowerAscii c = true ∨ isDigitAscii c = true) :
    lowerChar c = c := by
  rw [lowerChar, not_upper_of_lower_or_digit h]
  rfl

theorem lower_or_digit_lowerChar {c : Char} (h : isAlnumAscii c = true) :
    isLowerAscii (lowerChar c) = true ∨ isDigitAscii (lowerChar c) = true := by
  rcases isAlnumAscii_iff.1 (isAlnumAscii_lowerChar h) with hlower | hupper | hdigit
  · exact .inl hlower
  · rw [isUpperAscii_lowerChar] at hupper
    cases hupper
  · exact .inr hdigit

namespace IsRun

variable {run : List Char}

theorem underscore_not_mem (h : IsRun run) : '_' ∉ run := by
  intro hmem
  have hchar := h.chars '_' hmem
  revert hchar
  decide

theorem map_lowerChar (h : IsRun run) : run.map lowerChar = run := by
  calc run.map lowerChar
      = run.map id := List.map_congr_left fun c hc => lowerChar_of_lower_or_digit (h.chars c hc)
    _ = run := List.map_id run

end IsRun

/-- Small letters and digits end no word. -/
theorem wordsFrom_run {run : List Char} (h : ∀ c ∈ run, isLowerAscii c = true ∨ isDigitAscii c = true)
    (word rest : List Char) (breaks : Bool) :
    ∃ breaks', wordsFrom word breaks (run ++ rest) = wordsFrom (word ++ run) breaks' rest := by
  induction run generalizing word breaks with
  | nil => exact ⟨breaks, by rw [List.nil_append, List.append_nil]⟩
  | cons c run ih =>
    obtain ⟨hc, hrun⟩ := List.forall_mem_cons.1 h
    obtain ⟨breaks', hrest⟩ := ih hrun (word ++ [c]) (isLowerAscii c || isDigitAscii c)
    refine ⟨breaks', ?_⟩
    rw [List.cons_append, wordsFrom, if_neg (by simp [alnum_of_lower_or_digit hc]),
      if_neg (by simp [not_upper_of_lower_or_digit hc]), hrest, List.append_assoc, List.singleton_append]

/-- **Runs joined by underscores are read back.** -/
theorem words_joinWith {runs : List (List Char)} (h : ∀ run ∈ runs, IsRun run) : words (joinWith ['_'] runs) = runs := by
  induction runs with
  | nil => rfl
  | cons run runs ih =>
    obtain ⟨hrun, hruns⟩ := List.forall_mem_cons.1 h
    have hne : run.isEmpty = false := by simpa using hrun.ne_nil
    cases runs with
    | nil =>
      obtain ⟨breaks, hread⟩ := wordsFrom_run hrun.chars [] [] false
      rw [List.append_nil, List.nil_append] at hread
      rw [joinWith, words, hread, wordsFrom, hne]
      rfl
    | cons next runs =>
      obtain ⟨breaks, hread⟩ := wordsFrom_run hrun.chars [] ('_' :: joinWith ['_'] (next :: runs)) false
      have hmark : isAlnumAscii '_' = false := by decide
      have hnext : wordsFrom [] false (joinWith ['_'] (next :: runs)) = next :: runs := ih hruns
      rw [List.nil_append] at hread
      rw [joinWith_cons _ _ (List.cons_ne_nil next runs), List.append_assoc, List.singleton_append, words, hread,
        wordsFrom, hmark, hne, hnext]
      rfl

theorem isRun_of_mem_lowerWords {name : String} {word : List Char} (h : word ∈ lowerWords name) : IsRun word where
  ne_nil := ne_nil_of_mem_lowerWords h
  chars c hc := by
    obtain ⟨w, hw, rfl⟩ := List.mem_map.1 h
    obtain ⟨x, hx, rfl⟩ := List.mem_map.1 hc
    exact lower_or_digit_lowerChar (alnum_of_mem_words hw hx)

/-- **Snake case is normal.** -/
theorem snakeCase_snakeCase (s : String) : snakeCase (snakeCase s) = snakeCase s := by
  refine snakeCase_eq_iff.2 ?_
  have hwords : words (snakeCase s).toList = lowerWords s := by
    rw [snakeCase, String.toList_ofList, words_guardStart]
    exact words_joinWith fun _ => isRun_of_mem_lowerWords
  rw [lowerWords, hwords, List.map_congr_left fun _ hw => (isRun_of_mem_lowerWords hw).map_lowerChar, List.map_id']

/-! ## Slugs -/

/-- One or more runs joined by single underscores. -/
def IsSlug (name : String) : Prop :=
  ∃ runs : List (List Char), runs ≠ [] ∧ (∀ run ∈ runs, IsRun run) ∧ name.toList = joinWith ['_'] runs

theorem lower_or_digit_of_mem_slugChars {c x : Char} (h : x ∈ slugChars c) (hx : x ≠ '_') :
    isLowerAscii x = true ∨ isDigitAscii x = true := by
  have hk : isLowerAscii 'k' = true ∧ isLowerAscii 'i' = true := by decide
  unfold slugChars at h
  split at h
  · rename_i hc
    rw [List.mem_singleton.1 h]
    exact lower_or_digit_lowerChar hc
  · split at h
    · rw [List.mem_singleton.1 h]
      exact .inl hk.1
    · split at h
      · rcases List.mem_cons.1 h with rfl | h
        · exact .inl hk.2
        · exact absurd (List.mem_singleton.1 h) hx
      · exact absurd (List.mem_singleton.1 h) hx

/-- **A slug consists of runs.** -/
theorem isSlug_slug (title : String) : IsSlug (slug title) := by
  unfold slug
  dsimp only
  split
  · have hchars : ∀ c ∈ "api".toList, isLowerAscii c = true := List.all_eq_true.1 (by decide)
    exact ⟨["api".toList], by simp, List.forall_mem_singleton.2 ⟨by decide, fun c hc => .inl (hchars c hc)⟩, rfl⟩
  · rename_i hne
    refine ⟨_, fun hnil => hne (List.isEmpty_iff.2 hnil), fun run hrun => ?_, String.toList_ofList⟩
    obtain ⟨hpiece, hfilled⟩ := List.mem_filter.1 hrun
    refine ⟨by simpa using hfilled, fun x hx => ?_⟩
    have hmem := mem_joinWith_of_mem ['_'] hx hpiece
    rw [joinWith_pieces] at hmem
    obtain ⟨c, -, hc⟩ := List.mem_flatMap.1 hmem
    refine lower_or_digit_of_mem_slugChars hc ?_
    rintro rfl
    exact not_mem_of_mem_pieces hpiece hx

theorem slugChars_of_lower_or_digit {c : Char} (h : isLowerAscii c = true ∨ isDigitAscii c = true) :
    slugChars c = [c] := by
  rw [slugChars, if_pos (alnum_of_lower_or_digit h), lowerChar_of_lower_or_digit h]

/-- **A slug is its own slug.** -/
theorem IsSlug.slug_eq {name : String} (h : IsSlug name) : slug name = name := by
  obtain ⟨runs, hne, hruns, hname⟩ := h
  have hchars : name.toList.flatMap slugChars = name.toList := by
    have hsame : ∀ c ∈ name.toList, slugChars c = [c] := by
      intro c hc
      rw [hname] at hc
      rcases mem_or_mem_of_mem_joinWith hc with hc | ⟨run, hrun, hc⟩
      · rw [List.mem_singleton.1 hc]
        decide
      · exact slugChars_of_lower_or_digit ((hruns run hrun).chars c hc)
    rw [List.flatMap_def, List.map_congr_left hsame, ← List.flatMap_def]
    exact List.flatMap_singleton' _
  have hpieces : pieces '_' name.toList = runs := by
    rw [hname]
    exact pieces_joinWith hne fun run hrun => (hruns run hrun).underscore_not_mem
  have hfilled : runs.filter (!·.isEmpty) = runs :=
    List.filter_eq_self.2 fun run hrun => by simpa using (hruns run hrun).ne_nil
  have hnil : ¬runs.isEmpty = true := by simpa using hne
  rw [slug, hchars, hpieces, hfilled, if_neg hnil, ← hname, String.ofList_toList]

end ApiForge.Naming
