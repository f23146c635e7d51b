import ApiForge.Proofs.Naming.Words

/-!
# What snake case keeps

Snake case puts the words of a name into small letters and joins them by underscores. Since no word is empty or has an
underscore, the words can be read back, and nothing else can.

* `lowerWords`: the words of a name in small letters.
* `snakeCase_eq_iff`: names have one snake case if they have the same words in small letters.
* `alnumCount_snakeCase`: snake case keeps the number of letters and digits.
-/

namespace ApiForge.Naming

open Text

/-! ## Words -/

theorem ne_nil_of_mem_wordsFrom : ∀ {cs word : List Char} {breaks : Bool}, (breaks = false ∨ word ≠ []) →
    ∀ w ∈ wordsFrom word breaks cs, w ≠ []
  | [], word, _, _, w, hw => by
    rw [wordsFrom] at hw
    split at hw
    · cases hw
    · rename_i hne
      rw [List.mem_singleton.1 hw]
      simpa using hne
  | c :: cs, word, breaks, hbreaks, w, hw => by
    rw [wordsFrom] at hw
    split at hw
    · rcases List.mem_append.1 hw with hw | hw
      · split at hw
        · cases hw
        · rename_i hne
          rw [List.mem_singleton.1 hw]
          simpa using hne
      · exact ne_nil_of_mem_wordsFrom (.inl rfl) w hw
    · split at hw
      · rename_i hbreak
        rcases List.mem_cons.1 hw with rfl | hw
        · exact hbreaks.resolve_left (by simp [(Bool.and_eq_true_iff.1 hbreak).2])
        · exact ne_nil_of_mem_wordsFrom (.inl rfl) w hw
      · exact ne_nil_of_mem_wordsFrom (.inr (by simp)) w hw

theorem alnum_of_mem_words {cs word : List Char} (h : word ∈ words cs) {c : Char} (hc : c ∈ word) :
    isAlnumAscii c = true := by
  have hmem : c ∈ (words cs).flatten := List.mem_flatten.2 ⟨word, h, hc⟩
  rw [flatten_words] at hmem
  exact (List.mem_filter.1 hmem).2

/-- The words of a name in small letters. -/
def lowerWords (name : String) : List (List Char) := (words name.toList).map (·.map lowerChar)

theorem ne_nil_of_mem_lowerWords {name : String} {word : List Char} (h : word ∈ lowerWords name) : word ≠ [] := by
  obtain ⟨w, hw, rfl⟩ := List.mem_map.1 h
  exact fun hnil => ne_nil_of_mem_wordsFrom (.inl rfl) w hw (List.map_eq_nil_iff.1 hnil)

theorem alnum_of_mem_lowerWords {name : String} {word : List Char} (h : word ∈ lowerWords name) {c : Char}
    (hc : c ∈ word) : isAlnumAscii c = true := by
  obtain ⟨w, hw, rfl⟩ := List.mem_map.1 h
  obtain ⟨x, hx, rfl⟩ := List.mem_map.1 hc
  exact isAlnumAscii_lowerChar (alnum_of_mem_words hw hx)

theorem not_mem_of_mem_lowerWords {name : String} {word : List Char} (h : word ∈ lowerWords name) : '_' ∉ word := by
  intro hc
  have halnum := alnum_of_mem_lowerWords h hc
  revert halnum
  decide

/-! ## Reading the words back -/

theorem joinWith_eq_nil_iff {ws : List (List Char)} (h : ∀ w ∈ ws, w ≠ []) : joinWith ['_'] ws = [] ↔ ws = [] := by
  refine ⟨fun hnil => Decidable.byContradiction fun hne => ?_, fun hnil => by rw [hnil]; rfl⟩
  obtain ⟨w, hw⟩ := List.exists_mem_of_ne_nil ws hne
  obtain ⟨c, hc⟩ := List.exists_mem_of_ne_nil w (h w hw)
  have hmem := mem_joinWith_of_mem ['_'] hc hw
  rw [hnil] at hmem
  cases hmem

theorem joinWith_lowerWords_inj {s t : String} :
    joinWith ['_'] (lowerWords s) = joinWith ['_'] (lowerWords t) ↔ lowerWords s = lowerWords t := by
  have hnil (name : String) : joinWith ['_'] (lowerWords name) = [] ↔ lowerWords name = [] :=
    joinWith_eq_nil_iff fun _ => ne_nil_of_mem_lowerWords
  refine ⟨fun h => ?_, congrArg _⟩
  by_cases hs : lowerWords s = []
  · rw [(hnil s).2 hs] at h
    rw [hs, (hnil t).1 h.symm]
  · have ht : lowerWords t ≠ [] := fun ht => hs ((hnil s).1 (h.trans ((hnil t).2 ht)))
    rw [← pieces_joinWith hs fun _ => not_mem_of_mem_lowerWords, h,
      pieces_joinWith ht fun _ => not_mem_of_mem_lowerWords]

/-- A join of words begins with no underscore. -/
theorem head_joinWith_lowerWords {name : String} {cs : List Char} : joinWith ['_'] (lowerWords name) ≠ '_' :: cs := by
  intro h
  cases hws : lowerWords name with
  | nil =>
    rw [hws] at h
    cases h
  | cons w ws =>
    have hw : w ∈ lowerWords name := hws ▸ List.mem_cons_self
    obtain ⟨c, word, rfl⟩ := List.exists_cons_of_ne_nil (ne_nil_of_mem_lowerWords hw)
    have hhead : (joinWith ['_'] ((c :: word) :: ws)).head? = some c := by cases ws <;> rfl
    rw [← hws, h, List.head?_cons, Option.some.injEq] at hhead
    exact not_mem_of_mem_lowerWords hw (hhead ▸ List.mem_cons_self)

theorem guardStart_inj : ∀ {cs ds : List Char}, (∀ rest, cs ≠ '_' :: rest) → (∀ rest, ds ≠ '_' :: rest) →
    guardStart cs = guardStart ds → cs = ds
  | [], [], _, _, _ => rfl
  | [], d :: ds, _, hd, h => by
    rw [guardStart, guardStart] at h
    split at h
    · cases h
    · exact absurd h.symm (hd [])
  | c :: cs, [], hc, _, h => by
    rw [guardStart, guardStart] at h
    split at h
    · cases h
    · exact absurd h (hc [])
  | c :: cs, d :: ds, hc, hd, h => by
    rw [guardStart, guardStart] at h
    split at h <;> split at h
    · exact (List.cons.inj h).2
    · exact absurd h.symm (hd (c :: cs))
    · exact absurd h (hc (d :: ds))
    · exact h

/-- **Names have one snake case** if they have the same words in small letters. -/
theorem snakeCase_eq_iff {s t : String} : snakeCase s = snakeCase t ↔ lowerWords s = lowerWords t := by
  refine ⟨fun h => joinWith_lowerWords_inj.1 ?_, fun h => ?_⟩
  · exact guardStart_inj (fun _ => head_joinWith_lowerWords) (fun _ => head_joinWith_lowerWords)
      (String.ofList_injective h)
  · unfold lowerWords at h
    rw [snakeCase, snakeCase, h]

/-! ## Letters and digits -/

/-- The number of letters and digits in a text. -/
def alnumCount (text : String) : Nat := text.toList.countP isAlnumAscii

theorem alnumCount_append (a b : String) : alnumCount (a ++ b) = alnumCount a + alnumCount b := by
  rw [alnumCount, String.toList_append, List.countP_append]
  rfl

theorem alnumCount_le_upperAscii (text : String) : alnumCount text ≤ alnumCount (upperAscii text) := by
  rw [alnumCount, alnumCount, upperAscii, String.toList_ofList, List.countP_map]
  exact List.countP_mono_left fun _ _ => isAlnumAscii_upperChar

theorem alnumCount_le_fresh (names : Allocator) (text : String) : alnumCount text ≤ alnumCount (names.fresh text) := by
  rcases names.fresh_cases text with hf | ⟨n, hf⟩
  · exact Nat.le_of_eq (congrArg alnumCount hf.symm)
  · rw [hf, alnumCount_append]
    exact Nat.le_add_right _ _

theorem countP_guardStart (cs : List Char) : (guardStart cs).countP isAlnumAscii = cs.countP isAlnumAscii := by
  cases cs with
  | nil => rfl
  | cons c cs =>
    rw [guardStart]
    split
    · exact List.countP_cons_of_neg (by decide)
    · rfl

theorem countP_joinWith : ∀ ws : List (List Char),
    (joinWith ['_'] ws).countP isAlnumAscii = ws.flatten.countP isAlnumAscii
  | [] => rfl
  | [w] => by rw [joinWith, List.flatten_singleton]
  | w :: v :: ws => by
    have hmark : ['_'].countP isAlnumAscii = 0 := by decide
    rw [joinWith_cons ['_'] w (List.cons_ne_nil v ws), List.flatten_cons, List.countP_append, List.countP_append,
      List.countP_append, hmark, countP_joinWith (v :: ws), Nat.add_zero]

/-- Snake case keeps the number of letters and digits. -/
theorem alnumCount_snakeCase (name : String) : alnumCount (snakeCase name) = alnumCount name := by
  have hwords : (lowerWords name).flatten = (name.toList.filter isAlnumAscii).map lowerChar := by
    rw [lowerWords, ← List.map_flatten, flatten_words]
  have hlower : ∀ c ∈ (name.toList.filter isAlnumAscii).map lowerChar, isAlnumAscii c = true := by
    refine List.forall_mem_map.2 fun c hc => isAlnumAscii_lowerChar (List.mem_filter.1 hc).2
  rw [alnumCount, snakeCase, String.toList_ofList, countP_guardStart]
  change (joinWith ['_'] (lowerWords name)).countP isAlnumAscii = _
  rw [countP_joinWith, hwords, List.countP_eq_length.2 hlower, List.length_map, ← List.countP_eq_length_filter]
  rfl

end ApiForge.Naming
