import ApiForge.Naming.Identifier
import ApiForge.Proofs.Naming.Fresh
import ApiForge.Proofs.Text.Ascii
import ApiForge.Proofs.Text.Cutting

/-!
# What identifiers look like

* `mem_slug`, `slug_ne_empty`: a slug is a text of letters, digits and underscores that is not empty.
* `Capital`: a name that begins with something else than a small letter. Every Pascal case does (`capital_pascalCase`).
* `Compound`: a capital name in which a further word or number begins, so no small letter follows there. Names that are
  put together (`Capital.append`) and names that are numbered (`fresh_cases`) are compound.
* `Shouting`: a name without small letters, as constants have.
-/

namespace ApiForge.Naming

open Text

/-! ## Names of files -/

theorem mem_slugChars {c x : Char} (h : x ∈ slugChars c) : isAlnumAscii x = true ∨ x = '_' := by
  unfold slugChars at h
  split at h
  · rename_i hc
    rw [List.mem_singleton.1 h]
    exact .inl (isAlnumAscii_lowerChar hc)
  · split at h
    · rw [List.mem_singleton.1 h]
      exact .inl (by decide)
    · split at h
      · simp only [List.mem_cons, List.not_mem_nil, or_false] at h
        exact h.imp (fun h => by rw [h]; decide) id
      · exact .inr (List.mem_singleton.1 h)

/-- A slug consists of letters, digits and underscores. -/
theorem mem_slug {title : String} {c : Char} (h : c ∈ (slug title).toList) : isAlnumAscii c = true ∨ c = '_' := by
  unfold slug at h
  dsimp only at h
  split at h
  · have hapi : "api".toList.all isAlnumAscii = true := by decide
    exact .inl (List.all_eq_true.1 hapi c h)
  · rw [String.toList_ofList] at h
    rcases mem_or_mem_of_mem_joinWith h with h | ⟨run, hrun, hc⟩
    · exact .inr (List.mem_singleton.1 h)
    · have hmem := mem_joinWith_of_mem ['_'] hc (List.mem_filter.1 hrun).1
      rw [joinWith_pieces] at hmem
      obtain ⟨x, -, hx⟩ := List.mem_flatMap.1 hmem
      exact mem_slugChars hx

theorem slug_ne_empty (title : String) : slug title ≠ "" := by
  unfold slug
  dsimp only
  split
  · decide
  · rename_i hruns
    obtain ⟨run, hrun⟩ := List.exists_mem_of_ne_nil _ fun h => hruns (List.isEmpty_iff.2 h)
    have hne : run ≠ [] := by simpa using (List.mem_filter.1 hrun).2
    obtain ⟨c, hc⟩ := List.exists_mem_of_ne_nil run hne
    intro h
    have hmem := mem_joinWith_of_mem ['_'] hc hrun
    rw [← String.toList_ofList (l := joinWith _ _), h] at hmem
    cases hmem

/-! ## Names of types -/

/-- A name that begins with something else than a small letter. -/
def Capital (name : String) : Prop := ∃ c cs, name.toList = c :: cs ∧ isLowerAscii c = false

/-- A capital name that goes on with something else than small letters. -/
def Compound (name : String) : Prop :=
  ∃ c cs, name.toList = c :: cs ∧ isLowerAscii c = false ∧ ∃ x ∈ cs, isLowerAscii x = false

theorem Compound.capital {name : String} : Compound name → Capital name
  | ⟨c, cs, hname, hc, _⟩ => ⟨c, cs, hname, hc⟩

theorem Compound.append {a : String} (b : String) : Compound a → Compound (a ++ b)
  | ⟨c, cs, ha, hc, x, hx, hlower⟩ =>
    ⟨c, cs ++ b.toList, by rw [String.toList_append, ha]; rfl, hc, x, List.mem_append_left _ hx, hlower⟩

/-- Two names that are put together. -/
theorem Capital.append {a b : String} : Capital a → Capital b → Compound (a ++ b)
  | ⟨c, cs, ha, hc⟩, ⟨x, xs, hb, hx⟩ =>
    ⟨c, cs ++ x :: xs, by rw [String.toList_append, ha, hb]; rfl, hc, x, by simp, hx⟩

theorem isLowerAscii_upperChar (c : Char) : isLowerAscii (upperChar c) = false := by
  refine Bool.eq_false_iff.2 fun h => ?_
  have hupper := isLowerAscii_iff.1 h
  cases hc : isLowerAscii c with
  | true =>
    have := isUpperAscii_iff.1 (isUpperAscii_upperChar hc)
    omega
  | false =>
    rw [upperChar, if_neg (by simp [hc]), hc] at h
    cases h

/-- Capitalised words begin with no small letter. -/
theorem head_capitalized : ∀ (ws : List (List Char)) {c : Char} {cs : List Char},
    ws.flatMap capitalize = c :: cs → isLowerAscii c = false
  | [] :: ws, _, _, h => head_capitalized ws h
  | (x :: xs) :: ws, c, cs, h => by
    obtain rfl : upperChar x = c := (List.cons.inj h).1
    exact isLowerAscii_upperChar x

theorem capital_guardStart {cs : List Char} (h : ∀ c rest, cs = c :: rest → isLowerAscii c = false) :
    Capital (String.ofList (guardStart cs)) := by
  cases cs with
  | nil => exact ⟨'_', [], String.toList_ofList, by decide⟩
  | cons c rest =>
    rw [guardStart]
    split
    · exact ⟨'_', c :: rest, String.toList_ofList, by decide⟩
    · exact ⟨c, rest, String.toList_ofList, h c rest rfl⟩

theorem capital_pascalCase (s : String) : Capital (pascalCase s) := by
  unfold pascalCase
  dsimp only
  split
  · exact ⟨'S', "elf_".toList, by decide, by decide⟩
  · exact capital_guardStart fun _ _ h => head_capitalized _ h

theorem pascalCase_ne_self (s : String) : pascalCase s ≠ "Self" := by
  unfold pascalCase
  dsimp only
  split
  · decide
  · rename_i h
    simpa using h

theorem not_lower_of_mem_toString {n : Nat} {c : Char} (h : c ∈ (toString n).toList) : isLowerAscii c = false := by
  rw [Nat.toString_eq_ofList_toDigits, String.toList_ofList] at h
  have hdigit : c.isDigit = true := Nat.isDigit_of_mem_toDigits (by decide) (by decide) h
  simp only [Char.isDigit, Bool.and_eq_true, decide_eq_true_eq, UInt32.le_iff_toNat_le] at hdigit
  have hle : c.toNat ≤ 57 := hdigit.2
  refine Bool.eq_false_iff.2 fun hlower => ?_
  have := isLowerAscii_iff.1 hlower
  omega

theorem capital_toString (n : Nat) : Capital (toString n) := by
  cases hd : (toString n).toList with
  | nil =>
    rw [Nat.toString_eq_ofList_toDigits, String.toList_ofList] at hd
    exact absurd hd Nat.toDigits_ne_nil
  | cons c cs => exact ⟨c, cs, hd, not_lower_of_mem_toString (hd ▸ List.mem_cons_self)⟩

/-- A name is given out as it is or with a number. -/
theorem Allocator.fresh_cases (a : Allocator) (name : String) :
    a.fresh name = name ∨ ∃ n : Nat, a.fresh name = name ++ toString n := by
  cases htaken : a.isTaken name with
  | true =>
    obtain ⟨k, hfresh, -⟩ := exists_firstFree htaken
    exact .inr ⟨k, hfresh⟩
  | false => exact .inl (fresh_of_free htaken)

theorem Compound.fresh {name : String} (a : Allocator) (h : Compound name) : Compound (a.fresh name) := by
  rcases a.fresh_cases name with hf | ⟨n, hf⟩
  · rwa [hf]
  · rw [hf]
    exact h.append _

/-- A name that is given out for a capital one is the name itself, or it is compound. -/
theorem Capital.fresh {name : String} (a : Allocator) (h : Capital name) :
    a.fresh name = name ∨ Compound (a.fresh name) := by
  rcases a.fresh_cases name with hf | ⟨n, hf⟩
  · exact .inl hf
  · rw [hf]
    exact .inr (h.append (capital_toString n))

/-! ## Names of constants -/

/-- A name without small letters. -/
def Shouting (name : String) : Prop := ∀ c ∈ name.toList, isLowerAscii c = false

instance (name : String) : Decidable (Shouting name) :=
  decidable_of_iff (name.toList.all fun c => !isLowerAscii c) (by simp [Shouting])

theorem Shouting.append {a b : String} (ha : Shouting a) (hb : Shouting b) : Shouting (a ++ b) := by
  intro c hc
  rw [String.toList_append, List.mem_append] at hc
  exact hc.elim (ha c) (hb c)

theorem Shouting.fresh {name : String} (a : Allocator) (h : Shouting name) : Shouting (a.fresh name) := by
  rcases a.fresh_cases name with hf | ⟨n, hf⟩
  · rwa [hf]
  · rw [hf]
    exact h.append fun _ => not_lower_of_mem_toString

theorem shouting_upperAscii (s : String) : Shouting (upperAscii s) := by
  intro c hc
  rw [upperAscii, String.toList_ofList] at hc
  obtain ⟨x, -, rfl⟩ := List.mem_map.1 hc
  exact isLowerAscii_upperChar x

end ApiForge.Naming
