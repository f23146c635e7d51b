import ApiForge.Naming.Allocator
import Mathlib.Data.List.Nodup
import Mathlib.Data.List.Perm.Subperm

/-!
# Allocated names are new

A counter passes numbers whose names are in use, until it comes to a new name or overflows (`exists_searchEnds`). An
allocator has one candidate more than there are names in use; the candidates differ (`candidates_nodup`), so not all of
them are in use. Either way a name that is in use is given out with the least number that makes it new
(`exists_firstFree`), and what is given out is new (`fresh_not_mem`).
-/

namespace ApiForge.Naming.Allocator

variable {a : Allocator} {name : String}

theorem isTaken_iff : a.isTaken name = true ↔ name ∈ a.taken := by simp [isTaken]

theorem isTaken_eq_false_iff : a.isTaken name = false ↔ name ∉ a.taken := by simp [isTaken]

/-! ## Counting -/

/-- The first number from `first` on that makes a name new. -/
structure FirstFree (a : Allocator) (name : String) (first k : Nat) : Prop where
  le : first ≤ k
  free : a.isTaken (name ++ toString k) = false
  passed : ∀ j, first ≤ j → j < k → a.isTaken (name ++ toString j) = true

theorem FirstFree.here {k : Nat} (h : a.isTaken (name ++ toString k) = false) : a.FirstFree name k k :=
  ⟨Nat.le_refl k, h, fun j hle hlt => by omega⟩

/-- A number is passed if its name is in use. -/
theorem FirstFree.pass {i k : Nat} (h : a.FirstFree name (i + 1) k) (htaken : a.isTaken (name ++ toString i) = true) :
    a.FirstFree name i k where
  le := Nat.le_of_succ_le h.le
  free := h.free
  passed j hle hlt := by
    rcases Nat.eq_or_lt_of_le hle with rfl | hlater
    · exact htaken
    · exact h.passed j hlater hlt

/-- Counting from one number on comes to an end: at a number whose name is new, or where the counter overflows. -/
inductive SearchEnds (a : Allocator) (name : String) : Nat → Option Nat → Prop
  | found {k : Nat} : k ≤ lastNumber → a.isTaken (name ++ toString k) = false → SearchEnds a name k (some k)
  | next {i : Nat} {r : Option Nat} : i < lastNumber → a.isTaken (name ++ toString i) = true →
      SearchEnds a name (i + 1) r → SearchEnds a name i r
  | overflow : a.isTaken (name ++ toString lastNumber) = true → SearchEnds a name lastNumber none

namespace SearchEnds

variable {i : Nat} {r : Option Nat}

/-- The search ends at the first number of a new name. -/
theorem firstFree (h : SearchEnds a name i r) : ∀ k ∈ r, a.FirstFree name i k := by
  induction h with
  | found _ hfree =>
    rintro _ ⟨⟩
    exact .here hfree
  | next _ htaken _ ih => exact fun k hk => (ih k hk).pass htaken
  | overflow _ => nofun

end SearchEnds

/-- **The search ends**, and finds the name with the number at which it ends. -/
theorem exists_searchEnds (a : Allocator) (name : String) : ∀ left counter, counter + left = lastNumber →
    ∃ r, a.SearchEnds name counter r ∧ a.search name counter left = r.map (name ++ toString ·) := by
  intro left counter hsum
  cases htaken : a.isTaken (name ++ toString counter) with
  | false =>
    refine ⟨some counter, .found (by omega) htaken, ?_⟩
    cases left <;> rw [search, htaken] <;> rfl
  | true =>
    cases left with
    | zero =>
      obtain rfl : counter = lastNumber := hsum
      exact ⟨none, .overflow htaken, by rw [search, if_pos htaken, Option.map_none]⟩
    | succ left =>
      obtain ⟨r, hends, hfound⟩ := exists_searchEnds a name left (counter + 1) (by omega)
      exact ⟨r, .next (by omega) htaken hends, by rw [search, if_pos htaken, hfound]⟩

/-- A name that is in use gets the number at which a search from 2 on ends. -/
theorem fresh?_of_taken (htaken : a.isTaken name = true) :
    ∃ r, a.SearchEnds name 2 r ∧ a.fresh? name = r.map (name ++ toString ·) := by
  rw [fresh?, if_pos htaken]
  exact a.exists_searchEnds name (lastNumber - 2) 2 rfl

/-- A name that is not in use is given out as it is. -/
theorem fresh?_of_free (h : a.isTaken name = false) : a.fresh? name = some name := by
  rw [fresh?, h, if_neg Bool.false_ne_true]

/-- What a call gives out is what the same call gives out for those who have no failure to report. -/
theorem allocate_of_allocate? {given : String × Allocator} (h : a.allocate? name = some given) :
    a.allocate name = given := by
  obtain ⟨n, hn, rfl⟩ := Option.map_eq_some_iff.1 h
  simp only [allocate, fresh, hn, Option.getD_some]

/-! ## Candidates -/

/-- A number is read back from its digits. -/
theorem toString_inj {m n : Nat} (h : toString m = toString n) : m = n := by
  have hd := congrArg (fun s : String => Nat.ofDigitChars 10 s.toList 0) h
  simpa [Nat.ofDigitChars_ten_toDigits] using hd

/-- Different numbers make different names. -/
theorem numbered_nodup (name : String) (n : Nat) : ((List.range n).map fun i => name ++ toString (i + 2)).Nodup := by
  refine List.nodup_range.map_on fun i _ j _ h => ?_
  have := toString_inj ((String.append_right_inj _).1 h)
  omega

/-- The candidates differ. -/
theorem candidates_nodup (a : Allocator) (name : String) : (a.candidates name).Nodup := numbered_nodup name _

/-- Some candidate is not in use. -/
theorem exists_candidate (a : Allocator) (name : String) : ∃ c ∈ a.candidates name, a.isTaken c = false := by
  by_contra h
  have hsub : a.candidates name ⊆ a.taken := by
    intro c hc
    by_contra hn
    exact h ⟨c, hc, isTaken_eq_false_iff.2 hn⟩
  have := (List.subperm_of_subset (a.candidates_nodup name) hsub).length_le
  simp only [candidates, List.length_map, List.length_range] at this
  omega

/-- The first candidate that is new has the least number. -/
theorem find?_candidates (a : Allocator) (name : String) :
    ∃ k, (a.candidates name).find? (!a.isTaken ·) = some (name ++ toString k) ∧ a.FirstFree name 2 k := by
  obtain ⟨c, hc, hfree⟩ := a.exists_candidate name
  have hsome : ((a.candidates name).find? (!a.isTaken ·)).isSome = true :=
    List.find?_isSome.2 ⟨c, hc, by simp [hfree]⟩
  rw [candidates, List.find?_map, Option.isSome_map] at hsome
  obtain ⟨i, hi⟩ := Option.isSome_iff_exists.1 hsome
  obtain ⟨hnew, -, hleast⟩ := List.find?_range_eq_some.1 hi
  refine ⟨i + 2, ?_, by omega, by simpa using hnew, fun j hj hlt => ?_⟩
  · rw [candidates, List.find?_map, hi]
    rfl
  · have hj' := hleast (j - 2) (by omega)
    rw [Function.comp_apply, Nat.sub_add_cancel hj] at hj'
    simpa using hj'

/-! ## New names -/

/-- A name that is in use is given out with the least number that makes it new. -/
theorem exists_firstFree (htaken : a.isTaken name = true) :
    ∃ k, a.fresh name = name ++ toString k ∧ a.FirstFree name 2 k := by
  obtain ⟨r, hends, hfound⟩ := fresh?_of_taken htaken
  cases r with
  | some k => exact ⟨k, by rw [fresh, hfound, Option.map_some, Option.getD_some], hends.firstFree k rfl⟩
  | none =>
    obtain ⟨k, hcandidate, hfirst⟩ := a.find?_candidates name
    exact ⟨k, by rw [fresh, hfound, hcandidate, Option.map_none, Option.getD_none, Option.getD_some], hfirst⟩

theorem fresh_of_free (h : a.isTaken name = false) : a.fresh name = name := by
  rw [fresh, fresh?_of_free h, Option.getD_some]

/-- **The name given out is new.** -/
theorem fresh_not_mem (a : Allocator) (name : String) : a.fresh name ∉ a.taken := by
  cases htaken : a.isTaken name with
  | true =>
    obtain ⟨k, hfresh, hfirst⟩ := exists_firstFree htaken
    rw [hfresh]
    exact isTaken_eq_false_iff.1 hfirst.free
  | false =>
    rw [fresh_of_free htaken]
    exact isTaken_eq_false_iff.1 htaken

/-- Names in use stay so. -/
theorem taken_subset_reserve (a : Allocator) (name : String) : a.taken ⊆ (a.reserve name).2.taken := by
  unfold reserve
  split
  · exact List.Subset.refl _
  · exact List.subset_cons_self _ _

end ApiForge.Naming.Allocator
