import ApiForge.Proofs.Text.Cutting
import ApiForge.Text.Blank
import Mathlib.Data.List.TakeWhile

/-!
# What is left of a text without the white space at its ends

* `strip_append_cons`: around a visible character, white space is removed on the far sides only.
* `strip_blanks`: white space at the ends of a text does not count.
* `exists_strip`: a text is what is left of it, between white space.
* `trim_blanks`, `trim_trim`: the same on strings.
-/

namespace ApiForge.Text

/-- White space only. -/
def AllBlank (cs : List Char) : Prop := ∀ c ∈ cs, isBlank c = true

instance (cs : List Char) : Decidable (AllBlank cs) := decidable_of_iff (cs.all isBlank = true) List.all_eq_true

variable {cs left right : List Char}

theorem AllBlank.reverse (h : AllBlank cs) : AllBlank cs.reverse := fun c hc => h c (List.mem_reverse.1 hc)

theorem AllBlank.not_mem (h : AllBlank cs) {c : Char} (hc : isBlank c = false) : c ∉ cs := by
  intro hmem
  rw [h c hmem] at hc
  cases hc

/-- Around a visible character, white space is removed on the far sides only. -/
theorem strip_append_cons {c : Char} (h : isBlank c = false) (before after : List Char) :
    strip (before ++ c :: after) =
      before.dropWhile isBlank ++ c :: (after.reverse.dropWhile isBlank).reverse := by
  rw [strip, dropWhile_append_cons h, List.reverse_append, List.reverse_cons, List.append_assoc,
    List.singleton_append, dropWhile_append_cons h]
  simp

theorem strip_of_allBlank (h : AllBlank cs) : strip cs = [] := by
  rw [strip, List.dropWhile_eq_nil_iff.2 h]
  rfl

/-- A text is empty or white space, or it has a visible character. -/
theorem allBlank_or_exists (cs : List Char) :
    AllBlank cs ∨ ∃ before c after, cs = before ++ c :: after ∧ isBlank c = false := by
  by_cases h : AllBlank cs
  · exact .inl h
  · obtain ⟨c, hc, hblank⟩ : ∃ c ∈ cs, isBlank c = false := by simpa [AllBlank] using h
    obtain ⟨before, after, rfl⟩ := List.append_of_mem hc
    exact .inr ⟨before, c, after, rfl, hblank⟩

/-- **White space at the ends of a text** does not count. -/
theorem strip_blanks (hleft : AllBlank left) (hright : AllBlank right) (cs : List Char) :
    strip (left ++ cs ++ right) = strip cs := by
  rcases allBlank_or_exists cs with hcs | ⟨before, c, after, rfl, hc⟩
  · have hall : AllBlank (left ++ cs ++ right) :=
      List.forall_mem_append.2 ⟨List.forall_mem_append.2 ⟨hleft, hcs⟩, hright⟩
    rw [strip_of_allBlank hall, strip_of_allBlank hcs]
  · have hsplit : left ++ (before ++ c :: after) ++ right = (left ++ before) ++ c :: (after ++ right) := by simp
    rw [hsplit, strip_append_cons hc, strip_append_cons hc, List.dropWhile_append_of_pos hleft, List.reverse_append,
      List.dropWhile_append_of_pos hright.reverse]

theorem allBlank_takeWhile (cs : List Char) : AllBlank (cs.takeWhile isBlank) := fun _ hc => List.mem_takeWhile_imp hc

@[simp] theorem strip_dropWhile (cs : List Char) : strip (cs.dropWhile isBlank) = strip cs := by
  have hstrip := strip_blanks (allBlank_takeWhile cs) (by nofun : AllBlank []) (cs.dropWhile isBlank)
  rw [List.append_nil, List.takeWhile_append_dropWhile] at hstrip
  exact hstrip.symm

@[simp] theorem strip_reverse_dropWhile (cs : List Char) : strip (cs.reverse.dropWhile isBlank).reverse = strip cs := by
  have hstrip := strip_blanks (by nofun : AllBlank []) (allBlank_takeWhile cs.reverse).reverse
    (cs.reverse.dropWhile isBlank).reverse
  rw [List.nil_append, ← List.reverse_append, List.takeWhile_append_dropWhile, List.reverse_reverse] at hstrip
  exact hstrip.symm

/-- A text is what is left of it, between white space. -/
theorem exists_strip (cs : List Char) :
    ∃ left right, AllBlank left ∧ AllBlank right ∧ cs = left ++ strip cs ++ right := by
  refine ⟨cs.takeWhile isBlank, ((cs.dropWhile isBlank).reverse.takeWhile isBlank).reverse, allBlank_takeWhile cs,
    (allBlank_takeWhile _).reverse, ?_⟩
  rw [strip, List.append_assoc, ← List.reverse_append, List.takeWhile_append_dropWhile, List.reverse_reverse,
    List.takeWhile_append_dropWhile]

theorem strip_strip (cs : List Char) : strip (strip cs) = strip cs := by
  obtain ⟨left, right, hleft, hright, hcs⟩ := exists_strip cs
  exact (strip_blanks hleft hright (strip cs)).symm.trans (congrArg strip hcs.symm)

theorem mem_of_mem_strip {c : Char} (h : c ∈ strip cs) : c ∈ cs := by
  obtain ⟨left, right, -, -, hcs⟩ := exists_strip cs
  rw [hcs]
  exact List.mem_append_left _ (List.mem_append_right _ h)

/-! ## On strings -/

/-- White space at the ends of a text does not count. -/
theorem trim_blanks {left right : String} (hleft : AllBlank left.toList) (hright : AllBlank right.toList) (s : String) :
    trim (left ++ s ++ right) = trim s := by
  rw [trim, String.toList_append, String.toList_append, strip_blanks hleft hright, trim]

theorem trim_of_allBlank {s : String} (h : AllBlank s.toList) : trim s = "" := by
  rw [trim, strip_of_allBlank h, String.ofList_nil]

theorem trim_trim (s : String) : trim (trim s) = trim s := by
  rw [trim, trim, String.toList_ofList, strip_strip]

theorem mem_of_mem_trim {s : String} {c : Char} (h : c ∈ (trim s).toList) : c ∈ s.toList := by
  rw [trim, String.toList_ofList] at h
  exact mem_of_mem_strip h

end ApiForge.Text
