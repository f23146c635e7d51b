import ApiForge.Description.Load
import ApiForge.Proofs.Schema.Traversal
import ApiForge.Proofs.Text.Cutting

/-!
# The documents that values refer to

A reference names a document by what stands before its first `#`. The program finds this name twice: when it looks for
documents to load, and when it looks for the schema that a reference denotes. Both find the same.

* `IsFileOf name r`: the name is what stands before the first `#` of a reference.
* `RefersTo v name`: a reference anywhere in a value names a document.
* `mem_referredDocuments_iff`: the documents that are looked for are those that are named.
* `Schema.Denotes.doc_cases`: a schema that a reference denotes stands in the document that is named, or in its own.
-/

namespace ApiForge

open Json Text

/-! ## File parts -/

/-- The name is what stands before the first `#` of a reference, or all of it. -/
def IsFileOf (name reference : String) : Prop :=
  '#' ∉ name.toList ∧ (reference = name ∨ ∃ pointer, reference = name ++ "#" ++ pointer)

theorem exists_isFileOf (reference : String) : ∃ name, IsFileOf name reference := by
  by_cases h : '#' ∈ reference.toList
  · obtain ⟨before, after, hcut, hbefore⟩ := List.eq_append_cons_of_mem h
    refine ⟨String.ofList before, by simpa using hbefore, .inr ⟨String.ofList after, ?_⟩⟩
    exact String.toList_inj.1 (by simp [hcut])
  · exact ⟨reference, h, .inl rfl⟩

theorem IsFileOf.head?_split {name reference : String} (h : IsFileOf name reference) :
    (split '#' reference).head? = some name := by
  obtain ⟨hname, rfl | ⟨pointer, rfl⟩⟩ := h
  · rw [split, pieces_of_not_mem hname]
    simp
  · have hpieces := pieces_append pointer.toList hname
    rw [split, String.toList_append, String.toList_append, List.append_assoc]
    refine (congrArg (fun ps => (ps.map String.ofList).head?) hpieces).trans ?_
    rw [List.map_cons, List.head?_cons, String.ofList_toList]

theorem head?_split_eq_some_iff {name reference : String} :
    (split '#' reference).head? = some name ↔ IsFileOf name reference := by
  refine ⟨fun h => ?_, IsFileOf.head?_split⟩
  obtain ⟨name', hname'⟩ := exists_isFileOf reference
  obtain rfl : name' = name := Option.some.inj (hname'.head?_split.symm.trans h)
  exact hname'

theorem isFileOf_of_splitOnce? {name pointer reference : String} (h : splitOnce? '#' reference = some (name, pointer)) :
    IsFileOf name reference := by
  obtain ⟨⟨before, after⟩, hcut, hpair⟩ := Option.map_eq_some_iff.1 h
  cases hpair
  obtain ⟨htext, hbefore⟩ := cut?_eq_some_iff.1 hcut
  refine ⟨by simpa using hbefore, .inr ⟨String.ofList after, ?_⟩⟩
  exact String.toList_inj.1 (by simp [htext])

/-- A schema that a reference denotes stands in the document that the reference names, or in the one where the
reference stands. -/
theorem Schema.Denotes.doc_cases {doc : Option String} {reference : String} {key : RefKey}
    (h : Denotes doc reference key) :
    key.doc = doc ∨ ∃ name, key.doc = some name ∧ name ≠ "" ∧ IsFileOf name reference := by
  obtain ⟨c, rfl, hparse⟩ := h
  unfold parseRef at hparse
  cases hsplit : splitOnce? '#' reference with
  | none =>
    rw [hsplit] at hparse
    cases hparse
  | some parts =>
    obtain ⟨file, pointer⟩ := parts
    rw [hsplit] at hparse
    dsimp only [Option.getD_some] at hparse
    split at hparse
    · split at hparse
      · cases hparse
      · cases hparse
        by_cases hfile : file = ""
        · exact .inl (by simp [hfile])
        · exact .inr ⟨file, by simp [hfile], hfile, isFileOf_of_splitOnce? hsplit⟩
    · cases hparse

/-! ## References in values -/

/-- A reference anywhere in a value names a document. -/
def RefersTo (v : Json) (name : String) : Prop :=
  ∃ ms r, (Json.obj ms).Inside v ∧ (Members.get? ms "$ref").bind text? = some r ∧ name ≠ "" ∧ IsFileOf name r

theorem RefersTo.of_inside {v w : Json} {name : String} (h : RefersTo v name) (hinside : v.Inside w) :
    RefersTo w name := by
  obtain ⟨ms, r, hms, href, hname⟩ := h
  exact ⟨ms, r, hms.trans hinside, href, hname⟩

theorem mem_ownReference_iff {ms : Members} {name : String} : name ∈ referredDocuments.ownReference ms ↔
    ∃ r, (Members.get? ms "$ref").bind text? = some r ∧ name ≠ "" ∧ IsFileOf name r := by
  unfold referredDocuments.ownReference
  cases href : (Members.get? ms "$ref").bind text? with
  | none => simp
  | some r => simp [Option.mem_toList, Option.filter_eq_some_iff, head?_split_eq_some_iff, and_comm]

theorem refersTo_obj_iff {ms : Members} {name : String} :
    RefersTo (.obj ms) name ↔ name ∈ referredDocuments.ownReference ms ∨ ∃ m ∈ ms, RefersTo m.2 name := by
  rw [mem_ownReference_iff]
  constructor
  · rintro ⟨_, r, hinside, hr⟩
    cases hinside with
    | self => exact .inl ⟨r, hr⟩
    | member hmem hinside => exact .inr ⟨_, hmem, _, r, hinside, hr⟩
  · rintro (⟨r, hr⟩ | ⟨m, hmem, hname⟩)
    · exact ⟨ms, r, .self, hr⟩
    · exact hname.of_inside (.member hmem .self)

theorem refersTo_arr_iff {items : List Json} {name : String} :
    RefersTo (.arr items) name ↔ ∃ v ∈ items, RefersTo v name := by
  constructor
  · rintro ⟨_, r, hinside, hr⟩
    cases hinside with
    | item hmem hinside => exact ⟨_, hmem, _, r, hinside, hr⟩
  · rintro ⟨v, hmem, hname⟩
    exact hname.of_inside (.item hmem .self)

mutual

/-- **The documents that are looked for are those that references name.** -/
theorem mem_referredDocuments_iff {name : String} : ∀ {v : Json}, name ∈ referredDocuments v ↔ RefersTo v name
  | .obj ms => by
    rw [referredDocuments, List.mem_append, mem_referredByMembers_iff, refersTo_obj_iff]
  | .arr items => by
    rw [referredDocuments, mem_referredByItems_iff, refersTo_arr_iff]
  | .null | .bool _ | .num _ | .str _ => by
    simp only [referredDocuments]
    refine ⟨fun h => (List.not_mem_nil h).elim, fun ⟨_, _, hinside, _⟩ => ?_⟩
    cases hinside

theorem mem_referredByMembers_iff {name : String} : ∀ {ms : Members},
    name ∈ referredByMembers ms ↔ ∃ m ∈ ms, RefersTo m.2 name
  | [] => by simp [referredByMembers]
  | (key, v) :: ms => by
    simp only [referredByMembers, List.mem_append, mem_referredDocuments_iff, mem_referredByMembers_iff, List.mem_cons,
      exists_eq_or_imp]

theorem mem_referredByItems_iff {name : String} : ∀ {items : List Json},
    name ∈ referredByItems items ↔ ∃ v ∈ items, RefersTo v name
  | [] => by simp [referredByItems]
  | v :: items => by
    simp only [referredByItems, List.mem_append, mem_referredDocuments_iff, mem_referredByItems_iff, List.mem_cons,
      exists_eq_or_imp]

end

end ApiForge
