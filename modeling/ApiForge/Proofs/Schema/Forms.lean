import ApiForge.Proofs.Schema.Traversal

/-!
# Aliases and nullable schemas

Two readings of a raw schema where it stands, without following a reference.

* `Aliases raw r`: the schema stands for what the reference `r` denotes. It is the reference, or a union of one schema
  that stands for it, with or without `null`.
* `Marked raw`: `null` is marked as a value, by the flag `nullable`, in a list of types or as a member of a union. The
  flag of a union itself does not count.

Each form of schemas has one equation for both (`aliases_union`, `marked_union` and so on).
-/

namespace ApiForge.Schema

open Json

/-- A union of one schema, with or without `null`. -/
structure IsUnion (ms : Members) (members : List Json) (single : Json) : Prop where
  reference : textOf ms "$ref" = none
  composition : ms.has "allOf" = false
  union : (ms.get? "oneOf").or (ms.get? "anyOf") = some (.arr members)
  only : members.filter (!isNullMember ·) = [single]

/-- A schema that stands for what a reference denotes. -/
inductive Aliases : Json → String → Prop where
  | reference {ms : Members} {r : String} : textOf ms "$ref" = some r → Aliases (.obj ms) r
  | union {ms : Members} {members : List Json} {single : Json} {r : String} : IsUnion ms members single →
      Aliases single r → Aliases (.obj ms) r

/-- A schema that marks `null` as one of its values. -/
inductive Marked : Json → Prop where
  | flagged {ms : Members} : textOf ms "$ref" ≠ none ∨ ms.has "allOf" = true ∨
      (ms.get? "oneOf").or (ms.get? "anyOf") = none → flag ms "nullable" = true → Marked (.obj ms)
  | listed {ms : Members} {types : List Json} : Plain ms → ms.get? "type" = some (.arr types) →
      .str "null" ∈ types → Marked (.obj ms)
  | member {ms : Members} {members : List Json} {single v : Json} : IsUnion ms members single → v ∈ members →
      isNullMember v = true → Marked (.obj ms)
  | single {ms : Members} {members : List Json} {single : Json} : IsUnion ms members single → Marked single →
      Marked (.obj ms)

section Forms

variable {ms : Members} {members : List Json} {single : Json} {r : String}

theorem IsUnion.unique {members' : List Json} {single' : Json} (h : IsUnion ms members single)
    (h' : IsUnion ms members' single') : members = members' ∧ single = single' := by
  obtain rfl : members = members' := by
    have heq := h.union.symm.trans h'.union
    simpa using heq
  exact ⟨rfl, List.singleton_inj.1 (h.only.symm.trans h'.only)⟩

theorem IsUnion.not_plain (h : IsUnion ms members single) : ¬ Plain ms :=
  fun hplain => by cases h.union.symm.trans hplain.union

/-! ## References -/

theorem aliases_reference (href : textOf ms "$ref" = some r) {r' : String} : Aliases (.obj ms) r' ↔ r' = r := by
  constructor
  · intro h
    cases h with
    | reference href' => exact Option.some.inj (href'.symm.trans href)
    | union hunion _ => cases href.symm.trans hunion.reference
  · rintro rfl
    exact .reference href

theorem marked_reference (href : textOf ms "$ref" = some r) : Marked (.obj ms) ↔ flag ms "nullable" = true := by
  constructor
  · intro h
    cases h with
    | flagged _ hflag => exact hflag
    | listed hplain _ _ => cases href.symm.trans hplain.reference
    | member hunion _ _ => cases href.symm.trans hunion.reference
    | single hunion _ => cases href.symm.trans hunion.reference
  · exact .flagged (.inl (by simp [href]))

/-! ## Compositions -/

theorem not_aliases_composition (href : textOf ms "$ref" = none) (hall : ms.has "allOf" = true) :
    ¬ Aliases (.obj ms) r := by
  intro h
  cases h with
  | reference href' => cases href.symm.trans href'
  | union hunion _ => cases hall.symm.trans hunion.composition

theorem marked_composition (hall : ms.has "allOf" = true) : Marked (.obj ms) ↔ flag ms "nullable" = true := by
  constructor
  · intro h
    cases h with
    | flagged _ hflag => exact hflag
    | listed hplain _ _ => cases hall.symm.trans hplain.composition
    | member hunion _ _ => cases hall.symm.trans hunion.composition
    | single hunion _ => cases hall.symm.trans hunion.composition
  · exact .flagged (.inr (.inl hall))

/-! ## Unions -/

theorem aliases_union (hunion : IsUnion ms members single) : Aliases (.obj ms) r ↔ Aliases single r := by
  constructor
  · intro h
    cases h with
    | reference href => cases href.symm.trans hunion.reference
    | union hunion' h =>
      obtain ⟨rfl, rfl⟩ := hunion.unique hunion'
      exact h
  · exact .union hunion

theorem marked_union (hunion : IsUnion ms members single) :
    Marked (.obj ms) ↔ Marked single ∨ members.any isNullMember = true := by
  constructor
  · intro h
    cases h with
    | flagged hform _ =>
      rcases hform with href | hall | hnone
      · exact absurd hunion.reference href
      · cases hall.symm.trans hunion.composition
      · cases hunion.union.symm.trans hnone
    | listed hplain _ _ => exact absurd hplain hunion.not_plain
    | member hunion' hmem hnull =>
      obtain ⟨rfl, -⟩ := hunion.unique hunion'
      exact .inr (List.any_eq_true.2 ⟨_, hmem, hnull⟩)
    | single hunion' h =>
      obtain ⟨rfl, rfl⟩ := hunion.unique hunion'
      exact .inl h
  · rintro (h | h)
    · exact .single hunion h
    · obtain ⟨v, hmem, hnull⟩ := List.any_eq_true.1 h
      exact .member hunion hmem hnull

/-! ## Plain schemas -/

theorem not_aliases_plain (hplain : Plain ms) : ¬ Aliases (.obj ms) r := by
  intro h
  cases h with
  | reference href => cases href.symm.trans hplain.reference
  | union hunion _ => exact hunion.not_plain hplain

/-- The type list of a schema is the only place beside the flag where a plain schema lists `null`. -/
theorem typeOf_listed {c : Context} {type : Option String} {listed : Bool} (h : typeOf ms c = .ok (type, listed)) :
    listed = true ↔ ∃ types, ms.get? "type" = some (.arr types) ∧ .str "null" ∈ types := by
  unfold typeOf at h
  split at h
  · rename_i t ht
    split at h
    · cases h
    · cases h
      simp [ht]
  · rename_i types ht
    dsimp only at h
    split at h
    · rename_i single _
      cases h
      rw [List.contains_iff_mem, List.mem_filterMap]
      constructor
      · rintro ⟨v, hv, htext⟩
        refine ⟨types, ht, ?_⟩
        cases v with
        | str s =>
          cases htext
          exact hv
        | _ => cases htext
      · rintro ⟨types', ht', hmem⟩
        obtain rfl : types = types' := by simpa [ht] using ht'
        exact ⟨.str "null", hmem, rfl⟩
    · cases h
    · cases h
  · cases h
  · rename_i ht
    have hnone : ¬ ∃ types, ms.get? "type" = some (.arr types) ∧ .str "null" ∈ types := by simp [ht]
    refine iff_of_false ?_ hnone
    split at h
    · cases h
      simp
    · split at h
      · cases h
        simp
      · split at h
        · cases h
          simp
        · cases h
          simp

theorem marked_plain (hplain : Plain ms) {c : Context} {type : Option String} {listed : Bool}
    (htype : typeOf ms c = .ok (type, listed)) : Marked (.obj ms) ↔ (listed || flag ms "nullable") = true := by
  rw [Bool.or_eq_true, typeOf_listed htype]
  constructor
  · intro h
    cases h with
    | flagged _ hflag => exact .inr hflag
    | listed _ ht hmem => exact .inl ⟨_, ht, hmem⟩
    | member hunion _ _ => exact absurd hplain hunion.not_plain
    | single hunion _ => exact absurd hplain hunion.not_plain
  · rintro (⟨types, ht, hmem⟩ | hflag)
    · exact .listed hplain ht hmem
    · exact .flagged (.inr (.inr hplain.union)) hflag

end Forms

end ApiForge.Schema
