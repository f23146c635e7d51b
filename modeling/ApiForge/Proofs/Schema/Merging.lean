import ApiForge.Proofs.Operation.Provenance
import ApiForge.Proofs.Schema.Traversal
import Mathlib.Data.List.Forall2
import Mathlib.Data.List.Induction

/-!
# Pieces of a composition

A composition is collected from pieces: records that its members refer to, and schemas with properties and required keys
of their own. Nested compositions are flattened, and a schema comes after its members.

* `pieces ms`: the pieces in the order in which they are collected.
* `Piece.Defines`: the fields that a piece brings along. A record that is referred to brings fields that may be
  required; the properties of a schema are not required before all pieces are collected.
* `mem_foldl_mergeField_iff`: of the fields with one key, the last one stays.
* `Merged.Collects`: what has been collected from some pieces, kept by every further piece.
* `Composed`: the fields of the record that a composition describes. Each has the type of the last definition of its key
  (`Composed.definitions`), and if that is a property, its schema (`Composed.reads_type`).

What it means that a node reads a schema is a parameter `reads` here.
-/

namespace ApiForge.Schema

open Json

/-- What is known of named schemas. -/
abbrev Known := RefKey → Option Node

/-- Whether at least what one knows is known. -/
def Known.Extends (known' known : Known) : Prop := ∀ key n, known key = some n → known' key = some n

theorem Known.Extends.trans {known₁ known₂ known₃ : Known} (h : known₃.Extends known₂) (h' : known₂.Extends known₁) :
    known₃.Extends known₁ := fun key n hn => h key n (h' key n hn)

/-- A part of a composition that brings fields along. -/
inductive Piece where
  | referred (reference : String)
  /-- A schema with its own properties and required keys. -/
  | own (ms : Members)

/-- The members of a composition. -/
def membersOf (ms : Members) : List Json := ((ms.get? "allOf").bind Json.items?).getD []

theorem depth_of_membersOf {ms ms' : Members} (h : .obj ms' ∈ membersOf ms) : membersDepth ms' < membersDepth ms := by
  unfold membersOf at h
  cases hget : ms.get? "allOf" with
  | none => rw [hget] at h; cases h
  | some v =>
    rw [hget] at h
    cases v with
    | arr items =>
      have hmem : .obj ms' ∈ items := h
      have hitem := depth_le_itemsDepth hmem
      have harr := Members.depth_of_get? hget
      rw [depth_obj] at hitem
      rw [depth_arr] at harr
      omega
    | _ => cases h

/-- The pieces of a composition, in the order in which they are collected. -/
def pieces (ms : Members) : List Piece :=
  ((membersOf ms).attach.flatMap fun ⟨member, _⟩ =>
    match member with
    | .obj ms' => match textOf ms' "$ref" with
      | some reference => [.referred reference]
      | none => pieces ms'
    | _ => []) ++ [.own ms]
termination_by membersDepth ms
decreasing_by exact depth_of_membersOf ‹_›

/-- The pieces of one member. -/
def memberPieces : Json → List Piece
  | .obj ms => match textOf ms "$ref" with
    | some reference => [.referred reference]
    | none => pieces ms
  | _ => []

theorem pieces_eq (ms : Members) : pieces ms = (membersOf ms).flatMap memberPieces ++ [.own ms] := by
  rw [pieces]
  congr 1
  calc _ = (membersOf ms).attach.flatMap fun member => memberPieces member.1 := by
        refine List.flatMap_congr fun ⟨member, _⟩ _ => ?_
        cases member <;> rfl
    _ = ((membersOf ms).attach.map Subtype.val).flatMap memberPieces :=
        (List.flatMap_map ..).symm
    _ = (membersOf ms).flatMap memberPieces := by rw [List.attach_map_subtype_val]

/-- What an entry gives: a field of its key and presence, with a type that reads its schema. -/
def Entry.Gives (reads : Json → Node → Prop) (e : Entry) (f : Field) : Prop :=
  f.demand = (e.key, e.required) ∧ reads e.schema f.type

/-- The fields that a piece in a document brings along. -/
def Piece.Defines (known : Known) (doc : Option String) (reads : Json → Node → Prop) : Piece → List Field → Prop
  | .referred reference, fields => ∃ key target, Denotes doc reference key ∧ known key = some target ∧
      target.isObject = true ∧ fields = target.fields
  | .own ms, fields => List.Forall₂ (Entry.Gives reads) (entriesOf ms fun _ => false) fields

/-- A piece asks for a key: the record that is referred to has a required field of this key, or the schema lists the key
as required. -/
def Piece.Requires (known : Known) (doc : Option String) (key : String) : Piece → Prop
  | .referred reference => ∃ k target f, Denotes doc reference k ∧ known k = some target ∧ f ∈ target.fields ∧
      f.wireKey = key ∧ f.required = true
  | .own ms => key ∈ textsOf ms "required"

/-! ## Related lists -/

section Related

variable {α β : Type} {R : α → β → Prop} {as : List α} {bs : List β}

theorem exists_right_of_forall₂ (h : List.Forall₂ R as bs) {a : α} (ha : a ∈ as) : ∃ b ∈ bs, R a b := by
  induction h with
  | nil => cases ha
  | cons hab _ ih =>
    rcases List.mem_cons.1 ha with rfl | ha
    · exact ⟨_, List.mem_cons_self, hab⟩
    · obtain ⟨b, hb, hr⟩ := ih ha
      exact ⟨b, List.mem_cons_of_mem _ hb, hr⟩

theorem exists_left_of_forall₂ (h : List.Forall₂ R as bs) {b : β} (hb : b ∈ bs) : ∃ a ∈ as, R a b :=
  exists_right_of_forall₂ (R := flip R) h.flip hb

theorem split_of_forall₂ {a : α} {as' : List α} : ∀ {as : List α} {bs : List β},
    List.Forall₂ R (as ++ a :: as') bs → ∃ bs₁ b bs₂, bs = bs₁ ++ b :: bs₂ ∧ R a b ∧ List.Forall₂ R as' bs₂
  | [], _, .cons hab h => ⟨[], _, _, rfl, hab, h⟩
  | _ :: _, b :: _, .cons _ h => by
    obtain ⟨bs₁, b', bs₂, rfl, hab, h⟩ := split_of_forall₂ h
    exact ⟨b :: bs₁, b', bs₂, rfl, hab, h⟩

end Related

/-! ## Merging fields -/

/-- A field is the last one with its key. -/
def Field.IsLast (f : Field) (fields : List Field) : Prop :=
  ∃ before after, fields = before ++ f :: after ∧ ∀ g ∈ after, g.wireKey ≠ f.wireKey

theorem Field.IsLast.mem {f : Field} {fields : List Field} (h : f.IsLast fields) : f ∈ fields := by
  obtain ⟨before, after, rfl, -⟩ := h
  simp

theorem Field.isLast_concat {f g : Field} {fields : List Field} :
    f.IsLast (fields ++ [g]) ↔ f = g ∨ f.IsLast fields ∧ f.wireKey ≠ g.wireKey := by
  constructor
  · rintro ⟨before, after, heq, hafter⟩
    rcases List.eq_nil_or_concat after with rfl | ⟨after, last, rfl⟩
    · exact .inl (List.singleton_inj.1 (List.append_inj_right' heq rfl)).symm
    · rw [List.concat_eq_append] at heq hafter
      rw [← List.cons_append, ← List.append_assoc] at heq
      obtain ⟨hfields, hlast⟩ := List.append_inj' heq rfl
      obtain rfl := List.singleton_inj.1 hlast
      refine .inr ⟨⟨before, after, hfields, fun h hh => hafter h (by simp [hh])⟩, ?_⟩
      exact (hafter g (by simp)).symm
  · rintro (rfl | ⟨⟨before, after, rfl, hafter⟩, hne⟩)
    · exact ⟨fields, [], rfl, by simp⟩
    · refine ⟨before, after ++ [g], by simp, fun h hh => ?_⟩
      rcases List.mem_append.1 hh with hh | hh
      · exact hafter h hh
      · rw [List.mem_singleton.1 hh]
        exact hne.symm

theorem Field.IsLast.unique {f g : Field} {fields : List Field} (hf : f.IsLast fields) (hg : g.IsLast fields)
    (hkey : f.wireKey = g.wireKey) : f = g := by
  induction fields using List.reverseRecOn with
  | nil => cases hf.mem
  | append_singleton fields last ih =>
    rcases Field.isLast_concat.1 hf with rfl | ⟨hf, hflast⟩
    · rcases Field.isLast_concat.1 hg with rfl | ⟨-, hglast⟩
      · rfl
      · exact absurd hkey.symm hglast
    · rcases Field.isLast_concat.1 hg with rfl | ⟨hg, -⟩
      · exact absurd hkey hflast
      · exact ih hf hg

/-- Among fields there is a last one with a given key, if there is any. -/
theorem Field.exists_isLast {fields : List Field} {g : Field} (h : g ∈ fields) :
    ∃ f : Field, f.IsLast fields ∧ f.wireKey = g.wireKey := by
  induction fields using List.reverseRecOn with
  | nil => cases h
  | append_singleton fields last ih =>
    by_cases hkey : last.wireKey = g.wireKey
    · exact ⟨last, Field.isLast_concat.2 (.inl rfl), hkey⟩
    · have hmem : g ∈ fields := by
        rcases List.mem_append.1 h with h | h
        · exact h
        · exact absurd (List.mem_singleton.1 h ▸ rfl) hkey
      obtain ⟨f, hf, hfkey⟩ := ih hmem
      exact ⟨f, Field.isLast_concat.2 (.inr ⟨hf, by rw [hfkey]; exact Ne.symm hkey⟩), hfkey⟩

theorem mem_mergeField_iff {fields : List Field} {f g : Field} :
    g ∈ mergeField fields f ↔ g = f ∨ g ∈ fields ∧ g.wireKey ≠ f.wireKey := by
  unfold mergeField
  by_cases hany : fields.any (·.wireKey == f.wireKey) = true
  · rw [if_pos hany]
    constructor
    · intro h
      obtain ⟨g', hg', rfl⟩ := List.mem_map.1 h
      by_cases hkey : g'.wireKey = f.wireKey
      · exact .inl (by simp [hkey])
      · exact .inr (by simpa [hkey] using hg')
    · rintro (rfl | ⟨hg, hkey⟩)
      · obtain ⟨g', hg', hkey⟩ := List.any_eq_true.1 hany
        exact List.mem_map.2 ⟨g', hg', if_pos hkey⟩
      · exact List.mem_map.2 ⟨g, hg, by simp [hkey]⟩
  · rw [if_neg hany, List.mem_append, List.mem_singleton, or_comm]
    refine or_congr_right (iff_self_and.2 fun hg hkey => hany ?_)
    exact List.any_eq_true.2 ⟨g, hg, by simp [hkey]⟩

/-- **Of the fields with one key, the last one stays.** -/
theorem mem_foldl_mergeField_iff {fields : List Field} {f : Field} :
    f ∈ fields.foldl mergeField [] ↔ f.IsLast fields := by
  induction fields using List.reverseRecOn with
  | nil =>
    refine iff_of_false (by simp) ?_
    intro h
    cases h.mem
  | append_singleton fields last ih =>
    rw [List.foldl_append, List.foldl_cons, List.foldl_nil, mem_mergeField_iff, Field.isLast_concat, ih]

/-! ## Collecting pieces -/

/-- What has been collected from some pieces. -/
def Merged.Collects (known : Known) (doc : Option String) (reads : Json → Node → Prop) (ps : List Piece) (m : Merged) :
    Prop :=
  (∃ defs, List.Forall₂ (Piece.Defines known doc reads) ps defs ∧ m.fields = defs.flatten.foldl mergeField []) ∧
    ∀ key, key ∈ m.required ↔ ∃ ms, .own ms ∈ ps ∧ key ∈ textsOf ms "required"

section Collecting

variable {known known' : Known} {doc : Option String} {reads reads' : Json → Node → Prop} {ps : List Piece} {m : Merged}

theorem Entry.Gives.mono (h : ∀ raw n, reads raw n → reads' raw n) {e : Entry} {f : Field} (hf : e.Gives reads f) :
    e.Gives reads' f := ⟨hf.1, h _ _ hf.2⟩

theorem Piece.Defines.mono (h : known'.Extends known) (hreads : ∀ raw n, reads raw n → reads' raw n) {p : Piece}
    {fields : List Field} (hd : p.Defines known doc reads fields) : p.Defines known' doc reads' fields := by
  cases p with
  | own ms => exact List.Forall₂.imp (fun _ _ hf => hf.mono hreads) hd
  | referred reference =>
    obtain ⟨key, target, hkey, hknown, hobject, hfields⟩ := hd
    exact ⟨key, target, hkey, h key target hknown, hobject, hfields⟩

theorem Merged.Collects.mono (h : known'.Extends known) (hreads : ∀ raw n, reads raw n → reads' raw n)
    (hm : m.Collects known doc reads ps) : m.Collects known' doc reads' ps := by
  obtain ⟨⟨defs, hdefs, hfields⟩, hrequired⟩ := hm
  exact ⟨⟨defs, hdefs.imp fun _ _ hd => hd.mono h hreads, hfields⟩, hrequired⟩

theorem Merged.collects_nil : Merged.Collects known doc reads [] {} :=
  ⟨⟨[], .nil, rfl⟩, fun key => by simp⟩

theorem Merged.mem_require {keys : List String} {key : String} :
    key ∈ (m.require keys).required ↔ key ∈ m.required ∨ key ∈ keys := by
  have hfold : ∀ (keys acc : List String),
      key ∈ keys.foldl (fun acc k => if acc.contains k then acc else acc ++ [k]) acc ↔ key ∈ acc ∨ key ∈ keys := by
    intro keys
    induction keys with
    | nil => simp
    | cons k keys ih =>
      intro acc
      rw [List.foldl_cons, ih, List.mem_cons]
      split
      · rename_i hk
        have hk : k ∈ acc := by simpa using hk
        constructor
        · exact Or.imp_right .inr
        · rintro (h | rfl | h)
          · exact .inl h
          · exact .inl hk
          · exact .inr h
      · rw [List.mem_append, List.mem_singleton, or_assoc]
  exact hfold keys m.required

theorem Merged.Collects.merge {fields : List Field} (hm : m.Collects known doc reads ps) {p : Piece}
    (hd : p.Defines known doc reads fields) : ∃ defs, List.Forall₂ (Piece.Defines known doc reads) (ps ++ [p]) defs ∧
      (m.merge fields).fields = defs.flatten.foldl mergeField [] := by
  obtain ⟨⟨defs, hdefs, hfields⟩, -⟩ := hm
  refine ⟨defs ++ [fields], List.rel_append hdefs (.cons hd .nil), ?_⟩
  rw [Merged.merge, hfields, List.flatten_append, List.foldl_append, List.flatten_singleton]

/-- A record that is referred to brings its fields along. -/
theorem Merged.Collects.referred (hm : m.Collects known doc reads ps) {reference : String} {fields : List Field}
    (hd : Piece.Defines known doc reads (.referred reference) fields) :
    (m.merge fields).Collects known doc reads (ps ++ [.referred reference]) := by
  refine ⟨hm.merge hd, fun key => ?_⟩
  rw [Merged.merge, hm.2]
  simp

/-- A schema brings its required keys and its properties along. -/
theorem Merged.Collects.own (hm : m.Collects known doc reads ps) {ms : Members} {fields : List Field}
    (hd : Piece.Defines known doc reads (.own ms) fields) :
    ((m.require (textsOf ms "required")).merge fields).Collects known doc reads (ps ++ [.own ms]) := by
  refine ⟨hm.merge hd, fun key => ?_⟩
  rw [Merged.merge, Merged.mem_require, hm.2]
  constructor
  · rintro (⟨ms', hmem, hkey⟩ | hkey)
    · exact ⟨ms', List.mem_append_left _ hmem, hkey⟩
    · exact ⟨ms, by simp, hkey⟩
  · rintro ⟨ms', hmem, hkey⟩
    rcases List.mem_append.1 hmem with hmem | hmem
    · exact .inl ⟨ms', hmem, hkey⟩
    · cases List.mem_singleton.1 hmem
      exact .inr hkey

end Collecting

/-! ## Composed records -/

/-- A field when all required keys are known: it is required if it was so before or if its key is one of them. -/
def Field.Settles (required : List String) (f f' : Field) : Prop :=
  f'.demand = (f.wireKey, f.required || required.contains f.wireKey) ∧ f'.type = f.type

theorem settleFields_settles (c : Context) (required : List String) : ∀ (fields : List Field) (taken : List String) s,
    Ends (settleFields c required taken fields) s (fun fields' _ => List.Forall₂ (Field.Settles required) fields fields')
      fun _ _ => True
  | [], _, _ => ends_pure.2 .nil
  | f :: fields, taken, s => by
    refine (Ends.trivial _ s).bind fun rules s₁ _ => ?_
    refine (settleFields_settles c required fields _ s₁).bind fun fields' s₂ hfields => ?_
    exact ends_pure.2 (.cons ⟨rfl, rfl⟩ hfields)

/-- The fields of the record that a composition describes: those that its pieces define, each required if it is so
already or if a schema among the pieces lists its key. -/
def Composed (known : Known) (doc : Option String) (reads : Json → Node → Prop) (ms : Members) (fields : List Field) :
    Prop :=
  ∃ m : Merged, m.Collects known doc reads (pieces ms) ∧ List.Forall₂ (Field.Settles m.required) m.fields fields

section Composing

variable {known known' : Known} {doc : Option String} {reads reads' : Json → Node → Prop} {ms : Members}
  {fields : List Field}

theorem Composed.mono (h : known'.Extends known) (hreads : ∀ raw n, reads raw n → reads' raw n)
    (hc : Composed known doc reads ms fields) : Composed known' doc reads' ms fields := by
  obtain ⟨m, hm, hfields⟩ := hc
  exact ⟨m, hm.mono h hreads, hfields⟩

/-- **What the last definitions decide**: there is a field for each key that is defined. It has the type of the last
definition of its key, and it is required if that is required or if a schema among the pieces lists the key. -/
theorem Composed.definitions (h : Composed known doc reads ms fields) :
    ∃ defs, List.Forall₂ (Piece.Defines known doc reads) (pieces ms) defs ∧
      (∀ key, (∃ f ∈ fields, f.wireKey = key) ↔ ∃ d ∈ defs.flatten, d.wireKey = key) ∧
      ∀ f ∈ fields, ∃ d : Field, d.IsLast defs.flatten ∧ d.wireKey = f.wireKey ∧ d.type = f.type ∧
        (f.required = true ↔ d.required = true ∨ ∃ own, .own own ∈ pieces ms ∧ f.wireKey ∈ textsOf own "required") := by
  obtain ⟨m, ⟨⟨defs, hdefs, hmerged⟩, hrequired⟩, hsettled⟩ := h
  have hlast : ∀ d : Field, d ∈ m.fields ↔ d.IsLast defs.flatten := by
    intro d
    rw [hmerged, mem_foldl_mergeField_iff]
  refine ⟨defs, hdefs, fun key => ⟨?_, ?_⟩, fun f hf => ?_⟩
  · rintro ⟨f, hf, rfl⟩
    obtain ⟨d, hd, hdemand, -⟩ := exists_left_of_forall₂ hsettled hf
    exact ⟨d, ((hlast d).1 hd).mem, (Prod.mk.inj hdemand).1.symm⟩
  · rintro ⟨g, hg, rfl⟩
    obtain ⟨d, hd, hkey⟩ := Field.exists_isLast hg
    obtain ⟨f, hf, hdemand, -⟩ := exists_right_of_forall₂ hsettled ((hlast d).2 hd)
    exact ⟨f, hf, (Prod.mk.inj hdemand).1.trans hkey⟩
  · obtain ⟨d, hd, hdemand, htype⟩ := exists_left_of_forall₂ hsettled hf
    obtain ⟨hkey, hmust⟩ := Prod.mk.inj hdemand
    refine ⟨d, (hlast d).1 hd, hkey.symm, htype.symm, ?_⟩
    rw [hmust, Bool.or_eq_true, List.contains_iff_mem, hrequired, hkey]

end Composing

/-! ## Properties that stay -/

/-- A piece defines a key. -/
def Piece.Has (known : Known) (doc : Option String) (key : String) : Piece → Prop
  | .referred reference => ∃ k target f, Denotes doc reference k ∧ known k = some target ∧ f ∈ target.fields ∧
      f.wireKey = key
  | .own ms => ∃ schema, (key, schema) ∈ propertiesOf ms

/-- A property of a piece, in a composition where no later definition has its key. -/
def IsLastProperty (known : Known) (doc : Option String) (ms : Members) (key : String) (schema : Json) : Prop :=
  ∃ before own after ps ps', pieces ms = before ++ .own own :: after ∧ propertiesOf own = ps ++ (key, schema) :: ps' ∧
    (∀ p ∈ ps', p.1 ≠ key) ∧ ∀ p ∈ after, ¬ p.Has known doc key

section Properties

variable {known : Known} {doc : Option String} {reads : Json → Node → Prop} {fields : List Field}

/-- The fields of a piece have keys that the piece defines. -/
theorem Piece.Defines.has {p : Piece} (hd : p.Defines known doc reads fields) {f : Field} (hf : f ∈ fields) :
    p.Has known doc f.wireKey := by
  cases p with
  | referred reference =>
    obtain ⟨k, target, hk, hknown, -, rfl⟩ := hd
    exact ⟨k, target, f, hk, hknown, hf, rfl⟩
  | own ms =>
    obtain ⟨e, he, hdemand, -⟩ := exists_left_of_forall₂ hd hf
    obtain ⟨⟨key, schema⟩, hp, rfl⟩ := List.mem_map.1 he
    rw [(Prod.mk.inj hdemand).1]
    exact ⟨schema, hp⟩

/-- **A property stays if it is the last definition of its key**: the type of the field reads its schema. -/
theorem Composed.reads_type {ms : Members} (h : Composed known doc reads ms fields) {f : Field} (hf : f ∈ fields)
    {schema : Json} (hlast : IsLastProperty known doc ms f.wireKey schema) : reads schema f.type := by
  obtain ⟨defs, hdefs, -, hfields⟩ := h.definitions
  obtain ⟨d, hd, hkey, htype, -⟩ := hfields f hf
  obtain ⟨before, own, after, ps, ps', hpieces, hps, hps', hafter⟩ := hlast
  rw [hpieces] at hdefs
  obtain ⟨defs₁, given, defs₂, rfl, hgiven, hdefs₂⟩ := split_of_forall₂ hdefs
  have hgiven : List.Forall₂ (Entry.Gives reads) ((propertiesOf own).map _) given := hgiven
  rw [hps, List.map_append, List.map_cons] at hgiven
  obtain ⟨fs₁, g, fs₂, rfl, ⟨hgdemand, hgreads⟩, hfs₂⟩ := split_of_forall₂ hgiven
  have hgkey : g.wireKey = f.wireKey := (Prod.mk.inj hgdemand).1
  -- neither the rest of the schema nor a later piece defines the key again
  have hg : g.IsLast (defs₁ ++ (fs₁ ++ g :: fs₂) :: defs₂).flatten := by
    refine ⟨defs₁.flatten ++ fs₁, fs₂ ++ defs₂.flatten, by simp, fun k hk => ?_⟩
    rw [hgkey]
    rcases List.mem_append.1 hk with hk | hk
    · obtain ⟨e, he, hdemand, -⟩ := exists_left_of_forall₂ hfs₂ hk
      obtain ⟨p, hp, rfl⟩ := List.mem_map.1 he
      rw [(Prod.mk.inj hdemand).1]
      exact hps' p hp
    · obtain ⟨fields', hfields', hk⟩ := List.mem_flatten.1 hk
      obtain ⟨p, hp, hdefines⟩ := exists_left_of_forall₂ hdefs₂ hfields'
      intro hkey
      exact hafter p hp (hkey ▸ hdefines.has hk)
  rw [← htype, hd.unique hg (hkey.trans hgkey.symm)]
  exact hgreads

end Properties

end ApiForge.Schema
