import ApiForge.Operation.Resolve
import ApiForge.Proofs.Naming.Legal
import ApiForge.Proofs.Schema.Session
import ApiForge.Proofs.Schema.Within

/-!
# How types and fields are spelled

The names of fields come from wire keys, and keys that differ may have one identifier; then a number makes the later one
new. Whatever the keys are, the fields of a record get names that the generated language accepts, and that differ also
without their raw marks. Type names are put together from keys, words and numbers.

* `uniqueIdent_spec`: the identifier that is given out names a field and is new.
* `WellNamed fields`: what this gives for the fields of a record; `Node.Spelled` says it of all records in a node.
* `NameClass N`: the type names that a resolver gives out have the property `N`.
* `Spells N m P`: `m` keeps states in which type names have the property and nodes are spelled, whether or not it fails,
  and its results satisfy `P`. Each function of the resolver has a lemma of this kind, up to `build_spells`.
* `Session.spelled`: all answers of a session are spelled.
* `RawOperation.resolve_spells`: resolving an operation keeps states spelled.
-/

namespace ApiForge.Schema

open Json Naming Text

/-! ## Identifiers of fields -/

section Identifiers

variable {ident : String} {taken : List String}

theorem dropRawMarks_of_not_marked {cs : List Char} (h : ∀ rest, cs ≠ 'r' :: '#' :: rest) : dropRawMarks cs = cs := by
  rw [dropRawMarks.eq_def]
  split
  · rename_i rest
    exact absurd rfl (h rest)
  · rfl

/-- Removing all raw marks removes the one that there is. -/
theorem dropRawMarks_eq (h : IsFieldName ident) :
    String.ofList (dropRawMarks ident.toList) = withoutMark ident := by
  have hword := h.isWord
  rcases h.cases with ⟨-, hsame⟩ | ⟨hmark, -⟩
  · rw [hsame] at hword ⊢
    rw [dropRawMarks_of_not_marked hword.not_marked, String.ofList_toList]
  · have hcs : ident.toList = 'r' :: '#' :: (withoutMark ident).toList := by
      conv_lhs => rw [hmark, String.toList_append]
      rfl
    rw [hcs, dropRawMarks, dropRawMarks_of_not_marked hword.not_marked, String.ofList_toList]

/-- **The identifier that is given out** names a field and is new. -/
theorem uniqueIdent_spec (taken : List String) (h : IsFieldName ident) :
    IsFieldName (uniqueIdent taken ident) ∧ uniqueIdent taken ident ∉ taken := by
  unfold uniqueIdent
  split
  · -- The candidates are those of an allocator, so one of them is new.
    rename_i htaken
    rw [dropRawMarks_eq h]
    have hcandidates : (List.range (taken.length + 1)).map (fun i => s!"{withoutMark ident}_{i + 2}") =
        Allocator.candidates ⟨taken⟩ (withoutMark ident ++ "_") := rfl
    dsimp only
    rw [hcandidates]
    cases hfind : (Allocator.candidates ⟨taken⟩ (withoutMark ident ++ "_")).find? (!taken.contains ·) with
    | none =>
      obtain ⟨c, hc, hnew⟩ := Allocator.exists_candidate ⟨taken⟩ (withoutMark ident ++ "_")
      exact absurd (List.find?_eq_none.1 hfind c hc) (by simpa [Allocator.isTaken] using hnew)
    | some candidate =>
      obtain ⟨i, -, rfl⟩ := List.mem_map.1 (List.mem_of_find?_eq_some hfind)
      refine ⟨.plain ((h.isWord.append (by decide)).number (i + 2)), ?_⟩
      simpa using List.find?_some hfind
  · rename_i hnew
    exact ⟨h, by simpa using hnew⟩

end Identifiers

/-- The fields of a record have names that the language accepts, and no name twice. -/
structure WellNamed (fields : List Field) : Prop where
  legal : ∀ f ∈ fields, IsFieldName f.name
  distinct : (fields.map (·.name)).Nodup

/-- The names of the fields of a record differ also without raw marks. -/
theorem WellNamed.withoutMark_nodup {fields : List Field} (h : WellNamed fields) :
    (fields.map fun f => withoutMark f.name).Nodup := by
  have hmap : (fields.map (·.name)).map withoutMark = fields.map fun f => withoutMark f.name := List.map_map
  rw [← hmap]
  refine h.distinct.map_on fun a ha b hb hab => ?_
  obtain ⟨f, hf, rfl⟩ := List.mem_map.1 ha
  obtain ⟨g, hg, rfl⟩ := List.mem_map.1 hb
  exact (h.legal f hf).withoutMark_inj (h.legal g hg) hab

/-- All records in a node are well named. -/
def Node.Spelled (n : Node) : Prop := ∀ a : Node, a.PartOf n → ∀ fields, a.kind = .object fields → WellNamed fields

section Nodes

variable {n : Node}

theorem Node.spelled_iff : n.Spelled ↔
    (∀ m ∈ n.kind.parts, m.Spelled) ∧ ∀ fields, n.kind = .object fields → WellNamed fields := by
  constructor
  · exact fun h => ⟨fun m hm a ha => h a (Node.partOf_iff.2 (.inr ⟨m, hm, ha⟩)), h n .self⟩
  · rintro ⟨hparts, hself⟩ a ha
    rcases Node.partOf_iff.1 ha with rfl | ⟨m, hm, ha⟩
    · exact hself
    · exact hparts m hm a ha

theorem Node.Spelled.part {a : Node} (h : n.Spelled) (ha : a.PartOf n) : a.Spelled := fun b hb => h b (hb.trans ha)

/-- Only the shape of a node counts. -/
theorem Node.Spelled.of_kind {n' : Node} (h : n.Spelled) (hkind : n'.kind = n.kind) : n'.Spelled := by
  rw [Node.spelled_iff, hkind]
  exact Node.spelled_iff.1 h

/-- A node that is no record is spelled if the nodes in it are. -/
theorem Node.spelled_of_parts {k : Kind} (hk : n.kind = k) (hparts : ∀ m ∈ k.parts, m.Spelled)
    (hrecord : ∀ fields, k ≠ .object fields) : n.Spelled := by
  subst hk
  exact Node.spelled_iff.2 ⟨hparts, fun fields hobject => absurd hobject (hrecord fields)⟩

theorem Node.spelled_recordNode {fields : List Field} (hfields : ∀ f ∈ fields, f.type.Spelled) (h : WellNamed fields)
    (name : String) (nullable : Bool) (description : Option String) :
    (recordNode name fields nullable description).Spelled := by
  refine Node.spelled_iff.2 ⟨fun m hm => ?_, fun fields' hk => ?_⟩
  · obtain ⟨f, hf, rfl⟩ := List.mem_map.1 hm
    exact hfields f hf
  · cases hk
    exact h

/-- The fields of a record, also of one that is referred to. -/
theorem Node.Spelled.fields (h : n.Spelled) : (∀ f ∈ n.fields, f.type.Spelled) ∧ WellNamed n.fields := by
  have htarget := h.part n.target_partOf
  unfold Node.fields
  split
  · rename_i fields hk
    exact ⟨fun f hf => htarget.part (.field hk hf .self), htarget _ .self fields hk⟩
  · exact ⟨nofun, nofun, List.nodup_nil⟩

end Nodes

/-! ## Names of types -/

/-- A property that the names of types have, however they are put together. -/
structure NameClass (N : String → Prop) : Prop where
  pascal : ∀ key, N (pascalCase key)
  append : ∀ name suffix, N name → Wordy suffix → N (name ++ suffix)

/-- Type names are words, if they are put together from words. -/
theorem nameClass_isWord : NameClass IsWord := ⟨isWord_pascalCase, fun _ _ h hsuffix => h.append hsuffix⟩

theorem nameClass_true : NameClass fun _ => True := ⟨fun _ => trivial, fun _ _ _ _ => trivial⟩

section Classes

variable {N : String → Prop} {name : String}

theorem NameClass.key (hN : NameClass N) (h : N name) (key : String) : N (name ++ pascalCase key) :=
  hN.append name _ h (isWord_pascalCase key).chars

theorem NameClass.fresh (hN : NameClass N) (h : N name) (names : Allocator) : N (names.fresh name) := by
  rcases names.fresh_cases name with hf | ⟨n, hf⟩
  · rwa [hf]
  · rw [hf]
    exact hN.append name _ h (wordy_toString _)

end Classes

/-- Type names have a property, and the nodes that are kept are spelled; those of named schemas have declarations. -/
structure State.Spelled (N : String → Prop) (s : State) : Prop where
  taken : ∀ name ∈ s.names.taken, N name
  components : ∀ k name, (k, name) ∈ s.components → N name
  resolved : ∀ k n, (k, n) ∈ s.resolved → n.Spelled ∧ n.declared = true
  declared : ∀ n, some n ∈ s.declared → n.Spelled

/-- A computation that keeps states spelled, with results that satisfy `P` if it succeeds. -/
def Spells {α : Type} (N : String → Prop) (m : Resolve α) (P : α → Prop) : Prop :=
  ∀ s : State, s.Spelled N → Ends m s (fun a s' => s'.Spelled N ∧ P a) fun _ s' => s'.Spelled N

section Spells

variable {α β : Type} {N : String → Prop} {m : Resolve α} {f : α → Resolve β} {P P' : α → Prop} {Q : β → Prop}

theorem Spells.pure {a : α} (h : P a) : Spells N (pure a) P := fun _ hs => ends_pure.2 ⟨hs, h⟩

theorem Spells.get : Spells N (get : Resolve State) (State.Spelled N) := fun _ hs => ends_get.2 ⟨hs, hs⟩

theorem Spells.throw {e : CompileError} : Spells N (throw e : Resolve α) P := fun _ hs => ends_throw.2 hs

theorem Spells.bind (h : Spells N m P) (hf : ∀ a, P a → Spells N (f a) Q) : Spells N (m >>= f) Q :=
  fun s hs => (h s hs).bind fun a s₁ ⟨hs₁, ha⟩ => hf a ha s₁ hs₁

theorem Spells.imp (h : Spells N m P) (hP : ∀ a, P a → P' a) : Spells N m P' := fun s hs =>
  (h s hs).mono (fun a _ ⟨hs', ha⟩ => ⟨hs', hP a ha⟩) fun _ _ h => h

theorem Spells.map {g : α → β} (h : Spells N m P) (hg : ∀ a, P a → Q (g a)) : Spells N (g <$> m) Q := by
  rw [← bind_pure_comp]
  exact h.bind fun a ha => .pure (hg a ha)

/-- A change of the declared nodes or the rules only. -/
theorem Spells.modifyGet {g : State → α × State} (hg : ∀ s, (g s).2.names = s.names ∧
    (g s).2.components = s.components ∧ (g s).2.resolved = s.resolved ∧
    ((∀ n, some n ∈ s.declared → n.Spelled) → ∀ n, some n ∈ (g s).2.declared → n.Spelled)) :
    Spells N (modifyGet g) fun _ => True := by
  intro s hs
  obtain ⟨hnames, hcomponents, hresolved, hdeclared⟩ := hg s
  exact ends_modifyGet.2 ⟨⟨by rw [hnames]; exact hs.taken, by rw [hcomponents]; exact hs.components,
    by rw [hresolved]; exact hs.resolved, hdeclared hs.declared⟩, trivial⟩

theorem openSlot_spells : Spells N openSlot fun _ => True := by
  refine .modifyGet fun s => ⟨rfl, rfl, rfl, fun hs n hn => ?_⟩
  rcases Array.mem_push.1 hn with hn | hn
  · exact hs n hn
  · cases hn

theorem fillSlot_spells (slot : Nat) {n : Node} (h : n.Spelled) : Spells N (fillSlot slot n) fun _ => True := by
  refine .modifyGet fun s => ⟨rfl, rfl, rfl, fun hs n' hn' => ?_⟩
  rcases Array.mem_or_eq_of_mem_setIfInBounds hn' with hn' | hn'
  · exact hs n' hn'
  · exact Option.some.inj hn' ▸ h

theorem openSlotIf_spells (wanted : Bool) : Spells N (openSlotIf wanted) fun _ => True := by
  cases wanted with
  | false => exact .pure trivial
  | true => exact openSlot_spells.map fun _ h => h

theorem fillSlotIf_spells (slot : Option Nat) {n : Node} (h : n.Spelled) :
    Spells N (fillSlotIf slot n) fun _ => True := by
  cases slot with
  | none => exact .pure trivial
  | some slot => exact fillSlot_spells slot h

theorem declareNode_spells {n : Node} (h : n.Spelled) : Spells N (declareNode n) fun n' => n' = n :=
  (openSlotIf_spells _).bind fun _ _ => (fillSlotIf_spells _ h).bind fun _ _ => .pure rfl

theorem rulesOf_spells (n : Node) (required : Bool) : Spells N (rulesOf n required) fun _ => True :=
  .modifyGet fun _ => ⟨rfl, rfl, rfl, fun hs => hs⟩

theorem makeNullable_spells {n : Node} (h : n.Spelled) :
    Spells N (makeNullable n) fun n' => n' = { n with nullable := true } := by
  have hn : Node.Spelled { n with nullable := true } := h.of_kind rfl
  refine Spells.bind (P := fun _ => True) (.modifyGet fun s => ⟨rfl, rfl, rfl, fun hs n' hn' => ?_⟩)
    fun _ _ => .pure rfl
  dsimp only at hn'
  split at hn'
  · unfold replaceDeclared at hn'
    split at hn'
    · rcases Array.mem_or_eq_of_mem_setIfInBounds hn' with hn' | hn'
      · exact hs n' hn'
      · exact Option.some.inj hn' ▸ hn
    · exact hs n' hn'
  · exact hs n' hn'

theorem allocateName_spells (hN : NameClass N) {hint : String} (h : N hint) : Spells N (allocateName hint) N :=
  fun s hs => ends_modifyGet.2 ⟨⟨List.forall_mem_cons.2 ⟨hN.fresh h s.names, hs.taken⟩, hs.components, hs.resolved,
    hs.declared⟩, hN.fresh h s.names⟩

/-- The name of a declaration in its place. -/
theorem declaredName_spells (hN : NameClass N) {c : Context} (h : N (labelOf c)) : Spells N (declaredName c) N := by
  unfold labelOf at h
  unfold declaredName
  cases hc : c.component with
  | some name =>
    rw [hc] at h
    exact .pure h
  | none =>
    rw [hc] at h
    exact allocateName_spells hN h

theorem constraintsAt_spells (ms : Members) (c : Context) : Spells N (constraintsAt ms c) fun _ => True := by
  unfold constraintsAt
  cases constraintsOf ms c with
  | ok constraints => exact .pure trivial
  | error e => exact .throw

end Spells

/-! ## Nodes -/

/-- A spelled node in its place: a named schema has a declaration. -/
structure Node.SpelledAt (c : Context) (n : Node) : Prop where
  spelled : n.Spelled
  declared : c.component.isSome = true → n.declared = true

/-- A builder that keeps states spelled, under names with the property. -/
def SpellBuild (N : String → Prop) (build : Build) : Prop :=
  ∀ raw c, N (labelOf c) → Spells N (build raw c) (Node.SpelledAt c)

section Builds

variable {N : String → Prop} {env : Env} {build : Build} {c : Context} {ms : Members}

theorem scalarNode_spells (c : Context) (kind : ScalarKind) (nullable : Bool) (ms : Members) :
    Spells N (scalarNode c kind nullable ms) (Node.SpelledAt c) :=
  have hnode {node : Node} (hk : node.kind = .scalar kind) : node.Spelled :=
    Node.spelled_of_parts hk (List.forall_mem_nil _) fun _ => nofun
  (constraintsAt_spells ms c).bind fun _ _ => (declareNode_spells (hnode rfl)).imp fun _ hn =>
    hn ▸ ⟨hnode rfl, fun hc => hc⟩

theorem enumNode_spells (hN : NameClass N) (h : N (labelOf c)) (members : List Json) (nullable : Bool) :
    Spells N (enumNode ms members nullable c) (Node.SpelledAt c) := by
  have hnode {node : Node} {texts : List String} (hk : node.kind = .enumeration texts) : node.Spelled :=
    Node.spelled_of_parts hk (List.forall_mem_nil _) fun _ => nofun
  unfold enumNode
  split
  · exact .throw
  · exact .throw
  · refine (declaredName_spells hN h).bind fun name _ => ?_
    refine openSlot_spells.bind fun slot _ => ?_
    refine (constraintsAt_spells ms c).bind fun constraints _ => ?_
    exact (fillSlot_spells slot (hnode rfl)).bind fun _ _ => .pure ⟨hnode rfl, fun _ => rfl⟩

variable (hN : NameClass N) (hb : SpellBuild N build)

include hN hb

theorem arrayNode_spells (h : N (labelOf c)) (nullable : Bool) :
    Spells N (arrayNode build ms nullable c) (Node.SpelledAt c) := by
  have helement : Spells N (elementNode build ms (c.child (labelOf c ++ "Item"))) Node.Spelled := by
    unfold elementNode
    split
    · exact (hb _ _ (hN.append _ _ h (by decide))).imp fun _ hn => hn.spelled
    · exact (scalarNode_spells _ .any false []).imp fun _ hn => hn.spelled
  refine (openSlotIf_spells c.component.isSome).bind fun slot _ => ?_
  refine helement.bind fun element helement => ?_
  refine (constraintsAt_spells ms c).bind fun constraints _ => ?_
  have hnode {node : Node} (hk : node.kind = .array element) : node.Spelled :=
    Node.spelled_of_parts hk (List.forall_mem_singleton.2 helement) fun _ => nofun
  exact (fillSlotIf_spells slot (hnode rfl)).bind fun _ _ => .pure ⟨hnode rfl, fun hc => hc⟩

/-- Fields with spelled types, whose names are new and all different. -/
structure SpelledFields (taken : List String) (fields : List Field) : Prop where
  types : ∀ f ∈ fields, f.type.Spelled
  named : WellNamed fields
  fresh : ∀ f ∈ fields, f.name ∉ taken

omit hN hb in
theorem SpelledFields.nil (taken : List String) : SpelledFields taken [] :=
  ⟨nofun, ⟨nofun, List.nodup_nil⟩, nofun⟩

omit hN hb in
theorem SpelledFields.cons {taken : List String} {f : Field} {fields : List Field} (htype : f.type.Spelled)
    (hlegal : IsFieldName f.name) (hnew : f.name ∉ taken) (h : SpelledFields (f.name :: taken) fields) :
    SpelledFields taken (f :: fields) where
  types := List.forall_mem_cons.2 ⟨htype, h.types⟩
  named := by
    refine ⟨List.forall_mem_cons.2 ⟨hlegal, h.named.legal⟩, List.nodup_cons.2 ⟨fun hmem => ?_, h.named.distinct⟩⟩
    obtain ⟨g, hg, hname⟩ := List.mem_map.1 hmem
    exact h.fresh g hg (hname ▸ List.mem_cons_self)
  fresh := List.forall_mem_cons.2 ⟨hnew, fun g hg hmem => h.fresh g hg (List.mem_cons_of_mem _ hmem)⟩

omit hN in
theorem buildFields_spells {ownerName : String} (hN : NameClass N) (h : N ownerName) (c : Context) :
    ∀ (entries : List Entry) (taken : List String),
      Spells N (buildFields build ownerName c taken entries) (SpelledFields taken)
  | [], taken => .pure (.nil taken)
  | e :: es, taken => by
    obtain ⟨hlegal, hnew⟩ := uniqueIdent_spec taken (isFieldName_fieldIdent e.key)
    refine (hb e.schema (c.child (ownerName ++ pascalCase e.key)) (hN.key h e.key)).bind fun type htype => ?_
    refine (rulesOf_spells type e.required).bind fun rules _ => ?_
    exact (buildFields_spells hN h c es _).bind fun fields hfields =>
      .pure (hfields.cons htype.spelled hlegal hnew)

theorem objectNode_spells (h : N (labelOf c)) (nullable : Bool) :
    Spells N (objectNode build ms nullable c) (Node.SpelledAt c) := by
  refine (declaredName_spells hN h).bind fun name hname => ?_
  refine openSlot_spells.bind fun slot _ => ?_
  refine (buildFields_spells hb hN hname c _ []).bind fun fields hfields => ?_
  have hnode := Node.spelled_recordNode hfields.types hfields.named name nullable (textOf ms "description")
  exact (fillSlot_spells slot hnode).bind fun _ _ => .pure ⟨hnode, fun _ => rfl⟩

/-! ## Named schemas -/

omit hb in
theorem componentName_spells (k : RefKey) : Spells N (componentName k) N := by
  intro s hs
  refine ends_bind.2 (ends_get.2 ?_)
  cases hfind : s.components.find? (·.1 == k) with
  | some entry => exact ends_pure.2 ⟨hs, hs.components entry.1 entry.2 (List.mem_of_find?_eq_some hfind)⟩
  | none =>
    refine (allocateName_spells hN (hN.pascal k.name) s hs).bind fun name s₁ ⟨hs₁, hname⟩ => ?_
    refine ends_bind.2 (ends_modify.2 (ends_pure.2 ⟨⟨hs₁.taken, fun k' name' hmem => ?_, hs₁.resolved, hs₁.declared⟩,
      hname⟩))
    rcases List.mem_cons.1 hmem with h | h
    · cases h
      exact hname
    · exact hs₁.components k' name' h

theorem buildKey_spells (k : RefKey) (raw : Json) (stack : List RefKey) :
    Spells N (buildKey env build k raw stack) fun n => n.Spelled ∧ n.declared = true := by
  refine (componentName_spells hN k).bind fun name hname => ?_
  refine (hb raw (.ofKey env k name stack) hname).bind fun n hn s hs => ?_
  refine ends_bind.2 (ends_modify.2 (ends_pure.2 ⟨⟨hs.taken, hs.components, fun k' n' hmem => ?_, hs.declared⟩,
    hn.spelled, hn.declared rfl⟩))
  rcases List.mem_cons.1 hmem with h | h
  · cases h
    exact ⟨hn.spelled, hn.declared rfl⟩
  · exact hs.resolved k' n' h

theorem resolveKey_spells (k : RefKey) (owner reference : String) (stack : List RefKey) :
    Spells N (resolveKey env build k owner reference stack) fun n => n.Spelled ∧ n.declared = true := by
  intro s hs
  refine ends_bind.2 (ends_get.2 ?_)
  split
  · rename_i k' n hfind
    exact ends_pure.2 ⟨hs, hs.resolved k' n (List.mem_of_find?_eq_some hfind)⟩
  · split
    · exact ends_throw.2 hs
    · split
      · exact ends_throw.2 hs
      · exact buildKey_spells hN hb k _ stack s hs

theorem resolveRef_spells (reference : String) (c : Context) :
    Spells N (resolveRef env build reference c) Node.Spelled := by
  unfold resolveRef
  split
  · exact .throw
  · exact (resolveKey_spells hN hb _ _ _ _).imp fun _ hn => hn.1

/-! ## Compositions -/

/-- Collected fields have spelled types and names that the language accepts; two of them may still have one name. -/
def Merged.Spelled (m : Merged) : Prop := ∀ f ∈ m.fields, f.type.Spelled ∧ IsFieldName f.name

omit hN hb in
theorem Merged.Spelled.merge {m : Merged} (h : m.Spelled) {fields : List Field}
    (hfields : ∀ f ∈ fields, f.type.Spelled ∧ IsFieldName f.name) : (m.merge fields).Spelled := by
  have hfold : ∀ (fields acc : List Field), (∀ f ∈ fields, f.type.Spelled ∧ IsFieldName f.name) →
      (∀ f ∈ acc, f.type.Spelled ∧ IsFieldName f.name) →
      ∀ f ∈ fields.foldl mergeField acc, f.type.Spelled ∧ IsFieldName f.name := by
    intro fields
    induction fields with
    | nil => exact fun acc _ hacc => hacc
    | cons f fields ih =>
      intro acc hfields hacc
      obtain ⟨hf, hfields⟩ := List.forall_mem_cons.1 hfields
      refine ih _ hfields fun g hg => ?_
      unfold mergeField at hg
      split at hg
      · obtain ⟨g', hg', rfl⟩ := List.mem_map.1 hg
        split
        · exact hf
        · exact hacc g' hg'
      · rcases List.mem_append.1 hg with hg | hg
        · exact hacc g hg
        · exact List.mem_singleton.1 hg ▸ hf
  exact hfold fields m.fields hfields h

theorem mergeMember_spells {inline : Members → Merged → Resolve Merged} {m : Merged} (hm : m.Spelled)
    (hi : Spells N (inline ms m) Merged.Spelled) (c : Context) :
    Spells N (mergeMember env build inline c ms m) Merged.Spelled := by
  unfold mergeMember
  split
  · refine Spells.map (P := fun fields : List Field => ∀ f ∈ fields, f.type.Spelled ∧ IsFieldName f.name)
      ((resolveRef_spells hN hb _ c).bind fun target htarget => ?_) fun fields hfields => hm.merge hfields
    split
    · exact .pure fun f hf => ⟨htarget.fields.1 f hf, htarget.fields.2.legal f hf⟩
    · exact .throw
  · exact hi

theorem mergeMembers_spells {inline : Members → Merged → Resolve Merged} (c : Context)
    (hi : ∀ ms m, m.Spelled → Spells N (inline ms m) Merged.Spelled) : ∀ (members : List Json) (m : Merged),
    m.Spelled → Spells N (mergeMembers env build inline c members m) Merged.Spelled
  | [], _, hm => .pure hm
  | .obj ms :: rest, m, hm =>
    (mergeMember_spells hN hb hm (hi ms m hm) c).bind fun m₁ hm₁ => mergeMembers_spells c hi rest m₁ hm₁
  | .null :: _, _, _ | .bool _ :: _, _, _ | .num _ :: _, _, _ | .str _ :: _, _, _ | .arr _ :: _, _, _ => .throw

/-- Collecting a composition, by induction on the levels within one another. -/
theorem mergeAllOf_spells {ownerName : String} (h : N ownerName) (c : Context) : ∀ (levels : Nat) (ms : Members)
    (m : Merged), m.Spelled → Spells N (mergeAllOf env build ownerName c levels ms m) Merged.Spelled
  | 0, _, _, hm => .pure hm
  | levels + 1, ms, m, hm => by
    have hmembers : Spells N (mergeList env build (mergeAllOf env build ownerName c levels) c (ms.get? "allOf") m)
        Merged.Spelled := by
      unfold mergeList
      split
      · exact .pure hm
      · exact mergeMembers_spells hN hb c (mergeAllOf_spells h c levels) _ _ hm
      · exact .throw
    refine hmembers.bind fun m₁ hm₁ => ?_
    unfold mergeOwn
    split
    · refine (buildFields_spells hb hN h c _ []).bind fun fields hfields => .pure ?_
      exact Merged.Spelled.merge hm₁ fun f hf => ⟨hfields.types f hf, hfields.named.legal f hf⟩
    · exact .throw

omit hN hb in
/-- Settling the fields gives them names of their own. -/
theorem settleFields_spells (c : Context) (required : List String) : ∀ (fields : List Field) (taken : List String),
    (∀ f ∈ fields, f.type.Spelled ∧ IsFieldName f.name) →
      Spells N (settleFields c required taken fields) (SpelledFields taken)
  | [], taken, _ => .pure (.nil taken)
  | f :: fs, taken, h => by
    obtain ⟨⟨htype, hname⟩, hfs⟩ := List.forall_mem_cons.1 h
    obtain ⟨hlegal, hnew⟩ := uniqueIdent_spec taken hname
    have hrules : ∀ must, Spells N (settledRules f must) fun _ => True := fun must => by
      unfold settledRules
      split
      · exact rulesOf_spells _ _
      · exact .pure trivial
    refine (hrules _).bind fun rules _ => ?_
    exact (settleFields_spells c required fs _ hfs).bind fun fields hfields => .pure (hfields.cons htype hlegal hnew)

theorem allOfNode_spells (h : N (labelOf c)) : Spells N (allOfNode env build ms c) (Node.SpelledAt c) := by
  refine (declaredName_spells hN h).bind fun name hname => ?_
  refine openSlot_spells.bind fun slot _ => ?_
  refine (mergeAllOf_spells hN hb hname c _ ms {} nofun).bind fun merged hmerged => ?_
  refine (settleFields_spells c merged.required merged.fields [] hmerged).bind fun fields hfields => ?_
  have hnode := Node.spelled_recordNode hfields.types hfields.named name (flag ms "nullable") (textOf ms "description")
  exact (fillSlot_spells slot hnode).bind fun _ _ => .pure ⟨hnode, fun _ => rfl⟩

/-! ## Schemas -/

omit hN in
theorem unionNode_spells (h : N (labelOf c)) (members : Json) :
    Spells N (unionNode build members c) (Node.SpelledAt c) := by
  unfold unionNode
  split
  · exact .throw
  · split
    · refine (hb _ c h).bind fun n hn => ?_
      split
      · exact .pure hn
      · exact (makeNullable_spells hn.spelled).imp fun _ hn' => hn' ▸ ⟨hn.spelled.of_kind rfl, hn.declared⟩
    · exact .throw

theorem typedNode_spells (h : N (labelOf c)) : Spells N (typedNode build ms c) (Node.SpelledAt c) := by
  unfold typedNode
  split
  · exact .throw
  · dsimp only
    split
    · exact objectNode_spells hN hb h _
    · exact arrayNode_spells hN hb h _
    · split
      · exact enumNode_spells hN h _ _
      · exact scalarNode_spells c _ _ ms
    · exact scalarNode_spells c .integer _ ms
    · exact scalarNode_spells c .number _ ms
    · exact scalarNode_spells c .boolean _ ms
    · exact scalarNode_spells c .any _ ms
    · exact .throw

theorem formNode_spells (h : N (labelOf c)) : Spells N (formNode env build ms c) (Node.SpelledAt c) := by
  unfold formNode
  split
  · refine (resolveRef_spells hN hb _ c).bind fun target htarget => ?_
    have hnode {node : Node} (hk : node.kind = .reference target) : node.Spelled :=
      Node.spelled_of_parts hk (List.forall_mem_singleton.2 htarget) fun _ => nofun
    exact (declareNode_spells (hnode rfl)).imp fun _ hn => hn ▸ ⟨hnode rfl, fun hc => hc⟩
  · split
    · exact allOfNode_spells hN hb h
    · split
      · exact unionNode_spells hb h _
      · exact typedNode_spells hN hb h

theorem buildStep_spells : SpellBuild N (buildStep env build) := by
  intro raw c h
  match raw with
  | .obj ms => exact formNode_spells hN hb h
  | .bool true => exact scalarNode_spells c .any false []
  | .bool false | .null | .num _ | .str _ | .arr _ => exact .throw

omit hb in
/-- **Builds keep states spelled.** -/
theorem build_spells : ∀ steps, SpellBuild N (Schema.build env steps)
  | 0 => fun _ _ _ => .throw
  | steps + 1 => buildStep_spells hN (build_spells steps)

end Builds

/-! ## Questions -/

section Questions

variable {N : String → Prop} {env : Env} (hN : NameClass N)

include hN

theorem spelled_initial : (State.initial env).Spelled N := by
  refine List.foldlRecOn env.rootKeys State.reserve ⟨nofun, nofun, nofun, by simp⟩ fun s hs key _ => ?_
  have hname : N (s.names.fresh (pascalCase key)) := hN.fresh (hN.pascal key) s.names
  refine ⟨List.forall_mem_cons.2 ⟨hname, hs.taken⟩, fun k name hmem => ?_, hs.resolved, hs.declared⟩
  rcases List.mem_append.1 hmem with hmem | hmem
  · exact hs.components k name hmem
  · cases List.mem_singleton.1 hmem
    exact hname

theorem resolveKeys_spells (steps : Nat) : ∀ keys : List String,
    Spells N (resolveKeys env (Schema.build env steps) keys) fun entries =>
      ∀ e ∈ entries, e.2.Spelled ∧ e.2.declared = true
  | [] => .pure nofun
  | key :: keys => (resolveKey_spells hN (build_spells hN steps) ⟨none, key⟩ _ _ []).bind fun _ hn =>
    (resolveKeys_spells steps keys).bind fun _ hentries => .pure (List.forall_mem_cons.2 ⟨hn, hentries⟩)

theorem resolveInline_spells (raw : Json) {hint : String} (h : N hint) (owner : String) :
    Spells N (resolveInline env raw hint owner) Node.Spelled :=
  (build_spells hN _ raw ⟨none, owner, hint, none, env.presence, []⟩ h).imp fun _ hn => hn.spelled

theorem synthesizeObject_spells {hint : String} (h : N hint) (members : List Member) (presence : Presence)
    (owner : String) : Spells N (synthesizeObject env hint members presence owner) Node.Spelled := by
  refine (allocateName_spells hN h).bind fun name hname => ?_
  refine openSlot_spells.bind fun slot _ => ?_
  refine (buildFields_spells (build_spells hN _) hN hname _ _ []).bind fun fields hfields => ?_
  have hnode := Node.spelled_recordNode hfields.types hfields.named name false none
  exact (fillSlot_spells slot hnode).bind fun _ _ => .pure hnode

end Questions

section Sessions

variable {env : Env} {s : State} {nodes : List Node}

/-- Every question keeps nodes spelled, whatever names are asked for. -/
theorem Query.answer_spells (q : Query) :
    Spells (fun _ => True) (q.answer env) fun new => ∀ n ∈ new, n.Spelled := by
  cases q with
  | components =>
    refine (resolveKeys_spells nameClass_true _ _).bind fun entries hentries => .pure fun n hn => ?_
    obtain ⟨e, he, rfl⟩ := List.mem_map.1 hn
    exact (hentries e he).1
  | inline raw hint owner =>
    exact (resolveInline_spells nameClass_true raw trivial owner).bind fun n hn => .pure (by simpa using hn)
  | synthesize hint members presence owner =>
    exact (synthesizeObject_spells nameClass_true trivial members presence owner).bind fun n hn =>
      .pure (by simpa using hn)
  | declarations mark =>
    refine fun s hs => ⟨hs, fun n hn => ?_⟩
    obtain ⟨o, ho, rfl⟩ := List.mem_filterMap.1 hn
    exact hs.declared n (Array.mem_toList_iff.1 (List.mem_of_mem_drop ho))
  | allocate name => exact (allocateName_spells nameClass_true trivial).bind fun _ _ => .pure nofun
  | reserve name =>
    exact fun s hs => ⟨⟨fun _ _ => trivial, fun _ _ _ => trivial, hs.resolved, hs.declared⟩, nofun⟩

/-- **All answers of a session are spelled.** -/
theorem Session.spelled (h : Session env s nodes) : s.Spelled (fun _ => True) ∧ ∀ n ∈ nodes, n.Spelled := by
  induction h with
  | start => exact ⟨spelled_initial nameClass_true, nofun⟩
  | answered q _ hrun ih =>
    obtain ⟨hs, hnew⟩ := (q.answer_spells _ ih.1).of_ok hrun
    exact ⟨hs, List.forall_mem_append.2 ⟨ih.2, hnew⟩⟩
  | refused q _ hrun ih => exact ⟨(q.answer_spells _ ih.1).of_error hrun, ih.2⟩
  | compiled _ _ _ _ ih | collected _ _ _ ih =>
    exact ⟨⟨ih.1.taken, ih.1.components, ih.1.resolved, ih.1.declared⟩, ih.2⟩

end Sessions

end ApiForge.Schema

/-! ## Operations -/

namespace ApiForge.RawOperation

open Naming Schema

variable {N : String → Prop} {env : Env} (hN : NameClass N)

include hN

theorem resolvePart_spells (op : RawOperation) {base : String} (h : N base) (owner : String) (location : Location) :
    Spells N (op.resolvePart env base owner location) fun _ => True := by
  have hending : Wordy location.typeEnding := by cases location <;> decide
  unfold resolvePart
  dsimp only
  split
  · exact .pure trivial
  · exact (synthesizeObject_spells hN (hN.append _ _ h hending) _ _ _).bind fun _ _ => .pure trivial

theorem resolveBody_spells {base : String} (h : N base) (owner : String) : ∀ body : Option RawBody,
    Spells N (resolveBody env base owner body) fun _ => True
  | none => .pure trivial
  | some body => (resolveInline_spells hN _ (hN.append _ "Body" h (by decide)) owner).bind fun n _ =>
    (rulesOf_spells n body.required).bind fun _ _ => .pure trivial

theorem resolveResponse_spells {base : String} (h : N base) (owner : String) (r : RawResponse) :
    Spells N (resolveResponse env base owner r) fun _ => True := by
  have hstatus : N (base ++ toString r.status) := hN.append _ _ h (wordy_toString _)
  have hpayload : Spells N (resolvePayload env base owner r) fun _ => True := by
    unfold resolvePayload
    split
    · exact .pure trivial
    · exact (resolveInline_spells hN _ (hN.append _ "Body" hstatus (by decide)) owner).map fun _ _ => trivial
  have hheaders : Spells N (resolveHeaders env base owner r) fun _ => True := by
    unfold resolveHeaders
    split
    · exact .pure trivial
    · exact (synthesizeObject_spells hN (hN.append _ "Headers" hstatus (by decide)) _ _ _).map fun _ _ => trivial
  exact hpayload.bind fun _ _ => hheaders.bind fun _ _ => .pure trivial

theorem resolveResponses_spells {base : String} (h : N base) (owner : String) : ∀ rs : List RawResponse,
    Spells N (resolveResponses env base owner rs) fun _ => True
  | [] => .pure trivial
  | r :: rs => (resolveResponse_spells hN h owner r).bind fun _ _ =>
    (resolveResponses_spells h owner rs).bind fun _ _ => .pure trivial

/-- **Resolving an operation** keeps states spelled, whatever its parameters and headers are called. -/
theorem resolve_spells (op : RawOperation) : Spells N (op.resolve env) fun _ => True := by
  have hbase : N (pascalCase op.operationId) := hN.pascal _
  refine (resolvePart_spells hN op hbase _ .path).bind fun path _ => ?_
  refine (resolvePart_spells hN op hbase _ .query).bind fun query _ => ?_
  refine (resolvePart_spells hN op hbase _ .header).bind fun headers _ => ?_
  refine (resolvePart_spells hN op hbase _ .cookie).bind fun cookies _ => ?_
  refine (resolveBody_spells hN hbase _ op.requestBody).bind fun body _ => ?_
  exact (resolveResponses_spells hN hbase _ op.responses).bind fun responses _ => .pure trivial

end ApiForge.RawOperation
