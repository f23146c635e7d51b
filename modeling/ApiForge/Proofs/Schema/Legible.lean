import ApiForge.Operation.Resolve
import ApiForge.Proofs.Naming.Words
import ApiForge.Proofs.Schema.Session
import ApiForge.Proofs.Schema.Verdict

/-!
# Type names in descriptions with legible keys

A type name is given out for a key, or for where a schema stands: the name of what it stands in, followed by a key or a
word. If every key of a named schema and of a property in it has a letter or a digit, then all type names are mild, so
none is that of a pattern constant.

* `HasKey raw key`: a schema has a property with the key, or a schema inside it has.
* `Env.Legible`: the keys of named schemas and of properties in them have a letter or a digit.
* `Tame raw name`: the types in a schema that stands under the name get mild names.
* `Softens m P`: from every state with mild names, `m` gets to a state with mild names, and its results satisfy `P`.
* `build_softens`: this holds of every build of a tame schema. Each function of the resolver has a lemma of this kind.
-/

namespace ApiForge.Schema

open Json Naming

/-! ## Keys of properties -/

/-- A schema has a property with a key, or a schema in it has. -/
inductive HasKey : Json → String → Prop where
  | own {ms : Members} {key : String} {schema : Json} : (key, schema) ∈ propertiesOf ms → HasKey (.obj ms) key
  | property {ms : Members} {name key : String} {schema : Json} : (name, schema) ∈ propertiesOf ms →
      HasKey schema key → HasKey (.obj ms) key
  | items {ms : Members} {schema : Json} {key : String} : ms.get? "items" = some schema → HasKey schema key →
      HasKey (.obj ms) key
  | member {ms : Members} {members : List Json} {schema : Json} {key : String} :
      ms.get? "allOf" = some (.arr members) → schema ∈ members → HasKey schema key → HasKey (.obj ms) key
  | union {ms : Members} {members : List Json} {schema : Json} {key : String} :
      (ms.get? "oneOf").or (ms.get? "anyOf") = some (.arr members) → schema ∈ members → HasKey schema key →
      HasKey (.obj ms) key

/-- The keys of the named schemas of all documents, and of the properties in them, have a letter or a digit. -/
def Env.Legible (env : Env) : Prop :=
  ∀ k raw, env.rawSchema? k = some raw → Naming.Legible k.name ∧ ∀ key, HasKey raw key → Naming.Legible key

/-- A mild name under which a schema stands; it has a small letter, or the keys of properties in the schema have a
letter or a digit. -/
structure Tame (raw : Json) (name : String) : Prop where
  mild : Mild name
  keys : Lowered name ∨ ∀ key, HasKey raw key → Naming.Legible key

section Tame

variable {raw inner : Json} {name : String}

theorem Tame.of_lowered (h : Lowered name) : Tame raw name := ⟨.inl h, .inl h⟩

/-- A part of a schema, under the same name. -/
theorem Tame.part (h : Tame raw name) (hsub : ∀ key, HasKey inner key → HasKey raw key) : Tame inner name :=
  ⟨h.mild, h.keys.imp_right fun hkeys key hkey => hkeys key (hsub key hkey)⟩

/-- The same schema under a longer name. -/
theorem Tame.append (h : Tame raw name) {suffix : String} (hs : Lowered name ∨ Mild suffix) :
    Tame raw (name ++ suffix) :=
  ⟨hs.elim (fun hl => .inl hl.append_left) h.mild.append, h.keys.imp_left Lowered.append_left⟩

theorem Tame.fresh (h : Tame raw name) (names : Allocator) : Tame raw (names.fresh name) :=
  ⟨h.mild.fresh names, h.keys.imp_left fun hl => hl.fresh names⟩

/-- A property under the name of the record, followed by its key. -/
theorem Tame.property {ms : Members} (h : Tame (.obj ms) name) {key : String} {schema : Json}
    (hmem : (key, schema) ∈ propertiesOf ms) : Tame schema (name ++ pascalCase key) :=
  (h.part fun _ hkey => .property hmem hkey).append
    (h.keys.imp_right fun hkeys => (hkeys key (.own hmem)).mild_pascalCase)

end Tame

/-! ## States with mild names -/

/-- All type names that have been given out are mild. -/
structure State.IsMild (s : State) : Prop where
  taken : ∀ name ∈ s.names.taken, Mild name
  components : ∀ k name, (k, name) ∈ s.components → Mild name

/-- A computation that gives out mild names only, with results that satisfy `P` if it succeeds. -/
def Softens {α : Type} (m : Resolve α) (P : α → Prop) : Prop :=
  ∀ s : State, s.IsMild → Ends m s (fun a s' => s'.IsMild ∧ P a) fun _ _ => True

section Softens

variable {α β : Type} {m : Resolve α} {f : α → Resolve β} {P P' : α → Prop} {Q : β → Prop}

theorem Softens.pure {a : α} (h : P a) : Softens (pure a) P := fun _ hs => ends_pure.2 ⟨hs, h⟩

theorem Softens.throw {e : CompileError} : Softens (throw e : Resolve α) P := fun _ _ => ends_throw.2 trivial

theorem Softens.bind (h : Softens m P) (hf : ∀ a, P a → Softens (f a) Q) : Softens (m >>= f) Q :=
  fun s hs => (h s hs).bind fun a s₁ ⟨hs₁, ha⟩ => hf a ha s₁ hs₁

theorem Softens.imp (h : Softens m P) (hP : ∀ a, P a → P' a) : Softens m P' := fun s hs =>
  (h s hs).mono (fun a _ ⟨hs', ha⟩ => ⟨hs', hP a ha⟩) fun _ _ h => h

theorem Softens.map {g : α → β} (h : Softens m P) (hg : ∀ a, P a → Q (g a)) : Softens (g <$> m) Q := by
  rw [← bind_pure_comp]
  exact h.bind fun a ha => .pure (hg a ha)

/-- A change of anything but names. -/
theorem Softens.modifyGet {g : State → α × State} (hg : ∀ s, (g s).2.names = s.names ∧
    (g s).2.components = s.components) : Softens (modifyGet g) fun _ => True := fun s hs =>
  ends_modifyGet.2 ⟨⟨by rw [(hg s).1]; exact hs.taken, by rw [(hg s).2]; exact hs.components⟩, trivial⟩

theorem Softens.modify {g : State → State} (hg : ∀ s, (g s).names = s.names ∧ (g s).components = s.components) :
    Softens (modify g : Resolve PUnit) fun _ => True :=
  .modifyGet fun s => hg s

theorem softens_modify_bind {g : State → State} {b : β} (hg : ∀ s, (g s).names = s.names ∧
    (g s).components = s.components) : Softens (do modify g; return b) fun _ => True :=
  (Softens.modify hg).bind fun _ _ => .pure trivial

end Softens

theorem allocateName_softens {hint : String} (h : Mild hint) (P : String → Prop)
    (hP : ∀ names : Allocator, P (names.fresh hint)) : Softens (allocateName hint) P := fun s hs =>
  ends_modifyGet.2 ⟨⟨List.forall_mem_cons.2 ⟨h.fresh s.names, hs.taken⟩, hs.components⟩, hP s.names⟩

/-- The name of a declaration in its place. -/
theorem declaredName_softens {raw : Json} {c : Context} (h : Tame raw (labelOf c)) :
    Softens (declaredName c) fun name => Tame raw name := by
  unfold labelOf at h
  unfold declaredName
  cases hc : c.component with
  | some name =>
    rw [hc] at h
    exact .pure h
  | none =>
    rw [hc] at h
    exact allocateName_softens h.mild _ fun names => h.fresh names

theorem openSlot_softens : Softens openSlot fun _ => True := .modifyGet fun _ => ⟨rfl, rfl⟩

theorem fillSlot_softens (slot : Nat) (n : Node) : Softens (fillSlot slot n) fun _ => True :=
  .modify fun _ => ⟨rfl, rfl⟩

theorem openSlotIf_softens (wanted : Bool) : Softens (openSlotIf wanted) fun _ => True := by
  cases wanted with
  | false => exact .pure trivial
  | true => exact openSlot_softens.map fun _ h => h

theorem fillSlotIf_softens (slot : Option Nat) (n : Node) : Softens (fillSlotIf slot n) fun _ => True := by
  cases slot with
  | none => exact .pure trivial
  | some slot => exact fillSlot_softens slot n

theorem declareNode_softens (n : Node) : Softens (declareNode n) fun _ => True := by
  refine (openSlotIf_softens n.declared).bind fun slot _ => ?_
  refine (fillSlotIf_softens slot n).bind fun _ _ => ?_
  exact .pure trivial

theorem rulesOf_softens (n : Node) (required : Bool) : Softens (rulesOf n required) fun _ => True :=
  .modifyGet fun _ => ⟨rfl, rfl⟩

theorem constraintsAt_softens (ms : Members) (c : Context) : Softens (constraintsAt ms c) fun _ => True := by
  unfold constraintsAt
  cases constraintsOf ms c with
  | ok constraints => exact .pure trivial
  | error e => exact .throw

/-! ## Nodes -/

section Nodes

variable {env : Env} {build : Build} {c : Context} {ms : Members}

theorem scalarNode_softens (c : Context) (kind : ScalarKind) (nullable : Bool) (ms : Members) :
    Softens (scalarNode c kind nullable ms) fun _ => True :=
  (constraintsAt_softens ms c).bind fun _ _ => declareNode_softens _

theorem enumNode_softens (h : Tame (.obj ms) (labelOf c)) (members : List Json) (nullable : Bool) :
    Softens (enumNode ms members nullable c) fun _ => True := by
  unfold enumNode
  split
  · exact .throw
  · exact .throw
  · refine (declaredName_softens h).bind fun name _ => ?_
    refine openSlot_softens.bind fun slot _ => ?_
    refine (constraintsAt_softens ms c).bind fun constraints _ => ?_
    refine (fillSlot_softens slot _).bind fun _ _ => ?_
    exact .pure trivial

/-- A builder that gives out mild names in tame schemas. -/
def SoftBuild (build : Build) : Prop := ∀ raw c, Tame raw (labelOf c) → Softens (build raw c) fun _ => True

variable (hb : SoftBuild build)

include hb

theorem arrayNode_softens (h : Tame (.obj ms) (labelOf c)) (nullable : Bool) :
    Softens (arrayNode build ms nullable c) fun _ => True := by
  have helement : Softens (elementNode build ms (c.child (labelOf c ++ "Item"))) fun _ => True := by
    unfold elementNode
    split
    · rename_i items hitems
      exact hb items _ ((h.part fun _ hkey => .items hitems hkey).append (.inr (.inl ⟨'e', by decide, by decide⟩)))
    · exact scalarNode_softens _ .any false []
  refine (openSlotIf_softens c.component.isSome).bind fun slot _ => ?_
  refine helement.bind fun element _ => ?_
  refine (constraintsAt_softens ms c).bind fun constraints _ => ?_
  refine (fillSlotIf_softens slot _).bind fun _ _ => ?_
  exact .pure trivial

theorem buildFields_softens {ownerName : String} (c : Context) : ∀ (entries : List Entry) (taken : List String),
    (∀ e ∈ entries, Tame e.schema (ownerName ++ pascalCase e.key)) →
    Softens (buildFields build ownerName c taken entries) fun _ => True
  | [], _, _ => .pure trivial
  | e :: es, taken, h => by
    obtain ⟨he, hes⟩ := List.forall_mem_cons.1 h
    refine (hb e.schema (c.child (ownerName ++ pascalCase e.key)) he).bind fun type _ => ?_
    refine (rulesOf_softens type e.required).bind fun rules _ => ?_
    refine (buildFields_softens c es _ hes).bind fun fields _ => ?_
    exact .pure trivial

omit hb in
theorem tame_entriesOf {name : String} (h : Tame (.obj ms) name) (required : String → Bool) :
    ∀ e ∈ entriesOf ms required, Tame e.schema (name ++ pascalCase e.key) :=
  fun _ he => h.property (mem_entriesOf he)

theorem objectNode_softens (h : Tame (.obj ms) (labelOf c)) (nullable : Bool) :
    Softens (objectNode build ms nullable c) fun _ => True := by
  refine (declaredName_softens h).bind fun name hname => ?_
  refine openSlot_softens.bind fun slot _ => ?_
  refine (buildFields_softens hb c _ [] (tame_entriesOf hname _)).bind fun fields _ => ?_
  refine (fillSlot_softens slot _).bind fun _ _ => ?_
  exact .pure trivial

/-! ## Named schemas -/

omit hb in
theorem componentName_softens {k : RefKey} (h : Naming.Legible k.name) : Softens (componentName k) Mild := by
  intro s hs
  refine ends_bind.2 (ends_get.2 ?_)
  cases hfind : s.components.find? (·.1 == k) with
  | some entry => exact ends_pure.2 ⟨hs, hs.components entry.1 entry.2 (List.mem_of_find?_eq_some hfind)⟩
  | none =>
    -- a named schema of another document gets its name on first use
    have hnew := allocateName_softens h.mild_pascalCase Mild h.mild_pascalCase.fresh s hs
    refine hnew.bind fun name s₁ ⟨hs₁, hname⟩ => ?_
    refine ends_bind.2 (ends_modify.2 (ends_pure.2 ⟨⟨hs₁.taken, fun k' name' hmem => ?_⟩, hname⟩))
    rcases List.mem_cons.1 hmem with h | h
    · cases h
      exact hname
    · exact hs₁.components k' name' h

variable (hl : env.Legible)

include hl

theorem buildKey_softens {k : RefKey} {raw : Json} (hraw : env.rawSchema? k = some raw) (stack : List RefKey) :
    Softens (buildKey env build k raw stack) fun _ => True := by
  refine (componentName_softens (hl k raw hraw).1).bind fun name hname => ?_
  refine (hb raw (.ofKey env k name stack) ⟨hname, .inr (hl k raw hraw).2⟩).bind fun n _ => ?_
  exact softens_modify_bind fun _ => ⟨rfl, rfl⟩

theorem resolveKey_softens (k : RefKey) (owner reference : String) (stack : List RefKey) :
    Softens (resolveKey env build k owner reference stack) fun _ => True := by
  intro s hs
  refine ends_bind.2 (ends_get.2 ?_)
  split
  · exact ends_pure.2 ⟨hs, trivial⟩
  · split
    · exact ends_throw.2 trivial
    · split
      · exact ends_throw.2 trivial
      · rename_i hraw
        exact buildKey_softens hb hl hraw stack s hs

theorem resolveRef_softens (reference : String) (c : Context) :
    Softens (resolveRef env build reference c) fun _ => True := by
  unfold resolveRef
  split
  · exact .throw
  · exact resolveKey_softens hb hl _ _ _ _

/-! ## Compositions -/

theorem mergeMember_softens {inline : Members → Merged → Resolve Merged} {m : Merged}
    (hi : Softens (inline ms m) fun _ => True) (c : Context) :
    Softens (mergeMember env build inline c ms m) fun _ => True := by
  unfold mergeMember
  split
  · refine Softens.map ((resolveRef_softens hb hl _ c).bind fun target _ => ?_) fun _ h => h
    split
    · exact .pure trivial
    · exact .throw
  · exact hi

theorem mergeMembers_softens {inline : Members → Merged → Resolve Merged} (c : Context) : ∀ (members : List Json)
    (m : Merged), (∀ ms, .obj ms ∈ members → ∀ m, Softens (inline ms m) fun _ => True) →
    Softens (mergeMembers env build inline c members m) fun _ => True
  | [], _, _ => .pure trivial
  | .obj ms :: rest, m, hi => by
    refine (mergeMember_softens hb hl (hi ms List.mem_cons_self m) c).bind fun m₁ _ => ?_
    exact mergeMembers_softens c rest m₁ fun ms' hms' => hi ms' (List.mem_cons_of_mem _ hms')
  | .null :: _, _, _ | .bool _ :: _, _, _ | .num _ :: _, _, _ | .str _ :: _, _, _ | .arr _ :: _, _, _ => .throw

/-- Collecting a composition under the name of its record, by induction on the levels within one another. -/
theorem mergeAllOf_softens {ownerName : String} (c : Context) : ∀ (levels : Nat) (ms : Members) (m : Merged),
    Tame (.obj ms) ownerName → Softens (mergeAllOf env build ownerName c levels ms m) fun _ => True
  | 0, _, _, _ => .pure trivial
  | levels + 1, ms, m, h => by
    have hmembers : Softens (mergeList env build (mergeAllOf env build ownerName c levels) c (ms.get? "allOf") m)
        fun _ => True := by
      unfold mergeList
      split
      · exact .pure trivial
      · rename_i members hall
        exact mergeMembers_softens hb hl c members _ fun ms' hmem m' =>
          mergeAllOf_softens c levels ms' m' (h.part fun _ hkey => .member hall hmem hkey)
      · exact .throw
    refine hmembers.bind fun m₁ _ => ?_
    unfold mergeOwn
    split
    · exact (buildFields_softens hb c _ [] (tame_entriesOf h _)).bind fun _ _ => .pure trivial
    · exact .throw

omit hb hl in
theorem settleFields_softens (c : Context) (required : List String) : ∀ (fs : List Field) (taken : List String),
    Softens (settleFields c required taken fs) fun _ => True
  | [], _ => .pure trivial
  | f :: fs, _ => by
    have hrules : ∀ must, Softens (settledRules f must) fun _ => True := fun must => by
      unfold settledRules
      split
      · exact rulesOf_softens _ _
      · exact .pure trivial
    refine (hrules _).bind fun rules _ => ?_
    refine (settleFields_softens c required fs _).bind fun fields _ => ?_
    exact .pure trivial

theorem allOfNode_softens (h : Tame (.obj ms) (labelOf c)) : Softens (allOfNode env build ms c) fun _ => True := by
  refine (declaredName_softens h).bind fun name hname => ?_
  refine openSlot_softens.bind fun slot _ => ?_
  refine (mergeAllOf_softens hb hl c _ ms {} hname).bind fun merged _ => ?_
  refine (settleFields_softens c merged.required merged.fields []).bind fun fields _ => ?_
  refine (fillSlot_softens slot _).bind fun _ _ => ?_
  exact .pure trivial

/-! ## Schemas -/

omit hl in
theorem unionNode_softens {members : Json} (h : Tame (.obj ms) (labelOf c))
    (hunion : (ms.get? "oneOf").or (ms.get? "anyOf") = some members) :
    Softens (unionNode build members c) fun _ => True := by
  unfold unionNode
  split
  · exact .throw
  · rename_i list hlist
    obtain rfl : members = .arr list := by
      cases members with
      | arr items => rw [Option.some.inj hlist]
      | _ => cases hlist
    split
    · rename_i single hsingle
      have hmem : single ∈ list := (List.mem_filter.1 (hsingle ▸ List.mem_singleton_self single)).1
      refine (hb single c (h.part fun _ hkey => .union hunion hmem hkey)).bind fun n _ => ?_
      split
      · exact .pure trivial
      · exact softens_modify_bind fun _ => ⟨rfl, rfl⟩
    · exact .throw

omit hl in
theorem typedNode_softens (h : Tame (.obj ms) (labelOf c)) : Softens (typedNode build ms c) fun _ => True := by
  unfold typedNode
  split
  · exact .throw
  · dsimp only
    split
    · exact objectNode_softens hb h _
    · exact arrayNode_softens hb h _
    · split
      · exact enumNode_softens h _ _
      · exact scalarNode_softens c _ _ ms
    · exact scalarNode_softens c .integer _ ms
    · exact scalarNode_softens c .number _ ms
    · exact scalarNode_softens c .boolean _ ms
    · exact scalarNode_softens c .any _ ms
    · exact .throw

theorem formNode_softens (h : Tame (.obj ms) (labelOf c)) : Softens (formNode env build ms c) fun _ => True := by
  unfold formNode
  split
  · exact (resolveRef_softens hb hl _ c).bind fun _ _ => declareNode_softens _
  · split
    · exact allOfNode_softens hb hl h
    · split
      · rename_i hunion
        exact unionNode_softens hb h hunion
      · exact typedNode_softens hb h

theorem buildStep_softens : SoftBuild (buildStep env build) := by
  intro raw c h
  match raw with
  | .obj ms => exact formNode_softens hb hl h
  | .bool true => exact scalarNode_softens c .any false []
  | .bool false | .null | .num _ | .str _ | .arr _ => exact .throw

omit hb in
/-- **Builds give out mild names** in tame schemas. -/
theorem build_softens : ∀ steps, SoftBuild (Schema.build env steps)
  | 0 => fun _ _ _ => .throw
  | steps + 1 => buildStep_softens (build_softens steps) hl

end Nodes

/-! ## Questions -/

section Questions

variable {env : Env}

theorem Env.Legible.rootKey (hl : env.Legible) {key : String} (h : key ∈ env.rootKeys) : Naming.Legible key := by
  obtain ⟨raw, hraw⟩ := exists_rawSchema_root h
  exact (hl _ raw hraw).1

/-- A new resolver has given out mild names. -/
theorem Env.Legible.isMild_initial (hl : env.Legible) : (State.initial env).IsMild := by
  have hreserve : ∀ (keys : List String) (s : State), (∀ key ∈ keys, Naming.Legible key) → s.IsMild →
      (keys.foldl State.reserve s).IsMild := by
    intro keys
    induction keys with
    | nil => exact fun s _ hs => hs
    | cons key keys ih =>
      intro s h hs
      obtain ⟨hkey, hkeys⟩ := List.forall_mem_cons.1 h
      have hname : Mild (s.names.fresh (pascalCase key)) := hkey.mild_pascalCase.fresh s.names
      refine ih _ hkeys ⟨List.forall_mem_cons.2 ⟨hname, hs.taken⟩, fun k name hmem => ?_⟩
      rcases List.mem_append.1 hmem with hmem | hmem
      · exact hs.components k name hmem
      · cases List.mem_singleton.1 hmem
        exact hname
  exact hreserve env.rootKeys {} (fun _ hkey => hl.rootKey hkey) ⟨by nofun, by nofun⟩

variable (hl : env.Legible)

include hl

theorem resolveKeys_softens (steps : Nat) : ∀ keys : List String,
    Softens (resolveKeys env (Schema.build env steps) keys) fun _ => True
  | [] => .pure trivial
  | key :: keys => by
    refine (resolveKey_softens (build_softens hl steps) hl ⟨none, key⟩ _ _ []).bind fun n _ => ?_
    refine (resolveKeys_softens steps keys).bind fun entries _ => ?_
    exact .pure trivial

theorem resolveInline_softens (raw : Json) {hint : String} (h : Lowered hint) (owner : String) :
    Softens (resolveInline env raw hint owner) fun _ => True :=
  build_softens hl _ raw _ (.of_lowered h)

/-- A record of loose members under a name with a small letter; the members may have any keys. -/
theorem synthesizeObject_softens {hint : String} (h : Lowered hint) (members : List Member) (presence : Presence)
    (owner : String) : Softens (synthesizeObject env hint members presence owner) fun _ => True := by
  refine (allocateName_softens (.inl h) Lowered h.fresh).bind fun name hname => ?_
  refine openSlot_softens.bind fun slot _ => ?_
  refine (buildFields_softens (build_softens hl _) _ _ [] fun e _ => ?_).bind fun fields _ => ?_
  · exact .of_lowered hname.append_left
  · refine (fillSlot_softens slot _).bind fun _ _ => ?_
    exact .pure trivial

end Questions

end ApiForge.Schema

/-! ## Operations -/

namespace ApiForge.RawOperation

open Naming Schema

variable {env : Env} (hl : env.Legible)

include hl

theorem resolvePart_softens (op : RawOperation) (base owner : String) (location : Location) :
    Softens (op.resolvePart env base owner location) fun _ => True := by
  have hending : Lowered location.typeEnding := by
    cases location
    · exact ⟨'a', by decide, by decide⟩
    · exact ⟨'e', by decide, by decide⟩
    · exact ⟨'e', by decide, by decide⟩
    · exact ⟨'o', by decide, by decide⟩
  unfold resolvePart
  dsimp only
  split
  · exact .pure trivial
  · exact (synthesizeObject_softens hl hending.append_right _ _ _).bind fun _ _ => .pure trivial

theorem resolveBody_softens (base owner : String) : ∀ body : Option RawBody,
    Softens (resolveBody env base owner body) fun _ => True
  | none => .pure trivial
  | some body => by
    have hbody : Lowered (base ++ "Body") := .append_right ⟨'o', by decide, by decide⟩
    refine (resolveInline_softens hl _ hbody owner).bind fun n _ => ?_
    refine (rulesOf_softens n body.required).bind fun rules _ => ?_
    exact .pure trivial

theorem resolveResponse_softens (base owner : String) (r : RawResponse) :
    Softens (resolveResponse env base owner r) fun _ => True := by
  have hpayload : Softens (resolvePayload env base owner r) fun _ => True := by
    unfold resolvePayload
    split
    · exact .pure trivial
    · exact (resolveInline_softens hl _ (.append_right ⟨'o', by decide, by decide⟩) owner).map fun _ h => h
  have hheaders : Softens (resolveHeaders env base owner r) fun _ => True := by
    unfold resolveHeaders
    split
    · exact .pure trivial
    · exact (synthesizeObject_softens hl (.append_right ⟨'e', by decide, by decide⟩) _ _ _).map fun _ h => h
  refine hpayload.bind fun payload _ => ?_
  refine hheaders.bind fun headers _ => ?_
  exact .pure trivial

theorem resolveResponses_softens (base owner : String) : ∀ rs : List RawResponse,
    Softens (resolveResponses env base owner rs) fun _ => True
  | [] => .pure trivial
  | r :: rs => by
    refine (resolveResponse_softens hl base owner r).bind fun v _ => ?_
    refine (resolveResponses_softens base owner rs).bind fun vs _ => ?_
    exact .pure trivial

/-- **Resolving an operation** gives out mild names, whatever its parameters and headers are called. -/
theorem resolve_softens (op : RawOperation) : Softens (op.resolve env) fun _ => True := by
  refine (resolvePart_softens hl op _ _ .path).bind fun path _ => ?_
  refine (resolvePart_softens hl op _ _ .query).bind fun query _ => ?_
  refine (resolvePart_softens hl op _ _ .header).bind fun headers _ => ?_
  refine (resolvePart_softens hl op _ _ .cookie).bind fun cookies _ => ?_
  refine (resolveBody_softens hl _ _ op.requestBody).bind fun body _ => ?_
  refine (resolveResponses_softens hl _ _ op.responses).bind fun responses _ => ?_
  exact .pure trivial

end ApiForge.RawOperation
