import ApiForge.Proofs.Schema.Order
import ApiForge.Proofs.Schema.Session

/-!
# Type names of named schemas

A resolver reserves type names for the named schemas of the root document before anything is resolved. Types that stand
in other schemas or in operations and named schemas of other documents get their names from the same allocator.

* `Allocator.allocateAll`: names given out one after another.
* `State.Keeps s s'`: what a named schema is called in `s` it is called in `s'`, and nodes of named schemas that are new
  in `s'` have the names that they are called by.
* `Names m P`: from every state, `m` gets to a state that keeps the names, and its results satisfy `P`.
* `build_names`: a build keeps the names, and a named schema is built under its type name. Each function of the resolver
  has a lemma of this kind.
* `resolveComponents_names`: the named schemas of the root document have the names that are given out for the Pascal
  cases of their keys, whatever else is in the description and whatever has been asked before.
-/

namespace ApiForge

/-- Names given out one after another. -/
def Naming.Allocator.allocateAll (a : Allocator) : List String → List String
  | [] => []
  | name :: names => (a.allocate name).1 :: (a.allocate name).2.allocateAll names

namespace Schema

open Naming

/-! ## Names that are kept -/

/-- The names of named schemas in one state are those in another one. -/
structure State.Keeps (s s' : State) : Prop where
  components : s.components ⊆ s'.components
  settled : ∀ k m m', (k, m) ∈ s.components → (k, m') ∈ s'.components → (k, m') ∈ s.components
  resolved : ∀ k n, (k, n) ∈ s'.resolved → (k, n) ∈ s.resolved ∨ (k, n.name) ∈ s'.components

theorem State.Keeps.same {s s' : State} (hc : s'.components = s.components) (hr : s'.resolved = s.resolved) :
    s.Keeps s' where
  components := by rw [hc]; exact List.Subset.refl _
  settled k m m' _ h := hc ▸ h
  resolved k n h := .inl (hr ▸ h)

theorem State.Keeps.refl (s : State) : s.Keeps s := .same rfl rfl

theorem State.Keeps.trans {s s₁ s₂ : State} (h₁ : s.Keeps s₁) (h₂ : s₁.Keeps s₂) : s.Keeps s₂ where
  components := List.Subset.trans h₁.components h₂.components
  settled k m m' h h' := h₁.settled k m m' h (h₂.settled k m m' (h₁.components h) h')
  resolved k n h := by
    rcases h₂.resolved k n h with h | h
    · exact (h₁.resolved k n h).imp_right fun h => h₂.components h
    · exact .inr h

/-- A computation that keeps the names, with results that satisfy `P`. -/
def Names {α : Type} (m : Resolve α) (P : α → Prop) : Prop :=
  ∀ s, Ends m s (fun a s' => s.Keeps s' ∧ P a) fun _ s' => s.Keeps s'

section Names

variable {α β : Type} {m : Resolve α} {f : α → Resolve β} {P P' : α → Prop} {Q : β → Prop}

theorem Names.pure {a : α} (h : P a) : Names (pure a) P := fun s => ends_pure.2 ⟨.refl s, h⟩

theorem Names.throw {e : CompileError} : Names (throw e : Resolve α) P := fun s => ends_throw.2 (.refl s)

theorem Names.bind (h : Names m P) (hf : ∀ a, P a → Names (f a) Q) : Names (m >>= f) Q := by
  intro s
  refine ends_bind.2 ((h s).mono (fun a s₁ ⟨hs₁, ha⟩ => ?_) fun _ _ h => h)
  exact (hf a ha s₁).mono (fun b s₂ ⟨hs₂, hb⟩ => ⟨hs₁.trans hs₂, hb⟩) fun _ _ hs₂ => hs₁.trans hs₂

theorem Names.map {g : α → β} (h : Names m P) (hg : ∀ a, P a → Q (g a)) : Names (g <$> m) Q := by
  rw [← bind_pure_comp]
  exact h.bind fun a ha => .pure (hg a ha)

theorem Names.imp (h : Names m P) (hP : ∀ a, P a → P' a) : Names m P' := fun s =>
  (h s).mono (fun a _ ⟨hs, ha⟩ => ⟨hs, hP a ha⟩) fun _ _ h => h

/-- A change of anything but the names and nodes of named schemas. -/
theorem Names.modifyGet {g : State → α × State} (hg : ∀ s, (g s).2.components = s.components ∧
    (g s).2.resolved = s.resolved ∧ P (g s).1) : Names (modifyGet g) P := fun s =>
  ends_modifyGet.2 ⟨.same (hg s).1 (hg s).2.1, (hg s).2.2⟩

theorem Names.modify {g : State → State} (hg : ∀ s, (g s).components = s.components ∧ (g s).resolved = s.resolved) :
    Names (modify g : Resolve PUnit) fun _ => True := fun s => ends_modify.2 ⟨.same (hg s).1 (hg s).2, trivial⟩

end Names

/-! ## Places and rules -/

/-- A name that is the type name of a named schema, where there is one. -/
def Context.Calls (c : Context) (name : String) : Prop := ∀ m, c.component = some m → name = m

theorem Context.calls_labelOf (c : Context) : c.Calls (labelOf c) := fun m h => by rw [labelOf, h]; rfl

theorem allocateName_names (hint : String) : Names (allocateName hint) fun _ => True :=
  .modifyGet fun _ => ⟨rfl, rfl, trivial⟩

theorem declaredName_names (c : Context) : Names (declaredName c) c.Calls := by
  unfold declaredName
  cases hc : c.component with
  | some name => exact .pure fun m h => Option.some.inj (hc.symm.trans h)
  | none => exact (allocateName_names c.hint).imp fun _ _ m h => by rw [hc] at h; cases h

theorem openSlot_names : Names openSlot fun _ => True := .modifyGet fun _ => ⟨rfl, rfl, trivial⟩

theorem fillSlot_names (slot : Nat) (n : Node) : Names (fillSlot slot n) fun _ => True := .modify fun _ => ⟨rfl, rfl⟩

theorem openSlotIf_names (wanted : Bool) : Names (openSlotIf wanted) fun _ => True := by
  cases wanted with
  | false => exact .pure trivial
  | true => exact openSlot_names.map fun _ h => h

theorem fillSlotIf_names (slot : Option Nat) (n : Node) : Names (fillSlotIf slot n) fun _ => True := by
  cases slot with
  | none => exact .pure trivial
  | some slot => exact fillSlot_names slot n

theorem declareNode_names (n : Node) : Names (declareNode n) fun n' => n' = n :=
  (openSlotIf_names _).bind fun _ _ => (fillSlotIf_names _ _).bind fun _ _ => .pure rfl

theorem rulesOf_names (n : Node) (required : Bool) : Names (rulesOf n required) fun _ => True :=
  .modifyGet fun _ => ⟨rfl, rfl, trivial⟩

theorem constraintsAt_names (ms : Json.Members) (c : Context) : Names (constraintsAt ms c) fun _ => True := by
  unfold constraintsAt
  cases constraintsOf ms c with
  | ok constraints => exact .pure trivial
  | error e => exact .throw

/-! ## Nodes -/

section Nodes

variable {env : Env} {build : Build}

theorem scalarNode_names (c : Context) (kind : ScalarKind) (nullable : Bool) (ms : Json.Members) :
    Names (scalarNode c kind nullable ms) fun n => c.Calls n.name :=
  (constraintsAt_names ms c).bind fun _ _ => (declareNode_names _).imp fun _ hn => hn ▸ c.calls_labelOf

theorem enumNode_names (ms : Json.Members) (members : List Json) (nullable : Bool) (c : Context) :
    Names (enumNode ms members nullable c) fun n => c.Calls n.name := by
  unfold enumNode
  split
  · exact .throw
  · exact .throw
  · exact (declaredName_names c).bind fun name hname => openSlot_names.bind fun _ _ =>
      (constraintsAt_names ms c).bind fun _ _ => (fillSlot_names _ _).bind fun _ _ => .pure hname

theorem referenceNode_names (target : Node) (nullable : Bool) (c : Context) :
    Names (referenceNode target nullable c) fun n => c.Calls n.name :=
  (declareNode_names _).imp fun n hn => by
    intro m hm
    rw [hn, hm]
    rfl

/-- A builder that keeps the names and builds named schemas under their type names. -/
def BuildNames (build : Build) : Prop := ∀ raw c, Names (build raw c) fun n => c.Calls n.name

variable (hb : BuildNames build)

include hb

theorem elementNode_names (ms : Json.Members) (c : Context) : Names (elementNode build ms c) fun _ => True := by
  unfold elementNode
  split
  · exact (hb _ c).imp fun _ _ => trivial
  · exact (scalarNode_names c .any false []).imp fun _ _ => trivial

theorem arrayNode_names (ms : Json.Members) (nullable : Bool) (c : Context) :
    Names (arrayNode build ms nullable c) fun n => c.Calls n.name :=
  (openSlotIf_names _).bind fun _ _ => (elementNode_names hb ms _).bind fun _ _ =>
    (constraintsAt_names ms c).bind fun _ _ => (fillSlotIf_names _ _).bind fun _ _ => .pure c.calls_labelOf

theorem buildFields_names (ownerName : String) (c : Context) : ∀ (entries : List Entry) (taken : List String),
    Names (buildFields build ownerName c taken entries) fun _ => True
  | [], _ => .pure trivial
  | e :: es, _ => (hb e.schema _).bind fun type _ => (rulesOf_names type e.required).bind fun _ _ =>
      (buildFields_names ownerName c es _).bind fun _ _ => .pure trivial

theorem objectNode_names (ms : Json.Members) (nullable : Bool) (c : Context) :
    Names (objectNode build ms nullable c) fun n => c.Calls n.name :=
  (declaredName_names c).bind fun name hname => openSlot_names.bind fun _ _ =>
    (buildFields_names hb name c _ []).bind fun _ _ => (fillSlot_names _ _).bind fun _ _ => .pure hname

/-! ## Named schemas -/

omit hb in
/-- A named schema is called by a name from its first use on. -/
theorem componentName_ends (key : RefKey) (s : State) : Ends (componentName key) s
    (fun name s' => s.Keeps s' ∧ (key, name) ∈ s'.components) fun _ _ => False := by
  refine ends_bind.2 (ends_get.2 ?_)
  cases hfind : s.components.find? (·.1 == key) with
  | some entry =>
    obtain ⟨k, name⟩ := entry
    obtain rfl : k = key := by simpa using List.find?_some hfind
    exact ends_pure.2 ⟨.refl s, List.mem_of_find?_eq_some hfind⟩
  | none =>
    have hnone : ∀ m, (key, m) ∉ s.components := fun m hm => by simpa using List.find?_eq_none.1 hfind _ hm
    refine ends_bind.2 (ends_modifyGet.2 (ends_bind.2 (ends_modify.2 (ends_pure.2 ⟨?_, List.mem_cons_self⟩))))
    refine ⟨List.subset_cons_self _ _, fun k m m' hm hm' => ?_, fun k n h => .inl h⟩
    rcases List.mem_cons.1 hm' with h | h
    · cases h
      exact absurd hm (hnone m)
    · exact h

/-- A named schema is built under the name that it is called by. -/
theorem buildKey_ends (key : RefKey) (raw : Json) (stack : List RefKey) (s : State) :
    Ends (buildKey env build key raw stack) s (fun n s' => s.Keeps s' ∧ (key, n.name) ∈ s'.components)
      fun _ s' => s.Keeps s' := by
  refine ends_bind.2 ((componentName_ends key s).mono (fun name s₁ ⟨hs₁, hname⟩ => ?_) fun _ _ h => h.elim)
  refine ends_bind.2 ((hb raw (.ofKey env key name stack) s₁).mono (fun n s₂ ⟨hs₂, hn⟩ => ?_)
    fun _ _ hs₂ => hs₁.trans hs₂)
  have hname : (key, n.name) ∈ s₂.components := by
    rw [hn name rfl]
    exact hs₂.components hname
  refine ends_bind.2 (ends_modify.2 (ends_pure.2 ⟨(hs₁.trans hs₂).trans ?_, hname⟩))
  refine ⟨List.Subset.refl _, fun _ _ _ _ h => h, fun k m h => ?_⟩
  rcases List.mem_cons.1 h with h | h
  · cases h
    exact .inr hname
  · exact .inl h

/-- The node of a named schema is known already or new; if it is known, its name is not looked at. -/
theorem resolveKey_ends (key : RefKey) (owner reference : String) (stack : List RefKey) (s : State) :
    Ends (resolveKey env build key owner reference stack) s
      (fun n s' => s.Keeps s' ∧ ((key, n) ∈ s.resolved ∨ (key, n.name) ∈ s'.components)) fun _ s' => s.Keeps s' := by
  refine ends_bind.2 (ends_get.2 ?_)
  cases hfind : s.resolved.find? (·.1 == key) with
  | some entry =>
    obtain ⟨k, n⟩ := entry
    obtain rfl : k = key := by simpa using List.find?_some hfind
    exact ends_pure.2 ⟨.refl s, .inl (List.mem_of_find?_eq_some hfind)⟩
  | none =>
    dsimp only
    split
    · exact ends_throw.2 (.refl s)
    · split
      · exact ends_throw.2 (.refl s)
      · exact (buildKey_ends hb key _ stack s).mono (fun _ _ ⟨hs, hn⟩ => ⟨hs, .inr hn⟩) fun _ _ hs => hs

theorem resolveRef_names (reference : String) (c : Context) :
    Names (resolveRef env build reference c) fun _ => True := by
  unfold resolveRef
  split
  · exact .throw
  · exact fun s => (resolveKey_ends hb _ c.owner reference c.stack s).mono (fun _ _ ⟨hs, _⟩ => ⟨hs, trivial⟩)
      fun _ _ hs => hs

/-! ## Compositions -/

theorem referredFields_names (reference : String) (c : Context) :
    Names (referredFields env build reference c) fun _ => True := by
  refine (resolveRef_names hb reference c).bind fun target _ => ?_
  split
  · exact .pure trivial
  · exact .throw

section Merging

variable {inline : Json.Members → Merged → Resolve Merged} (hi : ∀ ms m, Names (inline ms m) fun _ => True)

include hi

theorem mergeMember_names (c : Context) (ms : Json.Members) (m : Merged) :
    Names (mergeMember env build inline c ms m) fun _ => True := by
  unfold mergeMember
  split
  · exact (referredFields_names hb _ c).map fun _ _ => trivial
  · exact hi ms m

theorem mergeMembers_names (c : Context) : ∀ (members : List Json) (m : Merged),
    Names (mergeMembers env build inline c members m) fun _ => True
  | [], _ => .pure trivial
  | .obj ms :: rest, m => (mergeMember_names hb hi c ms m).bind fun m₁ _ => mergeMembers_names c rest m₁
  | .null :: _, _ | .bool _ :: _, _ | .num _ :: _, _ | .str _ :: _, _ | .arr _ :: _, _ => .throw

theorem mergeList_names (c : Context) : ∀ (list : Option Json) (m : Merged),
    Names (mergeList env build inline c list m) fun _ => True
  | none, _ => .pure trivial
  | some (.arr members), m => mergeMembers_names hb hi c members m
  | some .null, _ | some (.bool _), _ | some (.num _), _ | some (.str _), _ | some (.obj _), _ => .throw

end Merging

theorem mergeOwn_names (ownerName : String) (c : Context) (ms : Json.Members) (m : Merged) :
    Names (mergeOwn build ownerName c ms m) fun _ => True := by
  unfold mergeOwn
  split
  · exact (buildFields_names hb ownerName c _ []).bind fun _ _ => .pure trivial
  · exact .throw

theorem mergeAllOf_names (ownerName : String) (c : Context) : ∀ (levels : Nat) (ms : Json.Members) (m : Merged),
    Names (mergeAllOf env build ownerName c levels ms m) fun _ => True
  | 0, _, _ => .pure trivial
  | levels + 1, ms, m => (mergeList_names hb (mergeAllOf_names ownerName c levels) c _ m).bind fun m₁ _ =>
      mergeOwn_names hb ownerName c ms m₁

omit hb in
theorem settledRules_names (f : Field) (required : Bool) : Names (settledRules f required) fun _ => True := by
  unfold settledRules
  split
  · exact rulesOf_names _ _
  · exact .pure trivial

omit hb in
theorem settleFields_names (c : Context) (required : List String) : ∀ (fs : List Field) (taken : List String),
    Names (settleFields c required taken fs) fun _ => True
  | [], _ => .pure trivial
  | f :: fs, _ => (settledRules_names f _).bind fun _ _ => (settleFields_names c required fs _).bind fun _ _ =>
      .pure trivial

theorem allOfNode_names (ms : Json.Members) (c : Context) :
    Names (allOfNode env build ms c) fun n => c.Calls n.name :=
  (declaredName_names c).bind fun name hname => openSlot_names.bind fun _ _ =>
    (mergeAllOf_names hb name c _ ms {}).bind fun merged _ =>
      (settleFields_names c merged.required merged.fields []).bind fun _ _ =>
        (fillSlot_names _ _).bind fun _ _ => .pure hname

/-! ## Schemas -/

omit hb in
theorem makeNullable_names (n : Node) : Names (makeNullable n) fun n' => n' = { n with nullable := true } :=
  fun _ => ⟨.same rfl rfl, rfl⟩

/-- A union is built under the name of its one member, which is built in the same place. -/
theorem unionNode_names (members : Json) (c : Context) :
    Names (unionNode build members c) fun n => c.Calls n.name := by
  unfold unionNode
  split
  · exact .throw
  · split
    · refine (hb _ c).bind fun n hn => ?_
      split
      · exact .pure hn
      · exact (makeNullable_names n).imp fun n' hn' => by
          rw [hn']
          exact hn
    · exact .throw

theorem typedNode_names (ms : Json.Members) (c : Context) :
    Names (typedNode build ms c) fun n => c.Calls n.name := by
  unfold typedNode
  split
  · exact .throw
  · dsimp only
    split
    · exact objectNode_names hb ms _ c
    · exact arrayNode_names hb ms _ c
    · split
      · exact enumNode_names ms _ _ c
      · exact scalarNode_names c _ _ ms
    · exact scalarNode_names c .integer _ ms
    · exact scalarNode_names c .number _ ms
    · exact scalarNode_names c .boolean _ ms
    · exact scalarNode_names c .any _ ms
    · exact .throw

theorem formNode_names (ms : Json.Members) (c : Context) :
    Names (formNode env build ms c) fun n => c.Calls n.name := by
  unfold formNode
  split
  · exact (resolveRef_names hb _ c).bind fun target _ => referenceNode_names target _ c
  · split
    · exact allOfNode_names hb ms c
    · split
      · exact unionNode_names hb _ c
      · exact typedNode_names hb ms c

theorem buildStep_names : BuildNames (buildStep env build) := by
  intro raw c
  match raw with
  | .obj ms => exact formNode_names hb ms c
  | .bool true => exact scalarNode_names c .any false []
  | .bool false | .null | .num _ | .str _ | .arr _ => exact .throw

omit hb in
/-- **Builds keep the names**, and a named schema is built under its type name. -/
theorem build_names (env : Env) : ∀ steps, BuildNames (Schema.build env steps)
  | 0 => fun _ _ => .throw
  | steps + 1 => buildStep_names (build_names env steps)

end Nodes

/-! ## Questions -/

section Questions

variable {env : Env} {s : State}

/-- The nodes of named schemas have the names that they are called by. -/
def State.Named (s : State) : Prop := ∀ k n, (k, n) ∈ s.resolved → (k, n.name) ∈ s.components

theorem State.Named.keeps {s' : State} (hs : s.Named) (h : s.Keeps s') : s'.Named := fun k n hn => by
  rcases h.resolved k n hn with hn | hn
  · exact h.components (hs k n hn)
  · exact hn

/-- The nodes of named schemas of the root document have the names that these are called by. -/
theorem resolveKeys_ends {build : Build} (hb : BuildNames build) : ∀ (keys : List String) {s : State}, s.Named →
    Ends (resolveKeys env build keys) s (fun entries s' => s.Keeps s' ∧ entries.map (·.1) = keys ∧
      ∀ e ∈ entries, (⟨none, e.1⟩, e.2.name) ∈ s'.components) fun _ s' => s.Keeps s'
  | [], s, _ => ends_pure.2 ⟨.refl s, rfl, nofun⟩
  | key :: keys, s, hs => by
    refine ends_bind.2 ((resolveKey_ends hb ⟨none, key⟩ _ _ [] s).mono (fun n s₁ ⟨hs₁, hn⟩ => ?_) fun _ _ h => h)
    refine ends_bind.2 ((resolveKeys_ends hb keys (hs.keeps hs₁)).mono (fun entries s₂ ⟨hs₂, hkeys, hall⟩ => ?_)
      fun _ _ hs₂ => hs₁.trans hs₂)
    have hname : (⟨none, key⟩, n.name) ∈ s₁.components := hn.elim (fun hn => hs₁.components (hs _ n hn)) id
    exact ends_pure.2 ⟨hs₁.trans hs₂, by rw [List.map_cons, hkeys],
      List.forall_mem_cons.2 ⟨hs₂.components hname, hall⟩⟩

theorem synthesizeObject_names (hint : String) (members : List Member) (presence : Presence) (owner : String) :
    Names (synthesizeObject env hint members presence owner) fun _ => True :=
  (allocateName_names hint).bind fun name _ => openSlot_names.bind fun _ _ =>
    (buildFields_names (build_names env _) name _ _ []).bind fun _ _ =>
      (fillSlot_names _ _).bind fun _ _ => .pure trivial

/-- Every question keeps the names. -/
theorem Query.answer_keepsNames (hs : s.Named) (q : Query) :
    Ends (q.answer env) s (fun _ s' => s.Keeps s') fun _ s' => s.Keeps s' := by
  have answered {α : Type} {m : Resolve α} {P : α → Prop} (h : Names m P) (f : α → List Node) :
      Ends (do return f (← m)) s (fun _ s' => s.Keeps s') fun _ s' => s.Keeps s' :=
    ends_bind.2 ((h s).mono (fun _ _ h => ends_pure.2 h.1) fun _ _ h => h)
  cases q with
  | components =>
    refine ends_bind.2 ((resolveKeys_ends (build_names env _) env.rootKeys hs).mono (fun _ _ h => ?_) fun _ _ h => h)
    exact ends_pure.2 h.1
  | inline raw hint owner => exact answered (build_names env _ raw _) fun n => [n]
  | synthesize hint members presence owner => exact answered (synthesizeObject_names hint members presence owner) _
  | declarations mark => exact .refl s
  | allocate name => exact answered (allocateName_names name) fun _ => []
  | reserve name => exact .same rfl rfl

theorem named_initial (env : Env) : (State.initial env).Named := fun k n hn => by
  rw [resolved_initial] at hn
  cases hn

/-- Whatever is asked, the names that were reserved stay. -/
theorem Session.keepsNames {nodes : List Node} (h : Session env s nodes) : (State.initial env).Keeps s := by
  have hinitial : (State.initial env).Named := named_initial env
  induction h with
  | start => exact .refl _
  | answered q _ hrun ih => exact ih.trans ((q.answer_keepsNames (hinitial.keeps ih)).of_ok hrun)
  | refused q _ hrun ih => exact ih.trans ((q.answer_keepsNames (hinitial.keeps ih)).of_error hrun)
  | compiled _ _ _ _ ih => exact ih.trans (.same rfl rfl)
  | collected _ _ _ ih => exact ih.trans (.same rfl rfl)

end Questions

/-! ## Reserved names -/

/-- The type names of the named schemas of the root document: those that a new allocator gives out for the Pascal cases
of their keys, in order. -/
def Env.reservedNames (env : Env) : List (String × String) :=
  env.rootKeys.zip (({} : Allocator).allocateAll (env.rootKeys.map pascalCase))

/-- Whether a named schema has one type name, and its node, if there is one, has this name as well. -/
structure State.Calls (s : State) (key : RefKey) (name : String) : Prop where
  component : ∀ m, (key, m) ∈ s.components ↔ m = name
  node : ∀ n, (key, n) ∈ s.resolved → n.name = name

theorem length_allocateAll : ∀ (names : List String) (a : Allocator), (a.allocateAll names).length = names.length
  | [], _ => rfl
  | _ :: names, _ => congrArg Nat.succ (length_allocateAll names _)

theorem components_reserve : ∀ (keys : List String) (s : State), (keys.foldl State.reserve s).components =
    s.components ++ (keys.zip (s.names.allocateAll (keys.map pascalCase))).map fun p => (⟨none, p.1⟩, p.2)
  | [], s => (List.append_nil _).symm
  | key :: keys, s => by
    rw [List.foldl_cons, components_reserve keys]
    simp [State.reserve, Allocator.allocateAll]

section Reserved

variable {env env' : Env} {s s' : State} {nodes nodes' : List Node}

theorem mem_components_initial {key name : String} :
    (⟨none, key⟩, name) ∈ (State.initial env).components ↔ (key, name) ∈ env.reservedNames := by
  rw [State.initial, components_reserve, List.nil_append]
  simp only [List.mem_map, Prod.mk.injEq, RefKey.mk.injEq, true_and]
  constructor
  · rintro ⟨p, hp, rfl, rfl⟩
    exact hp
  · exact fun h => ⟨_, h, rfl, rfl⟩

theorem keys_reservedNames (env : Env) : env.reservedNames.map (·.1) = env.rootKeys := by
  refine List.map_fst_zip ?_
  rw [length_allocateAll, List.length_map]

/-- A key that is listed once has one type name. -/
theorem reservedNames_unique (hdistinct : env.rootKeys.Nodup) {p q : String × String} (hp : p ∈ env.reservedNames)
    (hq : q ∈ env.reservedNames) (hkey : p.1 = q.1) : p = q := by
  rw [← keys_reservedNames env] at hdistinct
  exact List.inj_on_of_nodup_map hdistinct hp hq hkey

/-- Pairs with the same keys in the same order are the same if all of the first are among the second. -/
theorem eq_of_keys {ps qs : List (String × String)} (hnodup : (qs.map (·.1)).Nodup)
    (hkeys : ps.map (·.1) = qs.map (·.1)) (hsub : ps ⊆ qs) : ps = qs := by
  have hlength : ps.length = qs.length := by simpa using congrArg List.length hkeys
  refine List.ext_getElem hlength fun i hi hi' => ?_
  have hkey : ps[i].1 = qs[i].1 := by
    have hget : (ps.map (·.1))[i]? = (qs.map (·.1))[i]? := by rw [hkeys]
    simpa [hi, hi'] using hget
  exact List.inj_on_of_nodup_map hnodup (hsub (List.getElem_mem hi)) (List.getElem_mem hi') hkey

/-- What a named schema of the root document is called never changes. -/
theorem Session.calls (h : Session env s nodes) (hdistinct : env.rootKeys.Nodup) :
    ∀ p ∈ env.reservedNames, s.Calls ⟨none, p.1⟩ p.2 := by
  intro p hp
  have hkeeps := h.keepsNames
  have hinitial : (⟨none, p.1⟩, p.2) ∈ (State.initial env).components := mem_components_initial.2 hp
  have hunique : ∀ m, (⟨none, p.1⟩, m) ∈ s.components → m = p.2 := fun m hm => by
    have hm := mem_components_initial.1 (hkeeps.settled _ _ _ hinitial hm)
    exact congrArg Prod.snd (reservedNames_unique hdistinct hm hp rfl)
  refine ⟨fun m => ⟨hunique m, ?_⟩, fun n hn => hunique n.name ((named_initial env).keeps hkeeps _ n hn)⟩
  rintro rfl
  exact hkeeps.components hinitial

/-- The nodes that answer the question for the named schemas have their type names. -/
theorem Session.resolveComponents_names (h : Session env s nodes) (hdistinct : env.rootKeys.Nodup)
    {entries : List (String × Node)} (hrun : (resolveComponents env).run s = .ok entries s') :
    entries.map (fun e => (e.1, e.2.name)) = env.reservedNames := by
  have hnamed : s.Named := (named_initial env).keeps h.keepsNames
  obtain ⟨hkeeps, hkeys, hall⟩ := (resolveKeys_ends (build_names env _) env.rootKeys hnamed).of_ok hrun
  refine eq_of_keys (by rwa [keys_reservedNames]) ?_ fun p hp => ?_
  · rw [keys_reservedNames, ← hkeys, List.map_map]
    rfl
  · obtain ⟨e, he, rfl⟩ := List.mem_map.1 hp
    have hkey : e.1 ∈ env.reservedNames.map (·.1) := by
      rw [keys_reservedNames, ← hkeys]
      exact List.mem_map_of_mem he
    obtain ⟨q, hq, hqkey⟩ := List.mem_map.1 hkey
    have hinitial : (⟨none, e.1⟩, q.2) ∈ (State.initial env).components := mem_components_initial.2 (hqkey ▸ hq)
    exact mem_components_initial.1 ((h.keepsNames.trans hkeeps).settled _ _ _ hinitial (hall e he))

/-- **Type names of named schemas depend on their keys alone**: if two descriptions list the same keys of named schemas
in the same order, then the named schemas get the same type names, namely those that a new allocator gives out for the
Pascal cases of the keys, one after another. Nothing that has been asked before or after changes what they are called.
The keys of an object are distinct. -/
theorem typeNames_stable (hkeys : env'.rootKeys = env.rootKeys) (hdistinct : env.rootKeys.Nodup)
    (h : Session env s nodes) (h' : Session env' s' nodes') {entries entries' : List (String × Node)} {t t' : State}
    (hrun : (resolveComponents env).run s = .ok entries t)
    (hrun' : (resolveComponents env').run s' = .ok entries' t') :
    entries.map (fun e => (e.1, e.2.name)) =
      env.rootKeys.zip (({} : Allocator).allocateAll (env.rootKeys.map pascalCase)) ∧
    entries'.map (fun e => (e.1, e.2.name)) = entries.map (fun e => (e.1, e.2.name)) ∧
    ∀ p ∈ entries.map (fun e => (e.1, e.2.name)), s.Calls ⟨none, p.1⟩ p.2 ∧ s'.Calls ⟨none, p.1⟩ p.2 := by
  have hsame : env'.reservedNames = env.reservedNames := by rw [Env.reservedNames, hkeys, Env.reservedNames]
  have hdistinct' : env'.rootKeys.Nodup := hkeys ▸ hdistinct
  have hnames := h.resolveComponents_names hdistinct hrun
  have hnames' := h'.resolveComponents_names hdistinct' hrun'
  refine ⟨hnames, by rw [hnames, hnames', hsame], fun p hp => ?_⟩
  rw [hnames] at hp
  exact ⟨h.calls hdistinct p hp, h'.calls hdistinct' p (hsame ▸ hp)⟩

end Reserved

/-- Named schemas with the keys of `petsSchemas`: a text, and a record with a record inside. -/
def otherPetsSchemas : Json.Members :=
  [("pet", .obj [("type", .str "string")]),
    ("Pet", .obj [("properties", .obj [("2", .obj [("properties", .obj [])])])])]

/-- A resolver of `otherPetsSchemas` in explicit presence. -/
def otherPetsEnv : Env := ⟨schemasDescription otherPetsSchemas, .explicit⟩

/-- The state after an operation has asked for the name of a pet. -/
def otherPetsState : State :=
  { State.initial otherPetsEnv with names := ((State.initial otherPetsEnv).names.allocate "Pet").2 }

theorem otherPetsState_session : Session otherPetsEnv otherPetsState [] := .answered (.allocate "Pet") .start rfl

theorem resolveComponents_otherPets : Ends (resolveComponents otherPetsEnv) otherPetsState
    (fun _ t => (t.declarationsSince 0).map Node.name = ["Pet", "Pet2", "Pet2_2"]) fun _ _ => False := by
  decide +kernel

theorem typeNames_stable_pets : ∃ entries entries',
    otherPetsEnv.rootKeys = ["pet", "Pet"] ∧ Env.ResolvesTo ⟨schemasDescription petsSchemas, .standard⟩ entries ∧
    (∃ t', (resolveComponents otherPetsEnv).run otherPetsState = .ok entries' t') ∧
    entries.map (fun e => (e.1, e.2.name)) = [("pet", "Pet"), ("Pet", "Pet2")] ∧
    entries'.map (fun e => (e.1, e.2.name)) = entries.map (fun e => (e.1, e.2.name)) ∧
    ∀ p ∈ entries.map (fun e => (e.1, e.2.name)), otherPetsState.Calls ⟨none, p.1⟩ p.2 := by
  obtain ⟨entries, ⟨t, hrun⟩, hnames⟩ := Env.exists_resolvesTo typeNames?_pets.1
  obtain ⟨entries', t', hrun', -⟩ := resolveComponents_otherPets.exists_ok
  have hkeys : otherPetsEnv.rootKeys = Env.rootKeys ⟨schemasDescription petsSchemas, .standard⟩ := rfl
  obtain ⟨-, hsame, hcalls⟩ := typeNames_stable hkeys (by decide) .start otherPetsState_session hrun hrun'
  exact ⟨entries, entries', rfl, ⟨t, hrun⟩, ⟨t', hrun'⟩, hnames, hsame, fun p hp => (hcalls p hp).2⟩

end Schema

end ApiForge
