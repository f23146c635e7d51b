import ApiForge.Proofs.Run
import ApiForge.Proofs.Schema.Bare

/-!
# Resolving schemas in two presence modes

Two resolvers of one description that differ in the presence mode go through the same steps: they give out the same
names, take the same places and fail with the same errors, and their nodes differ in nothing but presence.

* `Mirrors m m'`: computations that go through the same steps, with nodes that differ in nothing but presence.
* `buildStep_mirrors`: one step mirrors another, if the builders of the parts do; hence so do `build`,
  `resolveComponents`, `resolveInline` and `synthesizeObject`.

A context is compared with itself under another presence mode, so everything else that is read from it is the same.
-/

namespace ApiForge.Schema

open Naming

/-- Computations of two resolvers that go through the same steps. -/
abbrev Mirrors {α β : Type} (R : α → β → Prop) (m : Resolve α) (m' : Resolve β) : Prop := Agree State.Like R m m'

/-- Builders that mirror one another whatever the presence modes are. -/
def BuildsAlike (build build' : Build) : Prop :=
  ∀ raw c p, Mirrors Node.Like (build raw c) (build' raw { c with presence := p })

/-! ## Names and places -/

theorem allocateName_mirrors (hint : String) : Mirrors Eq (allocateName hint) (allocateName hint) := by
  refine .modifyGet fun s t h => ?_
  rw [h.names]
  exact ⟨rfl, ⟨rfl, h.components, h.resolved, h.declared, h.rules⟩⟩

theorem declaredName_mirrors (c : Context) (p : Presence) :
    Mirrors Eq (declaredName c) (declaredName { c with presence := p }) := by
  unfold declaredName
  cases c.component with
  | none => exact allocateName_mirrors c.hint
  | some name => exact .pure rfl

theorem openSlot_mirrors : Mirrors Eq openSlot openSlot := by
  refine .modifyGet fun s t h => ⟨h.declared_size, ⟨h.names, h.components, h.resolved, ?_, h.rules⟩⟩
  simp only [Array.map_push, h.declared, Option.map_none]

theorem fillSlot_mirrors (slot : Nat) {n n' : Node} (hn : n.Like n') :
    Mirrors (fun _ _ => True) (fillSlot slot n) (fillSlot slot n') := by
  refine .modify fun s t h => ⟨h.names, h.components, h.resolved, ?_, h.rules⟩
  have hn : n.bare = n'.bare := hn
  simp only [Array.map_setIfInBounds, h.declared, Option.map_some, hn]

theorem openSlotIf_mirrors (wanted : Bool) : Mirrors Eq (openSlotIf wanted) (openSlotIf wanted) := by
  cases wanted
  · exact .pure rfl
  · exact openSlot_mirrors.map fun _ _ h => congrArg some h

theorem fillSlotIf_mirrors (slot : Option Nat) {n n' : Node} (hn : n.Like n') :
    Mirrors (fun _ _ => True) (fillSlotIf slot n) (fillSlotIf slot n') := by
  cases slot with
  | none => exact .pure trivial
  | some slot => exact fillSlot_mirrors slot hn

theorem declareNode_mirrors {n n' : Node} (hn : n.Like n') : Mirrors Node.Like (declareNode n) (declareNode n') := by
  have hd : n.declared = n'.declared := by rw [← n.bare_declared, hn, n'.bare_declared]
  unfold declareNode
  rw [hd]
  refine (openSlotIf_mirrors n'.declared).bind fun slot _ h => ?_
  subst h
  exact (fillSlotIf_mirrors slot hn).bind fun _ _ _ => .pure hn

/-- The rules of a field do not depend on presence. -/
theorem rulesOf_mirrors {n n' : Node} (hn : n.Like n') (required : Bool) :
    Mirrors Eq (rulesOf n required) (rulesOf n' required) := by
  refine .modifyGet fun s t h => ?_
  have hrules : s.rules.fieldRules n required = t.rules.fieldRules n' required := by
    rw [← RuleCache.fieldRules_bare, hn, RuleCache.fieldRules_bare, h.rules]
  have hcache := congrArg Prod.snd hrules
  exact ⟨(congrArg Prod.fst hrules :), ⟨h.names, h.components, h.resolved, h.declared, hcache⟩⟩

theorem constraintsAt_mirrors (ms : Json.Members) (c : Context) (p : Presence) :
    Mirrors Eq (constraintsAt ms c) (constraintsAt ms { c with presence := p }) := by
  unfold constraintsAt
  rw [show constraintsOf ms { c with presence := p } = constraintsOf ms c from rfl]
  cases constraintsOf ms c with
  | ok constraints => exact .pure rfl
  | error e => exact .throw e

/-! ## Nodes -/

section Nodes

variable {env env' : Env} {build build' : Build}

theorem scalarNode_mirrors (c : Context) (p : Presence) (kind : ScalarKind) (nullable : Bool) (ms : Json.Members) :
    Mirrors Node.Like (scalarNode c kind nullable ms) (scalarNode { c with presence := p } kind nullable ms) := by
  refine (constraintsAt_mirrors ms c p).bind fun constraints _ h => ?_
  subst h
  exact declareNode_mirrors rfl

theorem enumTexts_presence (c : Context) (p : Presence) :
    ∀ members, enumTexts { c with presence := p } members = enumTexts c members
  | [] => rfl
  | .str _ :: rest => by rw [enumTexts, enumTexts, enumTexts_presence c p rest]
  | .null :: rest => by rw [enumTexts, enumTexts, enumTexts_presence c p rest]
  | .bool _ :: _ | .num _ :: _ | .arr _ :: _ | .obj _ :: _ => rfl

theorem enumNode_mirrors (ms : Json.Members) (members : List Json) (nullable : Bool) (c : Context) (p : Presence) :
    Mirrors Node.Like (enumNode ms members nullable c) (enumNode ms members nullable { c with presence := p }) := by
  unfold enumNode
  rw [enumTexts_presence c p]
  split
  · exact .throw _
  · exact .throw _
  · refine (declaredName_mirrors c p).bind fun name _ h => ?_
    subst h
    refine openSlot_mirrors.bind fun slot _ h => ?_
    subst h
    refine (constraintsAt_mirrors ms c p).bind fun constraints _ h => ?_
    subst h
    exact (fillSlot_mirrors slot rfl).bind fun _ _ _ => .pure rfl

theorem elementNode_mirrors (hb : BuildsAlike build build') (ms : Json.Members) (c : Context) (p : Presence) :
    Mirrors Node.Like (elementNode build ms c) (elementNode build' ms { c with presence := p }) := by
  unfold elementNode
  split
  · exact hb _ c p
  · exact scalarNode_mirrors c p .any false []

theorem arrayNode_mirrors (hb : BuildsAlike build build') (ms : Json.Members) (nullable : Bool) (c : Context)
    (p : Presence) :
    Mirrors Node.Like (arrayNode build ms nullable c) (arrayNode build' ms nullable { c with presence := p }) := by
  refine (openSlotIf_mirrors c.component.isSome).bind fun slot _ h => ?_
  subst h
  refine (elementNode_mirrors hb ms (c.child (labelOf c ++ "Item")) p).bind fun element element' he => ?_
  refine (constraintsAt_mirrors ms c p).bind fun constraints _ h => ?_
  subst h
  have hn : ∀ name description, Node.Like
      ⟨name, .array element, c.component.isSome, nullable, none, constraints, description⟩
      ⟨name, .array element', c.component.isSome, nullable, none, constraints, description⟩ := by
    intro name description
    have he : element.bare = element'.bare := he
    simp only [Node.Like, Node.bare, Kind.bare, he]
  exact (fillSlotIf_mirrors slot (hn _ _)).bind fun _ _ _ => .pure (hn _ _)

/-- Fields are built alike: with the same names, rules and types up to presence. -/
theorem buildFields_mirrors (hb : BuildsAlike build build') (ownerName : String) (c : Context) (p : Presence) :
    ∀ (entries : List Entry) (taken : List String), Mirrors Field.Alike (buildFields build ownerName c taken entries)
      (buildFields build' ownerName { c with presence := p } taken entries)
  | [], _ => .pure rfl
  | e :: es, taken => by
    refine (hb e.schema (c.child (ownerName ++ pascalCase e.key)) p).bind fun type type' ht => ?_
    refine (rulesOf_mirrors ht e.required).bind fun rules _ h => ?_
    subst h
    refine (buildFields_mirrors hb ownerName c p es _).bind fun fs fs' hfs => .pure ?_
    have ht : type.bare = type'.bare := ht
    have hfs : fs.map Field.bare = fs'.map Field.bare := hfs
    simp only [Field.Alike, List.map_cons, Field.bare, ht, hfs]

/-- Records with fields that differ in nothing but presence. -/
theorem recordNode_like (name : String) {fs fs' : List Field} (h : Field.Alike fs fs') (nullable : Bool)
    (description : Option String) :
    (recordNode name fs nullable description).Like (recordNode name fs' nullable description) := by
  have h : fs.map Field.bare = fs'.map Field.bare := h
  simp only [Node.Like, recordNode, Node.bare, Kind.bare, Field.bareAll_eq, h]

theorem objectNode_mirrors (hb : BuildsAlike build build') (ms : Json.Members) (nullable : Bool) (c : Context)
    (p : Presence) :
    Mirrors Node.Like (objectNode build ms nullable c) (objectNode build' ms nullable { c with presence := p }) := by
  refine (declaredName_mirrors c p).bind fun name _ h => ?_
  subst h
  refine openSlot_mirrors.bind fun slot _ h => ?_
  subst h
  refine (buildFields_mirrors hb name c p _ []).bind fun fs fs' hfs => ?_
  have hn := recordNode_like name hfs nullable (textOf ms "description")
  exact (fillSlot_mirrors slot hn).bind fun _ _ _ => .pure hn

/-! ## Named schemas -/

theorem componentName_mirrors (key : RefKey) : Mirrors Eq (componentName key) (componentName key) := by
  refine Agree.get.bind fun s t h => ?_
  rw [h.components]
  split
  · exact .pure rfl
  · refine (allocateName_mirrors _).bind fun name _ h => ?_
    subst h
    refine Agree.bind (.modify fun s t h => ?_) fun _ _ _ => .pure rfl
    exact ⟨h.names, by rw [h.components], h.resolved, h.declared, h.rules⟩

theorem buildKey_mirrors (hb : BuildsAlike build build') (key : RefKey) (raw : Json) (stack : List RefKey) :
    Mirrors Node.Like (buildKey env build key raw stack) (buildKey env' build' key raw stack) := by
  refine (componentName_mirrors key).bind fun name _ h => ?_
  subst h
  refine (hb raw (.ofKey env key name stack) env'.presence).bind fun n n' hn => ?_
  refine Agree.bind (.modify fun s t h => ⟨h.names, h.components, ?_, h.declared, h.rules⟩) fun _ _ _ => .pure hn
  have hn : n.bare = n'.bare := hn
  simp only [List.map_cons, h.resolved, Prod.map, hn]

theorem resolveKey_mirrors (hd : env.description = env'.description) (hb : BuildsAlike build build') (key : RefKey)
    (owner reference : String) (stack : List RefKey) : Mirrors Node.Like
      (resolveKey env build key owner reference stack) (resolveKey env' build' key owner reference stack) := by
  refine Agree.get.bind fun s t h => ?_
  have hfind := h.find?_resolved key
  have hraw : env.rawSchema? key = env'.rawSchema? key := by rw [Env.rawSchema?, hd, Env.rawSchema?]
  cases hs : s.resolved.find? (·.1 == key) with
  | some entry =>
    cases ht : t.resolved.find? (·.1 == key) with
    | some entry' =>
      rw [hs, ht] at hfind
      exact .pure (Option.some.inj hfind)
    | none =>
      rw [hs, ht] at hfind
      cases hfind
  | none =>
    cases ht : t.resolved.find? (·.1 == key) with
    | some entry' =>
      rw [hs, ht] at hfind
      cases hfind
    | none =>
      dsimp only
      rw [hraw]
      split
      · exact .throw _
      · split
        · exact .throw _
        · exact buildKey_mirrors hb key _ stack

theorem resolveRef_mirrors (hd : env.description = env'.description) (hb : BuildsAlike build build')
    (reference : String) (c : Context) (p : Presence) :
    Mirrors Node.Like (resolveRef env build reference c)
      (resolveRef env' build' reference { c with presence := p }) := by
  unfold resolveRef
  rw [show parseRef reference { c with presence := p } = parseRef reference c from rfl]
  split
  · exact .throw _
  · exact resolveKey_mirrors hd hb _ c.owner reference c.stack

theorem referenceNode_mirrors {target target' : Node} (ht : target.Like target') (nullable : Bool) (c : Context)
    (p : Presence) :
    Mirrors Node.Like (referenceNode target nullable c) (referenceNode target' nullable { c with presence := p }) := by
  have hname : target.name = target'.name := by rw [← target.bare_name, ht, target'.bare_name]
  have ht : target.bare = target'.bare := ht
  refine declareNode_mirrors ?_
  simp only [Node.Like, Node.bare, Kind.bare, ht, hname]

/-! ## Compositions -/

/-- Collected fields that differ in nothing but presence, with the same required keys. -/
structure Merged.Like (m m' : Merged) : Prop where
  fields : Field.Alike m.fields m'.fields
  required : m.required = m'.required

/-- Merging fields and changing them in something else than their wire keys commute. -/
theorem map_mergeField {g : Field → Field} (hg : ∀ f, (g f).wireKey = f.wireKey) (fs : List Field) (f : Field) :
    (mergeField fs f).map g = mergeField (fs.map g) (g f) := by
  have hany : (fs.map g).any (·.wireKey == (g f).wireKey) = fs.any (·.wireKey == f.wireKey) := by
    rw [List.any_map, hg]
    exact congrArg fs.any (funext fun f' => by rw [Function.comp_apply, hg])
  unfold mergeField
  rw [hany]
  split
  · rw [List.map_map, List.map_map]
    refine List.map_congr_left fun f' _ => ?_
    rw [Function.comp_apply, Function.comp_apply, hg, hg]
    exact apply_ite g (f'.wireKey == f.wireKey) f f'
  · rw [List.map_append]
    rfl

theorem map_foldl_mergeField {g : Field → Field} (hg : ∀ f, (g f).wireKey = f.wireKey) :
    ∀ gs fs : List Field, (fs.foldl mergeField gs).map g = (fs.map g).foldl mergeField (gs.map g)
  | _, [] => rfl
  | gs, f :: fs => by
    rw [List.foldl_cons, map_foldl_mergeField hg, map_mergeField hg, List.map_cons, List.foldl_cons]

/-- Fields that differ in nothing but presence are merged alike. -/
theorem Merged.Like.merge {fs fs' : List Field} {m m' : Merged} (hm : m.Like m') (hfs : Field.Alike fs fs') :
    (m.merge fs).Like (m'.merge fs') := by
  refine ⟨?_, hm.required⟩
  have hfields : m.fields.map Field.bare = m'.fields.map Field.bare := hm.fields
  have hfs : fs.map Field.bare = fs'.map Field.bare := hfs
  have hkey : ∀ f : Field, f.bare.wireKey = f.wireKey := fun _ => rfl
  simp only [Field.Alike, Merged.merge, map_foldl_mergeField hkey, hfields, hfs]

theorem Merged.Like.require {m m' : Merged} (hm : m.Like m') (keys : List String) :
    (m.require keys).Like (m'.require keys) := ⟨hm.fields, by rw [Merged.require, hm.required, Merged.require]⟩

/-- Ways to collect inline members that mirror one another. -/
def MergesAlike (inline inline' : Json.Members → Merged → Resolve Merged) : Prop :=
  ∀ ms m m', m.Like m' → Mirrors Merged.Like (inline ms m) (inline' ms m')

theorem referredFields_mirrors (hd : env.description = env'.description) (hb : BuildsAlike build build')
    (reference : String) (c : Context) (p : Presence) : Mirrors Field.Alike
      (referredFields env build reference c) (referredFields env' build' reference { c with presence := p }) := by
  refine (resolveRef_mirrors hd hb reference c p).bind fun target target' ht => ?_
  have hobject : target.isObject = target'.isObject := by rw [← target.bare_isObject, ht, target'.bare_isObject]
  rw [hobject]
  split
  · exact .pure (by rw [Field.Alike, ← target.bare_fields, ht, target'.bare_fields])
  · exact .throw _

section Merging

variable {inline inline' : Json.Members → Merged → Resolve Merged}

theorem mergeMember_mirrors (hd : env.description = env'.description) (hb : BuildsAlike build build')
    (hi : MergesAlike inline inline') (c : Context) (p : Presence) :
    MergesAlike (mergeMember env build inline c) (mergeMember env' build' inline' { c with presence := p }) := by
  intro ms m m' hm
  unfold mergeMember
  split
  · exact (referredFields_mirrors hd hb _ c p).map fun _ _ hfs => hm.merge hfs
  · exact hi ms m m' hm

theorem mergeMembers_mirrors (hd : env.description = env'.description) (hb : BuildsAlike build build')
    (hi : MergesAlike inline inline') (c : Context) (p : Presence) :
    ∀ (members : List Json) (m m' : Merged), m.Like m' →
      Mirrors Merged.Like (mergeMembers env build inline c members m)
        (mergeMembers env' build' inline' { c with presence := p } members m')
  | [], _, _, hm => .pure hm
  | .obj ms :: rest, m, m', hm =>
    (mergeMember_mirrors hd hb hi c p ms m m' hm).bind fun _ _ hm₁ => mergeMembers_mirrors hd hb hi c p rest _ _ hm₁
  | .null :: _, _, _, _ | .bool _ :: _, _, _, _ | .num _ :: _, _, _, _ | .str _ :: _, _, _, _
  | .arr _ :: _, _, _, _ => .throw _

theorem mergeList_mirrors (hd : env.description = env'.description) (hb : BuildsAlike build build')
    (hi : MergesAlike inline inline') (c : Context) (p : Presence) : ∀ (list : Option Json) (m m' : Merged), m.Like m' →
      Mirrors Merged.Like (mergeList env build inline c list m)
        (mergeList env' build' inline' { c with presence := p } list m')
  | none, _, _, hm => .pure hm
  | some (.arr members), _, _, hm => mergeMembers_mirrors hd hb hi c p members _ _ hm
  | some .null, _, _, _ | some (.bool _), _, _, _ | some (.num _), _, _, _ | some (.str _), _, _, _
  | some (.obj _), _, _, _ => .throw _

end Merging

theorem mergeOwn_mirrors (hb : BuildsAlike build build') (ownerName : String) (c : Context) (p : Presence) :
    MergesAlike (mergeOwn build ownerName c) (mergeOwn build' ownerName { c with presence := p }) := by
  intro ms m m' hm
  unfold mergeOwn
  split
  · refine (buildFields_mirrors hb ownerName c p _ []).bind fun _ _ hfs => .pure ?_
    exact (hm.require _).merge hfs
  · exact .throw _

theorem mergeAllOf_mirrors (hd : env.description = env'.description) (hb : BuildsAlike build build')
    (ownerName : String) (c : Context) (p : Presence) : ∀ levels, MergesAlike (mergeAllOf env build ownerName c levels)
      (mergeAllOf env' build' ownerName { c with presence := p } levels)
  | 0 => fun _ _ _ hm => .pure hm
  | levels + 1 => by
    intro ms m m' hm
    have hinline := mergeAllOf_mirrors hd hb ownerName c p levels
    refine (mergeList_mirrors hd hb hinline c p _ m m' hm).bind fun m₁ m₁' hm₁ => ?_
    exact mergeOwn_mirrors hb ownerName c p ms m₁ m₁' hm₁

/-- Fields that become required get the same rules. -/
theorem settleFields_mirrors (c : Context) (p : Presence) (required : List String) :
    ∀ (fs fs' : List Field) (taken : List String), Field.Alike fs fs' → Mirrors Field.Alike
      (settleFields c required taken fs) (settleFields { c with presence := p } required taken fs')
  | [], [], _, _ => .pure rfl
  | [], _ :: _, _, h | _ :: _, [], _, h => by cases h
  | f :: fs, f' :: fs', taken, h => by
    obtain ⟨hf, hfs⟩ := List.cons.inj h
    obtain ⟨hname, hkey, htype, hreq, hrules, hdesc⟩ := Field.bare_eq hf
    have hsettled : ∀ must, Mirrors Eq (settledRules f must) (settledRules f' must) := by
      intro must
      unfold settledRules
      rw [hreq, hrules]
      split
      · exact rulesOf_mirrors htype must
      · exact .pure rfl
    unfold settleFields
    rw [hreq, hkey, hname]
    refine (hsettled _).bind fun rules _ h => ?_
    subst h
    refine (settleFields_mirrors c p required fs fs' _ hfs).bind fun gs gs' hgs => .pure ?_
    have hgs : gs.map Field.bare = gs'.map Field.bare := hgs
    simp only [Field.Alike, List.map_cons, Field.bare, htype, hdesc, hgs]

theorem allOfNode_mirrors (hd : env.description = env'.description) (hb : BuildsAlike build build') (ms : Json.Members)
    (c : Context) (p : Presence) :
    Mirrors Node.Like (allOfNode env build ms c) (allOfNode env' build' ms { c with presence := p }) := by
  refine (declaredName_mirrors c p).bind fun name _ h => ?_
  subst h
  refine openSlot_mirrors.bind fun slot _ h => ?_
  subst h
  refine (mergeAllOf_mirrors hd hb name c p _ ms {} {} ⟨rfl, rfl⟩).bind fun merged merged' hm => ?_
  rw [hm.required]
  refine (settleFields_mirrors c p merged'.required merged.fields merged'.fields [] hm.fields).bind fun fs fs' hfs => ?_
  have hn := recordNode_like name hfs (flag ms "nullable") (textOf ms "description")
  exact (fillSlot_mirrors slot hn).bind fun _ _ _ => .pure hn

theorem makeNullable_mirrors {n n' : Node} (hn : n.Like n') : Mirrors Node.Like (makeNullable n) (makeNullable n') := by
  have hd : n.declared = n'.declared := by rw [← n.bare_declared, hn, n'.bare_declared]
  have hbare : ({ n with nullable := true } : Node).bare = ({ n' with nullable := true } : Node).bare := by
    have hb : n.bare = n'.bare := hn
    obtain ⟨_, _, _, _, _, _, _⟩ := n
    obtain ⟨_, _, _, _, _, _, _⟩ := n'
    simp only [Node.bare, Node.mk.injEq] at hb ⊢
    simp only [hb, and_self]
  refine Agree.bind (.modify fun s t h => ⟨h.names, h.components, h.resolved, ?_, h.rules⟩) fun _ _ _ => .pure hbare
  dsimp only
  rw [apply_ite (Array.map (Option.map Node.bare)), apply_ite (Array.map (Option.map Node.bare)), map_replaceDeclared,
    map_replaceDeclared, hbare, h.declared, hd]

theorem unionNode_mirrors (hb : BuildsAlike build build') (members : Json) (c : Context) (p : Presence) :
    Mirrors Node.Like (unionNode build members c) (unionNode build' members { c with presence := p }) := by
  unfold unionNode
  split
  · exact .throw _
  · split
    · refine (hb _ c p).bind fun n n' hn => ?_
      have hnull : n.nullable = n'.nullable := by rw [← n.bare_nullable, hn, n'.bare_nullable]
      rw [hnull]
      split
      · exact .pure hn
      · exact makeNullable_mirrors hn
    · exact .throw _

/-! ## Schemas -/

theorem typedNode_mirrors (hb : BuildsAlike build build') (ms : Json.Members) (c : Context) (p : Presence) :
    Mirrors Node.Like (typedNode build ms c) (typedNode build' ms { c with presence := p }) := by
  unfold typedNode
  rw [show typeOf ms { c with presence := p } = typeOf ms c from rfl]
  split
  · exact .throw _
  · dsimp only
    split
    · exact objectNode_mirrors hb ms _ c p
    · exact arrayNode_mirrors hb ms _ c p
    · split
      · exact enumNode_mirrors ms _ _ c p
      · exact scalarNode_mirrors c p _ _ ms
    · exact scalarNode_mirrors c p .integer _ ms
    · exact scalarNode_mirrors c p .number _ ms
    · exact scalarNode_mirrors c p .boolean _ ms
    · exact scalarNode_mirrors c p .any _ ms
    · exact .throw _

theorem formNode_mirrors (hd : env.description = env'.description) (hb : BuildsAlike build build') (ms : Json.Members)
    (c : Context) (p : Presence) :
    Mirrors Node.Like (formNode env build ms c) (formNode env' build' ms { c with presence := p }) := by
  unfold formNode
  split
  · refine (resolveRef_mirrors hd hb _ c p).bind fun target target' ht => ?_
    exact referenceNode_mirrors ht _ c p
  · split
    · exact allOfNode_mirrors hd hb ms c p
    · split
      · exact unionNode_mirrors hb _ c p
      · exact typedNode_mirrors hb ms c p

/-- One step mirrors another, if the builders of the parts do. -/
theorem buildStep_mirrors (hd : env.description = env'.description) (hb : BuildsAlike build build') :
    BuildsAlike (buildStep env build) (buildStep env' build') := by
  intro raw c p
  unfold buildStep
  split
  · exact formNode_mirrors hd hb _ c p
  · exact scalarNode_mirrors c p .any false []
  · exact .throw _

/-- **Builds mirror one another** in all presence modes. -/
theorem build_mirrors (hd : env.description = env'.description) :
    ∀ steps, BuildsAlike (Schema.build env steps) (Schema.build env' steps)
  | 0 => fun _ _ _ => .throw _
  | steps + 1 => buildStep_mirrors hd (build_mirrors hd steps)

end Nodes

/-! ## Resolvers -/

section Resolvers

variable {env env' : Env}

theorem steps_eq (hd : env.description = env'.description) (depth : Nat) : env.steps depth = env'.steps depth := by
  simp only [Env.steps, Env.keyCount, Env.depth, hd]

theorem resolveKeys_mirrors {build build' : Build} (hd : env.description = env'.description)
    (hb : BuildsAlike build build') : ∀ keys, Mirrors (fun _ _ => True) (resolveKeys env build keys)
      (resolveKeys env' build' keys)
  | [] => .pure trivial
  | _ :: keys =>
    (resolveKey_mirrors hd hb _ _ _ []).bind fun _ _ _ =>
      (resolveKeys_mirrors hd hb keys).bind fun _ _ _ => .pure trivial

theorem resolveComponents_mirrors (hd : env.description = env'.description) :
    Mirrors (fun _ _ => True) (resolveComponents env) (resolveComponents env') := by
  unfold resolveComponents
  rw [steps_eq hd, Env.rootKeys, hd]
  exact resolveKeys_mirrors hd (build_mirrors hd _) _

theorem resolveInline_mirrors (hd : env.description = env'.description) (raw : Json) (hint owner : String) :
    Mirrors Node.Like (resolveInline env raw hint owner) (resolveInline env' raw hint owner) := by
  unfold resolveInline
  rw [steps_eq hd]
  exact build_mirrors hd _ raw ⟨none, owner, hint, none, env.presence, []⟩ env'.presence

theorem synthesizeObject_mirrors (hd : env.description = env'.description) (hint : String) (members : List Member)
    (p p' : Presence) (owner : String) : Mirrors Node.Like (synthesizeObject env hint members p owner)
      (synthesizeObject env' hint members p' owner) := by
  refine (allocateName_mirrors hint).bind fun name _ h => ?_
  subst h
  refine openSlot_mirrors.bind fun slot _ h => ?_
  subst h
  dsimp only
  rw [steps_eq hd]
  refine (buildFields_mirrors (build_mirrors hd _) name ⟨none, owner, name, none, p, []⟩ p' _ []).bind ?_
  intro fs fs' hfs
  have hn := recordNode_like name hfs false none
  exact (fillSlot_mirrors slot hn).bind fun _ _ _ => .pure hn

end Resolvers

end ApiForge.Schema
