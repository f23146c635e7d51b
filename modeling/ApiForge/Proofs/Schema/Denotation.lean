import ApiForge.Proofs.Schema.Outline
import ApiForge.Proofs.Schema.Presence
import ApiForge.Proofs.Schema.Traversal

/-!
# The outlines that schemas denote

A resolver goes through the named schemas in some order, keeps what it has found and gives out names on the way. The
outlines of its nodes depend on none of this. A view reads an outline off the raw schemas: it has no state, and it reads
a named schema anew wherever it is referred to.

* `Place`: what an outline depends on beside the raw schema.
* `view look i`: reading a schema in at most `i` steps within one another, where `look` finds named schemas.
* `Tends f o`: in enough steps, the reading `f` gives `o`.
* `Follows env erase s m read`: from a state whose nodes are as they are read, `m` ends as `read` tends to: with what is
  read, apart from names, or with an error where nothing is read. Only an error about a cycle says nothing.

Every function of the resolver follows its view (`buildStep_follows`), if the builder of the parts does, hence so does
`build` (`build_follows`). Proof: step by step; what changes names, places or rules is silent (`Silent`).
-/

namespace ApiForge.Schema

open Json Naming

/-! ## Views -/

/-- Where a schema stands, as far as its outline depends on it. -/
structure Place where
  doc : Option String
  /-- Whether the schema is a named one. -/
  named : Bool
  presence : Presence

/-- The place of a part of a schema. -/
def Place.part (p : Place) : Place := { p with named := false }

/-- A context in a place. -/
def Place.context (p : Place) : Context := ⟨p.doc, "", "", none, p.presence, []⟩

/-- The place of a context. -/
def Context.place (c : Context) : Place := ⟨c.doc, c.component.isSome, c.presence⟩

/-- How a raw schema is read. -/
abbrev View := Json → Place → Option Node

/-- The named schemas, each with its place. -/
abbrev Lookup := RefKey → Option (Json × Place)

/-- The named schemas of a description. -/
def Env.lookup (env : Env) : Lookup := fun key =>
  (env.rawSchema? key).map fun raw => (raw, ⟨key.doc, true, env.presence⟩)

/-! What follows reads off what the functions of the resolver build, one by one: with the same members, in the same
order, and without a result where they fail. -/

def viewScalar (p : Place) (kind : ScalarKind) (nullable : Bool) (ms : Members) : Option Node := do
  let constraints ← (constraintsOf ms p.context).toOption
  let oneOf := (((ms.get? "enum").bind Json.items?).getD []).filter (!·.isNull)
  return ⟨"", .scalar kind, p.named, nullable, textOf ms "format", { constraints with oneOf }, textOf ms "description"⟩

def viewEnum (ms : Members) (members : List Json) (nullable : Bool) (p : Place) : Option Node := do
  match (enumTexts p.context members).toOption with
  | none => none
  | some [] => none
  | some texts =>
    let constraints ← (constraintsOf ms p.context).toOption
    return ⟨"", .enumeration texts, true, nullable, none, constraints, textOf ms "description"⟩

def viewElement (view : View) (ms : Members) (p : Place) : Option Node :=
  match ms.get? "items" with
  | some items => view items p
  | none => viewScalar p .any false []

def viewArray (view : View) (ms : Members) (nullable : Bool) (p : Place) : Option Node := do
  let element ← viewElement view ms p.part
  let constraints ← (constraintsOf ms p.context).toOption
  return ⟨"", .array element, p.named, nullable, none, constraints, textOf ms "description"⟩

def viewFields (view : View) (p : Place) (taken : List String) : List Entry → Option (List Field)
  | [] => some []
  | e :: es => do
    let type ← view e.schema p.part
    let name := uniqueIdent taken (fieldIdent e.key)
    let fields ← viewFields view p (name :: taken) es
    return ⟨name, e.key, type, e.required, optionalPresence e.required p.presence, [], e.description⟩ :: fields

def viewObject (view : View) (ms : Members) (nullable : Bool) (p : Place) : Option Node := do
  let fields ← viewFields view p [] (entriesOf ms (textsOf ms "required").contains)
  return recordNode "" fields nullable (textOf ms "description")

def viewKey (look : Lookup) (view : View) (key : RefKey) : Option Node := do
  let (raw, p) ← look key
  view raw p

def viewRef (look : Lookup) (view : View) (reference : String) (p : Place) : Option Node := do
  let key ← (parseRef reference p.context).toOption
  viewKey look view key

def viewReference (target : Node) (nullable : Bool) (p : Place) : Node :=
  ⟨"", .reference target, p.named, nullable, none, {}, none⟩

section Compositions

variable (look : Lookup) (view : View) (inline : Members → Merged → Option Merged) (p : Place)

def viewReferred (reference : String) : Option (List Field) := do
  let target ← viewRef look view reference p
  if target.isObject then return target.fields else none

def viewMember (ms : Members) (m : Merged) : Option Merged :=
  match textOf ms "$ref" with
  | some reference => do
    let fields ← viewReferred look view p reference
    return m.merge fields
  | none => inline ms m

def viewMembers : List Json → Merged → Option Merged
  | [], m => some m
  | .obj ms :: rest, m => do
    let m ← viewMember look view inline p ms m
    viewMembers rest m
  | _ :: _, _ => none

def viewList : Option Json → Merged → Option Merged
  | none, m => some m
  | some (.arr members), m => viewMembers look view inline p members m
  | some _, _ => none

def viewOwn (ms : Members) (m : Merged) : Option Merged :=
  if isComposable ms then do
    let fields ← viewFields view p [] (entriesOf ms fun _ => false)
    return (m.require (textsOf ms "required")).merge fields
  else none

def viewAllOf : (levels : Nat) → Members → Merged → Option Merged
  | 0, _, m => some m
  | levels + 1, ms, m => do
    let m ← viewList look view (viewAllOf levels) p (ms.get? "allOf") m
    viewOwn view p ms m

/-- The collected fields with their final presence and identifiers. -/
def settled (presence : Presence) (required : List String) (taken : List String) : List Field → List Field
  | [] => []
  | f :: fs =>
    let must := f.required || required.contains f.wireKey
    let name := uniqueIdent taken f.name
    { f with name, required := must, optionalPresence := optionalPresence must presence } ::
      settled presence required (name :: taken) fs

def viewComposition (ms : Members) : Option Node := do
  let merged ← viewAllOf look view p (Json.membersDepth ms + 1) ms {}
  let fields := settled p.presence merged.required [] merged.fields
  return recordNode "" fields (flag ms "nullable") (textOf ms "description")

def viewUnion (members : Json) : Option Node :=
  match members.items? with
  | none => none
  | some members =>
    match members.filter (!isNullMember ·) with
    | [single] => do
      let node ← view single p
      return if node.nullable || !members.any isNullMember then node else { node with nullable := true }
    | _ => none

def viewTyped (ms : Members) : Option Node :=
  match (typeOf ms p.context).toOption with
  | none => none
  | some (type, listed) =>
    let nullable := listed || flag ms "nullable"
    match type with
    | some "object" => viewObject view ms nullable p
    | some "array" => viewArray view ms nullable p
    | some "string" =>
      match (ms.get? "enum").bind Json.items? with
      | some members => viewEnum ms members nullable p
      | none => viewScalar p (if textOf ms "format" == some "date-time" then .dateTime else .string) nullable ms
    | some "integer" => viewScalar p .integer nullable ms
    | some "number" => viewScalar p .number nullable ms
    | some "boolean" => viewScalar p .boolean nullable ms
    | none => viewScalar p .any nullable ms
    | some _ => none

def viewForm (ms : Members) : Option Node :=
  match textOf ms "$ref" with
  | some reference => do
    let target ← viewRef look view reference p
    return viewReference target (flag ms "nullable") p
  | none =>
    if ms.has "allOf" then viewComposition look view p ms
    else match (ms.get? "oneOf").or (ms.get? "anyOf") with
      | some members => viewUnion view p members
      | none => viewTyped view p ms

end Compositions

/-- Reads a schema, given how its parts are read. -/
def viewStep (look : Lookup) (view : View) : View := fun raw p =>
  match raw with
  | .obj ms => viewForm look view p ms
  | .bool true => viewScalar p .any false []
  | _ => none

/-- Reads a schema in at most `steps` steps within one another. -/
def view (look : Lookup) : (steps : Nat) → View
  | 0 => fun _ _ => none
  | steps + 1 => viewStep look (view look steps)

/-! ## What readings tend to -/

/-- A reading that gives one result in enough steps. -/
def Tends {α : Type} (f : Nat → Option α) (o : Option α) : Prop := ∃ enough, ∀ i, enough ≤ i → f i = o

section Tends

variable {α β : Type} {f : Nat → Option α} {g : Nat → α → Option β} {a : α} {o o' : Option α} {r : Option β}

theorem Tends.const (o : Option α) : Tends (fun _ => o) o := ⟨0, fun _ _ => rfl⟩

theorem Tends.unique (h : Tends f o) (h' : Tends f o') : o = o' := by
  obtain ⟨i, hi⟩ := h
  obtain ⟨j, hj⟩ := h'
  rw [← hi (max i j) (Nat.le_max_left _ _), hj (max i j) (Nat.le_max_right _ _)]

/-- A result that is read in one step more. -/
theorem Tends.succ (h : Tends (fun i => f (i + 1)) o) : Tends f o := by
  obtain ⟨enough, h⟩ := h
  refine ⟨enough + 1, fun i hi => ?_⟩
  obtain ⟨j, rfl⟩ : ∃ j, i = j + 1 := ⟨i - 1, by omega⟩
  exact h j (by omega)

theorem Tends.bind (h : Tends f (some a)) (hg : Tends (fun i => g i a) r) : Tends (fun i => f i >>= g i) r := by
  obtain ⟨i, hi⟩ := h
  obtain ⟨j, hj⟩ := hg
  refine ⟨max i j, fun k hk => ?_⟩
  have hf : f k = some a := hi k (by omega)
  have hg : g k a = r := hj k (by omega)
  simp only [hf]
  exact hg

theorem Tends.bind_none (h : Tends f none) : Tends (fun i => f i >>= g i) none := by
  obtain ⟨i, hi⟩ := h
  refine ⟨i, fun k hk => ?_⟩
  simp only [hi k hk]
  rfl

end Tends

/-! ## Runs that follow readings -/

/-- A state in which the resolved nodes have the outlines that are read for their keys. -/
def State.Viewed (env : Env) (s : State) : Prop :=
  ∀ k n, (k, n) ∈ s.resolved → Tends (fun i => viewKey env.lookup (view env.lookup i) k) (some n.outline)

/-- An error about a cycle. -/
def IsCyclic : CompileError → Prop
  | .cyclicSchema _ => True
  | _ => False

/-- A computation that ends as a reading tends to. -/
def Follows {α β : Type} (env : Env) (erase : α → β) (s : State) (m : Resolve α) (read : Nat → Option β) : Prop :=
  s.Viewed env → Ends m s (fun a s' => s'.Viewed env ∧ Tends read (some (erase a)))
    fun e _ => IsCyclic e ∨ Tends read none

/-- A computation that gives a result with `P` and resolves no key. -/
def Silent {α : Type} (m : Resolve α) (P : α → Prop) : Prop :=
  ∀ s, Ends m s (fun a s' => s'.resolved = s.resolved ∧ P a) fun _ _ => False

section Follows

variable {α β γ δ : Type} {env : Env} {s : State} {erase : α → β} {erase' : γ → δ} {read : Nat → Option β}
  {next : Nat → β → Option δ} {m : Resolve α} {f : α → Resolve γ} {P : α → Prop} {Q : γ → Prop}

theorem Follows.pure {a : α} (h : Tends read (some (erase a))) : Follows env erase s (pure a) read :=
  fun hs => ends_pure.2 ⟨hs, h⟩

theorem Follows.throw {e : CompileError} (h : Tends read none) : Follows env erase s (throw e) read :=
  fun _ => ends_throw.2 (.inr h)

theorem follows_cyclic {chain : List String} : Follows env erase s (throw (.cyclicSchema chain)) read :=
  fun _ => ends_throw.2 (.inl trivial)

theorem Follows.bind (h : Follows env erase s m read)
    (hf : ∀ a s₁, Follows env erase' s₁ (f a) fun i => next i (erase a)) :
    Follows env erase' s (m >>= f) fun i => read i >>= next i := by
  intro hs
  refine ends_bind.2 ((h hs).mono (fun a s₁ ⟨hs₁, ha⟩ => ?_) fun e s₁ he => he.imp_right Tends.bind_none)
  exact (hf a s₁ hs₁).mono (fun b s₂ ⟨hs₂, hb⟩ => ⟨hs₂, ha.bind hb⟩) fun e s₂ he => he.imp_right ha.bind

theorem Silent.pure {a : α} (h : P a) : Silent (pure a) P := fun _ => ends_pure.2 ⟨rfl, h⟩

theorem Silent.bind (h : Silent m P) (hf : ∀ a, P a → Silent (f a) Q) : Silent (m >>= f) Q := by
  intro s
  refine ends_bind.2 ((h s).mono (fun a s₁ ⟨hsame, ha⟩ => ?_) fun _ _ h => h)
  exact (hf a ha s₁).mono (fun b s₂ ⟨hsame', hb⟩ => ⟨hsame'.trans hsame, hb⟩) fun _ _ h => h

/-- What is silent does not show in what is read. -/
theorem Silent.andThen {read : Nat → Option δ} (h : Silent m P)
    (hf : ∀ a s₁, P a → Follows env erase' s₁ (f a) read) : Follows env erase' s (m >>= f) read := by
  intro hs
  refine ends_bind.2 ((h s).mono (fun a s₁ ⟨hsame, ha⟩ => ?_) fun _ _ h => h.elim)
  refine hf a s₁ ha fun k n hn => hs k n ?_
  rwa [← hsame]

theorem Silent.follows (h : Silent m P) (hP : ∀ a, P a → Tends read (some (erase a))) :
    Follows env erase s m read := by
  intro hs
  refine (h s).mono (fun a s₁ ⟨hsame, ha⟩ => ⟨fun k n hn => hs k n ?_, hP a ha⟩) fun _ _ h => h.elim
  rwa [← hsame]

end Follows

/-! ## Names, places and rules -/

theorem allocateName_silent (hint : String) : Silent (allocateName hint) fun _ => True := fun _ => ⟨rfl, trivial⟩

theorem declaredName_silent (c : Context) : Silent (declaredName c) fun _ => True := by
  unfold declaredName
  split
  · exact .pure trivial
  · exact allocateName_silent _

theorem openSlot_silent : Silent openSlot fun _ => True := fun _ => ⟨rfl, trivial⟩

theorem fillSlot_silent (slot : Nat) (n : Node) : Silent (fillSlot slot n) fun _ => True := fun _ => ⟨rfl, trivial⟩

theorem openSlotIf_silent (wanted : Bool) : Silent (openSlotIf wanted) fun _ => True := by
  cases wanted
  · exact .pure trivial
  · exact fun _ => ⟨rfl, trivial⟩

theorem fillSlotIf_silent (slot : Option Nat) (n : Node) : Silent (fillSlotIf slot n) fun _ => True := by
  cases slot with
  | none => exact .pure trivial
  | some slot => exact fillSlot_silent slot n

theorem declareNode_silent (n : Node) : Silent (declareNode n) fun n' => n' = n :=
  (openSlotIf_silent _).bind fun _ _ => (fillSlotIf_silent _ _).bind fun _ _ => .pure rfl

theorem rulesOf_silent (n : Node) (required : Bool) : Silent (rulesOf n required) fun _ => True :=
  fun _ => ⟨rfl, trivial⟩

theorem componentName_silent (key : RefKey) : Silent (componentName key) fun _ => True := by
  intro s
  refine ends_bind.2 (ends_get.2 ?_)
  split
  · exact ends_pure.2 ⟨rfl, trivial⟩
  · exact ⟨rfl, trivial⟩

theorem makeNullable_silent (n : Node) : Silent (makeNullable n) fun n' => n' = { n with nullable := true } :=
  fun _ => ⟨rfl, rfl⟩

theorem settledRules_silent (f : Field) (required : Bool) : Silent (settledRules f required) fun _ => True := by
  unfold settledRules
  split
  · exact rulesOf_silent _ _
  · exact .pure trivial

/-! ## Nodes without references -/

theorem toOption_constraintsOf (ms : Members) (c c' : Context) :
    (constraintsOf ms c).toOption = (constraintsOf ms c').toOption := by
  unfold constraintsOf
  cases textOf ms "pattern" with
  | none => rfl
  | some source =>
    dsimp only
    cases TextPattern.parse? source <;> rfl

theorem toOption_enumTexts (c c' : Context) :
    ∀ members, (enumTexts c members).toOption = (enumTexts c' members).toOption
  | [] => rfl
  | .str s :: rest => by
    have ih := toOption_enumTexts c c' rest
    rw [enumTexts, enumTexts]
    cases h : enumTexts c rest <;> cases h' : enumTexts c' rest <;> rw [h, h'] at ih <;> cases ih <;> rfl
  | .null :: rest => toOption_enumTexts c c' rest
  | .bool _ :: _ | .num _ :: _ | .arr _ :: _ | .obj _ :: _ => rfl

section Nodes

variable {env : Env} {build : Build} {s : State}

theorem constraintsAt_follows (ms : Members) (c : Context) :
    Follows env id s (constraintsAt ms c) fun _ => (constraintsOf ms c.place.context).toOption := by
  rw [toOption_constraintsOf ms c.place.context c]
  unfold constraintsAt
  cases constraintsOf ms c with
  | ok constraints => exact .pure (.const _)
  | error e => exact .throw (.const _)

theorem scalarNode_follows (c : Context) (kind : ScalarKind) (nullable : Bool) (ms : Members) :
    Follows env Node.outline s (scalarNode c kind nullable ms) fun _ => viewScalar c.place kind nullable ms := by
  refine (constraintsAt_follows ms c).bind fun constraints s₁ => ?_
  refine (declareNode_silent _).follows fun n hn => ?_
  rw [hn, Node.outline, Node.blank, Kind.blank]
  exact .const _

theorem enumNode_follows (ms : Members) (members : List Json) (nullable : Bool) (c : Context) :
    Follows env Node.outline s (enumNode ms members nullable c) fun _ => viewEnum ms members nullable c.place := by
  unfold enumNode viewEnum
  rw [toOption_enumTexts c.place.context c]
  cases enumTexts c members with
  | error e => exact .throw (.const _)
  | ok texts =>
    cases texts with
    | nil => exact .throw (.const _)
    | cons text texts =>
      refine (declaredName_silent c).andThen fun name s₁ _ => openSlot_silent.andThen fun slot s₂ _ => ?_
      refine (constraintsAt_follows ms c).bind fun constraints s₃ => ?_
      refine (fillSlot_silent slot _).andThen fun _ s₄ _ => .pure ?_
      rw [Node.outline, Node.blank, Kind.blank]
      exact .const _

/-- A builder that follows the view. -/
def BuildFollows (env : Env) (build : Build) : Prop :=
  ∀ raw c s, Follows env Node.outline s (build raw c) fun i => view env.lookup i raw c.place

variable (hb : BuildFollows env build)

include hb

theorem elementNode_follows (ms : Members) (c : Context) : Follows env Node.outline s (elementNode build ms c) fun i =>
    viewElement (view env.lookup i) ms c.place := by
  unfold elementNode viewElement
  cases ms.get? "items" with
  | some items => exact hb items c s
  | none => exact scalarNode_follows c .any false []

theorem arrayNode_follows (ms : Members) (nullable : Bool) (c : Context) :
    Follows env Node.outline s (arrayNode build ms nullable c) fun i =>
      viewArray (view env.lookup i) ms nullable c.place := by
  refine (openSlotIf_silent _).andThen fun slot s₁ _ => ?_
  refine (elementNode_follows hb ms (c.child (labelOf c ++ "Item"))).bind fun element s₂ => ?_
  refine (constraintsAt_follows ms c).bind fun constraints s₃ => ?_
  refine (fillSlotIf_silent slot _).andThen fun _ s₄ _ => .pure ?_
  simp only [Node.outline, Node.blank, Kind.blank]
  exact .const _

/-- Fields are built as they are read; their rules do not show. -/
theorem buildFields_follows (ownerName : String) (c : Context) : ∀ (entries : List Entry) (taken : List String)
    {s : State}, Follows env (List.map Field.outline) s (buildFields build ownerName c taken entries) fun i =>
      viewFields (view env.lookup i) c.place taken entries
  | [], _, _ => .pure (.const _)
  | e :: es, taken, s => by
    refine (hb e.schema (c.child (ownerName ++ pascalCase e.key)) s).bind fun type s₁ => ?_
    refine (rulesOf_silent type e.required).andThen fun rules s₂ _ => ?_
    exact (buildFields_follows ownerName c es _).bind fun fields s₃ => .pure (.const _)

omit hb in
theorem outline_recordNode (name : String) (fields : List Field) (nullable : Bool) (description : Option String) :
    (recordNode name fields nullable description).outline =
      recordNode "" (fields.map Field.outline) nullable description := by
  simp only [recordNode, Node.outline, Node.blank, Kind.blank, Field.blankAll_noRules]

theorem objectNode_follows (ms : Members) (nullable : Bool) (c : Context) :
    Follows env Node.outline s (objectNode build ms nullable c) fun i =>
      viewObject (view env.lookup i) ms nullable c.place := by
  refine (declaredName_silent c).andThen fun name s₁ _ => openSlot_silent.andThen fun slot s₂ _ => ?_
  refine (buildFields_follows hb name c _ []).bind fun fields s₃ => ?_
  refine (fillSlot_silent slot _).andThen fun _ s₄ _ => .pure ?_
  rw [outline_recordNode]
  exact .const _

/-! ## Named schemas -/

/-- The node of a named schema is kept and stands for what is read. -/
theorem buildKey_follows {key : RefKey} {raw : Json} (hraw : env.rawSchema? key = some raw) (stack : List RefKey) :
    Follows env Node.outline s (buildKey env build key raw stack) fun i =>
      viewKey env.lookup (view env.lookup i) key := by
  have hread : ∀ i, viewKey env.lookup (view env.lookup i) key =
      view env.lookup i raw ⟨key.doc, true, env.presence⟩ := by
    intro i
    simp only [viewKey, Env.lookup, hraw, Option.map_some]
    rfl
  refine (componentName_silent key).andThen fun name s₁ _ => ?_
  intro hs₁
  refine ends_bind.2 ((hb raw (.ofKey env key name stack) s₁ hs₁).mono (fun n s₂ ⟨hs₂, hn⟩ => ?_) fun e s₂ he => ?_)
  · have hkey : Tends (fun i => viewKey env.lookup (view env.lookup i) key) (some n.outline) := by
      simp only [hread]
      exact hn
    refine ends_bind.2 (ends_modify.2 (ends_pure.2 ⟨fun k m hm => ?_, hkey⟩))
    rcases List.mem_cons.1 hm with h | h
    · cases h
      exact hkey
    · exact hs₂ k m h
  · simp only [hread]
    exact he

/-- A resolved node is what is read for its key, too. -/
theorem resolveKey_follows (key : RefKey) (owner reference : String) (stack : List RefKey) :
    Follows env Node.outline s (resolveKey env build key owner reference stack) fun i =>
      viewKey env.lookup (view env.lookup i) key := by
  intro hs
  refine ends_bind.2 (ends_get.2 ?_)
  cases hfind : s.resolved.find? (·.1 == key) with
  | some entry =>
    obtain ⟨k, n⟩ := entry
    obtain rfl : k = key := by simpa using List.find?_some hfind
    exact ends_pure.2 ⟨hs, hs k n (List.mem_of_find?_eq_some hfind)⟩
  | none =>
    dsimp only
    split
    · exact follows_cyclic hs
    · cases hraw : env.rawSchema? key with
      | none =>
        refine Follows.throw ?_ hs
        simp only [viewKey, Env.lookup, hraw, Option.map_none]
        exact .const _
      | some raw => exact buildKey_follows hb hraw stack hs

theorem resolveRef_follows (reference : String) (c : Context) :
    Follows env Node.outline s (resolveRef env build reference c) fun i =>
      viewRef env.lookup (view env.lookup i) reference c.place := by
  have hparse : (parseRef reference c.place.context).toOption = (parseRef reference c).toOption :=
    toOption_parseRef reference rfl
  unfold resolveRef viewRef
  rw [hparse]
  cases parseRef reference c with
  | error e => exact .throw (.const _)
  | ok key => exact resolveKey_follows hb key c.owner reference c.stack

omit hb in
theorem referenceNode_follows (target : Node) (nullable : Bool) (c : Context) :
    Follows env Node.outline s (referenceNode target nullable c) fun _ =>
      some (viewReference target.outline nullable c.place) := by
  refine (declareNode_silent _).follows fun n hn => ?_
  simp only [hn, viewReference, Node.outline, Node.blank, Kind.blank]
  exact .const _

/-! ## Compositions -/

/-- What has been collected, without names. -/
def Merged.outline (m : Merged) : Merged := { m with fields := m.fields.map Field.outline }

omit hb in
theorem Merged.outline_merge (m : Merged) (fields : List Field) :
    (m.merge fields).outline = m.outline.merge (fields.map Field.outline) := by
  have hkey : ∀ f : Field, f.outline.wireKey = f.wireKey := fun _ => rfl
  simp only [Merged.outline, Merged.merge, map_foldl_mergeField hkey]

theorem referredFields_follows (reference : String) (c : Context) :
    Follows env (List.map Field.outline) s (referredFields env build reference c) fun i =>
      viewReferred env.lookup (view env.lookup i) c.place reference := by
  refine (resolveRef_follows hb reference c).bind fun target s₁ => ?_
  rw [Node.outline_isObject]
  split
  · rw [Node.outline_fields]
    exact .pure (.const _)
  · exact .throw (.const _)

/-- Ways to collect inline members of which one follows the other. -/
def InlineFollows (env : Env) (inline : Members → Merged → Resolve Merged)
    (read : Nat → Members → Merged → Option Merged) : Prop :=
  ∀ ms m s, Follows env Merged.outline s (inline ms m) fun i => read i ms m.outline

section Merging

variable {inline : Members → Merged → Resolve Merged} {read : Nat → Members → Merged → Option Merged}
  (hi : InlineFollows env inline read)

include hi

theorem mergeMember_follows (c : Context) : InlineFollows env (mergeMember env build inline c) fun i =>
    viewMember env.lookup (view env.lookup i) (read i) c.place := by
  intro ms m s
  unfold mergeMember viewMember
  dsimp only
  cases textOf ms "$ref" with
  | some reference =>
    dsimp only
    rw [← bind_pure_comp]
    refine (referredFields_follows hb reference c).bind fun fields s₁ => .pure ?_
    rw [Merged.outline_merge]
    exact .const _
  | none => exact hi ms m s

theorem mergeMembers_follows (c : Context) : ∀ (members : List Json) (m : Merged) (s : State),
    Follows env Merged.outline s (mergeMembers env build inline c members m) fun i =>
      viewMembers env.lookup (view env.lookup i) (read i) c.place members m.outline
  | [], _, _ => .pure (.const _)
  | .obj ms :: rest, m, s =>
    (mergeMember_follows hb hi c ms m s).bind fun m₁ s₁ => mergeMembers_follows c rest m₁ s₁
  | .null :: _, _, _ | .bool _ :: _, _, _ | .num _ :: _, _, _ | .str _ :: _, _, _ | .arr _ :: _, _, _ =>
    .throw (.const _)

theorem mergeList_follows (c : Context) (list : Option Json) (m : Merged) (s : State) :
    Follows env Merged.outline s (mergeList env build inline c list m) fun i =>
      viewList env.lookup (view env.lookup i) (read i) c.place list m.outline := by
  match list with
  | none => exact .pure (.const _)
  | some (.arr members) => exact mergeMembers_follows hb hi c members m s
  | some .null | some (.bool _) | some (.num _) | some (.str _) | some (.obj _) => exact .throw (.const _)

end Merging

theorem mergeOwn_follows (ownerName : String) (c : Context) : InlineFollows env (mergeOwn build ownerName c) fun i =>
    viewOwn (view env.lookup i) c.place := by
  intro ms m s
  unfold mergeOwn viewOwn
  dsimp only
  cases isComposable ms with
  | true =>
    refine (buildFields_follows hb ownerName c _ []).bind fun fields s₁ => .pure ?_
    rw [Merged.outline_merge]
    exact .const _
  | false => exact .throw (.const _)

theorem mergeAllOf_follows (ownerName : String) (c : Context) : ∀ levels,
    InlineFollows env (mergeAllOf env build ownerName c levels) fun i =>
      viewAllOf env.lookup (view env.lookup i) c.place levels
  | 0 => fun _ _ _ => .pure (.const _)
  | levels + 1 => fun ms m s =>
    (mergeList_follows hb (mergeAllOf_follows ownerName c levels) c _ m s).bind fun m₁ s₁ =>
      mergeOwn_follows hb ownerName c ms m₁ s₁

omit hb in
theorem settleFields_silent (c : Context) (required : List String) : ∀ (fs : List Field) (taken : List String),
    Silent (settleFields c required taken fs) fun gs =>
      gs.map Field.outline = settled c.presence required taken (fs.map Field.outline)
  | [], _ => .pure rfl
  | f :: fs, taken => by
    refine (settledRules_silent f _).bind fun rules _ => ?_
    refine (settleFields_silent c required fs _).bind fun gs hgs => .pure ?_
    rw [List.map_cons, hgs]
    rfl

theorem allOfNode_follows (ms : Members) (c : Context) :
    Follows env Node.outline s (allOfNode env build ms c) fun i =>
      viewComposition env.lookup (view env.lookup i) c.place ms := by
  refine (declaredName_silent c).andThen fun name s₁ _ => openSlot_silent.andThen fun slot s₂ _ => ?_
  refine (mergeAllOf_follows hb name c _ ms {} s₂).bind fun merged s₃ => ?_
  refine (settleFields_silent c merged.required merged.fields []).andThen fun fields s₄ hfields => ?_
  refine (fillSlot_silent slot _).andThen fun _ s₅ _ => .pure ?_
  rw [outline_recordNode, hfields]
  exact .const _

/-! ## Schemas -/

theorem unionNode_follows (members : Json) (c : Context) :
    Follows env Node.outline s (unionNode build members c) fun i =>
      viewUnion (view env.lookup i) c.place members := by
  unfold unionNode viewUnion
  cases members.items? with
  | none => exact .throw (.const _)
  | some members =>
    dsimp only
    cases members.filter (!isNullMember ·) with
    | nil => exact .throw (.const _)
    | cons single others =>
      cases others with
      | cons other others => exact .throw (.const _)
      | nil =>
        refine (hb single c s).bind fun n s₁ => ?_
        rw [Node.outline_nullable]
        split
        · exact .pure (.const _)
        · refine (makeNullable_silent n).follows fun n' hn' => ?_
          rw [hn', Node.outline_withNull]
          exact .const _

theorem typedNode_follows (ms : Members) (c : Context) : Follows env Node.outline s (typedNode build ms c) fun i =>
    viewTyped (view env.lookup i) c.place ms := by
  unfold typedNode viewTyped
  rw [toOption_typeOf ms c.place.context c]
  cases typeOf ms c with
  | error e => exact .throw (.const _)
  | ok found =>
    obtain ⟨type, listed⟩ := found
    dsimp only [Except.toOption]
    split
    · exact objectNode_follows hb ms _ c
    · exact arrayNode_follows hb ms _ c
    · cases (ms.get? "enum").bind Json.items? with
      | some members => exact enumNode_follows ms members _ c
      | none => exact scalarNode_follows c _ _ ms
    · exact scalarNode_follows c .integer _ ms
    · exact scalarNode_follows c .number _ ms
    · exact scalarNode_follows c .boolean _ ms
    · exact scalarNode_follows c .any _ ms
    · -- no other type is read
      refine .throw ⟨0, fun i _ => ?_⟩
      simp_all

theorem formNode_follows (ms : Members) (c : Context) : Follows env Node.outline s (formNode env build ms c) fun i =>
    viewForm env.lookup (view env.lookup i) c.place ms := by
  unfold formNode viewForm
  cases textOf ms "$ref" with
  | some reference =>
    refine (resolveRef_follows hb reference c).bind fun target s₁ => ?_
    exact referenceNode_follows target (flag ms "nullable") c
  | none =>
    dsimp only
    cases ms.has "allOf" with
    | true => exact allOfNode_follows hb ms c
    | false =>
      cases (ms.get? "oneOf").or (ms.get? "anyOf") with
      | some members => exact unionNode_follows hb members c
      | none => exact typedNode_follows hb ms c

/-- **One step follows the view**, if the builder of the parts does. -/
theorem buildStep_follows : BuildFollows env (buildStep env build) := by
  intro raw c s
  have hstep : Follows env Node.outline s (buildStep env build raw c) fun i =>
      viewStep env.lookup (view env.lookup i) raw c.place := by
    unfold buildStep viewStep
    match raw with
    | .obj ms => exact formNode_follows hb ms c
    | .bool true => exact scalarNode_follows c .any false []
    | .bool false | .null | .num _ | .str _ | .arr _ => exact .throw (.const _)
  intro hs
  exact (hstep hs).mono (fun n s₁ ⟨hs₁, hn⟩ => ⟨hs₁, hn.succ⟩) fun e s₁ he => he.imp_right Tends.succ

omit hb in
/-- **Builds follow the view**, however many steps they take. -/
theorem build_follows (env : Env) : ∀ steps, BuildFollows env (Schema.build env steps)
  | 0 => fun _ _ _ => follows_cyclic
  | steps + 1 => buildStep_follows (build_follows env steps)

end Nodes

/-! ## Resolvers -/

/-- The outline that is read for a named schema of the root document. -/
def Env.Reads (env : Env) (key : String) (o : Option Node) : Prop :=
  Tends (fun i => viewKey env.lookup (view env.lookup i) ⟨none, key⟩) o

/-- Named schemas are resolved to the outlines that are read for them, or one of them cannot be read. -/
theorem resolveKeys_follows (env : Env) (steps : Nat) : ∀ (keys : List String) {s : State}, s.Viewed env →
    Ends (resolveKeys env (build env steps) keys) s
      (fun entries s' => s'.Viewed env ∧ entries.map (·.1) = keys ∧ ∀ e ∈ entries, env.Reads e.1 (some e.2.outline))
      fun e _ => IsCyclic e ∨ ∃ key ∈ keys, env.Reads key none
  | [], _, hs => ends_pure.2 ⟨hs, rfl, by nofun⟩
  | key :: keys, s, hs => by
    have hkey := resolveKey_follows (build_follows env steps) ⟨none, key⟩ ("schema:" ++ key)
      ("#" ++ schemaPointer ++ key) [] hs
    refine ends_bind.2 (hkey.mono (fun n s₁ ⟨hs₁, hn⟩ => ?_) fun e s₁ he => ?_)
    · refine ends_bind.2 ((resolveKeys_follows env steps keys hs₁).mono (fun entries s₂ ⟨hs₂, hkeys, hall⟩ => ?_) ?_)
      · exact ends_pure.2 ⟨hs₂, by rw [List.map_cons, hkeys], List.forall_mem_cons.2 ⟨hn, hall⟩⟩
      · rintro e s₂ (he | ⟨k, hk, hnone⟩)
        · exact .inl he
        · exact .inr ⟨k, List.mem_cons_of_mem _ hk, hnone⟩
    · exact he.imp_right fun hnone => ⟨key, List.mem_cons_self, hnone⟩

end ApiForge.Schema
