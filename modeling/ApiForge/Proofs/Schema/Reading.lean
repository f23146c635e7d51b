import ApiForge.Proofs.Schema.Forms
import ApiForge.Proofs.Schema.Merging
import ApiForge.Proofs.Schema.Verdict

/-!
# What nodes say about their schemas

A resolver keeps the nodes of named schemas. What it knows of a named schema never changes, and while a named schema is
open nothing is known of it.

* `Node.Reads known doc raw n`: the node `n` is nullable exactly if `raw` is marked so, it refers to the node of what
  `raw` stands for, and the nodes in it read the schemas in `raw`: items, properties, the member of a union and the
  pieces of a composition.
* `State.Faithful env s`: the node of every named schema that `s` knows reads its raw schema.
* `State.Learned stack s s'`: what may be learned between two states while the schemas in `stack` are open.
* `build_learns`: every build keeps states faithful and gives a node that reads the schema. Each function of the
  resolver has a lemma of this kind; nodes read less in a state that knows less, so earlier parts stay right
  (`Node.Reads.mono`).
* `Session.faithful`: the states of sessions are faithful.
-/

namespace ApiForge.Schema

open Json Naming

/-! ## Readings -/

/-- What the nodes in a node say about the schemas in a schema object. -/
structure Node.Parts (known : Known) (doc : Option String) (reads : Json → Node → Prop) (ms : Members) (n : Node) :
    Prop where
  items : ∀ items element, Plain ms → ms.get? "items" = some items → n.kind = .array element → reads items element
  record : ∀ fields, Plain ms → n.kind = .object fields →
    List.Forall₂ (Entry.Gives reads) (entriesOf ms (textsOf ms "required").contains) fields
  union : ∀ members single, IsUnion ms members single → ∃ n', reads single n' ∧ n'.kind = n.kind
  composition : textOf ms "$ref" = none → ms.has "allOf" = true →
    ∃ fields, n.kind = .object fields ∧ Composed known doc reads ms fields

/-- What a node says about the raw schema that it was built from, given what the nodes in it say about theirs. -/
structure Node.Reading (known : Known) (doc : Option String) (reads : Json → Node → Prop) (raw : Json) (n : Node) :
    Prop where
  nullable : n.nullable = true ↔ Marked raw
  aliases : ∀ r, Aliases raw r → ∃ key target, Denotes doc r key ∧ known key = some target ∧ n.kind = .reference target
  shape : (∀ r, ¬ Aliases raw r) → n.kind.isReference = false
  parts : ∀ ms, raw = .obj ms → n.Parts known doc reads ms

/-- What a node says about the raw schema that it was built from, with all that stands in it. -/
inductive Node.Reads (known : Known) (doc : Option String) : Json → Node → Prop where
  -- the readings inside come as a relation, since they are used inside related lists; see `Node.reads_iff`
  | intro {raw : Json} {n : Node} (reads : Json → Node → Prop) :
      (∀ raw' n', reads raw' n' → Node.Reads known doc raw' n') → n.Reading known doc reads raw →
      Node.Reads known doc raw n

section Readings

variable {known known' : Known} {doc : Option String} {reads reads' : Json → Node → Prop} {raw : Json} {ms : Members}
  {n : Node}

theorem Node.Parts.mono (h : known'.Extends known) (hreads : ∀ raw n, reads raw n → reads' raw n)
    (hn : n.Parts known doc reads ms) : n.Parts known' doc reads' ms where
  items items element hplain hitems hkind := hreads _ _ (hn.items items element hplain hitems hkind)
  record fields hplain hkind := (hn.record fields hplain hkind).imp fun _ _ hf => hf.mono hreads
  union := by
    intro members single hunion
    obtain ⟨n', hn', hkind⟩ := hn.union members single hunion
    exact ⟨n', hreads _ _ hn', hkind⟩
  composition := by
    intro href hall
    obtain ⟨fields, hkind, hfields⟩ := hn.composition href hall
    exact ⟨fields, hkind, hfields.mono h hreads⟩

theorem Node.Reading.mono (h : known'.Extends known) (hreads : ∀ raw n, reads raw n → reads' raw n)
    (hn : n.Reading known doc reads raw) : n.Reading known' doc reads' raw where
  nullable := hn.nullable
  aliases := by
    intro r hr
    obtain ⟨key, target, hkey, hknown, hkind⟩ := hn.aliases r hr
    exact ⟨key, target, hkey, h key target hknown, hkind⟩
  shape := hn.shape
  parts ms hraw := (hn.parts ms hraw).mono h hreads

theorem Node.reads_iff : n.Reads known doc raw ↔ n.Reading known doc (Node.Reads known doc) raw := by
  constructor
  · rintro ⟨reads, hreads, hn⟩
    exact hn.mono (fun _ _ hknown => hknown) hreads
  · exact .intro _ fun _ _ h => h

theorem Node.Reads.reading (hn : n.Reads known doc raw) : n.Reading known doc (Node.Reads known doc) raw :=
  Node.reads_iff.1 hn

/-- Nodes read the same when more is known. -/
theorem Node.Reads.mono (h : known'.Extends known) (hn : n.Reads known doc raw) : n.Reads known' doc raw := by
  induction hn with
  | intro reads _ hn ih => exact .intro _ (fun _ _ hn' => hn') (hn.mono h ih)

/-- Beside the mark for `null`, only the shape of a node counts. -/
theorem Node.Reads.of_kind {n' : Node} (hn : n.Reads known doc raw) (hkind : n'.kind = n.kind)
    (hnullable : n'.nullable = true ↔ Marked raw) : n'.Reads known doc raw := by
  have hparts := hn.reading.parts
  refine Node.reads_iff.2 ⟨hnullable, ?_, ?_, fun ms hraw => ⟨?_, ?_, ?_, ?_⟩⟩
  all_goals rw [hkind]
  · exact hn.reading.aliases
  · exact hn.reading.shape
  · exact (hparts ms hraw).items
  · exact (hparts ms hraw).record
  · exact (hparts ms hraw).union
  · exact (hparts ms hraw).composition

end Readings

/-! ## States -/

/-- The node that is known of a named schema. -/
def State.known (s : State) : Known := fun key => (s.resolved.find? (·.1 == key)).map (·.2)

theorem State.known_congr {s s' : State} (h : s'.resolved = s.resolved) : s'.known = s.known := by
  unfold State.known
  rw [h]

/-- Every known node reads its named schema. -/
def State.Faithful (env : Env) (s : State) : Prop :=
  ∀ key n, s.known key = some n → ∃ raw, env.rawSchema? key = some raw ∧ n.Reads s.known key.doc raw

theorem State.Faithful.congr {env : Env} {s s' : State} (h : s.Faithful env) (hresolved : s'.resolved = s.resolved) :
    s'.Faithful env := by
  unfold State.Faithful
  rw [State.known_congr hresolved]
  exact h

/-- What may be learned while some named schemas are open: known nodes stay, and of an open schema nothing is known. -/
structure State.Learned (stack : List RefKey) (s s' : State) : Prop where
  kept : s'.known.Extends s.known
  unknown : ∀ key ∈ stack, s.known key = none → s'.known key = none

section States

variable {stack : List RefKey} {s s₁ s₂ : State}

theorem State.Learned.of_resolved (h : s₁.resolved = s.resolved) : s.Learned stack s₁ := by
  refine ⟨?_, ?_⟩
  · rw [State.known_congr h]
    exact fun _ _ hn => hn
  · rw [State.known_congr h]
    exact fun _ _ hn => hn

theorem State.Learned.trans (h₁ : s.Learned stack s₁) (h₂ : s₁.Learned stack s₂) : s.Learned stack s₂ where
  kept := h₂.kept.trans h₁.kept
  unknown key hkey hnone := h₂.unknown key hkey (h₁.unknown key hkey hnone)

theorem State.Learned.pop {key : RefKey} (h : s.Learned (key :: stack) s₁) : s.Learned stack s₁ :=
  ⟨h.kept, fun k hk => h.unknown k (List.mem_cons_of_mem key hk)⟩

theorem State.known_cons {key : RefKey} {n : Node} (hresolved : s₁.resolved = (key, n) :: s.resolved) (k : RefKey) :
    s₁.known k = if key = k then some n else s.known k := by
  unfold State.known
  rw [hresolved, List.find?_cons]
  by_cases hk : key = k
  · simp [hk]
  · have hbeq : (key == k) = false := by simpa using hk
    simp [hbeq, hk]

/-- The node of a schema of which nothing was known. -/
theorem State.extends_cons {key : RefKey} {n : Node} (hresolved : s₁.resolved = (key, n) :: s.resolved)
    (hnone : s.known key = none) : s₁.known.Extends s.known := by
  intro k m hm
  rw [State.known_cons hresolved, if_neg, hm]
  rintro rfl
  rw [hnone] at hm
  cases hm

/-- A faithful state stays so when a node that reads its named schema is kept. -/
theorem State.Faithful.keep {env : Env} (hs : s.Faithful env) {key : RefKey} {n : Node} {raw : Json}
    (hresolved : s₁.resolved = (key, n) :: s.resolved) (hnone : s.known key = none)
    (hraw : env.rawSchema? key = some raw) (hn : n.Reads s.known key.doc raw) : s₁.Faithful env := by
  have hext := State.extends_cons hresolved hnone
  intro k m hm
  rw [State.known_cons hresolved] at hm
  split at hm
  · rename_i hk
    subst hk
    cases hm
    exact ⟨raw, hraw, hn.mono hext⟩
  · obtain ⟨raw', hraw', hm'⟩ := hs k m hm
    exact ⟨raw', hraw', hm'.mono hext⟩

/-- The schema that was open last is closed by keeping its node. -/
theorem State.Learned.keep {key : RefKey} {n : Node} (h : s.Learned (key :: stack) s₁)
    (hresolved : s₂.resolved = (key, n) :: s₁.resolved) (hnone : s₁.known key = none) (hstack : key ∉ stack) :
    s.Learned stack s₂ := by
  refine ⟨(State.extends_cons hresolved hnone).trans h.kept, fun k hk hknone => ?_⟩
  rw [State.known_cons hresolved, if_neg]
  · exact h.unknown k (List.mem_cons_of_mem key hk) hknone
  · rintro rfl
    exact hstack hk

end States

/-! ## Computations -/

/-- A computation that keeps states faithful, whether or not it fails, and has `P` of its result in the end. -/
def Learns {α : Type} (env : Env) (stack : List RefKey) (s : State) (m : Resolve α) (P : α → Known → Prop) : Prop :=
  s.Faithful env → Ends m s (fun a s' => (s'.Faithful env ∧ s.Learned stack s') ∧ P a s'.known)
    fun _ s' => s'.Faithful env ∧ s.Learned stack s'

section Computations

variable {α β : Type} {env : Env} {stack : List RefKey} {s : State} {P : α → Known → Prop} {Q : β → Known → Prop}

theorem Learns.pure {a : α} (h : P a s.known) : Learns env stack s (pure a) P :=
  fun hs => ends_pure.2 ⟨⟨hs, .of_resolved rfl⟩, h⟩

theorem Learns.throw {e : CompileError} : Learns env stack s (throw e : Resolve α) P :=
  fun hs => ends_throw.2 ⟨hs, .of_resolved rfl⟩

theorem Learns.bind {m : Resolve α} {f : α → Resolve β} (h : Learns env stack s m P)
    (hf : ∀ a s₁, s.Learned stack s₁ → P a s₁.known → Learns env stack s₁ (f a) Q) :
    Learns env stack s (m >>= f) Q := by
  intro hs
  refine ends_bind.2 ((h hs).mono (fun a s₁ ⟨⟨hs₁, hl₁⟩, ha⟩ => ?_) fun _ _ h => h)
  refine (hf a s₁ hl₁ ha hs₁).mono (fun b s₂ ⟨⟨hs₂, hl₂⟩, hb⟩ => ?_) fun _ s₂ ⟨hs₂, hl₂⟩ => ?_
  · exact ⟨⟨hs₂, hl₁.trans hl₂⟩, hb⟩
  · exact ⟨hs₂, hl₁.trans hl₂⟩

theorem Learns.imp {P' : α → Known → Prop} {m : Resolve α} (h : Learns env stack s m P)
    (hP : ∀ a s', s.Learned stack s' → P a s'.known → P' a s'.known) : Learns env stack s m P' :=
  fun hs => (h hs).mono (fun a s' ⟨hs', ha⟩ => ⟨hs', hP a s' hs'.2 ha⟩) fun _ _ h => h

/-- Quiet computations teach nothing. -/
theorem Quiet.learns {m : Resolve α} (h : Quiet m) {R : α → Prop} (hR : Ends m s (fun a _ => R a) fun _ _ => True) :
    Learns env stack s m fun a _ => R a := by
  intro hs
  refine ((h s).and hR).mono (fun a s' ⟨hsame, hr⟩ => ?_) fun e s' ⟨⟨hsame, _⟩, _⟩ => ?_
  · exact ⟨⟨hs.congr hsame, .of_resolved hsame⟩, hr⟩
  · exact ⟨hs.congr hsame, .of_resolved hsame⟩

/-- A quiet first step. -/
theorem Quiet.thenLearns {m : Resolve α} {f : α → Resolve β} (h : Quiet m)
    (hf : ∀ a s₁, s.Learned stack s₁ → Learns env stack s₁ (f a) Q) : Learns env stack s (m >>= f) Q :=
  (h.learns (Ends.trivial m s)).bind fun a s₁ hl₁ _ => hf a s₁ hl₁

/-- A last step that stores the result. -/
theorem Learns.stored {n : Node} {R : Node → Known → Prop} {m : Resolve Unit} (h : Quiet m) (hn : R n s.known) :
    Learns env stack s (m >>= fun _ => Pure.pure n) R := by
  intro hs
  refine ends_bind.2 ((h s).mono (fun _ s₁ hsame => ?_) fun e s₁ ⟨hsame, _⟩ => ?_)
  · refine ends_pure.2 ⟨⟨hs.congr hsame, .of_resolved hsame⟩, ?_⟩
    rw [State.known_congr hsame]
    exact hn
  · exact ⟨hs.congr hsame, .of_resolved hsame⟩

end Computations

/-! ## Nodes with a shape -/

/-- A node with a shape of its own that is nullable or not, and reads the items or properties of a schema. -/
structure Node.Shaped (known : Known) (doc : Option String) (ms : Members) (nullable : Bool) (n : Node) : Prop where
  nullable : n.nullable = nullable
  shape : n.kind.isReference = false
  items : ∀ items element, ms.get? "items" = some items → n.kind = .array element → element.Reads known doc items
  record : ∀ fields, n.kind = .object fields →
    List.Forall₂ (Entry.Gives (Node.Reads known doc)) (entriesOf ms (textsOf ms "required").contains) fields

/-- The node of a plain schema has a shape of its own. -/
theorem Node.Shaped.reads {known : Known} {doc : Option String} {ms : Members} (hplain : Plain ms) {c : Context}
    {type : Option String} {listed : Bool} (htype : typeOf ms c = .ok (type, listed)) {n : Node}
    (hn : n.Shaped known doc ms (listed || flag ms "nullable")) : n.Reads known doc (.obj ms) := by
  refine Node.reads_iff.2 ⟨?_, fun r hr => ?_, fun _ => hn.shape, ?_⟩
  · rw [hn.nullable, marked_plain hplain htype]
  · exact absurd hr (not_aliases_plain hplain)
  · rintro _ ⟨⟩
    refine ⟨fun items element _ => hn.items items element, fun fields _ => hn.record fields, ?_, ?_⟩
    · exact fun members single hunion => absurd hplain hunion.not_plain
    · intro _ hall
      cases hall.symm.trans hplain.composition

section Shapes

variable {env : Env} {build : Build} {c : Context} {s : State}

theorem declareNode_ends (n : Node) (s : State) : Ends (declareNode n) s (fun n' _ => n' = n) fun _ _ => True := by
  refine (Ends.trivial _ _).bind fun slot _ _ => ?_
  exact (Ends.trivial _ _).bind fun _ _ _ => ends_pure.2 rfl

theorem scalarNode_learns (kind : ScalarKind) (nullable : Bool) (ms : Members) (stack : List RefKey) :
    Learns env stack s (scalarNode c kind nullable ms) fun n _ => n.nullable = nullable ∧ n.kind = .scalar kind := by
  refine (scalarNode_quiet c kind nullable ms).learns ?_
  refine (Ends.trivial _ _).bind fun constraints s₁ _ => ?_
  refine (declareNode_ends _ s₁).mono (fun n _ hn => ?_) fun _ _ h => h
  rw [hn]
  exact ⟨rfl, rfl⟩

theorem scalarNode_shaped (kind : ScalarKind) (nullable : Bool) (ms : Members) :
    Learns env c.stack s (scalarNode c kind nullable ms) fun n known => n.Shaped known c.doc ms nullable := by
  refine (scalarNode_learns kind nullable ms _).imp fun n _ _ ⟨hnullable, hkind⟩ => ⟨hnullable, ?_, ?_, ?_⟩
  · rw [hkind]
    rfl
  · intro _ _ _ hkind'
    cases hkind.symm.trans hkind'
  · intro _ hkind'
    cases hkind.symm.trans hkind'

theorem enumNode_shaped (ms : Members) (members : List Json) (nullable : Bool) :
    Learns env c.stack s (enumNode ms members nullable c) fun n known => n.Shaped known c.doc ms nullable := by
  unfold enumNode
  split
  · exact .throw
  · exact .throw
  · refine (declaredName_quiet c).thenLearns fun name s₁ _ => ?_
    refine openSlot_quiet.thenLearns fun slot s₂ _ => ?_
    refine (constraintsAt_quiet ms c).thenLearns fun constraints s₃ _ => ?_
    exact .stored (fillSlot_quiet _ _) ⟨rfl, rfl, nofun, nofun⟩

/-- A builder whose nodes read their schemas. -/
def LearnsNodes (env : Env) (build : Build) : Prop :=
  ∀ raw c s, Learns env c.stack s (build raw c) fun n known => n.Reads known c.doc raw

theorem arrayNode_shaped (hb : LearnsNodes env build) (ms : Members) (nullable : Bool) :
    Learns env c.stack s (arrayNode build ms nullable c) fun n known => n.Shaped known c.doc ms nullable := by
  refine (openSlotIf_quiet _).thenLearns fun slot s₁ _ => ?_
  have helement : Learns env c.stack s₁ (elementNode build ms (c.child (labelOf c ++ "Item"))) fun element known =>
      ∀ items, ms.get? "items" = some items → element.Reads known c.doc items := by
    unfold elementNode
    split
    · rename_i items hitems
      refine (hb items (c.child (labelOf c ++ "Item")) s₁).imp fun n _ _ hn items' hitems' => ?_
      obtain rfl : items = items' := Option.some.inj (hitems.symm.trans hitems')
      exact hn
    · rename_i hnone
      refine (scalarNode_learns .any false [] c.stack).imp fun n _ _ _ items hitems => ?_
      cases hnone.symm.trans hitems
  refine helement.bind fun element s₂ _ helement => ?_
  refine (constraintsAt_quiet ms c).thenLearns fun constraints s₃ hl₃ => ?_
  refine .stored (fillSlotIf_quiet _ _) ⟨rfl, rfl, fun items element' hitems hkind => ?_, nofun⟩
  cases hkind
  exact (helement items hitems).mono hl₃.kept

/-- The fields of a record read the schemas of its entries. -/
theorem buildFields_learns (hb : LearnsNodes env build) (ownerName : String) :
    ∀ (entries : List Entry) (taken : List String) (s : State),
      Learns env c.stack s (buildFields build ownerName c taken entries) fun fields known =>
        List.Forall₂ (Entry.Gives (Node.Reads known c.doc)) entries fields
  | [], _, _ => .pure .nil
  | e :: es, taken, s => by
    refine (hb e.schema (c.child (ownerName ++ pascalCase e.key)) s).bind fun type s₁ _ htype => ?_
    refine (rulesOf_quiet type e.required).thenLearns fun rules s₂ hl₂ => ?_
    refine (buildFields_learns hb ownerName es _ s₂).bind fun fields s₃ hl₃ hfields => ?_
    exact .pure (.cons ⟨rfl, htype.mono (hl₃.kept.trans hl₂.kept)⟩ hfields)

theorem objectNode_shaped (hb : LearnsNodes env build) (ms : Members) (nullable : Bool) :
    Learns env c.stack s (objectNode build ms nullable c) fun n known => n.Shaped known c.doc ms nullable := by
  refine (declaredName_quiet c).thenLearns fun name s₁ _ => ?_
  refine openSlot_quiet.thenLearns fun slot s₂ _ => ?_
  refine (buildFields_learns hb name _ [] s₂).bind fun fields s₃ _ hfields => ?_
  refine .stored (fillSlot_quiet _ _) ⟨rfl, rfl, nofun, fun fields' hkind => ?_⟩
  cases hkind
  exact hfields

theorem typedNode_learns (hb : LearnsNodes env build) {ms : Members} (hplain : Plain ms) :
    Learns env c.stack s (typedNode build ms c) fun n known => n.Reads known c.doc (.obj ms) := by
  unfold typedNode
  split
  · exact .throw
  · rename_i type listed htype
    have hshaped : ∀ {m : Resolve Node}, Learns env c.stack s m
        (fun n known => n.Shaped known c.doc ms (listed || flag ms "nullable")) →
        Learns env c.stack s m fun n known => n.Reads known c.doc (.obj ms) := fun h =>
      h.imp fun n _ _ hn => hn.reads hplain htype
    dsimp only
    split
    · exact hshaped (objectNode_shaped hb ms _)
    · exact hshaped (arrayNode_shaped hb ms _)
    · split
      · exact hshaped (enumNode_shaped ms _ _)
      · exact hshaped (scalarNode_shaped _ _ ms)
    · exact hshaped (scalarNode_shaped _ _ ms)
    · exact hshaped (scalarNode_shaped _ _ ms)
    · exact hshaped (scalarNode_shaped _ _ ms)
    · exact hshaped (scalarNode_shaped _ _ ms)
    · exact .throw

end Shapes

/-! ## References -/

section References

variable {env : Env} {build : Build} {c : Context} {s : State} {key : RefKey} {stack : List RefKey}

/-- A named schema of which nothing is known is built while it is open, so nothing is known of it until its node is
kept. -/
theorem buildKey_learns (hb : LearnsNodes env build) {raw : Json} (hraw : env.rawSchema? key = some raw)
    (hstack : key ∉ stack) (hnone : s.known key = none) :
    Learns env stack s (buildKey env build key raw stack) fun n known => known key = some n := by
  intro hs
  refine ends_bind.2 ((componentName_quiet key s).mono (fun name s₁ hsame => ?_) fun e s₁ ⟨hsame, _⟩ => ?_)
  · have hs₁ := hs.congr hsame
    have hl₁ : s.Learned (key :: stack) s₁ := .of_resolved hsame
    refine ends_bind.2 ((hb raw (.ofKey env key name stack) s₁ hs₁).mono ?_ ?_)
    · rintro n s₂ ⟨⟨hs₂, hl₂⟩, hn⟩
      -- the key is open while its schema is built, so its node is new when it is kept
      have hl := hl₁.trans hl₂
      have hnone₂ := hl.unknown key List.mem_cons_self hnone
      rw [ends_bind, ends_modify, ends_pure]
      set s₃ : State := { s₂ with resolved := (key, n) :: s₂.resolved } with hs₃
      have hresolved : s₃.resolved = (key, n) :: s₂.resolved := rfl
      have hkey : s₃.known key = some n := by rw [State.known_cons hresolved, if_pos rfl]
      exact ⟨⟨hs₂.keep hresolved hnone₂ hraw hn, hl.keep hresolved hnone₂ hstack⟩, hkey⟩
    · rintro e s₂ ⟨hs₂, hl₂⟩
      exact ⟨hs₂, (hl₁.trans hl₂).pop⟩
  · exact ⟨hs.congr hsame, .of_resolved hsame⟩

theorem resolveKey_learns (hb : LearnsNodes env build) (owner reference : String) :
    Learns env stack s (resolveKey env build key owner reference stack) fun n known => known key = some n := by
  intro hs
  rw [resolveKey, ends_bind, ends_get]
  cases hfind : s.resolved.find? (·.1 == key) with
  | some found =>
    obtain ⟨k, node⟩ := found
    have hknown : s.known key = some node := by
      unfold State.known
      rw [hfind]
      rfl
    exact Learns.pure (P := fun n known => known key = some n) hknown hs
  | none =>
    have hnone : s.known key = none := by
      unfold State.known
      rw [hfind]
      rfl
    dsimp only
    split
    · exact ends_throw.2 ⟨hs, .of_resolved rfl⟩
    · rename_i hstack
      split
      · exact ends_throw.2 ⟨hs, .of_resolved rfl⟩
      · rename_i raw hraw
        exact buildKey_learns hb hraw (by simpa using hstack) hnone hs

theorem resolveRef_learns (hb : LearnsNodes env build) (reference : String) :
    Learns env c.stack s (resolveRef env build reference c) fun n known =>
      ∃ key, Denotes c.doc reference key ∧ known key = some n := by
  unfold resolveRef
  split
  · exact .throw
  · rename_i key hkey
    exact (resolveKey_learns hb c.owner reference).imp fun n _ _ hn => ⟨key, ⟨c, rfl, hkey⟩, hn⟩

theorem referenceForm_learns (hb : LearnsNodes env build) {ms : Members} {reference : String}
    (href : textOf ms "$ref" = some reference) :
    Learns env c.stack s (resolveRef env build reference c >>= fun target =>
      referenceNode target (flag ms "nullable") c) fun n known => n.Reads known c.doc (.obj ms) := by
  refine (resolveRef_learns hb reference).bind fun target s₁ _ ⟨key, hkey, hknown⟩ => ?_
  have hnode : Learns env c.stack s₁ (referenceNode target (flag ms "nullable") c) fun n _ =>
      n.nullable = flag ms "nullable" ∧ n.kind = .reference target := by
    refine (referenceNode_quiet target _ c).learns ((declareNode_ends _ s₁).mono (fun n _ hn => ?_) fun _ _ h => h)
    rw [hn]
    exact ⟨rfl, rfl⟩
  refine hnode.imp fun n s₂ hl₂ ⟨hnullable, hkind⟩ => ?_
  refine Node.reads_iff.2 ⟨?_, fun r hr => ?_, fun hnone => ?_, ?_⟩
  · rw [hnullable, marked_reference href]
  · obtain rfl := (aliases_reference href).1 hr
    exact ⟨key, target, hkey, hl₂.kept key target hknown, hkind⟩
  · exact absurd (.reference href) (hnone reference)
  · rintro _ ⟨⟩
    have hplain : ¬ Plain ms := fun h => by cases href.symm.trans h.reference
    refine ⟨fun _ _ h => absurd h hplain, fun _ h => absurd h hplain, fun _ _ hunion => ?_, fun href' => ?_⟩
    · cases href.symm.trans hunion.reference
    · cases href.symm.trans href'

end References

/-! ## Compositions -/

section Compositions

variable {env : Env} {build : Build} {c : Context} {s : State} {m : Merged} {ps : List Piece}

theorem referredFields_learns (hb : LearnsNodes env build) (reference : String) :
    Learns env c.stack s (referredFields env build reference c) fun fields known =>
      Piece.Defines known c.doc (Node.Reads known c.doc) (.referred reference) fields := by
  refine (resolveRef_learns hb reference).bind fun target s₁ _ ⟨key, hkey, hknown⟩ => ?_
  split
  · rename_i hobject
    exact .pure ⟨key, target, hkey, hknown, hobject, rfl⟩
  · exact .throw

/-- What has been collected from some pieces, with types that read the schemas of properties. -/
def Merged.Gathers (known : Known) (doc : Option String) (ps : List Piece) (m : Merged) : Prop :=
  m.Collects known doc (Node.Reads known doc) ps

theorem Merged.Gathers.mono {known known' : Known} {doc : Option String} (h : known'.Extends known)
    (hm : m.Gathers known doc ps) : m.Gathers known' doc ps :=
  Merged.Collects.mono h (fun _ _ hn => hn.mono h) hm

/-- A way to collect inline members up to some depth that adds all their pieces. -/
def LearnsPieces (env : Env) (c : Context) (levels : Nat) (inline : Members → Merged → Resolve Merged) : Prop :=
  ∀ ms m ps s, membersDepth ms < levels → m.Gathers s.known c.doc ps →
    Learns env c.stack s (inline ms m) fun m' known => m'.Gathers known c.doc (ps ++ pieces ms)

theorem mergeMembers_learns {inline : Members → Merged → Resolve Merged} {levels : Nat} (hb : LearnsNodes env build)
    (hi : LearnsPieces env c levels inline) : ∀ (members : List Json) (m : Merged) (ps : List Piece) (s : State),
      (∀ ms, .obj ms ∈ members → membersDepth ms < levels) → m.Gathers s.known c.doc ps →
      Learns env c.stack s (mergeMembers env build inline c members m) fun m' known =>
        m'.Gathers known c.doc (ps ++ members.flatMap memberPieces)
  | [], m, ps, s, _, hm => .pure (by simpa using hm)
  | .obj ms :: rest, m, ps, s, hdepth, hm => by
    have hmember : Learns env c.stack s (mergeMember env build inline c ms m) fun m' known =>
        m'.Gathers known c.doc (ps ++ memberPieces (.obj ms)) := by
      cases href : textOf ms "$ref" with
      | some reference =>
        simp only [mergeMember, memberPieces, href]
        rw [← bind_pure_comp]
        refine (referredFields_learns hb reference).bind fun fields s₁ hl₁ hfields => ?_
        exact .pure (Merged.Collects.referred (hm.mono hl₁.kept) hfields)
      | none =>
        simp only [mergeMember, memberPieces, href]
        exact hi ms m ps s (hdepth ms List.mem_cons_self) hm
    refine hmember.bind fun m₁ s₁ _ hm₁ => ?_
    rw [List.flatMap_cons, ← List.append_assoc]
    exact mergeMembers_learns hb hi rest m₁ _ s₁ (fun ms' h => hdepth ms' (List.mem_cons_of_mem _ h)) hm₁
  | .null :: _, _, _, _, _, _ | .bool _ :: _, _, _, _, _, _ | .num _ :: _, _, _, _, _, _
  | .str _ :: _, _, _, _, _, _ | .arr _ :: _, _, _, _, _, _ => .throw

theorem mergeOwn_learns (hb : LearnsNodes env build) (ownerName : String) (ms : Members)
    (hm : m.Gathers s.known c.doc ps) :
    Learns env c.stack s (mergeOwn build ownerName c ms m) fun m' known => m'.Gathers known c.doc (ps ++ [.own ms]) := by
  unfold mergeOwn
  split
  · refine (buildFields_learns hb ownerName _ [] s).bind fun fields s₁ hl₁ hfields => ?_
    exact .pure (Merged.Collects.own (hm.mono hl₁.kept) hfields)
  · exact .throw

theorem mergeAllOf_learns (hb : LearnsNodes env build) (ownerName : String) :
    ∀ levels, LearnsPieces env c levels (mergeAllOf env build ownerName c levels)
  | 0 => fun _ _ _ _ h _ => absurd h (Nat.not_lt_zero _)
  | levels + 1 => by
    -- the pieces are read off the raw members, which are less deep, and not off the levels
    intro ms m ps s hdepth hm
    have hdepths : ∀ ms', .obj ms' ∈ membersOf ms → membersDepth ms' < levels := by
      intro ms' hmem
      have := depth_of_membersOf hmem
      omega
    have hlist : Learns env c.stack s
        (mergeList env build (mergeAllOf env build ownerName c levels) c (ms.get? "allOf") m) fun m' known =>
          m'.Gathers known c.doc (ps ++ (membersOf ms).flatMap memberPieces) := by
      unfold membersOf at hdepths ⊢
      cases hget : ms.get? "allOf" with
      | none => exact .pure (by simpa using hm)
      | some v =>
        rw [hget] at hdepths
        cases v with
        | arr members => exact mergeMembers_learns hb (mergeAllOf_learns hb ownerName levels) members m ps s hdepths hm
        | _ => exact .throw
    rw [pieces_eq, ← List.append_assoc]
    exact hlist.bind fun m₁ s₁ _ hm₁ => mergeOwn_learns hb ownerName ms hm₁

theorem allOfNode_learns (hb : LearnsNodes env build) {ms : Members} (href : textOf ms "$ref" = none)
    (hall : ms.has "allOf" = true) :
    Learns env c.stack s (allOfNode env build ms c) fun n known => n.Reads known c.doc (.obj ms) := by
  refine (declaredName_quiet c).thenLearns fun name s₁ _ => ?_
  refine openSlot_quiet.thenLearns fun slot s₂ _ => ?_
  refine (mergeAllOf_learns hb name _ ms {} [] s₂ (Nat.lt_succ_self _) Merged.collects_nil).bind
    fun merged s₃ _ hmerged => ?_
  refine ((settleFields_quiet c merged.required merged.fields []).learns
    (settleFields_settles c merged.required merged.fields [] s₃)).bind fun fields s₄ hl₄ hfields => ?_
  refine .stored (fillSlot_quiet _ _) (Node.reads_iff.2 ⟨?_, fun r hr => ?_, fun _ => rfl, ?_⟩)
  · rw [marked_composition hall]
    rfl
  · exact absurd hr (not_aliases_composition href hall)
  · rintro _ ⟨⟩
    have hplain : ¬ Plain ms := fun h => by cases hall.symm.trans h.composition
    refine ⟨fun _ _ h => absurd h hplain, fun _ h => absurd h hplain, fun _ _ hunion => ?_, fun _ _ => ?_⟩
    · cases hall.symm.trans hunion.composition
    · exact ⟨fields, rfl, merged, hmerged.mono hl₄.kept, hfields⟩

end Compositions

/-! ## Schemas -/

section Schemas

variable {env : Env} {build : Build} {c : Context} {s : State}

/-- A node with `null` added or not reads the union, if it reads the one schema in it. -/
theorem Node.Reads.union {known : Known} {doc : Option String} {ms : Members} {members : List Json} {single : Json}
    {n n' : Node} (hunion : IsUnion ms members single) (hn : n.Reads known doc single) (hkind : n'.kind = n.kind)
    (hnullable : n'.nullable = (n.nullable || members.any isNullMember)) : n'.Reads known doc (.obj ms) := by
  refine Node.reads_iff.2 ⟨?_, fun r hr => ?_, fun hnone => ?_, ?_⟩
  · rw [hnullable, Bool.or_eq_true, hn.reading.nullable, marked_union hunion]
  · rw [hkind]
    exact hn.reading.aliases r ((aliases_union hunion).1 hr)
  · rw [hkind]
    exact hn.reading.shape fun r hr => hnone r ((aliases_union hunion).2 hr)
  · rintro _ ⟨⟩
    refine ⟨fun _ _ h => absurd h hunion.not_plain, fun _ h => absurd h hunion.not_plain, fun _ _ hunion' => ?_,
      fun _ hall => ?_⟩
    · obtain ⟨rfl, rfl⟩ := hunion.unique hunion'
      exact ⟨n, hn, hkind.symm⟩
    · cases hall.symm.trans hunion.composition

theorem unionNode_learns (hb : LearnsNodes env build) {ms : Members} {members : Json}
    (href : textOf ms "$ref" = none) (hall : ms.has "allOf" = false)
    (hmembers : (ms.get? "oneOf").or (ms.get? "anyOf") = some members) :
    Learns env c.stack s (unionNode build members c) fun n known => n.Reads known c.doc (.obj ms) := by
  unfold unionNode
  split
  · exact .throw
  · rename_i list hlist
    obtain rfl : members = .arr list := by
      cases members with
      | arr items => cases hlist; rfl
      | _ => cases hlist
    split
    · rename_i single hsingle
      have hunion : IsUnion ms list single := ⟨href, hall, hmembers, hsingle⟩
      refine (hb single c s).bind fun n s₁ _ hn => ?_
      split
      · rename_i hdone
        refine .pure (hn.union hunion rfl ?_)
        cases hnull : n.nullable with
        | true => rfl
        | false => simpa [hnull] using hdone
      · rename_i hopen
        have hadd : (n.nullable || list.any isNullMember) = true := by
          cases hnull : list.any isNullMember with
          | true => simp
          | false => simp [hnull] at hopen
        exact .stored (fun _ => rfl) (hn.union hunion rfl hadd.symm)
    · exact .throw

theorem formNode_learns (hb : LearnsNodes env build) (ms : Members) :
    Learns env c.stack s (formNode env build ms c) fun n known => n.Reads known c.doc (.obj ms) := by
  unfold formNode
  split
  · rename_i reference href
    exact referenceForm_learns hb href
  · rename_i href
    split
    · rename_i hall
      exact allOfNode_learns hb href hall
    · rename_i hall
      have hall : ms.has "allOf" = false := by simpa using hall
      split
      · rename_i members hmembers
        exact unionNode_learns hb href hall hmembers
      · rename_i hnone
        exact typedNode_learns hb ⟨href, hall, hnone⟩

theorem buildStep_learns (hb : LearnsNodes env build) : LearnsNodes env (buildStep env build) := by
  intro raw c s
  unfold buildStep
  split
  · exact formNode_learns hb _
  · refine (scalarNode_learns .any false [] c.stack).imp fun n _ _ hn => ?_
    refine Node.reads_iff.2 ⟨?_, nofun, fun _ => ?_, nofun⟩
    · rw [hn.1]
      exact iff_of_false (by simp) nofun
    · rw [hn.2]
      rfl
  · exact .throw

/-- **Every build gives a node that reads its schema**, and what is known of named schemas reads them. -/
theorem build_learns (env : Env) : ∀ steps, LearnsNodes env (Schema.build env steps)
  | 0 => fun _ _ _ => .throw
  | steps + 1 => buildStep_learns (build_learns env steps)

end Schemas

/-! ## Sessions -/

section Sessions

variable {env : Env} {s : State}

theorem resolveKeys_learns {build : Build} (hb : LearnsNodes env build) : ∀ (keys : List String) (s : State),
    Learns env [] s (resolveKeys env build keys) fun _ _ => True
  | [], _ => .pure trivial
  | key :: keys, s => by
    refine (resolveKey_learns hb _ _).bind fun n s₁ _ _ => ?_
    exact (resolveKeys_learns hb keys s₁).bind fun _ _ _ _ => .pure trivial

/-- The fields of a record of loose members read their schemas. -/
theorem synthesizeObject_learns (hint : String) (members : List Member) (presence : Presence) (owner : String) :
    Learns env [] s (synthesizeObject env hint members presence owner) fun n known =>
      List.Forall₂ (fun (m : Member) f => f.type.Reads known none (m.schema.getD stringSchema)) members n.fields := by
  refine (allocateName_quiet hint).thenLearns fun name s₁ _ => ?_
  refine openSlot_quiet.thenLearns fun slot s₂ _ => ?_
  refine (buildFields_learns (c := ⟨none, owner, name, none, presence, []⟩) (build_learns env _) name _ [] s₂).bind
    fun fields s₃ _ hfields => ?_
  refine .stored (fillSlot_quiet _ _) ?_
  rw [recordNode_fields]
  exact (List.forall₂_map_left_iff.1 hfields).imp fun _ _ hf => hf.2

/-- Every question keeps states faithful, also one that is refused. -/
theorem Query.answer_faithful (hs : s.Faithful env) (q : Query) :
    Ends (q.answer env) s (fun _ s' => s'.Faithful env) fun _ s' => s'.Faithful env := by
  have hfaithful : ∀ {m : Resolve (List Node)} {P : List Node → Known → Prop}, Learns env [] s m P →
      Ends m s (fun _ s' => s'.Faithful env) fun _ s' => s'.Faithful env := fun h =>
    (h hs).mono (fun _ _ h => h.1.1) fun _ _ h => h.1
  cases q with
  | components =>
    exact hfaithful ((resolveKeys_learns (build_learns env _) _ s).bind (Q := fun _ _ => True) fun _ _ _ _ =>
      .pure trivial)
  | inline raw hint owner =>
    exact hfaithful ((build_learns env _ raw ⟨none, owner, hint, none, env.presence, []⟩ s).bind
      (Q := fun _ _ => True) fun _ _ _ _ => .pure trivial)
  | synthesize hint members presence owner =>
    exact hfaithful ((synthesizeObject_learns hint members presence owner).bind (Q := fun _ _ => True)
      fun _ _ _ _ => .pure trivial)
  | declarations mark => exact hs
  | allocate name => exact hs
  | reserve name => exact hs

/-- **The states of sessions are faithful.** -/
theorem Session.faithful {nodes : List Node} (h : Session env s nodes) : s.Faithful env := by
  induction h with
  | start =>
    intro key n hn
    unfold State.known at hn
    rw [resolved_initial] at hn
    cases hn
  | answered q _ hq ih => exact (q.answer_faithful ih).of_ok hq
  | refused q _ hq ih => exact (q.answer_faithful ih).of_error hq
  | compiled n required _ _ ih => exact ih
  | collected n _ _ ih => exact ih

end Sessions

end ApiForge.Schema
