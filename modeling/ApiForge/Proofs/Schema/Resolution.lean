import ApiForge.Proofs.Naming.Fresh
import ApiForge.Proofs.Run
import ApiForge.Proofs.Schema.Registry
import ApiForge.Schema.Resolver

/-!
# A resolver keeps its rules apart

A type name is given out once: to a named schema, or to a node that is declared where it stands. Hence the rules that a
resolver keeps under a type name are the rules of every node of that name.

* `Valid stack ρ s`: the state `s` fits the registry `ρ` while the named schemas in `stack` are open. All nodes that the
  state holds are sound, its cache is within `ρ`, and a named schema has rules only if it is open or resolved.
* `Grows stack own ρ s ρ' s'`: what may have happened between two such states. New rules belong to new names, to named
  schemas that were not open, or to the name `own`.
* `Reserved stack ρ s name`: a name that has been given out and has no rules yet; growth keeps it so
  (`Reserved.grows`), which is why the node that it was given out for may still take it.

Every function of the resolver keeps validity (`Keeps`), if the builder of the parts does (`buildStep_keeps`), hence so
does `build` (`build_keeps`).
-/

namespace ApiForge.Schema

open Naming

/-! ## States that fit a registry -/

/-- A state that fits a registry while some named schemas are open. -/
structure Valid (stack : List RefKey) (ρ : Registry) (s : State) : Prop where
  cache : s.rules.Within ρ
  taken : ∀ name, ρ name ≠ none → name ∈ s.names.taken
  named : ∀ k name, (k, name) ∈ s.components → name ∈ s.names.taken
  apart : ∀ k k' name, (k, name) ∈ s.components → (k', name) ∈ s.components → k = k'
  resolved : ∀ k n, (k, n) ∈ s.resolved → n.Sound ρ
  declared : ∀ n, some n ∈ s.declared → n.Sound ρ
  pending : ∀ k name, (k, name) ∈ s.components → ρ name ≠ none → k ∈ stack ∨ ∃ n, (k, n) ∈ s.resolved

/-- What may happen while some named schemas are open and a node is built under the name `own`. -/
structure Grows (stack : List RefKey) (own : Option String) (ρ : Registry) (s : State) (ρ' : Registry) (s' : State) :
    Prop where
  registry : ρ'.Extends ρ
  taken : s.names.taken ⊆ s'.names.taken
  components : s.components ⊆ s'.components
  named : ∀ k name, (k, name) ∈ s'.components →
    (k, name) ∈ s.components ∨ name ∉ s.names.taken ∧ ∀ m, (k, m) ∉ s.components
  fresh : ∀ name, ρ name = none → ρ' name ≠ none →
    name ∉ s.names.taken ∨ (∃ k, k ∉ stack ∧ (k, name) ∈ s'.components) ∨ own = some name

/-- A name that has been given out and has no rules yet. -/
structure Reserved (stack : List RefKey) (ρ : Registry) (s : State) (name : String) : Prop where
  taken : name ∈ s.names.taken
  free : ρ name = none
  openKey : ∀ k, (k, name) ∈ s.components → k ∈ stack

section Growth

variable {stack : List RefKey} {own : Option String} {ρ ρ₁ ρ₂ : Registry} {s s₁ s₂ : State} {name : String}

/-- A change that concerns neither names nor rules. -/
theorem Grows.same (hn : s₁.names = s.names) (hc : s₁.components = s.components) : Grows stack own ρ s ρ s₁ where
  registry := .refl ρ
  taken := by rw [hn]; exact List.Subset.refl _
  components := by rw [hc]; exact List.Subset.refl _
  named k name h := .inl (hc ▸ h)
  fresh _ h h' := absurd h h'

theorem Grows.refl : Grows stack own ρ s ρ s := .same rfl rfl

/-- Growth composes; of two names in a row, the second is new or the first one again. -/
theorem Grows.trans {own₁ own₂ : Option String} (h₁ : Grows stack own₁ ρ s ρ₁ s₁) (h₂ : Grows stack own₂ ρ₁ s₁ ρ₂ s₂)
    (ho₁ : own₁ = none ∨ own₁ = own) (ho₂ : ∀ name, own₂ = some name → name ∉ s.names.taken ∨ own = some name) :
    Grows stack own ρ s ρ₂ s₂ where
  registry := h₂.registry.trans h₁.registry
  taken := List.Subset.trans h₁.taken h₂.taken
  components := List.Subset.trans h₁.components h₂.components
  named k name h := by
    rcases h₂.named k name h with h | ⟨hn, hk⟩
    · exact h₁.named k name h
    · exact .inr ⟨fun h => hn (h₁.taken h), fun m hm => hk m (h₁.components hm)⟩
  fresh name h₀ h := by
    cases hr : ρ₁ name with
    | none =>
      rcases h₂.fresh name hr h with h | h | h
      · exact .inl fun hn => h (h₁.taken hn)
      · exact .inr (.inl h)
      · rcases ho₂ name h with h | h
        · exact .inl h
        · exact .inr (.inr h)
    | some rules =>
      rcases h₁.fresh name h₀ (by simp [hr]) with h | ⟨k, hk, hm⟩ | h
      · exact .inl h
      · exact .inr (.inl ⟨k, hk, h₂.components hm⟩)
      · rcases ho₁ with ho | ho
        · rw [ho] at h
          cases h
        · exact .inr (.inr (ho ▸ h))

/-- Growth after growth that gave rules to no name of its own. -/
theorem Grows.andThen (h₁ : Grows stack none ρ s ρ₁ s₁) (h₂ : Grows stack own ρ₁ s₁ ρ₂ s₂) :
    Grows stack own ρ s ρ₂ s₂ := h₁.trans h₂ (.inl rfl) fun _ h => .inr h

/-- Growth and then a change that concerns neither names nor rules. -/
theorem Grows.andSame (h : Grows stack own ρ s ρ₁ s₁) (hn : s₂.names = s₁.names) (hc : s₂.components = s₁.components) :
    Grows stack own ρ s ρ₁ s₂ where
  registry := h.registry
  taken := by rw [hn]; exact h.taken
  components := by rw [hc]; exact h.components
  named k name hk := h.named k name (hc ▸ hk)
  fresh name h₀ h₁ := by rw [hc]; exact h.fresh name h₀ h₁

/-- A reserved name stays reserved until the node that it was given out for takes it. -/
theorem Reserved.grows (hr : Reserved stack ρ s name) (hg : Grows stack none ρ s ρ₁ s₁) :
    Reserved stack ρ₁ s₁ name := by
  have hkeys : ∀ k, (k, name) ∈ s₁.components → k ∈ stack := by
    intro k hk
    rcases hg.named k name hk with h | ⟨h, -⟩
    · exact hr.openKey k h
    · exact absurd hr.taken h
  refine ⟨hg.taken hr.taken, ?_, hkeys⟩
  by_contra hne
  rcases hg.fresh name hr.free hne with h | ⟨k, hk, hm⟩ | h
  · exact h hr.taken
  · exact hk (hkeys k hm)
  · cases h

/-- Changes of the declared nodes. -/
theorem Valid.withDeclared (hv : Valid stack ρ s) {declared : Array (Option Node)}
    (hd : ∀ n, some n ∈ declared → n.Sound ρ) : Valid stack ρ { s with declared } :=
  ⟨hv.cache, hv.taken, hv.named, hv.apart, hv.resolved, hd, hv.pending⟩

/-- A named schema takes a new name. -/
theorem Valid.reserve (hv : Valid stack ρ s) (hname : name ∉ s.names.taken) {key : RefKey}
    {components : List (RefKey × String)} (hc : ∀ p ∈ components, p = (key, name) ∨ p ∈ s.components) :
    Valid stack ρ { s with names := ⟨name :: s.names.taken⟩, components } := by
  refine ⟨hv.cache, fun m hm => List.mem_cons_of_mem _ (hv.taken m hm), fun k m hm => ?_, fun k k' m hm hm' => ?_,
    hv.resolved, hv.declared, fun k m hm hr => ?_⟩
  · rcases hc _ hm with h | h
    · cases h
      exact List.mem_cons_self
    · exact List.mem_cons_of_mem _ (hv.named k m h)
  · rcases hc _ hm with h | h <;> rcases hc _ hm' with h' | h'
    · cases h
      cases h'
      rfl
    · cases h
      exact absurd (hv.named k' _ h') hname
    · cases h'
      exact absurd (hv.named k _ h) hname
    · exact hv.apart k k' m h h'
  · rcases hc _ hm with h | h
    · cases h
      exact absurd (hv.taken _ hr) hname
    · exact hv.pending k m h hr

/-- **A node takes its name**: a reserved name gets the rules of a node with sound parts. -/
theorem Valid.register (hv : Valid stack ρ s) (hr : Reserved stack ρ s name) {n : Node} (hname : n.name = name)
    (hk : n.kind.Sound ρ) : Valid stack (ρ.insert name n.rules) s ∧
      Grows stack (some name) ρ s (ρ.insert name n.rules) s ∧ n.Sound (ρ.insert name n.rules) := by
  have hext := Registry.insert_extends n.rules hr.free
  have hnew : ∀ m, ρ.insert name n.rules m ≠ none → ρ m ≠ none ∨ m = name := by
    intro m hm
    by_cases h : m = name
    · exact .inr h
    · rw [Registry.insert, if_neg h] at hm
      exact .inl hm
  refine ⟨?_, ?_, ?_⟩
  · refine ⟨hv.cache.mono hext, fun m hm => ?_, hv.named, hv.apart, fun k n h => (hv.resolved k n h).mono hext,
      fun n h => (hv.declared n h).mono hext, fun k m hm h => ?_⟩
    · rcases hnew m hm with h | rfl
      · exact hv.taken m h
      · exact hr.taken
    · rcases hnew m h with h | rfl
      · exact hv.pending k m hm h
      · exact .inl (hr.openKey k hm)
  · refine ⟨hext, List.Subset.refl _, List.Subset.refl _, fun _ _ h => .inl h, fun m h₀ h => ?_⟩
    rcases hnew m h with h | rfl
    · exact absurd h₀ h
    · exact .inr (.inr rfl)
  · exact Node.sound_iff.2 ⟨hk.mono hext, fun _ _ => hname ▸ Registry.insert_self ..⟩

end Growth

/-! ## Computations that keep validity -/

/-- A computation that goes from a valid state to a valid one, also when it fails. Only a success may have given rules
to the name `own`. -/
def Keeps {α : Type} (stack : List RefKey) (own : Option String) (ρ : Registry) (s : State) (m : Resolve α)
    (P : α → Registry → State → Prop) : Prop :=
  Ends m s (fun a s' => ∃ ρ', Valid stack ρ' s' ∧ Grows stack own ρ s ρ' s' ∧ P a ρ' s')
    (fun _ s' => ∃ ρ', Valid stack ρ' s' ∧ Grows stack none ρ s ρ' s')

section Keeps

variable {α β : Type} {stack : List RefKey} {own : Option String} {ρ : Registry} {s : State}
  {P : α → Registry → State → Prop} {Q : β → Registry → State → Prop}

theorem Keeps.pure {a : α} (hv : Valid stack ρ s) (h : P a ρ s) : Keeps stack own ρ s (pure a) P :=
  ⟨ρ, hv, .refl, h⟩

theorem Keeps.throw {e : CompileError} (hv : Valid stack ρ s) : Keeps stack own ρ s (throw e) P := ⟨ρ, hv, .refl⟩

/-- A sequence whose first part gives rules to no name of its own. -/
theorem Keeps.bind {m : Resolve α} {f : α → Resolve β} (h : Keeps stack none ρ s m P)
    (hf : ∀ a ρ₁ s₁, Valid stack ρ₁ s₁ → Grows stack none ρ s ρ₁ s₁ → P a ρ₁ s₁ → Keeps stack own ρ₁ s₁ (f a) Q) :
    Keeps stack own ρ s (m >>= f) Q := by
  refine ends_bind.2 (Ends.mono h (fun a s₁ ⟨ρ₁, hv₁, hg₁, ha⟩ => ?_) fun _ _ h => h)
  refine Ends.mono (hf a ρ₁ s₁ hv₁ hg₁ ha) (fun b s₂ ⟨ρ₂, hv₂, hg₂, hb⟩ => ?_) fun _ s₂ ⟨ρ₂, hv₂, hg₂⟩ => ?_
  · exact ⟨ρ₂, hv₂, hg₁.andThen hg₂, hb⟩
  · exact ⟨ρ₂, hv₂, hg₁.andThen hg₂⟩

/-- A last step that changes nothing. -/
theorem Keeps.map {m : Resolve α} {f : α → β} (h : Keeps stack own ρ s m P)
    (hf : ∀ a ρ₁ s₁, P a ρ₁ s₁ → Q (f a) ρ₁ s₁) : Keeps stack own ρ s (f <$> m) Q :=
  ends_map.2 (Ends.mono h (fun a _ ⟨ρ₁, hv₁, hg₁, ha⟩ => ⟨ρ₁, hv₁, hg₁, hf a _ _ ha⟩) fun _ _ h => h)

theorem Keeps.bindPure {m : Resolve α} {f : α → β} (h : Keeps stack own ρ s m P)
    (hf : ∀ a ρ₁ s₁, P a ρ₁ s₁ → Q (f a) ρ₁ s₁) : Keeps stack own ρ s (m >>= fun a => Pure.pure (f a)) Q := by
  rw [bind_pure_comp]
  exact h.map hf

/-! ## Names and places -/

/-- A new name is reserved for what comes next. -/
theorem allocateName_bind {hint : String} {f : String → Resolve β} (hv : Valid stack ρ s)
    (hf : ∀ name s₁, Valid stack ρ s₁ → Grows stack none ρ s ρ s₁ → Reserved stack ρ s₁ name →
      Keeps stack (some name) ρ s₁ (f name) Q) :
    Keeps stack none ρ s (allocateName hint >>= f) Q := by
  set name := s.names.fresh hint with hname
  have hnew : name ∉ s.names.taken := Allocator.fresh_not_mem s.names hint
  set s₁ : State := { s with names := ⟨name :: s.names.taken⟩ } with hs₁
  have hv₁ : Valid stack ρ s₁ :=
    ⟨hv.cache, fun m hm => List.mem_cons_of_mem _ (hv.taken m hm),
      fun k m hm => List.mem_cons_of_mem _ (hv.named k m hm), hv.apart, hv.resolved, hv.declared, hv.pending⟩
  have hg₁ : Grows stack none ρ s ρ s₁ :=
    ⟨.refl ρ, List.subset_cons_self _ _, List.Subset.refl _, fun _ _ h => .inl h, fun _ h h' => absurd h h'⟩
  have hr : Reserved stack ρ s₁ name := by
    refine ⟨List.mem_cons_self, ?_, fun k hk => absurd (hv.named k name hk) hnew⟩
    by_contra h
    exact hnew (hv.taken name h)
  rw [Keeps, allocateName, ends_bind, ends_modifyGet]
  refine Ends.mono (hf name s₁ hv₁ hg₁ hr) (fun b s₂ ⟨ρ₂, hv₂, hg₂, hb⟩ => ?_) fun _ s₂ ⟨ρ₂, hv₂, hg₂⟩ => ?_
  · exact ⟨ρ₂, hv₂, hg₁.trans hg₂ (.inl rfl) fun m hm => .inl (Option.some.inj hm ▸ hnew), hb⟩
  · exact ⟨ρ₂, hv₂, hg₁.andThen hg₂⟩

/-- The name of a named schema is reserved while its node is built. -/
def Ready (c : Context) (ρ : Registry) (s : State) : Prop := ∀ name, c.component = some name → Reserved c.stack ρ s name

theorem Ready.grows {c : Context} {ρ₁ : Registry} {s₁ : State} (h : Ready c ρ s)
    (hg : Grows c.stack none ρ s ρ₁ s₁) : Ready c ρ₁ s₁ := fun name hn => (h name hn).grows hg

/-- Parts of a schema have no name of their own. -/
theorem Ready.child (c : Context) (hint : String) : Ready (c.child hint) ρ s := fun _ h => by cases h

/-- The name of a schema that is declared in any case is reserved for what comes next. -/
theorem declaredName_bind {c : Context} {f : String → Resolve β} (hv : Valid c.stack ρ s) (hc : Ready c ρ s)
    (hf : ∀ name s₁, Valid c.stack ρ s₁ → Grows c.stack none ρ s ρ s₁ → Reserved c.stack ρ s₁ name →
      Keeps c.stack (some name) ρ s₁ (f name) Q) :
    Keeps c.stack c.component ρ s (declaredName c >>= f) Q := by
  unfold declaredName
  cases h : c.component with
  | none => exact allocateName_bind hv hf
  | some name => exact hf name s hv .refl (hc name h)

theorem openSlot_keeps (hv : Valid stack ρ s) : Keeps stack none ρ s openSlot fun _ _ _ => True := by
  refine ⟨ρ, hv.withDeclared fun n hn => ?_, .same rfl rfl, trivial⟩
  rcases Array.mem_push.1 hn with h | h
  · exact hv.declared n h
  · cases h

theorem openSlotIf_keeps (hv : Valid stack ρ s) (wanted : Bool) :
    Keeps stack none ρ s (openSlotIf wanted) fun slot _ _ => slot.isSome = wanted := by
  cases wanted
  · exact .pure hv rfl
  · exact (openSlot_keeps hv).map fun _ _ _ _ => rfl

/-- A declared node takes its name and its place. -/
theorem fillSlot_keeps {name : String} (hv : Valid stack ρ s) (hr : Reserved stack ρ s name) (slot : Nat) {n : Node}
    (hname : n.name = name) (hk : n.kind.Sound ρ) :
    Keeps stack (some name) ρ s (fillSlot slot n) fun _ ρ' _ => n.Sound ρ' := by
  obtain ⟨hv₁, hg₁, hn⟩ := hv.register hr hname hk
  refine ⟨_, hv₁.withDeclared fun m hm => ?_, hg₁.andSame rfl rfl, hn⟩
  rcases Array.mem_or_eq_of_mem_setIfInBounds hm with h | h
  · exact hv₁.declared m h
  · exact Option.some.inj h ▸ hn

/-- The place and the name of a node that is declared only if it is a named one. -/
theorem fillSlotIf_keeps {c : Context} (hv : Valid c.stack ρ s) (hc : Ready c ρ s) {slot : Option Nat} {n : Node}
    (hs : slot.isSome = c.component.isSome) (hd : n.declared = c.component.isSome)
    (hname : ∀ name, c.component = some name → n.name = name) (hk : n.kind.Sound ρ) :
    Keeps c.stack c.component ρ s (fillSlotIf slot n) fun _ ρ' _ => n.Sound ρ' := by
  cases slot with
  | none => exact .pure hv (Node.sound_iff.2 ⟨hk, fun h => by rw [hd, ← hs] at h; cases h⟩)
  | some slot =>
    cases h : c.component with
    | none => rw [h] at hs; cases hs
    | some name => exact fillSlot_keeps hv (hc name h) slot (hname name h) hk

theorem declareNode_keeps {c : Context} (hv : Valid c.stack ρ s) (hc : Ready c ρ s) {n : Node}
    (hd : n.declared = c.component.isSome) (hname : ∀ name, c.component = some name → n.name = name)
    (hk : n.kind.Sound ρ) : Keeps c.stack c.component ρ s (declareNode n) fun n ρ' _ => n.Sound ρ' := by
  refine (openSlotIf_keeps hv n.declared).bind fun slot ρ₁ s₁ hv₁ hg₁ hs => ?_
  exact (fillSlotIf_keeps hv₁ (hc.grows hg₁) (hs.trans hd) hd hname (hk.mono hg₁.registry)).bindPure
    fun _ _ _ h => h

/-- The rules that a resolver gives a field of a sound type are the rules of the field. -/
theorem rulesOf_keeps {n : Node} (hv : Valid stack ρ s) (hn : n.Sound ρ) (required : Bool) :
    Keeps stack none ρ s (rulesOf n required) fun rules _ _ => rules = n.fieldRules required := by
  obtain ⟨hr, hc⟩ := RuleCache.fieldRules_sound hn hv.cache required
  exact ⟨ρ, ⟨hc, hv.taken, hv.named, hv.apart, hv.resolved, hv.declared, hv.pending⟩, .same rfl rfl, hr⟩

theorem constraintsAt_keeps {ms : Json.Members} {c : Context} (hv : Valid stack ρ s) :
    Keeps stack none ρ s (constraintsAt ms c) fun _ _ _ => True := by
  unfold constraintsAt
  split
  · exact .pure hv trivial
  · exact .throw hv

end Keeps

/-! ## Nodes without references -/

/-- A builder that keeps validity and gives sound nodes. -/
def KeepsNodes (build : Build) : Prop :=
  ∀ raw c ρ s, Valid c.stack ρ s → Ready c ρ s → Keeps c.stack c.component ρ s (build raw c) fun n ρ' _ => n.Sound ρ'

section Nodes

variable {env : Env} {build : Build} {c : Context} {ρ : Registry} {s : State}

theorem scalarNode_keeps (hv : Valid c.stack ρ s) (hc : Ready c ρ s) (kind : ScalarKind) (nullable : Bool)
    (ms : Json.Members) : Keeps c.stack c.component ρ s (scalarNode c kind nullable ms) fun n ρ' _ => n.Sound ρ' := by
  refine (constraintsAt_keeps hv).bind fun constraints ρ₁ s₁ hv₁ hg₁ _ => ?_
  refine declareNode_keeps hv₁ (hc.grows hg₁) rfl (fun name h => ?_) (by rw [Kind.Sound]; trivial)
  simp only [labelOf, h, Option.getD_some]

theorem enumNode_keeps (hv : Valid c.stack ρ s) (hc : Ready c ρ s) (ms : Json.Members) (members : List Json)
    (nullable : Bool) :
    Keeps c.stack c.component ρ s (enumNode ms members nullable c) fun n ρ' _ => n.Sound ρ' := by
  unfold enumNode
  split
  · exact .throw hv
  · exact .throw hv
  · refine declaredName_bind hv hc fun name s₁ hv₁ hg₁ hr₁ => ?_
    refine (openSlot_keeps hv₁).bind fun slot ρ₂ s₂ hv₂ hg₂ _ => ?_
    refine (constraintsAt_keeps hv₂).bind fun constraints ρ₃ s₃ hv₃ hg₃ _ => ?_
    have hr₃ := (hr₁.grows hg₂).grows hg₃
    exact (fillSlot_keeps hv₃ hr₃ slot rfl (by rw [Kind.Sound]; trivial)).bindPure fun _ _ _ h => h

theorem elementNode_keeps (hb : KeepsNodes build) (hv : Valid c.stack ρ s) (hc : Ready c ρ s) (ms : Json.Members) :
    Keeps c.stack c.component ρ s (elementNode build ms c) fun n ρ' _ => n.Sound ρ' := by
  unfold elementNode
  split
  · exact hb _ c ρ s hv hc
  · exact scalarNode_keeps hv hc .any false []

theorem arrayNode_keeps (hb : KeepsNodes build) (hv : Valid c.stack ρ s) (hc : Ready c ρ s) (ms : Json.Members)
    (nullable : Bool) : Keeps c.stack c.component ρ s (arrayNode build ms nullable c) fun n ρ' _ => n.Sound ρ' := by
  refine (openSlotIf_keeps hv c.component.isSome).bind fun slot ρ₁ s₁ hv₁ hg₁ hs => ?_
  refine (elementNode_keeps (c := c.child (labelOf c ++ "Item")) hb hv₁ (.child c _) ms).bind
    fun element ρ₂ s₂ hv₂ hg₂ he => ?_
  refine (constraintsAt_keeps hv₂).bind fun constraints ρ₃ s₃ hv₃ hg₃ _ => ?_
  have hc₃ := ((hc.grows hg₁).grows hg₂).grows hg₃
  refine (fillSlotIf_keeps (c := c) hv₃ hc₃ hs rfl (fun name h => ?_) ?_).bindPure fun _ _ _ h => h
  · simp only [labelOf, h, Option.getD_some]
  · rw [Kind.Sound]
    exact he.mono hg₃.registry

/-- Fields are built with the rules of their own types. -/
theorem buildFields_keeps (hb : KeepsNodes build) (ownerName : String) :
    ∀ (entries : List Entry) (taken : List String) {ρ : Registry} {s : State}, Valid c.stack ρ s →
      Keeps c.stack none ρ s (buildFields build ownerName c taken entries) fun fs ρ' _ => ∀ f ∈ fs, f.Sound ρ'
  | [], _, ρ, s, hv => .pure hv fun _ h => by cases h
  | e :: es, taken, ρ, s, hv => by
    refine (hb e.schema (c.child (ownerName ++ pascalCase e.key)) ρ s hv (.child c _)).bind
      fun type ρ₁ s₁ hv₁ hg₁ ht => ?_
    refine (rulesOf_keeps hv₁ ht e.required).bind fun rules ρ₂ s₂ hv₂ hg₂ hr => ?_
    refine (buildFields_keeps hb ownerName es _ hv₂).bind fun fs ρ₃ s₃ hv₃ hg₃ hfs => ?_
    refine .pure hv₃ (List.forall_mem_cons.2 ⟨⟨?_, hr⟩, hfs⟩)
    exact (ht.mono hg₂.registry).mono hg₃.registry

theorem objectNode_keeps (hb : KeepsNodes build) (hv : Valid c.stack ρ s) (hc : Ready c ρ s) (ms : Json.Members)
    (nullable : Bool) : Keeps c.stack c.component ρ s (objectNode build ms nullable c) fun n ρ' _ => n.Sound ρ' := by
  refine declaredName_bind hv hc fun name s₁ hv₁ hg₁ hr₁ => ?_
  refine (openSlot_keeps hv₁).bind fun slot ρ₂ s₂ hv₂ hg₂ _ => ?_
  refine (buildFields_keeps hb name _ [] hv₂).bind fun fs ρ₃ s₃ hv₃ hg₃ hfs => ?_
  refine (fillSlot_keeps hv₃ ((hr₁.grows hg₂).grows hg₃) slot rfl ?_).bindPure fun _ _ _ h => h
  rw [recordNode, Kind.Sound]
  exact Field.allSound_iff.2 hfs

end Nodes

/-! ## Named schemas -/

section Keys

variable {env : Env} {build : Build} {key : RefKey} {stack : List RefKey} {own : Option String} {ρ ρ₁ : Registry}
  {s s₁ : State}

theorem Valid.push (hv : Valid stack ρ s) (key : RefKey) : Valid (key :: stack) ρ s :=
  ⟨hv.cache, hv.taken, hv.named, hv.apart, hv.resolved, hv.declared, fun k name hk hr =>
    (hv.pending k name hk hr).imp (List.mem_cons_of_mem key) id⟩

/-- What happens while a named schema is open may happen when it is not, if its own name belongs to it. -/
theorem Grows.pop (hg : Grows (key :: stack) own ρ s ρ₁ s₁) (hk : key ∉ stack)
    (ho : ∀ name, own = some name → (key, name) ∈ s₁.components) : Grows stack none ρ s ρ₁ s₁ :=
  ⟨hg.registry, hg.taken, hg.components, hg.named, fun name h₀ h₁ => by
    rcases hg.fresh name h₀ h₁ with h | ⟨k, hkey, hm⟩ | h
    · exact .inl h
    · exact .inr (.inl ⟨k, fun h => hkey (List.mem_cons_of_mem key h), hm⟩)
    · exact .inr (.inl ⟨key, hk, ho name h⟩)⟩

/-- A named schema that is neither open nor resolved gets a name, and its names have no rules yet. -/
theorem componentName_keeps (hv : Valid stack ρ s) (hk : key ∉ stack) (hnew : ∀ n, (key, n) ∉ s.resolved) :
    Keeps stack none ρ s (componentName key) fun name ρ₁ s₁ => (key, name) ∈ s₁.components ∧
      ∀ m, (key, m) ∈ s₁.components → Reserved (key :: stack) ρ₁ s₁ m := by
  have hfree : ∀ m, (key, m) ∈ s.components → ρ m = none := by
    intro m hm
    by_contra h
    rcases hv.pending key m hm h with h | ⟨n, h⟩
    · exact hk h
    · exact hnew n h
  rw [Keeps, componentName, ends_bind, ends_get]
  cases hf : s.components.find? (·.1 == key) with
  | some found =>
    obtain ⟨k, name⟩ := found
    obtain rfl : k = key := by simpa using List.find?_some hf
    refine ⟨ρ, hv, .refl, List.mem_of_find?_eq_some hf, fun m hm => ⟨hv.named k m hm, hfree m hm, fun k' hk' => ?_⟩⟩
    exact hv.apart k' k m hk' hm ▸ List.mem_cons_self
  | none =>
    have hnone : ∀ m, (key, m) ∉ s.components := fun m hm => by simpa using List.find?_eq_none.1 hf _ hm
    simp only [allocateName, ends_bind, ends_modifyGet, ends_modify, ends_pure]
    set name := s.names.fresh (pascalCase key.name) with hname
    have hname' : name ∉ s.names.taken := Allocator.fresh_not_mem s.names _
    have hfree' : ρ name = none := by
      by_contra h
      exact hname' (hv.taken name h)
    refine ⟨ρ, hv.reserve hname' fun _ => List.mem_cons.1, ?_, List.mem_cons_self, fun m hm => ?_⟩
    · refine ⟨.refl ρ, List.subset_cons_self _ _, List.subset_cons_self _ _, fun k m hm => ?_,
        fun _ h h' => absurd h h'⟩
      rcases List.mem_cons.1 hm with h | h
      · cases h
        exact .inr ⟨hname', hnone⟩
      · exact .inl h
    · rcases List.mem_cons.1 hm with h | h
      · cases h
        refine ⟨List.mem_cons_self, hfree', fun k' hk' => ?_⟩
        rcases List.mem_cons.1 hk' with h | h
        · cases h
          exact List.mem_cons_self
        · exact absurd (hv.named k' name h) hname'
      · exact absurd h (hnone m)

/-- Builds a named schema that is neither open nor resolved, and keeps its node. -/
theorem buildKey_keeps (hb : KeepsNodes build) (hv : Valid stack ρ s) (hk : key ∉ stack)
    (hnew : ∀ n, (key, n) ∉ s.resolved) (raw : Json) :
    Keeps stack none ρ s (buildKey env build key raw stack) fun n ρ' _ => n.Sound ρ' := by
  refine (componentName_keeps hv hk hnew).bind fun name ρ₁ s₁ hv₁ hg₁ ⟨hname, hr₁⟩ => ?_
  have hinner := hb raw (.ofKey env key name stack) ρ₁ s₁ (hv₁.push key)
    fun m hm => hr₁ m (Option.some.inj hm ▸ hname)
  rw [Keeps, ends_bind]
  refine Ends.mono hinner (fun n s₂ ⟨ρ₂, hv₂, hg₂, hn⟩ => ?_) fun _ s₂ ⟨ρ₂, hv₂, hg₂⟩ => ?_
  · simp only [ends_bind, ends_modify, ends_pure]
    refine ⟨ρ₂, ?_, ?_, hn⟩
    · refine ⟨hv₂.cache, hv₂.taken, hv₂.named, hv₂.apart, fun k m hm => ?_, hv₂.declared, fun k m hm hr => ?_⟩
      · rcases List.mem_cons.1 hm with h | h
        · cases h
          exact hn
        · exact hv₂.resolved k m h
      · rcases hv₂.pending k m hm hr with h | ⟨n', h⟩
        · rcases List.mem_cons.1 h with rfl | h
          · exact .inr ⟨n, List.mem_cons_self⟩
          · exact .inl h
        · exact .inr ⟨n', List.mem_cons_of_mem _ h⟩
    · exact (hg₂.pop hk fun m hm => Option.some.inj hm ▸ hg₂.components hname).andSame rfl rfl
  · refine ⟨ρ₂, ⟨hv₂.cache, hv₂.taken, hv₂.named, hv₂.apart, hv₂.resolved, hv₂.declared, fun k m hm hr => ?_⟩,
      hg₂.pop hk fun _ h => by cases h⟩
    rcases hv₂.pending k m hm hr with h | h
    · rcases List.mem_cons.1 h with rfl | h
      · -- the build failed before the node took a name, so no name of the schema has rules
        rcases hg₂.named k m hm with h | ⟨-, h⟩
        · exact absurd ((hr₁ m h).grows hg₂).free hr
        · exact absurd hname (h name)
      · exact .inl h
    · exact .inr h

theorem resolveKey_keeps (hb : KeepsNodes build) (hv : Valid stack ρ s) (owner reference : String) :
    Keeps stack none ρ s (resolveKey env build key owner reference stack) fun n ρ' _ => n.Sound ρ' := by
  rw [Keeps, resolveKey, ends_bind, ends_get]
  cases hf : s.resolved.find? (·.1 == key) with
  | some found => exact ⟨ρ, hv, .refl, hv.resolved _ _ (List.mem_of_find?_eq_some hf)⟩
  | none =>
    dsimp only
    split
    · exact Keeps.throw hv
    · rename_i hk
      split
      · exact Keeps.throw hv
      · refine buildKey_keeps hb hv (by simpa using hk) (fun n hn => ?_) _
        simpa using List.find?_eq_none.1 hf _ hn

end Keys

/-! ## References and compositions -/

section Composition

variable {env : Env} {build : Build} {c : Context} {ρ ρ₁ : Registry} {s : State}

theorem resolveRef_keeps (hb : KeepsNodes build) (hv : Valid c.stack ρ s) (reference : String) :
    Keeps c.stack none ρ s (resolveRef env build reference c) fun n ρ' _ => n.Sound ρ' := by
  unfold resolveRef
  split
  · exact .throw hv
  · exact resolveKey_keeps hb hv c.owner reference

theorem referenceNode_keeps {target : Node} (hv : Valid c.stack ρ s) (hc : Ready c ρ s) (ht : target.Sound ρ)
    (nullable : Bool) :
    Keeps c.stack c.component ρ s (referenceNode target nullable c) fun n ρ' _ => n.Sound ρ' := by
  refine declareNode_keeps hv hc rfl (fun name h => ?_) (by rw [Kind.Sound]; exact ht)
  simp only [h, Option.getD_some]

/-- The fields collected so far carry the rules of their own types. -/
def Merged.Sound (ρ : Registry) (m : Merged) : Prop := ∀ f ∈ m.fields, f.Sound ρ

theorem Field.Sound.mono {f : Field} (h : f.Sound ρ) (hρ : ρ₁.Extends ρ) : f.Sound ρ₁ := ⟨h.1.mono hρ, h.2⟩

theorem Merged.Sound.mono {m : Merged} (h : m.Sound ρ) (hρ : ρ₁.Extends ρ) : m.Sound ρ₁ :=
  fun f hf => (h f hf).mono hρ

theorem mem_mergeField {fs : List Field} {f g : Field} (h : g ∈ mergeField fs f) : g = f ∨ g ∈ fs := by
  unfold mergeField at h
  split at h
  · obtain ⟨g', hg', rfl⟩ := List.mem_map.1 h
    split
    · exact .inl rfl
    · exact .inr hg'
  · rcases List.mem_append.1 h with h | h
    · exact .inr h
    · exact .inl (List.mem_singleton.1 h)

theorem Merged.Sound.merge : ∀ {fs : List Field} {m : Merged}, m.Sound ρ → (∀ f ∈ fs, f.Sound ρ) → (m.merge fs).Sound ρ
  | [], _, hm, _ => hm
  | f :: fs, m, hm, hfs => by
    have hm₁ : Merged.Sound ρ { m with fields := mergeField m.fields f } := by
      intro g hg
      rcases mem_mergeField hg with rfl | hg
      · exact hfs g List.mem_cons_self
      · exact hm g hg
    exact hm₁.merge fun g hg => hfs g (List.mem_cons_of_mem f hg)

/-- A way to collect inline members of a composition that keeps validity and sound fields. -/
def KeepsMerged (c : Context) (inline : Json.Members → Merged → Resolve Merged) : Prop :=
  ∀ ms m ρ s, Valid c.stack ρ s → m.Sound ρ → Keeps c.stack none ρ s (inline ms m) fun m' ρ' _ => m'.Sound ρ'

theorem referredFields_keeps (hb : KeepsNodes build) (hv : Valid c.stack ρ s) (reference : String) :
    Keeps c.stack none ρ s (referredFields env build reference c) fun fs ρ' _ => ∀ f ∈ fs, f.Sound ρ' := by
  refine (resolveRef_keeps hb hv reference).bind fun target ρ₁ s₁ hv₁ hg₁ ht => ?_
  split
  · exact .pure hv₁ ht.fields
  · exact .throw hv₁

theorem mergeMember_keeps {inline : Json.Members → Merged → Resolve Merged} (hb : KeepsNodes build)
    (hi : KeepsMerged c inline) : KeepsMerged c (mergeMember env build inline c) := by
  intro ms m ρ s hv hm
  unfold mergeMember
  split
  · refine ends_map.2 (Ends.mono (referredFields_keeps hb hv _) (fun fs s₁ ⟨ρ₁, hv₁, hg₁, hfs⟩ => ?_) fun _ _ h => h)
    exact ⟨ρ₁, hv₁, hg₁, (hm.mono hg₁.registry).merge hfs⟩
  · exact hi ms m ρ s hv hm

theorem mergeMembers_keeps {inline : Json.Members → Merged → Resolve Merged} (hb : KeepsNodes build)
    (hi : KeepsMerged c inline) : ∀ (members : List Json) (m : Merged) {ρ : Registry} {s : State}, Valid c.stack ρ s →
      m.Sound ρ → Keeps c.stack none ρ s (mergeMembers env build inline c members m) fun m' ρ' _ => m'.Sound ρ'
  | [], _, _, _, hv, hm => .pure hv hm
  | .obj ms :: rest, m, ρ, s, hv, hm => by
    refine (mergeMember_keeps hb hi ms m ρ s hv hm).bind fun m₁ ρ₁ s₁ hv₁ _ hm₁ => ?_
    exact mergeMembers_keeps hb hi rest m₁ hv₁ hm₁
  | .null :: _, _, _, _, hv, _ | .bool _ :: _, _, _, _, hv, _ | .num _ :: _, _, _, _, hv, _
  | .str _ :: _, _, _, _, hv, _ | .arr _ :: _, _, _, _, hv, _ => .throw hv

theorem mergeOwn_keeps (hb : KeepsNodes build) (ownerName : String) : KeepsMerged c (mergeOwn build ownerName c) := by
  intro ms m ρ s hv hm
  unfold mergeOwn
  split
  · refine (buildFields_keeps hb ownerName _ [] hv).bind fun fs ρ₁ s₁ hv₁ hg₁ hfs => ?_
    have hm₁ : (m.require (textsOf ms "required")).Sound ρ₁ := hm.mono hg₁.registry
    exact .pure hv₁ (hm₁.merge hfs)
  · exact .throw hv

theorem mergeAllOf_keeps (hb : KeepsNodes build) (ownerName : String) :
    ∀ levels, KeepsMerged c (mergeAllOf env build ownerName c levels)
  | 0 => fun _ _ _ _ hv hm => .pure hv hm
  | levels + 1 => by
    intro ms m ρ s hv hm
    refine Keeps.bind (P := fun m' ρ' _ => m'.Sound ρ') ?_ fun m₁ ρ₁ s₁ hv₁ _ hm₁ =>
      mergeOwn_keeps hb ownerName ms m₁ ρ₁ s₁ hv₁ hm₁
    unfold mergeList
    split
    · exact .pure hv hm
    · exact mergeMembers_keeps hb (mergeAllOf_keeps hb ownerName levels) _ _ hv hm
    · exact .throw hv

/-- A field that becomes required gets the rules of a required field. -/
theorem settleFields_keeps (required : List String) :
    ∀ (fs : List Field) (taken : List String) {ρ : Registry} {s : State}, Valid c.stack ρ s → (∀ f ∈ fs, f.Sound ρ) →
      Keeps c.stack none ρ s (settleFields c required taken fs) fun fs' ρ' _ => ∀ f ∈ fs', f.Sound ρ'
  | [], _, _, _, hv, _ => .pure hv fun _ h => by cases h
  | f :: fs, taken, ρ, s, hv, hfs => by
    obtain ⟨hf, hfs⟩ := List.forall_mem_cons.1 hfs
    have hrules : Keeps c.stack none ρ s (settledRules f (f.required || required.contains f.wireKey))
        fun rules _ _ => rules = f.type.fieldRules (f.required || required.contains f.wireKey) := by
      unfold settledRules
      split
      · exact rulesOf_keeps hv hf.1 _
      · rename_i h
        have h : (f.required || required.contains f.wireKey) = f.required := by simpa using h
        exact .pure hv (by rw [h]; exact hf.2)
    refine hrules.bind fun rules ρ₁ s₁ hv₁ hg₁ hr => ?_
    refine (settleFields_keeps required fs _ hv₁ fun g hg => (hfs g hg).mono hg₁.registry).bind
      fun fs' ρ₂ s₂ hv₂ hg₂ hfs' => ?_
    exact .pure hv₂ (List.forall_mem_cons.2 ⟨⟨(hf.1.mono hg₁.registry).mono hg₂.registry, hr⟩, hfs'⟩)

theorem allOfNode_keeps (hb : KeepsNodes build) (hv : Valid c.stack ρ s) (hc : Ready c ρ s) (ms : Json.Members) :
    Keeps c.stack c.component ρ s (allOfNode env build ms c) fun n ρ' _ => n.Sound ρ' := by
  refine declaredName_bind hv hc fun name s₁ hv₁ hg₁ hr₁ => ?_
  refine (openSlot_keeps hv₁).bind fun slot ρ₂ s₂ hv₂ hg₂ _ => ?_
  refine (mergeAllOf_keeps hb name _ ms {} ρ₂ s₂ hv₂ fun _ h => by cases h).bind fun merged ρ₃ s₃ hv₃ hg₃ hm => ?_
  refine (settleFields_keeps merged.required merged.fields [] hv₃ hm).bind fun fs ρ₄ s₄ hv₄ hg₄ hfs => ?_
  have hr₄ := ((hr₁.grows hg₂).grows hg₃).grows hg₄
  refine (fillSlot_keeps hv₄ hr₄ slot rfl ?_).bindPure fun _ _ _ h => h
  rw [recordNode, Kind.Sound]
  exact Field.allSound_iff.2 hfs

/-- Adding `null` to the values of a node changes no rules. -/
theorem makeNullable_ends {stack : List RefKey} {n : Node} (hv : Valid stack ρ s) (hn : n.Sound ρ) :
    Ends (makeNullable n) s (fun n' s' => Valid stack ρ s' ∧ (s'.names = s.names ∧ s'.components = s.components) ∧
      n'.Sound ρ) fun _ _ => False := by
  refine ends_bind.2 (ends_modify.2 ⟨hv.withDeclared fun m hm => ?_, ⟨rfl, rfl⟩, hn.nullable true⟩)
  split at hm
  · unfold replaceDeclared at hm
    split at hm
    · rcases Array.mem_or_eq_of_mem_setIfInBounds hm with h | h
      · exact hv.declared m h
      · exact Option.some.inj h ▸ hn.nullable true
    · exact hv.declared m hm
  · exact hv.declared m hm

theorem unionNode_keeps (hb : KeepsNodes build) (hv : Valid c.stack ρ s) (hc : Ready c ρ s) (members : Json) :
    Keeps c.stack c.component ρ s (unionNode build members c) fun n ρ' _ => n.Sound ρ' := by
  unfold unionNode
  split
  · exact .throw hv
  · split
    · rw [Keeps, ends_bind]
      refine Ends.mono (hb _ c ρ s hv hc) (fun n s₁ ⟨ρ₁, hv₁, hg₁, hn⟩ => ?_) fun _ _ h => h
      split
      · exact ⟨ρ₁, hv₁, hg₁, hn⟩
      · refine Ends.mono (makeNullable_ends hv₁ hn) (fun n' s₂ ⟨hv₂, ⟨hnames, hcomp⟩, hn'⟩ => ?_) fun _ _ h => h.elim
        exact ⟨ρ₁, hv₂, hg₁.andSame hnames hcomp, hn'⟩
    · exact .throw hv

/-! ## Schemas -/

theorem typedNode_keeps (hb : KeepsNodes build) (hv : Valid c.stack ρ s) (hc : Ready c ρ s) (ms : Json.Members) :
    Keeps c.stack c.component ρ s (typedNode build ms c) fun n ρ' _ => n.Sound ρ' := by
  unfold typedNode
  split
  · exact .throw hv
  · dsimp only
    split
    · exact objectNode_keeps hb hv hc ms _
    · exact arrayNode_keeps hb hv hc ms _
    · split
      · exact enumNode_keeps hv hc ms _ _
      · exact scalarNode_keeps hv hc _ _ ms
    · exact scalarNode_keeps hv hc .integer _ ms
    · exact scalarNode_keeps hv hc .number _ ms
    · exact scalarNode_keeps hv hc .boolean _ ms
    · exact scalarNode_keeps hv hc .any _ ms
    · exact .throw hv

theorem formNode_keeps (hb : KeepsNodes build) (hv : Valid c.stack ρ s) (hc : Ready c ρ s) (ms : Json.Members) :
    Keeps c.stack c.component ρ s (formNode env build ms c) fun n ρ' _ => n.Sound ρ' := by
  unfold formNode
  split
  · refine (resolveRef_keeps hb hv _).bind fun target ρ₁ s₁ hv₁ hg₁ ht => ?_
    exact referenceNode_keeps hv₁ (hc.grows hg₁) ht _
  · split
    · exact allOfNode_keeps hb hv hc ms
    · split
      · exact unionNode_keeps hb hv hc _
      · exact typedNode_keeps hb hv hc ms

/-- One step keeps validity, if the builder of the parts does. -/
theorem buildStep_keeps (hb : KeepsNodes build) : KeepsNodes (buildStep env build) := by
  intro raw c ρ s hv hc
  unfold buildStep
  split
  · exact formNode_keeps hb hv hc _
  · exact scalarNode_keeps hv hc .any false []
  · exact .throw hv

/-- **Every build keeps validity** and gives sound nodes. -/
theorem build_keeps (env : Env) : ∀ steps, KeepsNodes (Schema.build env steps)
  | 0 => fun _ _ _ _ hv _ => .throw hv
  | steps + 1 => buildStep_keeps (build_keeps env steps)

end Composition

end ApiForge.Schema
