import ApiForge.Operation.Resolve
import ApiForge.Proofs.Naming.Fresh
import ApiForge.Proofs.Naming.Identifier
import ApiForge.Proofs.Schema.Verdict
import ApiForge.Proofs.Schema.Within

/-!
# Declared schemas have names of their own

A resolver takes a place for a declaration before it builds the parts of a schema and fills it afterwards. When a
computation succeeds, all places that it has taken are filled, and those that were there before are as they were.

* `Orderly env stack s`: in the state `s`, while the named schemas in `stack` are open, no two declared nodes have one
  name, every name that has been given out is well formed (`Formed`), and the nodes that the state holds speak of its
  declarations only.
* `Adds stack own s s' new`: what may have happened between two such states. The nodes in `new` have been declared;
  their names are new, or belong to named schemas that were not open, or are the name `own`.
* `Held stack s name`: a name that has been given out and not been declared yet; it stays so (`Held.after`), which is
  why the node that it was given out for may still take it.
* `Node.Placed n s`: a node that has been built speaks of declarations only, and if it is declared itself, nothing else
  speaks of it yet (`State.Apart`). So it may still be replaced, as happens where `null` is added to its values.

Every function of the resolver goes from orderly states to orderly states (`Declares`), if the builder of the parts does
(`buildStep_declares`), hence so does `build` (`build_declares`).
-/

namespace ApiForge.Schema

open Naming

/-! ## Orderly states -/

/-- A type name that is compound or the Pascal case of the name of a schema. -/
def Formed (env : Env) (name : String) : Prop :=
  Compound name ∨ ∃ k raw, env.rawSchema? k = some raw ∧ name = pascalCase k.name

/-- The names of the declared nodes. -/
def State.declaredNames (s : State) : List String := (s.declarationsSince 0).map Node.name

/-- The declared nodes with other names. -/
def State.others (s : State) (name : String) : List Node := (s.declarationsSince 0).filter (·.name != name)

/-- A node that a state holds: a declared one or that of a named schema. -/
def State.Stores (s : State) (n : Node) : Prop := n ∈ s.declarationsSince 0 ∨ ∃ k, (k, n) ∈ s.resolved

/-- A state in which names are used once, while some named schemas are open. -/
structure Orderly (env : Env) (stack : List RefKey) (s : State) : Prop where
  formed : ∀ name ∈ s.names.taken, Formed env name
  named : ∀ k name, (k, name) ∈ s.components → name ∈ s.names.taken
  apart : ∀ k k' name, (k, name) ∈ s.components → (k', name) ∈ s.components → k = k'
  declared : ∀ name ∈ s.declaredNames, name ∈ s.names.taken
  distinct : s.declaredNames.Nodup
  pending : ∀ k name, (k, name) ∈ s.components → name ∈ s.declaredNames → k ∈ stack ∨ ∃ n, (k, n) ∈ s.resolved
  closed : ∀ n, s.Stores n → n.Within (s.declarationsSince 0)

/-- What may happen while some named schemas are open and a node is built under the name `own`. -/
structure Adds (stack : List RefKey) (own : Option String) (s s' : State) (new : List Node) : Prop where
  taken : s.names.taken ⊆ s'.names.taken
  components : s.components ⊆ s'.components
  named : ∀ k name, (k, name) ∈ s'.components →
    (k, name) ∈ s.components ∨ name ∉ s.names.taken ∧ ∀ m, (k, m) ∉ s.components
  places : s'.declared.toList = s.declared.toList ++ new.map some
  fresh : ∀ n ∈ new, n.name ∉ s.names.taken ∨ (∃ k, k ∉ stack ∧ (k, n.name) ∈ s'.components) ∨ own = some n.name

/-- A name that has been given out and not been declared. -/
structure Held (stack : List RefKey) (s : State) (name : String) : Prop where
  taken : name ∈ s.names.taken
  free : name ∉ s.declaredNames
  openKey : ∀ k, (k, name) ∈ s.components → k ∈ stack

/-- Neither the parts of a node nor what else a state holds speak of the node. -/
def State.Apart (s : State) (n : Node) : Prop :=
  ∀ m, m ∈ n.kind.parts ∨ m ∈ s.others n.name ∨ (∃ k, (k, m) ∈ s.resolved) → m.Within (s.others n.name)

/-- A node that has just been built. -/
structure Node.Placed (n : Node) (s : State) : Prop where
  within : n.Within (s.declarationsSince 0)
  apart : n.declared = true → s.Apart n

section Orderly

variable {env : Env} {stack : List RefKey} {own : Option String} {s s₁ s₂ : State} {name : String}
  {new new₁ new₂ : List Node}

theorem Formed.capital (h : Formed env name) : Capital name := by
  rcases h with h | ⟨k, raw, -, rfl⟩
  · exact h.capital
  · exact capital_pascalCase k.name

/-- The name that a named schema gets. -/
theorem Formed.ofKey {k : RefKey} {raw : Json} (hraw : env.rawSchema? k = some raw) (a : Allocator) :
    Formed env (a.fresh (pascalCase k.name)) := by
  rcases (capital_pascalCase k.name).fresh a with h | h
  · exact .inr ⟨k, raw, hraw, h⟩
  · exact .inl h

theorem State.declaredNames_eq (s : State) : s.declaredNames = (s.declared.toList.filterMap id).map Node.name := rfl

/-- A change of rules and resolved nodes. -/
theorem Adds.same (hn : s₁.names = s.names) (hc : s₁.components = s.components) (hd : s₁.declared = s.declared) :
    Adds stack own s s₁ [] where
  taken := by rw [hn]; exact List.Subset.refl _
  components := by rw [hc]; exact List.Subset.refl _
  named k name h := .inl (hc ▸ h)
  places := by rw [hd, List.map_nil, List.append_nil]
  fresh _ h := by cases h

theorem Adds.refl : Adds stack own s s [] := .same rfl rfl rfl

/-- The declarations after a change, and those since. -/
theorem Adds.declarations (h : Adds stack own s s₁ new) :
    s₁.declarationsSince 0 = s.declarationsSince 0 ++ new ∧ s₁.declarationsSince s.declared.size = new := by
  constructor
  · simp [State.declarationsSince, h.places, List.filterMap_map]
  · simp [State.declarationsSince, h.places, List.filterMap_map]

/-- What speaks of declarations only still does so when there are more. -/
theorem Adds.within (h : Adds stack own s s₁ new) {n : Node} (hn : n.Within (s.declarationsSince 0)) :
    n.Within (s₁.declarationsSince 0) := by
  refine hn.mono ?_
  rw [h.declarations.1]
  exact List.subset_append_left _ _

theorem Adds.declaredNames (h : Adds stack own s s₁ new) :
    s₁.declaredNames = s.declaredNames ++ new.map Node.name := by
  rw [State.declaredNames, h.declarations.1, List.map_append]
  rfl

/-- One change after another; of two names in a row, the second is new or the first one again. -/
theorem Adds.trans {own₁ own₂ : Option String} (h₁ : Adds stack own₁ s s₁ new₁) (h₂ : Adds stack own₂ s₁ s₂ new₂)
    (ho₁ : own₁ = none ∨ own₁ = own) (ho₂ : ∀ name, own₂ = some name → name ∉ s.names.taken ∨ own = some name) :
    Adds stack own s s₂ (new₁ ++ new₂) where
  taken := List.Subset.trans h₁.taken h₂.taken
  components := List.Subset.trans h₁.components h₂.components
  named k name h := by
    rcases h₂.named k name h with h | ⟨hn, hk⟩
    · exact h₁.named k name h
    · exact .inr ⟨fun h => hn (h₁.taken h), fun m hm => hk m (h₁.components hm)⟩
  places := by rw [h₂.places, h₁.places, List.map_append, List.append_assoc]
  fresh n hn := by
    rcases List.mem_append.1 hn with hn | hn
    · rcases h₁.fresh n hn with h | ⟨k, hk, hm⟩ | h
      · exact .inl h
      · exact .inr (.inl ⟨k, hk, h₂.components hm⟩)
      · rcases ho₁ with ho | ho
        · rw [ho] at h
          cases h
        · exact .inr (.inr (ho ▸ h))
    · rcases h₂.fresh n hn with h | h | h
      · exact .inl fun ht => h (h₁.taken ht)
      · exact .inr (.inl h)
      · exact (ho₂ n.name h).imp_right .inr

theorem Adds.andThen (h₁ : Adds stack none s s₁ new₁) (h₂ : Adds stack own s₁ s₂ new₂) :
    Adds stack own s s₂ (new₁ ++ new₂) := h₁.trans h₂ (.inl rfl) fun _ h => .inr h

/-- A held name stays held until the node that it was given out for takes it. -/
theorem Held.after (hr : Held stack s name) (hg : Adds stack none s s₁ new) : Held stack s₁ name := by
  have hkeys : ∀ k, (k, name) ∈ s₁.components → k ∈ stack := by
    intro k hk
    rcases hg.named k name hk with h | ⟨h, -⟩
    · exact hr.openKey k h
    · exact absurd hr.taken h
  refine ⟨hg.taken hr.taken, fun hdeclared => ?_, hkeys⟩
  rw [hg.declaredNames, List.mem_append, List.mem_map] at hdeclared
  rcases hdeclared with h | ⟨n, hn, rfl⟩
  · exact hr.free h
  · rcases hg.fresh n hn with h | ⟨k, hk, hm⟩ | h
    · exact h hr.taken
    · exact hk (hkeys k hm)
    · cases h

/-- A named schema takes a new name. -/
theorem Orderly.reserve (ho : Orderly env stack s) (hname : name ∉ s.names.taken) (hformed : Formed env name)
    (key : RefKey) {components : List (RefKey × String)}
    (hc : ∀ k m, (k, m) ∈ components → k = key ∧ m = name ∨ (k, m) ∈ s.components) :
    Orderly env stack { s with names := ⟨name :: s.names.taken⟩, components } := by
  have hfree : ∀ k, (k, name) ∉ s.components := fun k hk => hname (ho.named k name hk)
  refine ⟨fun m hm => ?_, fun k m hm => ?_, fun k k' m hm hm' => ?_, fun m hm => ?_, ho.distinct, fun k m hm hd => ?_,
    ho.closed⟩
  · rcases List.mem_cons.1 hm with rfl | hm
    · exact hformed
    · exact ho.formed m hm
  · rcases hc k m hm with ⟨rfl, rfl⟩ | h
    · exact List.mem_cons_self
    · exact List.mem_cons_of_mem _ (ho.named k m h)
  · rcases hc k m hm with ⟨rfl, heq⟩ | h <;> rcases hc k' m hm' with ⟨rfl, heq'⟩ | h'
    · rfl
    · exact absurd (heq ▸ h') (hfree k')
    · exact absurd (heq' ▸ h) (hfree k)
    · exact ho.apart k k' m h h'
  · exact List.mem_cons_of_mem _ (ho.declared m hm)
  · rcases hc k m hm with ⟨rfl, rfl⟩ | h
    · exact absurd (ho.declared _ hd) hname
    · exact ho.pending k m h hd

/-! ## Places -/

/-- The state after the next place has been taken. -/
def State.opened (s : State) : State := { s with declared := s.declared.push none }

/-- The state after a place has been filled. -/
def State.filled (s : State) (slot : Nat) (node : Node) : State :=
  { s with declared := s.declared.setIfInBounds slot (some node) }

@[simp] theorem State.declaredNames_opened (s : State) : s.opened.declaredNames = s.declaredNames := by
  simp [State.declaredNames_eq, State.opened]

@[simp] theorem State.declarationsSince_opened (s : State) : s.opened.declarationsSince 0 = s.declarationsSince 0 := by
  simp [State.declarationsSince, State.opened]

/-- A change of declared nodes that keeps their names. -/
theorem Orderly.withDeclared (ho : Orderly env stack s) {declared : Array (Option Node)}
    (h : State.declaredNames { s with declared } = s.declaredNames)
    (hclosed : ∀ n, State.Stores { s with declared } n → n.Within (State.declarationsSince { s with declared } 0)) :
    Orderly env stack { s with declared } :=
  ⟨ho.formed, ho.named, ho.apart, h ▸ ho.declared, h ▸ ho.distinct, h ▸ ho.pending, hclosed⟩

theorem Orderly.opened (ho : Orderly env stack s) : Orderly env stack s.opened := by
  refine ho.withDeclared s.declaredNames_opened fun n hn => ?_
  have hsame : State.declarationsSince { s with declared := s.declared.push none } 0 = s.declarationsSince 0 :=
    s.declarationsSince_opened
  rw [State.Stores, hsame] at hn
  rw [hsame]
  exact ho.closed n hn

theorem Held.opened (hr : Held stack s name) : Held stack s.opened name :=
  ⟨hr.taken, by rw [State.declaredNames_opened]; exact hr.free, hr.openKey⟩

/-- Where names are different, all other nodes have other names. -/
theorem State.others_eq {before after : List Node} {n : Node}
    (h : s.declarationsSince 0 = before ++ n :: after) (hdistinct : s.declaredNames.Nodup) :
    s.others n.name = before ++ after := by
  rw [State.declaredNames, h, List.map_append, List.map_cons, List.nodup_middle, ← List.map_append,
    List.nodup_cons] at hdistinct
  have hkept : ∀ m ∈ before ++ after, (m.name != n.name) = true := by
    intro m hm
    rw [bne_iff_ne]
    rintro heq
    exact hdistinct.1 (heq ▸ List.mem_map_of_mem hm)
  rw [State.others, h, List.filter_append, List.filter_cons_of_neg (by simp), ← List.filter_append]
  exact List.filter_eq_self.2 hkept

/-- If nothing but a declared node speaks of it, everything speaks of declarations only. -/
theorem State.Apart.placed {n : Node} (h : s.Apart n) (hdistinct : s.declaredNames.Nodup)
    (hn : n ∈ s.declarationsSince 0) (hd : n.declared = true) :
    (∀ m, s.Stores m → m.Within (s.declarationsSince 0)) ∧ n.Placed s := by
  have hsub : s.others n.name ⊆ s.declarationsSince 0 := List.filter_subset_self _
  have hself : n.Within (s.declarationsSince 0) := by
    refine Node.within_iff.2 ⟨fun m hm => (h m (.inl hm)).mono hsub, ?_⟩
    rwa [Node.StandsIn, if_pos hd]
  refine ⟨fun m hm => ?_, hself, fun _ => h⟩
  rcases hm with hm | hm
  · by_cases hname : m.name = n.name
    · rw [List.inj_on_of_nodup_map hdistinct hm hn hname]
      exact hself
    · exact (h m (.inr (.inl (List.mem_filter.2 ⟨hm, bne_iff_ne.2 hname⟩)))).mono hsub
  · exact (h m (.inr (.inr hm))).mono hsub

/-- Filling the place that was taken first puts its node before those that were declared since. -/
theorem Adds.filled_places (hg : Adds stack none s.opened s₁ new) (node : Node) :
    (s₁.filled s.declared.size node).declared.toList = s.declared.toList ++ (node :: new).map some := by
  have hplaces : s₁.declared.toList = s.declared.toList ++ none :: new.map some := by
    rw [hg.places, State.opened, Array.toList_push, List.append_assoc, List.singleton_append]
  rw [State.filled, Array.toList_setIfInBounds, hplaces, List.set_append_right _ _ (by simp)]
  simp

/-- **A node takes its place** after its parts have been built, under a name that is held for it. -/
theorem Adds.fill (ho : Orderly env stack s₁) (hg : Adds stack none s.opened s₁ new) {node : Node}
    (hr : Held stack s node.name) (hd : node.declared = true)
    (hparts : ∀ m ∈ node.kind.parts, m.Within (s₁.declarationsSince 0)) :
    Orderly env stack (s₁.filled s.declared.size node) ∧
      Adds stack (some node.name) s (s₁.filled s.declared.size node) (node :: new) ∧
      node.Placed (s₁.filled s.declared.size node) := by
  have hadds : Adds stack (some node.name) s (s₁.filled s.declared.size node) (node :: new) := by
    refine ⟨hg.taken, hg.components, hg.named, hg.filled_places node, fun n hn => ?_⟩
    rcases List.mem_cons.1 hn with rfl | hn
    · exact .inr (.inr rfl)
    · rcases hg.fresh n hn with h | h | h
      · exact .inl h
      · exact .inr (.inl h)
      · cases h
  have hheld := hr.opened.after hg
  have hnames : (s₁.filled s.declared.size node).declaredNames = s.declaredNames ++ node.name :: new.map Node.name :=
    hadds.declaredNames
  have hbefore : s₁.declaredNames = s.declaredNames ++ new.map Node.name := by
    rw [hg.declaredNames, State.declaredNames_opened]
  have hmem : ∀ m ∈ (s₁.filled s.declared.size node).declaredNames, m = node.name ∨ m ∈ s₁.declaredNames := by
    intro m hm
    rw [hnames, List.mem_append, List.mem_cons] at hm
    rw [hbefore, List.mem_append]
    tauto
  have hdistinct : (s₁.filled s.declared.size node).declaredNames.Nodup := by
    rw [hnames, List.nodup_middle, ← hbefore]
    exact List.nodup_cons.2 ⟨hheld.free, ho.distinct⟩
  have hothers : (s₁.filled s.declared.size node).others node.name = s₁.declarationsSince 0 := by
    rw [State.others_eq hadds.declarations.1 hdistinct, hg.declarations.1, State.declarationsSince_opened]
  have hapart : (s₁.filled s.declared.size node).Apart node := by
    intro m hm
    rw [hothers] at hm ⊢
    rcases hm with hm | hm
    · exact hparts m hm
    · exact ho.closed m hm
  have hplaced := hapart.placed hdistinct (by rw [hadds.declarations.1]; simp) hd
  refine ⟨⟨ho.formed, ho.named, ho.apart, fun m hm => ?_, hdistinct, fun k m hk hm => ?_, hplaced.1⟩, hadds, hplaced.2⟩
  · rcases hmem m hm with rfl | hm
    · exact hheld.taken
    · exact ho.declared m hm
  · rcases hmem m hm with rfl | hm
    · exact .inl (hheld.openKey k hk)
    · exact ho.pending k m hk hm

end Orderly

/-! ## Computations that declare nodes -/

/-- A computation whose success leads from an orderly state to an orderly one. -/
def Declares {α : Type} (env : Env) (stack : List RefKey) (own : Option String) (s : State) (m : Resolve α)
    (P : α → List Node → State → Prop) : Prop :=
  Ends m s (fun a s' => ∃ new, Orderly env stack s' ∧ Adds stack own s s' new ∧ P a new s') fun _ _ => True

section Declares

variable {α β : Type} {env : Env} {stack : List RefKey} {own : Option String} {s : State}
  {P : α → List Node → State → Prop} {Q : β → List Node → State → Prop}

theorem Declares.pure {a : α} (ho : Orderly env stack s) (h : P a [] s) : Declares env stack own s (pure a) P :=
  ⟨[], ho, .refl, h⟩

theorem Declares.throw {e : CompileError} : Declares env stack own s (throw e) P := trivial

/-- A sequence whose first part declares no node under its own name. -/
theorem Declares.bind {m : Resolve α} {f : α → Resolve β} (h : Declares env stack none s m P)
    (hf : ∀ a new₁ s₁, Orderly env stack s₁ → Adds stack none s s₁ new₁ → P a new₁ s₁ →
      Declares env stack own s₁ (f a) fun b new₂ s₂ => Q b (new₁ ++ new₂) s₂) :
    Declares env stack own s (m >>= f) Q := by
  refine ends_bind.2 (Ends.mono h (fun a s₁ ⟨new₁, ho₁, hg₁, ha⟩ => ?_) fun _ _ h => h)
  refine Ends.mono (hf a new₁ s₁ ho₁ hg₁ ha) (fun b s₂ ⟨new₂, ho₂, hg₂, hb⟩ => ?_) fun _ _ h => h
  exact ⟨new₁ ++ new₂, ho₂, hg₁.andThen hg₂, hb⟩

theorem Declares.imp {m : Resolve α} {P' : α → List Node → State → Prop} (h : Declares env stack own s m P)
    (hP : ∀ a new s', P a new s' → P' a new s') : Declares env stack own s m P' :=
  Ends.mono h (fun a s' ⟨new, ho, hg, ha⟩ => ⟨new, ho, hg, hP a new s' ha⟩) fun _ _ h => h

theorem Declares.map {m : Resolve α} {f : α → β} (h : Declares env stack own s m P)
    (hP : ∀ a new s', P a new s' → Q (f a) new s') : Declares env stack own s (f <$> m) Q :=
  ends_map.2 (Declares.imp h hP)

/-- A result with nodes that speak of declarations only. -/
abbrev Declares.parts (env : Env) (stack : List RefKey) (s : State) (m : Resolve α) (nodes : α → List Node) : Prop :=
  Declares env stack none s m fun a _ s' => ∀ n ∈ nodes a, n.Within (s'.declarationsSince 0)

/-- A result without nodes. -/
abbrev Declares.plain (env : Env) (stack : List RefKey) (s : State) (m : Resolve α) : Prop :=
  Declares.parts env stack s m fun _ => []

/-- A computation that gives a node and has declared it, if the node says that it is declared. -/
abbrev Declares.node (env : Env) (c : Context) (s : State) (m : Resolve Node) : Prop :=
  Declares env c.stack c.component s m fun n new s' => (n.declared = true → n ∈ new) ∧ n.Placed s'

theorem Declares.plain_pure {a : α} (ho : Orderly env stack s) : Declares.plain env stack s (Pure.pure a) :=
  .pure ho fun _ h => by cases h

/-! ## Names -/

/-- A new name is held for what comes next. -/
theorem allocateName_held (ho : Orderly env stack s) {hint : String} (hname : Formed env (s.names.fresh hint)) :
    Ends (allocateName hint) s (fun name s' => Orderly env stack s' ∧ Adds stack none s s' [] ∧ Held stack s' name ∧
      name ∉ s.names.taken ∧ name = s.names.fresh hint) fun _ _ => False := by
  have hnew : s.names.fresh hint ∉ s.names.taken := s.names.fresh_not_mem hint
  refine ends_modifyGet.2 ⟨⟨fun m hm => ?_, fun k m hm => List.mem_cons_of_mem _ (ho.named k m hm), ho.apart,
    fun m hm => List.mem_cons_of_mem _ (ho.declared m hm), ho.distinct, ho.pending, ho.closed⟩,
    ⟨List.subset_cons_self _ _, List.Subset.refl _, fun _ _ h => .inl h, (List.append_nil _).symm, by nofun⟩,
    ⟨List.mem_cons_self, fun h => hnew (ho.declared _ h), fun k hk => absurd (ho.named k _ hk) hnew⟩, hnew, rfl⟩
  rcases List.mem_cons.1 hm with rfl | hm
  · exact hname
  · exact ho.formed m hm

/-- Where a schema may stand: its name is held for it, or it gets a compound name. -/
structure Apt (c : Context) (s : State) : Prop where
  hint : c.component = none → Compound c.hint
  held : ∀ name, c.component = some name → Held c.stack s name

theorem Apt.after {c : Context} {s₁ : State} {new : List Node} (h : Apt c s) (hg : Adds c.stack none s s₁ new) :
    Apt c s₁ := ⟨h.hint, fun name hn => (h.held name hn).after hg⟩

theorem Apt.opened {c : Context} (h : Apt c s) : Apt c s.opened := ⟨h.hint, fun name hn => (h.held name hn).opened⟩

/-- Parts of a schema have no name of their own. -/
theorem Apt.child (c : Context) {hint : String} (h : Compound hint) : Apt (c.child hint) s := ⟨fun _ => h, by nofun⟩

theorem Apt.capital_label {c : Context} (h : Apt c s) (ho : Orderly env c.stack s) : Capital (labelOf c) := by
  unfold labelOf
  cases hc : c.component with
  | none => exact (h.hint hc).capital
  | some name => exact (ho.formed name (h.held name hc).taken).capital

/-- The name of a schema that is declared in any case is held for what comes next. -/
theorem declaredName_bind_declares {c : Context} {f : String → Resolve β} (ho : Orderly env c.stack s) (hc : Apt c s)
    (hf : ∀ name s₁, Orderly env c.stack s₁ → Held c.stack s₁ name → Capital name →
      Declares env c.stack (some name) s₁ (f name) Q) :
    Declares env c.stack c.component s (declaredName c >>= f) Q := by
  unfold declaredName
  cases h : c.component with
  | some name => exact hf name s ho (hc.held name h) (ho.formed name (hc.held name h).taken).capital
  | none =>
    have hname : Compound (s.names.fresh c.hint) := (hc.hint h).fresh s.names
    refine ends_bind.2 (Ends.mono (allocateName_held ho (.inl hname)) (fun name s₁ h => ?_) fun _ _ h => h.elim)
    obtain ⟨ho₁, hg₁, hr₁, hnew, rfl⟩ := h
    refine Ends.mono (hf _ s₁ ho₁ hr₁ hname.capital) (fun b s₂ ⟨new, ho₂, hg₂, hb⟩ => ?_) fun _ _ h => h
    exact ⟨new, ho₂, hg₁.trans hg₂ (.inl rfl) fun m hm => .inl (Option.some.inj hm ▸ hnew), hb⟩

/-! ## Places -/

/-- A node whose place is taken before its parts are built. -/
theorem slot_declares {name : String} (hr : Held stack s name) {m : Resolve α} {f : α → Node} {p : α → List Node}
    (hname : ∀ a, (f a).name = name) (hdeclared : ∀ a, (f a).declared = true)
    (hparts : ∀ a, (f a).kind.parts ⊆ p a) (hm : Declares.parts env stack s.opened m p) :
    Declares env stack (some name) s (do
      let slot ← openSlot
      let a ← m
      fillSlot slot (f a)
      return f a) fun n new s' => (n.declared = true → n ∈ new) ∧ n.Placed s' := by
  refine ends_bind.2 (ends_modifyGet.2 (ends_bind.2 (Ends.mono hm (fun a s₁ ⟨new, ho₁, hg₁, ha⟩ => ?_) fun _ _ h => h)))
  have hheld : Held stack s (f a).name := hname a ▸ hr
  obtain ⟨ho₂, hg₂, hplaced⟩ := hg₁.fill ho₁ hheld (hdeclared a) fun b hb => ha b (hparts a hb)
  rw [hname a] at hg₂
  exact ⟨f a :: new, ho₂, hg₂, fun _ => List.mem_cons_self, hplaced⟩

/-- A node that is declared only if it is a named schema. -/
theorem slotIf_declares {c : Context} (ho : Orderly env c.stack s) (hc : Apt c s) {m : Resolve α} {f : α → Node}
    {p : α → List Node} (hdeclared : ∀ a, (f a).declared = c.component.isSome)
    (hname : ∀ a name, c.component = some name → (f a).name = name) (hinline : ∀ a, (f a).kind.isInline = true)
    (hparts : ∀ a, (f a).kind.parts ⊆ p a)
    (hm : ∀ s₁, Orderly env c.stack s₁ → Apt c s₁ → s₁.declarationsSince 0 = s.declarationsSince 0 →
      Declares.parts env c.stack s₁ m p) :
    Declares.node env c s (do
      let slot ← openSlotIf c.component.isSome
      let a ← m
      fillSlotIf slot (f a)
      return f a) := by
  unfold Declares.node
  cases h : c.component with
  | none =>
    refine Declares.bind (P := fun slot _ s₁ => slot = none ∧ s₁ = s) (.pure ho ⟨rfl, rfl⟩) ?_
    rintro slot _ s₁ ho₁ hg₁ ⟨rfl, rfl⟩
    refine (hm s₁ ho₁ hc rfl).bind fun a new s₂ ho₂ _ ha => ?_
    have hd : (f a).declared = false := by rw [hdeclared, h]; rfl
    refine Declares.pure ho₂ ⟨fun ht => ?_, Node.within_iff.2 ⟨fun b hb => ha b (hparts a hb), ?_⟩, fun ht => ?_⟩
    · rw [hd] at ht
      cases ht
    · rw [Node.StandsIn, if_neg (by rw [hd]; exact Bool.false_ne_true)]
      exact hinline a
    · rw [hd] at ht
      cases ht
  | some name =>
    exact slot_declares (hc.held name h) (fun a => hname a name h) (fun a => by rw [hdeclared, h]; rfl) hparts
      (hm _ ho.opened hc.opened s.declarationsSince_opened)

end Declares

/-! ## Nodes without references -/

/-- A builder that declares the nodes that it says are declared. -/
def DeclaresNodes (env : Env) (build : Build) : Prop :=
  ∀ raw c s, Orderly env c.stack s → Apt c s → Declares.node env c s (build raw c)

section Nodes

variable {env : Env} {build : Build} {c : Context} {s : State}

theorem rulesOf_declares {stack : List RefKey} (ho : Orderly env stack s) (n : Node) (required : Bool) :
    Declares.plain env stack s (rulesOf n required) :=
  ⟨[], ⟨ho.formed, ho.named, ho.apart, ho.declared, ho.distinct, ho.pending, ho.closed⟩, .same rfl rfl rfl, by nofun⟩

theorem constraintsAt_declares {stack : List RefKey} (ho : Orderly env stack s) (ms : Json.Members) (c : Context) :
    Declares.plain env stack s (constraintsAt ms c) := by
  unfold constraintsAt
  split
  · exact .plain_pure ho
  · exact .throw

/-- A node whose parts are there and that is declared only if it is a named schema. -/
theorem declareNode_declares (ho : Orderly env c.stack s) (hc : Apt c s) {n : Node}
    (hdeclared : n.declared = c.component.isSome) (hname : ∀ name, c.component = some name → n.name = name)
    (hinline : n.kind.isInline = true) (hparts : ∀ m ∈ n.kind.parts, m.Within (s.declarationsSince 0)) :
    Declares.node env c s (declareNode n) := by
  have := slotIf_declares ho hc (m := pure ()) (f := fun _ => n) (p := fun _ => n.kind.parts)
    (fun _ => hdeclared) (fun _ => hname) (fun _ => hinline) (fun _ => List.Subset.refl _)
    fun s₁ ho₁ _ hsame => .pure ho₁ (by rw [hsame]; exact hparts)
  rw [← hdeclared] at this
  exact this

theorem scalarNode_declares (ho : Orderly env c.stack s) (hc : Apt c s) (kind : ScalarKind) (nullable : Bool)
    (ms : Json.Members) : Declares.node env c s (scalarNode c kind nullable ms) := by
  refine (constraintsAt_declares ho ms c).bind fun constraints new₁ s₁ ho₁ hg₁ _ => ?_
  refine (declareNode_declares ho₁ (hc.after hg₁) rfl (fun name h => ?_) rfl (by nofun)).imp fun n new _ hn =>
    ⟨fun hd => List.mem_append_right _ (hn.1 hd), hn.2⟩
  simp only [labelOf, h, Option.getD_some]

theorem enumNode_declares (ho : Orderly env c.stack s) (hc : Apt c s) (ms : Json.Members) (members : List Json)
    (nullable : Bool) : Declares.node env c s (enumNode ms members nullable c) := by
  unfold enumNode
  split
  · exact .throw
  · exact .throw
  · refine declaredName_bind_declares ho hc fun name s₁ ho₁ hr₁ _ => ?_
    refine slot_declares hr₁ (fun _ => rfl) (fun _ => rfl) ?_ (constraintsAt_declares ho₁.opened ms c)
    exact fun _ => List.nil_subset _

theorem elementNode_declares (hb : DeclaresNodes env build) (ho : Orderly env c.stack s) (hc : Apt c s)
    (ms : Json.Members) : Declares.node env c s (elementNode build ms c) := by
  unfold elementNode
  split
  · exact hb _ c s ho hc
  · exact scalarNode_declares ho hc .any false []

theorem arrayNode_declares (hb : DeclaresNodes env build) (ho : Orderly env c.stack s) (hc : Apt c s)
    (ms : Json.Members) (nullable : Bool) : Declares.node env c s (arrayNode build ms nullable c) := by
  have hparts : ∀ s₁, Orderly env c.stack s₁ → Apt c s₁ → s₁.declarationsSince 0 = s.declarationsSince 0 →
      Declares.parts env c.stack s₁ (do
        let element ← elementNode build ms (c.child (labelOf c ++ "Item"))
        let constraints ← constraintsAt ms c
        return (element, constraints)) fun p => [p.1] := by
    intro s₁ ho₁ hc₁ _
    have hitem : Compound (labelOf c ++ "Item") :=
      (hc₁.capital_label ho₁).append ⟨'I', "tem".toList, by decide, by decide⟩
    have helement := elementNode_declares (c := c.child (labelOf c ++ "Item")) hb ho₁ (.child c hitem) ms
    refine helement.bind fun element new₂ s₂ ho₂ _ ⟨_, hplaced⟩ => ?_
    refine (constraintsAt_declares ho₂ ms c).bind fun constraints new₃ s₃ ho₃ hg₃ _ => ?_
    exact .pure ho₃ (List.forall_mem_singleton.2 (hg₃.within hplaced.within))
  have := slotIf_declares ho hc (f := fun p : Node × Constraints =>
    ⟨labelOf c, .array p.1, c.component.isSome, nullable, none, p.2, textOf ms "description"⟩) (fun _ => rfl)
    (fun _ name h => by simp [labelOf, h]) (fun _ => rfl) (fun _ => List.Subset.refl _) hparts
  simp only [bind_assoc, pure_bind] at this
  exact this

theorem buildFields_declares (hb : DeclaresNodes env build) {ownerName : String} (hown : Capital ownerName) :
    ∀ (entries : List Entry) (taken : List String) {s : State}, Orderly env c.stack s →
      Declares.parts env c.stack s (buildFields build ownerName c taken entries) fun fields => fields.map (·.type)
  | [], _, _, ho => .pure ho (by nofun)
  | e :: es, taken, s, ho => by
    refine (hb e.schema (c.child (ownerName ++ pascalCase e.key)) s ho
      (.child c (hown.append (capital_pascalCase e.key)))).bind fun type new₁ s₁ ho₁ _ ⟨_, hplaced⟩ => ?_
    refine (rulesOf_declares ho₁ type e.required).bind fun rules new₂ s₂ ho₂ hg₂ _ => ?_
    refine (buildFields_declares hb hown es _ ho₂).bind fun fs new₃ s₃ ho₃ hg₃ hfs => ?_
    exact .pure ho₃ (List.forall_mem_cons.2 ⟨hg₃.within (hg₂.within hplaced.within), hfs⟩)

theorem objectNode_declares (hb : DeclaresNodes env build) (ho : Orderly env c.stack s) (hc : Apt c s)
    (ms : Json.Members) (nullable : Bool) : Declares.node env c s (objectNode build ms nullable c) := by
  refine declaredName_bind_declares ho hc fun name s₁ ho₁ hr₁ hname => ?_
  refine slot_declares hr₁ (fun _ => rfl) (fun _ => rfl) ?_ (buildFields_declares hb hname _ [] ho₁.opened)
  exact fun _ => List.Subset.refl _

end Nodes

/-! ## Named schemas -/

section Keys

variable {env : Env} {build : Build} {key : RefKey} {stack : List RefKey} {own : Option String} {s s₁ : State}
  {new : List Node}

theorem Orderly.push (ho : Orderly env stack s) (key : RefKey) : Orderly env (key :: stack) s :=
  ⟨ho.formed, ho.named, ho.apart, ho.declared, ho.distinct, fun k name hk hd =>
    (ho.pending k name hk hd).imp_left (List.mem_cons_of_mem key), ho.closed⟩

/-- What happens while a named schema is open may happen when it is not, if its own name belongs to it. -/
theorem Adds.pop (hg : Adds (key :: stack) own s s₁ new) (hk : key ∉ stack)
    (hown : ∀ name, own = some name → (key, name) ∈ s₁.components) : Adds stack none s s₁ new :=
  ⟨hg.taken, hg.components, hg.named, hg.places, fun n hn => by
    rcases hg.fresh n hn with h | ⟨k, hkey, hm⟩ | h
    · exact .inl h
    · exact .inr (.inl ⟨k, fun h => hkey (List.mem_cons_of_mem key h), hm⟩)
    · exact .inr (.inl ⟨key, hk, hown n.name h⟩)⟩

/-- A named schema that is neither open nor resolved gets a name that no node has. -/
theorem componentName_declares (ho : Orderly env stack s) {raw : Json} (hraw : env.rawSchema? key = some raw)
    (hk : key ∉ stack) (hnew : ∀ n, (key, n) ∉ s.resolved) :
    Declares env stack none s (componentName key) fun name _ s₁ =>
      (key, name) ∈ s₁.components ∧ Held (key :: stack) s₁ name := by
  rw [Declares, componentName, ends_bind, ends_get]
  cases hf : s.components.find? (·.1 == key) with
  | some found =>
    obtain ⟨k, name⟩ := found
    obtain rfl : k = key := by simpa using List.find?_some hf
    have hname := List.mem_of_find?_eq_some hf
    refine ⟨[], ho, .refl, hname, ho.named k name hname, fun hd => ?_, fun k' hk' => ?_⟩
    · rcases ho.pending k name hname hd with h | ⟨n, h⟩
      · exact hk h
      · exact hnew n h
    · exact ho.apart k' k name hk' hname ▸ List.mem_cons_self
  | none =>
    have hnone : ∀ m, (key, m) ∉ s.components := fun m hm => by simpa using List.find?_eq_none.1 hf _ hm
    have hformed := Formed.ofKey hraw s.names
    have hname : s.names.fresh (pascalCase key.name) ∉ s.names.taken := s.names.fresh_not_mem _
    simp only [allocateName, ends_bind, ends_modifyGet, ends_modify, ends_pure]
    set name := s.names.fresh (pascalCase key.name)
    have hkeys : ∀ k m, (k, m) ∈ (key, name) :: s.components → (k = key ∧ m = name) ∨ (k, m) ∈ s.components :=
      fun k m hm => (List.mem_cons.1 hm).imp_left Prod.mk.inj
    refine ⟨[], ho.reserve hname hformed key hkeys, ⟨List.subset_cons_self _ _, List.subset_cons_self _ _,
      fun k m hm => ?_, (List.append_nil _).symm, fun _ h => by cases h⟩, List.mem_cons_self, List.mem_cons_self,
      fun hd => ?_, fun k hk => ?_⟩
    · rcases hkeys k m hm with ⟨rfl, rfl⟩ | h
      · exact .inr ⟨hname, hnone⟩
      · exact .inl h
    · exact hname (ho.declared name hd)
    · rcases hkeys k name hk with ⟨rfl, -⟩ | h
      · exact List.mem_cons_self
      · exact absurd (ho.named k name h) hname

/-- Builds a named schema that is neither open nor resolved, and keeps its node. -/
theorem buildKey_declares (hb : DeclaresNodes env build) (ho : Orderly env stack s) {raw : Json}
    (hraw : env.rawSchema? key = some raw) (hk : key ∉ stack) (hnew : ∀ n, (key, n) ∉ s.resolved) :
    Declares.parts env stack s (buildKey env build key raw stack) fun n => [n] := by
  refine (componentName_declares ho hraw hk hnew).bind fun name new₁ s₁ ho₁ hg₁ ⟨hname, hheld⟩ => ?_
  have hinner := hb raw (.ofKey env key name stack) s₁ (ho₁.push key)
    ⟨by nofun, fun m hm => Option.some.inj hm ▸ hheld⟩
  refine ends_bind.2 (Ends.mono hinner (fun n s₂ ⟨new₂, ho₂, hg₂, _, hplaced⟩ => ?_) fun _ _ h => h)
  have hpop := hg₂.pop hk fun m hm => Option.some.inj hm ▸ hg₂.components hname
  refine ⟨new₂, ⟨ho₂.formed, ho₂.named, ho₂.apart, ho₂.declared, ho₂.distinct, fun k m hm hd => ?_, fun m hm => ?_⟩,
    ⟨hpop.taken, hpop.components, hpop.named, hpop.places, hpop.fresh⟩, List.forall_mem_singleton.2 hplaced.within⟩
  · rcases ho₂.pending k m hm hd with h | ⟨n', h⟩
    · rcases List.mem_cons.1 h with rfl | h
      · exact .inr ⟨n, List.mem_cons_self⟩
      · exact .inl h
    · exact .inr ⟨n', List.mem_cons_of_mem _ h⟩
  · rcases hm with hm | ⟨k, hm⟩
    · exact ho₂.closed m (.inl hm)
    · rcases List.mem_cons.1 hm with heq | hm
      · rw [(Prod.mk.inj heq).2]
        exact hplaced.within
      · exact ho₂.closed m (.inr ⟨k, hm⟩)

theorem resolveKey_declares (hb : DeclaresNodes env build) (ho : Orderly env stack s) (owner reference : String) :
    Declares.parts env stack s (resolveKey env build key owner reference stack) fun n => [n] := by
  rw [Declares.parts, Declares, resolveKey, ends_bind, ends_get]
  cases hf : s.resolved.find? (·.1 == key) with
  | some found =>
    have hstored : s.Stores found.2 := .inr ⟨found.1, List.mem_of_find?_eq_some hf⟩
    exact ⟨[], ho, .refl, List.forall_mem_singleton.2 (ho.closed found.2 hstored)⟩
  | none =>
    dsimp only
    split
    · trivial
    · rename_i hk
      split
      · trivial
      · rename_i raw hraw
        refine buildKey_declares hb ho hraw (by simpa using hk) fun n hn => ?_
        simpa using List.find?_eq_none.1 hf _ hn

end Keys

/-! ## References and compositions -/

section Composition

variable {env : Env} {build : Build} {c : Context} {s : State}

theorem resolveRef_declares (hb : DeclaresNodes env build) (ho : Orderly env c.stack s) (reference : String) :
    Declares.parts env c.stack s (resolveRef env build reference c) fun n => [n] := by
  unfold resolveRef
  split
  · exact .throw
  · exact resolveKey_declares hb ho c.owner reference

theorem referenceNode_declares (ho : Orderly env c.stack s) (hc : Apt c s) {target : Node}
    (htarget : target.Within (s.declarationsSince 0)) (nullable : Bool) :
    Declares.node env c s (referenceNode target nullable c) := by
  refine declareNode_declares ho hc rfl (fun name h => ?_) rfl (List.forall_mem_singleton.2 htarget)
  simp only [h, Option.getD_some]

/-- The types of the fields that have been collected. -/
def Merged.types (m : Merged) : List Node := m.fields.map (·.type)

/-- A way to collect inline members of a composition. -/
def DeclaresMerged (env : Env) (c : Context) (inline : Json.Members → Merged → Resolve Merged) : Prop :=
  ∀ ms m s, Orderly env c.stack s → (∀ n ∈ m.types, n.Within (s.declarationsSince 0)) →
    Declares.parts env c.stack s (inline ms m) Merged.types

/-- Merging fields adds no types but theirs. -/
theorem Merged.within_merge {declared : List Node} {fields : List Field} {m : Merged}
    (hm : ∀ n ∈ m.types, n.Within declared) (hf : ∀ n ∈ fields.map (·.type), n.Within declared) :
    ∀ n ∈ (m.merge fields).types, n.Within declared := by
  induction fields generalizing m with
  | nil => exact hm
  | cons f fields ih =>
    obtain ⟨hhead, htail⟩ := List.forall_mem_cons.1 hf
    refine ih (m := { m with fields := mergeField m.fields f }) (fun n hn => ?_) htail
    obtain ⟨g, hg, rfl⟩ := List.mem_map.1 hn
    rcases mem_mergeField hg with rfl | hg
    · exact hhead
    · exact hm g.type (List.mem_map_of_mem hg)

theorem referredFields_declares (hb : DeclaresNodes env build) (ho : Orderly env c.stack s) (reference : String) :
    Declares.parts env c.stack s (referredFields env build reference c) fun fields => fields.map (·.type) := by
  refine (resolveRef_declares hb ho reference).bind fun target new₁ s₁ ho₁ _ htarget => ?_
  split
  · refine .pure ho₁ fun n hn => ?_
    obtain ⟨f, hf, rfl⟩ := List.mem_map.1 hn
    exact (htarget target (List.mem_singleton_self _)).fields f hf
  · exact .throw

theorem mergeMember_declares {inline : Json.Members → Merged → Resolve Merged} (hb : DeclaresNodes env build)
    (hi : DeclaresMerged env c inline) : DeclaresMerged env c (mergeMember env build inline c) := by
  intro ms m s ho hm
  unfold mergeMember
  split
  · rename_i reference _
    rw [← bind_pure_comp]
    exact (referredFields_declares hb ho reference).bind fun fields new₁ s₁ ho₁ hg₁ hfields =>
      .pure ho₁ (Merged.within_merge (fun n hn => hg₁.within (hm n hn)) hfields)
  · exact hi ms m s ho hm

theorem mergeMembers_declares {inline : Json.Members → Merged → Resolve Merged} (hb : DeclaresNodes env build)
    (hi : DeclaresMerged env c inline) : ∀ (members : List Json) (m : Merged) {s : State}, Orderly env c.stack s →
      (∀ n ∈ m.types, n.Within (s.declarationsSince 0)) →
      Declares.parts env c.stack s (mergeMembers env build inline c members m) Merged.types
  | [], _, _, ho, hm => .pure ho hm
  | .obj ms :: rest, m, s, ho, hm =>
    (mergeMember_declares hb hi ms m s ho hm).bind fun m₁ _ _ ho₁ _ hm₁ => mergeMembers_declares hb hi rest m₁ ho₁ hm₁
  | .null :: _, _, _, _, _ | .bool _ :: _, _, _, _, _ | .num _ :: _, _, _, _, _ | .str _ :: _, _, _, _, _
  | .arr _ :: _, _, _, _, _ => .throw

theorem mergeOwn_declares (hb : DeclaresNodes env build) {ownerName : String} (hown : Capital ownerName) :
    DeclaresMerged env c (mergeOwn build ownerName c) := by
  intro ms m s ho hm
  unfold mergeOwn
  split
  · exact (buildFields_declares hb hown _ [] ho).bind fun fs _ s₁ ho₁ hg₁ hfs =>
      .pure ho₁ (Merged.within_merge (fun n hn => hg₁.within (hm n hn)) hfs)
  · exact .throw

theorem mergeAllOf_declares (hb : DeclaresNodes env build) {ownerName : String} (hown : Capital ownerName) :
    ∀ levels, DeclaresMerged env c (mergeAllOf env build ownerName c levels)
  | 0 => fun _ _ _ ho hm => .pure ho hm
  | levels + 1 => by
    intro ms m s ho hm
    have hlist : Declares.parts env c.stack s
        (mergeList env build (mergeAllOf env build ownerName c levels) c (ms.get? "allOf") m) Merged.types := by
      unfold mergeList
      split
      · exact .pure ho hm
      · exact mergeMembers_declares hb (mergeAllOf_declares hb hown levels) _ _ ho hm
      · exact .throw
    exact hlist.bind fun m₁ _ s₁ ho₁ _ hm₁ => mergeOwn_declares hb hown ms m₁ s₁ ho₁ hm₁

theorem settleFields_declares (required : List String) : ∀ (fs : List Field) (taken : List String) {s : State},
    Orderly env c.stack s → (∀ n ∈ fs.map (·.type), n.Within (s.declarationsSince 0)) →
    Declares.parts env c.stack s (settleFields c required taken fs) fun fields => fields.map (·.type)
  | [], _, _, ho, _ => .pure ho (by nofun)
  | f :: fs, taken, s, ho, hfs => by
    obtain ⟨hf, hfs⟩ := List.forall_mem_cons.1 hfs
    have hrules : Declares.plain env c.stack s (settledRules f (f.required || required.contains f.wireKey)) := by
      unfold settledRules
      split
      · exact rulesOf_declares ho f.type _
      · exact .plain_pure ho
    refine hrules.bind fun rules _ s₁ ho₁ hg₁ _ => ?_
    refine (settleFields_declares required fs _ ho₁ fun n hn => hg₁.within (hfs n hn)).bind
      fun fs' _ s₂ ho₂ hg₂ hfs' => .pure ho₂ ?_
    exact List.forall_mem_cons.2 ⟨hg₂.within (hg₁.within hf), hfs'⟩

theorem allOfNode_declares (hb : DeclaresNodes env build) (ho : Orderly env c.stack s) (hc : Apt c s)
    (ms : Json.Members) : Declares.node env c s (allOfNode env build ms c) := by
  refine declaredName_bind_declares ho hc fun name s₁ ho₁ hr₁ hname => ?_
  have hparts : Declares.parts env c.stack s₁.opened (do
      let merged ← mergeAllOf env build name c (Json.membersDepth ms + 1) ms {}
      settleFields c merged.required [] merged.fields) fun fields => fields.map (·.type) :=
    (mergeAllOf_declares hb hname _ ms {} _ ho₁.opened (by nofun)).bind fun merged _ s₂ ho₂ _ hmerged =>
      settleFields_declares merged.required merged.fields [] ho₂ hmerged
  have := slot_declares hr₁ (f := fun fields => recordNode name fields (flag ms "nullable") (textOf ms "description"))
    (fun _ => rfl) (fun _ => rfl) (fun _ => List.Subset.refl _) hparts
  simp only [bind_assoc] at this
  exact this

/-- Replacing a declared node changes its own place only, if no other node has its name. -/
theorem replaceDeclared_append (n n' : Node) (hname : n'.name = n.name) {declared : Array (Option Node)}
    {before after : List (Option Node)} (hplaces : declared.toList = before ++ some n :: after)
    (hdistinct : ((declared.toList.filterMap id).map Node.name).Nodup) :
    (replaceDeclared n' declared).toList = before ++ some n' :: after := by
  have hbefore : ∀ o ∈ before, o.any (·.name == n'.name) = false := by
    intro o ho
    have hnames : (declared.toList.filterMap id).map Node.name =
        (before.filterMap id).map Node.name ++ n.name :: (after.filterMap id).map Node.name := by
      rw [hplaces]
      simp
    rw [hnames, List.nodup_middle, List.nodup_cons] at hdistinct
    cases o with
    | none => rfl
    | some m =>
      refine Bool.eq_false_iff.2 fun h => hdistinct.1 (List.mem_append_left _ (List.mem_map.2 ⟨m, ?_, ?_⟩))
      · exact List.mem_filterMap.2 ⟨some m, ho, rfl⟩
      · rw [← hname]
        simpa using h
  have hfind : declared.findIdx? (·.any (·.name == n'.name)) = some before.length := by
    cases declared with
    | mk places =>
      rw [List.findIdx?_toArray, show places = before ++ some n :: after from hplaces, List.findIdx?_append,
        List.findIdx?_eq_none_iff.2 hbefore]
      simp [hname, List.findIdx?_cons]
  rw [replaceDeclared, hfind]
  dsimp only
  rw [Array.toList_setIfInBounds, hplaces, List.set_append_right _ _ (Nat.le_refl _)]
  simp

/-- Adding `null` to the values of a node changes neither names nor other nodes. -/
theorem makeNullable_declares {stack : List RefKey} {own : Option String} {s₁ : State} {new : List Node}
    (ho : Orderly env stack s₁) (hg : Adds stack own s s₁ new) {n : Node} (hn : n.declared = true → n ∈ new)
    (hplaced : n.Placed s₁) :
    Ends (makeNullable n) s₁ (fun n' s₂ => ∃ new', Orderly env stack s₂ ∧ Adds stack own s s₂ new' ∧
      (n'.declared = true → n' ∈ new') ∧ n'.Placed s₂) fun _ _ => False := by
  refine ends_bind.2 (ends_modify.2 ?_)
  cases hd : n.declared with
  | false =>
    have hwithin : Node.Within { n with declared := false, nullable := true } (s₁.declarationsSince 0) := by
      obtain ⟨hparts, hself⟩ := Node.within_iff.1 hplaced.within
      rw [Node.StandsIn, hd] at hself
      exact Node.within_iff.2 ⟨hparts, hself⟩
    refine ⟨new, ?_, ?_, fun h => ?_, hwithin, fun h => ?_⟩
    · exact ⟨ho.formed, ho.named, ho.apart, ho.declared, ho.distinct, ho.pending, ho.closed⟩
    · exact ⟨hg.taken, hg.components, hg.named, hg.places, hg.fresh⟩
    · cases h
    · cases h
  | true =>
    obtain ⟨before, after, rfl⟩ := List.append_of_mem (hn hd)
    have hplaces : s₁.declared.toList = (s.declared.toList ++ before.map some) ++ some n :: after.map some := by
      rw [hg.places]
      simp
    set n' : Node := { n with declared := true, nullable := true } with hn'
    have hreplaced := replaceDeclared_append n n' rfl hplaces ho.distinct
    rw [if_pos rfl]
    set s₂ : State := { s₁ with declared := replaceDeclared n' s₁.declared } with hs₂
    have hadds : Adds stack own s s₂ (before ++ n' :: after) := by
      refine ⟨hg.taken, hg.components, hg.named, ?_, fun m hm => ?_⟩
      · rw [hs₂, hreplaced]
        simp
      · rcases List.mem_append.1 hm with h | h
        · exact hg.fresh m (List.mem_append_left _ h)
        · rcases List.mem_cons.1 h with rfl | h
          · exact hg.fresh n (by simp)
          · exact hg.fresh m (by simp [h])
    have hnames : s₂.declaredNames = s₁.declaredNames := by
      rw [hadds.declaredNames, hg.declaredNames]
      simp [hn']
    -- The same nodes have other names, and they and the parts of the node are as they were.
    have hothers : s₂.others n'.name = s₁.others n.name := by
      have hold : s₁.declarationsSince 0 = (s.declarationsSince 0 ++ before) ++ n :: after := by
        rw [hg.declarations.1, List.append_assoc]
      have hnew : s₂.declarationsSince 0 = (s.declarationsSince 0 ++ before) ++ n' :: after := by
        rw [hadds.declarations.1, List.append_assoc]
      rw [State.others_eq hnew (hnames ▸ ho.distinct), State.others_eq hold ho.distinct]
    have hapart : s₂.Apart n' := by
      intro m hm
      rw [hothers] at hm ⊢
      exact hplaced.apart hd m hm
    obtain ⟨hclosed, hplaced'⟩ := hapart.placed (hnames ▸ ho.distinct) (by rw [hadds.declarations.1]; simp) rfl
    exact ⟨before ++ n' :: after, ho.withDeclared hnames hclosed, hadds, fun _ => by simp, hplaced'⟩

theorem unionNode_declares (hb : DeclaresNodes env build) (ho : Orderly env c.stack s) (hc : Apt c s)
    (members : Json) : Declares.node env c s (unionNode build members c) := by
  unfold unionNode
  split
  · exact .throw
  · split
    · refine ends_bind.2 (Ends.mono (hb _ c s ho hc) (fun n s₁ ⟨new, ho₁, hg₁, hn, hplaced⟩ => ?_) fun _ _ h => h)
      split
      · exact ⟨new, ho₁, hg₁, hn, hplaced⟩
      · exact Ends.mono (makeNullable_declares ho₁ hg₁ hn hplaced) (fun _ _ h => h) fun _ _ h => h.elim
    · exact .throw

/-! ## Schemas -/

theorem typedNode_declares (hb : DeclaresNodes env build) (ho : Orderly env c.stack s) (hc : Apt c s)
    (ms : Json.Members) : Declares.node env c s (typedNode build ms c) := by
  unfold typedNode
  split
  · exact .throw
  · dsimp only
    split
    · exact objectNode_declares hb ho hc ms _
    · exact arrayNode_declares hb ho hc ms _
    · split
      · exact enumNode_declares ho hc ms _ _
      · exact scalarNode_declares ho hc _ _ ms
    · exact scalarNode_declares ho hc .integer _ ms
    · exact scalarNode_declares ho hc .number _ ms
    · exact scalarNode_declares ho hc .boolean _ ms
    · exact scalarNode_declares ho hc .any _ ms
    · exact .throw

theorem formNode_declares (hb : DeclaresNodes env build) (ho : Orderly env c.stack s) (hc : Apt c s)
    (ms : Json.Members) : Declares.node env c s (formNode env build ms c) := by
  unfold formNode
  split
  · refine (resolveRef_declares hb ho _).bind fun target new₁ s₁ ho₁ hg₁ htarget => ?_
    exact (referenceNode_declares ho₁ (hc.after hg₁) (htarget target (List.mem_singleton_self _)) _).imp
      fun n new _ hn => ⟨fun hd => List.mem_append_right _ (hn.1 hd), hn.2⟩
  · split
    · exact allOfNode_declares hb ho hc ms
    · split
      · exact unionNode_declares hb ho hc _
      · exact typedNode_declares hb ho hc ms

/-- One step declares nodes, if the builder of the parts does. -/
theorem buildStep_declares (hb : DeclaresNodes env build) : DeclaresNodes env (buildStep env build) := by
  intro raw c s ho hc
  unfold buildStep
  split
  · exact formNode_declares hb ho hc _
  · exact scalarNode_declares ho hc .any false []
  · exact .throw

/-- **Every build declares its nodes** under names of their own. -/
theorem build_declares (env : Env) : ∀ steps, DeclaresNodes env (Schema.build env steps)
  | 0 => fun _ _ _ _ _ => .throw
  | steps + 1 => buildStep_declares (build_declares env steps)

end Composition

/-! ## Questions -/

section Questions

variable {env : Env} {s : State}

/-- A resolver starts orderly: names are reserved for the named schemas, and nothing is declared. -/
theorem orderly_initial (env : Env) : Orderly env [] (State.initial env) := by
  have hempty : Orderly env [] {} := by
    refine ⟨?_, ?_, ?_, ?_, ?_, ?_, ?_⟩
    all_goals simp [State.declaredNames, State.declarationsSince, State.Stores]
  refine List.foldlRecOn env.rootKeys State.reserve hempty fun s ho key hkey => ?_
  obtain ⟨raw, hraw⟩ := exists_rawSchema_root hkey
  refine ho.reserve (s.names.fresh_not_mem _) (Formed.ofKey hraw s.names) ⟨none, key⟩ fun k m hm => ?_
  exact (List.mem_append.1 hm).symm.imp_left fun h => Prod.mk.inj (List.mem_singleton.1 h)

theorem resolveKeys_declares {build : Build} (hb : DeclaresNodes env build) : ∀ (keys : List String) {s : State},
    Orderly env [] s → Declares.parts env [] s (resolveKeys env build keys) fun entries => entries.map (·.2)
  | [], _, ho => .pure ho (by nofun)
  | key :: keys, s, ho => by
    refine (resolveKey_declares hb ho _ _).bind fun n _ s₁ ho₁ _ hn => ?_
    refine (resolveKeys_declares hb keys ho₁).bind fun entries _ s₂ ho₂ hg₂ hentries => .pure ho₂ ?_
    exact List.forall_mem_cons.2 ⟨hg₂.within (hn n (List.mem_singleton_self _)), hentries⟩

theorem resolveInline_declares (ho : Orderly env [] s) (raw : Json) {hint : String} (hhint : Compound hint)
    (owner : String) : Declares.parts env [] s (resolveInline env raw hint owner) fun n => [n] :=
  (build_declares env _ raw ⟨none, owner, hint, none, env.presence, []⟩ s ho ⟨fun _ => hhint, by nofun⟩).imp
    fun _ _ _ hn => List.forall_mem_singleton.2 hn.2.within

theorem synthesizeObject_declares (ho : Orderly env [] s) {hint : String} (hhint : Compound hint)
    (members : List Member) (presence : Presence) (owner : String) :
    Declares.parts env [] s (synthesizeObject env hint members presence owner) fun n => [n] := by
  have hname : Compound (s.names.fresh hint) := hhint.fresh s.names
  refine ends_bind.2 (Ends.mono (allocateName_held ho (.inl hname)) (fun name s₁ h => ?_) fun _ _ h => h.elim)
  obtain ⟨ho₁, hg₁, hr₁, hnew, rfl⟩ := h
  refine Ends.mono (slot_declares hr₁ (fun _ => rfl) (fun _ => rfl) ?_
    (buildFields_declares (c := ⟨none, owner, s.names.fresh hint, none, presence, []⟩) (build_declares env _)
      hname.capital _ [] ho₁.opened)) (fun n s₂ ⟨new, ho₂, hg₂, _, hplaced⟩ => ?_) fun _ _ h => h
  · exact fun _ => List.Subset.refl _
  · exact ⟨new, ho₂, hg₁.trans hg₂ (.inl rfl) fun m hm => .inl (Option.some.inj hm ▸ hnew),
      List.forall_mem_singleton.2 hplaced.within⟩

end Questions

end ApiForge.Schema

/-! ## Operations -/

namespace ApiForge

/-- The schemas of a response. -/
def ResponseVariant.nodes (v : ResponseVariant) : List Schema.Node := v.body.toList ++ v.headers.toList

/-- The schemas of an operation. -/
def Operation.nodes (op : Operation) : List Schema.Node :=
  (op.request.part? .path).toList ++ (op.request.part? .query).toList ++ (op.request.part? .header).toList ++
    (op.request.part? .cookie).toList ++ (op.request.body.map (·.node)).toList ++
    op.responses.flatMap ResponseVariant.nodes

end ApiForge

namespace ApiForge.RawOperation

open Schema Naming

variable {env : Env} {s : State}

theorem capital_typeEnding (location : Location) : Capital location.typeEnding := by
  cases location with
  | path => exact ⟨'P', "ath".toList, by decide, by decide⟩
  | query => exact ⟨'Q', "uery".toList, by decide, by decide⟩
  | header => exact ⟨'H', "eaders".toList, by decide, by decide⟩
  | cookie => exact ⟨'C', "ookies".toList, by decide, by decide⟩

theorem resolvePart_declares (ho : Orderly env [] s) (raw : RawOperation) {base : String} (hbase : Capital base)
    (owner : String) (location : Location) :
    Declares.parts env [] s (raw.resolvePart env base owner location) Option.toList := by
  unfold resolvePart
  dsimp only
  split
  · exact .pure ho (by nofun)
  · exact (synthesizeObject_declares ho (hbase.append (capital_typeEnding location)) _ _ owner).bind
      fun n _ s₁ ho₁ _ hn => .pure ho₁ hn

theorem resolveBody_declares (ho : Orderly env [] s) {base : String} (hbase : Capital base) (owner : String)
    (body : Option RawBody) :
    Declares.parts env [] s (resolveBody env base owner body) fun b => (b.map (·.node)).toList := by
  cases body with
  | none => exact .pure ho (by nofun)
  | some body =>
    have hhint : Compound (base ++ "Body") := hbase.append ⟨'B', "ody".toList, by decide, by decide⟩
    refine (resolveInline_declares ho _ hhint owner).bind fun n _ s₁ ho₁ _ hn => ?_
    refine (rulesOf_declares ho₁ n body.required).bind fun rules _ s₂ ho₂ hg₂ _ => .pure ho₂ fun m hm => ?_
    exact hg₂.within (hn m hm)

theorem resolveResponse_declares (ho : Orderly env [] s) {base : String} (hbase : Capital base) (owner : String)
    (r : RawResponse) : Declares.parts env [] s (resolveResponse env base owner r) ResponseVariant.nodes := by
  have hstatus : Compound (base ++ toString r.status) := hbase.append (capital_toString r.status)
  have hpayload : Declares.parts env [] s (resolvePayload env base owner r) Option.toList := by
    unfold resolvePayload
    split
    · exact .pure ho (by nofun)
    · exact (resolveInline_declares ho _ (hstatus.append "Body") owner).map fun _ _ _ hn => hn
  refine hpayload.bind fun body _ s₁ ho₁ _ hbody => ?_
  have hheaders : Declares.parts env [] s₁ (resolveHeaders env base owner r) Option.toList := by
    unfold resolveHeaders
    split
    · exact .pure ho₁ (by nofun)
    · exact (synthesizeObject_declares ho₁ (hstatus.append "Headers") _ _ owner).map fun _ _ _ hn => hn
  refine hheaders.bind fun headers _ s₂ ho₂ hg₂ hheaders => .pure ho₂ fun n hn => ?_
  rcases List.mem_append.1 hn with hn | hn
  · exact hg₂.within (hbody n hn)
  · exact hheaders n hn

theorem resolveResponses_declares {base : String} (hbase : Capital base) (owner : String) :
    ∀ (responses : List RawResponse) {s : State}, Orderly env [] s →
      Declares.parts env [] s (resolveResponses env base owner responses) (List.flatMap ResponseVariant.nodes)
  | [], _, ho => .pure ho (by nofun)
  | r :: rs, s, ho => by
    refine (resolveResponse_declares ho hbase owner r).bind fun v _ s₁ ho₁ _ hv => ?_
    refine (resolveResponses_declares hbase owner rs ho₁).bind fun vs _ s₂ ho₂ hg₂ hvs => .pure ho₂ fun n hn => ?_
    rcases List.mem_append.1 hn with hn | hn
    · exact hg₂.within (hv n hn)
    · exact hvs n hn

/-- **Resolving an operation** declares the records and inline schemas that it needs. -/
theorem resolve_declares (ho : Orderly env [] s) (raw : RawOperation) :
    Declares.parts env [] s (raw.resolve env) Operation.nodes := by
  have hbase := capital_pascalCase raw.operationId
  refine (raw.resolvePart_declares ho hbase _ .path).bind fun path _ s₁ ho₁ _ hpath => ?_
  refine (raw.resolvePart_declares ho₁ hbase _ .query).bind fun query _ s₂ ho₂ hg₂ hquery => ?_
  refine (raw.resolvePart_declares ho₂ hbase _ .header).bind fun headers _ s₃ ho₃ hg₃ hheaders => ?_
  refine (raw.resolvePart_declares ho₃ hbase _ .cookie).bind fun cookies _ s₄ ho₄ hg₄ hcookies => ?_
  refine (resolveBody_declares ho₄ hbase _ raw.requestBody).bind fun body _ s₅ ho₅ hg₅ hbody => ?_
  refine (resolveResponses_declares hbase _ raw.responses ho₅).bind fun responses _ s₆ ho₆ hg₆ hresponses =>
    .pure ho₆ fun n hn => ?_
  simp only [Operation.nodes, List.mem_append, RequestParts.part?] at hn
  rcases hn with ((((hn | hn) | hn) | hn) | hn) | hn
  · exact hg₆.within (hg₅.within (hg₄.within (hg₃.within (hg₂.within (hpath n hn)))))
  · exact hg₆.within (hg₅.within (hg₄.within (hg₃.within (hquery n hn))))
  · exact hg₆.within (hg₅.within (hg₄.within (hheaders n hn)))
  · exact hg₆.within (hg₅.within (hcookies n hn))
  · exact hg₆.within (hbody n hn)
  · exact hresponses n hn

end ApiForge.RawOperation
