import ApiForge.Proofs.Schema.Session
import ApiForge.Proofs.Schema.Termination
import Mathlib.Data.List.Chain

/-!
# The verdict of a resolver

What resolving the named schemas of the root document says about the graph of traversed references.

* `Settled env keys`: every key was added after all that it refers to, and has a raw schema. This holds for the resolved
  keys at all times (`Session.settled`), and it excludes cycles among them (`Settled.acyclic`).
* `Placed env raw c key`: the schema `raw` is part of the named schema `key`, which is open, and each open schema refers
  to the one that was opened next. So an open schema that is referred to closes a cycle (`isCycle_chainTo`).
* `Honest env e`: what an error about references says is true.
* `build_exact`: a build with enough steps settles all that it traverses, or fails; in what the root document leads to,
  its errors are honest.
* `resolveComponents_exact`: the verdict on a description.
-/

namespace ApiForge.Schema

open Json Naming

/-! ## Settled keys -/

/-- The keys that are resolved. -/
def State.keys (s : State) : List RefKey := s.resolved.map (·.1)

/-- Whether a reference in a document leads to one of the keys. -/
def Resolves (doc : Option String) (keys : List RefKey) (reference : String) : Prop :=
  ∃ k ∈ keys, Denotes doc reference k

/-- Keys in an order in which each comes before those that it refers to. -/
def Settled (env : Env) : List RefKey → Prop
  | [] => True
  | k :: ks => (∃ raw, env.rawSchema? k = some raw ∧ ∀ r, Traverses raw r → Resolves k.doc ks r) ∧ Settled env ks

section Settled

variable {env : Env} {keys : List RefKey} {k k' : RefKey}

theorem Resolves.mono {doc : Option String} {keys' : List RefKey} {r : String} (h : Resolves doc keys r)
    (hsub : keys ⊆ keys') : Resolves doc keys' r := by
  obtain ⟨k, hk, hd⟩ := h
  exact ⟨k, hsub hk, hd⟩

/-- Every settled key has a raw schema, and all that it traverses is settled. -/
theorem Settled.exists_raw : ∀ {keys : List RefKey}, Settled env keys → k ∈ keys →
    ∃ raw, env.rawSchema? k = some raw ∧ ∀ r, Traverses raw r → Resolves k.doc keys r
  | a :: keys, h, hk => by
    obtain ⟨⟨raw, hraw, hrefs⟩, hrest⟩ := h
    rcases List.mem_cons.1 hk with rfl | hk
    · exact ⟨raw, hraw, fun r hr => (hrefs r hr).mono (List.subset_cons_self _ _)⟩
    · obtain ⟨raw', hraw', hrefs'⟩ := hrest.exists_raw hk
      exact ⟨raw', hraw', fun r hr => (hrefs' r hr).mono (List.subset_cons_self _ _)⟩

/-- What a key refers to, given that its references lead to some keys. -/
theorem mem_of_refers {raw : Json} (hraw : env.rawSchema? k = some raw)
    (hrefs : ∀ r, Traverses raw r → Resolves k.doc keys r) (h : Refers env k k') : k' ∈ keys := by
  obtain ⟨raw', r, hraw', hr, hd⟩ := h
  obtain rfl : raw = raw' := Option.some.inj (hraw.symm.trans hraw')
  obtain ⟨k'', hk'', hd'⟩ := hrefs r hr
  exact hd.unique hd' ▸ hk''

theorem Settled.closed (h : Settled env keys) (hk : k ∈ keys) (hr : Refers env k k') : k' ∈ keys := by
  obtain ⟨raw, hraw, hrefs⟩ := h.exists_raw hk
  exact mem_of_refers hraw hrefs hr

theorem Settled.closed_transGen (h : Settled env keys) (hk : k ∈ keys) (hr : Relation.TransGen (Refers env) k k') :
    k' ∈ keys := by
  induction hr with
  | single hr => exact h.closed hk hr
  | tail _ hr ih => exact h.closed ih hr

/-- **Settled keys are on no cycle.** -/
theorem Settled.acyclic : ∀ {keys : List RefKey}, Settled env keys → k ∈ keys → ¬ Relation.TransGen (Refers env) k k
  | a :: keys, h, hk, hcycle => by
    obtain ⟨⟨raw, hraw, hrefs⟩, hrest⟩ := h
    by_cases hmem : k ∈ keys
    · exact hrest.acyclic hmem hcycle
    · -- a cycle through the first key would go on among the others and never come back
      obtain rfl : k = a := (List.mem_cons.1 hk).resolve_right hmem
      cases hcycle using Relation.TransGen.head_induction_on with
      | single hr => exact hmem (mem_of_refers hraw hrefs hr)
      | head hr hrest' => exact hmem (hrest.closed_transGen (mem_of_refers hraw hrefs hr) hrest')

end Settled

/-! ## Honest errors -/

/-- A list of reachable keys in which each refers to the next, and which ends where it starts. -/
structure IsCycle (env : Env) (keys : List RefKey) : Prop where
  reachable : ∀ k ∈ keys, Reachable env k
  refers : keys.IsChain (Refers env)
  length : 2 ≤ keys.length
  closed : keys.head? = keys.getLast?

/-- What an error about references says is true. -/
def Honest (env : Env) : CompileError → Prop
  | .cyclicSchema chain => ∃ keys, chain = keys.map RefKey.text ∧ IsCycle env keys
  | .unresolvedReference owner reference => ∃ k raw k', owner = "schema:" ++ k.name ∧ Reachable env k ∧
      env.rawSchema? k = some raw ∧ Traverses raw reference ∧ Denotes k.doc reference k' ∧ env.rawSchema? k' = none
  | _ => True

/-- The open keys, innermost first: each is reachable and referred to by the one below. -/
structure Stacked (env : Env) (stack : List RefKey) : Prop where
  reachable : ∀ k ∈ stack, Reachable env k
  refers : stack.IsChain fun k k' => Refers env k' k

/-- The open keys from one of them on, back to it: they are open, and they are related as the open keys are. -/
theorem exists_chainTo {R : RefKey → RefKey → Prop} {key : RefKey} {stack : List RefKey}
    (h : (key :: stack).IsChain fun k k' => R k' k) (hkey : key ∈ stack) :
    ∃ keys, chainTo key stack = keys.map RefKey.text ∧ keys ⊆ key :: stack ∧ keys.IsChain R ∧ 2 ≤ keys.length ∧
      keys.head? = keys.getLast? := by
  have hsplit : ∃ rest, stack = stack.takeWhile (· != key) ++ key :: rest := by
    clear h
    induction stack with
    | nil => cases hkey
    | cons k stack ih =>
      by_cases hk : k = key
      · exact ⟨stack, by simp [hk]⟩
      · obtain ⟨rest, hrest⟩ := ih ((List.mem_cons.1 hkey).resolve_left (Ne.symm hk))
        refine ⟨rest, ?_⟩
        rw [List.takeWhile_cons_of_pos (by simpa using hk), List.cons_append, ← hrest]
  obtain ⟨rest, hrest⟩ := hsplit
  set inner := stack.takeWhile (· != key) with hinner
  have hreverse : key :: inner.reverse ++ [key] = (key :: inner ++ [key]).reverse := by simp
  refine ⟨key :: inner.reverse ++ [key], rfl, ?_, ?_, by simp, by rw [List.getLast?_concat]; rfl⟩
  · intro k hk
    rw [hrest]
    simp only [List.cons_append, List.mem_cons, List.mem_append, List.mem_reverse, List.not_mem_nil, or_false] at hk ⊢
    tauto
  · rw [hrest, ← List.cons_append] at h
    rw [hreverse, List.isChain_reverse]
    exact (List.isChain_split.1 h).1

/-- The open keys from one of them on make up a cycle, if it is referred to. -/
theorem isCycle_chainTo {env : Env} {key : RefKey} {stack : List RefKey} (h : Stacked env (key :: stack))
    (hkey : key ∈ stack) : ∃ keys, chainTo key stack = keys.map RefKey.text ∧ IsCycle env keys := by
  obtain ⟨keys, htexts, hsub, hrefers, hlength, hclosed⟩ := exists_chainTo h.refers hkey
  exact ⟨keys, htexts, fun k hk => h.reachable k (hsub hk), hrefers, hlength, hclosed⟩

/-- A schema that is part of a named schema, which is open. -/
structure Placed (env : Env) (raw : Json) (c : Context) (key : RefKey) : Prop where
  stack : ∃ rest, c.stack = key :: rest
  doc : c.doc = key.doc
  owner : c.owner = "schema:" ++ key.name
  stacked : Stacked env c.stack
  whole : ∃ whole, env.rawSchema? key = some whole ∧ ∀ r, Traverses raw r → Traverses whole r

section Placed

variable {env : Env} {raw raw' : Json} {c c' : Context} {key key' : RefKey}

theorem Placed.reachable (h : Placed env raw c key) : Reachable env key := by
  obtain ⟨rest, hrest⟩ := h.stack
  exact h.stacked.reachable key (hrest ▸ List.mem_cons_self)

theorem Placed.refers (h : Placed env raw c key) {r : String} (hr : Traverses raw r) (hd : Denotes c.doc r key') :
    Refers env key key' := by
  obtain ⟨whole, hwhole, hsub⟩ := h.whole
  exact ⟨whole, r, hwhole, hsub r hr, h.doc ▸ hd⟩

theorem Placed.push (h : Placed env raw c key) {r : String} (hr : Traverses raw r) (hd : Denotes c.doc r key') :
    Stacked env (key' :: c.stack) := by
  obtain ⟨rest, hrest⟩ := h.stack
  refine ⟨List.forall_mem_cons.2 ⟨h.reachable.step (h.refers hr hd), h.stacked.reachable⟩, ?_⟩
  have hstacked := h.stacked.refers
  rw [hrest] at hstacked ⊢
  exact List.isChain_cons_cons.2 ⟨h.refers hr hd, hstacked⟩

/-- A named schema is placed when it is opened. -/
theorem placed_ofKey {stack : List RefKey} (hstacked : Stacked env (key :: stack))
    (hraw : env.rawSchema? key = some raw) (name : String) : Placed env raw (.ofKey env key name stack) key :=
  ⟨⟨stack, rfl⟩, rfl, rfl, hstacked, raw, hraw, fun _ h => h⟩

theorem Placed.descends (h : Placed env raw c key) (hd : Descends env raw c raw' c') :
    ∃ key', Placed env raw' c' key' := by
  cases hd with
  | part hpart hdoc howner hstack =>
    obtain ⟨whole, hwhole, hsub⟩ := h.whole
    refine ⟨key, ?_, hdoc.trans h.doc, howner.trans h.owner, ?_, whole, hwhole, fun r hr => ?_⟩
    · exact hstack ▸ h.stack
    · exact hstack ▸ h.stacked
    · exact hsub r (hpart.traverses r hr)
  | reference hr hkey hnew hraw =>
    exact ⟨_, placed_ofKey (h.push hr hkey) hraw _⟩

end Placed

/-! ## Computations -/

/-- A computation that resolves no key and says nothing about references. -/
def Quiet {α : Type} (m : Resolve α) : Prop :=
  ∀ s, Ends m s (fun _ s' => s'.resolved = s.resolved) fun e s' => s'.resolved = s.resolved ∧ ∀ env, Honest env e

/-- A computation that keeps the resolved keys settled and has `P` of them in the end. Its errors are honest, if
`rooted` says that it is part of resolving what the root document leads to. -/
def Exact {α : Type} (rooted : Prop) (env : Env) (s : State) (m : Resolve α) (P : List RefKey → Prop) : Prop :=
  Settled env s.keys → Ends m s (fun _ s' => Settled env s'.keys ∧ s.keys ⊆ s'.keys ∧ P s'.keys)
    fun e s' => Settled env s'.keys ∧ (rooted → Honest env e)

section Computations

variable {α β : Type} {rooted : Prop} {env : Env} {s : State} {P Q : List RefKey → Prop}

theorem keys_eq {s' : State} (h : s'.resolved = s.resolved) : s'.keys = s.keys := by rw [State.keys, h, State.keys]

theorem Quiet.pure (a : α) : Quiet (pure a : Resolve α) := fun _ => ends_pure.2 rfl

theorem Quiet.throw {e : CompileError} (h : ∀ env, Honest env e) : Quiet (throw e : Resolve α) :=
  fun _ => ends_throw.2 ⟨rfl, h⟩

theorem Quiet.bind {m : Resolve α} {f : α → Resolve β} (h : Quiet m) (hf : ∀ a, Quiet (f a)) : Quiet (m >>= f) := by
  intro s
  refine ends_bind.2 ((h s).mono (fun a s₁ h₁ => ?_) fun _ _ h => h)
  exact (hf a s₁).mono (fun _ _ h₂ => h₂.trans h₁) fun _ _ ⟨h₂, he⟩ => ⟨h₂.trans h₁, he⟩

theorem Quiet.map {m : Resolve α} {f : α → β} (h : Quiet m) : Quiet (f <$> m) := by
  rw [← bind_pure_comp]
  exact h.bind fun _ => .pure _

theorem Exact.pure {a : α} (h : P s.keys) : Exact rooted env s (pure a) P := fun hs => ends_pure.2 ⟨hs, fun _ h => h, h⟩

theorem Exact.throw {e : CompileError} (h : rooted → Honest env e) : Exact rooted env s (throw e : Resolve α) P :=
  fun hs => ends_throw.2 ⟨hs, h⟩

theorem Exact.weaken {m : Resolve α} (h : Exact rooted env s m P) (hPQ : ∀ keys, s.keys ⊆ keys → P keys → Q keys) :
    Exact rooted env s m Q := fun hs =>
  (h hs).mono (fun _ s' ⟨hs', hsub, hP⟩ => ⟨hs', hsub, hPQ s'.keys hsub hP⟩) fun _ _ h => h

theorem Exact.bind {m : Resolve α} {f : α → Resolve β} (h : Exact rooted env s m P)
    (hf : ∀ a s₁, s.keys ⊆ s₁.keys → P s₁.keys → Exact rooted env s₁ (f a) Q) : Exact rooted env s (m >>= f) Q := by
  intro hs
  refine ends_bind.2 ((h hs).mono (fun a s₁ ⟨hs₁, hsub₁, hP⟩ => ?_) fun _ _ h => h)
  refine (hf a s₁ hsub₁ hP hs₁).mono (fun _ s₂ ⟨hs₂, hsub₂, hQ⟩ => ?_) fun _ _ h => h
  exact ⟨hs₂, fun _ hk => hsub₂ (hsub₁ hk), hQ⟩

theorem Exact.map {m : Resolve α} {f : α → β} (h : Exact rooted env s m P) : Exact rooted env s (f <$> m) P := by
  rw [← bind_pure_comp]
  exact h.bind fun _ _ _ hP => .pure hP

/-- Quiet computations may stand anywhere. -/
theorem Quiet.exact {m : Resolve α} (h : Quiet m) (hP : P s.keys) : Exact rooted env s m P := by
  intro hs
  refine (h s).mono (fun _ s' hsame => ?_) fun e s' ⟨hsame, he⟩ => ?_
  · rw [keys_eq hsame]
    exact ⟨hs, fun _ h => h, hP⟩
  · rw [keys_eq hsame]
    exact ⟨hs, fun _ => he env⟩

theorem Quiet.andThen {m : Resolve α} {f : α → Resolve β} (h : Quiet m)
    (hf : ∀ a s₁, s₁.keys = s.keys → Exact rooted env s₁ (f a) P) : Exact rooted env s (m >>= f) P := by
  intro hs
  refine ends_bind.2 ((h s).mono (fun a s₁ hsame => ?_) fun e s₁ ⟨hsame, he⟩ => ?_)
  · have hrest := hf a s₁ (keys_eq hsame)
    rw [Exact, keys_eq hsame] at hrest
    exact hrest hs
  · rw [keys_eq hsame]
    exact ⟨hs, fun _ => he env⟩

theorem Exact.andThen {m : Resolve α} {f : α → Resolve β} (h : Exact rooted env s m P) (hf : ∀ a, Quiet (f a)) :
    Exact rooted env s (m >>= f) P := h.bind fun a _ _ hP => (hf a).exact hP

end Computations

/-! ## What resolves no key -/

theorem allocateName_quiet (hint : String) : Quiet (allocateName hint) := fun _ => rfl

theorem declaredName_quiet (c : Context) : Quiet (declaredName c) := by
  unfold declaredName
  split
  · exact .pure _
  · exact allocateName_quiet _

theorem openSlot_quiet : Quiet openSlot := fun _ => rfl

theorem fillSlot_quiet (slot : Nat) (n : Node) : Quiet (fillSlot slot n) := fun _ => rfl

theorem openSlotIf_quiet (wanted : Bool) : Quiet (openSlotIf wanted) := by
  cases wanted
  · exact .pure _
  · exact openSlot_quiet.map

theorem fillSlotIf_quiet (slot : Option Nat) (n : Node) : Quiet (fillSlotIf slot n) := by
  cases slot with
  | none => exact .pure _
  | some slot => exact fillSlot_quiet slot n

theorem declareNode_quiet (n : Node) : Quiet (declareNode n) :=
  (openSlotIf_quiet _).bind fun _ => (fillSlotIf_quiet _ _).bind fun _ => .pure _

theorem rulesOf_quiet (n : Node) (required : Bool) : Quiet (rulesOf n required) := fun _ => rfl

theorem constraintsOf_error {ms : Members} {c : Context} {e : CompileError} (h : constraintsOf ms c = .error e) :
    ∃ source, e = .invalidPattern c.owner source := by
  unfold constraintsOf at h
  cases hpattern : textOf ms "pattern" with
  | none => rw [hpattern] at h; cases h
  | some source =>
    rw [hpattern] at h
    cases hparse : TextPattern.parse? source with
    | none =>
      simp only [hparse] at h
      cases h
      exact ⟨source, rfl⟩
    | some p => simp only [hparse] at h; cases h

theorem constraintsAt_quiet (ms : Members) (c : Context) : Quiet (constraintsAt ms c) := by
  unfold constraintsAt
  split
  · exact .pure _
  · rename_i e he
    obtain ⟨source, rfl⟩ := constraintsOf_error he
    exact .throw fun _ => trivial

theorem scalarNode_quiet (c : Context) (kind : ScalarKind) (nullable : Bool) (ms : Members) :
    Quiet (scalarNode c kind nullable ms) := (constraintsAt_quiet ms c).bind fun _ => declareNode_quiet _

theorem enumTexts_error {c : Context} {e : CompileError} : ∀ {members : List Json}, enumTexts c members = .error e →
    ∃ detail, e = c.unsupported detail
  | .str _ :: rest, h => by
    rw [enumTexts] at h
    cases hrest : enumTexts c rest with
    | ok texts => rw [hrest] at h; cases h
    | error e' =>
      rw [hrest] at h
      cases h
      exact enumTexts_error hrest
  | .null :: rest, h => by
    rw [enumTexts] at h
    exact enumTexts_error h
  | .bool _ :: _, h | .num _ :: _, h | .arr _ :: _, h | .obj _ :: _, h => by
    cases h
    exact ⟨_, rfl⟩

theorem enumNode_quiet (ms : Members) (members : List Json) (nullable : Bool) (c : Context) :
    Quiet (enumNode ms members nullable c) := by
  unfold enumNode
  split
  · rename_i e he
    obtain ⟨detail, rfl⟩ := enumTexts_error he
    exact .throw fun _ => trivial
  · exact .throw fun _ => trivial
  · refine (declaredName_quiet c).bind fun _ => openSlot_quiet.bind fun _ => ?_
    exact (constraintsAt_quiet ms c).bind fun _ => (fillSlot_quiet _ _).bind fun _ => .pure _

theorem referenceNode_quiet (target : Node) (nullable : Bool) (c : Context) : Quiet (referenceNode target nullable c) :=
  declareNode_quiet _

theorem componentName_quiet (key : RefKey) : Quiet (componentName key) := by
  intro s
  rw [componentName, ends_bind, ends_get]
  split
  · exact rfl
  · exact rfl

theorem settleFields_quiet (c : Context) (required : List String) :
    ∀ (fs : List Field) (taken : List String), Quiet (settleFields c required taken fs)
  | [], _ => .pure _
  | f :: fs, taken => by
    have hrules : ∀ must, Quiet (settledRules f must) := by
      intro must
      unfold settledRules
      split
      · exact rulesOf_quiet _ _
      · exact .pure _
    exact (hrules _).bind fun _ => (settleFields_quiet c required fs _).bind fun _ => .pure _

theorem makeNullable_quiet (n : Node) : Quiet (makeNullable n) := fun _ => rfl

theorem parseRef_error {reference : String} {c : Context} {e : CompileError} (h : parseRef reference c = .error e) :
    ∃ detail, e = c.unsupported detail := by
  unfold parseRef at h
  dsimp only at h
  split at h
  · split at h
    · cases h
      exact ⟨_, rfl⟩
    · cases h
  · cases h
    exact ⟨_, rfl⟩

theorem typeOf_error {ms : Members} {c : Context} {e : CompileError} (h : typeOf ms c = .error e) :
    ∃ detail, e = c.unsupported detail := by
  unfold typeOf at h
  dsimp only at h
  repeat' split at h
  all_goals cases h
  all_goals exact ⟨_, rfl⟩

/-! ## Schemas -/

/-- A builder that settles all that a schema traverses. -/
def ExactAt (rooted : Prop) (env : Env) (build : Build) (raw : Json) (c : Context) : Prop :=
  ∀ s, Exact rooted env s (build raw c) fun keys => ∀ r, Traverses raw r → Resolves c.doc keys r

/-- A key that is referred to is resolved, closes a cycle or is missing. -/
theorem resolveKey_exact {rooted : Prop} {env : Env} {build : Build} {key : RefKey} {stack : List RefKey}
    {owner reference : String} (hstacked : rooted → Stacked env (key :: stack))
    (hmissing : rooted → env.rawSchema? key = none → Honest env (.unresolvedReference owner reference))
    (hb : ∀ raw name, env.rawSchema? key = some raw → key ∉ stack →
      ExactAt rooted env build raw (.ofKey env key name stack))
    (s : State) : Exact rooted env s (resolveKey env build key owner reference stack) fun keys => key ∈ keys := by
  intro hs
  rw [resolveKey, ends_bind, ends_get]
  cases hfind : s.resolved.find? (·.1 == key) with
  | some found =>
    obtain rfl : found.1 = key := by simpa using List.find?_some hfind
    exact ⟨hs, fun _ h => h, List.mem_map.2 ⟨found, List.mem_of_find?_eq_some hfind, rfl⟩⟩
  | none =>
    dsimp only
    split
    · rename_i hkey
      exact ⟨hs, fun hrooted => isCycle_chainTo (hstacked hrooted) (by simpa using hkey)⟩
    · rename_i hkey
      split
      · rename_i hraw
        exact ⟨hs, fun hrooted => hmissing hrooted hraw⟩
      · rename_i raw hraw
        have hnew : key ∉ stack := by simpa using hkey
        have hexact : Exact rooted env s (buildKey env build key raw stack) fun keys => key ∈ keys := by
          refine (componentName_quiet key).andThen fun name s₁ hs₁ => ?_
          refine (hb raw name hraw hnew s₁).bind fun n s₂ hsub hrefs hs₂ => ?_
          simp only [ends_bind, ends_modify, ends_pure]
          have hkeys : ({ s₂ with resolved := (key, n) :: s₂.resolved } : State).keys = key :: s₂.keys := rfl
          rw [hkeys]
          exact ⟨⟨⟨raw, hraw, hrefs⟩, hs₂⟩, List.subset_cons_self _ _, List.mem_cons_self⟩
        exact hexact hs

theorem buildFields_exact {rooted : Prop} {env : Env} {build : Build} {c : Context} (ownerName : String) :
    ∀ (entries : List Entry) (taken : List String),
    (∀ e ∈ entries, ∀ hint, ExactAt rooted env build e.schema (c.child hint)) → ∀ s,
    Exact rooted env s (buildFields build ownerName c taken entries) fun keys =>
      ∀ e ∈ entries, ∀ r, Traverses e.schema r → Resolves c.doc keys r
  | [], _, _, _ => .pure fun _ he => by cases he
  | e :: es, taken, h, s => by
    obtain ⟨he, hes⟩ := List.forall_mem_cons.1 h
    refine (he (ownerName ++ pascalCase e.key) s).bind fun type s₁ _ hrefs => ?_
    refine (rulesOf_quiet type e.required).andThen fun rules s₂ hs₂ => ?_
    refine ((buildFields_exact ownerName es _ hes s₂).andThen fun _ => .pure _).weaken fun keys hsub hrest => ?_
    rw [hs₂] at hsub
    exact List.forall_mem_cons.2 ⟨fun r hr => (hrefs r hr).mono hsub, hrest⟩

section Schemas

variable {rooted : Prop} {env : Env} {raw : Json} {c : Context} {build : Build}
  (hp : rooted → ∃ key, Placed env raw c key)
  (hb : ∀ raw' c', Descends env raw c raw' c' → ExactAt rooted env build raw' c')

include hp hb

theorem resolveRef_exact {r : String} (hr : Traverses raw r) (s : State) :
    Exact rooted env s (resolveRef env build r c) fun keys => Resolves c.doc keys r := by
  unfold resolveRef
  cases hkey : parseRef r c with
  | error e =>
    obtain ⟨detail, rfl⟩ := parseRef_error hkey
    exact .throw fun _ => trivial
  | ok key' =>
    have hd : Denotes c.doc r key' := ⟨c, rfl, hkey⟩
    have hstacked : rooted → Stacked env (key' :: c.stack) := by
      intro hrooted
      obtain ⟨key, hp⟩ := hp hrooted
      exact hp.push hr hd
    have hmissing : rooted → env.rawSchema? key' = none → Honest env (.unresolvedReference c.owner r) := by
      intro hrooted hraw
      obtain ⟨key, hp⟩ := hp hrooted
      obtain ⟨whole, hwhole, hsub⟩ := hp.whole
      exact ⟨key, whole, key', hp.owner, hp.reachable, hwhole, hsub r hr, hp.doc ▸ hd, hraw⟩
    have hexact := resolveKey_exact hstacked hmissing
      (fun raw' name hraw hnew => hb raw' _ (.reference hr hd hnew hraw)) s
    exact hexact.weaken fun keys _ hmem => ⟨key', hmem, hd⟩

omit hp in
theorem properties_exact (ownerName : String) (required : String → Bool) {ms : Members}
    (h : ∀ {key schema}, (key, schema) ∈ propertiesOf ms → IsPart raw schema) (s : State) :
    Exact rooted env s (buildFields build ownerName c [] (entriesOf ms required)) fun keys =>
      ∀ key schema, (key, schema) ∈ propertiesOf ms → ∀ r, Traverses schema r → Resolves c.doc keys r := by
  have hentries : ∀ e ∈ entriesOf ms required, ∀ hint, ExactAt rooted env build e.schema (c.child hint) :=
    fun e he hint => hb e.schema _ (.part (h (mem_entriesOf he)) rfl rfl rfl)
  refine (buildFields_exact ownerName _ [] hentries s).weaken fun keys _ hrefs key schema hmem => ?_
  exact hrefs _ (List.mem_map.2 ⟨(key, schema), hmem, rfl⟩)

/-- What a member of a composition traverses. -/
def MemberResolves (doc : Option String) (keys : List RefKey) (ms : Members) : Prop :=
  ∀ r, textOf ms "$ref" = some r ∨ (textOf ms "$ref" = none ∧ Composes ms r) → Resolves doc keys r

theorem mergeMember_exact {inline : Members → Merged → Resolve Merged} {ms : Members} {m : Merged}
    (href : ∀ r, textOf ms "$ref" = some r → Traverses raw r) (s : State)
    (hinline : textOf ms "$ref" = none →
      Exact rooted env s (inline ms m) fun keys => ∀ r, Composes ms r → Resolves c.doc keys r) :
    Exact rooted env s (mergeMember env build inline c ms m) fun keys => MemberResolves c.doc keys ms := by
  unfold mergeMember
  cases h : textOf ms "$ref" with
  | some r =>
    have hfields : Exact rooted env s (referredFields env build r c) fun keys => Resolves c.doc keys r := by
      refine (resolveRef_exact hp hb (href r h) s).andThen fun target => ?_
      split
      · exact .pure _
      · exact .throw fun _ => trivial
    refine hfields.map.weaken fun keys _ hres r' hr' => ?_
    rcases hr' with h' | ⟨h', -⟩
    · exact Option.some.inj (h.symm.trans h') ▸ hres
    · cases h.symm.trans h'
  | none =>
    refine (hinline h).weaken fun keys _ hres r hr => ?_
    rcases hr with h' | ⟨-, hr⟩
    · cases h.symm.trans h'
    · exact hres r hr

theorem mergeMembers_exact {inline : Members → Merged → Resolve Merged} : ∀ (members : List Json) (m : Merged),
    (∀ ms, .obj ms ∈ members → ∀ r, textOf ms "$ref" = some r → Traverses raw r) →
    (∀ ms m s, .obj ms ∈ members → textOf ms "$ref" = none →
      Exact rooted env s (inline ms m) fun keys => ∀ r, Composes ms r → Resolves c.doc keys r) →
    ∀ s, Exact rooted env s (mergeMembers env build inline c members m)
      fun keys => ∀ ms, .obj ms ∈ members → MemberResolves c.doc keys ms
  | [], _, _, _, _ => .pure fun _ h => by cases h
  | .obj ms :: rest, m, href, hinline, s => by
    have hmember := mergeMember_exact hp hb (href ms List.mem_cons_self) s (hinline ms m s List.mem_cons_self)
    refine hmember.bind fun m₁ s₁ _ hres => ?_
    refine (mergeMembers_exact rest m₁ (fun ms hms => href ms (List.mem_cons_of_mem _ hms))
      (fun ms m s hms => hinline ms m s (List.mem_cons_of_mem _ hms)) s₁).weaken fun keys hsub hrest ms' hms' => ?_
    rcases List.mem_cons.1 hms' with h | h
    · cases h
      exact fun r hr => (hres r hr).mono hsub
    · exact hrest ms' h
  | .null :: _, _, _, _, _ | .bool _ :: _, _, _, _, _ | .num _ :: _, _, _, _, _ | .str _ :: _, _, _, _, _
  | .arr _ :: _, _, _, _, _ => .throw fun _ => trivial

theorem mergeAllOf_exact (ownerName : String) : ∀ (levels : Nat) (ms : Members) (m : Merged), IsPiece raw ms →
    membersDepth ms < levels → ∀ s, Exact rooted env s (mergeAllOf env build ownerName c levels ms m)
      fun keys => ∀ r, Composes ms r → Resolves c.doc keys r
  | 0, _, _, _, h, _ => by omega
  | levels + 1, ms, m, hms, hdepth, s => by
    have hlist : Exact rooted env s
        (mergeList env build (mergeAllOf env build ownerName c levels) c (ms.get? "allOf") m) fun keys =>
          ∀ members, ms.get? "allOf" = some (.arr members) → ∀ ms', .obj ms' ∈ members →
            MemberResolves c.doc keys ms' := by
      cases hall : ms.get? "allOf" with
      | none => exact .pure fun _ h => by cases h
      | some v =>
        cases v with
        | arr members =>
          refine (mergeMembers_exact hp hb members m (fun ms' hmem r href => hms.reference hall hmem href)
            (fun ms' m' s' hmem href => ?_) s).weaken fun keys _ hres members' h => ?_
          · refine mergeAllOf_exact ownerName levels ms' m' (hms.inline hall hmem href) ?_ s'
            have hitem := depth_le_itemsDepth hmem
            have harr := Members.depth_of_get? hall
            rw [depth_obj] at hitem
            rw [depth_arr] at harr
            omega
          · cases h
            exact hres
        | _ => exact .throw fun _ => trivial
    refine hlist.bind fun m₁ s₁ _ hres => ?_
    have hown : Exact rooted env s₁ (mergeOwn build ownerName c ms m₁) fun keys =>
        ∀ key schema, (key, schema) ∈ propertiesOf ms → ∀ r, Traverses schema r → Resolves c.doc keys r := by
      unfold mergeOwn
      split
      · exact (properties_exact hb ownerName _ hms.property s₁).andThen fun _ => .pure _
      · exact .throw fun _ => trivial
    refine hown.weaken fun keys hsub hprops r hr => ?_
    cases hr with
    | reference hall hmem href => exact (hres _ hall _ hmem r (.inl href)).mono hsub
    | inline hall hmem href hr => exact (hres _ hall _ hmem r (.inr ⟨href, hr⟩)).mono hsub
    | property hmem hr => exact hprops _ _ hmem r hr

omit hp in
theorem objectNode_exact {ms : Members} (hraw : raw = .obj ms) (hplain : Plain ms) (ht : IsTyped ms "object")
    (nullable : Bool) (s : State) :
    Exact rooted env s (objectNode build ms nullable c) fun keys =>
      ∀ key schema, (key, schema) ∈ propertiesOf ms → ∀ r, Traverses schema r → Resolves c.doc keys r := by
  subst hraw
  refine (declaredName_quiet c).andThen fun name s₁ _ => openSlot_quiet.andThen fun slot s₂ _ => ?_
  refine (properties_exact hb name _ (isPart_property hplain ht) s₂).andThen fun fields => ?_
  exact (fillSlot_quiet slot _).bind fun _ => .pure _

omit hp in
theorem arrayNode_exact {ms : Members} (hraw : raw = .obj ms) (hplain : Plain ms) (ht : IsTyped ms "array")
    (nullable : Bool) (s : State) :
    Exact rooted env s (arrayNode build ms nullable c) fun keys =>
      ∀ schema, ms.get? "items" = some schema → ∀ r, Traverses schema r → Resolves c.doc keys r := by
  subst hraw
  have helement (s₁ : State) : Exact rooted env s₁ (elementNode build ms (c.child (labelOf c ++ "Item"))) fun keys =>
      ∀ schema, ms.get? "items" = some schema → ∀ r, Traverses schema r → Resolves c.doc keys r := by
    unfold elementNode
    cases hitems : ms.get? "items" with
    | none => exact (scalarNode_quiet _ _ _ _).exact fun _ h => by cases h
    | some items =>
      have hexact := hb items (c.child (labelOf c ++ "Item")) (.part (isPart_items hplain ht hitems) rfl rfl rfl) s₁
      refine hexact.weaken fun keys _ hrefs schema h => ?_
      cases h
      exact hrefs
  refine (openSlotIf_quiet _).andThen fun slot s₁ _ => (helement s₁).andThen fun element => ?_
  exact (constraintsAt_quiet ms c).bind fun _ => (fillSlotIf_quiet slot _).bind fun _ => .pure _

omit hp in
theorem typedNode_exact {ms : Members} (hraw : raw = .obj ms) (hplain : Plain ms) (s : State) :
    Exact rooted env s (typedNode build ms c) fun keys => ∀ r, Traverses raw r → Resolves c.doc keys r := by
  unfold typedNode
  cases htype : typeOf ms c with
  | error e =>
    obtain ⟨detail, rfl⟩ := typeOf_error htype
    exact .throw fun _ => trivial
  | ok found =>
    obtain ⟨type, listed⟩ := found
    have hinv := fun r (h : Traverses raw r) => Traverses.of_plain (hraw ▸ h) hplain
    have hscalar {m : Resolve Node} (hm : Quiet m) (hobject : type ≠ some "object") (harray : type ≠ some "array") :
        Exact rooted env s m fun keys => ∀ r, Traverses raw r → Resolves c.doc keys r := by
      refine hm.exact fun r hr => ?_
      rcases hinv r hr with ⟨ht, -⟩ | ⟨ht, -⟩
      · exact absurd (ht.eq htype) hobject
      · exact absurd (ht.eq htype) harray
    dsimp only
    split
    · refine (objectNode_exact hb hraw hplain ⟨c, listed, htype⟩ _ s).weaken fun keys _ hprops r hr => ?_
      rcases hinv r hr with ⟨-, key, schema, hmem, hr⟩ | ⟨ht, -⟩
      · exact hprops key schema hmem r hr
      · exact absurd (ht.eq htype) (by simp)
    · refine (arrayNode_exact hb hraw hplain ⟨c, listed, htype⟩ _ s).weaken fun keys _ hitems r hr => ?_
      rcases hinv r hr with ⟨ht, -⟩ | ⟨-, schema, hmem, hr⟩
      · exact absurd (ht.eq htype) (by simp)
      · exact hitems schema hmem r hr
    · refine hscalar ?_ (by simp) (by simp)
      split
      · exact enumNode_quiet _ _ _ _
      · exact scalarNode_quiet _ _ _ _
    · exact hscalar (scalarNode_quiet _ _ _ _) (by simp) (by simp)
    · exact hscalar (scalarNode_quiet _ _ _ _) (by simp) (by simp)
    · exact hscalar (scalarNode_quiet _ _ _ _) (by simp) (by simp)
    · exact hscalar (scalarNode_quiet _ _ _ _) (by simp) (by simp)
    · exact .throw fun _ => trivial

omit hp in
theorem unionNode_exact {ms : Members} (hraw : raw = .obj ms) (href : textOf ms "$ref" = none)
    (hall : ms.has "allOf" = false) {members : Json} (hunion : (ms.get? "oneOf").or (ms.get? "anyOf") = some members)
    (s : State) : Exact rooted env s (unionNode build members c) fun keys => ∀ list single, members = .arr list →
      list.filter (!isNullMember ·) = [single] → ∀ r, Traverses single r → Resolves c.doc keys r := by
  subst hraw
  unfold unionNode
  cases members with
  | arr list =>
    dsimp only [Json.items?]
    split
    · rename_i single hsingle
      refine ((hb single c (.part (isPart_union href hall hunion hsingle) rfl rfl rfl) s).andThen fun n => ?_).weaken ?_
      · split
        · exact .pure _
        · exact makeNullable_quiet _
      · intro keys _ hrefs list' single' hlist hsingle'
        cases hlist
        cases hsingle.symm.trans hsingle'
        exact hrefs
    · exact .throw fun _ => trivial
  | _ => exact .throw fun _ => trivial

theorem buildStep_exact : ExactAt rooted env (buildStep env build) raw c := by
  intro s
  unfold buildStep
  split
  · rename_i ms
    unfold formNode
    split
    · rename_i r href
      refine ((resolveRef_exact hp hb (.reference href) s).andThen fun _ => referenceNode_quiet _ _ _).weaken ?_
      intro keys _ hres r' hr'
      exact hr'.of_reference href ▸ hres
    · rename_i href
      split
      · rename_i hall
        refine (declaredName_quiet c).andThen fun name s₁ _ => openSlot_quiet.andThen fun slot s₂ _ => ?_
        have hmerge := mergeAllOf_exact hp hb name _ ms {} (isPiece_self href hall) (Nat.lt_succ_self _) s₂
        refine (hmerge.andThen fun merged => ?_).weaken fun keys _ hres r hr => hres r (hr.of_composition href hall)
        exact (settleFields_quiet _ _ _ _).bind fun _ => (fillSlot_quiet slot _).bind fun _ => .pure _
      · rename_i hall
        have hall : Members.has ms "allOf" = false := by simpa using hall
        split
        · rename_i members hunion
          refine (unionNode_exact hb rfl href hall hunion s).weaken fun keys _ hres r hr => ?_
          obtain ⟨list, single, hlist, hsingle, hr⟩ := hr.of_union href hall hunion
          exact hres list single hlist hsingle r hr
        · rename_i hunion
          exact typedNode_exact hb rfl ⟨href, hall, hunion⟩ s
  · exact (scalarNode_quiet _ _ _ _).exact fun r hr => by cases hr
  · exact .throw fun _ => trivial

end Schemas

/-! ## Builds -/

/-- **A build with enough steps is exact.** -/
theorem build_exact {rooted : Prop} {env : Env} {bound : Nat} : ∀ (n : Nat) (raw : Json) (c : Context),
    Enough env bound n raw c → (rooted → ∃ key, Placed env raw c key) → ExactAt rooted env (build env n) raw c
  | 0, _, _, h, _ => by have := h.steps; omega
  | n + 1, raw, c, h, hp => by
    refine buildStep_exact hp fun raw' c' hd => ?_
    refine build_exact n raw' c' (h.descends hd) fun hrooted => ?_
    obtain ⟨key, hp⟩ := hp hrooted
    exact hp.descends hd

theorem exists_rawSchema_root {env : Env} {name : String} (h : name ∈ env.rootKeys) :
    ∃ raw, env.rawSchema? ⟨none, name⟩ = some raw := by
  unfold Env.rootKeys Description.schemas? at h
  unfold Env.rawSchema? Description.documentFor?
  rw [Option.bind_some]
  cases hschemas : Description.schemasOf env.description.document with
  | none => rw [hschemas] at h; cases h
  | some schemas =>
    rw [hschemas] at h
    cases schemas with
    | obj ms =>
      obtain ⟨⟨key, raw⟩, hmem, rfl⟩ := List.mem_map.1 h
      exact Members.exists_get? hmem
    | _ => cases h

/-- The named schemas of the root document are resolved one after another. -/
theorem resolveKeys_exact {env : Env} : ∀ (names : List String), names ⊆ env.rootKeys → ∀ s,
    Exact True env s (resolveKeys env (build env (env.steps 0)) names) fun keys => ∀ name ∈ names, ⟨none, name⟩ ∈ keys
  | [], _, _ => .pure fun _ h => by cases h
  | name :: names, h, s => by
    obtain ⟨hname, hnames⟩ := List.cons_subset.1 h
    obtain ⟨raw, hraw⟩ := exists_rawSchema_root hname
    have hkey : Exact True env s (resolveKey env (build env (env.steps 0)) ⟨none, name⟩ ("schema:" ++ name)
        ("#" ++ schemaPointer ++ name) []) fun keys => ⟨none, name⟩ ∈ keys := by
      have hstacked : Stacked env [⟨none, name⟩] :=
        ⟨List.forall_mem_singleton.2 (.root hname), List.isChain_singleton _⟩
      refine resolveKey_exact (fun _ => hstacked) (fun _ hnone => ?_) (fun raw' label hraw' _ => ?_) s
      · cases hraw.symm.trans hnone
      · refine build_exact _ raw' _ (enough_rawSchema hraw' (Nat.le_refl _) _) fun _ => ?_
        exact ⟨_, placed_ofKey hstacked hraw' label⟩
    refine hkey.bind fun n s₁ _ hmem => ?_
    refine ((resolveKeys_exact names hnames s₁).andThen fun _ => .pure _).weaken fun keys hsub hrest => ?_
    exact List.forall_mem_cons.2 ⟨hsub hmem, hrest⟩

/-! ## Sessions -/

/-- What stands in an operation is built with enough steps, too. -/
theorem build_steps_exact (env : Env) {depth : Nat} {raw : Json} (h : raw.depth ≤ depth) (c : Context) :
    ExactAt False env (build env (env.steps depth)) raw c := by
  have hbound : raw.depth ≤ max env.depth depth := Nat.le_trans h (Nat.le_max_right _ _)
  exact build_exact _ raw c (enough_of_le (Nat.le_max_left _ _) hbound (Nat.le_refl _) c) False.elim

theorem synthesizeObject_exact (env : Env) (hint : String) (members : List Member) (presence : Presence)
    (owner : String) (s : State) :
    Exact False env s (synthesizeObject env hint members presence owner) fun _ => True := by
  refine (allocateName_quiet hint).andThen fun name s₁ _ => openSlot_quiet.andThen fun slot s₂ _ => ?_
  refine ((buildFields_exact name _ [] (fun e he hint => ?_) s₂).andThen fun fields => ?_).weaken fun _ _ _ => trivial
  · exact build_steps_exact env (le_foldl_max (.inr (List.mem_map.2 ⟨e, he, rfl⟩))) _
  · exact (fillSlot_quiet slot _).bind fun _ => .pure _

/-- Every question keeps the resolved keys settled, also one that is refused. -/
theorem Query.answer_settled {env : Env} {s : State} (hs : Settled env s.keys) (q : Query) :
    Ends (q.answer env) s (fun _ s' => Settled env s'.keys) fun _ s' => Settled env s'.keys := by
  have hsettled {rooted : Prop} {m : Resolve (List Node)} {P : List RefKey → Prop} (h : Exact rooted env s m P) :
      Ends m s (fun _ s' => Settled env s'.keys) fun _ s' => Settled env s'.keys :=
    (h hs).mono (fun _ _ h => h.1) fun _ _ h => h.1
  cases q with
  | components => exact hsettled ((resolveKeys_exact env.rootKeys (fun _ h => h) s).andThen fun _ => .pure _)
  | inline raw hint owner => exact hsettled ((build_steps_exact env (Nat.le_refl _) _ s).andThen fun _ => .pure _)
  | synthesize hint members presence owner =>
    exact hsettled ((synthesizeObject_exact env hint members presence owner s).andThen fun _ => .pure _)
  | declarations mark => exact hs
  | allocate name => exact hs
  | reserve name => exact hs

theorem resolved_initial (env : Env) : (State.initial env).resolved = [] := by
  have hfold : ∀ (names : List String) (s : State), (names.foldl State.reserve s).resolved = s.resolved := by
    intro names
    induction names with
    | nil => intro s; rfl
    | cons name names ih => intro s; exact ih _
  exact hfold env.rootKeys {}

/-- **The resolved keys of a session are settled.** -/
theorem Session.settled {env : Env} {s : State} {nodes : List Node} (h : Session env s nodes) : Settled env s.keys := by
  induction h with
  | start =>
    rw [State.keys, resolved_initial]
    trivial
  | answered q _ hq ih => exact (q.answer_settled ih).of_ok hq
  | refused q _ hq ih => exact (q.answer_settled ih).of_error hq
  | compiled n required _ _ ih => exact ih
  | collected n _ _ ih => exact ih

/-! ## The verdict -/

/-- Every reference that the named schemas of the root document lead to has a named schema, and none leads back to where
it stands. -/
structure Env.Sound (env : Env) : Prop where
  resolves : ∀ k, Reachable env k → ∃ raw, env.rawSchema? k = some raw ∧
    ∀ r, Traverses raw r → ∃ k' raw', Denotes k.doc r k' ∧ env.rawSchema? k' = some raw'
  acyclic : ∀ k, Reachable env k → ¬ Relation.TransGen (Refers env) k k

theorem Settled.sound {env : Env} {keys : List RefKey} (h : Settled env keys)
    (hroot : ∀ name ∈ env.rootKeys, ⟨none, name⟩ ∈ keys) : env.Sound := by
  have hmem : ∀ k, Reachable env k → k ∈ keys := by
    intro k hk
    induction hk with
    | root hname => exact hroot _ hname
    | step _ hr ih => exact h.closed ih hr
  refine ⟨fun k hk => ?_, fun k hk => h.acyclic (hmem k hk)⟩
  obtain ⟨raw, hraw, hrefs⟩ := h.exists_raw (hmem k hk)
  refine ⟨raw, hraw, fun r hr => ?_⟩
  obtain ⟨k', hk', hd⟩ := hrefs r hr
  obtain ⟨raw', hraw', -⟩ := h.exists_raw hk'
  exact ⟨k', raw', hd, hraw'⟩

/-- **Resolution ends with the true verdict.** A bounded number of steps is enough for every schema: how many more there
are and what would come after them does not matter. Whatever a resolver was asked before, if the named schemas are
resolved, then all references that they lead to exist and there is no cycle; a reported cycle is one of theirs, and so
is a reference that is reported missing. -/
theorem resolveComponents_exact (env : Env) :
    (∀ base n, env.steps 0 ≤ n → resolveKeys env (unroll env base n) env.rootKeys = resolveComponents env) ∧
    (∀ base n raw c, env.steps raw.depth ≤ n → unroll env base n raw c = build env (env.steps raw.depth) raw c) ∧
    ∀ s nodes, Session env s nodes →
      (∀ entries s', (resolveComponents env).run s = .ok entries s' → env.Sound) ∧
      ∀ e s', (resolveComponents env).run s = .error e s' → Honest env e := by
  refine ⟨fun base n h => resolveKeys_unroll env base h _, fun base n raw c h => build_unroll base h c, ?_⟩
  intro s nodes hsession
  have hend : Ends (resolveComponents env) s _ _ := resolveKeys_exact env.rootKeys (fun _ h => h) s hsession.settled
  refine ⟨fun entries s' hrun => ?_, fun e s' hrun => ?_⟩
  · obtain ⟨hsettled, -, hroot⟩ := hend.of_ok hrun
    exact hsettled.sound hroot
  · exact (hend.of_error hrun).2 trivial

/-- Two documents: a schema of the first refers to one of the second, which refers to itself. -/
def loopEnv : Env :=
  let schema (target : String) : Json := .obj [("properties", .obj [("next", .obj [("$ref", .str target)])])]
  let document (name target : String) : Json :=
    .obj [("components", .obj [("schemas", .obj [(name, schema target)])])]
  ⟨⟨"", "", "", "", document "A" "b.json#/components/schemas/B", [("b.json", document "B" "#/components/schemas/B")]⟩,
    .standard⟩

theorem resolveComponents_loopEnv : Ends (resolveComponents loopEnv) (.initial loopEnv) (fun _ _ => False)
    fun e _ => e = .cyclicSchema ["b.json#B", "b.json#B"] := by decide +kernel

theorem resolveComponents_exact_loopEnv : Session loopEnv (.initial loopEnv) [] ∧
    ∃ keys, ["b.json#B", "b.json#B"] = keys.map RefKey.text ∧ IsCycle loopEnv keys := by
  obtain ⟨e, s', hrun, rfl⟩ := resolveComponents_loopEnv.exists_error
  exact ⟨.start, ((resolveComponents_exact loopEnv).2.2 _ [] .start).2 _ s' hrun⟩

end ApiForge.Schema
