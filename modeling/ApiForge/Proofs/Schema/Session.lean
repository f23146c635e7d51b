import ApiForge.Proofs.Schema.Resolution

/-!
# Rules and nodes of a resolver

A session with a resolver is any sequence of questions to it; questions may fail, and what they have done stays.

* `Session env s nodes`: after some questions about the description of `env` the state is `s`, and `nodes` are the nodes
  that were given as answers.
* `Session.valid`: the state of a session is valid, and its nodes are sound.
* `Session.checkField_iff`: the rules that the resolver compiles for a node reject exactly what does not satisfy it.
-/

namespace ApiForge.Schema

open Naming

/-- A question to a resolver. -/
inductive Query where
  | components
  | inline (raw : Json) (hint owner : String)
  | synthesize (hint : String) (members : List Member) (presence : Presence) (owner : String)
  | declarations (mark : Nat)
  | allocate (name : String)
  | reserve (name : String)

/-- The nodes that answer a question. -/
def Query.answer (env : Env) : Query → Resolve (List Node)
  | .components => do return (← resolveComponents env).map (·.2)
  | .inline raw hint owner => do return [← resolveInline env raw hint owner]
  | .synthesize hint members presence owner => do return [← synthesizeObject env hint members presence owner]
  | .declarations mark => do return (← get).declarationsSince mark
  | .allocate name => do
    let _ ← allocateName name
    return []
  | .reserve name => do
    modify fun s => { s with names := (s.names.reserve name).2 }
    return []

/-- Sessions: questions to a resolver, and rules compiled for nodes that it gave as answers. -/
inductive Session (env : Env) : State → List Node → Prop where
  | start : Session env (.initial env) []
  | answered {s s' : State} {nodes new : List Node} (q : Query) :
      Session env s nodes → (q.answer env).run s = .ok new s' → Session env s' (nodes ++ new)
  | refused {s s' : State} {nodes : List Node} {e : CompileError} (q : Query) :
      Session env s nodes → (q.answer env).run s = .error e s' → Session env s' nodes
  | compiled {s : State} {nodes : List Node} (n : Node) (required : Bool) :
      Session env s nodes → n ∈ nodes → Session env { s with rules := (s.rules.fieldRules n required).2 } nodes
  | collected {s : State} {nodes : List Node} (n : Node) :
      Session env s nodes → n ∈ nodes → Session env { s with rules := (s.rules.ruleSet? n).2 } nodes

section Questions

variable {env : Env} {ρ : Registry} {s : State}

/-- The resolver starts valid: type names are reserved for the named schemas, and none has rules. -/
theorem valid_initial (env : Env) : Valid [] (fun _ => none) (State.initial env) := by
  have hempty : Valid [] (fun _ => none) {} := by
    refine ⟨RuleCache.within_empty, ?_, ?_, ?_, ?_, ?_, ?_⟩
    all_goals simp
  refine List.foldlRecOn env.rootKeys State.reserve hempty fun s hv key _ => ?_
  have hname := Allocator.fresh_not_mem s.names (pascalCase key)
  exact hv.reserve hname fun p hp => (List.mem_append.1 hp).symm.imp_left List.mem_singleton.1

theorem resolveKeys_keeps {build : Build} (hb : KeepsNodes build) :
    ∀ (keys : List String) {ρ : Registry} {s : State}, Valid [] ρ s →
      Keeps [] none ρ s (resolveKeys env build keys) fun entries ρ' _ => ∀ e ∈ entries, e.2.Sound ρ'
  | [], _, _, hv => .pure hv fun _ h => by cases h
  | key :: keys, ρ, s, hv => by
    refine (resolveKey_keeps hb hv _ _).bind fun n ρ₁ s₁ hv₁ _ hn => ?_
    refine (resolveKeys_keeps hb keys hv₁).bind fun entries ρ₂ s₂ hv₂ hg₂ hs => ?_
    exact .pure hv₂ (List.forall_mem_cons.2 ⟨hn.mono hg₂.registry, hs⟩)

theorem resolveInline_keeps (hv : Valid [] ρ s) (raw : Json) (hint owner : String) :
    Keeps [] none ρ s (resolveInline env raw hint owner) fun n ρ' _ => n.Sound ρ' :=
  build_keeps env _ raw ⟨none, owner, hint, none, env.presence, []⟩ ρ s hv fun _ h => by cases h

theorem synthesizeObject_keeps (hv : Valid [] ρ s) (hint : String) (members : List Member) (presence : Presence)
    (owner : String) :
    Keeps [] none ρ s (synthesizeObject env hint members presence owner) fun n ρ' _ => n.Sound ρ' := by
  refine allocateName_bind hv fun name s₁ hv₁ hg₁ hr₁ => ?_
  refine (openSlot_keeps hv₁).bind fun slot ρ₂ s₂ hv₂ hg₂ _ => ?_
  refine (buildFields_keeps (c := ⟨none, owner, name, none, presence, []⟩) (build_keeps env _) name _ [] hv₂).bind
    fun fs ρ₃ s₃ hv₃ hg₃ hfs => ?_
  refine (fillSlot_keeps hv₃ ((hr₁.grows hg₂).grows hg₃) slot rfl ?_).bindPure fun _ _ _ h => h
  rw [recordNode, Kind.Sound]
  exact Field.allSound_iff.2 hfs

/-- Names that are taken for other declarations. -/
theorem Valid.withNames {stack : List RefKey} (hv : Valid stack ρ s) {names : Allocator}
    (h : s.names.taken ⊆ names.taken) : Valid stack ρ { s with names } :=
  ⟨hv.cache, fun m hm => h (hv.taken m hm), fun k m hm => h (hv.named k m hm), hv.apart, hv.resolved, hv.declared,
    hv.pending⟩

theorem Valid.withRules {stack : List RefKey} (hv : Valid stack ρ s) {rules : RuleCache} (h : rules.Within ρ) :
    Valid stack ρ { s with rules } :=
  ⟨h, hv.taken, hv.named, hv.apart, hv.resolved, hv.declared, hv.pending⟩

theorem Valid.declarationsSince (hv : Valid [] ρ s) (mark : Nat) : ∀ n ∈ s.declarationsSince mark, n.Sound ρ := by
  intro n hn
  obtain ⟨o, ho, rfl⟩ := List.mem_filterMap.1 hn
  exact hv.declared n (Array.mem_toList_iff.1 (List.mem_of_mem_drop ho))

/-- Every question keeps validity, and its answers are sound. -/
theorem Query.answer_keeps (hv : Valid [] ρ s) (q : Query) : Ends (q.answer env) s
    (fun new s' => ∃ ρ', Valid [] ρ' s' ∧ ρ'.Extends ρ ∧ ∀ n ∈ new, n.Sound ρ')
    (fun _ s' => ∃ ρ', Valid [] ρ' s' ∧ ρ'.Extends ρ) := by
  have keeps : ∀ {m : Resolve (List Node)},
      (Keeps [] none ρ s m fun new ρ' _ => ∀ n ∈ new, n.Sound ρ') → Ends m s
        (fun new s' => ∃ ρ', Valid [] ρ' s' ∧ ρ'.Extends ρ ∧ ∀ n ∈ new, n.Sound ρ')
        (fun _ s' => ∃ ρ', Valid [] ρ' s' ∧ ρ'.Extends ρ) := fun h =>
    Ends.mono h (fun _ _ ⟨ρ', hv', hg', hn⟩ => ⟨ρ', hv', hg'.registry, hn⟩) fun _ _ ⟨ρ', hv', hg'⟩ =>
      ⟨ρ', hv', hg'.registry⟩
  cases q with
  | components =>
    refine keeps ((resolveKeys_keeps (build_keeps env _) _ hv).bindPure fun entries ρ' _ he n hn => ?_)
    obtain ⟨e, hmem, rfl⟩ := List.mem_map.1 hn
    exact he e hmem
  | inline raw hint owner =>
    exact keeps ((resolveInline_keeps hv raw hint owner).bindPure fun n ρ' _ hn => by simpa using hn)
  | synthesize hint members presence owner =>
    exact keeps ((synthesizeObject_keeps hv hint members presence owner).bindPure fun n ρ' _ hn => by simpa using hn)
  | declarations mark => exact ⟨ρ, hv, .refl ρ, hv.declarationsSince mark⟩
  | allocate name => exact ⟨ρ, hv.withNames (List.subset_cons_self _ _), .refl ρ, fun _ h => by cases h⟩
  | reserve name =>
    exact ⟨ρ, hv.withNames (Allocator.taken_subset_reserve s.names name), .refl ρ, fun _ h => by cases h⟩

end Questions

/-- **Sessions are valid**: whatever was asked, the state fits a registry in which all answers are sound. -/
theorem Session.valid {env : Env} {s : State} {nodes : List Node} (h : Session env s nodes) :
    ∃ ρ, Valid [] ρ s ∧ ∀ n ∈ nodes, n.Sound ρ := by
  induction h with
  | start => exact ⟨_, valid_initial env, fun _ h => by cases h⟩
  | answered q _ hq ih =>
    obtain ⟨ρ, hv, hn⟩ := ih
    obtain ⟨ρ', hv', hext, hnew⟩ := (q.answer_keeps hv).of_ok hq
    refine ⟨ρ', hv', fun n hmem => ?_⟩
    rcases List.mem_append.1 hmem with h | h
    · exact (hn n h).mono hext
    · exact hnew n h
  | refused q _ hq ih =>
    obtain ⟨ρ, hv, hn⟩ := ih
    obtain ⟨ρ', hv', hext⟩ := (q.answer_keeps hv).of_error hq
    exact ⟨ρ', hv', fun n hmem => (hn n hmem).mono hext⟩
  | compiled n required _ hmem ih =>
    obtain ⟨ρ, hv, hn⟩ := ih
    exact ⟨ρ, hv.withRules (RuleCache.fieldRules_sound (hn n hmem) hv.cache required).2, hn⟩
  | collected n _ hmem ih =>
    obtain ⟨ρ, hv, hn⟩ := ih
    exact ⟨ρ, hv.withRules (RuleCache.ruleSet?_sound (hn n hmem) hv.cache), hn⟩

/-- **The rules of a node are exact**: after any session, compiling the rules of a node that was given as an answer and
evaluating them on what a field may hold reports nothing exactly when that satisfies the node. -/
theorem Session.checkField_iff {env : Env} {s : State} {nodes : List Node} (h : Session env s nodes) {n : Node}
    (hn : n ∈ nodes) (required : Bool) (v : Option Json) (path : String) :
    Rule.checkField (s.rules.fieldRules n required).1 n.isNullable v path = [] ↔ n.Satisfies required v := by
  obtain ⟨ρ, hv, hsound⟩ := h.valid
  rw [(RuleCache.fieldRules_sound (hsound n hn) hv.cache required).1]
  exact Rule.checkField_rules n required v path

/-- A description with one named schema: objects with a required name of at most three characters. -/
def petEnv : Env :=
  let name : Json := .obj [("type", .str "string"), ("maxLength", .num (.int 3))]
  let pet : Json := .obj [("properties", .obj [("name", name)]), ("required", .arr [.str "name"])]
  ⟨⟨"", "", "", "", .obj [("components", .obj [("schemas", .obj [("Pet", pet)])])], []⟩, .standard⟩

/-- A question about lists of what the named schema describes. -/
def petList : Query :=
  .inline (.obj [("type", .str "array"), ("items", .obj [("$ref", .str "#/components/schemas/Pet")])]) "Body" "pets"

theorem petList_answered :
    Ends (petList.answer petEnv) (.initial petEnv) (fun nodes _ => nodes.length = 1) fun _ _ => False := by
  decide +kernel

theorem Session.checkField_iff_petList : ∃ s n, Session petEnv s [n] ∧
    (Rule.checkField (s.rules.fieldRules n true).1 n.isNullable (some (.arr [.obj [("name", .str "Rex")]])) "body" =
      [] ↔ n.Satisfies true (some (.arr [.obj [("name", .str "Rex")]]))) := by
  obtain ⟨nodes, s, hs, hlen⟩ := petList_answered.exists_ok
  obtain ⟨n, rfl⟩ := List.length_eq_one_iff.1 hlen
  have hsession : Session petEnv s [n] := .answered petList .start hs
  exact ⟨s, n, hsession, hsession.checkField_iff List.mem_cons_self true _ "body"⟩

end ApiForge.Schema
