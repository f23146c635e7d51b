import ApiForge.Proofs.Schema.Provenance

/-!
# What is stored with fields

Fields carry their compiled rules and the flag that says whether they may be left out. Both are set where a field is
built, and again where a composition takes it over; the rules come from a cache that is keyed by type names.

* `Field.Compiled f`: the rules of the field are compiled from its own type and presence, as if there were no cache.
* `Fulfilled env given s`: questions to a resolver that have all been answered.
* `Query.BuildsUnder env q a p`: among what answers a question, the record `a` has been built under a presence mode.
* `Fulfilled.fields_stored`: every field in an answer is compiled, also if it is compiled again through the cache, and
  it may be left out if it is not required or its record has been built in explicit presence, and only then.
-/

namespace ApiForge

/-! ## Rules -/

/-- The rules of items that stand in rules, at any depth. -/
inductive Rule.Inside (inner : List Rule) : List Rule → Prop where
  | here {nullable : Bool} {rules : List Rule} : .elements inner nullable ∈ rules → Inside inner rules
  | element {items rules : List Rule} {nullable : Bool} : .elements items nullable ∈ rules → Inside inner items →
      Inside inner rules
  | field {set : RuleSet} {r : FieldRules} {rules : List Rule} : .fields set ∈ rules → r ∈ set.fields →
      Inside inner r.rules → Inside inner rules

namespace Schema

open Json

/-- The rules of a field are those of its own type, with one rule for presence in front exactly if it is required. -/
structure Field.Compiled (f : Field) : Prop where
  rules : f.rules = f.type.fieldRules f.required
  count : f.rules.countP Rule.isRequired = if f.required then 1 else 0
  first : f.required = true → f.rules.head? = some .required
  inner : ∀ inner, Rule.Inside inner f.rules → .required ∉ inner

theorem mem_withPresence {required : Bool} {rules : List Rule} {r : Rule} (h : r ∈ withPresence required rules) :
    r = .required ∨ r ∈ rules := by
  cases required with
  | true => exact List.mem_cons.1 h
  | false => exact .inr h

theorem mem_allRules : ∀ {fields : List Field} {r : FieldRules}, r ∈ Field.allRules fields →
    ∃ f ∈ fields, r.rules = f.type.fieldRules f.required
  | ⟨_, _, type, required, _, _, _⟩ :: fs, r, h => by
    rw [Field.allRules] at h
    rcases List.mem_cons.1 h with rfl | h
    · exact ⟨_, List.mem_cons_self, rfl⟩
    · obtain ⟨f, hf, hr⟩ := mem_allRules h
      exact ⟨f, List.mem_cons_of_mem _ hf, hr⟩

/-- Rules about the contents of a value are those of the parts of the node. -/
theorem mem_rules : ∀ {n : Node} {r : Rule}, r ∈ n.rules → r.isLeaf = true ∨ (∃ shape, r = .type shape) ∨
    (∃ m : Node, ∃ nullable, r = .elements m.rules nullable) ∨
    ∃ name fields, r = .fields ⟨name, Field.allRules fields⟩
  | ⟨_, .reference t, _, _, _, _, _⟩, r, h => by
    rw [Node.rules, Kind.rules] at h
    exact mem_rules h
  | ⟨_, .scalar kind, _, _, _, c, _⟩, r, h => by
    rw [Node.rules, Kind.rules] at h
    rcases List.mem_append.1 h with h | h
    · obtain ⟨shape, -, rfl⟩ := Option.map_eq_some_iff.1 (Option.mem_toList.1 h)
      exact .inr (.inl ⟨shape, rfl⟩)
    · exact .inl (Rule.isLeaf_leafRules r h)
  | ⟨_, .enumeration members, _, _, _, c, _⟩, r, h => by
    rw [Node.rules, Kind.rules] at h
    rcases List.mem_append.1 h with h | h
    · rcases List.mem_cons.1 h with rfl | h
      · exact .inr (.inl ⟨_, rfl⟩)
      · exact .inl (Rule.isLeaf_leafRules r h)
    · cases List.mem_singleton.1 h
      exact .inl rfl
  | ⟨name, .object fields, _, _, _, _, _⟩, r, h => by
    rw [Node.rules, Kind.rules] at h
    rcases List.mem_cons.1 h with rfl | h
    · exact .inr (.inl ⟨_, rfl⟩)
    · exact .inr (.inr (.inr ⟨name, fields, List.mem_singleton.1 h⟩))
  | ⟨_, .array element, _, _, _, c, _⟩, r, h => by
    rw [Node.rules, Kind.rules] at h
    rcases List.mem_append.1 h with h | h
    · rcases List.mem_cons.1 h with rfl | h
      · exact .inr (.inl ⟨_, rfl⟩)
      · exact .inl (Rule.isLeaf_leafRules r h)
    · split at h
      · cases h
      · exact .inr (.inr (.inl ⟨element, _, List.mem_singleton.1 h⟩))

/-- The rules of items are always the rules of a node. -/
theorem exists_rules_of_inside {inner rules : List Rule} (h : Rule.Inside inner rules) :
    ∀ {n : Node} {required : Bool}, rules = n.fieldRules required → ∃ m : Node, inner = m.rules := by
  have elements : ∀ {n : Node} {required nullable : Bool} {items : List Rule},
      .elements items nullable ∈ n.fieldRules required → ∃ m : Node, items = m.rules := by
    intro n required nullable items hmem
    rcases mem_withPresence hmem with hmem | hmem
    · cases hmem
    · rcases mem_rules hmem with h | ⟨_, h⟩ | ⟨m, _, h⟩ | ⟨_, _, h⟩ <;> cases h
      exact ⟨m, rfl⟩
  induction h with
  | here hmem =>
    rintro n required rfl
    exact elements hmem
  | @element items rules nullable hmem _ ih =>
    rintro n required rfl
    obtain ⟨m, hm⟩ := elements hmem
    have hrules : items = m.fieldRules false := hm
    exact ih hrules
  | field hmem hr _ ih =>
    rintro n required rfl
    rcases mem_withPresence hmem with hmem | hmem
    · cases hmem
    · rcases mem_rules hmem with h | ⟨_, h⟩ | ⟨_, _, h⟩ | ⟨name, fields, h⟩ <;> cases h
      obtain ⟨f, -, hf⟩ := mem_allRules hr
      exact ih hf

/-- A field with the rules of its type is compiled. -/
theorem Field.Compiled.of_rules {f : Field} (h : f.rules = f.type.fieldRules f.required) : f.Compiled := by
  have hnone : ∀ n : Node, .required ∉ n.rules := fun n hmem => by
    rw [Rule.required_mem_iff, Rule.isRequired_rules] at hmem
    cases hmem
  have hcount : f.type.rules.countP Rule.isRequired = 0 :=
    List.countP_eq_zero.2 fun r hr hrequired => by
      have := List.any_eq_true.2 ⟨r, hr, hrequired⟩
      rw [Rule.isRequired_rules] at this
      cases this
  refine ⟨h, ?_, fun hrequired => ?_, fun inner hinner => ?_⟩
  · rw [h, Node.fieldRules, withPresence]
    split
    · rw [List.countP_cons, hcount]
      rfl
    · exact hcount
  · rw [h, Node.fieldRules, withPresence, if_pos hrequired]
    rfl
  · obtain ⟨m, rfl⟩ := exists_rules_of_inside hinner h
    exact hnone m

/-! ## Questions -/

/-- Questions for the nodes of schemas. -/
def Query.AsksForNodes : Query → Prop
  | .components | .inline .. | .synthesize .. => True
  | .declarations _ | .allocate _ | .reserve _ => False

/-- The entry of a member of a record that is made of loose parts. -/
def Member.entry (m : Member) : Entry := ⟨m.key, m.schema.getD stringSchema, m.required, m.description⟩

/-- Reads a record that is made of loose parts. -/
def viewLoose (read : View) (members : List Member) (presence : Presence) : Option Node := do
  let fields ← viewFields read ⟨none, false, presence⟩ [] (members.map Member.entry)
  return recordNode "" fields false none

/-- The sites of the schemas that a question is about. -/
def Query.Starts (env : Env) : Query → Site → Prop
  | .components, site => ∃ key ∈ env.rootKeys, env.lookup ⟨none, key⟩ = some site
  | .inline raw _ _, site => site = (raw, ⟨none, false, env.presence⟩)
  | .synthesize _ members presence _, site =>
    ∃ e ∈ members.map Member.entry, site = (e.schema, ⟨none, false, presence⟩)
  | _, _ => False

/-- Among what answers a question, the record has been built under a presence mode: that of a site where it is read, or
for a record that is made of loose parts, that of the question. -/
inductive Query.BuildsUnder (env : Env) (q : Query) (a : Node) : Presence → Prop where
  | read {start site : Site} {i : Nat} : q.Starts env start → Relation.ReflTransGen (Leads env) start site →
      view env.lookup i site.1 site.2 = some a.outline → BuildsUnder env q a site.2.presence
  | made {hint owner : String} {members : List Member} {presence : Presence} {i : Nat} :
      q = .synthesize hint members presence owner →
      viewLoose (view env.lookup i) members presence = some a.outline → BuildsUnder env q a presence

/-- All records in a node have been built under a presence mode. -/
def Query.Accounts (env : Env) (q : Query) (n : Node) : Prop :=
  ∀ a fields, a.PartOf n → a.kind = .object fields → ∃ p, q.BuildsUnder env a p

/-- Questions that have all been answered, with the nodes that were given as answers. Rules may be compiled for these in
between. -/
inductive Fulfilled (env : Env) : List (Query × List Node) → State → Prop where
  | start : Fulfilled env [] (.initial env)
  | answered {given : List (Query × List Node)} {s s' : State} {q : Query} {nodes : List Node} :
      Fulfilled env given s → (q.answer env).run s = .ok nodes s' → Fulfilled env (given ++ [(q, nodes)]) s'
  | compiled {given : List (Query × List Node)} {s : State} {n : Node} (required : Bool) :
      Fulfilled env given s → n ∈ given.flatMap (·.2) →
      Fulfilled env given { s with rules := (s.rules.fieldRules n required).2 }
  | collected {given : List (Query × List Node)} {s : State} {n : Node} :
      Fulfilled env given s → n ∈ given.flatMap (·.2) →
      Fulfilled env given { s with rules := (s.rules.ruleSet? n).2 }

section Answers

variable {env : Env} {s : State} {q : Query} {n : Node}

theorem Node.outline_kind_object {fields : List Field} (h : n.kind = .object fields) :
    n.outline.kind = .object (fields.map Field.outline) := by
  rw [Node.outline, Node.blank_kind, h, Kind.blank, Field.blankAll_noRules]

theorem Node.outline_parts (n : Node) : n.outline.kind.parts = n.kind.parts.map Node.outline := by
  rw [Node.outline, Node.blank_kind]
  cases n.kind with
  | object fields =>
    rw [Kind.blank, Field.blankAll_noRules]
    simp only [Kind.parts, List.map_map]
    rfl
  | _ => simp [Kind.blank, Kind.parts, Node.outline]

theorem Node.PartOf.outline {a : Node} (h : a.PartOf n) : a.outline.PartOf n.outline := by
  induction h with
  | self => exact .self
  | element hk _ ih => exact .element (by rw [Node.outline, Node.blank_kind, hk, Kind.blank]; rfl) ih
  | target hk _ ih => exact .target (by rw [Node.outline, Node.blank_kind, hk, Kind.blank]; rfl) ih
  | field hk hf _ ih => exact .field (Node.outline_kind_object hk) (List.mem_map_of_mem hf) ih

/-- What is read at a site that a question is about is accounted for. -/
theorem Query.Accounts.of_covered {start : Site} (hstart : q.Starts env start) (h : Covered env start n.outline) :
    q.Accounts env n := by
  intro a fields ha hkind
  obtain ⟨site, hleads, i, hread⟩ := h a.outline _ ha.outline (Node.outline_kind_object hkind)
  exact ⟨site.2.presence, .read hstart hleads hread⟩

theorem Query.Accounts.of_view {start : Site} (hstart : q.Starts env start)
    (h : Tends (fun i => view env.lookup i start.1 start.2) (some n.outline)) : q.Accounts env n := by
  obtain ⟨i, hi⟩ := h
  have hread : view env.lookup i start.1 start.2 = some n.outline := hi i (Nat.le_refl i)
  exact .of_covered hstart ((view_built env i _ _ _ hread).covered ⟨i, hread⟩)

theorem synthesizeObject_follows (hint : String) (members : List Member) (presence : Presence) (owner : String) :
    Follows env Node.outline s (synthesizeObject env hint members presence owner) fun i =>
      viewLoose (view env.lookup i) members presence := by
  refine (allocateName_silent hint).andThen fun name s₁ _ => openSlot_silent.andThen fun slot s₂ _ => ?_
  refine (buildFields_follows (build_follows env _) name ⟨none, owner, name, none, presence, []⟩ _ []).bind
    fun fields s₃ => ?_
  refine (fillSlot_silent slot _).andThen fun _ s₄ _ => .pure ?_
  rw [outline_recordNode]
  exact .const _

/-- The fields of a record that is made of loose parts are read one by one. -/
theorem viewLoose_accounts {hint owner : String} {members : List Member} {presence : Presence} {i : Nat}
    (h : viewLoose (view env.lookup i) members presence = some n.outline) :
    (Query.synthesize hint members presence owner).Accounts env n := by
  intro a fields ha hkind
  rcases Node.partOf_iff.1 ha with rfl | ⟨m, hm, hma⟩
  · exact ⟨presence, .made rfl h⟩
  · obtain ⟨fs, hfs, hrecord⟩ := Option.bind_eq_some_iff.1 h
    have hrecord : recordNode "" fs false none = n.outline := Option.some.inj hrecord
    have hparts : fs.map (·.type) = n.kind.parts.map Node.outline := by
      rw [← n.outline_parts, ← hrecord]
      rfl
    obtain ⟨f, hf, htype⟩ := List.mem_map.1 (hparts ▸ List.mem_map_of_mem hm)
    obtain ⟨⟨e, he, hread⟩, -⟩ := mem_viewFields hfs hf
    rw [htype] at hread
    have hcovered := (view_built env i _ _ _ hread).covered ⟨i, hread⟩
    have hstart : (Query.synthesize hint members presence owner).Starts env (e.schema, ⟨none, false, presence⟩) :=
      ⟨e, he, rfl⟩
    exact Query.Accounts.of_covered hstart hcovered a fields hma hkind

/-- A record has fields that are flagged by the presence mode under which it has been built. -/
theorem Query.BuildsUnder.flags {a : Node} {p : Presence} (h : q.BuildsUnder env a p) {fields : List Field}
    (hkind : a.kind = .object fields) : ∀ f ∈ fields, f.optionalPresence = optionalPresence f.required p := by
  intro f hf
  have hf' : f.outline ∈ fields.map Field.outline := List.mem_map_of_mem hf
  cases h with
  | read _ _ hread => exact (view_built env _ _ _ _ hread).flags _ (Node.outline_kind_object hkind) f.outline hf'
  | made _ hmade =>
    obtain ⟨fs, hfs, hrecord⟩ := Option.bind_eq_some_iff.1 hmade
    have hkinds : (recordNode "" fs false none).kind = a.outline.kind := congrArg Node.kind (Option.some.inj hrecord)
    rw [Node.outline_kind_object hkind] at hkinds
    cases hkinds
    exact (mem_viewFields hfs (f := f.outline) hf').2

/-- Every answered question leaves nodes as they are read, and what it is answered with is accounted for. -/
theorem Query.answer_accounts (hs : s.Viewed env) (q : Query) : Ends (q.answer env) s
    (fun nodes s' => s'.Viewed env ∧ (q.AsksForNodes → ∀ n ∈ nodes, q.Accounts env n)) fun _ _ => True := by
  cases q with
  | components =>
    refine ends_bind.2 ((resolveKeys_follows env _ env.rootKeys hs).mono (fun entries s' ⟨hs', hkeys, hall⟩ => ?_)
      fun _ _ _ => trivial)
    refine ends_pure.2 ⟨hs', fun _ n hn => ?_⟩
    obtain ⟨e, he, rfl⟩ := List.mem_map.1 hn
    have hkey : e.1 ∈ env.rootKeys := hkeys ▸ List.mem_map_of_mem he
    obtain ⟨i, hi⟩ := hall e he
    obtain ⟨site, hlook, hread⟩ := Option.bind_eq_some_iff.1 (hi i (Nat.le_refl i))
    exact .of_covered ⟨e.1, hkey, hlook⟩ ((view_built env i _ _ _ hread).covered ⟨i, hread⟩)
  | inline raw hint owner =>
    refine ends_bind.2 ((build_follows env _ raw _ s hs).mono (fun n s' ⟨hs', hn⟩ => ?_) fun _ _ _ => trivial)
    refine ends_pure.2 ⟨hs', fun _ => List.forall_mem_singleton.2 ?_⟩
    have hstart : (Query.inline raw hint owner).Starts env (raw, ⟨none, false, env.presence⟩) := rfl
    exact .of_view hstart hn
  | synthesize hint members presence owner =>
    refine ends_bind.2 ((synthesizeObject_follows hint members presence owner hs).mono (fun n s' ⟨hs', hn⟩ => ?_)
      fun _ _ _ => trivial)
    obtain ⟨i, hi⟩ := hn
    exact ends_pure.2 ⟨hs', fun _ => List.forall_mem_singleton.2 (viewLoose_accounts (hi i (Nat.le_refl i)))⟩
  | declarations mark => exact ⟨hs, nofun⟩
  | allocate name => exact ⟨hs, nofun⟩
  | reserve name => exact ⟨hs, nofun⟩

end Answers

section Fulfilled

variable {env : Env} {given : List (Query × List Node)} {s : State}

theorem Fulfilled.session (h : Fulfilled env given s) : Session env s (given.flatMap (·.2)) := by
  induction h with
  | start => exact .start
  | @answered given s s' q nodes _ hrun ih =>
    rw [List.flatMap_append, List.flatMap_singleton]
    exact .answered q ih hrun
  | compiled required _ hn ih => exact .compiled _ required ih hn
  | collected _ hn ih => exact .collected _ ih hn

/-- The nodes of fulfilled questions are as they are read, and all records in answers are accounted for. -/
theorem Fulfilled.accounts (h : Fulfilled env given s) :
    s.Viewed env ∧ ∀ q nodes, (q, nodes) ∈ given → q.AsksForNodes → ∀ n ∈ nodes, q.Accounts env n := by
  induction h with
  | start => exact ⟨viewed_initial env, nofun⟩
  | answered _ hrun ih =>
    obtain ⟨hs', hnew⟩ := (Query.answer_accounts ih.1 _).of_ok hrun
    refine ⟨hs', fun q nodes hmem => ?_⟩
    rcases List.mem_append.1 hmem with hmem | hmem
    · exact ih.2 q nodes hmem
    · cases List.mem_singleton.1 hmem
      exact hnew
  | compiled _ _ _ ih => exact ih
  | collected _ _ ih => exact ih

/-- **What is stored with a field is its own**: in all records that stand in the answers to a sequence of questions, the
rules of a field are those of its type and presence, and so they are if they are compiled again through the cache. The
record has been built under a presence mode, and its fields may be left out as that mode says. -/
theorem Fulfilled.fields_stored (h : Fulfilled env given s) {q : Query} {nodes : List Node} (hq : (q, nodes) ∈ given)
    (hasks : q.AsksForNodes) {n a : Node} (hn : n ∈ nodes) (ha : a.PartOf n) {fields : List Field}
    (hkind : a.kind = .object fields) :
    (∀ f ∈ fields, f.Compiled ∧ (s.rules.fieldRules f.type f.required).1 = f.rules) ∧
    (∃ p, q.BuildsUnder env a p) ∧
    ∀ p, q.BuildsUnder env a p → ∀ f ∈ fields,
      (f.optionalPresence = true ↔ f.required = false ∨ p = .explicit) := by
  obtain ⟨ρ, hv, hsound⟩ := h.session.valid
  have hpart : a.Sound ρ := (hsound n (List.mem_flatMap.2 ⟨_, hq, hn⟩)).part ha
  have hfields : Field.AllSound ρ fields := by
    have hshape := (Node.sound_iff.1 hpart).1
    rwa [hkind, Kind.Sound] at hshape
  refine ⟨fun f hf => ?_, h.accounts.2 q nodes hq hasks n hn a fields ha hkind, fun p hp f hf => ?_⟩
  · obtain ⟨htype, hrules⟩ := Field.allSound_iff.1 hfields f hf
    refine ⟨.of_rules hrules, ?_⟩
    rw [(RuleCache.fieldRules_sound htype hv.cache f.required).1, hrules]
  · rw [hp.flags hkind f hf, optionalPresence, Bool.or_eq_true, Bool.not_eq_true', beq_iff_eq]

end Fulfilled

/-- A question about a record with a required pet and a required text, in explicit presence. -/
def petSearch : Query :=
  .synthesize "Search" [⟨"pet", some (.obj [("$ref", .str "#/components/schemas/Pet")]), true, none⟩,
    ⟨"text", none, true, none⟩] .explicit "search"

/-- The keys of the fields of a record, with what says whether they are required and whether they may be left out. -/
def Node.presences (n : Node) : List (String × Bool × Bool) :=
  n.fields.map fun f => (f.wireKey, f.required, f.optionalPresence)

theorem petSearch_answered : Ends (petSearch.answer petEnv) (.initial petEnv)
    (fun nodes _ => nodes.map Node.presences = [[("pet", true, true), ("text", true, true)]]) fun _ _ => False := by
  decide +kernel

theorem Fulfilled.fields_stored_petSearch : ∃ s n a fields, Fulfilled petEnv [(petSearch, [n])] s ∧ a.PartOf n ∧
    a.kind = .object fields ∧ fields.map (fun f => (f.wireKey, f.required, f.optionalPresence)) =
      [("pet", true, true), ("text", true, true)] ∧
    (∀ f ∈ fields, f.Compiled ∧ (s.rules.fieldRules f.type f.required).1 = f.rules) ∧
    (∃ p, petSearch.BuildsUnder petEnv a p) ∧
    ∀ p, petSearch.BuildsUnder petEnv a p → ∀ f ∈ fields,
      (f.optionalPresence = true ↔ f.required = false ∨ p = .explicit) := by
  obtain ⟨nodes, s, hrun, hpresences⟩ := petSearch_answered.exists_ok
  obtain ⟨n, rfl⟩ : ∃ n, nodes = [n] := by
    refine List.length_eq_one_iff.1 ?_
    simpa using congrArg List.length hpresences
  have hfulfilled : Fulfilled petEnv [(petSearch, [n])] s := .answered .start hrun
  have hfields : n.presences = [("pet", true, true), ("text", true, true)] := (List.cons.inj hpresences).1
  unfold Node.presences Node.fields at hfields
  split at hfields
  · rename_i fields hkind
    exact ⟨s, n, n.target, fields, hfulfilled, n.target_partOf, hkind, hfields,
      hfulfilled.fields_stored List.mem_cons_self trivial List.mem_cons_self n.target_partOf hkind⟩
  · cases hfields

end Schema

end ApiForge
