import ApiForge.Proofs.Emission.Upheld
import ApiForge.Proofs.Operation.Provenance
import ApiForge.Proofs.Schema.Declarations

/-!
# Every declared schema is emitted

The declared schemas are emitted in stages: those of the named schemas first, then those of each operation, followed by
its request, its payloads and its envelope. Type names are given out once, so no source takes the name of another. But
the names of constants are not known to the resolver: a type whose name has no small letters may find it taken.

* `Worded`: the names of requests, payloads and envelopes, which are never those of constants.
* `Assembled env done p s`: what has been reached after the operations in `done`; each operation keeps it
  (`compileOperation_assembled`), hence so does a compilation (`assemble_assembled`).
* `compile_declares`: what stands in the file of a compilation for each source.
* `compile_drops_routes`: a schema that is declared and not emitted.
-/

namespace ApiForge.Emission

open Code Schema Naming Text

/-! ## Names of requests and responses -/

/-- A name that ends in one of two words, apart from digits and other characters that are no small letters. -/
def Worded (name : String) : Prop :=
  ∃ word ∈ ["Request", "Response"], ∃ a b, name.toList = a ++ word.toList ++ b ∧ ∀ c ∈ b, isLowerAscii c = false

theorem worded_append (base : String) {word : String} (h : word ∈ ["Request", "Response"]) : Worded (base ++ word) :=
  ⟨word, h, base.toList, [], by simp, by nofun⟩

theorem Worded.number {name : String} (n : Nat) : Worded name → Worded (name ++ toString n)
  | ⟨word, hword, a, b, hname, hb⟩ => by
    refine ⟨word, hword, a, b ++ (toString n).toList, by rw [String.toList_append, hname, List.append_assoc], ?_⟩
    intro c hc
    exact (List.mem_append.1 hc).elim (hb c) not_lower_of_mem_toString

theorem Worded.fresh {name : String} (a : Allocator) (h : Worded name) : Worded (a.fresh name) := by
  rcases a.fresh_cases name with hf | ⟨n, hf⟩
  · rwa [hf]
  · rw [hf]
    exact h.number n

/-- Both words have small letters. -/
theorem Worded.not_shouting {name : String} : Worded name → ¬Shouting name
  | ⟨word, hword, a, b, hname, _⟩, h => by
    have he : 'e' ∈ word.toList := by
      simp only [List.mem_cons, List.not_mem_nil, or_false] at hword
      rcases hword with rfl | rfl <;> decide
    have := h 'e' (by rw [hname]; simp [he])
    revert this
    decide

/-! ## Taking names -/

section Names

variable {env : Env} {s : State}

theorem takeName_held (ho : Orderly env [] s) {wanted : String} (hwanted : Compound wanted) (hw : Worded wanted) :
    Ends (takeName wanted) s (fun name s' => Orderly env [] s' ∧ Adds [] none s s' [] ∧ Held [] s' name ∧
      name ∉ s.names.taken ∧ Worded name) fun _ _ => False := by
  refine Ends.mono (allocateName_held ho (.inl (hwanted.fresh s.names))) (fun name s' h => ?_) fun _ _ h => h
  obtain ⟨ho', hg, hheld, hnew, rfl⟩ := h
  exact ⟨ho', hg, hheld, hnew, hw.fresh s.names⟩

theorem takeNames_held : ∀ (names : List (Nat × String)) {s : State}, Orderly env [] s →
    (∀ p ∈ names, Compound p.2 ∧ Worded p.2) →
    Ends (takeNames names) s (fun ps s' => Orderly env [] s' ∧ Adds [] none s s' [] ∧
      ps.map (·.1) = names.map (·.1) ∧ (ps.map (·.2)).Nodup ∧
      ∀ p ∈ ps, Held [] s' p.2 ∧ p.2 ∉ s.names.taken ∧ Worded p.2) fun _ _ => False
  | [], s, ho, _ => ends_pure.2 ⟨ho, .refl, rfl, List.nodup_nil, by nofun⟩
  | (status, wanted) :: rest, s, ho, h => by
    obtain ⟨⟨hcompound, hworded⟩, hrest⟩ := List.forall_mem_cons.1 h
    refine (takeName_held ho hcompound hworded).bind fun name s₁ ⟨ho₁, hg₁, hheld, hnew, hw⟩ => ?_
    refine (takeNames_held rest ho₁ hrest).bind fun ps s₂ ⟨ho₂, hg₂, hstatuses, hnodup, hps⟩ => ends_pure.2 ?_
    refine ⟨ho₂, hg₁.andThen hg₂, congrArg (status :: ·) hstatuses, ?_, ?_⟩
    · refine List.nodup_cons.2 ⟨fun hmem => ?_, hnodup⟩
      obtain ⟨p, hp, rfl⟩ := List.mem_map.1 hmem
      exact (hps p hp).2.1 hheld.taken
    · refine List.forall_mem_cons.2 ⟨⟨hheld.after hg₂, hnew, hw⟩, fun p hp => ?_⟩
      exact ⟨(hps p hp).1, fun ht => (hps p hp).2.1 (hg₁.taken ht), (hps p hp).2.2⟩

/-- An operation with the names of its response types and of its request. -/
abbrev Named := Operation × ResponseModel × String

/-- The sources of an operation. -/
def operationSources : Named → List Source
  | (op, m, request) => .request request op :: responseSources op m

/-- The names that were taken for an operation: that of its request, of its envelope and of its payloads. -/
def operationNames : Named → List String
  | (_, m, request) => request :: m.envelope :: m.payloads.map (·.2)

/-- If every status has a payload, the response types have the names that were taken for them. -/
theorem responseSources_names {op : Operation} {m : ResponseModel} (h : m.payloads.map (·.1) = op.statuses) :
    (responseSources op m).map Source.name = m.envelope :: m.payloads.map (·.2) := by
  have hle : (m.payloads.map (·.2)).length ≤ op.responses.length := by
    have hlength := congrArg List.length h
    rw [List.length_map, Operation.statuses, List.length_map] at hlength
    rw [List.length_map, hlength]
  rw [responseSources, List.map_cons, List.map_map]
  exact congrArg (m.envelope :: ·) (List.map_snd_zip hle)

end Names

section Names

variable {env : Env} {s : State}

/-- Taking the names of the response types of an operation. -/
theorem takeResponseNames_held (ho : Orderly env [] s) (op : Operation) :
    Ends (takeResponseNames op) s (fun m s' => Orderly env [] s' ∧ Adds [] none s s' [] ∧
      m.payloads.map (·.1) = op.statuses ∧ ((responseSources op m).map Source.name).Nodup ∧
      ∀ x ∈ responseSources op m, Held [] s' x.name ∧ x.name ∉ s.names.taken ∧ Worded x.name) fun _ _ => False := by
  have hbase : Compound (pascalCase op.operationId ++ "Response") :=
    (capital_pascalCase op.operationId).append ⟨'R', "esponse".toList, by decide, by decide⟩
  have hworded : Worded (pascalCase op.operationId ++ "Response") := worded_append _ (by decide)
  refine (takeName_held ho hbase hworded).bind fun envelope s₁ ⟨ho₁, hg₁, hheld, hnew, hw⟩ => ?_
  have hwanted : ∀ p ∈ (responseNames op).2, Compound p.2 ∧ Worded p.2 := by
    intro p hp
    obtain ⟨status, -, rfl⟩ := List.mem_map.1 hp
    exact ⟨hbase.append _, hworded.number status⟩
  refine (takeNames_held _ ho₁ hwanted).bind fun payloads s₂ ⟨ho₂, hg₂, hsame, hnodup, hpayloads⟩ => ends_pure.2 ?_
  have hstatuses : payloads.map (·.1) = op.statuses := by
    rw [hsame]
    simp [responseNames, Function.comp_def]
  have hsources : ∀ x ∈ (op.responses.zip (payloads.map (·.2))).map (fun p => Source.payload p.2 p.1),
      ∃ p ∈ payloads, p.2 = x.name := by
    intro x hx
    obtain ⟨⟨v, name⟩, hzip, rfl⟩ := List.mem_map.1 hx
    obtain ⟨p, hp, hname⟩ := List.mem_map.1 (List.of_mem_zip hzip).2
    exact ⟨p, hp, hname⟩
  refine ⟨ho₂, hg₁.andThen hg₂, hstatuses, ?_,
    List.forall_mem_cons.2 ⟨⟨hheld.after hg₂, hnew, hw⟩, fun x hx => ?_⟩⟩
  · rw [responseSources_names hstatuses]
    refine List.nodup_cons.2 ⟨fun hmem => ?_, hnodup⟩
    obtain ⟨p, hp, hname⟩ := List.mem_map.1 hmem
    exact (hpayloads p hp).2.1 (hname ▸ hheld.taken)
  · obtain ⟨p, hp, hname⟩ := hsources x hx
    rw [← hname]
    exact ⟨(hpayloads p hp).1, fun ht => (hpayloads p hp).2.1 (hg₁.taken ht), (hpayloads p hp).2.2⟩

/-- Taking the names of an operation: its sources get names of their own. -/
theorem takeOperationNames_held {α : Type} (ho : Orderly env [] s) (op : Operation)
    (f : String → ResponseModel → α) :
    Ends (do
      let request ← takeName (requestName op)
      let m ← takeResponseNames op
      return f request m) s
      (fun a s' => ∃ request m, a = f request m ∧ Orderly env [] s' ∧ Adds [] none s s' [] ∧
        m.payloads.map (·.1) = op.statuses ∧ ((operationSources (op, m, request)).map Source.name).Nodup ∧
        ∀ x ∈ operationSources (op, m, request), Held [] s' x.name ∧ x.name ∉ s.names.taken ∧ Worded x.name)
      fun _ _ => False := by
  have hcompound : Compound (requestName op) :=
    (capital_pascalCase op.operationId).append ⟨'R', "equest".toList, by decide, by decide⟩
  have hworded : Worded (requestName op) := worded_append _ (by decide)
  refine (takeName_held ho hcompound hworded).bind fun request s₁ ⟨ho₁, hg₁, hheld, hnew, hw⟩ => ?_
  refine (takeResponseNames_held ho₁ op).bind fun m s₂ ⟨ho₂, hg₂, hstatuses, hnodup, hsources⟩ => ends_pure.2 ?_
  refine ⟨request, m, rfl, ho₂, hg₁.andThen hg₂, hstatuses, List.nodup_cons.2 ⟨fun hmem => ?_, hnodup⟩,
    List.forall_mem_cons.2 ⟨⟨hheld.after hg₂, hnew, hw⟩, fun x hx => ?_⟩⟩
  · obtain ⟨x, hx, hname⟩ := List.mem_map.1 hmem
    exact (hsources x hx).2.1 (hname ▸ hheld.taken)
  · exact ⟨(hsources x hx).1, fun ht => (hsources x hx).2.1 (hg₁.taken ht), (hsources x hx).2.2⟩

end Names

/-! ## Operations one after another -/

open Compilation

/-- A constant is that of the base path, that of the routes, or one for a pattern that occurs in one of the sources. -/
def Cited (xs : List Source) : Declaration → Prop
  | .const k => k.name = "BASE_PATH" ∨ k.name = "ROUTES" ∨ ∃ x ∈ xs, ForPattern x.name x.sites k
  | .type _ | .impl _ | .func _ => True

theorem Cited.mono {xs ys : List Source} {d : Declaration} (h : Cited xs d) (hsub : xs ⊆ ys) : Cited ys d := by
  cases d with
  | type | impl | func => trivial
  | const k =>
    rcases h with h | h | ⟨x, hx, h⟩
    · exact .inl h
    · exact .inr (.inl h)
    · exact .inr (.inr ⟨x, hsub hx, h⟩)

theorem cited_of_mem {xs : List Source} {x : Source} (hx : x ∈ xs) {k : Constant} (hk : ForPattern x.name x.sites k) :
    Cited xs (.const k) := .inr (.inr ⟨x, hx, hk⟩)

/-- What has been reached after some operations: the output holds the declared schemas and the sources of these
operations, under names that are given out for nothing else, its constants are cited, and the schemas that were resolved
speak of declarations only. -/
structure Assembled (env : Env) (done : List Named) (p : Progress) (s : State) : Prop where
  orderly : Orderly env [] s
  operations : p.operations = done.map (·.1)
  responses : p.responses = done.map (·.2.1)
  statuses : ∀ e ∈ done, e.2.1.payloads.map (·.1) = e.1.statuses
  components : ∃ entries s₀, (resolveComponents env).run (State.initial env) = .ok entries s₀ ∧
    ∀ e ∈ entries, e.2.Within (s.declarationsSince 0)
  within : ∀ e ∈ done, ∀ n ∈ e.1.nodes, n.Within (s.declarationsSince 0)
  distinct : ((done.flatMap operationSources).map Source.name).Nodup
  held : ∀ x ∈ done.flatMap operationSources, Held [] s x.name ∧ Worded x.name
  output : p.output.Holds env.presence ((s.declarationsSince 0).map .node ++ done.flatMap operationSources)
  cited : ∀ e ∈ p.output.declarations, Cited ((s.declarationsSince 0).map .node ++ done.flatMap operationSources) e

section Operations

variable {env : Env} {s : State} {p : Progress} {done : List Named}

theorem flatMap_operationSources_concat (done : List Named) (e : Named) :
    (done ++ [e]).flatMap operationSources = done.flatMap operationSources ++ operationSources e := by
  simp

/-- The sources of the file after one more operation: those before it, the schemas that it declares, and its own. -/
theorem sources_after {s₁ s₂ : State} {new : List Node} (hg₁ : Adds [] none s s₁ new) (hg₂ : Adds [] none s₁ s₂ [])
    (done : List Named) (e : Named) :
    (s₂.declarationsSince 0).map Source.node ++ (done ++ [e]).flatMap operationSources =
      (s.declarationsSince 0).map .node ++ (s₁.declarationsSince s.declared.size).map .node ++
        (done.flatMap operationSources ++ operationSources e) := by
  obtain ⟨hall, hnew⟩ := hg₁.declarations
  rw [flatMap_operationSources_concat, hg₂.declarations.1, hall, hnew, List.append_nil, List.map_append]

/-- The sources of one more operation have names of their own if these were not in use. -/
theorem Assembled.distinct_after (h : Assembled env done p s) {s₁ : State} {new : List Node}
    (hg : Adds [] none s s₁ new) {e : Named} (hnodup : ((operationSources e).map Source.name).Nodup)
    (hfree : ∀ x ∈ operationSources e, x.name ∉ s₁.names.taken) :
    (((done ++ [e]).flatMap operationSources).map Source.name).Nodup := by
  rw [flatMap_operationSources_concat, List.map_append]
  refine List.nodup_append.2 ⟨h.distinct, hnodup, fun a ha b hb hab => ?_⟩
  obtain ⟨x, hx, rfl⟩ := List.mem_map.1 ha
  obtain ⟨y, hy, rfl⟩ := List.mem_map.1 hb
  exact hfree y hy (hab ▸ hg.taken (h.held x hx).1.taken)

/-- Emitting one more operation: the output holds its sources as well, and what they say is cited. -/
theorem Assembled.emitted (h : Assembled env done p s) (root : String) (nodes : List Node) (e : Named) :
    let output := ((do
      emitNodes root nodes
      emitRequest root e.2.2 env.presence e.1
      emitResponses root e.1 e.2.1 : Emit Unit).run p.output).2
    let sources := (s.declarationsSince 0).map .node ++ nodes.map .node ++
      (done.flatMap operationSources ++ operationSources e)
    output.Holds env.presence sources ∧ ∀ d ∈ output.declarations, Cited sources d := by
  obtain ⟨op, m, request⟩ := e
  intro output sources
  constructor
  · have htells : Tells env.presence ((s.declarationsSince 0).map .node ++ done.flatMap operationSources) (do
        emitNodes root nodes
        emitRequest root request env.presence op
        emitResponses root op m) _ :=
      (emitNodes_tells root _).bind fun _ => (emitRequest_tells root request op).bind fun _ =>
        emitResponses_tells root op m
    refine (htells p.output h.output).congr fun x => ?_
    simp only [sources, operationSources, List.mem_append, List.mem_cons]
    tauto
  · refine (emitOperation_upholds root env.presence (fun n hn k hk => ?_) (fun k hk => ?_) (fun _ => trivial)
      fun _ _ => trivial).forall_mem fun d hd => (h.cited d hd).mono fun x hx => ?_
    · exact cited_of_mem (x := .node n) (by simp [sources, hn]) hk
    · exact cited_of_mem (x := .request request op) (by simp [sources, operationSources]) hk
    · rcases List.mem_append.1 hx with hx | hx
      · exact List.mem_append_left _ (List.mem_append_left _ hx)
      · exact List.mem_append_right _ (List.mem_append_left _ hx)

/-- One more operation. -/
theorem compileOperation_assembled (h : Assembled env done p s) (root : String) (raw : RawOperation) :
    Ends (compileOperation env root p raw) s (fun p' s' => ∃ e, Assembled env (done ++ [e]) p' s') fun _ _ => True := by
  refine ends_bind.2 (ends_get.2 (ends_bind.2 (Ends.mono (raw.resolve_declares h.orderly) ?_ fun _ _ h => h)))
  intro op s₁ ⟨new, ho₁, hg₁, hnodes⟩
  refine ends_bind.2 (ends_get.2 (Ends.mono (takeOperationNames_held ho₁ op _) ?_ fun _ _ h => h.elim))
  rintro p' s₂ ⟨request, m, rfl, ho₂, hg₂, hstatuses, hnodup, hsources⟩
  have hkept : Adds [] none s s₂ (new ++ []) := hg₁.andThen hg₂
  have hcomponents : ∃ entries s₀, (resolveComponents env).run (State.initial env) = .ok entries s₀ ∧
      ∀ e ∈ entries, e.2.Within (s₂.declarationsSince 0) := by
    obtain ⟨entries, s₀, hrun, hentries⟩ := h.components
    exact ⟨entries, s₀, hrun, fun e he => hkept.within (hentries e he)⟩
  have hdistinct := h.distinct_after hg₁ hnodup fun x hx => (hsources x hx).2.1
  obtain ⟨houtput, hcited⟩ := h.emitted root (s₁.declarationsSince s.declared.size) (op, m, request)
  rw [← sources_after hg₁ hg₂] at houtput hcited
  refine ⟨(op, m, request), ho₂, by simp [h.operations], by simp [h.responses], ?_, hcomponents, ?_, hdistinct, ?_,
    houtput, hcited⟩
  · intro e he
    rcases List.mem_append.1 he with he | he
    · exact h.statuses e he
    · rw [List.mem_singleton.1 he]
      exact hstatuses
  · intro e he n hn
    rcases List.mem_append.1 he with he | he
    · exact hkept.within (h.within e he n hn)
    · rw [List.mem_singleton.1 he] at hn
      exact hg₂.within (hnodes n hn)
  · rw [flatMap_operationSources_concat]
    intro x hx
    rcases List.mem_append.1 hx with hx | hx
    · exact ⟨(h.held x hx).1.after hkept, (h.held x hx).2⟩
    · exact ⟨(hsources x hx).1, (hsources x hx).2.2⟩

theorem compileOperations_assembled (root : String) : ∀ (raws : List RawOperation) {p : Progress} {s : State}
    {done : List Named}, Assembled env done p s →
    Ends (compileOperations env root raws p) s (fun p' s' => ∃ done', Assembled env done' p' s') fun _ _ => True
  | [], _, _, _, h => ends_pure.2 ⟨_, h⟩
  | raw :: raws, _, _, _, h => (compileOperation_assembled h root raw).bind fun _ _ ⟨_, h₁⟩ =>
    compileOperations_assembled root raws h₁

/-- **Assembling a file** keeps what has been reached, from the start to the end. -/
theorem assemble_assembled (root : String) (raws : List RawOperation) :
    Ends (assemble env root raws) (State.initial env) (fun p s => ∃ done, Assembled env done p s) fun _ _ => True := by
  have hresolve : Ends (resolveComponents env) (State.initial env) (fun entries s =>
      (resolveComponents env).run (State.initial env) = .ok entries s ∧ Orderly env [] s ∧
        ∀ e ∈ entries, e.2.Within (s.declarationsSince 0)) fun _ _ => True := by
    refine ((Ends.self _ _).and (resolveKeys_declares (build_declares env _) env.rootKeys (orderly_initial env))).mono
      (fun entries s ⟨hrun, new, ho, hg, hentries⟩ => ⟨hrun, ho, fun e he => ?_⟩) fun _ _ _ => trivial
    exact hentries e.2 (List.mem_map.2 ⟨e, he, rfl⟩)
  refine ends_bind.2 (Ends.mono hresolve ?_ fun _ _ h => h)
  intro entries s ⟨hrun, ho, hentries⟩
  let start : Emit Unit := do
    declare (.const (basePathConst env.description))
    declare (.const (routesConst raws))
    emitNodes root (s.declarationsSince 0)
  have htells : Tells env.presence [] start ((s.declarationsSince 0).map .node ++ []) :=
    (declareConst_tells (by decide : Shouting "BASE_PATH")).bind fun _ =>
      (declareConst_tells (by decide : Shouting "ROUTES")).bind fun _ => emitNodes_tells root _
  have hempty : Output.Holds env.presence [] { builder := { name := env.description.slug } } :=
    ⟨List.nodup_nil, fun _ h => absurd h List.not_mem_nil, fun _ h => absurd h List.not_mem_nil⟩
  have hupholds : Upholds (Cited ((s.declarationsSince 0).map .node ++ [])) start := by
    refine (declare_upholds (.inl rfl)).bind fun _ => (declare_upholds (.inr (.inl rfl))).bind fun _ => ?_
    refine emitNodes_upholds root _ (fun n hn k hk => ?_) fun _ _ _ => trivial
    exact cited_of_mem (x := .node n) (by simp [hn]) hk
  have hstart : Assembled env [] ⟨(start.run { builder := { name := env.description.slug } }).2, [], []⟩ s :=
    ⟨ho, rfl, rfl, fun _ h => absurd h List.not_mem_nil, ⟨entries, s, hrun, hentries⟩,
      fun _ h => absurd h List.not_mem_nil, List.nodup_nil, fun _ h => absurd h List.not_mem_nil, htells _ hempty,
      hupholds.forall_mem nofun⟩
  exact ends_bind.2 (ends_get.2 (compileOperations_assembled root raws hstart))

/-- All sources have different names. -/
theorem Assembled.sources_nodup (h : Assembled env done p s) :
    (((s.declarationsSince 0).map Source.node ++ done.flatMap operationSources).map Source.name).Nodup := by
  have hnodes : ((s.declarationsSince 0).map Source.node).map Source.name = s.declaredNames := by
    rw [List.map_map]
    rfl
  rw [List.map_append, hnodes]
  refine List.nodup_append.2 ⟨h.orderly.distinct, h.distinct, fun a ha b hb hab => ?_⟩
  obtain ⟨x, hx, rfl⟩ := List.mem_map.1 hb
  exact (h.held x hx).1.free (hab ▸ ha)

/-- The names of the declared schemas and all names that were taken for operations are different. -/
theorem Assembled.names_nodup (h : Assembled env done p s) :
    (s.declaredNames ++ done.flatMap operationNames).Nodup := by
  have hnodes : ((s.declarationsSince 0).map Source.node).map Source.name = s.declaredNames := by
    rw [List.map_map]
    rfl
  have htaken : (done.flatMap operationSources).map Source.name = done.flatMap operationNames := by
    rw [List.map_flatMap]
    refine List.flatMap_congr fun ⟨op, m, request⟩ he => ?_
    rw [operationSources, List.map_cons, responseSources_names (h.statuses _ he)]
    rfl
  have hsources := h.sources_nodup
  rwa [List.map_append, hnodes, htaken] at hsources

/-- The type of a request, a payload or an envelope is in the output, and nothing else under its name. -/
theorem Assembled.exists_type (h : Assembled env done p s) {x : Source} (hx : x ∈ done.flatMap operationSources) :
    ∃ t, p.output.declarations.filter (fun e => e.name? == some x.name) = [.type t] ∧ x.Builds env.presence t := by
  obtain ⟨e, he, hcases⟩ := h.output.exists_declaration h.sources_nodup (List.mem_append_right _ hx)
  rw [he]
  rcases hcases with ⟨t, rfl, hbuilds⟩ | ⟨-, hshouting⟩
  · exact ⟨t, rfl, hbuilds⟩
  · exact absurd hshouting (h.held x hx).2.not_shouting

/-- The declaration of a schema is in the output, and nothing else under its name. -/
theorem Assembled.exists_node (h : Assembled env done p s) {n : Node} (hn : n ∈ s.declarationsSince 0) :
    ∃ e, p.output.declarations.filter (fun e => e.name? == some n.name) = [e] ∧
      ((∃ o, e = .type (nodeDecl n o)) ∨ (∃ k, e = .const k) ∧ Shouting n.name) := by
  obtain ⟨e, he, hcases⟩ := h.output.exists_declaration h.sources_nodup
    (List.mem_append_left _ (List.mem_map.2 ⟨n, hn, rfl⟩))
  refine ⟨e, he, ?_⟩
  rcases hcases with ⟨t, rfl, o, rfl⟩ | hconst
  · exact .inl ⟨o, rfl⟩
  · exact .inr hconst

end Operations

/-! ## Compilations -/

/-- A run of the resolver and the emitter that gives a compilation. -/
structure Run (config : Config) (d : Description) (c : Compilation) (s : State) (done : List Named) : Prop where
  exists_run : ∃ raws notes p, (operationsOf d).run [] = .ok raws notes ∧
    (assemble ⟨d, config.presence⟩ config.importRoot raws).run (State.initial ⟨d, config.presence⟩) = .ok p s ∧
    c.file = p.output.builder.finish
  operations : c.operations = done.map (·.1)
  responses : c.responses = done.map (·.2.1)

section Compile

variable {config : Config} {d : Description} {c : Compilation}

/-- A compilation comes from a run of the resolver and the emitter. -/
theorem compile_run (h : compile config d = .ok c) : ∃ raws notes p s, (operationsOf d).run [] = .ok raws notes ∧
    (assemble ⟨d, config.presence⟩ config.importRoot raws).run (State.initial ⟨d, config.presence⟩) = .ok p s ∧
    c.file = p.output.builder.finish ∧ c.operations = p.operations ∧ c.responses = p.responses := by
  unfold compile at h
  cases hops : (operationsOf d).run [] with
  | error e notes => rw [hops] at h; cases h
  | ok raws notes =>
    rw [hops] at h
    dsimp only at h
    cases hrun : (assemble ⟨d, config.presence⟩ config.importRoot raws).run
        (State.initial ⟨d, config.presence⟩) with
    | error e s => rw [hrun] at h; cases h
    | ok p s =>
      rw [hrun] at h
      cases h
      exact ⟨raws, notes, p, s, rfl, hrun, rfl, rfl, rfl⟩

/-- What has been reached at the end of a compilation. -/
theorem compile_assembled (h : compile config d = .ok c) : ∃ s done p, Run config d c s done ∧
    c.file.declarations = p.output.declarations ∧ Assembled ⟨d, config.presence⟩ done p s := by
  obtain ⟨raws, notes, p, s, hops, hrun, hfile, hoperations, hresponses⟩ := compile_run h
  obtain ⟨done, hdone⟩ := (assemble_assembled config.importRoot raws).of_ok hrun
  exact ⟨s, done, p, ⟨⟨raws, notes, p, hops, hrun, hfile⟩, hoperations.trans hdone.operations,
    hresponses.trans hdone.responses⟩, congrArg File.declarations hfile, hdone⟩

/-- **Every source is declared once.** The declared schemas of a compilation and the requests, payloads and envelopes of
its operations have different names, and the file has exactly one declaration under the name of each. For a request, a
payload or an envelope it is the type that is built from it. For a schema it is the type that is built from the schema
or a constant, and a constant only if the name of the schema has no small letters. -/
theorem compile_declares (h : compile config d = .ok c) : ∃ s done, Run config d c s done ∧
    (((s.declarationsSince 0).map Source.node ++ done.flatMap operationSources).map Source.name).Nodup ∧
    (∀ x ∈ done.flatMap operationSources, ∃ t,
      c.file.declarations.filter (fun e => e.name? == some x.name) = [.type t] ∧ x.Builds config.presence t) ∧
    ∀ n ∈ s.declarationsSince 0, ∃ e, c.file.declarations.filter (fun e => e.name? == some n.name) = [e] ∧
      ((∃ o, e = .type (nodeDecl n o)) ∨ (∃ k, e = .const k) ∧ Shouting n.name) := by
  obtain ⟨s, done, p, hrun, hfile, hdone⟩ := compile_assembled h
  refine ⟨s, done, hrun, hdone.sources_nodup, fun x hx => ?_, fun n hn => ?_⟩
  · rw [hfile]
    exact hdone.exists_type hx
  · rw [hfile]
    exact hdone.exists_node hn

end Compile

/-! ## Descriptions with one schema -/

/-- A description with one named schema, a record without fields. -/
def recordDescription (key : String) : Description :=
  let record : Json := .obj [("type", .str "object")]
  ⟨"", "", "", "", .obj [("components", .obj [("schemas", .obj [(key, record)])])], []⟩

/-- The names of the types in a file. -/
def typeNames (f : File) : List String :=
  f.declarations.filterMap fun
    | .type t => some t.name
    | _ => none

theorem mem_typeNames {f : File} {name : String} :
    name ∈ typeNames f ↔ ∃ t, .type t ∈ f.declarations ∧ t.name = name := by
  refine List.mem_filterMap.trans ⟨?_, fun ⟨t, ht, hname⟩ => ⟨.type t, ht, congrArg some hname⟩⟩
  rintro ⟨e, he, hname⟩
  cases e with
  | type t => exact ⟨t, he, Option.some.inj hname⟩
  | const | impl | func => cases hname

/-- What the resolver has declared at the end, given how the run of such a description ends. -/
theorem Run.declaredNames {key : String} {c : Compilation} {s : State} {done : List Named} {names : List String}
    (hrun : Run {} (recordDescription key) c s done)
    (h : Ends (assemble ⟨recordDescription key, .standard⟩ "brrtgen" [])
      (State.initial ⟨recordDescription key, .standard⟩) (fun _ s => s.declaredNames = names) fun _ _ => False) :
    s.declaredNames = names := by
  obtain ⟨raws, notes, p, hops, hassemble, -⟩ := hrun.exists_run
  have hnone : (operationsOf (recordDescription key)).run [] = .ok [] [] := rfl
  rw [hnone] at hops
  cases hops
  exact h.of_ok hassemble

theorem compile_pet : (compile {} (recordDescription "Pet")).toOption.map (typeNames ·.file) = some ["Pet"] ∧
    Ends (assemble ⟨recordDescription "Pet", .standard⟩ "brrtgen" [])
      (State.initial ⟨recordDescription "Pet", .standard⟩) (fun _ s => s.declaredNames = ["Pet"]) fun _ _ => False := by
  decide +kernel

theorem compile_declares_pet : ∃ c s done n o, compile {} (recordDescription "Pet") = .ok c ∧
    Run {} (recordDescription "Pet") c s done ∧ s.declarationsSince 0 = [n] ∧ n.name = "Pet" ∧
    c.file.declarations.filter (fun e => e.name? == some "Pet") = [.type (nodeDecl n o)] := by
  obtain ⟨c, hc, -⟩ := exists_compiled compile_pet.1
  obtain ⟨s, done, hrun, -, -, hnodes⟩ := compile_declares hc
  obtain ⟨n, hn, hname⟩ := List.map_eq_singleton_iff.1 (hrun.declaredNames compile_pet.2)
  obtain ⟨e, he, hcases⟩ := hnodes n (hn ▸ List.mem_cons_self)
  rw [hname] at he hcases
  rcases hcases with ⟨o, rfl⟩ | ⟨-, hshouting⟩
  · exact ⟨c, s, done, n, o, hc, hrun, hn, hname, he⟩
  · exact absurd hshouting (by decide)

theorem compile_routes : (compile {} (recordDescription "ROUTES")).toOption.map (typeNames ·.file) = some [] ∧
    Ends (assemble ⟨recordDescription "ROUTES", .standard⟩ "brrtgen" [])
      (State.initial ⟨recordDescription "ROUTES", .standard⟩) (fun _ s => s.declaredNames = ["ROUTES"])
      fun _ _ => False := by
  decide +kernel

/-- A declared schema that has the name of the constant with the routes is not emitted. -/
theorem compile_drops_routes : ∃ c s done n, compile {} (recordDescription "ROUTES") = .ok c ∧
    Run {} (recordDescription "ROUTES") c s done ∧ n ∈ s.declarationsSince 0 ∧
    ∀ t, .type t ∈ c.file.declarations → t.name ≠ n.name := by
  obtain ⟨c, hc, htypes⟩ := exists_compiled compile_routes.1
  obtain ⟨s, done, p, hrun, -, -⟩ := compile_assembled hc
  obtain ⟨n, hn, -⟩ := List.map_eq_singleton_iff.1 (hrun.declaredNames compile_routes.2)
  refine ⟨c, s, done, n, hc, hrun, hn ▸ List.mem_cons_self, fun t ht => ?_⟩
  have hmem := mem_typeNames.2 ⟨t, ht, rfl⟩
  rw [htypes] at hmem
  cases hmem

end ApiForge.Emission
