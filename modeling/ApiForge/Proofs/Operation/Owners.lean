import ApiForge.Compilation
import ApiForge.Proofs.Emission.Envelope
import ApiForge.Proofs.Operation.Faults
import ApiForge.Proofs.Schema.Faults

/-!
# What compile errors name

An error of a compilation names a path, a declared operation or a named schema, which exists, and what it says is wrong
is found there. The exception are reusable parts that refer to one another in a loop: they are reported under the name
of a part as if it were a schema.

* `RawOperation.resolve_failsOnly`: an operation fails for something that belongs to it, or for named schemas.
* `compile_refused`: a compilation fails while operations are collected, while they are resolved, or for named schemas.
* `compile_error_owner`: what the error names.
-/

namespace ApiForge

open Json Schema Emission

/-! ## Resolving operations -/

namespace RawOperation

variable {env : Env} {fail : CompileError → Prop} {d : Description} {o : Declared} {op : RawOperation}
  {owner base : String}
  (hnamed : ∀ {e}, NamedFault env e → fail e)
  (hfault : ∀ {v e}, o.Holds d v → Schema.Fault env none owner v e → fail e)
include hnamed hfault

theorem synthesizeObject_held_failsOnly {members : List Member} (h : ∀ m ∈ members, Extract.HoldsValue d o m.schema)
    (hint : String) (presence : Presence) : FailsOnly fail (synthesizeObject env hint members presence owner) :=
  synthesizeObject_failsOnly hnamed (fun m hm schema hschema _ _ hinside hv =>
    hfault (.inside (h m hm schema hschema) hinside) hv) hint presence

theorem resolveInline_held_failsOnly {raw : Json} (h : o.Holds d raw) (hint : String) :
    FailsOnly fail (resolveInline env raw hint owner) :=
  resolveInline_failsOnly hnamed (fun hinside hv => hfault (.inside h hinside) hv) hint

theorem resolvePart_failsOnly (h : Extract.HoldsOperation d o op) (location : Location) :
    FailsOnly fail (op.resolvePart env base owner location) := by
  unfold resolvePart
  dsimp only
  split
  · exact .pure _
  · refine (synthesizeObject_held_failsOnly hnamed hfault (fun m hm => ?_) _ _).bind fun _ => .pure _
    obtain ⟨p, hp, rfl⟩ := List.mem_map.1 hm
    exact h.parameters p (List.mem_filter.1 hp).1

theorem resolveBody_failsOnly {body : Option RawBody} (h : ∀ b ∈ body, Extract.HoldsValue d o b.schema) :
    FailsOnly fail (resolveBody env base owner body) := by
  cases body with
  | none => exact .pure _
  | some b =>
    have hnode : FailsOnly fail (resolveInline env (b.schema.getD (.obj [])) (base ++ "Body") owner) := by
      cases hschema : b.schema with
      | none => exact build_plain_failsOnly (.inr rfl) _ _
      | some schema => exact resolveInline_held_failsOnly hnamed hfault (h b rfl schema hschema) _
    exact hnode.bind fun node => (rulesOf_silent node _).failsOnly.bind fun _ => .pure _

theorem resolveResponse_failsOnly {r : RawResponse} (h : Extract.HoldsResponse d o r) :
    FailsOnly fail (resolveResponse env base owner r) := by
  have hbody : FailsOnly fail (resolvePayload env base owner r) := by
    unfold resolvePayload
    split
    · exact .pure _
    · rename_i schema hschema
      exact (resolveInline_held_failsOnly hnamed hfault (h.1 schema hschema) _).map
  have hheaders : FailsOnly fail (resolveHeaders env base owner r) := by
    unfold resolveHeaders
    split
    · exact .pure _
    · refine (synthesizeObject_held_failsOnly hnamed hfault (fun m hm => ?_) _ _).map
      obtain ⟨header, hheader, rfl⟩ := List.mem_map.1 hm
      exact h.2 header hheader
  exact hbody.bind fun _ => hheaders.bind fun _ => .pure _

theorem resolveResponses_failsOnly : ∀ {rs : List RawResponse}, (∀ r ∈ rs, Extract.HoldsResponse d o r) →
    FailsOnly fail (resolveResponses env base owner rs)
  | [], _ => .pure _
  | r :: rs, h => by
    obtain ⟨hr, hrs⟩ := List.forall_mem_cons.1 h
    refine (resolveResponse_failsOnly hnamed hfault hr).bind fun v => ?_
    exact (resolveResponses_failsOnly hrs).bind fun _ => .pure _

omit hfault in
/-- An operation fails for something that belongs to it, under its own name, or for named schemas. -/
theorem resolve_failsOnly (h : Extract.Drawn d o op)
    (hfault : ∀ {v e}, o.Holds d v → Schema.Fault env none o.owner v e → fail e) :
    FailsOnly fail (op.resolve env) := by
  have howner : "operation:" ++ op.operationId = o.owner := by rw [h.operationId, Declared.owner]
  unfold resolve
  rw [howner]
  have hpart (location : Location) :
      FailsOnly fail (op.resolvePart env (Naming.pascalCase op.operationId) o.owner location) :=
    resolvePart_failsOnly hnamed hfault h.holds location
  refine (hpart .path).bind fun path => (hpart .query).bind fun query => (hpart .header).bind fun headers => ?_
  refine (hpart .cookie).bind fun cookies => (resolveBody_failsOnly hnamed hfault h.holds.body).bind fun body => ?_
  exact (resolveResponses_failsOnly hnamed hfault h.holds.responses).bind fun responses => .pure _

end RawOperation

/-! ## Compilations -/

namespace Compilation

/-- Why a description cannot be compiled. -/
inductive Refused (env : Env) : CompileError → Prop where
  | collecting {e : CompileError} : Extract.Refused env.description e → Refused env e
  | resolving {o : Declared} {v : Json} {e : CompileError} : o ∈ env.description.declared →
      o.Holds env.description v → Schema.Fault env none o.owner v e → Refused env e
  | named {e : CompileError} : NamedFault env e → Refused env e

variable {env : Env}

theorem compileOperation_failsOnly {o : Declared} (ho : o ∈ env.description.declared) {raw : RawOperation}
    (h : Extract.Drawn env.description o raw) (root : String) (p : Progress) :
    FailsOnly (Refused env) (compileOperation env root p raw) := by
  refine FailsOnly.get.bind fun s => (raw.resolve_failsOnly .named h (.resolving ho)).bind fun op => ?_
  refine FailsOnly.get.bind fun s' => (allocateName_silent _).failsOnly.bind fun name => ?_
  have hnames : FailsOnly (Refused env) (takeResponseNames op) :=
    fun s => (takeResponseNames_names op s).mono (fun _ _ _ => trivial) fun _ _ h => h.elim
  exact hnames.bind fun model => .pure _

theorem compileOperations_failsOnly (root : String) : ∀ {declared : List Declared} {raws : List RawOperation}
    (p : Progress), declared ⊆ env.description.declared → List.Forall₂ (Extract.Drawn env.description) declared raws →
      FailsOnly (Refused env) (compileOperations env root raws p)
  | [], [], _, _, _ => .pure _
  | o :: declared, raw :: raws, p, hsub, h => by
    obtain ⟨ho, hrest⟩ := List.cons_subset.1 hsub
    cases h with
    | cons hraw hraws =>
      exact (compileOperation_failsOnly ho hraw root p).bind fun p' => compileOperations_failsOnly root p' hrest hraws

theorem assemble_failsOnly (root : String) {raws : List RawOperation}
    (h : List.Forall₂ (Extract.Drawn env.description) env.description.declared raws) :
    FailsOnly (Refused env) (assemble env root raws) := by
  refine (resolveComponents_failsOnly.mono fun _ => .named).bind fun _ => FailsOnly.get.bind fun s => ?_
  exact compileOperations_failsOnly root _ (List.Subset.refl _) h

end Compilation

open Compilation in
theorem compile_refused {config : Config} {d : Description} {e : CompileError} (h : compile config d = .error e) :
    Refused ⟨d, config.presence⟩ e := by
  unfold compile at h
  cases hops : (operationsOf d).run [] with
  | error e' notes =>
    rw [hops] at h
    cases h
    exact .collecting ((operationsOf_drawn d []).of_error hops)
  | ok raws notes =>
    rw [hops] at h
    have hdrawn := (operationsOf_drawn d []).of_ok hops
    have hfails : FailsOnly (Refused ⟨d, config.presence⟩) (assemble ⟨d, config.presence⟩ config.importRoot raws) :=
      assemble_failsOnly config.importRoot hdrawn
    dsimp only at h
    cases hrun : (assemble ⟨d, config.presence⟩ config.importRoot raws).run (State.initial ⟨d, config.presence⟩) with
    | error e' s =>
      rw [hrun] at h
      cases h
      exact (hfails _).of_error hrun
    | ok p s => rw [hrun] at h; cases h

/-- An error about named schemas names one that exists, by its name alone or with its document. -/
theorem Schema.NamedFault.owner {env : Env} {e : CompileError} (h : NamedFault env e) :
    ∃ key raw, env.rawSchema? key = some raw ∧ (e.owner = "schema:" ++ key.name ∨ e.owner = "schema:" ++ key.text) := by
  cases h with
  | refused hraw _ hfault => exact ⟨_, _, hraw, .inl hfault.owner⟩
  | @cycle keys hknown _ hlength _ =>
    cases keys with
    | nil => cases hlength
    | cons key rest =>
      obtain ⟨raw, hraw⟩ := hknown key List.mem_cons_self
      exact ⟨key, raw, hraw, .inr rfl⟩

/-- **What the error of a compilation names.** It is a path that is no template; or a declared operation, whose identity
is declared before or to which something wrong belongs; or a named schema, in which something is wrong or which leads
back to itself. Otherwise the error is about reusable parts that refer to one another in a loop, and names the first of
them as if it were a schema. -/
theorem compile_error_owner {config : Config} {d : Description} {e : CompileError} (h : compile config d = .error e) :
    (∃ path item reason, (path, Json.obj item) ∈ (d.paths?).getD [] ∧ e.owner = "route:" ++ path ∧
      e = .invalidRouteTemplate path reason ∧ Route.Template.parse path = .error e) ∨
    (∃ o ∈ d.declared, e.owner = "operation:" ++ o.identity ∧
      ((∃ o', [o, o'].Sublist d.declared ∧ o.identity = o'.identity ∧ e = .duplicateOperation o.identity) ∨
        ∃ v, o.Holds d v ∧
          (Extract.Fault d e.owner v e ∨ Schema.Fault ⟨d, config.presence⟩ none e.owner v e))) ∨
    (∃ key raw, Env.rawSchema? ⟨d, config.presence⟩ key = some raw ∧
      (e.owner = "schema:" ++ key.name ∨ e.owner = "schema:" ++ key.text) ∧ NamedFault ⟨d, config.presence⟩ e) ∨
    ∃ o ∈ d.declared, ∃ part ∈ partSections, ∃ names, o.Loops d part names ∧ e = .cyclicSchema names := by
  cases compile_refused h with
  | collecting hrefused =>
    cases hrefused with
    | route hmem hparse => exact .inl ⟨_, _, _, hmem, rfl, rfl, hparse⟩
    | duplicate hsub hsame =>
      refine .inr (.inl ⟨_, hsub.subset List.mem_cons_self, rfl, .inl ⟨_, hsub, hsame, rfl⟩⟩)
    | misread ho hmisread =>
      cases hmisread with
      | fault hv hfault =>
        refine .inr (.inl ⟨_, ho, hfault.owner, .inr ⟨_, hv, .inl ?_⟩⟩)
        rwa [hfault.owner]
      | loop hpart hloops => exact .inr (.inr (.inr ⟨_, ho, _, hpart, _, hloops, rfl⟩))
  | resolving ho hv hfault =>
    refine .inr (.inl ⟨_, ho, hfault.owner, .inr ⟨_, hv, .inr ?_⟩⟩)
    rwa [hfault.owner]
  | named hnamed =>
    obtain ⟨key, raw, hraw, howner⟩ := hnamed.owner
    exact .inr (.inr (.inl ⟨key, raw, hraw, howner, hnamed⟩))

/-- A description of one operation with one parameter, which is a reusable part. -/
def partDescription (parts : Members) : Description :=
  let parameter : Json := .obj [("$ref", .str "#/components/parameters/A")]
  let operation : Json := .obj [("operationId", .str "list"), ("parameters", .arr [parameter])]
  { source := "pets.json", title := "Pets", slug := "pets", basePath := "", external := []
    document := .obj [("paths", .obj [("/pets", .obj [("get", operation)])]),
      ("components", .obj [("parameters", .obj parts)])] }

/-- A compilation that fails with an error. -/
def failure? {α : Type} : Except CompileError α → Option CompileError
  | .ok _ => none
  | .error e => some e

theorem eq_error_of_failure? {α : Type} {m : Except CompileError α} {e : CompileError} (h : failure? m = some e) :
    m = .error e := by
  cases m with
  | ok a => cases h
  | error e' => exact congrArg Except.error (Option.some.inj h)

/-- A reusable parameter whose schema refers to a schema that does not exist. -/
def danglingDescription : Description :=
  partDescription [("A", .obj [("name", .str "limit"), ("in", .str "query"),
    ("schema", .obj [("$ref", .str "#/components/schemas/Limit")])])]

theorem compile_danglingDescription : compile {} danglingDescription =
    .error (.unresolvedReference "operation:list" "#/components/schemas/Limit") :=
  eq_error_of_failure? (by decide +kernel)

theorem compile_error_owner_danglingDescription :
    compile {} danglingDescription = .error (.unresolvedReference "operation:list" "#/components/schemas/Limit") ∧
    ∃ o ∈ danglingDescription.declared, o.identity = "list" ∧ ∃ v, o.Holds danglingDescription v ∧
      (Extract.Fault danglingDescription "operation:list" v
          (.unresolvedReference "operation:list" "#/components/schemas/Limit") ∨
        Schema.Fault ⟨danglingDescription, .standard⟩ none "operation:list" v
          (.unresolvedReference "operation:list" "#/components/schemas/Limit")) := by
  refine ⟨compile_danglingDescription, ?_⟩
  have hapart (a : String) : "operation:list" ≠ "schema:" ++ a := fun h => by
    have hhead := congrArg (·.toList.head?) h
    simp [String.toList_append] at hhead
  rcases compile_error_owner compile_danglingDescription with ⟨_, _, _, _, _, he, _⟩ |
    ⟨o, ho, howner, ⟨_, _, _, he⟩ | hfault⟩ | ⟨key, raw, hraw, howner | howner, _⟩ | ⟨_, _, _, _, _, _, he⟩
  · cases he
  · cases he
  · exact ⟨o, ho, ((String.append_right_inj "operation:").1 howner).symm, hfault⟩
  · exact absurd howner (hapart _)
  · exact absurd howner (hapart _)
  · cases he

/-- Two reusable parameters that refer to one another. -/
def loopDescription : Description :=
  partDescription [("A", .obj [("$ref", .str "#/components/parameters/B")]),
    ("B", .obj [("$ref", .str "#/components/parameters/A")])]

/-- The error names a schema, but there are no schemas at all. -/
theorem compile_names_part_as_schema :
    compile {} loopDescription = .error (.cyclicSchema ["A", "B", "A"]) ∧
    (CompileError.cyclicSchema ["A", "B", "A"]).owner = "schema:A" ∧
    ∀ key, Env.rawSchema? ⟨loopDescription, .standard⟩ key = none := by
  refine ⟨eq_error_of_failure? (by decide +kernel), by decide, fun key => ?_⟩
  obtain ⟨doc, name⟩ := key
  cases doc <;> rfl

end ApiForge
