import ApiForge.Compilation
import ApiForge.Proofs.Emission.Presence
import ApiForge.Proofs.Schema.Presence

/-!
# Compiling in two presence modes

* `Operation.bare` forgets the presence of all fields in an operation; rules, names and types stay.
* `resolve_mirrors`: an operation is resolved alike in all presence modes.
* `compile_alike`: compiling a description in two presence modes fails with one error, or gives compilations with the
  same diagnostics, routes and names of declarations, and with operations that differ in nothing but presence.
-/

namespace ApiForge

open Schema

/-- The body without the presence of its fields. -/
def RequestBody.bare (b : RequestBody) : RequestBody := { b with node := b.node.bare }

/-- The parts of a request without the presence of their fields. -/
def RequestParts.bare (r : RequestParts) : RequestParts where
  path := r.path.map Node.bare
  query := r.query.map Node.bare
  headers := r.headers.map Node.bare
  cookies := r.cookies.map Node.bare
  body := r.body.map RequestBody.bare

/-- The response without the presence of its fields. -/
def ResponseVariant.bare (v : ResponseVariant) : ResponseVariant :=
  { v with body := v.body.map Node.bare, headers := v.headers.map Node.bare }

/-- The operation without the presence of its fields. -/
def Operation.bare (op : Operation) : Operation :=
  { op with request := op.request.bare, responses := op.responses.map ResponseVariant.bare }

/-- Operations that differ in nothing but presence. -/
def Operation.Like (op op' : Operation) : Prop := op.bare = op'.bare

section Like

variable {op op' : Operation}

theorem Operation.Like.operationId (h : op.Like op') : op.operationId = op'.operationId := by
  show op.bare.operationId = op'.bare.operationId
  rw [h]

theorem Operation.Like.statuses (h : op.Like op') : op.statuses = op'.statuses := by
  have hbare : ∀ op : Operation, op.bare.statuses = op.statuses := by
    intro op
    simp only [Operation.statuses, Operation.bare, List.map_map]
    rfl
  rw [← hbare, h, hbare]

end Like

/-! ## Resolving operations -/

namespace RawOperation

variable {env env' : Env} (hd : env.description = env'.description)

include hd

theorem resolvePart_mirrors (op : RawOperation) (base owner : String) (location : Location) :
    Mirrors (fun n n' => n.map Node.bare = n'.map Node.bare) (op.resolvePart env base owner location)
      (op.resolvePart env' base owner location) := by
  unfold resolvePart
  dsimp only
  split
  · exact .pure rfl
  · refine (synthesizeObject_mirrors hd _ _ _ _ owner).bind fun n n' hn => .pure ?_
    exact congrArg some hn

theorem resolveBody_mirrors (base owner : String) : ∀ body : Option RawBody,
    Mirrors (fun b b' => b.map RequestBody.bare = b'.map RequestBody.bare) (resolveBody env base owner body)
      (resolveBody env' base owner body)
  | none => .pure rfl
  | some body => by
    refine (resolveInline_mirrors hd _ _ owner).bind fun n n' hn => ?_
    refine (rulesOf_mirrors hn body.required).bind fun rules _ h => ?_
    subst h
    have hn : n.bare = n'.bare := hn
    exact .pure (by simp only [Option.map_some, RequestBody.bare, hn])

theorem resolveResponse_mirrors (base owner : String) (r : RawResponse) :
    Mirrors (fun v v' => v.bare = v'.bare) (resolveResponse env base owner r) (resolveResponse env' base owner r) := by
  have hbody : Mirrors (fun n n' => n.map Node.bare = n'.map Node.bare) (resolvePayload env base owner r)
      (resolvePayload env' base owner r) := by
    unfold resolvePayload
    split
    · exact .pure rfl
    · exact (resolveInline_mirrors hd _ _ owner).map fun _ _ hn => congrArg some hn
  have hheaders : Mirrors (fun n n' => n.map Node.bare = n'.map Node.bare) (resolveHeaders env base owner r)
      (resolveHeaders env' base owner r) := by
    unfold resolveHeaders
    split
    · exact .pure rfl
    · exact (synthesizeObject_mirrors hd _ _ _ _ owner).map fun _ _ hn => congrArg some hn
  refine hbody.bind fun body body' hb => hheaders.bind fun headers headers' hh => .pure ?_
  simp only [ResponseVariant.bare, hb, hh]

theorem resolveResponses_mirrors (base owner : String) : ∀ rs : List RawResponse,
    Mirrors (fun vs vs' => vs.map ResponseVariant.bare = vs'.map ResponseVariant.bare)
      (resolveResponses env base owner rs) (resolveResponses env' base owner rs)
  | [] => .pure rfl
  | r :: rs => by
    refine (resolveResponse_mirrors hd base owner r).bind fun v v' hv => ?_
    refine (resolveResponses_mirrors base owner rs).bind fun vs vs' hvs => .pure ?_
    rw [List.map_cons, List.map_cons, hv, hvs]

/-- Operations are resolved alike. -/
theorem resolve_mirrors (op : RawOperation) : Mirrors Operation.Like (op.resolve env) (op.resolve env') := by
  refine (op.resolvePart_mirrors hd _ _ .path).bind fun path path' hpath => ?_
  refine (op.resolvePart_mirrors hd _ _ .query).bind fun query query' hquery => ?_
  refine (op.resolvePart_mirrors hd _ _ .header).bind fun headers headers' hheaders => ?_
  refine (op.resolvePart_mirrors hd _ _ .cookie).bind fun cookies cookies' hcookies => ?_
  refine (resolveBody_mirrors hd _ _ op.requestBody).bind fun body body' hbody => ?_
  refine (resolveResponses_mirrors hd _ _ op.responses).bind fun vs vs' hvs => .pure ?_
  simp only [Operation.Like, Operation.bare, RequestParts.bare, hpath, hquery, hheaders, hcookies, hbody, hvs]

end RawOperation

/-! ## Compilations -/

namespace Compilation

open Emission

/-- Partial results that differ in nothing but presence. -/
structure Progress.Like (p p' : Progress) : Prop where
  output : p.output.Like p'.output
  operations : p.operations.map Operation.bare = p'.operations.map Operation.bare
  responses : p.responses = p'.responses

theorem emitNodes_alike (root : String) : ∀ ns ns' : List Node, ns.map Node.bare = ns'.map Node.bare →
    DeclaresAlike (emitNodes root ns) (emitNodes root ns')
  | [], [], _ => .pure trivial
  | [], _ :: _, h | _ :: _, [], h => by cases h
  | n :: ns, n' :: ns', h => by
    obtain ⟨hn, hns⟩ := List.cons.inj h
    exact (emitNode_alike root hn).bind fun _ _ _ => emitNodes_alike root ns ns' hns

theorem takeNames_mirrors : ∀ names : List (Nat × String), Mirrors Eq (takeNames names) (takeNames names)
  | [] => .pure rfl
  | (_, wanted) :: rest => by
    refine (allocateName_mirrors wanted).bind fun name _ h => ?_
    subst h
    refine (takeNames_mirrors rest).bind fun names _ h => ?_
    subst h
    exact .pure rfl

theorem takeResponseNames_mirrors {op op' : Operation} (h : op.Like op') :
    Mirrors Eq (takeResponseNames op) (takeResponseNames op') := by
  have hnames : responseNames op = responseNames op' := by rw [responseNames, h.operationId, h.statuses, responseNames]
  unfold takeResponseNames
  rw [hnames]
  refine (allocateName_mirrors _).bind fun name _ h => ?_
  subst h
  refine (takeNames_mirrors _).bind fun names _ h => ?_
  subst h
  exact .pure rfl

section Assembly

variable {env env' : Env} (hd : env.description = env'.description)

include hd

theorem compileOperation_mirrors (root : String) {p p' : Progress} (hp : p.Like p') (raw : RawOperation) :
    Mirrors Progress.Like (compileOperation env root p raw) (compileOperation env' root p' raw) := by
  refine Agree.get.bind fun s t h => ?_
  rw [h.declared_size]
  refine (raw.resolve_mirrors hd).bind fun op op' hop => ?_
  refine Agree.get.bind fun s₁ t₁ h₁ => ?_
  have hnodes := h₁.declarationsSince t.declared.size
  have hname : requestName op = requestName op' := by rw [requestName, hop.operationId, requestName]
  rw [hname]
  refine (allocateName_mirrors _).bind fun name _ h => ?_
  subst h
  refine (takeResponseNames_mirrors hop).bind fun model _ h => ?_
  subst h
  have hbody : op.request.body.map (fun b => (b.node.bare, b.rules)) =
      op'.request.body.map fun b => (b.node.bare, b.rules) := by
    have := congrArg (fun op : Operation => op.request.body.map fun b => (b.node, b.rules)) hop
    simpa [Operation.bare, RequestParts.bare, RequestBody.bare, Function.comp_def] using this
  have hlength : op.responses.length = op'.responses.length := by
    simpa [Operation.statuses] using congrArg List.length hop.statuses
  have hemit := (emitNodes_alike root _ _ hnodes).bind fun _ _ _ =>
    (emitRequest_alike root name env.presence env'.presence hbody).bind fun _ _ _ =>
      emitResponses_alike root model hlength
  refine .pure ⟨(hemit _ _ hp.output).2, ?_, by rw [hp.responses]⟩
  have hop : op.bare = op'.bare := hop
  simp only [List.map_append, hp.operations, List.map_cons, List.map_nil, hop]

theorem compileOperations_mirrors (root : String) : ∀ (raws : List RawOperation) (p p' : Progress), p.Like p' →
    Mirrors Progress.Like (compileOperations env root raws p) (compileOperations env' root raws p')
  | [], _, _, hp => .pure hp
  | raw :: raws, _, _, hp =>
    (compileOperation_mirrors hd root hp raw).bind fun _ _ hp₁ => compileOperations_mirrors root raws _ _ hp₁

theorem assemble_mirrors (root : String) (ops : List RawOperation) :
    Mirrors Progress.Like (assemble env root ops) (assemble env' root ops) := by
  refine (resolveComponents_mirrors hd).bind fun _ _ _ => ?_
  refine Agree.get.bind fun s t h => ?_
  rw [hd]
  refine compileOperations_mirrors hd root ops _ _ ⟨?_, rfl, rfl⟩
  have hempty : Output.Like { builder := { name := env'.description.slug } }
      { builder := { name := env'.description.slug } } :=
    ⟨rfl, rfl, rfl, rfl⟩
  have hstart := (declare_alike (d := .const (basePathConst env'.description)) rfl).bind fun _ _ _ =>
    (declare_alike (d := .const (routesConst ops)) rfl).bind fun _ _ _ =>
      emitNodes_alike root _ _ (h.declarationsSince 0)
  exact (hstart _ _ hempty).2

end Assembly

/-- Compilations that differ in nothing but presence. -/
structure Like (c c' : Compilation) : Prop where
  diagnostics : c.diagnostics = c'.diagnostics
  routes : c.routes = c'.routes
  declarations : c.file.declarations.map Code.Declaration.name? = c'.file.declarations.map Code.Declaration.name?
  operations : c.operations.map Operation.bare = c'.operations.map Operation.bare

end Compilation

open Compilation in
/-- **Compiling in two presence modes** fails with one error or gives compilations that differ in nothing but
presence. -/
theorem compile_alike (config config' : Config) (hroot : config.importRoot = config'.importRoot) (d : Description) :
    match compile config d, compile config' d with
    | .error e, .error e' => e = e'
    | .ok c, .ok c' => c.Like c'
    | _, _ => False := by
  unfold compile
  cases (operationsOf d).run [] with
  | error e _ => rfl
  | ok ops diagnostics =>
    have hinitial : (State.initial ⟨d, config.presence⟩).Like (State.initial ⟨d, config'.presence⟩) := .refl _
    have hmirrors : Mirrors Progress.Like (assemble ⟨d, config.presence⟩ config'.importRoot ops)
        (assemble ⟨d, config'.presence⟩ config'.importRoot ops) := assemble_mirrors (by rfl) _ ops
    have hrun := hmirrors _ _ hinitial
    dsimp only
    rw [hroot]
    cases h : (assemble ⟨d, config.presence⟩ config'.importRoot ops).run (State.initial ⟨d, config.presence⟩) with
    | error e s =>
      cases h' : (assemble ⟨d, config'.presence⟩ config'.importRoot ops).run (State.initial ⟨d, config'.presence⟩) with
      | error e' s' => rw [h, h'] at hrun; exact hrun.1
      | ok p' s' => rw [h, h'] at hrun; exact hrun
    | ok p s =>
      cases h' : (assemble ⟨d, config'.presence⟩ config'.importRoot ops).run (State.initial ⟨d, config'.presence⟩) with
      | error e' s' => rw [h, h'] at hrun; exact hrun
      | ok p' s' =>
        rw [h, h'] at hrun
        obtain ⟨hp, -⟩ := hrun
        refine ⟨rfl, ?_, hp.output.declarations, hp.operations⟩
        have hroutes : ∀ ops : List Operation, ops.map routeOf = (ops.map Operation.bare).map routeOf := fun ops => by
          rw [List.map_map]
          rfl
        dsimp only
        rw [hroutes, hp.operations, ← hroutes]

end ApiForge
