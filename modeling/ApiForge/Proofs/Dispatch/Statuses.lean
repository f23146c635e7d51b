import ApiForge.Proofs.Dispatch.Decision
import ApiForge.Proofs.Operation.Provenance
import Mathlib.Control.Traversable.Basic

/-!
# Statuses of answers

An envelope brings its own slots, and a dispatcher asks only whether exactly the slot of the status code is filled. So
it is the handler's envelope that says which statuses can be answered with.

* `Envelope.Made declared e`: the envelope `e` was made with slots for `declared`, whatever was filled or set after.
  Filling a slot never adds one, so the slots stay those of `declared` (`Made.mem_declared`).
* `Bounded`: what the status of a response can be, given what the handler gives.
* `respond_bounded`: every request that is routed to an operation is answered so.
-/

namespace ApiForge.Http.Envelope

/-- The envelopes that are made with slots for some statuses. -/
inductive Made (declared : List Nat) : Envelope → Prop where
  | empty (status : Nat) : Made declared (.empty declared status)
  | respond (status : Nat) (payload : Payload) : Made declared (.respond declared status payload)
  | populate {e : Envelope} (status : Nat) (payload : Payload) : Made declared e →
      Made declared (e.populate status payload)
  | withStatus {e : Envelope} (status : Nat) : Made declared e → Made declared (e.withStatus status)

/-- **Slots are never added**: whatever is filled or set, the slots are those that the envelope was made with. -/
theorem Made.mem_declared {declared : List Nat} {e : Envelope} (h : e.Made declared) (s : Nat) :
    s ∈ e.declared ↔ s ∈ declared := by
  induction h with
  | empty status => exact mem_declared_empty
  | respond status payload =>
    rw [Envelope.respond, declared_populate]
    exact mem_declared_empty
  | populate status payload _ ih => rwa [declared_populate]
  | withStatus status _ ih => rwa [declared_withStatus]

/-- An envelope that keeps its contract has the status of one of its slots. -/
theorem status_mem_declared {e : Envelope} (h : e.populated = [e.status]) : e.status ∈ e.declared := by
  obtain ⟨payload, -, hslot⟩ := exists_payload h
  exact List.mem_map_of_mem hslot

end ApiForge.Http.Envelope

namespace ApiForge.Dispatch

open Http

/-- A problem that a dispatcher answers with on its own account. -/
structure Reported (response : Response) : Prop where
  status : response.status ∈ [400, 404, 500, 501]
  type : response.headers = [("content-type", "application/problem+json")]

theorem Reported.of_isProblem (p : Problem) {errors : Option Json} {response : Response}
    (h : IsProblem p.status errors response) : Reported response := by
  refine ⟨?_, h.type⟩
  rw [h.status]
  cases p <;> decide

/-- What the status of a response can be, given what the handler gives: that of a problem, or that of a slot of the
handler's envelope. -/
structure Bounded (op : Operation) (result : Except Fault Envelope) (response : Response) : Prop where
  slot : Reported response ∨ ∃ e, result = .ok e ∧ response.status = e.status ∧ e.status ∈ e.declared
  within : ∀ e, result = .ok e → (∀ s ∈ e.declared, s ∈ op.statuses) →
    Reported response ∨ response.status ∈ op.statuses
  made : ∀ e declared, result = .ok e → e.Made declared → Reported response ∨ response.status ∈ declared
  kept : ∀ e, result = .ok e → e.populated = [e.status] → response.status = e.status

theorem Concluded.bounded {op : Operation} {result : Except Fault Envelope} {response : Response}
    (h : Concluded op result response) : Bounded op result response := by
  have hkept : ∀ e, result = .ok e → e.populated = [e.status] → response.status = e.status := by
    intro e he hpopulated
    obtain ⟨payload, -, hresponse⟩ := h.kept e he hpopulated
    rw [hresponse]
    rfl
  have hslot : Reported response ∨ ∃ e, result = .ok e ∧ response.status = e.status ∧ e.status ∈ e.declared := by
    cases hresult : result with
    | error fault => exact .inl (Reported.of_isProblem .internalError (h.fault fault hresult))
    | ok e =>
      by_cases hpopulated : e.populated = [e.status]
      · exact .inr ⟨e, rfl, hkept e hresult hpopulated, Envelope.status_mem_declared hpopulated⟩
      · exact .inl (Reported.of_isProblem .internalError (h.broken e hresult hpopulated))
  have hbound : ∀ (e : Envelope) (statuses : List Nat), result = .ok e → (∀ s ∈ e.declared, s ∈ statuses) →
      Reported response ∨ response.status ∈ statuses := by
    intro e statuses he hsub
    refine hslot.imp_right ?_
    rintro ⟨e', he', hstatus, hmem⟩
    obtain rfl : e = e' := Except.ok.inj (he.symm.trans he')
    rw [hstatus]
    exact hsub _ hmem
  exact ⟨hslot, fun e he hsub => hbound e _ he hsub, fun e declared he hmade =>
    hbound e declared he fun s => (hmade.mem_declared s).1, hkept⟩

/-- **Statuses come from the handler's slots**: after every history, a request that is routed to an operation is
answered with a problem of the dispatcher, or the registered handler is run once and the status is that of a slot of its
envelope. If these slots are among the statuses that the operation declares, as they are in every envelope that is made
from the call, so is the status. -/
theorem respond_bounded {m : Type → Type} [Monad m] {config : Config} {d : Description} {c : Compilation}
    (hc : compile config d = .ok c) (events : List (Event m)) {r : Request} {entry : Route.Entry}
    {captures : Route.Captures} (hroute : c.routes.route r.method r.path = .matched entry captures) :
    ∃ op ∈ c.operations, Compilation.routeOf op = entry ∧
      ((∃ response, (Dispatcher.serving c events).respond r = pure response ∧ Reported response) ∨
        ∃ handler call conclude, (Dispatcher.serving c events).handler? op.operationId = some handler ∧
          call = Call.ofRequest (events.countP Event.isRequest + 1) op captures r ∧
          (∀ status payload, (call.respond status payload).Made op.statuses ∧
            (call.envelope status).Made op.statuses) ∧
          (Dispatcher.serving c events).respond r = conclude <$> handler call ∧
          ∀ result, Bounded op result (conclude result)) := by
  obtain ⟨op, hop, rfl⟩ := exists_operation hc hroute
  refine ⟨op, hop, rfl, ?_⟩
  rw [serving_respond hc events hop hroute]
  cases hhandler : (Dispatcher.serving c events).handler? op.operationId with
  | none => exact .inl ⟨_, rfl, Reported.of_isProblem .notImplemented (isProblem_problem .notImplemented _)⟩
  | some handler =>
    dsimp only
    set call := Call.ofRequest (events.countP Event.isRequest + 1) op captures r with hcall
    obtain ⟨hinvalid, hvalid⟩ := serve_eq handler call _ rfl
    by_cases hviolations : call.violations = []
    · refine .inr ⟨handler, call, _, rfl, rfl, fun status payload => ?_, hvalid hviolations, fun result => ?_⟩
      · exact ⟨.respond status payload, .empty status⟩
      · exact (conclude_concluded op result).bounded
    · exact .inl ⟨_, hinvalid hviolations, Reported.of_isProblem .badRequest (isProblem_invalid _)⟩

/-- A request for all pets. -/
def petsRequest : Request := { method := "GET", path := "/pets" }

/-- The declared statuses of the operations, the captures of a request for all pets and the status of its answer. -/
def petsAnswer (events : List (Event Id)) (c : Compilation) : List (List Nat) × Option Route.Captures × Nat :=
  let response : Response := (Dispatcher.serving c events).respond petsRequest
  (c.operations.map (·.statuses), match c.routes.route petsRequest.method petsRequest.path with
    | .matched _ captures => some captures
    | _ => none, response.status)

theorem exists_petsAnswer {events : List (Event Id)} {statuses : List Nat} {captures : Route.Captures} {status : Nat}
    (h : (compile {} petsDescription).toOption.map (petsAnswer events) = some ([statuses], some captures, status)) :
    ∃ c op, compile {} petsDescription = .ok c ∧ c.operations = [op] ∧ op.statuses = statuses ∧
      c.routes.route petsRequest.method petsRequest.path = .matched (Compilation.routeOf op) captures ∧
      ((Dispatcher.serving c events).respond petsRequest : Response).status = status := by
  obtain ⟨c, hc, hview⟩ := exists_compiled h
  obtain ⟨hops, hrest⟩ := Prod.mk.inj hview
  obtain ⟨hcaptures, hstatus⟩ := Prod.mk.inj hrest
  obtain ⟨op, rest, hop, hstatuses, hnil⟩ := List.map_eq_cons_iff.1 hops
  obtain rfl := List.map_eq_nil_iff.1 hnil
  split at hcaptures
  · rename_i entry found hroute
    obtain rfl := Option.some.inj hcaptures
    obtain ⟨op', hop', rfl⟩ := exists_operation hc hroute
    obtain rfl : op' = op := by simpa [hop] using hop'
    exact ⟨c, op', hc, hop, hstatuses, hroute, hstatus⟩
  · cases hcaptures

theorem petsAnswer_petsHistory : (compile {} petsDescription).toOption.map (petsAnswer petsHistory) =
    some ([[200]], some [], 200) := by decide +kernel

theorem respond_bounded_pets : ∃ c op, compile {} petsDescription = .ok c ∧ c.operations = [op] ∧
    op.statuses = [200] ∧ ((Dispatcher.serving c petsHistory).respond petsRequest : Response).status = 200 ∧
    c.routes.route petsRequest.method petsRequest.path = .matched (Compilation.routeOf op) [] ∧
    ∃ op' ∈ c.operations, Compilation.routeOf op' = Compilation.routeOf op ∧
      ((∃ response, (Dispatcher.serving c petsHistory).respond petsRequest = pure response ∧ Reported response) ∨
        ∃ handler call conclude, (Dispatcher.serving c petsHistory).handler? op'.operationId = some handler ∧
          call = Call.ofRequest 1 op' [] petsRequest ∧
          (∀ status payload, (call.respond status payload).Made op'.statuses ∧
            (call.envelope status).Made op'.statuses) ∧
          (Dispatcher.serving c petsHistory).respond petsRequest = conclude <$> handler call ∧
          ∀ result, Bounded op' result (conclude result)) := by
  obtain ⟨c, op, hc, hops, hstatuses, hroute, hstatus⟩ := exists_petsAnswer petsAnswer_petsHistory
  exact ⟨c, op, hc, hops, hstatuses, hstatus, hroute, respond_bounded hc petsHistory hroute⟩

/-- A history in which a handler is registered that gives its envelope a slot that the operation does not declare. -/
def teapotHistory : List (Event Id) := [.register "list_pets" fun _ => .ok (.respond [418] 418 {})]

theorem petsAnswer_teapotHistory : (compile {} petsDescription).toOption.map (petsAnswer teapotHistory) =
    some ([[200]], some [], 418) := by decide +kernel

/-- Without the condition on the slots, an answer may have a status that the operation does not declare and be no
problem of the dispatcher. -/
theorem respond_undeclared_status : ∃ c op, compile {} petsDescription = .ok c ∧ op ∈ c.operations ∧
    c.routes.route petsRequest.method petsRequest.path = .matched (Compilation.routeOf op) [] ∧
    ¬ Reported ((Dispatcher.serving c teapotHistory).respond petsRequest) ∧
    ((Dispatcher.serving c teapotHistory).respond petsRequest : Response).status ∉ op.statuses := by
  obtain ⟨c, op, hc, hops, hstatuses, hroute, hstatus⟩ := exists_petsAnswer petsAnswer_teapotHistory
  refine ⟨c, op, hc, by simp [hops], hroute, fun hreported => ?_, ?_⟩
  · have hmem := hreported.status
    rw [hstatus] at hmem
    exact absurd hmem (by decide)
  · rw [hstatus, hstatuses]
    decide

end ApiForge.Dispatch
