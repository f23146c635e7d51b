import ApiForge.Proofs.Dispatch.History
import ApiForge.Proofs.Operation.Presence
import ApiForge.Proofs.Operation.Provenance

/-!
# Dispatching in two presence modes

Coercion and validation look at types and rules, never at presence. So dispatchers of two compilations that differ in
nothing but presence give the same responses, if their handlers do not look at presence either. A handler can look at it:
a call carries its operation.

* `Handler.Blind`: a handler that sees neither the number of a call nor the presence of the fields of its operation.
* `presence_is_representation`: the presence mode changes neither the verdict of the compiler, nor what it says, nor the
  responses to requests.
* `presence_shown_by_calls`: a handler that does look at presence, and answers differently in the two modes.
-/

namespace ApiForge.Dispatch

open Http Schema

/-- The call without its number and without the presence of the fields of its operation. -/
def Call.bare (c : Call) : Call := { c with number := 0, operation := c.operation.bare }

/-- A handler that sees neither the number of a call nor the presence of the fields of its operation. -/
def Handler.Blind {m : Type → Type} (handler : Handler m) : Prop := ∀ c c', c.bare = c'.bare → handler c = handler c'

/-! ## Calls -/

theorem parameterParts_bare (r : RequestParts) :
    r.bare.parameterParts = r.parameterParts.map (Prod.map id Node.bare) := by
  simp only [RequestParts.parameterParts, List.map_filterMap]
  congr 1
  funext location
  cases location <;> simp [RequestParts.part?, RequestParts.bare, Prod.map, Function.comp_def]

theorem recordOf_bare (n : Node) (raw : String → List String) : recordOf n.bare raw = recordOf n raw := by
  simp only [recordOf, Node.bare_fields, List.foldl_map]
  simp only [Field.bare, Node.bare_coerceAll]

theorem ofRequest_bare (number : Nat) (op : Operation) (captures : Route.Captures) (r : Request) :
    Call.ofRequest 0 op.bare captures r = (Call.ofRequest number op captures r).bare := by
  simp only [Call.ofRequest, Call.bare, Operation.bare, parameterParts_bare, List.map_map, Call.mk.injEq, true_and,
    and_true]
  exact List.map_congr_left fun part _ => by simp [recordOf_bare]

/-- The same rules are checked on the same values. -/
theorem Call.violations_bare (c : Call) : c.bare.violations = c.violations := by
  have hset : ∀ n : Node, RuleSet.ofFields n.bare.name n.bare.fields = .ofFields n.name n.fields := by
    intro n
    rw [Node.bare_name, Node.bare_fields, RuleCache.ofFields_bare]
  have hrecords : c.bare.operation.request.parameterParts =
      c.operation.request.parameterParts.map (Prod.map id Node.bare) := parameterParts_bare c.operation.request
  have hbody : c.bare.operation.request.body = c.operation.request.body.map RequestBody.bare := rfl
  unfold Call.violations
  dsimp only
  rw [hrecords, hbody, List.flatMap_map]
  simp only [Prod.map_fst, Prod.map_snd, id_eq, hset]
  cases c.operation.request.body with
  | none => rfl
  | some b => simp only [Option.map_some, RequestBody.bare, Node.bare_isNullable]; rfl

theorem Call.statuses_bare (c : Call) : c.bare.statuses = c.statuses := by
  simp only [Call.statuses, Operation.statuses, Call.bare, Operation.bare, List.map_map]
  rfl

/-! ## Dispatchers -/

theorem response?_bare (op : Operation) (status : Nat) :
    op.bare.response? status = (op.response? status).map ResponseVariant.bare := by
  simp only [Operation.response?, Operation.bare, List.find?_map]
  rfl

/-- What a handler gives is turned into the same response. -/
theorem conclude_bare (op : Operation) : Dispatcher.conclude op.bare = Dispatcher.conclude op := by
  have htype : ∀ status,
      (op.bare.response? status).bind (·.contentType) = (op.response? status).bind (·.contentType) := by
    intro status
    rw [response?_bare]
    cases op.response? status <;> rfl
  funext result
  unfold Dispatcher.conclude
  cases result with
  | error fault => rfl
  | ok envelope => simp only [htype]; rfl

section Dispatchers

variable {m : Type → Type} [Monad m]

/-- Dispatchers that differ in nothing but presence, with blind handlers. -/
structure Dispatcher.Like (d d' : Dispatcher m) : Prop where
  routes : d.routes = d'.routes
  operations : d.operations.map Operation.bare = d'.operations.map Operation.bare
  handlers : d.handlers = d'.handlers
  blind : ∀ id handler, (id, handler) ∈ d.handlers → handler.Blind

variable {d d' : Dispatcher m}

omit [Monad m] in
theorem Dispatcher.Like.operation? (h : d.Like d') (id : String) :
    (d.operation? id).map Operation.bare = (d'.operation? id).map Operation.bare := by
  have hfind : ∀ ops : List Operation, (ops.find? (·.operationId == id)).map Operation.bare =
      (ops.map Operation.bare).find? (·.operationId == id) := by
    intro ops
    rw [List.find?_map]
    rfl
  rw [Dispatcher.operation?, Dispatcher.operation?, hfind, hfind, h.operations]

omit [Monad m] in
theorem Dispatcher.Like.accepts (h : d.Like d') (id : String) : d.accepts id = d'.accepts id := by
  have := congrArg Option.isSome (h.operation? id)
  rwa [Option.isSome_map, Option.isSome_map] at this

omit [Monad m] in
theorem Dispatcher.Like.handler?_blind (h : d.Like d') {id : String} {handler : Handler m}
    (hfound : d.handler? id = some handler) : handler.Blind := by
  obtain ⟨⟨id', handler'⟩, hfind, rfl⟩ := Option.map_eq_some_iff.1 hfound
  exact h.blind id' handler' (List.mem_of_find?_eq_some hfind)

/-- A call is served alike, whatever its number. -/
theorem serve_alike {handler : Handler m} (hblind : handler.Blind) {op op' : Operation} (hop : op.Like op')
    (k k' : Nat) (captures : Route.Captures) (r : Request) :
    Dispatcher.serve handler (.ofRequest k op captures r) =
      Dispatcher.serve handler (.ofRequest k' op' captures r) := by
  have hop : op.bare = op'.bare := hop
  have hbare : (Call.ofRequest k op captures r).bare = (Call.ofRequest k' op' captures r).bare := by
    rw [← ofRequest_bare, hop, ofRequest_bare]
  have hviolations : (Call.ofRequest k op captures r).violations = (Call.ofRequest k' op' captures r).violations := by
    rw [← Call.violations_bare, hbare, Call.violations_bare]
  have hconclude : Dispatcher.conclude op = Dispatcher.conclude op' := by rw [← conclude_bare, hop, conclude_bare]
  unfold Dispatcher.serve
  rw [hviolations]
  split
  · show Dispatcher.conclude op <$> _ = Dispatcher.conclude op' <$> _
    rw [hconclude, hblind _ _ hbare]
  · rfl

/-- Dispatchers that differ in nothing but presence answer alike. -/
theorem Dispatcher.Like.respond (h : d.Like d') (r : Request) : d.respond r = d'.respond r := by
  unfold Dispatcher.respond
  rw [h.routes]
  split
  · rfl
  · rfl
  · rename_i entry captures _
    have hop := h.operation? entry.operationId
    have hhandler : d.handler? entry.operationId = d'.handler? entry.operationId := by
      rw [Dispatcher.handler?, h.handlers, Dispatcher.handler?]
    rw [← hhandler]
    cases ho : d.operation? entry.operationId with
    | none =>
      cases ho' : d'.operation? entry.operationId with
      | none => rfl
      | some op' => rw [ho, ho'] at hop; cases hop
    | some op =>
      cases ho' : d'.operation? entry.operationId with
      | none => rw [ho, ho'] at hop; cases hop
      | some op' =>
        rw [ho, ho'] at hop
        cases hh : d.handler? entry.operationId with
        | none => rfl
        | some handler => exact serve_alike (h.handler?_blind hh) (Option.some.inj hop) _ _ captures r

/-- An event keeps dispatchers alike, if it registers only blind handlers. -/
theorem Dispatcher.Like.step (h : d.Like d') (e : Event m)
    (he : ∀ id handler, e = .register id handler → handler.Blind) :
    (d.step e).Like (d'.step e) := by
  cases e with
  | request r => exact ⟨h.routes, h.operations, h.handlers, h.blind⟩
  | register id handler =>
    unfold Dispatcher.step Dispatcher.register
    dsimp only
    rw [h.accepts]
    split
    · refine ⟨h.routes, h.operations, by rw [h.handlers], fun id' handler' hmem => ?_⟩
      rcases List.mem_cons.1 hmem with heq | hmem
      · cases heq
        exact he id handler rfl
      · exact h.blind id' handler' (List.mem_filter.1 hmem).1
    · exact h

/-- Histories keep dispatchers alike, if they register only blind handlers. -/
theorem Dispatcher.Like.after (h : d.Like d') (events : List (Event m))
    (hblind : ∀ id handler, .register id handler ∈ events → handler.Blind) :
    (d.after events).Like (d'.after events) := by
  induction events generalizing d d' with
  | nil => exact h
  | cons e events ih =>
    refine ih (h.step e fun id handler he => hblind id handler (he ▸ List.mem_cons_self)) fun id handler hmem => ?_
    exact hblind id handler (List.mem_cons_of_mem e hmem)

end Dispatchers

/-- **Presence is representation**: compiling a description in the two presence modes gives one error, or it gives the
same diagnostics, routes and names of declarations, operations that differ in nothing but presence, and dispatchers that
answer alike after every history whose handlers see neither the numbers of calls nor the presence of fields. -/
theorem presence_is_representation (config : Config) (d : Description) :
    match compile { config with presence := .standard } d, compile { config with presence := .explicit } d with
    | .error e, .error e' => e = e'
    | .ok c, .ok c' => c.diagnostics = c'.diagnostics ∧ c.routes = c'.routes ∧
        c.file.declarations.map Code.Declaration.name? = c'.file.declarations.map Code.Declaration.name? ∧
        c.operations.map Operation.bare = c'.operations.map Operation.bare ∧
        ∀ (m : Type → Type) [Monad m] (events : List (Event m)),
          (∀ id handler, .register id handler ∈ events → handler.Blind) → ∀ r : Request,
            ((Dispatcher.ofCompilation c).after events).respond r =
              ((Dispatcher.ofCompilation c').after events).respond r
    | _, _ => False := by
  have halike := compile_alike { config with presence := .standard } { config with presence := .explicit } rfl d
  cases h : compile { config with presence := .standard } d with
  | error e =>
    cases h' : compile { config with presence := .explicit } d with
    | error e' => rw [h, h'] at halike; exact halike
    | ok c' => rw [h, h'] at halike; exact halike
  | ok c =>
    cases h' : compile { config with presence := .explicit } d with
    | error e' => rw [h, h'] at halike; exact halike
    | ok c' =>
      rw [h, h'] at halike
      refine ⟨halike.diagnostics, halike.routes, halike.declarations, halike.operations, fun m _ events hblind r => ?_⟩
      have hlike : (Dispatcher.ofCompilation (m := m) c).Like (.ofCompilation c') :=
        ⟨halike.routes, halike.operations, rfl, fun _ _ hmem => by cases hmem⟩
      exact (hlike.after events hblind).respond r

/-- A description with a path parameter, which is required. -/
def petDescription : Description :=
  let id : Json := .obj [("name", .str "id"), ("in", .str "path"), ("required", .bool true),
    ("schema", .obj [("type", .str "integer")])]
  .mk "" "Pets" "pets" "" (.obj [("paths", .obj [("/pets/\x7bid\x7d", .obj [("get", .obj [
    ("operationId", .str "showPet"), ("parameters", .arr [id]),
    ("responses", .obj [("200", .obj []), ("404", .obj [])])])])])]) []

/-- A request for a pet. -/
def petRequest : Request := { method := "GET", path := "/pets/7" }

/-- A handler that answers every call alike. -/
def plainHandler : Handler Id := fun call => .ok (call.respond 200 {})

/-- A handler that finds nothing if a parameter may be absent. -/
def presenceHandler : Handler Id := fun call =>
  let fields := call.operation.request.parameterParts.flatMap fun (_, node) => node.fields
  .ok (call.respond (if fields.any (·.optionalPresence) then 404 else 200) {})

/-- The answer to a request for a pet, with a handler registered. -/
def petResponse (handler : Handler Id) (c : Compilation) : Response :=
  ((Dispatcher.ofCompilation c).after [.register "show_pet" handler]).respond petRequest

theorem petResponse_plainHandler :
    (compile { presence := .standard } petDescription).toOption.map (fun c => (petResponse plainHandler c).status) =
      some 200 := by
  decide +kernel

theorem petResponse_standard :
    (compile { presence := .standard } petDescription).toOption.map
      (fun c => (petResponse presenceHandler c).status) = some 200 := by
  decide +kernel

theorem petResponse_explicit :
    (compile { presence := .explicit } petDescription).toOption.map
      (fun c => (petResponse presenceHandler c).status) = some 404 := by
  decide +kernel

theorem blind_plainHandler : plainHandler.Blind := by
  intro c c' h
  have hstatuses : c.statuses = c'.statuses := by rw [← c.statuses_bare, h, c'.statuses_bare]
  rw [plainHandler, plainHandler, Call.respond, hstatuses, Call.respond]

theorem presence_is_representation_pet : plainHandler.Blind ∧ ∃ c c',
    compile { presence := .standard } petDescription = .ok c ∧
    compile { presence := .explicit } petDescription = .ok c' ∧
    petResponse plainHandler c = petResponse plainHandler c' ∧ (petResponse plainHandler c).status = 200 := by
  obtain ⟨c, hc, hstatus⟩ := exists_compiled petResponse_plainHandler
  obtain ⟨c', hc', -⟩ := exists_compiled petResponse_explicit
  have hblind : ∀ id handler, .register id handler ∈ [Event.register "show_pet" plainHandler] → handler.Blind := by
    intro id handler hmem
    cases List.mem_singleton.1 hmem
    exact blind_plainHandler
  -- with the description as a variable, the compiler is not run once more
  generalize petDescription = d at hc hc' ⊢
  have h := presence_is_representation {} d
  rw [hc, hc'] at h
  exact ⟨blind_plainHandler, c, c', hc, hc', h.2.2.2.2 Id _ hblind petRequest, hstatus⟩

/-- A handler that does not see the number of a call may still answer differently in the two modes, as it may look at the
presence of the fields of its operation. -/
theorem presence_shown_by_calls : (∀ call number, presenceHandler { call with number } = presenceHandler call) ∧
    ∃ c c', compile { presence := .standard } petDescription = .ok c ∧
      compile { presence := .explicit } petDescription = .ok c' ∧
      petResponse presenceHandler c ≠ petResponse presenceHandler c' := by
  obtain ⟨c, hc, hstatus⟩ := exists_compiled petResponse_standard
  obtain ⟨c', hc', hstatus'⟩ := exists_compiled petResponse_explicit
  refine ⟨fun _ _ => rfl, c, c', hc, hc', fun h => ?_⟩
  rw [h, hstatus'] at hstatus
  exact absurd hstatus (by decide)

end ApiForge.Dispatch
