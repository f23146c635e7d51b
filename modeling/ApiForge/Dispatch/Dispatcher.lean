import ApiForge.Compilation
import ApiForge.Dispatch.Call
import ApiForge.Http.Response
import ApiForge.Text.Literal

/-!
# Dispatching requests

A dispatcher knows the routes and operations of a compiled description and the handlers registered for them. It
answers a request in this order: no route, a path that does not fit, no handler, broken rules, a failing handler, a
broken contract, and at last what the handler responds.

* `Dispatcher.register` adds a handler.
* `Dispatcher.dispatch` answers a request.

Handlers may have effects of any kind; what a dispatcher does besides is pure.
-/

namespace ApiForge.Dispatch

open Text Http

/-- Why a handler gives no envelope. -/
inductive Fault where
  /-- It stopped with a message. -/
  | message (text : String)
  /-- It stopped without one. -/
  | silent

/-- The words for a fault. -/
def Fault.text : Fault → String
  | message t => t
  | silent => "non-string panic payload"

/-- What answers the calls of an operation. -/
abbrev Handler (m : Type → Type := Id) := Call → m (Except Fault Envelope)

/-- Routes, operations and handlers. -/
structure Dispatcher (m : Type → Type := Id) where
  routes : Route.Table
  operations : List Operation
  /-- The handlers by operation, each operation once. -/
  handlers : List (String × Handler m) := []
  /-- The number of the next request. -/
  next : Nat := 1

namespace Dispatcher

variable {m : Type → Type}

/-- The dispatcher of a compilation, without handlers. -/
def ofCompilation (c : Compilation) : Dispatcher m := { routes := c.routes, operations := c.operations }

/-- The operation with a given identity. -/
def operation? (d : Dispatcher m) (id : String) : Option Operation := d.operations.find? (·.operationId == id)

/-- The handler of an operation. -/
def handler? (d : Dispatcher m) (id : String) : Option (Handler m) := (d.handlers.find? (·.1 == id)).map (·.2)

/-- Whether an operation has a handler. -/
def hasHandler (d : Dispatcher m) (id : String) : Bool := (d.handler? id).isSome

/-- Whether there is an operation to register a handler for. -/
def accepts (d : Dispatcher m) (id : String) : Bool := (d.operation? id).isSome

/-- Registers a handler in place of an earlier one; nothing changes when there is no such operation. -/
def register (d : Dispatcher m) (id : String) (handler : Handler m) : Dispatcher m :=
  if d.accepts id then { d with handlers := (id, handler) :: d.handlers.filter (·.1 != id) } else d

/-- The response to what a handler gives. -/
def conclude (op : Operation) : Except Fault Envelope → Response
  | .error fault => .problem .internalError s!"handler for '{op.operationId}' panicked: {fault.text}"
  | .ok envelope =>
    match envelope.check with
    | .error v =>
      .problem .internalError s!"handler for '{op.operationId}' broke its response contract: {v.message}"
    | .ok status =>
      match envelope.payload? with
      | some payload => .ofPayload status payload ((op.response? status).bind (·.contentType))
      | none => .ofPayload status {} none

/-- The response to a call. -/
def serve [Monad m] (handler : Handler m) (c : Call) : m Response :=
  match c.violations with
  | [] => conclude c.operation <$> handler c
  | violations => pure (.invalid violations)

/-- The response to a request. -/
def respond [Monad m] (d : Dispatcher m) (r : Request) : m Response :=
  match d.routes.route r.method r.path with
  | .noMatch => pure (.problem .notFound s!"no route for {r.method} {r.path}")
  | .mismatch entry segment =>
    pure (.problem .badRequest s!"path segment {segment} does not fit route template {entry.template.raw}")
  | .matched entry captures =>
    match d.operation? entry.operationId, d.handler? entry.operationId with
    | some op, some handler => serve handler (.ofRequest d.next op captures r)
    | _, _ => pure (.problem .notImplemented s!"no handler registered for operation '{entry.operationId}'")

/-- Answers a request and counts it. -/
def dispatch [Monad m] (d : Dispatcher m) (r : Request) : m Response × Dispatcher m :=
  (d.respond r, { d with next := d.next + 1 })

/-- A line about a dispatcher. -/
def summary (d : Dispatcher m) : String :=
  let names := (d.handlers.map (·.1)).mergeSort fun a b => decide (a ≤ b)
  let listed := commaList (names.map literal)
  s!"Dispatcher \x7b routes: {d.routes.entries.length}, operations: {d.operations.length}, handlers: [{listed}] \x7d"

end Dispatcher

end ApiForge.Dispatch
