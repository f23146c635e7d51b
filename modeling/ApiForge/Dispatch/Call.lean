import ApiForge.Http.Envelope
import ApiForge.Http.Request
import ApiForge.Operation.Basic
import ApiForge.Route.Table
import ApiForge.Rule.Coerce
import ApiForge.Rule.Compile
import ApiForge.Rule.Evaluate

/-!
# Calls of operations

A call is a request that has been routed to an operation, with its parameters turned into values of their declared
types. A parameter that the request does not give is absent from its record.

* `Call.ofRequest` makes the call of a request.
* `Call.violations` lists the rules that a call breaks.
-/

namespace ApiForge.Dispatch

open Text Http

/-- A call of an operation. -/
structure Call where
  number : Nat
  operation : Operation
  method : String
  path : String
  /-- The records of the locations where the operation declares parameters. -/
  records : List (Location × Json.Members)
  body : Option Json

/-- The texts that a request gives for a parameter. Of a repeated path parameter or cookie only the last one counts. -/
def rawValues (r : Request) (captures : Route.Captures) (location : Location) (key : String) : List String :=
  match location with
  | .path => (captures.get? key).toList
  | .query => (r.query.filter (·.1 == key)).map (·.2)
  | .header => (r.headers.filter fun h => sameIgnoringCase h.1 key).map (·.2)
  | .cookie => ((r.cookies.reverse.find? (·.1 == key)).map (·.2)).toList

/-- The record of a location: the values of its fields, in order. -/
def recordOf (node : Schema.Node) (raw : String → List String) : Json.Members :=
  node.fields.foldl (fun ms f =>
    match f.type.coerceAll (raw f.wireKey) with
    | some v => ms.insert f.wireKey v
    | none => ms) []

namespace Call

/-- The call that a request makes. -/
def ofRequest (number : Nat) (op : Operation) (captures : Route.Captures) (r : Request) : Call where
  number := number
  operation := op
  method := r.method
  path := r.path
  records := op.request.parameterParts.map fun (location, node) =>
    (location, recordOf node (rawValues r captures location))
  body := r.body

/-- The record of a location, or `null` where the operation declares no parameter. -/
def part (c : Call) (location : Location) : Json :=
  match c.records.find? (·.1 == location) with
  | some (_, ms) => .obj ms
  | none => .null

/-- A path parameter. -/
def pathParam? (c : Call) (name : String) : Option Json := (c.part .path).get? name

/-- A parameter of the query. -/
def queryParam? (c : Call) (name : String) : Option Json := (c.part .query).get? name

/-- A record as something else. -/
def partAs {α : Type} (c : Call) (decode : Json → Option α) (location : Location) : Option α :=
  decode (c.part location)

/-- The body as something else; a missing body counts as `null`. -/
def bodyAs {α : Type} (c : Call) (decode : Json → Option α) : Option α := decode (c.body.getD .null)

/-- The statuses that the operation declares. -/
def statuses (c : Call) : List Nat := c.operation.statuses

/-- An envelope with one slot filled. -/
def respond (c : Call) (status : Nat) (payload : Payload) : Envelope := .respond c.statuses status payload

/-- An envelope with empty slots. -/
def envelope (c : Call) (status : Nat) : Envelope := .empty c.statuses status

/-- The rules that a call breaks: those of its records, then those of its body. -/
def violations (c : Call) : List Violation :=
  let ofRecord := fun ((location, node) : Location × Schema.Node) =>
    Rule.checkObject (.ofFields node.name node.fields) (c.part location) location.name
  let ofBody := match c.operation.request.body with
    | some b => Rule.checkField b.rules b.node.isNullable c.body "body"
    | none => []
  c.operation.request.parameterParts.flatMap ofRecord ++ ofBody

end Call

end ApiForge.Dispatch
