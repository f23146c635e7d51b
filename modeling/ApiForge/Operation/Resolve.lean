import ApiForge.Operation.Basic
import ApiForge.Schema.Resolver

/-!
# Resolving operations

The parameters of each location become one record; body and responses are resolved where they stand. Response headers
are always optional in their records.
-/

namespace ApiForge

open Schema Naming

namespace RawOperation

/-- The parameters of a location as members of a record. -/
def membersIn (op : RawOperation) (location : Location) : List Member :=
  (op.parametersIn location).map fun p => ⟨p.name, p.schema, p.required, p.description⟩

/-- The record of the parameters in a location, if there are any. -/
def resolvePart (env : Env) (op : RawOperation) (base owner : String) (location : Location) :
    Resolve (Option Node) := do
  let members := op.membersIn location
  if members.isEmpty then return none
  return some (← synthesizeObject env (base ++ location.typeEnding) members env.presence owner)

/-- The resolved body. -/
def resolveBody (env : Env) (base owner : String) : Option RawBody → Resolve (Option RequestBody)
  | none => pure none
  | some body => do
    let node ← resolveInline env (body.schema.getD (.obj [])) (base ++ "Body") owner
    let rules ← rulesOf node body.required
    return some ⟨node, body.required, body.contentType, rules⟩

/-- The resolved body of a response, if it has one. -/
def resolvePayload (env : Env) (base owner : String) (r : RawResponse) : Resolve (Option Node) :=
  match r.schema with
  | none => pure none
  | some schema => some <$> resolveInline env schema s!"{base}{r.status}Body" owner

/-- The record of the headers of a response, if there are any. -/
def resolveHeaders (env : Env) (base owner : String) (r : RawResponse) : Resolve (Option Node) :=
  if r.headers.isEmpty then pure none
  else
    let members := r.headers.map fun h => (⟨h.name, h.schema, h.required, h.description⟩ : Member)
    some <$> synthesizeObject env s!"{base}{r.status}Headers" members .explicit owner

/-- A resolved response. -/
def resolveResponse (env : Env) (base owner : String) (r : RawResponse) : Resolve ResponseVariant := do
  let body ← resolvePayload env base owner r
  let headers ← resolveHeaders env base owner r
  return ⟨r.status, r.description, r.contentType, body, headers⟩

/-- Resolved responses in order. -/
def resolveResponses (env : Env) (base owner : String) : List RawResponse → Resolve (List ResponseVariant)
  | [] => pure []
  | r :: rs => do
    let v ← resolveResponse env base owner r
    return v :: (← resolveResponses env base owner rs)

/-- The resolved operation. -/
def resolve (env : Env) (op : RawOperation) : Resolve Operation := do
  let owner := "operation:" ++ op.operationId
  let base := pascalCase op.operationId
  let path ← op.resolvePart env base owner .path
  let query ← op.resolvePart env base owner .query
  let headers ← op.resolvePart env base owner .header
  let cookies ← op.resolvePart env base owner .cookie
  let body ← resolveBody env base owner op.requestBody
  let responses ← resolveResponses env base owner op.responses
  return {
    operationId := op.operationId
    method := op.method
    route := op.route
    summary := op.summary
    request := { path, query, headers, cookies, body }
    responses }

end RawOperation

end ApiForge
