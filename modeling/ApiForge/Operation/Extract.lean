import ApiForge.Decimal.Read
import ApiForge.Description.Basic
import ApiForge.Diagnostic
import ApiForge.Naming.Identifier
import ApiForge.Operation.Basic
import ApiForge.Text.Ascii

/-!
# Collecting operations

The operations of a description in document order, with shared parameters merged in and path parameters made to agree
with the placeholders of the template. What is skipped or made up is noted as a diagnostic; the notes stay also when
collecting fails.

* `operationsOf` collects all operations.
* `follow` follows references to reusable parts.
-/

namespace ApiForge

open Text Naming

/-- A computation that notes diagnostics and may fail. -/
abbrev Extract := EStateM CompileError (List Diagnostic)

namespace Extract

/-- Notes a warning. -/
def warn (location kind message : String) : Extract Unit :=
  modify (· ++ [Diagnostic.warn location kind message])

/-- Fails on an unsupported construct. -/
def unsupported {α : Type} (owner detail : String) : Extract α := throw (.unsupportedConstruct owner detail)

/-- The methods that path items declare. -/
def verbs : List String := ["get", "put", "post", "delete", "options", "head", "patch", "trace"]

/-- The method of a key of a path item, in upper case. -/
def method? (key : String) : Option String :=
  if verbs.contains (lowerAscii key) then some (upperAscii key) else none

/-! ## References to reusable parts -/

/-- The reusable parts of one section. -/
def sectionOf (d : Description) (part : String) : Option Json := (d.document.get? "components").bind (·.get? part)

/-- Follows references within a section; `visited` are the names met so far. -/
def followFrom (d : Description) (part owner : String) :
    (fuel : Nat) → (visited : List String) → Json → Except CompileError Json.Members
  | 0, visited, _ => .error (.cyclicSchema visited)
  | fuel + 1, visited, raw =>
    match raw with
    | .obj members =>
      match (Json.Members.get? members "$ref").bind Json.text? with
      | none => .ok members
      | some reference =>
        match dropLead? s!"#/components/{part}/" reference with
        | none => .error (.unsupportedConstruct owner s!"reference '{reference}' is not a {part} pointer")
        | some name =>
          if visited.contains name then .error (.cyclicSchema (visited ++ [name]))
          else match (sectionOf d part).bind (·.get? name) with
            | none => .error (.unresolvedReference owner reference)
            | some next => followFrom d part owner fuel (visited ++ [name]) next
    | _ => .error (.unsupportedConstruct owner s!"{part} entry must be an object")

/-- The object that a value is or refers to. -/
def follow (d : Description) (part owner : String) (raw : Json) : Extract Json.Members :=
  let count := (((sectionOf d part).bind Json.members?).getD []).length
  match followFrom d part owner (count + 2) [] raw with
  | .ok members => pure members
  | .error e => throw e

/-! ## Pieces of an operation -/

/-- A string member. -/
def textOf (ms : Json.Members) (key : String) : Option String := (ms.get? key).bind Json.text?

/-- A boolean member, false unless it is set. -/
def flagOf (ms : Json.Members) (key : String) : Bool := ((ms.get? key).bind Json.bool?).getD false

/-- The media type of a body and its schema: JSON, else the first type with a schema, else the first type. -/
def selectMedia? (content : Json.Members) : Option (String × Option Json) :=
  match content.get? "application/json" with
  | some media => some ("application/json", media.get? "schema")
  | none =>
    ((content.find? fun m => (m.2.get? "schema").isSome).or content.head?).map fun (type, media) =>
      (type, media.get? "schema")

/-- The media type selected from the content of a part. -/
def mediaOf (ms : Json.Members) : Option (String × Option Json) :=
  ((ms.get? "content").bind Json.members?).bind selectMedia?

/-- The identity of an operation that declares none. -/
def synthesizedId (method path : String) : String :=
  let rest := snakeCase path
  if rest == "_" then lowerAscii method else lowerAscii method ++ "_" ++ rest

/-- The declared identity of an operation. -/
def declaredId? (operation : Json.Members) : Option String :=
  let handler := operation.findSome? fun (key, v) => if startsWith "x-handler" key then v.text? else none
  ((handler.or (textOf operation "operationId")).map snakeCase).filter (· != "_")

/-- The identity of an operation, made up with a warning if none is declared. -/
def operationId (operation : Json.Members) (method path : String) : Extract String := do
  match declaredId? operation with
  | some id => return id
  | none =>
    let id := synthesizedId method path
    warn s!"path:{path}" "synthesized_operation_id"
      s!"{method} {path} has no operationId or x-handler-* extension; using '{id}'"
    return id

/-- A parameter. -/
def parameter (d : Description) (owner : String) (raw : Json) : Extract RawParameter := do
  let ms ← follow d "parameters" owner raw
  match textOf ms "name" with
  | none => unsupported owner "parameter without a name"
  | some name =>
    match (textOf ms "in").bind Location.ofName? with
    | none => unsupported owner s!"parameter '{name}' has no valid 'in'"
    | some location =>
      return {
        name
        location
        required := location == .path || flagOf ms "required"
        schema := (ms.get? "schema").or ((mediaOf ms).bind (·.2))
        description := textOf ms "description" }

/-- Replaces the parameter with the same name and location, or appends the parameter. -/
def mergeParameter (params : List RawParameter) (p : RawParameter) : List RawParameter :=
  if params.any fun q => q.name == p.name && q.location == p.location then
    params.map fun q => if q.name == p.name && q.location == p.location then p else q
  else params ++ [p]

/-- Adds parameters from a list. -/
def addParameters (d : Description) (owner : String) : List Json → List RawParameter → Extract (List RawParameter)
  | [], params => pure params
  | raw :: rest, params => do
    let p ← parameter d owner raw
    addParameters d owner rest (mergeParameter params p)

/-- Adds the parameters of a member that may be absent. -/
def addParameterList (d : Description) (owner : String) (raw : Option Json) (params : List RawParameter) :
    Extract (List RawParameter) :=
  match raw with
  | none => pure params
  | some (.arr list) => addParameters d owner list params
  | some _ => unsupported owner "parameters must be a list"

/-- Drops path parameters without a placeholder. -/
def dropUnused (route : Route.Template) (owner : String) : List RawParameter → Extract (List RawParameter)
  | [] => pure []
  | p :: ps => do
    if p.location != .path || route.paramNames.contains p.name then
      return p :: (← dropUnused route owner ps)
    else
      warn owner "unused_path_parameter" s!"path parameter '{p.name}' does not appear in {route.raw}; ignored"
      dropUnused route owner ps

/-- Adds path parameters for placeholders without one. -/
def addUndeclared (route : Route.Template) (owner : String) :
    List String → List RawParameter → Extract (List RawParameter)
  | [], params => pure params
  | name :: names, params => do
    if params.any fun p => p.location == .path && p.name == name then addUndeclared route owner names params
    else
      let shown := Route.Segment.braced name
      warn owner "undeclared_path_parameter"
        s!"placeholder '{shown}' in {route.raw} is not declared; treated as a string"
      addUndeclared route owner names (params ++ [⟨name, .path, true, none, none⟩])

/-- Makes path parameters agree with the placeholders. -/
def reconcile (route : Route.Template) (owner : String) (params : List RawParameter) :
    Extract (List RawParameter) := do
  addUndeclared route owner route.paramNames (← dropUnused route owner params)

/-- The request body; without a media type there is none. -/
def requestBody (d : Description) (owner : String) : Option Json → Extract (Option RawBody)
  | none => pure none
  | some raw => do
    let ms ← follow d "requestBodies" owner raw
    return (mediaOf ms).map fun (contentType, schema) => ⟨contentType, flagOf ms "required", schema⟩

/-- The headers of a response; the content type is not one of them. -/
def headerList (d : Description) (owner : String) : Json.Members → Extract (List RawHeader)
  | [] => pure []
  | (name, raw) :: rest => do
    if sameIgnoringCase name "content-type" then headerList d owner rest
    else
      let ms ← follow d "headers" owner raw
      return ⟨name, flagOf ms "required", ms.get? "schema", textOf ms "description"⟩ :: (← headerList d owner rest)

/-- The status that a key of the responses denotes. -/
def status? (key : String) : Option Nat :=
  match key.toList with
  | '-' :: _ => none
  | _ => ((Decimal.integer? key).map Int.toNat).filter fun n => 100 ≤ n && n ≤ 599

/-- Puts a response at its place in the order of statuses, in place of one with the same status. -/
def insertResponse (r : RawResponse) : List RawResponse → List RawResponse
  | [] => [r]
  | x :: xs =>
    if r.status < x.status then r :: x :: xs
    else if r.status == x.status then r :: xs
    else x :: insertResponse r xs

/-- Collects responses under numeric keys. -/
def responseList (d : Description) (owner : String) : Json.Members → List RawResponse → Extract (List RawResponse)
  | [], acc => pure acc
  | (key, raw) :: rest, acc => do
    match status? key with
    | none =>
      warn owner "skipped_status" s!"response key '{key}' is not a numeric status; skipped"
      responseList d owner rest acc
    | some status =>
      let ms ← follow d "responses" owner raw
      let media := mediaOf ms
      let headers ← headerList d owner (((ms.get? "headers").bind Json.members?).getD [])
      let r : RawResponse :=
        ⟨status, textOf ms "description", media.map (·.1), media.bind (·.2), headers⟩
      responseList d owner rest (insertResponse r acc)

/-- The responses of an operation. -/
def responses (d : Description) (owner : String) (raw : Option Json) : Extract (List RawResponse) := do
  match raw.bind Json.members? with
  | some ms => responseList d owner ms []
  | none =>
    warn owner "no_responses" "operation declares no responses"
    return []

/-! ## Paths -/

/-- An operation under a method of a path item. -/
def operation (d : Description) (route : Route.Template) (item operation : Json.Members) (method id : String) :
    Extract RawOperation := do
  let owner := "operation:" ++ id
  let shared ← addParameterList d owner (item.get? "parameters") []
  let merged ← addParameterList d owner (operation.get? "parameters") shared
  let parameters ← reconcile route owner merged
  let requestBody ← requestBody d owner (operation.get? "requestBody")
  let responses ← responses d owner (operation.get? "responses")
  return { operationId := id, method, route, summary := textOf operation "summary", parameters, requestBody, responses }

/-- Collects the operations of a path item; `acc` are those collected before. -/
def itemOperations (d : Description) (route : Route.Template) (item : Json.Members) :
    Json.Members → List RawOperation → Extract (List RawOperation)
  | [], acc => pure acc
  | (key, v) :: rest, acc => do
    match method? key, v with
    | some method, .obj members =>
      let id ← operationId members method route.raw
      if acc.any (·.operationId == id) then throw (.duplicateOperation id)
      let op ← operation d route item members method id
      itemOperations d route item rest (acc ++ [op])
    | _, _ => itemOperations d route item rest acc

/-- Collects the operations of path items. -/
def pathOperations (d : Description) : Json.Members → List RawOperation → Extract (List RawOperation)
  | [], acc => pure acc
  | (path, .obj item) :: rest, acc => do
    if Json.Members.has item "$ref" then
      warn s!"path:{path}" "path_item_ref" "path item references are not followed; skipped"
      pathOperations d rest acc
    else match Route.Template.parse path with
      | .error e => throw e
      | .ok route => pathOperations d rest (← itemOperations d route item item acc)
  | _ :: rest, acc => pathOperations d rest acc

end Extract

/-- The operations of a description, in document order. -/
def operationsOf (d : Description) : Extract (List RawOperation) :=
  Extract.pathOperations d ((d.paths?).getD []) []

end ApiForge
