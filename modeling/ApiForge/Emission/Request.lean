import ApiForge.Emission.Record
import ApiForge.Operation.Basic

/-!
# Requests of operations

One record per operation holds its parameter records and its body. Parameter records are always present; the body is
optional unless it is required, plain and not nullable.
-/

namespace ApiForge.Emission

open Code Schema Naming

/-- A new type name. -/
def takeName (name : String) : Resolve String := allocateName name

/-- The field of a parameter record. -/
def partField (part : Location × Node) : Code.Field :=
  { name := part.1.fieldName, type := .named part.2.name, attrs := [.list "validate" [.path "dive"]] }

/-- A media type in the documentation of a payload. -/
def payloadDoc (contentType : String) : String := "`" ++ contentType ++ "` payload"

/-- The field of the body. -/
def bodyField (owner : String) (presence : Presence) (body : RequestBody) : Emit Code.Field := do
  let nullable := body.node.isNullable
  let optional := !body.required || presence == .explicit || nullable
  let attrs ← validateAttr owner "body" (annotationRules body.node body.rules) (optional && !nullable)
  return {
    name := "body"
    type := optionIf optional (typeExpr body.node)
    docs := [payloadDoc body.contentType]
    attrs }

/-- A headline with a paragraph below it, if there is one. -/
def docWith (headline : String) : Option String → String
  | some text => headline ++ "\n\n" ++ text
  | none => headline

/-- The name of the request record of an operation. -/
def requestName (op : Operation) : String := pascalCase op.operationId ++ "Request"

/-- Declares the request record of an operation under a given name. -/
def emitRequest (root name : String) (presence : Presence) (op : Operation) : Emit Unit := do
  addImport (runtimeModule root) "Validate"
  let body ← match op.request.body with
    | some body => do pure [← bodyField name presence body]
    | none => pure []
  let doc := docWith ("Request parts of `" ++ op.operationId ++ "`") op.summary
  declare (.type ⟨name, [doc], [.derive ["Debug", "Clone", "PartialEq", "Validate"]],
    .record (op.request.parameterParts.map partField ++ body)⟩)

end ApiForge.Emission
