import ApiForge.Emission.Request

/-!
# Responses of operations

Every declared status has a payload record. The envelope of an operation has a slot for each of them; its constructors
fill exactly one slot and set the status to match.
-/

namespace ApiForge.Emission

open Code Schema Naming

/-- The names of the types made for the responses of an operation. -/
structure ResponseModel where
  envelope : String
  /-- Statuses with the names of their payload records, in ascending order. -/
  payloads : List (Nat × String)

/-- The slot of a status. -/
def slotName (status : Nat) : String := s!"status_{status}"

/-- The body of a payload. -/
def payloadBody (v : ResponseVariant) : List Code.Field :=
  v.body.toList.map fun body =>
    { name := "body", type := optionIf body.isNullable (typeExpr body), docs := v.contentType.toList.map payloadDoc }

/-- The payload record of a status. -/
def payloadDecl (name : String) (v : ResponseVariant) : TypeDecl :=
  let headers := v.headers.toList.map fun h => ({ name := "headers", type := .named h.name } : Code.Field)
  ⟨name, [docWith s!"{v.status} response" v.description], [.derive ["Debug", "Clone", "PartialEq", "Serialize"]],
    .record (payloadBody v ++ headers)⟩

/-- The constructor that fills the slot of a status. -/
def constructor (envelope : String) (payloads : List (Nat × String)) (status : Nat) (payload : String) : Func :=
  let slots := payloads.map fun (other, _) =>
    (slotName other, if other == status then Expression.call "Some" [.path "payload"] else .path "None")
  { name := slotName status
    docs := ["`" ++ envelope ++ "` populating the " ++ toString status ++ " slot"]
    params := [("payload", .named payload)]
    result := some (.named "Self")
    body := [.tail (.record "Self" (("status_code", .int status) :: slots))] }

/-- The function that gives the chosen status. -/
def statusCodeFunc : Func :=
  { name := "status_code"
    receiver := .byRef
    result := some (.named "u16")
    body := [.tail (.field (.path "self") "status_code")] }

/-- The statements that list the statuses of filled slots. -/
def populatedBody (payloads : List (Nat × String)) : List Statement :=
  if payloads.isEmpty then [.tail (.call "Vec::new" [])]
  else
    .bind "populated" true (.call "Vec::new" []) ::
      payloads.map (fun (status, _) =>
        .cond (.method (.field (.path "self") (slotName status)) "is_some" [])
          [.expr (.method (.path "populated") "push" [.int status])] none) ++
      [.tail (.path "populated")]

/-- The function that lists the statuses of filled slots. -/
def populatedFunc (payloads : List (Nat × String)) : Func :=
  { name := "populated"
    receiver := .byRef
    result := some (.vec (.named "u16"))
    body := populatedBody payloads }

/-- The envelope record. -/
def envelopeDecl (op : Operation) (m : ResponseModel) : TypeDecl :=
  let status : Code.Field :=
    { name := "status_code", type := .named "u16", docs := ["Status the handler chose; names the populated slot"] }
  let slots := m.payloads.map fun (s, payload) =>
    ({ name := slotName s, type := .option (.named payload) } : Code.Field)
  ⟨m.envelope, ["Responses of `" ++ op.operationId ++ "`; exactly one slot is populated"],
    [.derive ["Debug", "Clone", "PartialEq"]], .record (status :: slots)⟩

/-- The constructors of an envelope, if it has slots. -/
def constructors (m : ResponseModel) : List ImplBlock :=
  if m.payloads.isEmpty then []
  else [{ target := m.envelope, funcs := m.payloads.map fun (s, p) => constructor m.envelope m.payloads s p }]

/-- The implementation of the runtime's view of an envelope. -/
def envelopeImpl (m : ResponseModel) : ImplBlock :=
  ⟨m.envelope, some "ResponseEnvelope", [statusCodeFunc, populatedFunc m.payloads]⟩

/-- The wanted names of the response types: the envelope first, then the payloads. -/
def responseNames (op : Operation) : String × List (Nat × String) :=
  let base := pascalCase op.operationId ++ "Response"
  (base, op.statuses.map fun s => (s, base ++ toString s))

/-- Takes names for payloads in order. -/
def takeNames : List (Nat × String) → Resolve (List (Nat × String))
  | [] => pure []
  | (status, wanted) :: rest => do
    let name ← takeName wanted
    return (status, name) :: (← takeNames rest)

/-- Takes names for the response types of an operation. -/
def takeResponseNames (op : Operation) : Resolve ResponseModel := do
  let (envelope, payloads) := responseNames op
  let envelope ← takeName envelope
  return ⟨envelope, ← takeNames payloads⟩

/-- Declares payload records in order. -/
def emitPayloads : List (ResponseVariant × String) → Emit Unit
  | [] => pure ()
  | (v, name) :: rest => do
    addImport "serde" "Serialize"
    declare (.type (payloadDecl name v))
    emitPayloads rest

/-- Declares the payloads and the envelope of an operation, with its functions. -/
def emitResponses (root : String) (op : Operation) (m : ResponseModel) : Emit Unit := do
  addImport (runtimeModule root) "ResponseEnvelope"
  emitPayloads (op.responses.zip (m.payloads.map (·.2)))
  declare (.type (envelopeDecl op m))
  (constructors m).forM fun b => declare (.impl b)
  declare (.impl (envelopeImpl m))

end ApiForge.Emission
