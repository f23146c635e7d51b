import ApiForge.CompileError
import ApiForge.Description.Basic
import ApiForge.Json.Printer
import ApiForge.Naming.Allocator
import ApiForge.Naming.Identifier
import ApiForge.Rule.Compile
import ApiForge.Text.Basic

/-!
# Resolving schemas

A resolver turns the raw schemas of a description into nodes. It follows references through all documents, gives every
record, enumeration and named schema a type name of its own, and compiles the rules of fields as they are built. What
it has found stays with it also when a schema turns out to be wrong.

* `Resolver.resolveComponents` resolves the named schemas of the root document.
* `Resolver.resolveInline` resolves a schema found in an operation.
* `Resolver.synthesizeObject` makes a record of loose members such as parameters.

A schema is built from its parts by `buildStep`, which is given how the parts are built. The number of steps within one
another is bounded: a step either goes into a part of a document or follows a reference that is not yet open.
-/

namespace ApiForge.Schema

open Text Naming

/-! ## State -/

/-- A named schema: the document it stands in (the root document has no path) and its name. -/
structure RefKey where
  doc : Option String
  name : String
  deriving DecidableEq

/-- A key as it is shown in a chain of references. -/
def RefKey.text (k : RefKey) : String :=
  match k.doc with
  | some doc => doc ++ "#" ++ k.name
  | none => k.name

/-- What a resolver knows and has given out. -/
structure State where
  names : Allocator := {}
  /-- The type names of named schemas. -/
  components : List (RefKey × String) := []
  resolved : List (RefKey × Node) := []
  /-- The declared nodes in the order of discovery; a place is taken before its node is complete. -/
  declared : Array (Option Node) := #[]
  rules : RuleCache := {}

/-- A computation of a resolver, which may fail and keeps its state either way. -/
abbrev Resolve := EStateM CompileError State

/-- What does not change while schemas are resolved. -/
structure Env where
  description : Description
  presence : Presence

/-- Where a raw schema stands. -/
structure Context where
  doc : Option String
  owner : String
  /-- The name for a declaration without a name of its own. -/
  hint : String
  /-- The type name of a named schema. -/
  component : Option String
  presence : Presence
  /-- The named schemas that are open, innermost first. -/
  stack : List RefKey

namespace Context

/-- The context of a part of a schema. -/
def child (c : Context) (hint : String) : Context := { c with hint, component := none }

/-- The error about an unsupported construct. -/
def unsupported (c : Context) (detail : String) : CompileError := .unsupportedConstruct c.owner detail

end Context

/-- How a raw schema is built. -/
abbrev Build := Json → Context → Resolve Node

/-! ## Names and places -/

/-- A new type name. -/
def allocateName (name : String) : Resolve String :=
  modifyGet fun s =>
    let (n, names) := s.names.allocate name
    (n, { s with names })

/-- The type name of a schema that is declared in any case. -/
def declaredName (c : Context) : Resolve String :=
  match c.component with
  | some name => pure name
  | none => allocateName c.hint

/-- The type name of a schema that is declared only if it is a named one. -/
def labelOf (c : Context) : String := c.component.getD c.hint

/-- Takes the next place for a declaration. -/
def openSlot : Resolve Nat :=
  modifyGet fun s => (s.declared.size, { s with declared := s.declared.push none })

/-- Puts a node into its place. -/
def fillSlot (slot : Nat) (node : Node) : Resolve Unit :=
  modify fun s => { s with declared := s.declared.setIfInBounds slot (some node) }

/-- Takes the next place, if one is wanted. -/
def openSlotIf (wanted : Bool) : Resolve (Option Nat) := if wanted then some <$> openSlot else pure none

/-- Puts a node into its place, if it has one. -/
def fillSlotIf (slot : Option Nat) (node : Node) : Resolve Unit :=
  match slot with
  | some slot => fillSlot slot node
  | none => pure ()

/-- Takes a place and fills it, for a declared node. -/
def declareNode (node : Node) : Resolve Node := do
  fillSlotIf (← openSlotIf node.declared) node
  return node

/-- The rules of a field. -/
def rulesOf (node : Node) (required : Bool) : Resolve (List Rule) :=
  modifyGet fun s =>
    let (rules, cache) := s.rules.fieldRules node required
    (rules, { s with rules := cache })

/-! ## Reading raw schemas -/

/-- A boolean member, false unless it is set. -/
def flag (ms : Json.Members) (key : String) : Bool := ((ms.get? key).bind Json.bool?).getD false

/-- A string member. -/
def textOf (ms : Json.Members) (key : String) : Option String := (ms.get? key).bind Json.text?

/-- The strings in a list member. -/
def textsOf (ms : Json.Members) (key : String) : List String :=
  (((ms.get? key).bind Json.items?).getD []).filterMap Json.text?

/-- A bound, from the member with the limit and the member that makes it exclusive or is an exclusive limit itself. -/
def boundOf (ms : Json.Members) (key exclusiveKey : String) : Option Bound :=
  match ms.get? exclusiveKey with
  | some (.num n) => some ⟨n.toFloat, true⟩
  | some (.bool exclusive) => ((ms.get? key).bind Json.float?).map (⟨·, exclusive⟩)
  | _ => ((ms.get? key).bind Json.float?).map (⟨·, false⟩)

/-- The conditions declared on a schema. -/
def constraintsOf (ms : Json.Members) (c : Context) : Except CompileError Constraints := do
  let pattern ← match textOf ms "pattern" with
    | none => pure none
    | some source => match TextPattern.parse? source with
      | some p => pure (some p)
      | none => throw (.invalidPattern c.owner source)
  let count := fun key => (ms.get? key).bind Json.natural?
  return {
    minLength := count "minLength"
    maxLength := count "maxLength"
    minimum := boundOf ms "minimum" "exclusiveMinimum"
    maximum := boundOf ms "maximum" "exclusiveMaximum"
    minItems := count "minItems"
    maxItems := count "maxItems"
    pattern }

/-- The conditions declared on a schema, inside a resolver. -/
def constraintsAt (ms : Json.Members) (c : Context) : Resolve Constraints :=
  match constraintsOf ms c with
  | .ok constraints => pure constraints
  | .error e => throw e

/-- The type that all members of an enumeration share. -/
def inferType (members : List Json) : Option String :=
  let present := members.filter (!·.isNull)
  if present.all (·.text?.isSome) then some "string"
  else if present.all (·.int?.isSome) then some "integer"
  else if present.all (·.float?.isSome) then some "number"
  else if present.all (·.bool?.isSome) then some "boolean"
  else none

/-- The declared or inferred type of a schema, and whether `null` is listed beside it. -/
def typeOf (ms : Json.Members) (c : Context) : Except CompileError (Option String × Bool) :=
  match ms.get? "type" with
  | some (.str t) => if t == "null" then .error (c.unsupported "schema of type null") else .ok (some t, false)
  | some (.arr types) =>
    let names := types.filterMap Json.text?
    match names.filter (· != "null") with
    | [single] => .ok (some single, names.contains "null")
    | [] => .error (c.unsupported "type list without a non-null type")
    | many => .error (c.unsupported ("type list [" ++ commaList many ++ "]"))
  | some other => .error (c.unsupported ("invalid type " ++ other.text))
  | none =>
    if ms.has "properties" then .ok (some "object", false)
    else if ms.has "items" then .ok (some "array", false)
    else match (ms.get? "enum").bind Json.items? with
      | some members => .ok (inferType members, false)
      | none => .ok (none, false)

/-- Replaces escapes in a pointer: `~1` stands for a slash and `~0` for a tilde. -/
def unescapePointer : List Char → List Char
  | '~' :: '1' :: cs => '/' :: unescapePointer cs
  | '~' :: '0' :: cs => '~' :: unescapePointer cs
  | c :: cs => c :: unescapePointer cs
  | [] => []

/-- Where the named schemas of a document stand. -/
def schemaPointer : String := "/components/schemas/"

/-- The named schema that a reference denotes; without a file it stands in the same document. -/
def parseRef (reference : String) (c : Context) : Except CompileError RefKey :=
  let (file, pointer) := (splitOnce? '#' reference).getD (reference, "")
  match afterLead? schemaPointer.toList pointer.toList with
  | some (n :: ns) =>
    if (n :: ns).contains '/' then .error (c.unsupported s!"reference '{reference}' is not a schema pointer")
    else .ok ⟨if file.isEmpty then c.doc else some file, String.ofList (unescapePointer (n :: ns))⟩
  | _ => .error (c.unsupported s!"reference '{reference}' is not a schema pointer")

/-- The raw schema of a key. -/
def Env.rawSchema? (env : Env) (key : RefKey) : Option Json :=
  ((env.description.documentFor? key.doc).bind Description.schemasOf).bind (·.get? key.name)

/-! ## Building nodes -/

/-- The chain of references from an open schema back to it. -/
def chainTo (key : RefKey) (stack : List RefKey) : List String :=
  let inner := stack.takeWhile (· != key)
  (key :: inner.reverse ++ [key]).map RefKey.text

/-- The type name of a named schema, given out on first use. -/
def componentName (key : RefKey) : Resolve String := do
  match (← get).components.find? (·.1 == key) with
  | some (_, name) => return name
  | none =>
    let name ← allocateName (pascalCase key.name)
    modify fun s => { s with components := (key, name) :: s.components }
    return name

/-- The context of a named schema. -/
def Context.ofKey (env : Env) (key : RefKey) (name : String) (stack : List RefKey) : Context :=
  ⟨key.doc, "schema:" ++ key.name, name, some name, env.presence, key :: stack⟩

/-- Builds and keeps the node of a named schema. -/
def buildKey (env : Env) (build : Build) (key : RefKey) (raw : Json) (stack : List RefKey) : Resolve Node := do
  let name ← componentName key
  let node ← build raw (.ofKey env key name stack)
  modify fun s => { s with resolved := (key, node) :: s.resolved }
  return node

/-- The node of a named schema: known already, or built now. -/
def resolveKey (env : Env) (build : Build) (key : RefKey) (owner reference : String) (stack : List RefKey) :
    Resolve Node := do
  match (← get).resolved.find? (·.1 == key) with
  | some (_, node) => return node
  | none =>
    if stack.contains key then throw (.cyclicSchema (chainTo key stack))
    else match env.rawSchema? key with
      | none => throw (.unresolvedReference owner reference)
      | some raw => buildKey env build key raw stack

/-- The node that a reference leads to. -/
def resolveRef (env : Env) (build : Build) (reference : String) (c : Context) : Resolve Node :=
  match parseRef reference c with
  | .error e => throw e
  | .ok key => resolveKey env build key c.owner reference c.stack

/-- A reference node. -/
def referenceNode (target : Node) (nullable : Bool) (c : Context) : Resolve Node :=
  declareNode {
    name := c.component.getD target.name
    kind := .reference target
    declared := c.component.isSome
    nullable
    format := none
    constraints := {}
    description := none }

/-- A scalar node. -/
def scalarNode (c : Context) (kind : ScalarKind) (nullable : Bool) (ms : Json.Members) : Resolve Node := do
  let constraints ← constraintsAt ms c
  let oneOf := (((ms.get? "enum").bind Json.items?).getD []).filter (!·.isNull)
  declareNode {
    name := labelOf c
    kind := .scalar kind
    declared := c.component.isSome
    nullable
    format := textOf ms "format"
    constraints := { constraints with oneOf }
    description := textOf ms "description" }

/-- The texts of an enumeration of strings, without `null`. -/
def enumTexts (c : Context) : List Json → Except CompileError (List String)
  | [] => .ok []
  | .str s :: rest => (enumTexts c rest).map (s :: ·)
  | .null :: rest => enumTexts c rest
  | other :: _ => .error (c.unsupported ("string enum member " ++ other.text ++ " is not a string"))

/-- An enumeration of strings. -/
def enumNode (ms : Json.Members) (members : List Json) (nullable : Bool) (c : Context) : Resolve Node := do
  match enumTexts c members with
  | .error e => throw e
  | .ok [] => throw (c.unsupported "enum without members")
  | .ok texts =>
    let name ← declaredName c
    let slot ← openSlot
    let constraints ← constraintsAt ms c
    let node : Node := {
      name
      kind := .enumeration texts
      declared := true
      nullable
      format := none
      constraints
      description := textOf ms "description" }
    fillSlot slot node
    return node

/-- The element of an array; without a schema every value is one. -/
def elementNode (build : Build) (ms : Json.Members) (c : Context) : Resolve Node :=
  match ms.get? "items" with
  | some items => build items c
  | none => scalarNode c .any false []

/-- An array node. -/
def arrayNode (build : Build) (ms : Json.Members) (nullable : Bool) (c : Context) : Resolve Node := do
  let name := labelOf c
  let slot ← openSlotIf c.component.isSome
  let element ← elementNode build ms (c.child (name ++ "Item"))
  let constraints ← constraintsAt ms c
  let node : Node := {
    name
    kind := .array element
    declared := c.component.isSome
    nullable
    format := none
    constraints
    description := textOf ms "description" }
  fillSlotIf slot node
  return node

/-! ## Fields -/

/-- A member of a record before it is built. -/
structure Entry where
  key : String
  schema : Json
  required : Bool
  description : Option String

/-- The entries of the properties of a schema. -/
def entriesOf (ms : Json.Members) (required : String → Bool) : List Entry :=
  (((ms.get? "properties").bind Json.members?).getD []).map fun (key, schema) =>
    ⟨key, schema, required key, schema.textAt? "description"⟩

/-- Removes raw marks at the start of an identifier. -/
def dropRawMarks : List Char → List Char
  | 'r' :: '#' :: cs => dropRawMarks cs
  | cs => cs

/-- The identifier, or its first numbered variant that is not taken. -/
def uniqueIdent (taken : List String) (ident : String) : String :=
  if taken.contains ident then
    let base := String.ofList (dropRawMarks ident.toList)
    let candidates := (List.range (taken.length + 1)).map fun i => s!"{base}_{i + 2}"
    (candidates.find? (!taken.contains ·)).getD ident
  else ident

/-- Whether a field may be left out of a generated record. -/
def optionalPresence (required : Bool) (presence : Presence) : Bool := !required || presence == .explicit

/-- Builds the fields of a record in order. -/
def buildFields (build : Build) (ownerName : String) (c : Context) (taken : List String) :
    List Entry → Resolve (List Field)
  | [] => pure []
  | e :: es => do
    let type ← build e.schema (c.child (ownerName ++ pascalCase e.key))
    let name := uniqueIdent taken (fieldIdent e.key)
    let rules ← rulesOf type e.required
    let field : Field := {
      name
      wireKey := e.key
      type
      required := e.required
      optionalPresence := optionalPresence e.required c.presence
      rules
      description := e.description }
    return field :: (← buildFields build ownerName c (name :: taken) es)

/-- A record node that is complete but for its fields. -/
def recordNode (name : String) (fields : List Field) (nullable : Bool) (description : Option String) : Node :=
  { name, kind := .object fields, declared := true, nullable, format := none, constraints := {}, description }

/-- An object node. -/
def objectNode (build : Build) (ms : Json.Members) (nullable : Bool) (c : Context) : Resolve Node := do
  let name ← declaredName c
  let slot ← openSlot
  let required := textsOf ms "required"
  let fields ← buildFields build name c [] (entriesOf ms required.contains)
  let node := recordNode name fields nullable (textOf ms "description")
  fillSlot slot node
  return node

/-! ## Composition -/

/-- Replaces the field with the same wire key where it stands, or appends the field. -/
def mergeField (fields : List Field) (field : Field) : List Field :=
  if fields.any (·.wireKey == field.wireKey) then
    fields.map fun f => if f.wireKey == field.wireKey then field else f
  else fields ++ [field]

/-- The fields and required keys collected from the members of a composition. -/
structure Merged where
  fields : List Field := []
  required : List String := []

/-- Adds required keys that are new. -/
def Merged.require (m : Merged) (keys : List String) : Merged :=
  { m with required := keys.foldl (fun acc k => if acc.contains k then acc else acc ++ [k]) m.required }

/-- Adds fields. -/
def Merged.merge (m : Merged) (fields : List Field) : Merged :=
  { m with fields := fields.foldl mergeField m.fields }

/-- The fields of the record that a member of a composition refers to. -/
def referredFields (env : Env) (build : Build) (reference : String) (c : Context) : Resolve (List Field) := do
  let target ← resolveRef env build reference c
  if target.isObject then return target.fields
  else throw (c.unsupported s!"allOf member '{reference}' is not an object schema")

/-- Collects one member of a composition, given how an inline member is collected. -/
def mergeMember (env : Env) (build : Build) (inline : Json.Members → Merged → Resolve Merged) (c : Context)
    (ms : Json.Members) (m : Merged) : Resolve Merged :=
  match textOf ms "$ref" with
  | some reference => m.merge <$> referredFields env build reference c
  | none => inline ms m

/-- Collects the members of a composition, one after another. -/
def mergeMembers (env : Env) (build : Build) (inline : Json.Members → Merged → Resolve Merged) (c : Context) :
    List Json → Merged → Resolve Merged
  | [], m => pure m
  | .obj ms :: rest, m => do
    let m ← mergeMember env build inline c ms m
    mergeMembers env build inline c rest m
  | _ :: _, _ => throw (c.unsupported "allOf member must be a schema object")

/-- Collects the list of members of a composition, if there is one. -/
def mergeList (env : Env) (build : Build) (inline : Json.Members → Merged → Resolve Merged) (c : Context) :
    Option Json → Merged → Resolve Merged
  | none, m => pure m
  | some (.arr members), m => mergeMembers env build inline c members m
  | some _, _ => throw (c.unsupported "allOf must be a list")

/-- Whether a schema can be a part of a composition. -/
def isComposable (ms : Json.Members) : Bool :=
  textOf ms "type" == some "object" || ms.has "properties" || ms.has "allOf"

/-- Collects the required keys and properties of a part of a composition. -/
def mergeOwn (build : Build) (ownerName : String) (c : Context) (ms : Json.Members) (m : Merged) :
    Resolve Merged := do
  if isComposable ms then
    let fields ← buildFields build ownerName c [] (entriesOf ms fun _ => false)
    return (m.require (textsOf ms "required")).merge fields
  else throw (c.unsupported "allOf member is not an object schema")

/-- Collects a composition: its members, then its own required keys and properties. -/
def mergeAllOf (env : Env) (build : Build) (ownerName : String) (c : Context) :
    (levels : Nat) → Json.Members → Merged → Resolve Merged
  | 0, _, m => pure m
  | levels + 1, ms, m => do
    let m ← mergeList env build (mergeAllOf env build ownerName c levels) c (ms.get? "allOf") m
    mergeOwn build ownerName c ms m

/-- The rules of a field after it may have become required. -/
def settledRules (f : Field) (required : Bool) : Resolve (List Rule) :=
  if required != f.required then rulesOf f.type required else pure f.rules

/-- Gives the collected fields their final presence, rules and identifiers. -/
def settleFields (c : Context) (required : List String) (taken : List String) : List Field → Resolve (List Field)
  | [] => pure []
  | f :: fs => do
    let must := f.required || required.contains f.wireKey
    let rules ← settledRules f must
    let name := uniqueIdent taken f.name
    let field : Field :=
      { f with name, required := must, rules, optionalPresence := optionalPresence must c.presence }
    return field :: (← settleFields c required (name :: taken) fs)

/-- The record of a composition. -/
def allOfNode (env : Env) (build : Build) (ms : Json.Members) (c : Context) : Resolve Node := do
  let name ← declaredName c
  let slot ← openSlot
  let merged ← mergeAllOf env build name c (Json.membersDepth ms + 1) ms {}
  let fields ← settleFields c merged.required [] merged.fields
  let node := recordNode name fields (flag ms "nullable") (textOf ms "description")
  fillSlot slot node
  return node

/-- Whether a member of a union is the null type. -/
def isNullMember (v : Json) : Bool := v.textAt? "type" == some "null"

/-- Replaces the first declared node with the same name. -/
def replaceDeclared (node : Node) (declared : Array (Option Node)) : Array (Option Node) :=
  match declared.findIdx? (·.any (·.name == node.name)) with
  | some i => declared.setIfInBounds i (some node)
  | none => declared

/-- Adds `null` to the values of a node, also where the node is declared. -/
def makeNullable (node : Node) : Resolve Node := do
  let node := { node with nullable := true }
  modify fun s => { s with declared := if node.declared then replaceDeclared node s.declared else s.declared }
  return node

/-- A union of one schema with `null`, or of one schema alone. -/
def unionNode (build : Build) (members : Json) (c : Context) : Resolve Node := do
  match members.items? with
  | none => throw (c.unsupported "oneOf/anyOf must be a list")
  | some members =>
    match members.filter (!isNullMember ·) with
    | [single] =>
      let node ← build single c
      if node.nullable || !members.any isNullMember then return node else makeNullable node
    | others => throw (c.unsupported s!"oneOf/anyOf with {others.length} non-null members")

/-! ## Schemas -/

/-- A schema with a declared or inferred type. -/
def typedNode (build : Build) (ms : Json.Members) (c : Context) : Resolve Node := do
  match typeOf ms c with
  | .error e => throw e
  | .ok (type, listed) =>
    let nullable := listed || flag ms "nullable"
    match type with
    | some "object" => objectNode build ms nullable c
    | some "array" => arrayNode build ms nullable c
    | some "string" =>
      match (ms.get? "enum").bind Json.items? with
      | some members => enumNode ms members nullable c
      | none => scalarNode c (if textOf ms "format" == some "date-time" then .dateTime else .string) nullable ms
    | some "integer" => scalarNode c .integer nullable ms
    | some "number" => scalarNode c .number nullable ms
    | some "boolean" => scalarNode c .boolean nullable ms
    | none => scalarNode c .any nullable ms
    | some other => throw (c.unsupported s!"unknown type '{other}'")

/-- Builds a schema object: a reference, a composition, a union or a typed schema. -/
def formNode (env : Env) (build : Build) (ms : Json.Members) (c : Context) : Resolve Node :=
  match textOf ms "$ref" with
  | some reference => do
    let target ← resolveRef env build reference c
    referenceNode target (flag ms "nullable") c
  | none =>
    if ms.has "allOf" then allOfNode env build ms c
    else match (ms.get? "oneOf").or (ms.get? "anyOf") with
      | some members => unionNode build members c
      | none => typedNode build ms c

/-- Builds a schema, given how its parts are built. -/
def buildStep (env : Env) (build : Build) : Build := fun raw c =>
  match raw with
  | .obj ms => formNode env build ms c
  | .bool true => scalarNode c .any false []
  | _ => throw (c.unsupported ("schema must be an object, found " ++ raw.text))

/-- Builds a schema in at most `steps` steps within one another. -/
def build (env : Env) : (steps : Nat) → Build
  | 0 => fun _ c => throw (.cyclicSchema (c.stack.reverse.map RefKey.text))
  | steps + 1 => buildStep env (build env steps)

/-- The number of named schemas of all documents. -/
def Env.keyCount (env : Env) : Nat :=
  let count := fun doc => (((Description.schemasOf doc).bind Json.members?).getD []).length
  env.description.external.foldl (fun n e => n + count e.2) (count env.description.document)

/-- The greatest depth of a document. -/
def Env.depth (env : Env) : Nat :=
  (env.description.external.map fun e => e.2.depth).foldl max env.description.document.depth

/-- A number of steps that is enough for every schema no deeper than `depth`. -/
def Env.steps (env : Env) (depth : Nat) : Nat := (env.keyCount + 1) * (max env.depth depth + 2)

/-! ## Resolvers -/

/-- A member of a record that is made of loose parts; a missing schema is a plain string. -/
structure Member where
  key : String
  schema : Option Json
  required : Bool
  description : Option String

/-- The names of the schemas of the root document. -/
def Env.rootKeys (env : Env) : List String := ((env.description.schemas?).getD []).map (·.1)

/-- Reserves a type name for a named schema of the root document. -/
def State.reserve (s : State) (key : String) : State :=
  let (name, names) := s.names.allocate (pascalCase key)
  { s with names, components := s.components ++ [(⟨none, key⟩, name)] }

/-- A resolver with type names reserved for the named schemas of the root document, in their order. -/
def State.initial (env : Env) : State := env.rootKeys.foldl State.reserve {}

/-- Resolves named schemas of the root document. -/
def resolveKeys (env : Env) (build : Build) : List String → Resolve (List (String × Node))
  | [] => pure []
  | key :: keys => do
    let node ← resolveKey env build ⟨none, key⟩ ("schema:" ++ key) ("#" ++ schemaPointer ++ key) []
    return (key, node) :: (← resolveKeys env build keys)

/-- Resolves the named schemas of the root document, in their order. -/
def resolveComponents (env : Env) : Resolve (List (String × Node)) :=
  resolveKeys env (build env (env.steps 0)) env.rootKeys

/-- Resolves a schema that stands in an operation. -/
def resolveInline (env : Env) (raw : Json) (hint owner : String) : Resolve Node :=
  build env (env.steps raw.depth) raw ⟨none, owner, hint, none, env.presence, []⟩

/-- The schema of a plain string. -/
def stringSchema : Json := .obj [("type", .str "string")]

/-- Makes a declared record of loose members. -/
def synthesizeObject (env : Env) (hint : String) (members : List Member) (presence : Presence) (owner : String) :
    Resolve Node := do
  let name ← allocateName hint
  let slot ← openSlot
  let entries := members.map fun m => (⟨m.key, m.schema.getD stringSchema, m.required, m.description⟩ : Entry)
  let depth := (entries.map (·.schema.depth)).foldl max 0
  let fields ← buildFields (build env (env.steps depth)) name ⟨none, owner, name, none, presence, []⟩ [] entries
  let node := recordNode name fields false none
  fillSlot slot node
  return node

/-- The declared nodes from a place on; places that were never filled are left out. -/
def State.declarationsSince (s : State) (mark : Nat) : List Node :=
  (s.declared.toList.drop mark).filterMap id

end ApiForge.Schema
