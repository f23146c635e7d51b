import ApiForge.Code.Builder
import ApiForge.Emission.TypeName
import ApiForge.Naming.Allocator
import ApiForge.Naming.Identifier
import ApiForge.Rule.Annotate
import ApiForge.Schema.Resolver
import ApiForge.Text.Ascii

/-!
# Declarations of schemas

Records, enumerations and aliases for resolved schemas. Patterns that a record needs are declared as constants before
the record.
-/

namespace ApiForge.Emission

open Code Schema Naming Text

/-- A file under construction, with the names of its pattern constants. -/
structure Output where
  builder : Builder
  constants : Allocator := {}
  indexed : builder.Indexed := by exact ApiForge.Code.Builder.indexed_new _

/-- A computation that adds to the output. -/
abbrev Emit := StateM Output

/-- Requests an import. -/
def addImport (module item : String) : Emit Unit :=
  modify fun o => { o with builder := o.builder.addImport module item, indexed := o.indexed.addImport module item }

/-- Adds a declaration, unless its name is taken. -/
def declare (d : Declaration) : Emit Unit :=
  modify fun o => { o with builder := (o.builder.declare d).2, indexed := o.indexed.declare d }

/-- The module of the runtime that generated source imports from. -/
def runtimeModule (root : String) : String := root ++ "::typed"

/-- The name of a constant: the snake case in capitals. -/
def screaming (s : String) : String := upperAscii (snakeCase s)

/-- The type of constant texts. -/
def textRef : TypeExpr := .ref none (.named "str")

/-- The constant for a pattern of a field, `depth` arrays deep. -/
def patternConstant (owner field : String) (p : TextPattern) (depth : Nat) :
    StateM (Allocator × List Constant) String :=
  modifyGet fun (names, constants) =>
    let wanted := screaming owner ++ "_" ++ screaming field ++ String.join (List.replicate depth "_ITEMS") ++ "_PATTERN"
    let (name, names) := names.allocate wanted
    (name, names, constants ++ [⟨name, [], textRef, .str p.source⟩])

/-- The attribute with the conditions of a field; its pattern constants are declared. -/
def validateAttr (owner field : String) (rules : List Rule) (optional : Bool) : Emit (List Meta) := do
  let (metas, names, constants) := (Rule.annotate (patternConstant owner field) optional 0 rules).run
    ((← get).constants, [])
  modify fun o => { o with constants := names }
  constants.forM fun c => declare (.const c)
  return (Rule.validateAttribute? metas).toList

/-- Whether a schema is an enumeration of strings. -/
def isTextEnum (node : Node) : Bool :=
  match node.target.kind with
  | .enumeration _ => true
  | _ => false

mutual

/-- A rule as far as it is said in an annotation; the members of an enumeration of texts are said by its type. -/
def annotationRule : Node → Rule → Option Rule
  | node, .oneOf members => if isTextEnum node then none else some (.oneOf members)
  | node, .elements inner nullable =>
    match node.element? with
    | some element => some (.elements (annotationRules element inner) nullable)
    | none => some (.elements inner nullable)
  | _, rule => some rule

/-- The rules that are said in an annotation. -/
def annotationRules : Node → List Rule → List Rule
  | _, [] => []
  | node, rule :: rules => (annotationRule node rule).toList ++ annotationRules node rules

end

/-- The identifier without raw marks. -/
def plainName (ident : String) : String := String.ofList (dropRawMarks ident.toList)

/-- The attribute with the wire form of a field, if it differs from the default. -/
def wireAttr (f : Schema.Field) : List Meta :=
  let rename := if plainName f.name == f.wireKey then [] else [Meta.nameValue "rename" (.str f.wireKey)]
  let skip :=
    if f.isOptional then
      [Meta.path "default", Meta.nameValue "skip_serializing_if" (.str "Option::is_none")]
    else []
  if (rename ++ skip).isEmpty then [] else [.list "serde" (rename ++ skip)]

/-- The declaration of a field. -/
def fieldDecl (owner : String) (f : Schema.Field) : Emit Code.Field := do
  let presenceOnly := f.isOptional && !f.type.isNullable
  let validate ← validateAttr owner (plainName f.name) (annotationRules f.type f.rules) presenceOnly
  return {
    name := f.name
    type := optionIf f.isOptional (typeExpr f.type)
    docs := f.description.toList
    attrs := wireAttr f ++ validate }

/-- The declarations of fields in order. -/
def fieldDecls (owner : String) : List Schema.Field → Emit (List Code.Field)
  | [] => pure []
  | f :: fs => do
    let decl ← fieldDecl owner f
    return decl :: (← fieldDecls owner fs)

/-- The first of a name and its numbered variants that is not taken. -/
def variantName (taken : List String) (base : String) : String := Allocator.fresh ⟨taken⟩ base

/-- The variants of an enumeration, each with its wire form. -/
def variants (taken : List String) : List String → List Variant
  | [] => []
  | member :: members =>
    let pascal := pascalCase member
    let name := variantName taken (if pascal == "_" then "Empty" else pascal)
    ⟨name, [.rename member]⟩ :: variants (name :: taken) members

/-- The traits of records. -/
def recordTraits : List String := ["Debug", "Clone", "PartialEq", "Serialize", "Deserialize", "Validate"]

/-- The traits of enumerations. -/
def enumTraits : List String :=
  ["Debug", "Clone", "Copy", "PartialEq", "Eq", "Hash", "Serialize", "Deserialize"]

/-- Declares a schema, unless its name is taken. -/
def emitNode (root : String) (node : Node) : Emit Unit := do
  if (← get).builder.isDeclared node.name then return
  let docs := node.description.toList
  match node.kind with
  | .object fields =>
    addImport "serde" "Deserialize"
    addImport "serde" "Serialize"
    addImport (runtimeModule root) "Validate"
    let decls ← fieldDecls node.name fields
    declare (.type ⟨node.name, docs, [.derive recordTraits], .record decls⟩)
  | .enumeration members =>
    addImport "serde" "Deserialize"
    addImport "serde" "Serialize"
    declare (.type ⟨node.name, docs, [.derive enumTraits], .enumeration (variants [] members)⟩)
  | _ => declare (.type ⟨node.name, docs, [], .alias (shapeExpr node)⟩)

end ApiForge.Emission
