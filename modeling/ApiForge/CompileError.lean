/-!
# Errors of a compilation

Each error names the schema, operation or route that it is about: `CompileError.owner`. The wording is in
`CompileError.message`.
-/

namespace ApiForge

/-- Why a description cannot be compiled. -/
inductive CompileError where
  /-- A reference to a schema that does not exist. -/
  | unresolvedReference (owner reference : String)
  /-- A chain of references that comes back to its start. -/
  | cyclicSchema (chain : List String)
  /-- A construct without a counterpart in generated source. -/
  | unsupportedConstruct (owner detail : String)
  /-- A pattern that is not a regular expression. -/
  | invalidPattern (owner source : String)
  /-- A path template that cannot be cut into segments. -/
  | invalidRouteTemplate (template reason : String)
  /-- An operation identity declared twice. -/
  | duplicateOperation (operation : String)
  deriving DecidableEq

namespace CompileError

/-- What the error is about. -/
def owner : CompileError → String
  | unresolvedReference owner _ => owner
  | cyclicSchema chain => match chain with
    | [] => ""
    | first :: _ => "schema:" ++ first
  | unsupportedConstruct owner _ => owner
  | invalidPattern owner _ => owner
  | invalidRouteTemplate template _ => "route:" ++ template
  | duplicateOperation operation => "operation:" ++ operation

/-- The wording of the error. -/
def message : CompileError → String
  | unresolvedReference owner reference => s!"{owner}: unresolved reference '{reference}'"
  | cyclicSchema chain => "cyclic schema: " ++ String.intercalate " -> " chain
  | unsupportedConstruct owner detail => s!"{owner}: unsupported construct: {detail}"
  | invalidPattern owner source => s!"{owner}: unsupported construct: invalid pattern '{source}'"
  | invalidRouteTemplate template reason => s!"invalid route template '{template}': {reason}"
  | duplicateOperation operation => s!"duplicate operation '{operation}'"

/-- The kind of the error; a bad pattern counts as an unsupported construct. -/
def kind : CompileError → String
  | unresolvedReference _ _ => "UnresolvedReference"
  | cyclicSchema _ => "CyclicSchema"
  | unsupportedConstruct _ _ => "UnsupportedConstruct"
  | invalidPattern _ _ => "UnsupportedConstruct"
  | invalidRouteTemplate _ _ => "InvalidRouteTemplate"
  | duplicateOperation _ => "DuplicateOperation"

end CompileError

end ApiForge
