import ApiForge.Config
import ApiForge.Emission.Response
import ApiForge.Operation.Extract
import ApiForge.Operation.Resolve
import ApiForge.Route.Table

/-!
# Compiling descriptions

A compilation collects the operations, resolves the named schemas and then, operation by operation, resolves and
declares what the operation needs. Declarations come in this order: the route constants, the named schemas, and for
each operation its records, its request, its payloads and its envelope.
-/

namespace ApiForge

open Code Emission Schema

/-- The result of compiling a description. -/
structure Compilation where
  file : File
  /-- In order of declaration. -/
  operations : List Operation
  /-- The response types of each operation. -/
  responses : List ResponseModel
  routes : Route.Table
  diagnostics : List Diagnostic

namespace Compilation

/-- The operation with a given identity. -/
def operation? (c : Compilation) (id : String) : Option Operation := c.operations.find? (·.operationId == id)

/-- The constant with the base path. -/
def basePathConst (d : Description) : Constant :=
  ⟨"BASE_PATH", ["Server base path stripped before route matching"], textRef, .str d.basePath⟩

/-- The constant with the routes. -/
def routesConst (ops : List RawOperation) : Constant :=
  ⟨"ROUTES", ["`(method, template, operation_id)` in declaration order"],
    .ref none (.slice (.tuple [textRef, textRef, textRef])),
    .borrow (.array (ops.map fun op =>
      .tuple [.str op.method, .str op.route.raw, .str op.operationId]))⟩

/-- Declares nodes in order. -/
def emitNodes (root : String) : List Node → Emit Unit
  | [] => pure ()
  | n :: ns => do
    emitNode root n
    emitNodes root ns

/-- An operation with its response types, and the output so far. -/
structure Progress where
  output : Output
  operations : List Operation := []
  responses : List ResponseModel := []

/-- Resolves and declares one operation. -/
def compileOperation (env : Env) (root : String) (p : Progress) (raw : RawOperation) : Resolve Progress := do
  let mark := (← get).declared.size
  let op ← raw.resolve env
  let nodes := (← get).declarationsSince mark
  let requestName ← takeName (requestName op)
  let model ← takeResponseNames op
  let emit : Emit Unit := do
    emitNodes root nodes
    emitRequest root requestName env.presence op
    emitResponses root op model
  return ⟨(emit.run p.output).2, p.operations ++ [op], p.responses ++ [model]⟩

/-- Resolves and declares operations in order. -/
def compileOperations (env : Env) (root : String) : List RawOperation → Progress → Resolve Progress
  | [], p => pure p
  | raw :: rest, p => do
    let p ← compileOperation env root p raw
    compileOperations env root rest p

/-- Resolves and declares everything, given the collected operations. -/
def assemble (env : Env) (root : String) (ops : List RawOperation) : Resolve Progress := do
  let _ ← resolveComponents env
  let nodes := (← get).declarationsSince 0
  let start : Emit Unit := do
    declare (.const (basePathConst env.description))
    declare (.const (routesConst ops))
    emitNodes root nodes
  compileOperations env root ops ⟨(start.run { builder := { name := env.description.slug } }).2, [], []⟩

/-- The route of an operation. -/
def routeOf (op : Operation) : Route.Entry := ⟨op.method, op.route, op.operationId⟩

end Compilation

open Compilation in
/-- Compiles a description. -/
def compile (config : Config) (d : Description) : Except CompileError Compilation :=
  match (operationsOf d).run [] with
  | .error e _ => .error e
  | .ok ops diagnostics =>
    let env : Env := ⟨d, config.presence⟩
    match (assemble env config.importRoot ops).run (State.initial env) with
    | .error e _ => .error e
    | .ok p _ => .ok {
        file := p.output.builder.finish
        operations := p.operations
        responses := p.responses
        routes := ⟨p.operations.map routeOf, d.basePath⟩
        diagnostics }

end ApiForge
