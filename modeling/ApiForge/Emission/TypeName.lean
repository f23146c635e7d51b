import ApiForge.Code.Basic
import ApiForge.Schema.Node

/-!
# Types of schemas

The type that a schema has in generated source: the name of its declaration, or the type of its shape.
-/

namespace ApiForge.Emission

open Code Schema

/-- The type of a scalar kind with a numeric format. -/
def scalarType (kind : ScalarKind) (format : Option String) : TypeExpr :=
  match kind with
  | .string => .named "String"
  | .dateTime => .named "String"
  | .integer => .named (if format == some "int32" then "i32" else "i64")
  | .number => .named (if format == some "float" then "f32" else "f64")
  | .boolean => .named "bool"
  | .any => .named "serde_json::Value"

mutual

/-- The type of a schema where it is used. -/
def typeExpr : Node → TypeExpr
  | ⟨name, kind, declared, _, format, _, _⟩ => if declared then .named name else kindExpr format kind

/-- The type of a shape. -/
def kindExpr (format : Option String) : Kind → TypeExpr
  | .reference target => typeExpr target
  | .scalar kind => scalarType kind format
  | .array element =>
    if element.isNullable then .vec (.option (typeExpr element)) else .vec (typeExpr element)
  | .enumeration _ => .named "String"
  | .object _ => .named "serde_json::Value"

end

/-- The type of a schema's shape, whether or not it is declared. -/
def shapeExpr (node : Node) : TypeExpr := kindExpr node.format node.kind

/-- An optional type, if asked for. -/
def optionIf (optional : Bool) (type : TypeExpr) : TypeExpr := if optional then .option type else type

end ApiForge.Emission
