import ApiForge.Rule.Basic

/-!
# Resolved schemas

A node is a schema in which no reference is open: a reference node holds the node it refers to.

* `Node.target` follows references to the node with a shape.
* `Node.isNullable` says whether `null` is a value of the node.
-/

namespace ApiForge

/-- How required fields are represented in generated records. -/
inductive Presence where
  /-- Required fields are plain, others optional. -/
  | standard
  /-- Every field is optional. -/
  | explicit
  deriving DecidableEq

/-- The word for a presence mode. -/
def Presence.name : Presence → String
  | standard => "standard"
  | explicit => "explicit"

/-- The presence mode with a given name. -/
def Presence.ofName? : String → Option Presence
  | "standard" => some standard
  | "explicit" => some explicit
  | _ => none

namespace Schema

/-- The primitive kinds of values. -/
inductive ScalarKind where
  | string
  | integer
  | number
  | boolean
  /-- A timestamp written as a string. -/
  | dateTime
  /-- Any JSON value. -/
  | any
  deriving DecidableEq

/-- The word for a scalar kind. -/
def ScalarKind.name : ScalarKind → String
  | string => "string"
  | integer => "integer"
  | number => "number"
  | boolean => "boolean"
  | dateTime => "date-time"
  | any => "any"

/-- The shape that a scalar kind asks for. -/
def ScalarKind.shape? : ScalarKind → Option Shape
  | string => some .string
  | integer => some .integer
  | number => some .number
  | boolean => some .boolean
  | dateTime => some .dateTime
  | any => none

/-- The conditions declared on a schema. -/
structure Constraints where
  minLength : Option Nat := none
  maxLength : Option Nat := none
  minimum : Option Bound := none
  maximum : Option Bound := none
  minItems : Option Nat := none
  maxItems : Option Nat := none
  pattern : Option TextPattern := none
  /-- The members of an enumeration that is not one of strings. -/
  oneOf : List Json := []

/-- Whether nothing is asked for. -/
def Constraints.isEmpty (c : Constraints) : Bool :=
  c.minLength.isNone && c.maxLength.isNone && c.minimum.isNone && c.maximum.isNone && c.minItems.isNone &&
    c.maxItems.isNone && c.pattern.isNone && c.oneOf.isEmpty

mutual

/-- A resolved schema. -/
structure Node where
  /-- The type name of a declared node, a label otherwise. -/
  name : String
  kind : Kind
  /-- Whether the node has a declaration of its own. -/
  declared : Bool
  nullable : Bool
  format : Option String
  constraints : Constraints
  description : Option String

/-- The shape of a node. -/
inductive Kind where
  | scalar (kind : ScalarKind)
  /-- An enumeration of strings. -/
  | enumeration (members : List String)
  | object (fields : List Field)
  | array (element : Node)
  | reference (target : Node)

/-- A field of an object. -/
structure Field where
  /-- The identifier in generated source. -/
  name : String
  wireKey : String
  type : Node
  required : Bool
  /-- Whether the field may be left out of a generated record. -/
  optionalPresence : Bool
  rules : List Rule
  description : Option String

end

namespace Node

/-- The node with a shape at the end of the references. -/
def target : Node → Node
  | ⟨_, .reference t, _, _, _, _, _⟩ => t.target
  | n => n

/-- Whether `null` is a value. -/
def isNullable (n : Node) : Bool := n.nullable || n.target.nullable

/-- The fields of an object node. -/
def fields (n : Node) : List Field :=
  match n.target.kind with
  | .object fields => fields
  | _ => []

/-- The field with a given wire key. -/
def field? (n : Node) (key : String) : Option Field := n.fields.find? (·.wireKey == key)

/-- Whether the node is an object. -/
def isObject (n : Node) : Bool :=
  match n.target.kind with
  | .object _ => true
  | _ => false

/-- Whether the node is an array. -/
def isArray (n : Node) : Bool :=
  match n.target.kind with
  | .array _ => true
  | _ => false

/-- The scalar kind; enumerations of strings count as strings. -/
def scalarKind? (n : Node) : Option ScalarKind :=
  match n.target.kind with
  | .scalar kind => some kind
  | .enumeration _ => some .string
  | _ => none

/-- The element node of an array. -/
def element? (n : Node) : Option Node :=
  match n.target.kind with
  | .array element => some element
  | _ => none

end Node

/-- Whether the generated field is optional. -/
def Field.isOptional (f : Field) : Bool := f.optionalPresence || f.type.isNullable

end Schema

end ApiForge
