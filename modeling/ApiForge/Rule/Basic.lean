import ApiForge.Json.Basic
import ApiForge.Pattern.Parser

/-!
# Validation rules

A rule is one condition on a JSON value. Rules for the contents of objects and arrays carry the rules of the contents.
-/

namespace ApiForge

/-- The JSON shape a value must have. -/
inductive Shape where
  | string
  | integer
  | number
  | boolean
  | dateTime
  | object
  | array
  deriving DecidableEq

/-- The word for a shape. -/
def Shape.name : Shape → String
  | string => "string"
  | integer => "integer"
  | number => "number"
  | boolean => "boolean"
  | dateTime => "date-time"
  | object => "object"
  | array => "array"

/-- A numeric bound. -/
structure Bound where
  value : Float
  exclusive : Bool

/-- A pattern with the expression that was read from it. -/
structure TextPattern where
  source : String
  regex : Pattern.Regex

/-- Reads a pattern. -/
def TextPattern.parse? (source : String) : Option TextPattern :=
  (Pattern.Regex.parse? source).map (⟨source, ·⟩)

/-- Whether a text contains a match. -/
def TextPattern.accepts (p : TextPattern) (text : String) : Bool := p.regex.occursIn text

mutual

/-- A condition on a value. -/
inductive Rule where
  /-- The value must be present. -/
  | required
  /-- The value must have this shape; nothing else is checked when it has not. -/
  | type (shape : Shape)
  | minLength (n : Nat)
  | maxLength (n : Nat)
  | minimum (bound : Bound)
  | maximum (bound : Bound)
  | minItems (n : Nat)
  | maxItems (n : Nat)
  /-- The value must be one of these. -/
  | oneOf (members : List Json)
  | pattern (p : TextPattern)
  /-- The members of an object must satisfy these rules. -/
  | fields (set : RuleSet)
  /-- The items of an array must satisfy these rules, or be `null` where that is allowed. -/
  | elements (rules : List Rule) (nullable : Bool)

/-- The rules of the fields of a record. -/
structure RuleSet where
  name : String
  fields : List FieldRules

/-- The rules of one field. -/
structure FieldRules where
  wireKey : String
  /-- Whether `null` is allowed. -/
  nullable : Bool
  rules : List Rule

end

/-- The rules of the field with a given key. -/
def RuleSet.field? (s : RuleSet) (key : String) : Option FieldRules := s.fields.find? (·.wireKey == key)

/-- What a rule is reported as. -/
inductive RuleKind where
  | required
  | type
  | minLength
  | maxLength
  | minimum
  | maximum
  | minItems
  | maxItems
  | oneOf
  | pattern
  | dive
  deriving DecidableEq

/-- The word for a kind of rule. -/
def RuleKind.name : RuleKind → String
  | required => "required"
  | type => "type"
  | minLength => "minLength"
  | maxLength => "maxLength"
  | minimum => "minimum"
  | maximum => "maximum"
  | minItems => "minItems"
  | maxItems => "maxItems"
  | oneOf => "enum"
  | pattern => "pattern"
  | dive => "dive"

/-- The kind of a rule. -/
def Rule.kind : Rule → RuleKind
  | required => .required
  | type _ => .type
  | minLength _ => .minLength
  | maxLength _ => .maxLength
  | minimum _ => .minimum
  | maximum _ => .maximum
  | minItems _ => .minItems
  | maxItems _ => .maxItems
  | oneOf _ => .oneOf
  | pattern _ => .pattern
  | fields _ => .dive
  | elements _ _ => .dive

/-- Whether a rule asks for presence. -/
def Rule.isRequired : Rule → Bool
  | required => true
  | _ => false

end ApiForge
