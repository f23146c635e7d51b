import ApiForge.Decimal.Layout
import ApiForge.Json.Printer
import ApiForge.Rule.Basic
import ApiForge.Rule.DateTime
import ApiForge.Text.Basic

/-!
# Evaluating rules

Evaluation lists every violated rule with its place. A value of the wrong shape violates that rule alone; the other
rules are checked independently.

* `checkValue` checks a present value, `checkField` a value that may be absent or `null`, `checkObject` a record.
-/

namespace ApiForge

open Text

/-- A violated rule. -/
structure Violation where
  path : String
  rule : RuleKind
  message : String
  deriving DecidableEq

/-- A violation on one line. -/
def Violation.text (v : Violation) : String := s!"{v.path} ({v.rule.name}): {v.message}"

namespace Rule

/-- The place of a member. -/
def memberPath (path key : String) : String := if path.isEmpty then key else path ++ "." ++ key

/-- The place of an item. -/
def itemPath (path : String) (index : Nat) : String := s!"{path}[{index}]"

/-- Whether a value has a shape. -/
def shapeAccepts (value : Json) : Shape → Bool
  | .string => value.text?.isSome
  | .integer => value.int?.isSome
  | .number => value.float?.isSome
  | .boolean => value.bool?.isSome
  | .dateTime => value.text?.any DateTime.isDateTime
  | .object => value.members?.isSome
  | .array => value.items?.isSome

/-- Whether a number respects a lower bound. -/
def reaches (x : Float) (b : Bound) : Bool := if b.exclusive then x > b.value else x ≥ b.value

/-- Whether a number respects an upper bound. -/
def staysWithin (x : Float) (b : Bound) : Bool := if b.exclusive then x < b.value else x ≤ b.value

/-- Equality with an enumeration member; numbers are compared by value. -/
def sameValue : Json → Json → Bool
  | .num a, .num b => a.toFloat == b.toFloat
  | a, b => a.same b

/-- A violation unless the condition holds. -/
def unless_ (ok : Bool) (path : String) (rule : RuleKind) (message : String) : List Violation :=
  if ok then [] else [⟨path, rule, message⟩]

/-- The bound of a message. -/
def boundText (b : Bound) : String := Decimal.Layout.plain.write b.value

/-- Checks a rule that does not look into containers. -/
def checkLeaf (value : Json) (path : String) : Rule → List Violation
  | .minLength n => match value with
    | .str s => unless_ (n ≤ s.length) path .minLength s!"must be at least {n} characters"
    | _ => []
  | .maxLength n => match value with
    | .str s => unless_ (s.length ≤ n) path .maxLength s!"must be at most {n} characters"
    | _ => []
  | .minimum b => match value with
    | .num x =>
      let mark := if b.exclusive then "> " else ">= "
      unless_ (reaches x.toFloat b) path .minimum ("must be " ++ mark ++ boundText b)
    | _ => []
  | .maximum b => match value with
    | .num x =>
      let mark := if b.exclusive then "< " else "<= "
      unless_ (staysWithin x.toFloat b) path .maximum ("must be " ++ mark ++ boundText b)
    | _ => []
  | .minItems n => match value with
    | .arr xs => unless_ (n ≤ xs.length) path .minItems s!"must contain at least {n} items"
    | _ => []
  | .maxItems n => match value with
    | .arr xs => unless_ (xs.length ≤ n) path .maxItems s!"must contain at most {n} items"
    | _ => []
  | .oneOf members =>
    unless_ (members.any (sameValue · value)) path .oneOf
      ("must be one of [" ++ commaList (members.map Json.text) ++ "]")
  | .pattern p => match value with
    | .str s => unless_ (p.accepts s) path .pattern s!"must match pattern '{p.source}'"
    | _ => []
  | _ => []

/-- The violation of a missing value. -/
def missing (path : String) : Violation := ⟨path, .required, "is required"⟩

/-- The violation of an unwanted `null`. -/
def unwantedNull (path : String) : Violation := ⟨path, .type, "must not be null"⟩

/-- The violation of a wrong shape. -/
def wrongShape (path : String) (shape : Shape) : Violation := ⟨path, .type, "expected " ++ shape.name⟩

mutual

/-- Checks a present value. -/
def checkValue (value : Json) (path : String) : List Rule → List Violation
  | [] => []
  | .type shape :: rules =>
    if shapeAccepts value shape then checkValue value path rules else [wrongShape path shape]
  | .fields set :: rules =>
    (match value with
      | .obj members => checkFields members path set
      | _ => []) ++ checkValue value path rules
  | .elements inner nullable :: rules =>
    (match value with
      | .arr items => (items.zipIdx.map fun (item, i) =>
          if item.isNull then (if nullable then [] else [unwantedNull (itemPath path i)])
          else checkValue item (itemPath path i) inner).flatten
      | _ => []) ++ checkValue value path rules
  | rule :: rules => checkLeaf value path rule ++ checkValue value path rules

/-- Checks the fields of a record. -/
def checkFields (members : Json.Members) (path : String) : RuleSet → List Violation
  | ⟨_, fs⟩ => checkFieldList members path fs

/-- Checks fields one by one. -/
def checkFieldList (members : Json.Members) (path : String) : List FieldRules → List Violation
  | [] => []
  | ⟨key, nullable, rules⟩ :: rest =>
    (match members.get? key with
      | none => if rules.any Rule.isRequired then [missing (memberPath path key)] else []
      | some .null =>
        if rules.any Rule.isRequired && !nullable then [unwantedNull (memberPath path key)] else []
      | some v => checkValue v (memberPath path key) rules) ++ checkFieldList members path rest

end

/-- Checks a value that may be absent. `null` is present on a nullable field; on another one it is unwanted if the
field is required and counts as absent if not. -/
def checkField (rules : List Rule) (nullable : Bool) (value : Option Json) (path : String) : List Violation :=
  match value with
  | none => if rules.any Rule.isRequired then [missing path] else []
  | some .null => if rules.any Rule.isRequired && !nullable then [unwantedNull path] else []
  | some v => checkValue v path rules

/-- Checks a value against the rules of a record. -/
def checkObject (set : RuleSet) (value : Json) (path : String) : List Violation :=
  match value with
  | .obj members => checkFields members path set
  | _ => [wrongShape path .object]

end Rule

end ApiForge
