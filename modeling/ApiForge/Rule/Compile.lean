import ApiForge.Schema.Node

/-!
# Rules of schemas

The rules of declared nodes are kept under their type names and shared by every use.

* `RuleCache.valueRules` gives the rules that every present value of a node must satisfy.
* `RuleCache.fieldRules` puts the rule for presence before them.
* `RuleCache.ruleSet?` collects the rules of the fields of an object.
-/

namespace ApiForge

open Schema

/-- The rules compiled so far, by type name. -/
structure RuleCache where
  values : List (String × List Rule) := []
  sets : List (String × RuleSet) := []

/-- The rules of the fields of a record, as stored with them. -/
def RuleSet.ofFields (name : String) (fields : List Field) : RuleSet :=
  ⟨name, fields.map fun f => ⟨f.wireKey, f.type.isNullable, f.rules⟩⟩

/-- The rules of declared conditions, in a fixed order. -/
def leafRules (c : Constraints) : List Rule :=
  (c.minLength.map Rule.minLength).toList ++ (c.maxLength.map Rule.maxLength).toList ++
    (c.minimum.map Rule.minimum).toList ++ (c.maximum.map Rule.maximum).toList ++
    (c.minItems.map Rule.minItems).toList ++ (c.maxItems.map Rule.maxItems).toList ++
    (if c.oneOf.isEmpty then [] else [Rule.oneOf c.oneOf]) ++ (c.pattern.map Rule.pattern).toList

namespace RuleCache

/-- The cached value under a name. -/
def find? {α : Type} (entries : List (String × α)) (name : String) : Option α :=
  (entries.find? (·.1 == name)).map (·.2)

/-- Keeps the rules of a declared node. -/
def keep (cache : RuleCache) (declared : Bool) (name : String) (rules : List Rule) : RuleCache :=
  if declared then { cache with values := (name, rules) :: cache.values } else cache

/-- The rule set of a record, compiled once per declared name. -/
def setOf (cache : RuleCache) (name : String) (declared : Bool) (fields : List Field) : RuleSet × RuleCache :=
  match if declared then find? cache.sets name else none with
  | some set => (set, cache)
  | none =>
    let set := RuleSet.ofFields name fields
    (set, if declared then { cache with sets := (name, set) :: cache.sets } else cache)

/-- The rule set of an object node. -/
def ruleSet? (cache : RuleCache) (node : Node) : Option RuleSet × RuleCache :=
  match node.target with
  | ⟨name, .object fields, declared, _, _, _, _⟩ =>
    let (set, cache) := cache.setOf name declared fields
    (some set, cache)
  | _ => (none, cache)

/-- The rules of every present value of a node. -/
def valueRules : Node → RuleCache → List Rule × RuleCache
  | ⟨name, kind, declared, _, _, constraints, _⟩, cache =>
    match kind with
    | .reference target => valueRules target cache
    | .scalar k =>
      match if declared then find? cache.values name else none with
      | some rules => (rules, cache)
      | none =>
        let rules := (k.shape?.map Rule.type).toList ++ leafRules constraints
        (rules, cache.keep declared name rules)
    | .enumeration members =>
      match if declared then find? cache.values name else none with
      | some rules => (rules, cache)
      | none =>
        let rules := Rule.type .string :: leafRules constraints ++ [Rule.oneOf (members.map Json.str)]
        (rules, cache.keep declared name rules)
    | .object fields =>
      match if declared then find? cache.values name else none with
      | some rules => (rules, cache)
      | none =>
        let (set, cache) := cache.setOf name declared fields
        let rules := [Rule.type .object, Rule.fields set]
        (rules, cache.keep declared name rules)
    | .array element =>
      match if declared then find? cache.values name else none with
      | some rules => (rules, cache)
      | none =>
        let (inner, cache) := valueRules element cache
        let dive := if inner.isEmpty && element.nullable then [] else [Rule.elements inner element.nullable]
        let rules := Rule.type .array :: leafRules constraints ++ dive
        (rules, cache.keep declared name rules)

/-- The rules of a field: presence first, if it is required. -/
def fieldRules (cache : RuleCache) (node : Node) (required : Bool) : List Rule × RuleCache :=
  let (rules, cache) := valueRules node cache
  (if required then Rule.required :: rules else rules, cache)

end RuleCache

end ApiForge
