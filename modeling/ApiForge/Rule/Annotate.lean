import ApiForge.Code.Basic
import ApiForge.Decimal.Shortest
import ApiForge.Json.Printer
import ApiForge.Rule.Basic

/-!
# Rules as attributes

The conditions of a field as the content of an attribute on its declaration. Patterns are held in constants, which are
named on demand; the rule on the shape is left to the declared type.
-/

namespace ApiForge

open Code

/-- The value of a number without a fraction. -/
def wholeValue? (x : Float) : Option Int :=
  match Decimal.Parts.ofFloat x with
  | .finite negative b =>
    let size := Nat.pow 2 (-b.exponent).toNat
    if b.mantissa % size == 0 then
      let n : Int := (b.mantissa / size * Nat.pow 2 b.exponent.toNat : Nat)
      some (if negative then -n else n)
    else none
  | _ => none

/-- A number: as an integer if it is one of moderate size. -/
def numberLiteral (x : Float) : Expression :=
  match wholeValue? x with
  | some n => if n.natAbs < 9000000000000000 then .int n else .lit (.float x)
  | none => .lit (.float x)

/-- A member of an enumeration. -/
def memberLiteral : Json → Expression
  | .str s => .str s
  | .bool b => .lit (.bool b)
  | .num (.int n) => if n ≤ 9223372036854775807 then .int n else numberLiteral (Float.ofInt n)
  | .num (.float x) => numberLiteral x
  | v => .str v.text

namespace Rule

/-- The content of a two-sided condition, if it has a side. -/
def sides (low high : Option Expression) : List Meta :=
  (low.map (Meta.nameValue "min")).toList ++ (high.map (Meta.nameValue "max")).toList

/-- A list, if it has items. -/
def listUnlessEmpty (name : String) (items : List Meta) : List Meta :=
  if items.isEmpty then [] else [Meta.list name items]

/-- The last value that a rule gives. -/
def last? {α : Type} (rules : List Rule) (f : Rule → Option α) : Option α := rules.reverse.findSome? f

/-- The bound of a lower limit. -/
def minimum? (rules : List Rule) : Option Bound := last? rules fun
  | .minimum b => some b
  | _ => none

/-- The bound of an upper limit. -/
def maximum? (rules : List Rule) : Option Bound := last? rules fun
  | .maximum b => some b
  | _ => none

/-- A flag that is written only when set. -/
def flagMeta (name : String) (value : Bool) : List Meta :=
  if value then [Meta.nameValue name (.lit (.bool true))] else []

/-- The conditions on presence, length, range and number of items. -/
def sizeMetas (optional : Bool) (rules : List Rule) : List Meta :=
  let count := fun (f : Rule → Option Nat) => (last? rules f).map fun n => Expression.int n
  let length := sides (count fun | .minLength n => some n | _ => none) (count fun | .maxLength n => some n | _ => none)
  let items := sides (count fun | .minItems n => some n | _ => none) (count fun | .maxItems n => some n | _ => none)
  let low := minimum? rules
  let high := maximum? rules
  let range := sides (low.map (numberLiteral ·.value)) (high.map (numberLiteral ·.value)) ++
    flagMeta "exclusive_min" (low.any (·.exclusive)) ++ flagMeta "exclusive_max" (high.any (·.exclusive))
  (if optional then (rules.filter isRequired).map fun _ => Meta.path "required" else []) ++
    listUnlessEmpty "length" length ++ listUnlessEmpty "range" range ++ listUnlessEmpty "items" items

/-- The content of the attribute for a list of rules. `constant` names the constant of a pattern that lies `depth`
arrays deep; the presence rule shows only where the field is optional. -/
def annotate {m : Type → Type} [Monad m] (constant : TextPattern → Nat → m String) (optional : Bool) (depth : Nat)
    (rules : List Rule) : m (List Meta) := do
  return sizeMetas optional rules ++ (← contents depth rules)
where
  /-- The conditions on members, patterns and contents, in the order of the rules. -/
  contents (depth : Nat) : List Rule → m (List Meta)
    | [] => pure []
    | .oneOf members :: rules => do
      return Meta.list "one_of" (members.map fun v => .value (memberLiteral v)) :: (← contents depth rules)
    | .pattern p :: rules => do
      let name ← constant p depth
      return Meta.list "regex" [.nameValue "path" (.path name)] :: (← contents depth rules)
    | .fields _ :: rules => do return Meta.path "dive" :: (← contents depth rules)
    | .elements inner _ :: rules => do
      let nested := sizeMetas false inner ++ (← contents (depth + 1) inner)
      return listUnlessEmpty "dive" nested ++ (← contents depth rules)
    | _ :: rules => contents depth rules

/-- The attribute for a list of conditions, if there are any. -/
def validateAttribute? (metas : List Meta) : Option Meta :=
  if metas.isEmpty then none else some (.list "validate" metas)

end Rule

end ApiForge
