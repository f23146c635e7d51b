import ApiForge.Decimal.Read
import ApiForge.Schema.Node
import ApiForge.Text.Basic

/-!
# Values of parameters

A parameter arrives as text and is read as the kind of value that its schema declares. Text of another form is kept,
so that the rule on the shape reports it.
-/

namespace ApiForge.Schema

open Text

/-- Reads text as a scalar. -/
def ScalarKind.coerce (raw : String) : ScalarKind → Json
  | .integer => match Decimal.signedInteger? raw with
    | some n => .num (.int n)
    | none => .str raw
  | .number => match (Decimal.ofText? raw).filter Decimal.isFinite with
    | some x => .num (.float x)
    | none => .str raw
  | .boolean => if raw == "true" then .bool true else if raw == "false" then .bool false else .str raw
  | _ => .str raw

/-- Reads one text. -/
def Node.coerce : Node → String → Json
  | ⟨_, .reference target, _, _, _, _, _⟩, raw => target.coerce raw
  | ⟨_, .array element, _, _, _, _, _⟩, raw => .arr ((split ',' raw).map element.coerce)
  | ⟨_, .scalar kind, _, _, _, _, _⟩, raw => kind.coerce raw
  | _, raw => .str raw

/-- Reads every occurrence of a parameter: arrays take all of them, other kinds the last. -/
def Node.coerceAll (node : Node) (raws : List String) : Option Json :=
  match node.element? with
  | some element =>
    if raws.isEmpty then none else some (.arr ((raws.flatMap (split ',')).map element.coerce))
  | none => raws.getLast?.map node.coerce

end ApiForge.Schema
