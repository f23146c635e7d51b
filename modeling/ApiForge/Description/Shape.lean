import ApiForge.Json.Basic
import ApiForge.Url.Basic

/-!
# Shapes of JSON values

A shape says which values may stand at a place. Members that a record does not name are ignored. Shapes may refer to
each other by name, so a family of shapes is a function from names to shapes.

* `ValueShape` is the language of shapes.
* `ValueShape.accepts` decides whether a value has a shape.
-/

namespace ApiForge

/-- Whether a member has to be there. -/
inductive Demand where
  /-- It has to be there. -/
  | required
  /-- It may be left out or be `null`. -/
  | optional
  /-- It may be left out, but not be `null`. -/
  | defaulted
  deriving DecidableEq

/-- The shape of a value, where `ν` names the shapes of a family. -/
inductive ValueShape (ν : Type) where
  | any
  | text
  | flag
  | natural
  | number
  /-- A text that is an absolute address. -/
  | address
  /-- One of these texts. -/
  | word (words : List String)
  | list (item : ValueShape ν)
  /-- An object whose members all have one shape. -/
  | map (value : ValueShape ν)
  /-- An object with these members. -/
  | record (fields : List (String × Demand × ValueShape ν))
  | either (first second : ValueShape ν)
  | named (name : ν)

namespace ValueShape

variable {ν : Type}

/-- Whether an object has a member as demanded. -/
def acceptsField (accepts : ValueShape ν → Json → Bool) (ms : Json.Members)
    (field : String × Demand × ValueShape ν) : Bool :=
  match Json.Members.get? ms field.1, field.2.1 with
  | none, demand => demand != .required
  | some .null, .optional => true
  | some v, _ => accepts field.2.2 v

/-- Whether a value has a shape of the family, tried for at most `fuel` steps into shape and value. -/
def accepts (family : ν → ValueShape ν) : (fuel : Nat) → ValueShape ν → Json → Bool
  | 0, _, _ => false
  | _ + 1, .any, _ => true
  | _ + 1, .text, v => v.text?.isSome
  | _ + 1, .flag, v => v.bool?.isSome
  | _ + 1, .natural, v => v.natural?.isSome
  | _ + 1, .number, v => v.float?.isSome
  | _ + 1, .address, v => (v.text?.bind Url.path?).isSome
  | _ + 1, .word words, v => v.text?.any words.contains
  | fuel + 1, .list item, v => v.items?.any fun xs => xs.all (accepts family fuel item)
  | fuel + 1, .map value, v => v.members?.any fun ms => ms.all fun m => accepts family fuel value m.2
  | fuel + 1, .record fields, v => v.members?.any fun ms => fields.all (acceptsField (accepts family fuel) ms)
  | fuel + 1, .either a b, v => accepts family fuel a v || accepts family fuel b v
  | fuel + 1, .named name, v => accepts family fuel (family name) v

end ValueShape

end ApiForge
