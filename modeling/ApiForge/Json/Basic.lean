/-!
# JSON values

Objects keep the order of their members. A number is an integer in the signed or unsigned 64-bit range, or a binary64
number; the two kinds stay apart, so `1` and `1.0` are different values.

* `Json.get?` looks up a member, `Json.Members.insert` replaces in place or appends.
* `Json.same` is equality of values, for which the order of members does not count.
-/

namespace ApiForge

/-- A JSON number. -/
inductive Number where
  | int (value : Int)
  | float (value : Float)

/-- The binary64 number that a JSON number stands for or is rounded to. -/
def Number.toFloat : Number → Float
  | .int n => Float.ofInt n
  | .float x => x

/-- Equality within one kind of number. -/
def Number.same : Number → Number → Bool
  | .int a, .int b => a == b
  | .float a, .float b => a == b
  | _, _ => false

/-- A JSON value. -/
inductive Json where
  | null
  | bool (value : Bool)
  | num (value : Number)
  | str (value : String)
  | arr (items : List Json)
  | obj (members : List (String × Json))
  deriving Inhabited

namespace Json

/-- The members of an object, in order. -/
abbrev Members := List (String × Json)

/-- The value of the member named `key`. -/
def Members.get? (ms : Members) (key : String) : Option Json :=
  (ms.find? (·.1 == key)).map (·.2)

/-- Whether there is a member named `key`. -/
def Members.has (ms : Members) (key : String) : Bool := ms.any (·.1 == key)

/-- Replaces the value of `key` where it stands, or appends the member. -/
def Members.insert (ms : Members) (key : String) (value : Json) : Members :=
  if ms.has key then ms.map fun m => if m.1 == key then (key, value) else m else ms ++ [(key, value)]

/-- The members of a list in which a repeated key keeps its first place and its last value. -/
def Members.ofList (ms : Members) : Members :=
  ms.foldl (fun acc m => Members.insert acc m.1 m.2) []

/-- The members of an object. -/
def members? : Json → Option Members
  | obj ms => some ms
  | _ => none

/-- The items of an array. -/
def items? : Json → Option (List Json)
  | arr xs => some xs
  | _ => none

/-- The text of a string. -/
def text? : Json → Option String
  | str s => some s
  | _ => none

/-- The value of a boolean. -/
def bool? : Json → Option Bool
  | bool b => some b
  | _ => none

/-- A number rounded to binary64. -/
def float? : Json → Option Float
  | num n => some n.toFloat
  | _ => none

/-- An integer. -/
def int? : Json → Option Int
  | num (.int n) => some n
  | _ => none

/-- A nonnegative integer. -/
def natural? : Json → Option Nat
  | num (.int n) => if 0 ≤ n then some n.toNat else none
  | _ => none

/-- The member of an object; other values have no members. -/
def get? (v : Json) (key : String) : Option Json := v.members?.bind fun ms => Members.get? ms key

/-- The text of a string member. -/
def textAt? (v : Json) (key : String) : Option String := (v.get? key).bind text?

/-- Whether the value is `null`. -/
def isNull : Json → Bool
  | null => true
  | _ => false

/-- An integer value. -/
def ofInt (n : Int) : Json := num (.int n)

/-- A natural number value. -/
def ofNat (n : Nat) : Json := num (.int n)

/-- The value, or `null`. -/
def ofOption : Option Json → Json
  | some v => v
  | none => null

/-- A string, or `null`. -/
def ofText? (s : Option String) : Json := ofOption (s.map str)

mutual

/-- Equality of values; objects are equal when they have equal members in any order. -/
def same : Json → Json → Bool
  | null, null => true
  | bool a, bool b => a == b
  | num a, num b => a.same b
  | str a, str b => a == b
  | arr xs, arr ys => sameItems xs ys
  | obj ms, obj ns => ms.length == ns.length && sameMembers ms ns
  | _, _ => false

/-- Equality item by item. -/
def sameItems : List Json → List Json → Bool
  | [], [] => true
  | x :: xs, y :: ys => same x y && sameItems xs ys
  | _, _ => false

/-- Every member has an equal member on the other side. -/
def sameMembers : Members → Members → Bool
  | [], _ => true
  | (k, v) :: ms, ns =>
    (match Members.get? ns k with
      | some w => same v w
      | none => false) && sameMembers ms ns

end

mutual

/-- How deeply arrays and objects are nested, counting the value itself. -/
def depth : Json → Nat
  | arr xs => itemsDepth xs + 1
  | obj ms => membersDepth ms + 1
  | _ => 1

/-- The greatest depth of the items. -/
def itemsDepth : List Json → Nat
  | [] => 0
  | x :: xs => max (depth x) (itemsDepth xs)

/-- The greatest depth of the members. -/
def membersDepth : Members → Nat
  | [] => 0
  | (_, v) :: ms => max (depth v) (membersDepth ms)

end

end Json

end ApiForge
