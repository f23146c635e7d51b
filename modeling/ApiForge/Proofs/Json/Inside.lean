import ApiForge.Json.Basic

/-!
# What is inside a value

* `Json.Inside v w`: the value `v` is `w` itself or stands in it, at any depth.
-/

namespace ApiForge.Json

/-- The first value is the second one, or it stands in it at any depth. -/
inductive Inside (v : Json) : Json → Prop where
  | self : Inside v v
  | member {key : String} {w : Json} {ms : Members} : (key, w) ∈ ms → Inside v w → Inside v (.obj ms)
  | item {w : Json} {items : List Json} : w ∈ items → Inside v w → Inside v (.arr items)

theorem Inside.trans {u v w : Json} (h : u.Inside v) (h' : v.Inside w) : u.Inside w := by
  induction h' with
  | self => exact h
  | member hmem _ ih => exact .member hmem ih
  | item hmem _ ih => exact .item hmem ih

end ApiForge.Json
