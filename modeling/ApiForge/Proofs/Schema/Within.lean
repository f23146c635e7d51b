import ApiForge.Proofs.Schema.Registry

/-!
# Nodes among declarations

A resolved schema is a tree, and some of the nodes in it have a declaration of their own. Where such a node is used, its
type is only named, so the tree makes sense if all its declared nodes are among the declarations.

* `Kind.parts`: the nodes that a shape is made of; `Node.partOf_iff` takes a tree apart along them.
* `Node.Within n declared`: every declared node in `n` is one of `declared`, and no other one has a shape that needs a
  declaration. It holds of a node if it holds of its parts and the node itself stands there (`Node.within_iff`).
* `Node.meant`: the node that the type of a schema speaks of.
-/

namespace ApiForge.Schema

/-! ## Parts -/

/-- The nodes that a shape is made of. -/
def Kind.parts : Kind → List Node
  | .scalar _ => []
  | .enumeration _ => []
  | .object fields => fields.map (·.type)
  | .array element => [element]
  | .reference target => [target]

/-- Whether a shape can be written where it is used. Records and enumerations always have a declaration. -/
def Kind.isInline : Kind → Bool
  | .scalar _ => true
  | .enumeration _ => false
  | .object _ => false
  | .array _ => true
  | .reference _ => true

section Parts

variable {a b n : Node}

/-- A node stands in a tree at its root or in one of the parts. -/
theorem Node.partOf_iff : a.PartOf n ↔ a = n ∨ ∃ m ∈ n.kind.parts, a.PartOf m := by
  constructor
  · intro h
    cases h with
    | self => exact .inl rfl
    | element hk h => exact .inr ⟨_, by rw [hk]; exact List.mem_singleton_self _, h⟩
    | target hk h => exact .inr ⟨_, by rw [hk]; exact List.mem_singleton_self _, h⟩
    | field hk hf h => exact .inr ⟨_, by rw [hk]; exact List.mem_map_of_mem hf, h⟩
  · rintro (rfl | ⟨m, hm, h⟩)
    · exact .self
    · cases hk : n.kind with
      | scalar | enumeration => rw [hk] at hm; cases hm
      | object fields =>
        rw [hk] at hm
        obtain ⟨f, hf, rfl⟩ := List.mem_map.1 hm
        exact .field hk hf h
      | array element =>
        rw [hk] at hm
        obtain rfl := List.mem_singleton.1 hm
        exact .element hk h
      | reference target =>
        rw [hk] at hm
        obtain rfl := List.mem_singleton.1 hm
        exact .target hk h

theorem Node.PartOf.trans (hab : a.PartOf b) (hbn : b.PartOf n) : a.PartOf n := by
  induction hbn with
  | self => exact hab
  | element hk _ ih => exact .element hk ih
  | target hk _ ih => exact .target hk ih
  | field hk hf _ ih => exact .field hk hf ih

/-- The node at the end of the references stands in the tree. -/
theorem Node.target_partOf : ∀ n : Node, n.target.PartOf n
  | ⟨_, .reference t, _, _, _, _, _⟩ => .target rfl t.target_partOf
  | ⟨_, .scalar _, _, _, _, _, _⟩ | ⟨_, .enumeration _, _, _, _, _, _⟩ | ⟨_, .object _, _, _, _, _, _⟩
  | ⟨_, .array _, _, _, _, _, _⟩ => .self

end Parts

/-! ## Trees among declarations -/

/-- A node has a declaration or can be written where it is used. -/
def Node.StandsIn (declared : List Node) (a : Node) : Prop :=
  if a.declared then a ∈ declared else a.kind.isInline = true

/-- Every node in a tree has a declaration or can be written where it is used. -/
def Node.Within (n : Node) (declared : List Node) : Prop :=
  ∀ a : Node, a.PartOf n → a.StandsIn declared

section Within

variable {n : Node} {declared declared' : List Node}

theorem Node.StandsIn.mono {a : Node} (h : a.StandsIn declared) (hsub : declared ⊆ declared') :
    a.StandsIn declared' := by
  unfold StandsIn at h ⊢
  split
  · rename_i hd
    rw [if_pos hd] at h
    exact hsub h
  · rename_i hd
    rwa [if_neg hd] at h

theorem Node.Within.mono (h : n.Within declared) (hsub : declared ⊆ declared') : n.Within declared' :=
  fun a ha => (h a ha).mono hsub

theorem Node.within_iff :
    n.Within declared ↔ (∀ m ∈ n.kind.parts, m.Within declared) ∧ n.StandsIn declared := by
  constructor
  · intro h
    exact ⟨fun m hm a ha => h a (Node.partOf_iff.2 (.inr ⟨m, hm, ha⟩)), h n .self⟩
  · rintro ⟨hparts, hself⟩ a ha
    rcases Node.partOf_iff.1 ha with rfl | ⟨m, hm, ha⟩
    · exact hself
    · exact hparts m hm a ha

theorem Node.Within.part {a : Node} (h : n.Within declared) (ha : a.PartOf n) : a.Within declared :=
  fun b hb => h b (hb.trans ha)

/-- The types of the fields of a record, also of one that is referred to, stand in the tree. -/
theorem Node.Within.fields (h : n.Within declared) : ∀ f ∈ n.fields, f.type.Within declared := by
  intro f hf
  unfold Node.fields at hf
  split at hf
  · rename_i fields hk
    exact (h.part n.target_partOf).part (.field hk hf .self)
  · cases hf

end Within

/-! ## What a type speaks of -/

/-- The node that the type of a schema speaks of: what remains when references are followed and arrays are opened, as
far as they have no declaration. -/
def Node.meant : Node → Node
  | ⟨_, .array element, false, _, _, _, _⟩ => element.meant
  | ⟨_, .reference target, false, _, _, _, _⟩ => target.meant
  | n => n

theorem Node.meant_partOf : ∀ n : Node, n.meant.PartOf n
  | ⟨_, .array element, false, _, _, _, _⟩ => .element rfl element.meant_partOf
  | ⟨_, .reference target, false, _, _, _, _⟩ => .target rfl target.meant_partOf
  | ⟨_, .array _, true, _, _, _, _⟩ | ⟨_, .reference _, true, _, _, _, _⟩ | ⟨_, .scalar _, _, _, _, _, _⟩
  | ⟨_, .enumeration _, _, _, _, _, _⟩ | ⟨_, .object _, _, _, _, _, _⟩ => .self

end ApiForge.Schema
