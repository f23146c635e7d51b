import ApiForge.Rule.Coerce
import ApiForge.Schema.Resolver

/-!
# Nodes without presence

Whether a field may be left out of a generated record is a matter of representation. A bare node is a node in which this
is forgotten everywhere.

* `Node.Like`: nodes that are the same when bare. They have the same name, the same target up to presence, the same
  fields up to presence with the same rules, and compile to the same rules (`valueRules_bare`).
* `State.Like`: states of a resolver that differ in nothing but presence.
-/

namespace ApiForge.Schema

mutual

/-- The node without the presence of its fields. -/
def Node.bare : Node → Node
  | ⟨name, kind, declared, nullable, format, constraints, description⟩ =>
    ⟨name, kind.bare, declared, nullable, format, constraints, description⟩

/-- The shape without the presence of its fields. -/
def Kind.bare : Kind → Kind
  | .scalar kind => .scalar kind
  | .enumeration members => .enumeration members
  | .object fields => .object (Field.bareAll fields)
  | .array element => .array element.bare
  | .reference target => .reference target.bare

/-- The fields without their presence. -/
def Field.bareAll : List Field → List Field
  | [] => []
  | ⟨name, wireKey, type, required, _, rules, description⟩ :: fs =>
    ⟨name, wireKey, type.bare, required, false, rules, description⟩ :: Field.bareAll fs

end

/-- The field without its presence. -/
def Field.bare (f : Field) : Field := { f with type := f.type.bare, optionalPresence := false }

theorem Field.bareAll_eq (fs : List Field) : Field.bareAll fs = fs.map Field.bare := by
  induction fs with
  | nil => rw [Field.bareAll, List.map_nil]
  | cons f fs ih =>
    obtain ⟨_, _, _, _, _, _, _⟩ := f
    rw [Field.bareAll, ih, List.map_cons, Field.bare]

theorem Field.bare_eq {f f' : Field} (h : f.bare = f'.bare) : f.name = f'.name ∧ f.wireKey = f'.wireKey ∧
    f.type.bare = f'.type.bare ∧ f.required = f'.required ∧ f.rules = f'.rules ∧ f.description = f'.description := by
  simpa only [Field.bare, Field.mk.injEq, true_and] using h

/-- Nodes that differ in nothing but presence. -/
def Node.Like (n n' : Node) : Prop := n.bare = n'.bare

/-- Lists of fields that differ in nothing but presence. -/
def Field.Alike (fs fs' : List Field) : Prop := fs.map Field.bare = fs'.map Field.bare

/-! ## What presence has no part in -/

section Nodes

variable (n : Node)

/-- A bare node is the node with a bare shape. -/
theorem Node.bare_eq : n.bare = { n with kind := n.kind.bare } := by
  obtain ⟨_, _, _, _, _, _, _⟩ := n
  rw [Node.bare]

@[simp] theorem Node.bare_name : n.bare.name = n.name := by rw [Node.bare_eq]

@[simp] theorem Node.bare_kind : n.bare.kind = n.kind.bare := by rw [Node.bare_eq]

@[simp] theorem Node.bare_declared : n.bare.declared = n.declared := by rw [Node.bare_eq]

@[simp] theorem Node.bare_nullable : n.bare.nullable = n.nullable := by rw [Node.bare_eq]

/-- Forgetting presence and following references commute. -/
theorem Node.bare_target : ∀ n : Node, n.bare.target = n.target.bare
  | ⟨_, .reference t, _, _, _, _, _⟩ => by
    rw [Node.bare, Kind.bare, Node.target, Node.target]
    exact Node.bare_target t
  | ⟨_, .scalar _, _, _, _, _, _⟩ | ⟨_, .enumeration _, _, _, _, _, _⟩ | ⟨_, .object _, _, _, _, _, _⟩
  | ⟨_, .array _, _, _, _, _, _⟩ => by simp only [Node.bare, Kind.bare, Node.target]

@[simp] theorem Node.bare_isNullable : n.bare.isNullable = n.isNullable := by
  simp only [Node.isNullable, Node.bare_target, Node.bare_nullable]

theorem Node.bare_fields : n.bare.fields = n.fields.map Field.bare := by
  unfold Node.fields
  rw [Node.bare_target, Node.bare_kind]
  cases n.target.kind <;> simp [Kind.bare, Field.bareAll_eq]

@[simp] theorem Node.bare_isObject : n.bare.isObject = n.isObject := by
  unfold Node.isObject
  rw [Node.bare_target, Node.bare_kind]
  cases n.target.kind <;> simp [Kind.bare]

theorem Node.bare_element? : n.bare.element? = n.element?.map Node.bare := by
  unfold Node.element?
  rw [Node.bare_target, Node.bare_kind]
  cases n.target.kind <;> simp [Kind.bare]

/-- Parameters are read in the same way. -/
theorem Node.bare_coerce : ∀ (n : Node) (raw : String), n.bare.coerce raw = n.coerce raw
  | ⟨_, .reference t, _, _, _, _, _⟩, raw => by
    rw [Node.bare, Kind.bare, Node.coerce, Node.coerce]
    exact Node.bare_coerce t raw
  | ⟨_, .array e, _, _, _, _, _⟩, raw => by
    rw [Node.bare, Kind.bare, Node.coerce, Node.coerce, funext (Node.bare_coerce e)]
  | ⟨_, .scalar _, _, _, _, _, _⟩, _ | ⟨_, .enumeration _, _, _, _, _, _⟩, _ | ⟨_, .object _, _, _, _, _, _⟩, _ => by
    simp only [Node.bare, Kind.bare, Node.coerce]

theorem Node.bare_coerceAll (raws : List String) : n.bare.coerceAll raws = n.coerceAll raws := by
  unfold Node.coerceAll
  rw [Node.bare_element?, funext (Node.bare_coerce n)]
  cases n.element? with
  | none => rfl
  | some e => simp only [Option.map_some, funext (Node.bare_coerce e)]

end Nodes

end ApiForge.Schema

/-! ## Rules -/

namespace ApiForge.RuleCache

open Schema

/-- The stored rules of fields. -/
theorem ofFields_bare (name : String) (fs : List Field) :
    RuleSet.ofFields name (fs.map Field.bare) = .ofFields name fs := by
  simp only [RuleSet.ofFields, List.map_map]
  congr 1
  exact List.map_congr_left fun f _ => by simp [Field.bare]

theorem setOf_bare (cache : RuleCache) (name : String) (declared : Bool) (fs : List Field) :
    cache.setOf name declared (fs.map Field.bare) = cache.setOf name declared fs := by
  simp only [RuleCache.setOf, ofFields_bare]

/-- Nodes that differ in nothing but presence compile to the same rules. -/
theorem valueRules_bare : ∀ (n : Node) (cache : RuleCache), valueRules n.bare cache = valueRules n cache
  | ⟨_, .reference t, _, _, _, _, _⟩, cache => by
    rw [Node.bare, Kind.bare, valueRules, valueRules]
    exact valueRules_bare t cache
  | ⟨_, .array e, _, _, _, _, _⟩, cache => by
    rw [Node.bare, Kind.bare, valueRules, valueRules]
    simp only [valueRules_bare e cache, Node.bare_nullable]
  | ⟨_, .object fs, _, _, _, _, _⟩, cache => by
    rw [Node.bare, Kind.bare, valueRules, valueRules]
    simp only [Field.bareAll_eq, setOf_bare]
  | ⟨_, .scalar _, _, _, _, _, _⟩, _ | ⟨_, .enumeration _, _, _, _, _, _⟩, _ => by rw [Node.bare, Kind.bare]

theorem fieldRules_bare (cache : RuleCache) (n : Node) (required : Bool) :
    cache.fieldRules n.bare required = cache.fieldRules n required := by
  simp only [RuleCache.fieldRules, valueRules_bare]

end ApiForge.RuleCache

/-! ## States -/

namespace ApiForge.Schema

/-- States that differ in nothing but presence. -/
structure State.Like (s t : State) : Prop where
  names : s.names = t.names
  components : s.components = t.components
  resolved : s.resolved.map (Prod.map id Node.bare) = t.resolved.map (Prod.map id Node.bare)
  declared : s.declared.map (Option.map Node.bare) = t.declared.map (Option.map Node.bare)
  rules : s.rules = t.rules

theorem State.Like.refl (s : State) : s.Like s := ⟨rfl, rfl, rfl, rfl, rfl⟩

section Like

variable {s t : State}

/-- The node of a named schema is found in both states or in neither. -/
theorem State.Like.find?_resolved (h : s.Like t) (key : RefKey) :
    (s.resolved.find? (·.1 == key)).map (·.2.bare) = (t.resolved.find? (·.1 == key)).map (·.2.bare) := by
  have hfind : ∀ l : List (RefKey × Node), (l.find? (·.1 == key)).map (·.2.bare) =
      ((l.map (Prod.map id Node.bare)).find? (·.1 == key)).map (·.2) := by
    intro l
    rw [List.find?_map, Option.map_map]
    rfl
  rw [hfind, hfind, h.resolved]

/-- The nodes declared from a place on. -/
theorem State.Like.declarationsSince (h : s.Like t) (mark : Nat) :
    (s.declarationsSince mark).map Node.bare = (t.declarationsSince mark).map Node.bare := by
  have hcommute : ∀ l : List (Option Node),
      (l.filterMap id).map Node.bare = (l.map (Option.map Node.bare)).filterMap id := by
    intro l
    rw [List.map_filterMap, List.filterMap_map]
    rfl
  have hlist := congrArg Array.toList h.declared
  rw [Array.toList_map, Array.toList_map] at hlist
  unfold State.declarationsSince
  rw [hcommute, hcommute, List.map_drop, List.map_drop, hlist]

theorem State.Like.declared_size (h : s.Like t) : s.declared.size = t.declared.size := by
  have := congrArg Array.size h.declared
  rwa [Array.size_map, Array.size_map] at this

/-- Replacing a declared node by its name. -/
theorem map_replaceDeclared (n : Node) (declared : Array (Option Node)) :
    (replaceDeclared n declared).map (Option.map Node.bare) =
      replaceDeclared n.bare (declared.map (Option.map Node.bare)) := by
  unfold replaceDeclared
  have hidx : (declared.map (Option.map Node.bare)).findIdx? (·.any (·.name == n.bare.name)) =
      declared.findIdx? (·.any (·.name == n.name)) := by
    rw [Array.findIdx?_map]
    congr 1
    funext o
    cases o <;> simp
  rw [hidx]
  cases declared.findIdx? (·.any (·.name == n.name)) with
  | none => rfl
  | some i => simp only [Array.map_setIfInBounds, Option.map_some]

end Like

end ApiForge.Schema
