import ApiForge.Proofs.Schema.Session
import ApiForge.Proofs.Schema.Within

/-!
# Rules that are compiled for a node

The rules of a node are compiled in a session of a resolver, or alone with an empty cache. What they say about the
fields of objects differs, since it is stored with the fields; all else is read off the node.

* `Node.Compiled a rules`: the rules are compiled for the node.
* `Node.Ruled a rules`: the rules are those that the node asks for, whatever they say about the fields of objects.
* `Node.Compiled.ruled`: compiled rules are such rules.
-/

namespace ApiForge.Schema

/-- The rules are compiled for a node: alone, or after a session in which the node stands in an answer. -/
inductive Node.Compiled (a : Node) : List Rule → Prop where
  | alone : Node.Compiled a (RuleCache.valueRules a {}).1
  | session {env : Env} {s : State} {nodes : List Node} {n : Node} : Session env s nodes → n ∈ nodes → a.PartOf n →
      Node.Compiled a (s.rules.valueRules a).1

/-- The rules for the items of an array, given those of its element. -/
def itemRules (inner : List Rule) (nullable : Bool) : List Rule :=
  if inner.isEmpty && nullable then [] else [.elements inner nullable]

/-- The rules are those that a node asks for. -/
inductive Node.Ruled : Node → List Rule → Prop where
  | reference {n target : Node} {rules : List Rule} : n.kind = .reference target → Node.Ruled target rules →
      Node.Ruled n rules
  | scalar {n : Node} {kind : ScalarKind} : n.kind = .scalar kind →
      Node.Ruled n ((kind.shape?.map Rule.type).toList ++ leafRules n.constraints)
  | enumeration {n : Node} {members : List String} : n.kind = .enumeration members →
      Node.Ruled n (.type .string :: leafRules n.constraints ++ [.oneOf (members.map Json.str)])
  | object {n : Node} {fields : List Field} (set : RuleSet) : n.kind = .object fields →
      Node.Ruled n [.type .object, .fields set]
  | array {n element : Node} {inner : List Rule} : n.kind = .array element → Node.Ruled element inner →
      Node.Ruled n (.type .array :: leafRules n.constraints ++ itemRules inner element.nullable)

/-- The rules that are read off a node are such rules. -/
theorem Node.ruled_rules : ∀ n : Node, n.Ruled n.rules
  | ⟨_, .reference target, _, _, _, _, _⟩ => .reference rfl target.ruled_rules
  | ⟨_, .scalar _, _, _, _, _, _⟩ => .scalar rfl
  | ⟨_, .enumeration _, _, _, _, _, _⟩ => .enumeration rfl
  | ⟨_, .object _, _, _, _, _, _⟩ => .object _ rfl
  | ⟨_, .array element, _, _, _, _, _⟩ => .array rfl element.ruled_rules

section Alone

variable {cache : RuleCache}

/-- Nothing is found while no rules are kept: they are looked up before they are compiled, and kept after. -/
theorem find?_values (h : cache.values = []) (declared : Bool) (name : String) :
    (if declared then RuleCache.find? cache.values name else none) = none := by
  rw [h]
  cases declared <;> rfl

theorem valueRules_array (h : cache.values = []) {n element : Node} (hk : n.kind = .array element) :
    (cache.valueRules n).1 = .type .array :: leafRules n.constraints ++
      itemRules (cache.valueRules element).1 element.nullable := by
  obtain ⟨name, kind, declared, _, _, c, _⟩ := n
  subst hk
  rw [RuleCache.valueRules, find?_values h]
  rfl

theorem valueRules_ruled : ∀ (n : Node) {cache : RuleCache}, cache.values = [] → n.Ruled (cache.valueRules n).1
  | ⟨_, .reference target, _, _, _, _, _⟩, _, h => by
    rw [RuleCache.valueRules]
    exact .reference rfl (valueRules_ruled target h)
  | ⟨_, .scalar kind, _, _, _, _, _⟩, _, h => by
    rw [RuleCache.valueRules, find?_values h]
    exact .scalar rfl
  | ⟨_, .enumeration members, _, _, _, _, _⟩, _, h => by
    rw [RuleCache.valueRules, find?_values h]
    exact .enumeration rfl
  | ⟨_, .object fields, _, _, _, _, _⟩, _, h => by
    rw [RuleCache.valueRules, find?_values h]
    exact .object _ rfl
  | ⟨_, .array element, _, _, _, _, _⟩, _, h => by
    rw [valueRules_array h rfl]
    exact .array rfl (valueRules_ruled element h)

end Alone

section Compiled

variable {a element : Node} {rules : List Rule}

/-- After a session, the rules that are compiled for a node are those that are read off it. -/
theorem Session.valueRules_eq {env : Env} {s : State} {nodes : List Node} {n : Node} (h : Session env s nodes)
    (hn : n ∈ nodes) (ha : a.PartOf n) : (s.rules.valueRules a).1 = a.rules := by
  obtain ⟨ρ, hv, hsound⟩ := h.valid
  exact (RuleCache.valueRules_sound ((hsound n hn).part ha) hv.cache).1

theorem Node.Compiled.ruled (h : a.Compiled rules) : a.Ruled rules := by
  cases h with
  | alone => exact valueRules_ruled a rfl
  | session h hn ha =>
    rw [h.valueRules_eq hn ha]
    exact a.ruled_rules

/-- What is referred to has the same rules. -/
theorem Node.Compiled.target : ∀ {a : Node}, a.Compiled rules → a.target.Compiled rules
  | ⟨_, .reference t, _, _, _, _, _⟩, h => by
    have ht : t.Compiled rules := by
      cases h with
      | alone =>
        rw [RuleCache.valueRules]
        exact .alone
      | session h hn ha =>
        rw [RuleCache.valueRules]
        exact .session h hn (Node.PartOf.trans (.target rfl .self) ha)
    exact ht.target
  | ⟨_, .scalar _, _, _, _, _, _⟩, h | ⟨_, .enumeration _, _, _, _, _, _⟩, h | ⟨_, .object _, _, _, _, _, _⟩, h
  | ⟨_, .array _, _, _, _, _, _⟩, h => h

/-- The rules of an array, by those that are compiled for its element. -/
theorem Node.Compiled.array (h : a.Compiled rules) (hk : a.kind = .array element) : ∃ inner, element.Compiled inner ∧
    rules = .type .array :: leafRules a.constraints ++ itemRules inner element.nullable := by
  cases h with
  | alone => exact ⟨_, .alone, valueRules_array rfl hk⟩
  | session h hn ha =>
    have helement : element.PartOf a := .element hk .self
    refine ⟨_, .session h hn (helement.trans ha), ?_⟩
    rw [h.valueRules_eq hn ha, h.valueRules_eq hn (helement.trans ha)]
    obtain ⟨_, kind, _, _, _, _, _⟩ := a
    subst hk
    rfl

/-- The rules of a scalar, also of one that is referred to. -/
theorem Node.Ruled.scalar_target {kind : ScalarKind} (h : a.Ruled rules) (hk : a.target.kind = .scalar kind) :
    rules = (kind.shape?.map Rule.type).toList ++ leafRules a.target.constraints := by
  induction h with
  | @reference n target rules hkind _ ih =>
    obtain ⟨_, k, _, _, _, _, _⟩ := n
    subst hkind
    exact ih hk
  | @scalar n k hkind =>
    have htarget : n.target = n := Node.target_of_shape (by rw [hkind]; rfl)
    rw [htarget, hkind] at hk
    cases hk
    rw [htarget]
  | @enumeration n _ hkind | @object n _ _ hkind | @array n _ _ hkind =>
    rw [Node.target_of_shape (by rw [hkind]; rfl), hkind] at hk
    cases hk

end Compiled

end ApiForge.Schema
