import ApiForge.Rule.Compile
import ApiForge.Rule.Evaluate

/-!
# Values of schemas

What it means that a value satisfies a resolved schema, read off the node alone.

* `Node.Admits` is about values that are present and not `null`, `Node.Satisfies` about all that a field can hold.
* `Node.rules` are the rules of a node, compiled without any cache and without the rules stored with its fields.
* Evaluating these rules reports nothing exactly when the value satisfies the node (`checkValue_rules`,
  `checkField_rules`). Proof: by recursion on the node; a rule on the shape stops the evaluation, so it is looked at
  first, and the rules after it hold one by one.
-/

namespace ApiForge.Schema

/-! ## The reading of a node -/

/-- The declared conditions, each on the kind of values that it applies to. -/
structure Constraints.Allow (c : Constraints) (v : Json) : Prop where
  minLength : ∀ n, c.minLength = some n → ∀ s, v = .str s → n ≤ s.length
  maxLength : ∀ n, c.maxLength = some n → ∀ s, v = .str s → s.length ≤ n
  minimum : ∀ b, c.minimum = some b → ∀ x, v = .num x → if b.exclusive then b.value < x.toFloat else b.value ≤ x.toFloat
  maximum : ∀ b, c.maximum = some b → ∀ x, v = .num x → if b.exclusive then x.toFloat < b.value else x.toFloat ≤ b.value
  minItems : ∀ n, c.minItems = some n → ∀ xs, v = .arr xs → n ≤ xs.length
  maxItems : ∀ n, c.maxItems = some n → ∀ xs, v = .arr xs → xs.length ≤ n
  oneOf : c.oneOf ≠ [] → ∃ m ∈ c.oneOf, Rule.sameValue m v = true
  pattern : ∀ p, c.pattern = some p → ∀ s, v = .str s → p.accepts s = true

/-- The values of a scalar kind. -/
def ScalarKind.Allows (v : Json) : ScalarKind → Prop
  | .string => ∃ s, v = .str s
  | .integer => ∃ n, v = .num (.int n)
  | .number => ∃ x, v = .num x
  | .boolean => ∃ b, v = .bool b
  | .dateTime => ∃ s, v = .str s ∧ DateTime.isDateTime s = true
  | .any => True

/-- What a place can hold: nothing if it is not required, `null` if it is not required or nullable, or a value. -/
def Holds (required nullable : Bool) (admits : Json → Prop) : Option Json → Prop
  | none => required = false
  | some .null => required = false ∨ nullable = true
  | some v => admits v

mutual

/-- The values of a node other than `null`. -/
def Node.Admits : Node → Json → Prop
  | ⟨_, kind, _, _, _, constraints, _⟩, v => Kind.Admits constraints kind v

/-- The values of a shape under declared conditions. An item may be `null` where the element itself is nullable. -/
def Kind.Admits (c : Constraints) : Kind → Json → Prop
  | .scalar kind, v => kind.Allows v ∧ c.Allow v
  | .enumeration members, v => (∃ s ∈ members, v = .str s) ∧ c.Allow v
  | .object fields, v => ∃ ms, v = .obj ms ∧ Field.AllAdmit ms fields
  | .array element, v => ∃ xs, v = .arr xs ∧ c.Allow v ∧
      ∀ x ∈ xs, if x.isNull then element.nullable = true else element.Admits x
  | .reference target, v => target.Admits v

/-- The objects in which every field is satisfied, each by what stands under its wire key. -/
def Field.AllAdmit (ms : Json.Members) : List Field → Prop
  | [] => True
  | ⟨_, key, type, required, _, _, _⟩ :: fs =>
    Holds required type.isNullable type.Admits (ms.get? key) ∧ Field.AllAdmit ms fs

end

/-- What a field of the type of a node can hold. -/
def Node.Satisfies (n : Node) (required : Bool) (v : Option Json) : Prop :=
  Holds required n.isNullable n.Admits v

/-! ## The rules of a node -/

/-- The rules of a field, given those of its present values. -/
def withPresence (required : Bool) (rules : List Rule) : List Rule :=
  if required then Rule.required :: rules else rules

mutual

/-- The rules of the present values of a node. -/
def Node.rules : Node → List Rule
  | ⟨name, kind, _, _, _, constraints, _⟩ => Kind.rules name constraints kind

/-- The rules of a shape under declared conditions. -/
def Kind.rules (name : String) (c : Constraints) : Kind → List Rule
  | .scalar kind => (kind.shape?.map Rule.type).toList ++ leafRules c
  | .enumeration members => Rule.type .string :: leafRules c ++ [Rule.oneOf (members.map Json.str)]
  | .object fields => [Rule.type .object, Rule.fields ⟨name, Field.allRules fields⟩]
  | .array element => Rule.type .array :: leafRules c ++
      if element.rules.isEmpty && element.nullable then [] else [Rule.elements element.rules element.nullable]
  | .reference target => target.rules

/-- The rules of fields, in order. -/
def Field.allRules : List Field → List FieldRules
  | [] => []
  | ⟨_, key, type, required, _, _, _⟩ :: fs =>
    ⟨key, type.isNullable, withPresence required type.rules⟩ :: Field.allRules fs

end

/-- The rules of a field of the type of a node. -/
def Node.fieldRules (n : Node) (required : Bool) : List Rule := withPresence required n.rules

end ApiForge.Schema

namespace ApiForge.Rule

open Schema

variable {v : Json} {path : String}

/-! ## Rules that look at one value -/

/-- Whether a rule neither stops the evaluation nor looks into containers. -/
def isLeaf : Rule → Bool
  | .type _ => false
  | .fields _ => false
  | .elements _ _ => false
  | _ => true

/-- What a rule asks of a value, as far as it looks at the value alone. -/
def Asks (v : Json) : Rule → Prop
  | .minLength n => ∀ s, v = .str s → n ≤ s.length
  | .maxLength n => ∀ s, v = .str s → s.length ≤ n
  | .minimum b => ∀ x, v = .num x → if b.exclusive then b.value < x.toFloat else b.value ≤ x.toFloat
  | .maximum b => ∀ x, v = .num x → if b.exclusive then x.toFloat < b.value else x.toFloat ≤ b.value
  | .minItems n => ∀ xs, v = .arr xs → n ≤ xs.length
  | .maxItems n => ∀ xs, v = .arr xs → xs.length ≤ n
  | .pattern p => ∀ s, v = .str s → p.accepts s = true
  | .oneOf members => ∃ m ∈ members, sameValue m v = true
  | _ => True

theorem unless_eq_nil {ok : Bool} {kind : RuleKind} {message : String} :
    unless_ ok path kind message = [] ↔ ok = true := by
  cases ok <;> simp [unless_]

/-- A leaf reports nothing exactly if the value is as it asks. -/
theorem checkLeaf_eq_nil {r : Rule} : checkLeaf v path r = [] ↔ r.Asks v := by
  cases r with
  | minimum b => cases v <;> cases hb : b.exclusive <;> simp [checkLeaf, Asks, unless_eq_nil, reaches, hb]
  | maximum b => cases v <;> cases hb : b.exclusive <;> simp [checkLeaf, Asks, unless_eq_nil, staysWithin, hb]
  | oneOf members => simp [checkLeaf, Asks, unless_eq_nil]
  | _ => cases v <;> simp [checkLeaf, Asks, unless_eq_nil]

/-- A leaf in front is checked on its own. -/
theorem checkValue_leaf {r : Rule} (h : r.isLeaf = true) (rules : List Rule) :
    checkValue v path (r :: rules) = checkLeaf v path r ++ checkValue v path rules := by
  cases r <;> first | rfl | simp [isLeaf] at h

/-- Leaves in front are checked one by one. -/
theorem checkValue_leaves {rs : List Rule} (h : ∀ r ∈ rs, r.isLeaf = true) (rules : List Rule) :
    checkValue v path (rs ++ rules) = rs.flatMap (checkLeaf v path) ++ checkValue v path rules := by
  induction rs with
  | nil => rfl
  | cons r rs ih =>
    rw [List.cons_append, checkValue_leaf (h r List.mem_cons_self), ih fun q hq => h q (List.mem_cons_of_mem _ hq)]
    simp

theorem isLeaf_leafRules {c : Constraints} : ∀ r ∈ leafRules c, r.isLeaf = true := by
  simp only [leafRules, List.mem_append, Option.mem_toList, Option.map_eq_some_iff]
  rintro r (((((((⟨_, _, rfl⟩ | ⟨_, _, rfl⟩) | ⟨_, _, rfl⟩) | ⟨_, _, rfl⟩) | ⟨_, _, rfl⟩) | ⟨_, _, rfl⟩) | h) |
    ⟨_, _, rfl⟩) <;> try rfl
  split at h
  · cases h
  · cases List.mem_singleton.1 h
    rfl

/-- The rules of declared conditions report nothing exactly when the conditions hold. -/
theorem checkLeaf_leafRules {c : Constraints} : (leafRules c).flatMap (checkLeaf v path) = [] ↔ c.Allow v := by
  have single : ∀ {α : Type} (o : Option α) (f : α → Rule),
      (∀ r ∈ (o.map f).toList, r.Asks v) ↔ ∀ a, o = some a → (f a).Asks v := by
    intro α o f
    cases o <;> simp
  have members : (∀ r ∈ if c.oneOf.isEmpty then [] else [Rule.oneOf c.oneOf], r.Asks v) ↔
      (c.oneOf ≠ [] → ∃ m ∈ c.oneOf, sameValue m v = true) := by
    cases h : c.oneOf <;> simp [Asks]
  rw [List.flatMap_eq_nil_iff]
  simp only [checkLeaf_eq_nil, leafRules, List.forall_mem_append, single, members]
  constructor
  · rintro ⟨⟨⟨⟨⟨⟨⟨h₁, h₂⟩, h₃⟩, h₄⟩, h₅⟩, h₆⟩, h₇⟩, h₈⟩
    exact ⟨h₁, h₂, h₃, h₄, h₅, h₆, h₇, h₈⟩
  · rintro ⟨h₁, h₂, h₃, h₄, h₅, h₆, h₇, h₈⟩
    exact ⟨⟨⟨⟨⟨⟨⟨h₁, h₂⟩, h₃⟩, h₄⟩, h₅⟩, h₆⟩, h₇⟩, h₈⟩

/-- Declared conditions in front hold, and so do the rules after them. -/
theorem checkValue_leafRules {c : Constraints} (rules : List Rule) :
    checkValue v path (leafRules c ++ rules) = [] ↔ c.Allow v ∧ checkValue v path rules = [] := by
  rw [checkValue_leaves isLeaf_leafRules, List.append_eq_nil_iff, checkLeaf_leafRules]

/-! ## Rules that stop or look into containers -/

/-- A shape in front must be accepted before anything else counts. -/
theorem checkValue_type {shape : Shape} (rules : List Rule) :
    checkValue v path (.type shape :: rules) = [] ↔
      shapeAccepts v shape = true ∧ checkValue v path rules = [] := by
  cases h : shapeAccepts v shape <;> simp [checkValue, h]

/-- The shape of a scalar kind is that of its values. -/
theorem checkValue_scalar {kind : ScalarKind} (rules : List Rule) :
    checkValue v path ((kind.shape?.map Rule.type).toList ++ rules) = [] ↔
      kind.Allows v ∧ checkValue v path rules = [] := by
  cases kind
  case any => simp [ScalarKind.shape?, ScalarKind.Allows]
  case integer =>
    simp only [ScalarKind.shape?, Option.map_some, Option.toList_some, List.singleton_append, checkValue_type]
    rcases v with _ | _ | (_ | _) | _ | _ | _ <;> simp [shapeAccepts, Json.int?, ScalarKind.Allows]
  all_goals
    simp only [ScalarKind.shape?, Option.map_some, Option.toList_some, List.singleton_append, checkValue_type]
    cases v <;> simp [shapeAccepts, Json.text?, Json.float?, Json.bool?, ScalarKind.Allows]

/-- A string is equal to a member of an enumeration of strings exactly if it is one of them. -/
theorem sameValue_members {members : List String} {s : String} :
    (∃ m ∈ members.map Json.str, sameValue m (.str s) = true) ↔ s ∈ members := by
  constructor
  · rintro ⟨m, hm, hs⟩
    obtain ⟨t, ht, rfl⟩ := List.mem_map.1 hm
    simp only [sameValue, Json.same, beq_iff_eq] at hs
    exact hs ▸ ht
  · intro hs
    exact ⟨.str s, List.mem_map_of_mem hs, by simp [sameValue, Json.same]⟩

/-- The rules of the items of an array, one by one. -/
theorem flatten_zipIdx_eq_nil {α β : Type} {f : α × Nat → List β} {P : α → Prop} (h : ∀ a i, f (a, i) = [] ↔ P a) :
    ∀ (xs : List α) (k : Nat), ((xs.zipIdx k).map f).flatten = [] ↔ ∀ a ∈ xs, P a
  | [], _ => by simp
  | x :: xs, k => by
    simp only [List.zipIdx_cons, List.map_cons, List.flatten_cons, List.append_eq_nil_iff, List.forall_mem_cons, h,
      flatten_zipIdx_eq_nil h xs (k + 1)]

theorem checkValue_elements {inner : List Rule} {nullable : Bool} {xs : List Json} {P : Json → Prop}
    (h : ∀ x path, checkValue x path inner = [] ↔ P x) :
    checkValue (.arr xs) path [.elements inner nullable] = [] ↔
      ∀ x ∈ xs, if x.isNull then nullable = true else P x := by
  simp only [checkValue, List.append_nil]
  apply flatten_zipIdx_eq_nil
  intro x i
  cases hx : x.isNull with
  | true => cases nullable <;> simp
  | false => simp [h]

/-- A field is checked as it would be on its own. -/
theorem checkFieldList_cons {ms : Json.Members} {key : String} {nullable : Bool} {rules : List Rule}
    {rest : List FieldRules} : checkFieldList ms path (⟨key, nullable, rules⟩ :: rest) =
      checkField rules nullable (ms.get? key) (memberPath path key) ++ checkFieldList ms path rest := by
  rw [checkFieldList]
  rcases ms.get? key with _ | (_ | _ | _ | _ | _ | _) <;> rfl

/-! ## Nodes -/

/-- Declared conditions do not ask for presence. -/
theorem isRequired_leafRules {c : Constraints} : (leafRules c).any isRequired = false := by
  simp [leafRules, isRequired]

/-- No rule of present values asks for presence. -/
theorem isRequired_rules : ∀ n : Node, n.rules.any isRequired = false
  | ⟨_, .scalar kind, _, _, _, c, _⟩ => by
    simp only [Node.rules, Kind.rules, List.any_append, isRequired_leafRules, Bool.or_false]
    cases kind <;> rfl
  | ⟨_, .enumeration _, _, _, _, c, _⟩ => by
    simp [Node.rules, Kind.rules, isRequired_leafRules, isRequired]
  | ⟨_, .object _, _, _, _, _, _⟩ => by simp [Node.rules, Kind.rules, isRequired]
  | ⟨_, .array element, _, _, _, c, _⟩ => by
    simp only [Node.rules, Kind.rules, List.cons_append, List.any_cons, List.any_append, isRequired_leafRules]
    split <;> rfl
  | ⟨_, .reference target, _, _, _, _, _⟩ => by
    simp only [Node.rules, Kind.rules]
    exact isRequired_rules target

/-- Presence is asked for exactly on required fields. -/
theorem isRequired_fieldRules (n : Node) (required : Bool) : (n.fieldRules required).any isRequired = required := by
  cases required <;> simp [Node.fieldRules, withPresence, isRequired_rules, isRequired]

theorem required_mem_iff {rules : List Rule} : Rule.required ∈ rules ↔ rules.any isRequired = true := by
  rw [List.any_eq_true]
  constructor
  · intro h
    exact ⟨.required, h, rfl⟩
  · rintro ⟨rule, hmem, hrule⟩
    cases rule with
    | required => exact hmem
    | _ => cases hrule

/-- A field holds what it may hold, if this is known of present values. -/
theorem checkField_of_checkValue {n : Node} (h : ∀ v path, checkValue v path n.rules = [] ↔ n.Admits v)
    (required : Bool) (v : Option Json) (path : String) :
    checkField (n.fieldRules required) n.isNullable v path = [] ↔ n.Satisfies required v := by
  have present : ∀ w, checkValue w path (n.fieldRules required) = [] ↔ n.Admits w := by
    intro w
    rw [← h w path]
    cases required
    · rfl
    · rw [Node.fieldRules, withPresence, if_pos rfl, checkValue_leaf rfl]
      rfl
  rcases v with _ | (_ | _ | _ | _ | _ | _)
  · cases required <;> simp [checkField, isRequired_fieldRules, Node.Satisfies, Holds]
  · cases required <;> cases hn : n.isNullable <;>
      simp [checkField, isRequired_fieldRules, Node.Satisfies, Holds, hn]
  all_goals exact present _

mutual

/-- **Present values**: evaluating the rules of a node reports nothing exactly on its values. -/
theorem checkValue_rules : ∀ (n : Node) (v : Json) (path : String), checkValue v path n.rules = [] ↔ n.Admits v
  | ⟨name, kind, _, _, _, c, _⟩, v, path => checkValue_kind name c kind v path

theorem checkValue_kind (name : String) (c : Constraints) :
    ∀ (k : Kind) (v : Json) (path : String), checkValue v path (k.rules name c) = [] ↔ k.Admits c v
  | .scalar kind, v, path => by
    rw [Kind.rules, Kind.Admits, checkValue_scalar, ← List.append_nil (leafRules c), checkValue_leafRules]
    simp [checkValue]
  | .enumeration members, v, path => by
    rw [Kind.rules, Kind.Admits, List.cons_append, checkValue_type, checkValue_leafRules, checkValue_leaf rfl,
      List.append_eq_nil_iff, checkLeaf_eq_nil, Asks]
    cases v with
    | str s =>
      simp only [shapeAccepts, Json.text?, Option.isSome_some, sameValue_members, checkValue, true_and, and_true,
        Json.str.injEq, exists_eq_right']
      exact and_comm
    | _ => simp [shapeAccepts, Json.text?]
  | .object fs, v, path => by
    rw [Kind.rules, Kind.Admits, checkValue_type]
    cases v with
    | obj ms => simpa [shapeAccepts, Json.members?, checkValue, checkFields] using checkFieldList_rules fs ms path
    | _ => simp [shapeAccepts, Json.members?]
  | .array element, v, path => by
    have items := fun x path => checkValue_rules element x path
    rw [Kind.rules, Kind.Admits, List.cons_append, checkValue_type, checkValue_leafRules]
    cases v with
    | arr xs =>
      have dive : checkValue (.arr xs) path (if element.rules.isEmpty && element.nullable then []
          else [.elements element.rules element.nullable]) = [] ↔
          ∀ x ∈ xs, if x.isNull then element.nullable = true else element.Admits x := by
        split
        · -- the rules of the items are left out only where they would accept every item
          rename_i h
          simp only [Bool.and_eq_true, List.isEmpty_iff] at h
          refine ⟨fun _ x _ => ?_, fun _ => rfl⟩
          split
          · exact h.2
          · exact (items x path).1 (by rw [h.1]; rfl)
        · exact checkValue_elements items
      simp only [shapeAccepts, Json.items?, Option.isSome_some, true_and, dive, Json.arr.injEq, exists_eq_left']
    | _ => simp [shapeAccepts, Json.items?]
  | .reference target, v, path => by
    rw [Kind.rules, Kind.Admits]
    exact checkValue_rules target v path

theorem checkFieldList_rules : ∀ (fs : List Field) (ms : Json.Members) (path : String),
    checkFieldList ms path (Field.allRules fs) = [] ↔ Field.AllAdmit ms fs
  | [], _, _ => by simp [Field.allRules, checkFieldList, Field.AllAdmit]
  | ⟨_, key, t, must, _, _, _⟩ :: fs, ms, path => by
    rw [Field.allRules, checkFieldList_cons, Field.AllAdmit, List.append_eq_nil_iff, checkFieldList_rules fs ms path]
    exact and_congr_left fun _ => checkField_of_checkValue (fun v path => checkValue_rules t v path) must _ _

end

/-- **Fields**: evaluating the rules of a field reports nothing exactly on what the field can hold. -/
theorem checkField_rules (n : Node) (required : Bool) (v : Option Json) (path : String) :
    checkField (n.fieldRules required) n.isNullable v path = [] ↔ n.Satisfies required v :=
  checkField_of_checkValue (checkValue_rules n) required v path

end ApiForge.Rule
