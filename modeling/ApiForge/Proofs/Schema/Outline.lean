import ApiForge.Proofs.Schema.Registry

/-!
# Nodes without names

Type names depend on what has been named before. A node without names has the empty name everywhere, also in the rules
that come with its fields.

* `Node.blank give`: the node without names, where `give` says which rules a field gets.
* `Node.unnamed`: the node without names, with its own rules. `Node.outline`: the node without names and rules.
* `unnamed_rules_blank`: the rules of a node are those of its outline, apart from names.
* `Node.Sound.unnamed_eq`: a sound node is determined by its outline, apart from names.
-/

namespace ApiForge

/-! ## Rules -/

mutual

/-- The rule without names of records. -/
def Rule.unnamed : Rule → Rule
  | .fields set => .fields set.unnamed
  | .elements rules nullable => .elements (Rule.unnamedAll rules) nullable
  | .required => .required
  | .type shape => .type shape
  | .minLength n => .minLength n
  | .maxLength n => .maxLength n
  | .minimum b => .minimum b
  | .maximum b => .maximum b
  | .minItems n => .minItems n
  | .maxItems n => .maxItems n
  | .oneOf members => .oneOf members
  | .pattern p => .pattern p

/-- The rules of a record without its name. -/
def RuleSet.unnamed : RuleSet → RuleSet
  | ⟨_, fields⟩ => ⟨"", FieldRules.unnamedAll fields⟩

/-- Rules without names of records. -/
def Rule.unnamedAll : List Rule → List Rule
  | [] => []
  | rule :: rules => rule.unnamed :: Rule.unnamedAll rules

/-- The rules of fields without names of records. -/
def FieldRules.unnamedAll : List FieldRules → List FieldRules
  | [] => []
  | ⟨wireKey, nullable, rules⟩ :: fs => ⟨wireKey, nullable, Rule.unnamedAll rules⟩ :: FieldRules.unnamedAll fs

end

theorem Rule.unnamedAll_eq : ∀ rules : List Rule, Rule.unnamedAll rules = rules.map Rule.unnamed
  | [] => by rw [Rule.unnamedAll, List.map_nil]
  | rule :: rules => by rw [Rule.unnamedAll, Rule.unnamedAll_eq rules, List.map_cons]

theorem Rule.unnamedAll_append (rules rules' : List Rule) :
    Rule.unnamedAll (rules ++ rules') = Rule.unnamedAll rules ++ Rule.unnamedAll rules' := by
  simp only [Rule.unnamedAll_eq, List.map_append]

theorem Rule.isEmpty_unnamedAll (rules : List Rule) : (Rule.unnamedAll rules).isEmpty = rules.isEmpty := by
  rw [Rule.unnamedAll_eq, List.isEmpty_map]

namespace Schema

/-! ## Nodes -/

/-- A way to give a field rules: by its type, by whether it is required and by the rules that it has. -/
abbrev GiveRules := Node → Bool → List Rule → List Rule

mutual

/-- The node without names, in which fields get the rules that `give` says. -/
def Node.blank (give : GiveRules) : Node → Node
  | ⟨_, kind, declared, nullable, format, constraints, description⟩ =>
    ⟨"", kind.blank give, declared, nullable, format, constraints, description⟩

/-- The shape without names. -/
def Kind.blank (give : GiveRules) : Kind → Kind
  | .scalar kind => .scalar kind
  | .enumeration members => .enumeration members
  | .object fields => .object (Field.blankAll give fields)
  | .array element => .array (element.blank give)
  | .reference target => .reference (target.blank give)

/-- The fields with types without names; their identifiers stay. -/
def Field.blankAll (give : GiveRules) : List Field → List Field
  | [] => []
  | ⟨name, wireKey, type, required, optionalPresence, rules, description⟩ :: fs =>
    ⟨name, wireKey, type.blank give, required, optionalPresence, give type required rules, description⟩ ::
      Field.blankAll give fs

end

/-- Fields keep their rules, without names of records. -/
def keptRules : GiveRules := fun _ _ rules => Rule.unnamedAll rules

/-- Fields get no rules. -/
def noRules : GiveRules := fun _ _ _ => []

/-- Fields get the rules of their types, without names of records. -/
def ownRules : GiveRules := fun type required _ => Rule.unnamedAll (type.fieldRules required)

/-- The node without names. -/
def Node.unnamed (n : Node) : Node := n.blank keptRules

/-- The node without names and without the rules of its fields. -/
def Node.outline (n : Node) : Node := n.blank noRules

/-- A field of an outline. -/
def Field.outline (f : Field) : Field := { f with type := f.type.outline, rules := [] }

theorem Field.blankAll_noRules : ∀ fs : List Field, Field.blankAll noRules fs = fs.map Field.outline
  | [] => by rw [Field.blankAll, List.map_nil]
  | ⟨_, _, _, _, _, _, _⟩ :: fs => by
    rw [Field.blankAll, Field.blankAll_noRules fs, List.map_cons, Field.outline, Node.outline, noRules]

section Blank

variable (give : GiveRules) (n : Node)

@[simp] theorem Node.blank_kind : (n.blank give).kind = n.kind.blank give := by
  obtain ⟨_, _, _, _, _, _, _⟩ := n
  rw [Node.blank]

@[simp] theorem Node.blank_nullable : (n.blank give).nullable = n.nullable := by
  obtain ⟨_, _, _, _, _, _, _⟩ := n
  rw [Node.blank]

/-- Forgetting names and following references commute. -/
theorem Node.blank_target : ∀ n : Node, (n.blank give).target = n.target.blank give
  | ⟨_, .reference t, _, _, _, _, _⟩ => by
    rw [Node.blank, Kind.blank, Node.target, Node.target]
    exact Node.blank_target t
  | ⟨_, .scalar _, _, _, _, _, _⟩ | ⟨_, .enumeration _, _, _, _, _, _⟩ | ⟨_, .object _, _, _, _, _, _⟩
  | ⟨_, .array _, _, _, _, _, _⟩ => by simp only [Node.blank, Kind.blank, Node.target]

@[simp] theorem Node.blank_isNullable : (n.blank give).isNullable = n.isNullable := by
  simp only [Node.isNullable, Node.blank_target, Node.blank_nullable]

@[simp] theorem Node.outline_nullable : n.outline.nullable = n.nullable := Node.blank_nullable _ n

@[simp] theorem Node.outline_isObject : n.outline.isObject = n.isObject := by
  unfold Node.isObject Node.outline
  rw [Node.blank_target, Node.blank_kind]
  cases n.target.kind <;> simp [Kind.blank]

theorem Node.outline_fields : n.outline.fields = n.fields.map Field.outline := by
  unfold Node.fields
  rw [Node.outline, Node.blank_target, Node.blank_kind]
  cases n.target.kind <;> simp [Kind.blank, Field.blankAll_noRules]

theorem Node.outline_withNull : ({ n with nullable := true } : Node).outline = { n.outline with nullable := true } := by
  obtain ⟨_, _, _, _, _, _, _⟩ := n
  simp only [Node.outline, Node.blank]

end Blank

/-! ## The rules of nodes without names -/

theorem unnamedAll_withPresence (required : Bool) (rules : List Rule) :
    Rule.unnamedAll (withPresence required rules) = withPresence required (Rule.unnamedAll rules) := by
  cases required
  · rfl
  · simp only [withPresence, if_true, Rule.unnamedAll, Rule.unnamed]

mutual

/-- The rules of a node do not depend on names or on the rules that its fields have. -/
theorem unnamed_rules_blank (give : GiveRules) :
    ∀ n : Node, Rule.unnamedAll (n.blank give).rules = Rule.unnamedAll n.rules
  | ⟨name, kind, _, _, _, c, _⟩ => by
    rw [Node.blank, Node.rules, Node.rules]
    exact unnamed_kindRules_blank give "" name c kind

theorem unnamed_kindRules_blank (give : GiveRules) (name name' : String) (c : Constraints) :
    ∀ kind : Kind, Rule.unnamedAll ((kind.blank give).rules name c) = Rule.unnamedAll (kind.rules name' c)
  | .scalar _ => by rw [Kind.blank, Kind.rules, Kind.rules]
  | .enumeration _ => by rw [Kind.blank, Kind.rules, Kind.rules]
  | .object fields => by
    rw [Kind.blank, Kind.rules, Kind.rules]
    simp only [Rule.unnamedAll, Rule.unnamed, RuleSet.unnamed, unnamed_allRules_blank give fields]
  | .array element => by
    have ih := unnamed_rules_blank give element
    -- whether there are rules for the items is seen without names
    have hempty : (element.blank give).rules.isEmpty = element.rules.isEmpty := by
      rw [← Rule.isEmpty_unnamedAll, ih, Rule.isEmpty_unnamedAll]
    rw [Kind.blank, Kind.rules, Kind.rules, hempty, Node.blank_nullable]
    simp only [Rule.unnamedAll_append]
    congr 1
    split
    · rfl
    · simp only [Rule.unnamedAll, Rule.unnamed, ih]
  | .reference target => by
    rw [Kind.blank, Kind.rules, Kind.rules]
    exact unnamed_rules_blank give target

theorem unnamed_allRules_blank (give : GiveRules) : ∀ fields : List Field,
    FieldRules.unnamedAll (Field.allRules (Field.blankAll give fields)) = FieldRules.unnamedAll (Field.allRules fields)
  | [] => by rw [Field.blankAll]
  | ⟨_, _, type, _, _, _, _⟩ :: fs => by
    rw [Field.blankAll, Field.allRules, Field.allRules, FieldRules.unnamedAll, FieldRules.unnamedAll,
      unnamed_allRules_blank give fs, unnamedAll_withPresence, unnamedAll_withPresence, unnamed_rules_blank give type,
      Node.blank_isNullable]

end

/-! ## Sound nodes -/

mutual

/-- Giving rules to an outline. -/
theorem Node.blank_noRules : ∀ n : Node, (n.blank noRules).blank ownRules = n.blank ownRules
  | ⟨_, kind, _, _, _, _, _⟩ => by simp only [Node.blank, Kind.blank_noRules kind]

theorem Kind.blank_noRules : ∀ kind : Kind, (kind.blank noRules).blank ownRules = kind.blank ownRules
  | .scalar _ | .enumeration _ => by simp only [Kind.blank]
  | .object fields => by simp only [Kind.blank, Field.blankAll_blankAll fields]
  | .array element => by simp only [Kind.blank, Node.blank_noRules element]
  | .reference target => by simp only [Kind.blank, Node.blank_noRules target]

theorem Field.blankAll_blankAll :
    ∀ fs : List Field, Field.blankAll ownRules (Field.blankAll noRules fs) = Field.blankAll ownRules fs
  | [] => by simp only [Field.blankAll]
  | ⟨_, _, type, required, _, rules, _⟩ :: fs => by
    have hrules : ownRules (type.blank noRules) required (noRules type required rules) =
        ownRules type required rules := by
      simp only [ownRules, Node.fieldRules, unnamedAll_withPresence, unnamed_rules_blank]
    simp only [Field.blankAll, Node.blank_noRules type, Field.blankAll_blankAll fs, hrules]

end

mutual

/-- The fields of a sound node have the rules of their types. -/
theorem Node.Sound.blank_eq {ρ : Registry} : ∀ {n : Node}, n.Sound ρ → n.blank ownRules = n.blank keptRules
  | ⟨_, _, _, _, _, _, _⟩, h => by
    rw [Node.Sound] at h
    simp only [Node.blank, Kind.Sound.blank_eq h.1]

theorem Kind.Sound.blank_eq {ρ : Registry} :
    ∀ {kind : Kind}, kind.Sound ρ → kind.blank ownRules = kind.blank keptRules
  | .scalar _, _ | .enumeration _, _ => by simp only [Kind.blank]
  | .object _, h => by
    rw [Kind.Sound] at h
    simp only [Kind.blank, Field.AllSound.blank_eq h]
  | .array _, h => by
    rw [Kind.Sound] at h
    simp only [Kind.blank, Node.Sound.blank_eq h]
  | .reference _, h => by
    rw [Kind.Sound] at h
    simp only [Kind.blank, Node.Sound.blank_eq h]

theorem Field.AllSound.blank_eq {ρ : Registry} :
    ∀ {fs : List Field}, Field.AllSound ρ fs → Field.blankAll ownRules fs = Field.blankAll keptRules fs
  | [], _ => by simp only [Field.blankAll]
  | ⟨_, _, _, _, _, _, _⟩ :: _, h => by
    rw [Field.AllSound] at h
    simp only [Field.blankAll, Node.Sound.blank_eq h.1.1, Field.AllSound.blank_eq h.2, ownRules, keptRules, h.1.2]

end

/-- **Sound nodes with the same outline are the same apart from names.** -/
theorem Node.Sound.unnamed_eq {ρ ρ' : Registry} {n n' : Node} (h : n.Sound ρ) (h' : n'.Sound ρ')
    (houtline : n.outline = n'.outline) : n.unnamed = n'.unnamed := by
  rw [Node.outline, Node.outline] at houtline
  rw [Node.unnamed, Node.unnamed, ← h.blank_eq, ← h'.blank_eq, ← n.blank_noRules, ← n'.blank_noRules, houtline]

end Schema

end ApiForge
