import ApiForge.Proofs.Schema.Satisfies

/-!
# Rules shared under type names

Compiled rules are kept under type names, so a name must always stand for the same rules. A registry says which rules
each type name in use stands for.

* `Node.Sound ρ`: every declared node in a node has the rules that `ρ` gives its name, and every field in it carries
  the rules of its own type and presence.
* `Node.PartOf a n`: the node `a` stands somewhere in `n`. Parts of sound nodes are sound (`Node.Sound.part`).
* `RuleCache.Within ρ`: a cache holds only what `ρ` says.

Then compiling through the cache gives the rules of the node (`fieldRules_sound`) and keeps the cache within `ρ`.
-/

namespace ApiForge.Schema

/-- The rules of the values of declared types, by type name. -/
abbrev Registry := String → Option (List Rule)

/-- Whether one registry says at least what another says. -/
def Registry.Extends (ρ' ρ : Registry) : Prop := ∀ name rules, ρ name = some rules → ρ' name = some rules

theorem Registry.Extends.refl (ρ : Registry) : ρ.Extends ρ := fun _ _ h => h

theorem Registry.Extends.trans {ρ₁ ρ₂ ρ₃ : Registry} (h : ρ₃.Extends ρ₂) (h' : ρ₂.Extends ρ₁) : ρ₃.Extends ρ₁ :=
  fun name rules hr => h name rules (h' name rules hr)

/-- A registry with one more name. -/
def Registry.insert (ρ : Registry) (name : String) (rules : List Rule) : Registry :=
  fun n => if n = name then some rules else ρ n

theorem Registry.insert_self (ρ : Registry) (name : String) (rules : List Rule) :
    ρ.insert name rules name = some rules := if_pos rfl

theorem Registry.insert_extends {ρ : Registry} {name : String} (rules : List Rule) (h : ρ name = none) :
    (ρ.insert name rules).Extends ρ := by
  intro n rs hn
  by_cases hname : n = name
  · rw [hname, h] at hn
    cases hn
  · rw [insert, if_neg hname, hn]

/-! ## Nodes -/

/-- Whether a shape is that of another node. -/
def Kind.isReference : Kind → Bool
  | .reference _ => true
  | _ => false

mutual

/-- Declared nodes have the registered rules, and fields carry their own. -/
def Node.Sound (ρ : Registry) : Node → Prop
  | ⟨name, kind, declared, _, _, c, _⟩ =>
    Kind.Sound ρ kind ∧ (declared = true → kind.isReference = false → ρ name = some (kind.rules name c))

/-- The parts of a shape are sound. -/
def Kind.Sound (ρ : Registry) : Kind → Prop
  | .scalar _ => True
  | .enumeration _ => True
  | .object fields => Field.AllSound ρ fields
  | .array element => element.Sound ρ
  | .reference target => target.Sound ρ

/-- The types of fields are sound, and the fields carry the rules of their types. -/
def Field.AllSound (ρ : Registry) : List Field → Prop
  | [] => True
  | ⟨_, _, type, required, _, rules, _⟩ :: fs =>
    (type.Sound ρ ∧ rules = type.fieldRules required) ∧ Field.AllSound ρ fs

end

/-- The type of a field is sound, and the field carries the rules of its type. -/
def Field.Sound (ρ : Registry) (f : Field) : Prop := f.type.Sound ρ ∧ f.rules = f.type.fieldRules f.required

theorem Node.sound_iff {ρ : Registry} {n : Node} : n.Sound ρ ↔
    n.kind.Sound ρ ∧ (n.declared = true → n.kind.isReference = false → ρ n.name = some n.rules) := by
  obtain ⟨_, _, _, _, _, _, _⟩ := n
  rw [Node.Sound, Node.rules]

theorem Field.allSound_iff {ρ : Registry} : ∀ {fs : List Field}, Field.AllSound ρ fs ↔ ∀ f ∈ fs, f.Sound ρ
  | [] => by simp [Field.AllSound]
  | ⟨_, _, _, _, _, _, _⟩ :: fs => by
    rw [List.forall_mem_cons, ← Field.allSound_iff, Field.AllSound]
    exact Iff.rfl

mutual

/-- What is sound stays so in a larger registry. -/
theorem Node.Sound.mono {ρ ρ' : Registry} (h : ρ'.Extends ρ) : ∀ {n : Node}, n.Sound ρ → n.Sound ρ'
  | ⟨_, _, _, _, _, _, _⟩, hn => by
    rw [Node.Sound] at hn ⊢
    exact ⟨Kind.Sound.mono h hn.1, fun hd hr => h _ _ (hn.2 hd hr)⟩

theorem Kind.Sound.mono {ρ ρ' : Registry} (h : ρ'.Extends ρ) : ∀ {k : Kind}, k.Sound ρ → k.Sound ρ'
  | .scalar _, _ => by rw [Kind.Sound]; trivial
  | .enumeration _, _ => by rw [Kind.Sound]; trivial
  | .object _, hk => by rw [Kind.Sound] at hk ⊢; exact Field.AllSound.mono h hk
  | .array _, hk => by rw [Kind.Sound] at hk ⊢; exact Node.Sound.mono h hk
  | .reference _, hk => by rw [Kind.Sound] at hk ⊢; exact Node.Sound.mono h hk

theorem Field.AllSound.mono {ρ ρ' : Registry} (h : ρ'.Extends ρ) :
    ∀ {fs : List Field}, Field.AllSound ρ fs → Field.AllSound ρ' fs
  | [], _ => by rw [Field.AllSound]; trivial
  | ⟨_, _, _, _, _, _, _⟩ :: _, hf => by
    rw [Field.AllSound] at hf ⊢
    exact ⟨⟨Node.Sound.mono h hf.1.1, hf.1.2⟩, Field.AllSound.mono h hf.2⟩

end

/-- The target of a node that is no reference is the node itself. -/
theorem Node.target_of_shape {n : Node} (h : n.kind.isReference = false) : n.target = n := by
  obtain ⟨_, kind, _, _, _, _, _⟩ := n
  cases kind with
  | reference t => cases h
  | _ => rfl

/-- The target of a sound node is sound. -/
theorem Node.Sound.target {ρ : Registry} : ∀ {n : Node}, n.Sound ρ → n.target.Sound ρ
  | ⟨_, .reference t, _, _, _, _, _⟩, h => by
    rw [Node.Sound, Kind.Sound] at h
    exact Node.Sound.target (n := t) h.1
  | ⟨_, .scalar _, _, _, _, _, _⟩, h | ⟨_, .enumeration _, _, _, _, _, _⟩, h | ⟨_, .object _, _, _, _, _, _⟩, h
  | ⟨_, .array _, _, _, _, _, _⟩, h => h

/-- The fields of a sound node are sound. -/
theorem Node.Sound.fields {ρ : Registry} {n : Node} (h : n.Sound ρ) : ∀ f ∈ n.fields, f.Sound ρ := by
  have ht := (Node.sound_iff.1 h.target).1
  unfold Node.fields
  cases hk : n.target.kind with
  | object fs =>
    rw [hk, Kind.Sound] at ht
    exact Field.allSound_iff.1 ht
  | _ => simp

/-- A sound node stays so when `null` is added to its values. -/
theorem Node.Sound.nullable {ρ : Registry} {n : Node} (h : n.Sound ρ) (b : Bool) :
    ({ n with nullable := b } : Node).Sound ρ := by
  obtain ⟨_, _, _, _, _, _, _⟩ := n
  rw [Node.Sound] at h ⊢
  exact h

/-- The nodes that stand in a node: itself, and those in its element, its target and the types of its fields. -/
inductive Node.PartOf (a : Node) : Node → Prop where
  | self : Node.PartOf a a
  | element {n e : Node} : n.kind = .array e → Node.PartOf a e → Node.PartOf a n
  | target {n t : Node} : n.kind = .reference t → Node.PartOf a t → Node.PartOf a n
  | field {n : Node} {fields : List Field} {f : Field} : n.kind = .object fields → f ∈ fields →
      Node.PartOf a f.type → Node.PartOf a n

/-- Whatever stands in a sound node is sound. -/
theorem Node.Sound.part {ρ : Registry} {a n : Node} (hn : n.Sound ρ) (ha : a.PartOf n) : a.Sound ρ := by
  induction ha with
  | self => exact hn
  | element hk _ ih =>
    have hkind := (Node.sound_iff.1 hn).1
    rw [hk, Kind.Sound] at hkind
    exact ih hkind
  | target hk _ ih =>
    have hkind := (Node.sound_iff.1 hn).1
    rw [hk, Kind.Sound] at hkind
    exact ih hkind
  | field hk hf _ ih =>
    have hkind := (Node.sound_iff.1 hn).1
    rw [hk, Kind.Sound] at hkind
    exact ih (Field.allSound_iff.1 hkind _ hf).1

/-- The stored rules of sound fields are the rules of the fields. -/
theorem ofFields_eq {ρ : Registry} (name : String) :
    ∀ {fs : List Field}, Field.AllSound ρ fs → RuleSet.ofFields name fs = ⟨name, Field.allRules fs⟩
  | [], _ => rfl
  | ⟨_, _, _, _, _, _, _⟩ :: fs, h => by
    rw [Field.AllSound] at h
    have ih := congrArg RuleSet.fields (ofFields_eq name h.2)
    simp only [RuleSet.ofFields, List.map_cons, Field.allRules, h.1.2, Node.fieldRules] at ih ⊢
    rw [ih]

end ApiForge.Schema

/-! ## The cache -/

namespace ApiForge.RuleCache

open Schema

variable {ρ : Registry} {cache : RuleCache}

/-- A cache that holds only what a registry says. -/
structure Within (ρ : Registry) (cache : RuleCache) : Prop where
  values : ∀ name rules, find? cache.values name = some rules → ρ name = some rules
  sets : ∀ name set, find? cache.sets name = some set → ρ name = some [Rule.type .object, Rule.fields set]

theorem within_empty : Within ρ {} where
  values _ _ h := by cases h
  sets _ _ h := by cases h

theorem Within.mono {ρ' : Registry} (h : Within ρ cache) (hρ : ρ'.Extends ρ) : Within ρ' cache :=
  ⟨fun name rules hf => hρ _ _ (h.values name rules hf), fun name set hf => hρ _ _ (h.sets name set hf)⟩

theorem find?_cons {α : Type} {entries : List (String × α)} {name key : String} {a b : α}
    (h : find? ((name, a) :: entries) key = some b) : (name = key ∧ a = b) ∨ find? entries key = some b := by
  by_cases hk : name = key
  · left
    simpa [find?, hk] using h
  · right
    simpa [find?, hk] using h

/-- Keeping registered rules. -/
theorem Within.keep (h : Within ρ cache) {declared : Bool} {name : String} {rules : List Rule}
    (hr : declared = true → ρ name = some rules) : Within ρ (cache.keep declared name rules) := by
  unfold RuleCache.keep
  split
  · rename_i hd
    refine ⟨fun key rs hf => ?_, h.sets⟩
    rcases find?_cons hf with ⟨rfl, rfl⟩ | hf
    · exact hr hd
    · exact h.values key rs hf
  · exact h

/-- Rules found in the cache are the registered ones. -/
theorem Within.found (h : Within ρ cache) {declared : Bool} {name : String} {rules found : List Rule}
    (hr : declared = true → ρ name = some rules)
    (hf : (if declared then find? cache.values name else none) = some found) : found = rules := by
  split at hf
  · rename_i hd
    have := h.values name found hf
    rw [hr hd] at this
    exact (Option.some.inj this).symm
  · cases hf

/-- The rule set of a record with sound fields. -/
theorem Within.setOf (h : Within ρ cache) {declared : Bool} {name : String} {fields : List Field}
    (hf : Field.AllSound ρ fields)
    (hr : declared = true → ρ name = some [Rule.type .object, Rule.fields ⟨name, Field.allRules fields⟩]) :
    (cache.setOf name declared fields).1 = ⟨name, Field.allRules fields⟩ ∧
      Within ρ (cache.setOf name declared fields).2 := by
  unfold RuleCache.setOf
  cases hs : (if declared then find? cache.sets name else none) with
  | some set =>
    split at hs
    · rename_i hd
      have := h.sets name set hs
      rw [hr hd] at this
      simp only [Option.some.injEq, List.cons.injEq, Rule.fields.injEq, true_and, and_true] at this
      exact ⟨this.symm, h⟩
    · cases hs
  | none =>
    refine ⟨ofFields_eq name hf, ?_⟩
    dsimp only
    split
    · rename_i hd
      refine ⟨h.values, fun key set hk => ?_⟩
      rcases find?_cons hk with ⟨rfl, rfl⟩ | hk
      · rw [ofFields_eq name hf]
        exact hr hd
      · exact h.sets key set hk
    · exact h

/-- Compiling through the cache gives the rules of the node. -/
theorem valueRules_sound : ∀ {n : Node} {cache : RuleCache}, n.Sound ρ → Within ρ cache →
    (valueRules n cache).1 = n.rules ∧ Within ρ (valueRules n cache).2
  | ⟨name, .reference t, declared, _, _, c, _⟩, cache, hn, hc => by
    rw [Node.Sound, Kind.Sound] at hn
    rw [valueRules, Node.rules, Kind.rules]
    exact valueRules_sound hn.1 hc
  | ⟨name, .scalar k, declared, _, _, c, _⟩, cache, hn, hc => by
    rw [Node.Sound] at hn
    have hr := fun hd => hn.2 hd rfl
    rw [valueRules, Node.rules]
    cases hf : (if declared then find? cache.values name else none) with
    | some found => exact ⟨hc.found hr hf, hc⟩
    | none => rw [Kind.rules] at hr ⊢; exact ⟨rfl, hc.keep hr⟩
  | ⟨name, .enumeration members, declared, _, _, c, _⟩, cache, hn, hc => by
    rw [Node.Sound] at hn
    have hr := fun hd => hn.2 hd rfl
    rw [valueRules, Node.rules]
    cases hf : (if declared then find? cache.values name else none) with
    | some found => exact ⟨hc.found hr hf, hc⟩
    | none => rw [Kind.rules] at hr ⊢; exact ⟨rfl, hc.keep hr⟩
  | ⟨name, .object fields, declared, _, _, c, _⟩, cache, hn, hc => by
    rw [Node.Sound, Kind.Sound, Kind.rules] at hn
    have hr := fun hd => hn.2 hd rfl
    rw [valueRules, Node.rules, Kind.rules]
    cases hf : (if declared then find? cache.values name else none) with
    | some found => exact ⟨hc.found hr hf, hc⟩
    | none =>
      obtain ⟨hset, hset'⟩ := hc.setOf hn.1 hr
      dsimp only
      rw [hset]
      exact ⟨rfl, hset'.keep hr⟩
  | ⟨name, .array element, declared, _, _, c, _⟩, cache, hn, hc => by
    rw [Node.Sound, Kind.Sound, Kind.rules] at hn
    have hr := fun hd => hn.2 hd rfl
    rw [valueRules, Node.rules, Kind.rules]
    cases hf : (if declared then find? cache.values name else none) with
    | some found => exact ⟨hc.found hr hf, hc⟩
    | none =>
      obtain ⟨hinner, hinner'⟩ := valueRules_sound hn.1 hc
      dsimp only
      rw [hinner]
      exact ⟨rfl, hinner'.keep hr⟩

/-- **Compiling the rules of a field** of a sound node through the cache gives the rules of the field. -/
theorem fieldRules_sound {n : Node} (hn : n.Sound ρ) (hc : Within ρ cache) (required : Bool) :
    (cache.fieldRules n required).1 = n.fieldRules required ∧ Within ρ (cache.fieldRules n required).2 := by
  obtain ⟨hv, hv'⟩ := valueRules_sound hn hc
  exact ⟨by rw [Node.fieldRules, ← hv]; rfl, hv'⟩

/-- Collecting the rule set of a sound node keeps the cache within the registry. -/
theorem ruleSet?_sound {n : Node} (hn : n.Sound ρ) (hc : Within ρ cache) : Within ρ (cache.ruleSet? n).2 := by
  have ht := hn.target
  unfold ruleSet?
  split
  · rename_i name fields declared _ _ _ _ htarget
    rw [htarget, Node.Sound, Kind.Sound, Kind.rules] at ht
    exact (hc.setOf ht.1 fun hd => ht.2 hd rfl).2
  · exact hc

end ApiForge.RuleCache
