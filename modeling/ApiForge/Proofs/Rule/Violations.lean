import ApiForge.Proofs.Schema.Satisfies
import ApiForge.Rule.Coerce

/-!
# Where violations lie and what they say

* `checkValue_under`: a violation is reported at the place of the value that is checked or at a place inside it.
* `Json.Flat`: values without `null` and without objects. Texts are read as such values (`coerceAll_flat`), and nothing
  is ever missing in them (`Json.Flat.complete`).
-/

namespace ApiForge

/-- Whether a violation lies at a place or inside it. -/
def Violation.Under (v : Violation) (place : String) : Prop := place.toList <+: v.path.toList

namespace Violation.Under

variable {v : Violation} {place inner : String}

theorem of_eq (h : v.path = place) : v.Under place := by
  subst h
  exact List.prefix_refl _

theorem trans (h : v.Under inner) (hinner : place.toList <+: inner.toList) : v.Under place := hinner.trans h

/-- A violation does not lie under two places of which neither lies under the other. -/
theorem not_under {other : String} (h : v.Under place) (hplace : ¬ place.toList <+: other.toList)
    (hother : ¬ other.toList <+: place.toList) : ¬ v.Under other := by
  intro h'
  rcases List.prefix_or_prefix_of_prefix h h' with hprefix | hprefix
  · exact hplace hprefix
  · exact hother hprefix

end Violation.Under

namespace Rule

variable {value : Json} {path : String} {v : Violation}

theorem memberPath_under (path key : String) : path.toList <+: (memberPath path key).toList := by
  unfold memberPath
  split
  · rename_i hempty
    rw [String.isEmpty_iff.1 hempty]
    exact List.nil_prefix
  · rw [String.toList_append, String.toList_append, List.append_assoc]
    exact List.prefix_append _ _

theorem itemPath_under (path : String) (index : Nat) : path.toList <+: (itemPath path index).toList := by
  have happend : itemPath path index = path ++ ("[" ++ toString index ++ "]") := by
    rw [← String.append_assoc, ← String.append_assoc]
    rfl
  rw [happend, String.toList_append]
  exact List.prefix_append _ _

/-- What is said of a value on its own: the place is its own, and it is not missing. -/
def OnValue (path : String) (v : Violation) : Prop := v.path = path ∧ v.rule ≠ .required

theorem onValue_of_mem_unless {ok : Bool} {kind : RuleKind} {message : String} (hkind : kind ≠ .required)
    (h : v ∈ unless_ ok path kind message) : OnValue path v := by
  cases ok with
  | true => cases h
  | false =>
    rw [List.mem_singleton.1 h]
    exact ⟨rfl, hkind⟩

theorem onValue_of_mem_checkLeaf {r : Rule} (h : v ∈ checkLeaf value path r) : OnValue path v := by
  cases r with
  | required | type | fields | elements => cases h
  | oneOf members => exact onValue_of_mem_unless (by decide) h
  | minLength | maxLength | pattern =>
    cases value with
    | str => exact onValue_of_mem_unless (by decide) h
    | _ => cases h
  | minimum | maximum =>
    cases value with
    | num => exact onValue_of_mem_unless (by decide) h
    | _ => cases h
  | minItems | maxItems =>
    cases value with
    | arr => exact onValue_of_mem_unless (by decide) h
    | _ => cases h

/-- Where a violation of the rules of a value comes from: from a later rule, from the value on its own, from a field, or
from an item. -/
theorem mem_checkValue_cons {r : Rule} {rules : List Rule} (h : v ∈ checkValue value path (r :: rules)) :
    v ∈ checkValue value path rules ∨ OnValue path v ∨
    (∃ members set, value = .obj members ∧ r = .fields set ∧ v ∈ checkFields members path set) ∨
    ∃ items inner nullable item i, value = .arr items ∧ item ∈ items ∧ r = .elements inner nullable ∧
      (OnValue (itemPath path i) v ∨ v ∈ checkValue item (itemPath path i) inner) := by
  cases r with
  | type shape =>
    rw [checkValue] at h
    split at h
    · exact .inl h
    · rw [List.mem_singleton.1 h]
      exact .inr (.inl ⟨rfl, fun h => by cases h⟩)
  | fields set =>
    cases value with
    | obj members =>
      rcases List.mem_append.1 h with h | h
      · exact .inr (.inr (.inl ⟨members, set, rfl, rfl, h⟩))
      · exact .inl h
    | _ => exact .inl h
  | elements inner nullable =>
    cases value with
    | arr items =>
      rcases List.mem_append.1 h with h | h
      · obtain ⟨_, hvs, h⟩ := List.mem_flatten.1 h
        obtain ⟨⟨item, i⟩, hitem, rfl⟩ := List.mem_map.1 hvs
        refine .inr (.inr (.inr ⟨items, inner, nullable, item, i, rfl, List.fst_mem_of_mem_zipIdx hitem, rfl, ?_⟩))
        dsimp only at h
        split at h
        · split at h
          · cases h
          · rw [List.mem_singleton.1 h]
            exact .inl ⟨rfl, fun h => by cases h⟩
        · exact .inr h
      · exact .inl h
    | _ => exact .inl h
  | required | minLength | maxLength | minimum | maximum | minItems | maxItems | oneOf | pattern =>
    rw [checkValue_leaf rfl] at h
    rcases List.mem_append.1 h with h | h
    · exact .inr (.inl (onValue_of_mem_checkLeaf h))
    · exact .inl h

/-- Where a violation of a field comes from: from its absence, from an unwanted `null`, or from its value. -/
theorem mem_checkField {rules : List Rule} {nullable : Bool} {value : Option Json}
    (h : v ∈ checkField rules nullable value path) :
    value = none ∧ v = missing path ∨ value = some .null ∧ v = unwantedNull path ∨
      ∃ w, value = some w ∧ v ∈ checkValue w path rules := by
  unfold checkField at h
  split at h
  · split at h
    · exact .inl ⟨rfl, List.mem_singleton.1 h⟩
    · cases h
  · split at h
    · exact .inr (.inl ⟨rfl, List.mem_singleton.1 h⟩)
    · cases h
  · exact .inr (.inr ⟨_, rfl, h⟩)

/-! ## Places -/

mutual

/-- Violations of a value lie at its place or inside it. -/
theorem checkValue_under (value : Json) (path : String) :
    ∀ (rules : List Rule) (v : Violation), v ∈ checkValue value path rules → v.Under path
  | [], v, hv => by cases hv
  | r :: rules, v, hv => by
    rcases mem_checkValue_cons hv with hlater | hvalue | ⟨members, set, -, rfl, hfield⟩ |
      ⟨items, inner, nullable, item, i, -, -, rfl, hitem | hitem⟩
    · exact checkValue_under value path rules v hlater
    · exact .of_eq hvalue.1
    · exact checkFields_under members path set v hfield
    · exact (Violation.Under.of_eq hitem.1).trans (itemPath_under path i)
    · exact (checkValue_under item _ inner v hitem).trans (itemPath_under path i)

theorem checkFields_under (members : Json.Members) (path : String) :
    ∀ (set : RuleSet) (v : Violation), v ∈ checkFields members path set → v.Under path
  | ⟨_, fs⟩, v, hv => by
    rw [checkFields] at hv
    exact checkFieldList_under members path fs v hv

theorem checkFieldList_under (members : Json.Members) (path : String) :
    ∀ (fs : List FieldRules) (v : Violation), v ∈ checkFieldList members path fs → v.Under path
  | [], v, hv => by cases hv
  | ⟨key, nullable, rules⟩ :: rest, v, hv => by
    rw [checkFieldList_cons] at hv
    rcases List.mem_append.1 hv with hv | hv
    · refine Violation.Under.trans ?_ (memberPath_under path key)
      obtain ⟨-, rfl⟩ | ⟨-, rfl⟩ | ⟨w, -, hv⟩ := mem_checkField hv
      · exact .of_eq rfl
      · exact .of_eq rfl
      · exact checkValue_under w _ rules v hv
    · exact checkFieldList_under members path rest v hv

end

theorem checkField_under {rules : List Rule} {nullable : Bool} {value : Option Json}
    (hv : v ∈ checkField rules nullable value path) : v.Under path := by
  obtain ⟨-, rfl⟩ | ⟨-, rfl⟩ | ⟨w, -, hv⟩ := mem_checkField hv
  · exact .of_eq rfl
  · exact .of_eq rfl
  · exact checkValue_under w path rules v hv

theorem checkObject_under {set : RuleSet} (hv : v ∈ checkObject set value path) : v.Under path := by
  unfold checkObject at hv
  split at hv
  · exact checkFields_under _ path set v hv
  · rw [List.mem_singleton.1 hv]
    exact .of_eq rfl

end Rule

/-! ## Values read from text -/

/-- A value without `null` and without objects. -/
inductive Json.Flat : Json → Prop
  | bool (b : Bool) : Flat (.bool b)
  | num (n : Number) : Flat (.num n)
  | str (s : String) : Flat (.str s)
  | arr (items : List Json) (h : ∀ item ∈ items, Flat item) : Flat (.arr items)

namespace Schema

theorem ScalarKind.coerce_flat (raw : String) (kind : ScalarKind) : (kind.coerce raw).Flat := by
  unfold ScalarKind.coerce
  cases kind with
  | integer | number =>
    dsimp only
    split
    · exact .num _
    · exact .str _
  | boolean =>
    dsimp only
    split
    · exact .bool _
    · split
      · exact .bool _
      · exact .str _
  | string | dateTime | any => exact .str _

theorem Node.coerce_flat : ∀ (node : Node) (raw : String), (node.coerce raw).Flat
  | ⟨_, .reference target, _, _, _, _, _⟩, raw => by
    rw [Node.coerce]
    exact target.coerce_flat raw
  | ⟨_, .array element, _, _, _, _, _⟩, raw => by
    rw [Node.coerce]
    refine .arr _ fun item hitem => ?_
    obtain ⟨text, -, rfl⟩ := List.mem_map.1 hitem
    exact element.coerce_flat text
  | ⟨_, .scalar kind, _, _, _, _, _⟩, raw => kind.coerce_flat raw
  | ⟨_, .enumeration _, _, _, _, _, _⟩, raw | ⟨_, .object _, _, _, _, _, _⟩, raw => .str raw

/-- Texts are read as a value, if there is one. -/
theorem Node.coerceAll_flat (node : Node) {raws : List String} (h : raws ≠ []) :
    ∃ value, node.coerceAll raws = some value ∧ value.Flat := by
  unfold Node.coerceAll
  split
  · rename_i element _
    rw [if_neg (by simpa using h)]
    refine ⟨_, rfl, .arr _ fun item hitem => ?_⟩
    obtain ⟨text, -, rfl⟩ := List.mem_map.1 hitem
    exact element.coerce_flat text
  · rw [List.getLast?_eq_some_getLast h]
    exact ⟨_, rfl, node.coerce_flat _⟩

end Schema

/-- What never says that something is missing, whatever the place and the rules. -/
def Json.Complete (value : Json) : Prop :=
  ∀ (path : String) (rules : List Rule), ∀ v ∈ Rule.checkValue value path rules, v.rule ≠ .required

/-- Only members of objects can be missing. -/
theorem Json.Complete.of_items {value : Json} (hvalue : ∀ members, value ≠ .obj members)
    (hitems : ∀ items, value = .arr items → ∀ item ∈ items, item.Complete) : value.Complete := by
  intro path rules
  induction rules with
  | nil => nofun
  | cons r rules ih =>
    intro v hv
    rcases Rule.mem_checkValue_cons hv with hlater | hon | ⟨members, _, hobj, _⟩ |
      ⟨items, inner, _, item, _, harr, hitem, -, hon | hin⟩
    · exact ih v hlater
    · exact hon.2
    · exact absurd hobj (hvalue members)
    · exact hon.2
    · exact hitems items harr item hitem _ inner v hin

theorem Json.Flat.complete {value : Json} (h : value.Flat) : value.Complete := by
  induction h with
  | bool | num | str => exact .of_items nofun nofun
  | arr items _ ih =>
    refine .of_items nofun fun items' heq item hitem => ?_
    cases heq
    exact ih item hitem

/-- A record with complete values under all its keys misses nothing. -/
theorem Rule.checkFieldList_complete {members : Json.Members} {path : String} : ∀ {fs : List FieldRules},
    (∀ f ∈ fs, ∃ value, members.get? f.wireKey = some value ∧ value.Complete) →
      ∀ v ∈ checkFieldList members path fs, v.rule ≠ .required
  | [], _, v, hv => by cases hv
  | ⟨key, nullable, rules⟩ :: rest, h, v, hv => by
    obtain ⟨value, hvalue, hcomplete⟩ := h _ List.mem_cons_self
    rw [checkFieldList_cons, hvalue] at hv
    rcases List.mem_append.1 hv with hv | hv
    · obtain ⟨hnone, -⟩ | ⟨-, rfl⟩ | ⟨w, hw, hv⟩ := mem_checkField hv
      · cases hnone
      · exact fun hrule => by cases hrule
      · cases hw
        exact hcomplete _ rules v hv
    · exact checkFieldList_complete (fun f hf => h f (List.mem_cons_of_mem _ hf)) v hv

end ApiForge
