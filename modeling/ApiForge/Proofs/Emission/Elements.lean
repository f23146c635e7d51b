import ApiForge.Emission.TypeName
import ApiForge.Proofs.Schema.Session

/-!
# Items of arrays in rules and in types

Whether an item of an array may be `null` is decided twice: by the rules of the array, and by the type that is generated
for it. The rules look at the element itself, the type also looks at what the element refers to.

* `accepts_null_iff`: what the rules say about an array with a `null`.
* `isVecOfOption_array`: what the generated type says.
* `Session.elements_agree_iff`: when the two agree.
-/

namespace ApiForge.Schema

/-- Where nothing is asked for, everything is allowed. -/
theorem Constraints.allow_of_isEmpty {c : Constraints} (h : c.isEmpty = true) (v : Json) : c.Allow v := by
  simp only [Constraints.isEmpty, Bool.and_eq_true, Option.isNone_iff_eq_none, List.isEmpty_iff] at h
  obtain ⟨⟨⟨⟨⟨⟨⟨hminLength, hmaxLength⟩, hminimum⟩, hmaximum⟩, hminItems⟩, hmaxItems⟩, hpattern⟩, honeOf⟩ := h
  constructor
  all_goals simp [*]

theorem Node.admits_array {a element : Node} (hk : a.kind = .array element) (xs : List Json) :
    a.Admits (.arr xs) ↔ a.constraints.Allow (.arr xs) ∧
      ∀ x ∈ xs, if x.isNull then element.nullable = true else element.Admits x := by
  obtain ⟨_, kind, _, _, _, constraints, _⟩ := a
  subst hk
  simp only [Node.Admits, Kind.Admits, Json.arr.injEq, exists_eq_left']

/-- An array that holds a `null`, and otherwise only items that the element admits, is accepted by the rules exactly when
the element itself is nullable. -/
theorem accepts_null_iff {a element : Node} (hk : a.kind = .array element) {xs : List Json} (hnull : .null ∈ xs)
    (hsize : a.constraints.Allow (.arr xs)) (hitems : ∀ x ∈ xs, x.isNull = false → element.Admits x) (path : String) :
    Rule.checkValue (.arr xs) path a.rules = [] ↔ element.nullable = true := by
  rw [Rule.checkValue_rules, Node.admits_array hk]
  constructor
  · rintro ⟨-, hall⟩
    exact hall _ hnull
  · intro hn
    refine ⟨hsize, fun x hx => ?_⟩
    split
    · exact hn
    · rename_i hx'
      exact hitems x hx (by simpa using hx')

end ApiForge.Schema

namespace ApiForge.Code.TypeExpr

/-- Whether the type is a list with optional items. -/
def isVecOfOption : TypeExpr → Bool
  | generic "Vec" [item] => item.isOption
  | _ => false

@[simp] theorem isVecOfOption_vec (item : TypeExpr) : (vec item).isVecOfOption = item.isOption := rfl

end ApiForge.Code.TypeExpr

namespace ApiForge.Emission

open Code Schema

mutual

/-- The type of a schema is never optional by itself: `null` is added where the schema is used. -/
theorem isOption_typeExpr : ∀ n : Node, (typeExpr n).isOption = false
  | ⟨name, kind, declared, _, format, _, _⟩ => by
    rw [typeExpr]
    split
    · rfl
    · exact isOption_kindExpr format kind

theorem isOption_kindExpr (format : Option String) : ∀ k : Kind, (kindExpr format k).isOption = false
  | .reference target => by
    rw [kindExpr]
    exact isOption_typeExpr target
  | .scalar kind => by
    rw [kindExpr]
    cases kind <;> rfl
  | .array element => by
    rw [kindExpr]
    split <;> rfl
  | .enumeration _ => by
    rw [kindExpr]
    rfl
  | .object _ => by
    rw [kindExpr]
    rfl

end

/-- The generated type of an array has optional items exactly when the element or its target is nullable. -/
theorem isVecOfOption_array {a element : Node} (hk : a.kind = .array element) :
    (shapeExpr a).isVecOfOption = element.isNullable := by
  rw [shapeExpr, hk, kindExpr]
  cases element.isNullable with
  | true => exact TypeExpr.isVecOfOption_vec _
  | false => exact (TypeExpr.isVecOfOption_vec _).trans (isOption_typeExpr element)

end ApiForge.Emission

namespace ApiForge.Schema

open Emission

/-- **When rules and types agree on items**: after any session, take an array that stands somewhere in an answer, and a
value that holds a `null` and is otherwise acceptable. The rules of the array accept the value exactly when the element
itself is nullable; the generated type has optional items exactly when the element or its target is nullable. So the two
agree exactly if the element is nullable whenever its target is, as it always is unless the element is a reference. -/
theorem Session.elements_agree_iff {env : Env} {s : State} {nodes : List Node} (h : Session env s nodes) {n a : Node}
    (hn : n ∈ nodes) (ha : a.PartOf n) {element : Node} (hk : a.kind = .array element) {xs : List Json}
    (hnull : .null ∈ xs) (hsize : a.constraints.Allow (.arr xs)) {path : String}
    (hitems : ∀ x ∈ xs, x.isNull = false → Rule.checkValue x path (s.rules.valueRules element).1 = []) :
    (Rule.checkValue (.arr xs) path (s.rules.valueRules a).1 = [] ↔ element.nullable = true) ∧
    ((shapeExpr a).isVecOfOption = true ↔ element.nullable = true ∨ element.target.nullable = true) ∧
    ((Rule.checkValue (.arr xs) path (s.rules.valueRules a).1 = [] ↔ (shapeExpr a).isVecOfOption = true) ↔
      (element.target.nullable = true → element.nullable = true)) ∧
    (element.kind.isReference = false →
      (Rule.checkValue (.arr xs) path (s.rules.valueRules a).1 = [] ↔ (shapeExpr a).isVecOfOption = true)) := by
  obtain ⟨ρ, hv, hsound⟩ := h.valid
  have hsa : a.Sound ρ := (hsound n hn).part ha
  have hse : element.Sound ρ := hsa.part (.element hk .self)
  rw [(RuleCache.valueRules_sound hsa hv.cache).1]
  have hadmits : ∀ x ∈ xs, x.isNull = false → element.Admits x := by
    intro x hx hx'
    have hcheck := hitems x hx hx'
    rw [(RuleCache.valueRules_sound hse hv.cache).1] at hcheck
    exact (Rule.checkValue_rules element x path).1 hcheck
  have hrules := accepts_null_iff hk hnull hsize hadmits path
  have htype : (shapeExpr a).isVecOfOption = true ↔ element.nullable = true ∨ element.target.nullable = true := by
    rw [isVecOfOption_array hk, Node.isNullable, Bool.or_eq_true]
  have hagree : (Rule.checkValue (.arr xs) path a.rules = [] ↔ (shapeExpr a).isVecOfOption = true) ↔
      (element.target.nullable = true → element.nullable = true) := by
    rw [hrules, htype]
    tauto
  refine ⟨hrules, htype, hagree, fun hshape => hagree.2 fun htarget => ?_⟩
  rwa [Node.target_of_shape hshape] at htarget

/-- A description with a named schema of texts or `null`. -/
def textEnv : Env :=
  let text : Json := .obj [("type", .str "string"), ("nullable", .bool true)]
  ⟨⟨"", "", "", "", .obj [("components", .obj [("schemas", .obj [("Text", text)])])], []⟩, .standard⟩

/-- A question about lists of what a schema describes. -/
def listOf (items : Json) : Query := .inline (.obj [("type", .str "array"), ("items", items)]) "Body" "texts"

/-- Texts or `null`, where they stand. -/
def inlineTexts : Query := listOf (.obj [("type", .str "string"), ("nullable", .bool true)])

/-- Texts or `null`, by reference. -/
def namedTexts : Query := listOf (.obj [("$ref", .str "#/components/schemas/Text")])

/-- What is seen of an answer that is an array: whether it has no conditions and its element takes a text by the rules,
whether the array takes a text and a `null` by the rules, and whether its generated type has optional items. -/
def textsView (s : State) (n : Node) : Option (Bool × Bool × Bool) :=
  match n.kind with
  | .array element =>
    some (n.constraints.isEmpty && (Rule.checkValue (.str "a") "body" (s.rules.valueRules element).1).isEmpty,
      (Rule.checkValue (.arr [.str "a", .null]) "body" (s.rules.valueRules n).1).isEmpty, (shapeExpr n).isVecOfOption)
  | _ => none

theorem exists_textsView {q : Query} {nodes : List Node} {s : State} {list option : Bool}
    (hs : (q.answer textEnv).run (.initial textEnv) = .ok nodes s)
    (hview : nodes.map (textsView s) = [some (true, list, option)]) :
    ∃ n element, Session textEnv s [n] ∧ n.kind = .array element ∧ n.constraints.Allow (.arr [.str "a", .null]) ∧
      Rule.checkValue (.str "a") "body" (s.rules.valueRules element).1 = [] ∧
      (Rule.checkValue (.arr [.str "a", .null]) "body" (s.rules.valueRules n).1 = [] ↔ list = true) ∧
      (shapeExpr n).isVecOfOption = option := by
  obtain ⟨n, rest, rfl, hn, hrest⟩ := List.map_eq_cons_iff.1 hview
  obtain rfl := List.map_eq_nil_iff.1 hrest
  have hsession : Session textEnv s [n] := .answered q .start hs
  unfold textsView at hn
  cases hk : n.kind with
  | array element =>
    rw [hk] at hn
    simp only [Option.some.injEq, Prod.mk.injEq, Bool.and_eq_true, List.isEmpty_iff] at hn
    obtain ⟨⟨hempty, hitem⟩, hlist, htype⟩ := hn
    refine ⟨n, element, hsession, hk, Constraints.allow_of_isEmpty hempty _, hitem, ?_, htype⟩
    rw [← hlist, List.isEmpty_iff]
  | _ => rw [hk] at hn; cases hn

theorem inlineTexts_view : Ends (inlineTexts.answer textEnv) (.initial textEnv)
    (fun nodes s => nodes.map (textsView s) = [some (true, true, true)]) fun _ _ => False := by
  decide

theorem Session.elements_agree_iff_inlineTexts : ∃ s n element, Session textEnv s [n] ∧ n.kind = .array element ∧
    n.constraints.Allow (.arr [.str "a", .null]) ∧
    (Rule.checkValue (.arr [.str "a", .null]) "body" (s.rules.valueRules n).1 = [] ↔ element.nullable = true) ∧
    ((shapeExpr n).isVecOfOption = true ↔ element.nullable = true ∨ element.target.nullable = true) ∧
    ((Rule.checkValue (.arr [.str "a", .null]) "body" (s.rules.valueRules n).1 = [] ↔
        (shapeExpr n).isVecOfOption = true) ↔ (element.target.nullable = true → element.nullable = true)) ∧
    (element.kind.isReference = false →
      (Rule.checkValue (.arr [.str "a", .null]) "body" (s.rules.valueRules n).1 = [] ↔
        (shapeExpr n).isVecOfOption = true)) := by
  obtain ⟨nodes, s, hs, hview⟩ := inlineTexts_view.exists_ok
  obtain ⟨n, element, hsession, hk, hsize, hitem, -⟩ := exists_textsView hs hview
  refine ⟨s, n, element, hsession, hk, hsize, ?_⟩
  refine hsession.elements_agree_iff List.mem_cons_self .self hk (by simp) hsize fun x hx hnull => ?_
  rcases List.mem_cons.1 hx with rfl | hx
  · exact hitem
  · obtain rfl := List.mem_singleton.1 hx
    cases hnull

theorem namedTexts_view : Ends (namedTexts.answer textEnv) (.initial textEnv)
    (fun nodes s => nodes.map (textsView s) = [some (true, false, true)]) fun _ _ => False := by
  decide +kernel

/-- Rules and types disagree on lists of a named schema that is nullable: a `null` is rejected by the rules, although the
other item is acceptable, and the generated type has optional items. -/
theorem elements_disagree_namedTexts : ∃ s n element, Session textEnv s [n] ∧ n.kind = .array element ∧
    n.constraints.Allow (.arr [.str "a", .null]) ∧ Rule.checkValue (.str "a") "body" (s.rules.valueRules element).1 = [] ∧
    ¬ (Rule.checkValue (.arr [.str "a", .null]) "body" (s.rules.valueRules n).1 = [] ↔
      (shapeExpr n).isVecOfOption = true) := by
  obtain ⟨nodes, s, hs, hview⟩ := namedTexts_view.exists_ok
  obtain ⟨n, element, hsession, hk, hsize, hitem, hlist, htype⟩ := exists_textsView hs hview
  refine ⟨s, n, element, hsession, hk, hsize, hitem, ?_⟩
  rw [hlist, htype]
  decide

end ApiForge.Schema
