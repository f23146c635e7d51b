import ApiForge.Proofs.Emission.Elements
import ApiForge.Rule.Coerce

/-!
# Integers in rules and in types

An integer schema has a rule on the shape of its values and a generated type. The rule knows no format, so it takes
every integer that JSON text can hold, signed or unsigned. The generated type holds the signed integers of 64 bits, or
of 32 bits if the format says so.

* `Node.admits_integer`: what the rules accept.
* `holds_integer`: what the generated type holds.
* `Session.integers_agree_iff`: the two agree on the integers that the type holds, and on no others.
-/

namespace ApiForge.Code.TypeExpr

/-- The least and the greatest value of an integer type. -/
def integerBounds? : TypeExpr → Option (Int × Int)
  | named name =>
    if name = "i32" then some (-2147483648, 2147483647)
    else if name = "i64" then some (Decimal.minSigned, Decimal.maxSigned)
    else none
  | _ => none

/-- Whether an integer is a value of an integer type. -/
def Holds (type : TypeExpr) (k : Int) : Prop :=
  ∃ bounds, type.integerBounds? = some bounds ∧ bounds.1 ≤ k ∧ k ≤ bounds.2

end ApiForge.Code.TypeExpr

namespace ApiForge.Schema

open Emission

section Integers

variable {a : Node}

/-- An integer schema admits the integers that its conditions allow. -/
theorem Node.admits_integer (hk : a.kind = .scalar .integer) (v : Json) :
    a.Admits v ↔ (∃ k, v = .num (.int k)) ∧ a.constraints.Allow v := by
  obtain ⟨_, kind, _, _, _, constraints, _⟩ := a
  subst hk
  simp only [Node.Admits, Kind.Admits, ScalarKind.Allows]

/-- The type of an integer schema holds the integers of 32 or of 64 bits. -/
theorem holds_integer (hk : a.kind = .scalar .integer) (k : Int) : (shapeExpr a).Holds k ↔
    if a.format = some "int32" then -2147483648 ≤ k ∧ k ≤ 2147483647
    else Decimal.minSigned ≤ k ∧ k ≤ Decimal.maxSigned := by
  have hbounds : (shapeExpr a).integerBounds? =
      if a.format = some "int32" then some (-2147483648, 2147483647)
      else some (Decimal.minSigned, Decimal.maxSigned) := by
    rw [shapeExpr, hk, kindExpr, scalarType]
    by_cases hformat : a.format = some "int32"
    · rw [if_pos hformat, hformat]
      rfl
    · rw [if_neg hformat, if_neg (by simpa using hformat)]
      rfl
  unfold Code.TypeExpr.Holds
  rw [hbounds]
  split <;> simp only [Option.some.injEq, exists_eq_left']

/-- A text is read as an integer only if this has 64 bits. -/
theorem coerce_integer (hk : a.kind = .scalar .integer) {raw : String} {k : Int} (h : a.coerce raw = .num (.int k)) :
    Decimal.minSigned ≤ k ∧ k ≤ Decimal.maxSigned := by
  obtain ⟨_, kind, _, _, _, _, _⟩ := a
  subst hk
  rw [Node.coerce, ScalarKind.coerce] at h
  cases hread : Decimal.signedInteger? raw with
  | none => rw [hread] at h; cases h
  | some n =>
    rw [hread] at h
    cases h
    obtain ⟨-, hrange⟩ := Option.filter_eq_some_iff.1 hread
    simpa using hrange

end Integers

/-- **When rules and types agree on integers**: after any session, take an integer schema that stands somewhere in an
answer, of any format. Its rules accept the integers that its conditions allow, and nothing else. Of the allowed
integers of JSON text, those that its type holds are accepted, and the type does not hold all that are: the two agree
exactly within the 32 bits of an `int32`, and otherwise up to the greatest signed integer. The texts of a parameter are
read as signed integers only, so without an `int32` the two agree on these. -/
theorem Session.integers_agree_iff {env : Env} {s : State} {nodes : List Node} (h : Session env s nodes) {n a : Node}
    (hn : n ∈ nodes) (ha : a.PartOf n) (hk : a.kind = .scalar .integer) (path : String) :
    let accepts := fun v => Rule.checkValue v path (s.rules.valueRules a).1 = []
    (∀ v, accepts v ↔ (∃ k, v = .num (.int k)) ∧ a.constraints.Allow v) ∧
    (∀ k, Decimal.minSigned ≤ k → k ≤ Decimal.maxUnsigned → a.constraints.Allow (.num (.int k)) →
      ((shapeExpr a).Holds k → accepts (.num (.int k))) ∧
      ((accepts (.num (.int k)) ↔ (shapeExpr a).Holds k) ↔
        if a.format = some "int32" then -2147483648 ≤ k ∧ k ≤ 2147483647 else k ≤ Decimal.maxSigned)) ∧
    (a.format ≠ some "int32" → ∀ raw, a.constraints.Allow (a.coerce raw) →
      (accepts (a.coerce raw) ↔ ∃ k, a.coerce raw = .num (.int k) ∧ (shapeExpr a).Holds k)) := by
  obtain ⟨ρ, hv, hsound⟩ := h.valid
  have hsa : a.Sound ρ := (hsound n hn).part ha
  have haccepts : ∀ v, Rule.checkValue v path (s.rules.valueRules a).1 = [] ↔
      (∃ k, v = .num (.int k)) ∧ a.constraints.Allow v := by
    intro v
    rw [(RuleCache.valueRules_sound hsa hv.cache).1, Rule.checkValue_rules, Node.admits_integer hk]
  dsimp only
  refine ⟨haccepts, fun k hmin hmax hallow => ?_, fun hformat raw hallow => ?_⟩
  · have haccepted : Rule.checkValue (.num (.int k)) path (s.rules.valueRules a).1 = [] :=
      (haccepts _).2 ⟨⟨k, rfl⟩, hallow⟩
    refine ⟨fun _ => haccepted, ?_⟩
    rw [iff_true_left haccepted, holds_integer hk]
    split
    · exact Iff.rfl
    · exact and_iff_right hmin
  · rw [haccepts, and_iff_left hallow]
    constructor
    · rintro ⟨k, hvalue⟩
      refine ⟨k, hvalue, (holds_integer hk k).2 ?_⟩
      rw [if_neg hformat]
      exact coerce_integer hk hvalue
    · rintro ⟨k, hvalue, -⟩
      exact ⟨k, hvalue⟩

/-- A question about integers of 32 bits. -/
def shortInteger : Query := .inline (.obj [("type", .str "integer"), ("format", .str "int32")]) "Body" "count"

/-- What is seen of an answer that is an integer: its format, and whether it has no conditions. -/
def integerView (n : Node) : Option (Option String × Bool) :=
  match n.kind with
  | .scalar .integer => some (n.format, n.constraints.isEmpty)
  | _ => none

theorem shortInteger_view : Ends (shortInteger.answer textEnv) (.initial textEnv)
    (fun nodes _ => nodes.map integerView = [some (some "int32", true)]) fun _ _ => False := by
  decide

theorem exists_shortInteger : ∃ s n, Session textEnv s [n] ∧ n.kind = .scalar .integer ∧ n.format = some "int32" ∧
    ∀ v, n.constraints.Allow v := by
  obtain ⟨nodes, s, hs, hview⟩ := shortInteger_view.exists_ok
  obtain ⟨n, rest, rfl, hn, hrest⟩ := List.map_eq_cons_iff.1 hview
  obtain rfl := List.map_eq_nil_iff.1 hrest
  unfold integerView at hn
  split at hn
  · rename_i hk
    simp only [Option.some.injEq, Prod.mk.injEq] at hn
    exact ⟨s, n, .answered shortInteger .start hs, hk, hn.1, Constraints.allow_of_isEmpty hn.2⟩
  · cases hn

theorem Session.integers_agree_iff_shortInteger : ∃ s n, Session textEnv s [n] ∧ n.format = some "int32" ∧
    (Rule.checkValue (.num (.int 2147483647)) "body" (s.rules.valueRules n).1 = [] ↔
      (shapeExpr n).Holds 2147483647) := by
  obtain ⟨s, n, hsession, hk, hformat, hallow⟩ := exists_shortInteger
  have hagree := (hsession.integers_agree_iff List.mem_cons_self .self hk "body").2.1 2147483647 (by decide)
    (by decide) (hallow _)
  refine ⟨s, n, hsession, hformat, hagree.2.2 ?_⟩
  rw [if_pos hformat]
  decide

/-- The rules of an integer of 32 bits accept three billion, which its type does not hold. -/
theorem integers_disagree_shortInteger : ∃ s n, Session textEnv s [n] ∧ n.kind = .scalar .integer ∧
    shapeExpr n = .named "i32" ∧ Rule.shapeAccepts (.num (.int 3000000000)) .integer = true ∧
    Rule.checkValue (.num (.int 3000000000)) "body" (s.rules.valueRules n).1 = [] ∧
    ¬ (shapeExpr n).Holds 3000000000 := by
  obtain ⟨s, n, hsession, hk, hformat, hallow⟩ := exists_shortInteger
  have htype : shapeExpr n = .named "i32" := by rw [shapeExpr, hk, hformat]; rfl
  obtain ⟨ρ, hv, hsound⟩ := hsession.valid
  refine ⟨s, n, hsession, hk, htype, rfl, ?_, ?_⟩
  · rw [(RuleCache.valueRules_sound (hsound n List.mem_cons_self) hv.cache).1, Rule.checkValue_rules,
      Node.admits_integer hk]
    exact ⟨⟨_, rfl⟩, hallow _⟩
  · rw [holds_integer hk, if_pos hformat]
    decide

end ApiForge.Schema
