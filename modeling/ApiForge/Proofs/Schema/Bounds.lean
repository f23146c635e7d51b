import ApiForge.Proofs.Decimal.Binary64
import ApiForge.Proofs.Rule.Places
import ApiForge.Proofs.Schema.Stored

/-!
# Numeric conditions on integers

Limits, enumeration members and values are compared as binary64 numbers, also where a schema and a value have integers.
So the comparison is that of what the integers are rounded to: it is exact but for different integers that are rounded
to the same number.

* `Decides raw ms`: the members `ms` say which scalar the schema `raw` is. They are its own, or those of the one schema
  in a union.
* `WritesLimit ms key exclusiveKey m exclusive`: the members have the integer `m` as a limit.
* `Rule.Rejected rules kind v path`: one of the rules, of the kind, reports the value.
* `view_conditioned`: the conditions of a scalar are those that its schema says.
* `Session.compares_rounded`: which integers are rejected by the rules that are compiled after any session.
-/

namespace ApiForge

open Decimal

/-! ## Comparing integers -/

/-- One of the rules, of the kind, reports the value. -/
def Rule.Rejected (rules : List Rule) (kind : RuleKind) (v : Json) (path : String) : Prop :=
  ∃ r ∈ rules, r.kind = kind ∧ Rule.checkLeaf v path r ≠ []

instance (rules : List Rule) (kind : RuleKind) (v : Json) (path : String) :
    Decidable (Rule.Rejected rules kind v path) :=
  inferInstanceAs (Decidable (∃ r ∈ rules, r.kind = kind ∧ Rule.checkLeaf v path r ≠ []))

section Comparing

variable {x m : Int} (hx : x.natAbs < 2 ^ 64) (hm : m.natAbs < 2 ^ 64)

include hx hm

theorem Rule.not_asks_minimum (exclusive : Bool) :
    ¬ (Rule.minimum ⟨Float.ofInt m, exclusive⟩).Asks (.num (.int x)) ↔
      if exclusive then x ≤ m ∨ rounded x = rounded m else x < m ∧ rounded x ≠ rounded m := by
  have hx := log2_natAbs_le hx
  have hm := log2_natAbs_le hm
  simp only [Rule.Asks, Json.num.injEq, forall_eq', Number.toFloat]
  cases exclusive with
  | true =>
    simp only [if_true]
    rw [ofInt_lt hm hx, not_lt, rounded_le_iff]
  | false =>
    simp only [Bool.false_eq_true, if_false]
    rw [ofInt_le hm hx, not_le, rounded_lt_iff]

theorem Rule.not_asks_maximum (exclusive : Bool) :
    ¬ (Rule.maximum ⟨Float.ofInt m, exclusive⟩).Asks (.num (.int x)) ↔
      if exclusive then m ≤ x ∨ rounded x = rounded m else m < x ∧ rounded x ≠ rounded m := by
  have hx := log2_natAbs_le hx
  have hm := log2_natAbs_le hm
  simp only [Rule.Asks, Json.num.injEq, forall_eq', Number.toFloat]
  cases exclusive with
  | true =>
    simp only [if_true]
    rw [ofInt_lt hx hm, not_lt, rounded_le_iff, eq_comm (a := rounded x)]
  | false =>
    simp only [Bool.false_eq_true, if_false]
    rw [ofInt_le hx hm, not_le, rounded_lt_iff, ne_comm (a := rounded x)]

theorem Rule.sameValue_int : Rule.sameValue (.num (.int m)) (.num (.int x)) = true ↔ rounded x = rounded m := by
  change (Float.ofInt m == Float.ofInt x) = true ↔ _
  rw [ofInt_beq (log2_natAbs_le hm) (log2_natAbs_le hx), eq_comm]

end Comparing

namespace Schema

open Json

/-! ## Rules of conditions -/

/-- The conditions declare what the rule says. -/
def Constraints.Declares (c : Constraints) : Rule → Prop
  | .minLength n => c.minLength = some n
  | .maxLength n => c.maxLength = some n
  | .minimum b => c.minimum = some b
  | .maximum b => c.maximum = some b
  | .minItems n => c.minItems = some n
  | .maxItems n => c.maxItems = some n
  | .oneOf members => c.oneOf ≠ [] ∧ members = c.oneOf
  | .pattern p => c.pattern = some p
  | _ => False

/-- The rules of conditions are those that they declare. -/
theorem mem_leafRules {c : Constraints} {r : Rule} : r ∈ leafRules c ↔ c.Declares r := by
  cases r <;> simp [leafRules, Constraints.Declares]

/-- Conditions declare one rule of each kind. -/
theorem Constraints.Declares.unique {c : Constraints} {r r' : Rule} (h : c.Declares r) (h' : c.Declares r')
    (hkind : r.kind = r'.kind) : r = r' := by
  cases r <;> cases r' <;> cases hkind <;> simp_all [Constraints.Declares]

section Scalars

variable {a : Node} {kind : ScalarKind} {k : RuleKind} {v : Json} {path : String} {required : Bool}

theorem Node.fieldRules_scalar (hkind : a.kind = .scalar kind) :
    a.fieldRules required = withPresence required ((kind.shape?.map Rule.type).toList ++ leafRules a.constraints) := by
  obtain ⟨_, _, _, _, _, _, _⟩ := a
  subst hkind
  rfl

/-- Only declared conditions reject: the rules for presence and shape report nothing of their own kind. -/
theorem Node.rejected_scalar (hkind : a.kind = .scalar kind) :
    Rule.Rejected (a.fieldRules required) k v path ↔ ∃ r, a.constraints.Declares r ∧ r.kind = k ∧ ¬ r.Asks v := by
  rw [Node.fieldRules_scalar hkind]
  constructor
  · rintro ⟨r, hr, hrk, hreport⟩
    rcases mem_withPresence hr with rfl | hr
    · exact absurd rfl hreport
    rcases List.mem_append.1 hr with hr | hr
    · obtain ⟨shape, -, rfl⟩ := Option.map_eq_some_iff.1 (Option.mem_toList.1 hr)
      exact absurd rfl hreport
    · exact ⟨r, mem_leafRules.1 hr, hrk, fun hasks => hreport (Rule.checkLeaf_eq_nil.2 hasks)⟩
  · rintro ⟨r, hr, hrk, hasks⟩
    have hmem : r ∈ (kind.shape?.map Rule.type).toList ++ leafRules a.constraints :=
      List.mem_append_right _ (mem_leafRules.2 hr)
    refine ⟨r, ?_, hrk, fun hreport => hasks (Rule.checkLeaf_eq_nil.1 hreport)⟩
    cases required with
    | true => exact List.mem_cons_of_mem _ hmem
    | false => exact hmem

/-- A declared condition rejects what does not meet it. -/
theorem Node.rejected_iff (hkind : a.kind = .scalar kind) {r : Rule} (hr : a.constraints.Declares r) :
    Rule.Rejected (a.fieldRules required) r.kind v path ↔ ¬ r.Asks v := by
  rw [Node.rejected_scalar hkind]
  constructor
  · rintro ⟨r', hr', hkind', hasks⟩
    rwa [← hr'.unique hr hkind']
  · intro hasks
    exact ⟨r, hr, rfl, hasks⟩

/-- What the rules of a scalar report of a number that it takes is what its conditions report. -/
theorem Node.checkField_scalar (hkind : a.kind = .scalar kind) {x : Number} (hallows : kind.Allows (.num x))
    (nullable : Bool) : Rule.checkField (a.fieldRules required) nullable (some (.num x)) path =
      (leafRules a.constraints).flatMap (Rule.checkLeaf (.num x) path) := by
  have hleaves : Rule.checkValue (.num x) path (leafRules a.constraints) =
      (leafRules a.constraints).flatMap (Rule.checkLeaf (.num x) path) := by
    have hchecked : Rule.checkValue (.num x) path (leafRules a.constraints ++ []) = _ :=
      Rule.checkValue_leaves Rule.isLeaf_leafRules []
    rwa [List.append_nil, Rule.checkValue, List.append_nil] at hchecked
  have hshape : Rule.checkValue (.num x) path ((kind.shape?.map Rule.type).toList ++ leafRules a.constraints) =
      Rule.checkValue (.num x) path (leafRules a.constraints) := by
    cases kind with
    | integer =>
      obtain ⟨n, hn⟩ := hallows
      cases hn
      rfl
    | number | any => rfl
    | string | boolean => obtain ⟨_, hn⟩ := hallows; cases hn
    | dateTime => obtain ⟨_, hn, -⟩ := hallows; cases hn
  rw [Node.fieldRules_scalar hkind, ← hleaves, ← hshape]
  cases required <;> rfl

/-- **A condition that rejects a number is reported**, and nothing else is, if the scalar takes the number at all. -/
theorem Node.reported_scalar (hkind : a.kind = .scalar kind) {x : Number} (hallows : kind.Allows (.num x))
    (nullable : Bool) :
    (∃ w ∈ Rule.checkField (a.fieldRules required) nullable (some (.num x)) path, w.rule = k) ↔
      Rule.Rejected (a.fieldRules required) k (.num x) path := by
  rw [Node.checkField_scalar hkind hallows, Node.rejected_scalar hkind]
  constructor
  · rintro ⟨w, hw, rfl⟩
    obtain ⟨r, hr, hw⟩ := List.mem_flatMap.1 hw
    refine ⟨r, mem_leafRules.1 hr, ?_, fun hasks => ?_⟩
    · obtain ⟨ok, message, heq⟩ := Rule.exists_checkLeaf_eq (.num x) r
      rw [heq] at hw
      cases ok with
      | true => cases hw
      | false => rw [List.mem_singleton.1 hw]
    · rw [Rule.checkLeaf_eq_nil.2 hasks] at hw
      cases hw
  · rintro ⟨r, hr, rfl, hasks⟩
    obtain ⟨ok, message, heq⟩ := Rule.exists_checkLeaf_eq (.num x) r
    have hreport : Rule.checkLeaf (.num x) path r ≠ [] := fun h => hasks (Rule.checkLeaf_eq_nil.1 h)
    rw [heq] at hreport
    refine ⟨⟨path, r.kind, message⟩, List.mem_flatMap.2 ⟨r, mem_leafRules.2 hr, ?_⟩, rfl⟩
    rw [heq]
    cases ok with
    | true => exact absurd rfl hreport
    | false => exact List.mem_singleton_self _

end Scalars

theorem Node.outline_constraints (a : Node) : a.outline.constraints = a.constraints := by
  obtain ⟨_, _, _, _, _, _, _⟩ := a
  rw [Node.outline, Node.blank]

/-! ## Conditions of schemas -/

/-- The members that say which scalar a schema is: its own, or those of the one schema in a union. -/
inductive Decides : Json → Members → Prop where
  | plain {ms : Members} : Plain ms → Decides (.obj ms) ms
  | union {ms ms' : Members} {members : List Json} {single : Json} : IsUnion ms members single → Decides single ms' →
      Decides (.obj ms) ms'

/-- An integer is written as a limit: as an inclusive one, as one that is marked as exclusive, or as an exclusive one of
its own. -/
inductive WritesLimit (ms : Members) (key exclusiveKey : String) (m : Int) : Bool → Prop where
  | inclusive : ms.get? key = some (.num (.int m)) → (∀ x, ms.get? exclusiveKey ≠ some (.num x)) →
      ms.get? exclusiveKey ≠ some (.bool true) → WritesLimit ms key exclusiveKey m false
  | marked : ms.get? key = some (.num (.int m)) → ms.get? exclusiveKey = some (.bool true) →
      WritesLimit ms key exclusiveKey m true
  | exclusive : ms.get? exclusiveKey = some (.num (.int m)) → WritesLimit ms key exclusiveKey m true

section Conditions

variable {ms : Members} {n : Node} {kind : ScalarKind} {p : Place}

/-- A limit that is written as an integer is compiled as the number that the integer is rounded to. -/
theorem boundOf_of_writes {key exclusiveKey : String} {m : Int} {exclusive : Bool}
    (h : WritesLimit ms key exclusiveKey m exclusive) :
    boundOf ms key exclusiveKey = some ⟨Float.ofInt m, exclusive⟩ := by
  unfold boundOf
  cases h with
  | inclusive hkey hnum hbool =>
    rw [hkey]
    split
    · rename_i hx
      exact absurd hx (hnum _)
    · rename_i b hb
      cases b with
      | true => exact absurd hb hbool
      | false => rfl
    · rfl
  | marked hkey hbool =>
    rw [hkey, hbool]
    rfl
  | exclusive hnum =>
    rw [hnum]
    rfl

/-- The members of an enumeration that may be present. -/
def presentMembers (ms : Members) : List Json := (((ms.get? "enum").bind Json.items?).getD []).filter (!·.isNull)

/-- The conditions that the members of a schema declare for a scalar. -/
structure Node.Conditioned (ms : Members) (n : Node) : Prop where
  minimum : n.constraints.minimum = boundOf ms "minimum" "exclusiveMinimum"
  maximum : n.constraints.maximum = boundOf ms "maximum" "exclusiveMaximum"
  oneOf : n.constraints.oneOf = presentMembers ms

/-- Only an invalid pattern keeps conditions from being read. -/
theorem constraintsOf_limits {c : Context} {found : Constraints} (h : constraintsOf ms c = .ok found) :
    found.minimum = boundOf ms "minimum" "exclusiveMinimum" ∧
      found.maximum = boundOf ms "maximum" "exclusiveMaximum" := by
  unfold constraintsOf at h
  cases htext : textOf ms "pattern" with
  | none =>
    rw [htext] at h
    cases h
    exact ⟨rfl, rfl⟩
  | some source =>
    rw [htext] at h
    cases hparse : TextPattern.parse? source with
    | none =>
      simp only [hparse] at h
      cases h
    | some pattern =>
      simp only [hparse] at h
      cases h
      exact ⟨rfl, rfl⟩

theorem viewScalar_conditioned {nullable : Bool} (h : viewScalar p kind nullable ms = some n) : n.Conditioned ms := by
  obtain ⟨c, hc, hn⟩ := Option.bind_eq_some_iff.1 h
  cases hn
  cases hfound : constraintsOf ms p.context with
  | ok found =>
    rw [hfound] at hc
    cases hc
    obtain ⟨hminimum, hmaximum⟩ := constraintsOf_limits hfound
    exact ⟨hminimum, hmaximum, rfl⟩
  | error e =>
    rw [hfound] at hc
    cases hc

/-- A typed schema that is a scalar is read as one. -/
theorem viewTyped_conditioned {read : View} (h : viewTyped read p ms = some n) (hkind : n.kind = .scalar kind) :
    n.Conditioned ms := by
  unfold viewTyped at h
  split at h
  · cases h
  · split at h
    · obtain ⟨_, -, hn⟩ := Option.bind_eq_some_iff.1 h
      cases hn
      cases hkind
    · obtain ⟨_, -, h⟩ := Option.bind_eq_some_iff.1 h
      obtain ⟨_, -, hn⟩ := Option.bind_eq_some_iff.1 h
      cases hn
      cases hkind
    · split at h
      · unfold viewEnum at h
        split at h
        · cases h
        · cases h
        · obtain ⟨_, -, hn⟩ := Option.bind_eq_some_iff.1 h
          cases hn
          cases hkind
      · exact viewScalar_conditioned h
    · exact viewScalar_conditioned h
    · exact viewScalar_conditioned h
    · exact viewScalar_conditioned h
    · exact viewScalar_conditioned h
    · cases h

theorem viewForm_plain {look : Lookup} {read : View} (hplain : Plain ms) :
    viewForm look read p ms = viewTyped read p ms := by
  rw [viewForm, hplain.reference, hplain.union, hplain.composition]
  rfl

theorem viewForm_union {look : Lookup} {read : View} {members : List Json} {single : Json}
    (hunion : IsUnion ms members single) (h : viewForm look read p ms = some n) :
    ∃ n', read single p = some n' ∧ n'.kind = n.kind ∧ n'.constraints = n.constraints := by
  obtain ⟨href, hall, hmembers, hsingle⟩ := hunion
  rw [viewForm, href, hall, hmembers] at h
  simp only [Bool.false_eq_true, if_false, viewUnion, Json.items?, hsingle] at h
  obtain ⟨n', hn', hn⟩ := Option.bind_eq_some_iff.1 h
  cases hn
  refine ⟨n', hn', ?_⟩
  split <;> exact ⟨rfl, rfl⟩

/-- **A scalar has the conditions that its schema says**, also if this is a union. -/
theorem view_conditioned {look : Lookup} {raw : Json} (hms : Decides raw ms) (hkind : n.kind = .scalar kind) :
    ∀ {i : Nat}, view look i raw p = some n → n.Conditioned ms := by
  intro i h
  induction hms generalizing n i with
  | plain hplain =>
    cases i with
    | zero => cases h
    | succ i =>
      rw [view, viewStep, viewForm_plain hplain] at h
      exact viewTyped_conditioned h hkind
  | union hunion _ ih =>
    cases i with
    | zero => cases h
    | succ i =>
      obtain ⟨n', hn', hkind', hconstraints⟩ := viewForm_union hunion h
      obtain ⟨hminimum, hmaximum, honeOf⟩ := ih (hkind'.trans hkind) hn'
      rw [hconstraints] at hminimum hmaximum honeOf
      exact ⟨hminimum, hmaximum, honeOf⟩

end Conditions

/-! ## Sessions -/

/-- **Integers are compared by what they are rounded to**: after any session, take a scalar that stands somewhere in an
answer, and the schema that it is read from. An integer that the schema writes as a limit or lists in its enumeration
rejects the integers that exact comparison says, but for those that are rounded to the same number: they count as equal.
This makes no difference where one of the two is below `2 ^ 53`. What is rejected is what is reported, if the scalar takes
integers at all. -/
theorem Session.compares_rounded {env : Env} {s : State} {nodes : List Node} (h : Session env s nodes) {n a : Node}
    (hn : n ∈ nodes) (ha : a.PartOf n) {raw : Json} {ms : Members} (hms : Decides raw ms) {p : Place} {i : Nat}
    (hread : view env.lookup i raw p = some a.outline) {kind : ScalarKind} (hkind : a.kind = .scalar kind) {x : Int}
    (hx : x.natAbs < 2 ^ 64) (required : Bool) (path : String) :
    let rules := (s.rules.fieldRules a required).1
    let value := Json.num (.int x)
    (∀ m exclusive, m.natAbs < 2 ^ 64 → WritesLimit ms "minimum" "exclusiveMinimum" m exclusive →
      (Rule.Rejected rules .minimum value path ↔
        if exclusive then x ≤ m ∨ rounded x = rounded m else x < m ∧ rounded x ≠ rounded m)) ∧
    (∀ m exclusive, m.natAbs < 2 ^ 64 → WritesLimit ms "maximum" "exclusiveMaximum" m exclusive →
      (Rule.Rejected rules .maximum value path ↔
        if exclusive then m ≤ x ∨ rounded x = rounded m else m < x ∧ rounded x ≠ rounded m)) ∧
    (∀ members ks, ms.get? "enum" = some (.arr members) →
      members.filter (!·.isNull) = ks.map (fun k => .num (.int k)) → ks ≠ [] → (∀ k ∈ ks, k.natAbs < 2 ^ 64) →
      (Rule.Rejected rules .oneOf value path ↔ ∀ k ∈ ks, rounded x ≠ rounded k)) ∧
    (∀ m : Int, x.natAbs < 2 ^ 53 ∨ m.natAbs < 2 ^ 53 → (rounded x = rounded m ↔ x = m)) ∧
    (kind.Allows value → ∀ k, (∃ w ∈ Rule.checkField rules a.isNullable (some value) path, w.rule = k) ↔
      Rule.Rejected rules k value path) := by
  obtain ⟨ρ, hv, hsound⟩ := h.valid
  have hrules := (RuleCache.fieldRules_sound ((hsound n hn).part ha) hv.cache required).1
  have hscalar : a.outline.kind = .scalar kind := by rw [Node.outline, Node.blank_kind, hkind, Kind.blank]
  obtain ⟨hminimum, hmaximum, honeOf⟩ := view_conditioned hms hscalar hread
  rw [Node.outline_constraints] at hminimum hmaximum honeOf
  dsimp only
  rw [hrules]
  refine ⟨fun m exclusive hm hwrites => ?_, fun m exclusive hm hwrites => ?_, fun members ks henum hks hne hm => ?_,
    fun m hsmall => ?_, fun hallows k => Node.reported_scalar hkind hallows _⟩
  · rw [← Rule.not_asks_minimum hx hm]
    exact Node.rejected_iff hkind (r := .minimum _) (hminimum.trans (boundOf_of_writes hwrites))
  · rw [← Rule.not_asks_maximum hx hm]
    exact Node.rejected_iff hkind (r := .maximum _) (hmaximum.trans (boundOf_of_writes hwrites))
  · have hpresent : a.constraints.oneOf = ks.map fun k => .num (.int k) := by
      rw [honeOf, presentMembers, henum, ← hks]
      rfl
    have hdeclares : a.constraints.Declares (.oneOf (ks.map fun k => .num (.int k))) := by
      refine ⟨?_, hpresent.symm⟩
      rw [hpresent]
      exact fun hnil => hne (List.map_eq_nil_iff.1 hnil)
    refine (Node.rejected_iff hkind hdeclares).trans ?_
    simp only [Rule.Asks, List.mem_map, exists_exists_and_eq_and, not_exists, not_and]
    refine forall₂_congr fun k hk => ?_
    rw [Rule.sameValue_int hx (hm k hk)]
  · constructor
    · intro heq
      rcases hsmall with hsmall | hsmall
      · exact rounded_injective hsmall heq
      · exact (rounded_injective hsmall heq.symm).symm
    · rintro rfl
      rfl

/-- The node that answers a question about a schema is read from it. -/
theorem Query.inline_reads {env : Env} {s : State} (hs : s.Viewed env) (raw : Json) (hint owner : String) :
    Ends ((Query.inline raw hint owner).answer env) s
      (fun nodes _ => ∃ n i, nodes = [n] ∧ view env.lookup i raw ⟨none, false, env.presence⟩ = some n.outline)
      fun _ _ => True := by
  refine ends_bind.2 ((build_follows env _ raw _ s hs).mono (fun n s' ⟨_, hn⟩ => ?_) fun _ _ _ => trivial)
  obtain ⟨i, hi⟩ := hn
  exact ends_pure.2 ⟨n, i, rfl, hi i (Nat.le_refl i)⟩

/-- Integers above five and up to `2 ^ 53`, of which two are allowed. -/
def limitedCount : Members :=
  [("type", .str "integer"), ("exclusiveMinimum", .num (.int 5)), ("maximum", .num (.int 9007199254740992)),
    ("enum", .arr [.num (.int 7), .num (.int 9007199254740992)])]

/-- A question about such integers. -/
def countQuery : Query := .inline (.obj limitedCount) "Body" "count"

/-- What the rules of an integer say of the first integer that is not kept: what is reported, and which kinds of rules
reject it. -/
def countReports (s : State) (n : Node) : Option (List Violation × List Bool) :=
  let rules := (s.rules.fieldRules n true).1
  let value := Json.num (.int 9007199254740993)
  match n.kind with
  | .scalar .integer => some (Rule.checkField rules n.isNullable (some value) "body",
      [.minimum, .maximum, .oneOf].map fun kind => decide (Rule.Rejected rules kind value "body"))
  | _ => none

theorem countQuery_answered : Ends (countQuery.answer petEnv) (.initial petEnv)
    (fun nodes s => nodes.map (countReports s) = [some ([], [false, false, false])]) fun _ _ => False := by
  decide +kernel

theorem exists_countQuery : ∃ s n i, Session petEnv s [n] ∧ n.kind = .scalar .integer ∧
    view petEnv.lookup i (.obj limitedCount) ⟨none, false, petEnv.presence⟩ = some n.outline ∧
    countReports s n = some ([], [false, false, false]) := by
  obtain ⟨nodes, s, hrun, hreports⟩ := countQuery_answered.exists_ok
  obtain ⟨n, i, rfl, hread⟩ := (Query.inline_reads (viewed_initial petEnv) _ _ _).of_ok hrun
  have hn : countReports s n = some ([], [false, false, false]) := (List.cons.inj hreports).1
  have hkind : n.kind = .scalar .integer := by
    unfold countReports at hn
    split at hn
    · assumption
    · cases hn
  exact ⟨s, n, i, .answered countQuery .start hrun, hkind, hread, hn⟩

theorem Session.compares_rounded_countQuery : ∃ s n, Session petEnv s [n] ∧
    let rules := (s.rules.fieldRules n true).1
    let value := Json.num (.int 9007199254740993)
    (Rule.Rejected rules .minimum value "body" ↔
      (9007199254740993 : Int) ≤ 5 ∨ rounded 9007199254740993 = rounded 5) ∧
    (Rule.Rejected rules .maximum value "body" ↔
      (9007199254740992 : Int) < 9007199254740993 ∧ rounded 9007199254740993 ≠ rounded 9007199254740992) ∧
    (Rule.Rejected rules .oneOf value "body" ↔
      ∀ k ∈ [7, 9007199254740992], rounded 9007199254740993 ≠ rounded k) ∧
    (rounded 9007199254740993 = rounded 7 ↔ (9007199254740993 : Int) = 7) ∧
    ∀ kind, (∃ w ∈ Rule.checkField rules n.isNullable (some value) "body", w.rule = kind) ↔
      Rule.Rejected rules kind value "body" := by
  obtain ⟨s, n, i, hsession, hkind, hread, -⟩ := exists_countQuery
  have hdecides : Decides (.obj limitedCount) limitedCount := .plain ⟨by decide, by decide, by decide⟩
  obtain ⟨hminimum, hmaximum, honeOf, hsmall, hreported⟩ := hsession.compares_rounded List.mem_cons_self .self hdecides
    hread hkind (x := 9007199254740993) (by decide) true "body"
  refine ⟨s, n, hsession, hminimum 5 true (by decide) (.exclusive rfl), ?_, ?_, hsmall 7 (.inr (by decide)),
    hreported ⟨_, rfl⟩⟩
  · exact hmaximum 9007199254740992 false (by decide) (.inclusive rfl nofun nofun)
  · exact honeOf _ [7, 9007199254740992] rfl rfl (by decide) (by decide)

/-- The first integer that is not kept is above `2 ^ 53` and no member of the enumeration, and no rule rejects it. -/
theorem maximum_not_exact_countQuery : ∃ s n i, Session petEnv s [n] ∧ n.kind = .scalar .integer ∧
    view petEnv.lookup i (.obj limitedCount) ⟨none, false, petEnv.presence⟩ = some n.outline ∧
    WritesLimit limitedCount "maximum" "exclusiveMaximum" 9007199254740992 false ∧
    limitedCount.get? "enum" = some (.arr [.num (.int 7), .num (.int 9007199254740992)]) ∧
    (9007199254740992 : Int) < 9007199254740993 ∧
    ¬ Rule.Rejected (s.rules.fieldRules n true).1 .maximum (.num (.int 9007199254740993)) "body" ∧
    ¬ Rule.Rejected (s.rules.fieldRules n true).1 .oneOf (.num (.int 9007199254740993)) "body" ∧
    Rule.checkField (s.rules.fieldRules n true).1 n.isNullable (some (.num (.int 9007199254740993))) "body" = [] := by
  obtain ⟨s, n, i, hsession, hkind, hread, hn⟩ := exists_countQuery
  rw [countReports, hkind] at hn
  simp only [Option.some.injEq, Prod.mk.injEq, List.map_cons, List.cons.injEq, decide_eq_false_iff_not] at hn
  obtain ⟨hnothing, -, hmaximum, honeOf, -⟩ := hn
  exact ⟨s, n, i, hsession, hkind, hread, .inclusive rfl nofun nofun, rfl, by decide, hmaximum, honeOf, hnothing⟩

end Schema

end ApiForge
