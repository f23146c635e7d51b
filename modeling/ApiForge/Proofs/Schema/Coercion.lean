import ApiForge.Proofs.Rule.Places
import ApiForge.Proofs.Rule.Violations
import ApiForge.Proofs.Schema.Compiled
import ApiForge.Proofs.Text.Cutting

/-!
# Parameters read from text

Text is read as the kind of value that a schema declares. What cannot be read is kept as text, and the rule on the shape
then reports it. An array is cut at commas and read item by item, so several texts say the same as one text in which
they are joined.

* `Decimal.Writes cs i`: the text writes the integer.
* `ScalarKind.Reads raw kind v`: the text means the value, for integers and truth values; `ScalarKind.Misread`: it means
  none.
* `Node.ReadsTexts`, `Node.ReadsItems`: what the two say about a node and its rules.
* `Node.Compiled.coercion`: both hold of every node and the rules that are compiled for it.
-/

namespace ApiForge.Decimal

open Text

/-- ASCII digits, at least one. -/
def AreDigits (ds : List Char) : Prop := ds ≠ [] ∧ ∀ d ∈ ds, isDigitAscii d = true

/-- A text of ASCII digits, with or without a sign, writes an integer. -/
inductive Writes : List Char → Int → Prop where
  | plain {ds : List Char} : AreDigits ds → Writes ds (Nat.ofDigitChars 10 ds 0)
  | plus {ds : List Char} : AreDigits ds → Writes ('+' :: ds) (Nat.ofDigitChars 10 ds 0)
  | minus {ds : List Char} : AreDigits ds → Writes ('-' :: ds) (-(Nat.ofDigitChars 10 ds 0))

section Integers

variable {ds : List Char} {s : String} {i : Int}

theorem decimalValue_eq (ds : List Char) : decimalValue ds = Nat.ofDigitChars 10 ds 0 := by
  have hfold : ∀ (ds : List Char) (n : Nat), ds.foldl (fun n c => n * 10 + (c.toNat - 48)) n =
      Nat.ofDigitChars 10 ds n := by
    intro ds
    induction ds with
    | nil => intro n; rfl
    | cons d ds ih =>
      intro n
      rw [List.foldl_cons, ih, Nat.ofDigitChars, Nat.ofDigitChars, List.foldl_cons, Nat.mul_comm]
      rfl
  exact hfold ds 0

theorem not_areDigits_iff : (ds.isEmpty || !ds.all isDigitAscii) = true ↔ ¬AreDigits ds := by
  rw [Bool.or_eq_true, List.isEmpty_iff, Bool.not_eq_true', ← Bool.not_eq_true, List.all_eq_true, AreDigits]
  tauto

/-- What the digits after a sign give. -/
theorem signed_eq_some_iff {negative : Bool} :
    (if ds.isEmpty || !ds.all isDigitAscii then none
      else some (if negative then -(decimalValue ds : Int) else decimalValue ds)) = some i ↔
    AreDigits ds ∧ i = if negative then -(Nat.ofDigitChars 10 ds 0 : Int) else Nat.ofDigitChars 10 ds 0 := by
  rw [← decimalValue_eq]
  split
  · rename_i h
    simp [not_areDigits_iff.1 h]
  · rename_i h
    have hdigits : AreDigits ds := by
      rw [not_areDigits_iff, not_not] at h
      exact h
    simp [hdigits, eq_comm]

/-- **Integers are read exactly**: a text is read as the integer that it writes, and as none if it writes none. -/
theorem integer?_eq_some_iff : integer? s = some i ↔ Writes s.toList i := by
  unfold integer?
  generalize s.toList = cs
  unfold spanSign
  split
  · rename_i negative ds hsign
    split at hsign
    · cases hsign
      rw [signed_eq_some_iff, if_pos rfl]
      constructor
      · rintro ⟨hds, rfl⟩
        exact .minus hds
      · intro h
        cases h with
        | minus hds => exact ⟨hds, rfl⟩
        | plain hds => exact absurd (hds.2 '-' List.mem_cons_self) (by decide)
    · cases hsign
      rw [signed_eq_some_iff, if_neg Bool.false_ne_true]
      constructor
      · rintro ⟨hds, rfl⟩
        exact .plus hds
      · intro h
        cases h with
        | plus hds => exact ⟨hds, rfl⟩
        | plain hds => exact absurd (hds.2 '+' List.mem_cons_self) (by decide)
    · rename_i hminus hplus
      cases hsign
      rw [signed_eq_some_iff, if_neg Bool.false_ne_true]
      constructor
      · rintro ⟨hds, rfl⟩
        exact .plain hds
      · intro h
        cases h with
        | plain hds => exact ⟨hds, rfl⟩
        | plus hds => exact absurd rfl (hplus _)
        | minus hds => exact absurd rfl (hminus _)

theorem signedInteger?_eq_some_iff :
    signedInteger? s = some i ↔ Writes s.toList i ∧ minSigned ≤ i ∧ i ≤ maxSigned := by
  rw [signedInteger?, Option.filter_eq_some_iff, integer?_eq_some_iff, Bool.and_eq_true, decide_eq_true_iff,
    decide_eq_true_iff]

end Integers

end ApiForge.Decimal

namespace ApiForge

theorem Json.Flat.not_null {v : Json} (h : v.Flat) : v.isNull = false := by
  cases h <;> rfl

namespace Rule

open Schema

variable {v : Json} {path : String} {r : Rule} {rules : List Rule} {w : Violation}

/-- A value is reported for some violations, whether or not it has to be present and whether or not it may be `null`. -/
def Reports (rules : List Rule) (v : Json) (path : String) (vs : List Violation) : Prop :=
  checkValue v path rules = vs ∧
    ∀ required nullable, checkField (withPresence required rules) nullable (some v) path = vs

theorem reports_of_not_null (hv : v.isNull = false) : Reports rules v path (checkValue v path rules) := by
  refine ⟨rfl, fun required nullable => ?_⟩
  have hfield : checkField (withPresence required rules) nullable (some v) path =
      checkValue v path (withPresence required rules) := by
    cases v with
    | null => cases hv
    | _ => rfl
  rw [hfield]
  cases required with
  | false => rfl
  | true => exact checkValue_leaf rfl rules

/-- What a leaf reports lies at the place of the value and is of the kind of the leaf. -/
theorem of_mem_checkLeaf (h : w ∈ checkLeaf v path r) : w.path = path ∧ w.rule = r.kind := by
  obtain ⟨ok, message, heq⟩ := exists_checkLeaf_eq v r
  rw [heq] at h
  cases ok with
  | true => cases h
  | false =>
    rw [List.mem_singleton.1 h]
    exact ⟨rfl, rfl⟩

/-- Declared conditions say nothing about the shape. -/
theorem of_mem_leafRules {c : Constraints} (h : w ∈ (leafRules c).flatMap (checkLeaf v path)) :
    w.path = path ∧ w.rule ≠ .type := by
  obtain ⟨r, hr, hw⟩ := List.mem_flatMap.1 h
  obtain ⟨hpath, hrule⟩ := of_mem_checkLeaf hw
  refine ⟨hpath, fun htype => ?_⟩
  have hleaf := isLeaf_leafRules r hr
  cases r with
  | type => cases hleaf
  | _ => cases hrule.symm.trans htype

theorem checkValue_leafRules_eq {c : Constraints} :
    checkValue v path (leafRules c) = (leafRules c).flatMap (checkLeaf v path) := by
  have h : checkValue v path (leafRules c ++ []) = (leafRules c).flatMap (checkLeaf v path) ++ checkValue v path [] :=
    checkValue_leaves isLeaf_leafRules []
  rwa [List.append_nil, checkValue, List.append_nil] at h

/-- The items of an array are checked one by one, if none is `null`. -/
theorem checkValue_itemRules {inner : List Rule} {nullable : Bool} {items : List Json}
    (hitems : ∀ x ∈ items, x.isNull = false) : checkValue (.arr items) path (itemRules inner nullable) =
      items.zipIdx.flatMap fun (x, i) => checkValue x (itemPath path i) inner := by
  unfold itemRules
  split
  · rename_i hempty
    rw [Bool.and_eq_true, List.isEmpty_iff] at hempty
    obtain ⟨rfl, -⟩ := hempty
    symm
    rw [checkValue, List.flatMap_eq_nil_iff]
    intro _ _
    rfl
  · simp only [checkValue, List.append_nil]
    rw [← List.flatMap_def]
    refine List.flatMap_congr fun p hp => ?_
    rw [hitems p.1 (List.fst_mem_of_mem_zipIdx hp)]
    rfl

end Rule

namespace Schema

open Decimal Rule Text

/-! ## Integers and truth values -/

/-- A text means a value of a kind: an integer of 64 bits with a sign, or a truth value. -/
inductive ScalarKind.Reads (raw : String) : ScalarKind → Json → Prop where
  | integer {i : Int} : Writes raw.toList i → minSigned ≤ i → i ≤ maxSigned → Reads raw .integer (.num (.int i))
  | yes : raw = "true" → Reads raw .boolean (.bool true)
  | no : raw = "false" → Reads raw .boolean (.bool false)

/-- A text means no value of a kind. -/
def ScalarKind.Misread (kind : ScalarKind) (raw : String) : Prop := ∀ v, ¬kind.Reads raw v

/-- What is reported of a text that means no value of a kind. -/
def ScalarKind.misreading (kind : ScalarKind) (path : String) : Violation := ⟨path, .type, "expected " ++ kind.name⟩

/-- The kinds whose texts are read exactly. -/
def exactKinds : List ScalarKind := [.integer, .boolean]

section Scalars

variable {kind : ScalarKind} {raw : String} {v : Json} {n : Node} {rules : List Rule}

theorem ScalarKind.Reads.coerce (h : kind.Reads raw v) : kind.coerce raw = v ∧ v ≠ .str raw := by
  cases h with
  | integer hwrites hmin hmax =>
    refine ⟨?_, Json.noConfusion⟩
    rw [ScalarKind.coerce, signedInteger?_eq_some_iff.2 ⟨hwrites, hmin, hmax⟩]
  | yes hraw =>
    subst hraw
    exact ⟨rfl, Json.noConfusion⟩
  | no hraw =>
    subst hraw
    exact ⟨rfl, Json.noConfusion⟩

/-- A text that is no value of its kind is kept. -/
theorem ScalarKind.coerce_cases (hkind : kind ∈ exactKinds) (raw : String) :
    kind.Reads raw (kind.coerce raw) ∨ kind.Misread raw ∧ kind.coerce raw = .str raw := by
  have hmisread : kind.coerce raw = .str raw → kind.Misread raw := by
    intro h v hv
    exact hv.coerce.2 (hv.coerce.1.symm.trans h)
  have hcases : kind.Reads raw (kind.coerce raw) ∨ kind.coerce raw = .str raw := by
    simp only [exactKinds, List.mem_cons, List.not_mem_nil, or_false] at hkind
    rcases hkind with rfl | rfl
    · rw [ScalarKind.coerce]
      cases hread : signedInteger? raw with
      | none => exact .inr rfl
      | some i =>
        obtain ⟨hwrites, hmin, hmax⟩ := signedInteger?_eq_some_iff.1 hread
        exact .inl (.integer hwrites hmin hmax)
    · rw [ScalarKind.coerce]
      split
      · rename_i h
        exact .inl (.yes (beq_iff_eq.1 h))
      · split
        · rename_i h
          exact .inl (.no (beq_iff_eq.1 h))
        · exact .inr rfl
  exact hcases.imp_right fun h => ⟨hmisread h, h⟩

/-- Text is read by what is referred to. -/
theorem Node.coerce_target : ∀ (n : Node) (raw : String), n.coerce raw = n.target.coerce raw
  | ⟨_, .reference t, _, _, _, _, _⟩, raw => t.coerce_target raw
  | ⟨_, .scalar _, _, _, _, _, _⟩, _ | ⟨_, .enumeration _, _, _, _, _, _⟩, _ | ⟨_, .object _, _, _, _, _, _⟩, _
  | ⟨_, .array _, _, _, _, _, _⟩, _ => rfl

theorem Node.coerce_scalar (hk : n.target.kind = .scalar kind) (raw : String) : n.coerce raw = kind.coerce raw := by
  rw [Node.coerce_target]
  generalize n.target = t at hk
  obtain ⟨_, k, _, _, _, _, _⟩ := t
  subst hk
  rfl

/-- Texts are read as the values that they mean; others are kept and reported once, and those that are read are never
reported for their shape. -/
structure Node.ReadsTexts (n : Node) (rules : List Rule) (kind : ScalarKind) : Prop where
  read : ∀ raw v, kind.Reads raw v ↔ n.coerce raw = v ∧ v ≠ .str raw
  kept : ∀ raw, kind.Misread raw → n.coerce raw = .str raw
  reported : ∀ raw path, kind.Misread raw → Reports rules (n.coerce raw) path [kind.misreading path]
  fitting : ∀ raw path, ¬kind.Misread raw → ∃ vs, Reports rules (n.coerce raw) path vs ∧
    ∀ w ∈ vs, w.path = path ∧ w.rule ≠ .type

/-- The rules of a scalar report a text that is not of its kind, and that alone. -/
theorem checkValue_misread (hkind : kind ∈ exactKinds) (c : Constraints) (raw path : String) :
    checkValue (.str raw) path ((kind.shape?.map Rule.type).toList ++ leafRules c) = [kind.misreading path] := by
  simp only [exactKinds, List.mem_cons, List.not_mem_nil, or_false] at hkind
  rcases hkind with rfl | rfl <;> rfl

theorem checkValue_reads (h : kind.Reads raw v) (c : Constraints) (path : String) :
    checkValue v path ((kind.shape?.map Rule.type).toList ++ leafRules c) =
      (leafRules c).flatMap (checkLeaf v path) := by
  rw [← checkValue_leafRules_eq]
  cases h <;> rfl

theorem Node.Ruled.readsTexts (h : n.Ruled rules) (hkind : kind ∈ exactKinds) (hk : n.target.kind = .scalar kind) :
    n.ReadsTexts rules kind := by
  have hrules := h.scalar_target hk
  have hkept : ∀ raw, kind.Misread raw → n.coerce raw = .str raw := by
    intro raw hmisread
    rw [Node.coerce_scalar hk]
    exact ((ScalarKind.coerce_cases hkind raw).resolve_left (hmisread _)).2
  refine ⟨fun raw v => ?_, hkept, fun raw path hmisread => ?_, fun raw path hread => ?_⟩
  · rw [Node.coerce_scalar hk]
    constructor
    · exact ScalarKind.Reads.coerce
    · rintro ⟨rfl, hne⟩
      exact (ScalarKind.coerce_cases hkind raw).resolve_right fun h => hne h.2
  · rw [hkept raw hmisread, ← checkValue_misread hkind n.target.constraints raw path, ← hrules]
    exact reports_of_not_null rfl
  · have hreads := (ScalarKind.coerce_cases hkind raw).resolve_right fun h => hread h.1
    rw [Node.coerce_scalar hk]
    refine ⟨_, reports_of_not_null ?_, ?_⟩
    · generalize kind.coerce raw = v at hreads
      cases hreads <;> rfl
    · rw [hrules, checkValue_reads hreads]
      exact fun w => of_mem_leafRules

end Scalars

/-! ## Arrays -/

section Arrays

variable {n element : Node} {rules inner : List Rule}

theorem Node.coerce_array (hk : n.target.kind = .array element) (raw : String) :
    n.coerce raw = .arr ((split ',' raw).map element.coerce) := by
  rw [Node.coerce_target]
  generalize n.target = t at hk
  obtain ⟨_, k, _, _, _, _, _⟩ := t
  subst hk
  rfl

/-- Texts that are joined by a separator are cut into the pieces of all of them. -/
theorem split_intercalate (sep : Char) : ∀ {raws : List String}, raws ≠ [] →
    split sep ((String.singleton sep).intercalate raws) = raws.flatMap (split sep)
  | [], h => absurd rfl h
  | [raw], _ => by
    simp [split]
  | raw :: next :: rest, _ => by
    have ih := split_intercalate sep (List.cons_ne_nil next rest)
    rw [List.flatMap_cons, ← ih]
    simp only [split, String.toList_intercalate, List.map_cons, String.toList_singleton, List.intercalate_cons_cons,
      List.append_assoc, List.singleton_append, pieces_append_cons, List.map_append]

/-- Several texts are read as one in which they are joined by commas. Items are read one by one, and reported one by
one: what the array itself is reported for is never its shape, and what its items are reported for lies at their
places. -/
structure Node.ReadsItems (n : Node) (rules : List Rule) (element : Node) (inner : List Rule) : Prop where
  items : ∀ raw, n.coerce raw = .arr ((split ',' raw).map element.coerce)
  joined : ∀ raws, raws ≠ [] → n.coerceAll raws = some (n.coerce (",".intercalate raws))
  reported : ∀ raw path, ∃ own, (∀ w ∈ own, w.path = path ∧ w.rule ≠ .type) ∧ Reports rules (n.coerce raw) path
    (own ++ (split ',' raw).zipIdx.flatMap fun (part, i) => checkValue (element.coerce part) (itemPath path i) inner)

theorem Node.Compiled.readsItems (h : n.Compiled rules) (hk : n.target.kind = .array element) :
    ∃ inner, element.Compiled inner ∧ n.ReadsItems rules element inner := by
  obtain ⟨inner, hinner, hrules⟩ := h.target.array hk
  refine ⟨inner, hinner, Node.coerce_array hk, fun raws hraws => ?_, fun raw path => ?_⟩
  · have helement : n.element? = some element := by rw [Node.element?, hk]
    have hsplit : split ',' (",".intercalate raws) = raws.flatMap (split ',') := split_intercalate ',' hraws
    rw [Node.coerceAll, helement, Node.coerce_array hk, hsplit]
    simp [hraws]
  · have hitems : ∀ x ∈ (split ',' raw).map element.coerce, x.isNull = false := by
      intro x hx
      obtain ⟨part, -, rfl⟩ := List.mem_map.1 hx
      exact (element.coerce_flat part).not_null
    refine ⟨(leafRules n.target.constraints).flatMap (checkLeaf (n.coerce raw) path), fun w => of_mem_leafRules, ?_⟩
    have hcheck : checkValue (n.coerce raw) path rules =
        (leafRules n.target.constraints).flatMap (checkLeaf (n.coerce raw) path) ++
          (split ',' raw).zipIdx.flatMap fun (part, i) => checkValue (element.coerce part) (itemPath path i) inner := by
      rw [hrules, Node.coerce_array hk, List.cons_append, checkValue]
      simp only [shapeAccepts, Json.items?, Option.isSome_some, if_true]
      rw [checkValue_leaves isLeaf_leafRules, checkValue_itemRules hitems, List.zipIdx_map, List.flatMap_map]
      rfl
    rw [← hcheck]
    exact reports_of_not_null (n.coerce_flat raw).not_null

/-- Filtering items that are found one by one, of which each has one or none that counts. -/
theorem filter_flatMap_eq {α β : Type} {f : α → List β} {p : β → Bool} {q : α → Bool} {g : α → β} :
    ∀ {as : List α}, (∀ a ∈ as, (f a).filter p = if q a then [g a] else []) →
      (as.flatMap f).filter p = (as.filter q).map g
  | [], _ => rfl
  | a :: as, h => by
    obtain ⟨ha, has⟩ := List.forall_mem_cons.1 h
    rw [List.flatMap_cons, List.filter_append, ha, filter_flatMap_eq has, List.filter_cons]
    split <;> rfl

open Classical in
/-- What is reported of the texts that are misread among the items of an array, each at its index. -/
noncomputable def misreadItems (kind : ScalarKind) (raw path : String) : List Violation :=
  ((split ',' raw).zipIdx.filter fun p => kind.Misread p.1).map fun p => kind.misreading (itemPath path p.2)

/-- Of the items of an array of integers or truth values, those that are misread are reported for their shape, each
once and at its index. -/
theorem Node.ReadsItems.misread {kind : ScalarKind} (h : n.ReadsItems rules element inner)
    (hitems : element.ReadsTexts inner kind) {raw path : String} {vs : List Violation}
    (hvs : Reports rules (n.coerce raw) path vs) : vs.filter (·.rule = .type) = misreadItems kind raw path := by
  classical
  obtain ⟨own, hown, hreports⟩ := h.reported raw path
  have hnone : own.filter (·.rule = .type) = [] := by
    refine List.filter_eq_nil_iff.2 fun w hw => ?_
    simpa using (hown w hw).2
  rw [← hvs.1, hreports.1, List.filter_append, hnone, List.nil_append, misreadItems]
  refine filter_flatMap_eq ?_
  rintro ⟨part, i⟩ -
  dsimp only
  by_cases hmisread : kind.Misread part
  · rw [(hitems.reported part (itemPath path i) hmisread).1, if_pos (decide_eq_true hmisread)]
    rfl
  · obtain ⟨found, hfound, hshape⟩ := hitems.fitting part (itemPath path i) hmisread
    rw [hfound.1, if_neg (by simpa using hmisread)]
    refine List.filter_eq_nil_iff.2 fun w hw => ?_
    simpa using (hshape w hw).2

end Arrays

/-- **Parameters are read exactly.** Take a node and the rules that are compiled for it. If it is an integer or a truth
value, also by reference, then it reads the texts that write one, and a text that writes none is kept and reported once,
for its shape. If it is an array, then several texts are read as one in which they are joined by commas, and the items
are read and reported one by one, each as its element reads it under the rules that are compiled for the element; of the
items of an array of integers or truth values, those that are misread are reported for their shape, each once and at its
index. No text is read as `null` or as an object, nor as an array that holds one. -/
theorem Node.Compiled.coercion {n : Node} {rules : List Rule} (h : n.Compiled rules) :
    (∀ kind ∈ exactKinds, n.target.kind = .scalar kind → n.ReadsTexts rules kind) ∧
    (∀ element, n.target.kind = .array element → ∃ inner, element.Compiled inner ∧
      n.ReadsItems rules element inner ∧
      ∀ kind ∈ exactKinds, element.target.kind = .scalar kind → ∀ raw path vs,
        Reports rules (n.coerce raw) path vs → vs.filter (·.rule = .type) = misreadItems kind raw path) ∧
    (∀ raw, (n.coerce raw).Flat) ∧ ∀ raws v, n.coerceAll raws = some v → v.Flat := by
  refine ⟨fun kind hkind hk => h.ruled.readsTexts hkind hk, fun element hk => ?_, n.coerce_flat, fun raws v hv => ?_⟩
  · obtain ⟨inner, hinner, hreads⟩ := h.readsItems hk
    refine ⟨inner, hinner, hreads, fun kind hkind hkelement raw path vs hvs => ?_⟩
    exact hreads.misread (hinner.ruled.readsTexts hkind hkelement) hvs
  · rcases eq_or_ne raws [] with rfl | hraws
    · unfold Node.coerceAll at hv
      split at hv <;> cases hv
    · obtain ⟨w, hw, hflat⟩ := n.coerceAll_flat hraws
      rw [hv] at hw
      cases hw
      exact hflat

/-- An integer that is referred to. -/
def countReference : Node :=
  let count : Node := ⟨"Count", .scalar .integer, true, false, none, {}, none⟩
  ⟨"Count", .reference count, false, false, none, {}, none⟩

/-- An array of at most two integers. -/
def countList : Node := ⟨"counts", .array countReference, false, false, none, { maxItems := some 2 }, none⟩

theorem Node.Compiled.coercion_countList :
    countList.coerceAll ["1,x", "-07"] = some (countList.coerce "1,x,-07") ∧
    countReference.coerce "-07" = .num (.int (-7)) ∧
    ∀ vs, Reports (RuleCache.valueRules countList {}).1 (countList.coerce "1,x,-07") "query" vs →
      vs.filter (·.rule = .type) = misreadItems .integer "1,x,-07" "query" := by
  obtain ⟨-, harray, -⟩ := Node.Compiled.coercion (n := countList) .alone
  obtain ⟨inner, hinner, hreads, hmisread⟩ := harray countReference rfl
  obtain ⟨hscalar, -⟩ := hinner.coercion
  have hcount := hscalar .integer (by decide) rfl
  refine ⟨hreads.joined ["1,x", "-07"] (by decide), ?_, hmisread .integer (by decide) rfl "1,x,-07" "query"⟩
  have hdigits : (['0', '7'].all isDigitAscii) = true := rfl
  have hwrites : Writes "-07".toList (-7) := .minus ⟨by decide, List.all_eq_true.1 hdigits⟩
  exact ((hcount.read "-07" _).1 (.integer hwrites (by decide) (by decide))).1

end Schema

end ApiForge
