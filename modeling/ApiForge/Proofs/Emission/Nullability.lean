import ApiForge.Emission.Record
import ApiForge.Proofs.Emission.Elements
import ApiForge.Proofs.Schema.Standing

/-!
# Fields that may be `null`

A field whose schema stands for a named schema, which may stand for another one and so on, takes `null` if the field's
own schema or the schema at the end is marked so. A mark in between is not looked at.

* `Chain env doc raw chain last`: the schemas from `raw` on, each of which stands for the next, down to `last`.
* `Node.Reads.isNullable_iff`: whether a node is nullable, read off the two ends of its chain.
* `Field.TakesNull`: the type of a field, its rules and its declaration agree on `null`.
* `Session.fields_takeNull`: every field that a resolver gives takes `null` as the ends of its chain say.
-/

namespace ApiForge.Schema

open Json Emission

/-- The schemas from one on that stand for each other, down to one that stands for itself. -/
inductive Chain (env : Env) : Option String → Json → List Json → Json → Prop where
  | last {doc : Option String} {raw : Json} : (∀ r, ¬ Aliases raw r) → Chain env doc raw [raw] raw
  | step {doc : Option String} {raw raw' last : Json} {r : String} {key : RefKey} {chain : List Json} :
      Aliases raw r → Denotes doc r key → env.rawSchema? key = some raw' → Chain env key.doc raw' chain last →
      Chain env doc raw (raw :: chain) last

section Chains

variable {env : Env} {s : State}

theorem Node.target_of_reference {n t : Node} (h : n.kind = .reference t) : n.target = t.target := by
  obtain ⟨_, kind, _, _, _, _, _⟩ := n
  subst h
  rw [Node.target]

/-- Every node that reads a schema has a chain: the references in the node are the steps. -/
theorem Node.Reads.exists_chain (hs : s.Faithful env) : ∀ {n : Node} {doc : Option String} {raw : Json},
    n.Reads s.known doc raw → ∃ chain last, Chain env doc raw chain last
  | ⟨_, .reference t, _, _, _, _, _⟩, doc, raw, hn => by
    -- the recursion is on the node: raw schemas may refer to each other in a circle, nodes do not
    by_cases halias : ∃ r, Aliases raw r
    · obtain ⟨r, hr⟩ := halias
      obtain ⟨key, target, hkey, hknown, hkind⟩ := hn.reading.aliases r hr
      obtain rfl : t = target := by simpa using hkind
      obtain ⟨raw', hraw', ht⟩ := hs key t hknown
      obtain ⟨chain, last, hchain⟩ := Node.Reads.exists_chain hs ht
      exact ⟨raw :: chain, last, .step hr hkey hraw' hchain⟩
    · exact ⟨[raw], raw, .last fun r hr => halias ⟨r, hr⟩⟩
  | ⟨_, .scalar _, _, _, _, _, _⟩, doc, raw, hn | ⟨_, .enumeration _, _, _, _, _, _⟩, doc, raw, hn
  | ⟨_, .object _, _, _, _, _, _⟩, doc, raw, hn | ⟨_, .array _, _, _, _, _, _⟩, doc, raw, hn => by
    refine ⟨[raw], raw, .last fun r hr => ?_⟩
    obtain ⟨_, _, _, _, hkind⟩ := hn.reading.aliases r hr
    cases hkind

/-- The node at the end of the references is nullable exactly if the schema at the end of the chain is marked. -/
theorem Node.Reads.target_nullable_iff (hs : s.Faithful env) {doc : Option String} {raw last : Json} {chain : List Json}
    (hchain : Chain env doc raw chain last) {n : Node} (hn : n.Reads s.known doc raw) :
    n.target.nullable = true ↔ Marked last := by
  induction hchain generalizing n with
  | last hshape => rw [Node.target_of_shape (hn.reading.shape hshape), hn.reading.nullable]
  | step hr hkey hraw' _ ih =>
    obtain ⟨key', target, hkey', hknown, hkind⟩ := hn.reading.aliases _ hr
    obtain rfl := hkey.unique hkey'
    obtain ⟨raw'', hraw'', ht⟩ := hs _ target hknown
    obtain rfl := Option.some.inj (hraw'.symm.trans hraw'')
    rw [Node.target_of_reference hkind]
    exact ih ht

/-- **A node is nullable exactly if one of the two ends of its chain is marked.** -/
theorem Node.Reads.isNullable_iff (hs : s.Faithful env) {doc : Option String} {raw last : Json} {chain : List Json}
    (hchain : Chain env doc raw chain last) {n : Node} (hn : n.Reads s.known doc raw) :
    n.isNullable = true ↔ Marked raw ∨ Marked last := by
  rw [Node.isNullable, Bool.or_eq_true, hn.reading.nullable, hn.target_nullable_iff hs hchain]

end Chains

/-! ## Fields -/

/-- The type of a field, the rules of a required field and the declaration of the field agree on `null`: it is a value
exactly under a condition. -/
structure Field.TakesNull (f : Field) (condition : Prop) : Prop where
  type : f.type.isNullable = true ↔ condition
  rules : f.required = true → ∀ path, Rule.checkField f.rules f.type.isNullable (some .null) path = [] ↔ condition
  declaration : ∀ owner o, ((fieldDecl owner f).run o).1.type.isOption = true ↔ f.optionalPresence = true ∨ condition

/-- A sound field takes `null` exactly if its type is nullable. -/
theorem Field.Sound.takesNull {ρ : Registry} {f : Field} (hf : f.Sound ρ) {condition : Prop}
    (htype : f.type.isNullable = true ↔ condition) : f.TakesNull condition where
  type := htype
  rules := by
    intro hmust path
    rw [hf.2, Rule.checkField_rules, Node.Satisfies, Holds, hmust, ← htype]
    simp
  declaration := by
    intro owner o
    have hdecl : ((fieldDecl owner f).run o).1.type = optionIf f.isOptional (typeExpr f.type) := rfl
    rw [hdecl, ← htype, ← Bool.or_eq_true, Field.isOptional]
    cases f.optionalPresence || f.type.isNullable with
    | true => simp [optionIf, Code.TypeExpr.option, Code.TypeExpr.isOption]
    | false => simp [optionIf, isOption_typeExpr]

/-- **Fields take `null` by the ends of their chains**: after any session, take a field that stands somewhere in an
answer, and the schema of its type. The schema starts a chain, and the field takes `null` exactly if its own schema or
the schema at the end of the chain is marked. -/
theorem Session.fields_takeNull {env : Env} {s : State} {nodes : List Node} (h : Session env s nodes) {n a : Node}
    (hn : n ∈ nodes) (ha : a.PartOf n) {fields : List Field} (hk : a.kind = .object fields) {f : Field} (hf : f ∈ fields)
    {doc : Option String} {raw : Json} (hraw : Stands env s doc raw f.type) :
    (∃ chain last, Chain env doc raw chain last) ∧
    ∀ chain last, Chain env doc raw chain last → f.TakesNull (Marked raw ∨ Marked last) := by
  obtain ⟨ρ, -, hsound⟩ := h.valid
  have hfield : f.Sound ρ := by
    have hkind := (Node.sound_iff.1 ((hsound n hn).part ha)).1
    rw [hk, Kind.Sound] at hkind
    exact Field.allSound_iff.1 hkind f hf
  have hreads := hraw.reads h
  refine ⟨hreads.exists_chain h.faithful, fun chain last hchain => ?_⟩
  exact hfield.takesNull (hreads.isNullable_iff h.faithful hchain)

/-- A description of texts and of notes. -/
def noteEnv (text note : Members) : Env :=
  ⟨⟨"", "", "", "", .obj [("components", .obj [("schemas", .obj [("Text", .obj text), ("Note", .obj note)])])], []⟩,
    .standard⟩

/-- A reference to texts. -/
def textRef : Members := [("$ref", .str "#/components/schemas/Text")]

/-- A reference to notes. -/
def noteRef : Members := [("$ref", .str "#/components/schemas/Note")]

/-- Records with a required note. -/
def noteRecord : Members :=
  [("type", .str "object"), ("required", .arr [.str "note"]), ("properties", .obj [("note", .obj noteRef)])]

/-- What is seen of a field: whether it is required, whether its type is nullable, whether its rules take `null`, and
whether its declaration is optional. -/
def nullView (f : Field) : Bool × Bool × Bool × Bool :=
  (f.required, f.type.isNullable, (Rule.checkField f.rules f.type.isNullable (some .null) "note").isEmpty,
    ((fieldDecl "Body" f).run { builder := { name := "notes" } }).1.type.isOption)

/-- What is seen of the fields of a record. -/
def recordView (n : Node) : List (Bool × Bool × Bool × Bool) :=
  match n.kind with
  | .object fields => fields.map nullView
  | _ => []

/-- The field for the note of a record that is asked about first. -/
theorem exists_noteField {env : Env} {s : State} {n : Node} {view : Bool × Bool × Bool × Bool}
    (hrun : (resolveInline env (.obj noteRecord) "Body" "notes").run (.initial env) = .ok n s)
    (hview : recordView n = [view]) :
    ∃ f, Session env s [n] ∧ n.kind = .object [f] ∧ Stands env s none (.obj noteRef) f.type ∧ nullView f = view := by
  unfold recordView at hview
  split at hview
  · rename_i fields hk
    obtain ⟨f, hfields, hf⟩ := List.map_eq_singleton_iff.1 hview
    subst hfields
    have hrecord : Stands env s none (.obj noteRecord) n := .asked .start hrun fun _ _ h => h
    have hproperties : propertiesOf noteRecord = [("note", .obj noteRef)] := rfl
    refine ⟨f, Session.start.asked hrun, hk, ?_, hf⟩
    exact .property hrecord ⟨by decide, by decide, by decide⟩ hk (p := ("note", .obj noteRef)) (by simp [hproperties])
  · cases hview

/-- Texts that may be `null`. -/
def nullableText : Members := [("type", .arr [.str "string", .str "null"])]

theorem noteRecord_nullableText : Ends (resolveInline (noteEnv nullableText textRef) (.obj noteRecord) "Body" "notes")
    (.initial (noteEnv nullableText textRef)) (fun n _ => recordView n = [(true, true, true, true)])
    fun _ _ => False := by
  decide +kernel

theorem Session.fields_takeNull_nullableText : ∃ s n f, Session (noteEnv nullableText textRef) s [n] ∧
    n.kind = .object [f] ∧ Stands (noteEnv nullableText textRef) s none (.obj noteRef) f.type ∧
    nullView f = (true, true, true, true) ∧
    (∃ chain last, Chain (noteEnv nullableText textRef) none (.obj noteRef) chain last) ∧
    ∀ chain last, Chain (noteEnv nullableText textRef) none (.obj noteRef) chain last →
      f.TakesNull (Marked (.obj noteRef) ∨ Marked last) := by
  obtain ⟨n, s, hrun, hview⟩ := noteRecord_nullableText.exists_ok
  obtain ⟨f, hsession, hk, hraw, hview⟩ := exists_noteField hrun hview
  refine ⟨s, n, f, hsession, hk, hraw, hview, ?_⟩
  exact hsession.fields_takeNull List.mem_cons_self .self hk List.mem_cons_self hraw

/-- Texts that may not be `null`. -/
def plainText : Members := [("type", .str "string")]

/-- A text or `null`. -/
def textOrNull : Members := [("oneOf", .arr [.obj textRef, .obj [("type", .str "null")]])]

theorem noteRecord_textOrNull : Ends (resolveInline (noteEnv plainText textOrNull) (.obj noteRecord) "Body" "notes")
    (.initial (noteEnv plainText textOrNull)) (fun n _ => recordView n = [(true, false, false, false)])
    fun _ _ => False := by
  decide +kernel

theorem isUnion_textOrNull :
    IsUnion textOrNull [.obj textRef, .obj [("type", .str "null")]] (.obj textRef) where
  reference := by decide
  composition := by decide
  union := rfl
  only := rfl

theorem chain_textOrNull : Chain (noteEnv plainText textOrNull) none (.obj noteRef)
    [.obj noteRef, .obj textOrNull, .obj plainText] (.obj plainText) := by
  let c : Context := ⟨none, "notes", "Body", none, .standard, []⟩
  have hplain : Plain plainText := ⟨by decide, by decide, by decide⟩
  have hnote : Denotes c.doc "#/components/schemas/Note" ⟨none, "Note"⟩ := .of_toOption (by decide +kernel)
  have htext : Denotes c.doc "#/components/schemas/Text" ⟨none, "Text"⟩ := .of_toOption (by decide +kernel)
  refine .step (.reference rfl) hnote rfl (.step (.union isUnion_textOrNull (.reference rfl)) htext rfl ?_)
  exact .last fun _ => not_aliases_plain hplain

/-- A required field stands for a schema that is marked and stands for another one that is not. The field does not take
`null`. -/
theorem fields_forget_null : ∃ s n f chain last, Session (noteEnv plainText textOrNull) s [n] ∧ n.kind = .object [f] ∧
    Stands (noteEnv plainText textOrNull) s none (.obj noteRef) f.type ∧ f.required = true ∧
    Chain (noteEnv plainText textOrNull) none (.obj noteRef) chain last ∧ (∃ raw ∈ chain, Marked raw) ∧
    f.type.isNullable = false ∧ Rule.checkField f.rules f.type.isNullable (some .null) "note" ≠ [] ∧
    ((fieldDecl "Body" f).run { builder := { name := "notes" } }).1.type.isOption = false := by
  obtain ⟨n, s, hrun, hview⟩ := noteRecord_textOrNull.exists_ok
  obtain ⟨f, hsession, hk, hraw, hview⟩ := exists_noteField hrun hview
  obtain ⟨hmust, hview⟩ := Prod.mk.inj hview
  obtain ⟨htype, hview⟩ := Prod.mk.inj hview
  obtain ⟨hrules, hdecl⟩ := Prod.mk.inj hview
  have hmarked : Marked (.obj textOrNull) := .member isUnion_textOrNull (v := .obj [("type", .str "null")]) (by simp) rfl
  refine ⟨s, n, f, _, _, hsession, hk, hraw, hmust, chain_textOrNull, ⟨_, by simp, hmarked⟩, htype, ?_, hdecl⟩
  intro hnone
  rw [hnone] at hrules
  cases hrules

end ApiForge.Schema
