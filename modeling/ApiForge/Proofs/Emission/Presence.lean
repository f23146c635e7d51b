import ApiForge.Emission.Response
import ApiForge.Proofs.Schema.Bare

/-!
# Declarations in two presence modes

The presence mode decides about the types and attributes of fields in generated records, but neither about which
declarations there are nor about their names. In particular, the constants for patterns are named alike: an attribute
allocates them in the order of the rules, and the rules are the same (`validateAttr_alike`).

* `Output.Like`: outputs with the same imports and the same names of declarations and constants.
* `EmitsAlike`: computations that keep outputs alike; so do `emitNode`, `emitRequest` and `emitResponses`.
-/

namespace ApiForge.Emission

open Code Schema Naming

/-- Outputs with the same imports and the same names, in the same order. -/
structure Output.Like (o o' : Output) : Prop where
  name : o.builder.name = o'.builder.name
  imports : o.builder.imports = o'.builder.imports
  declarations : o.builder.declarations.map Declaration.name? = o'.builder.declarations.map Declaration.name?
  constants : o.constants = o'.constants

/-- Computations that keep outputs alike and give related results. -/
def EmitsAlike {α β : Type} (R : α → β → Prop) (m : Emit α) (m' : Emit β) : Prop :=
  ∀ o o', Output.Like o o' → R (m.run o).1 (m'.run o').1 ∧ Output.Like (m.run o).2 (m'.run o').2

section Computations

variable {α β γ δ : Type} {R : α → β → Prop}

theorem EmitsAlike.pure {a : α} {b : β} (h : R a b) : EmitsAlike R (pure a) (pure b) := fun _ _ ho => ⟨h, ho⟩

theorem EmitsAlike.bind {Q : γ → δ → Prop} {m : Emit α} {m' : Emit β} {f : α → Emit γ} {f' : β → Emit δ}
    (h : EmitsAlike R m m') (hf : ∀ a b, R a b → EmitsAlike Q (f a) (f' b)) : EmitsAlike Q (m >>= f) (m' >>= f') := by
  intro o o' ho
  obtain ⟨hr, ho₁⟩ := h o o' ho
  exact hf _ _ hr _ _ ho₁

theorem EmitsAlike.get : EmitsAlike Output.Like get get := fun _ _ ho => ⟨ho, ho⟩

/-- A computation that gives nothing. -/
abbrev DeclaresAlike (m m' : Emit Unit) : Prop := EmitsAlike (fun _ _ => True) m m'

theorem addImport_alike (module item : String) : DeclaresAlike (addImport module item) (addImport module item) := by
  intro o o' ho
  have hbuilders : (o.builder.addImport module item).name = (o'.builder.addImport module item).name ∧
      (o.builder.addImport module item).imports = (o'.builder.addImport module item).imports ∧
      (o.builder.addImport module item).declarations.map Declaration.name? =
        (o'.builder.addImport module item).declarations.map Declaration.name? := by
    unfold Builder.addImport
    rw [ho.imports]
    split
    · exact ⟨ho.name, rfl, ho.declarations⟩
    · exact ⟨ho.name, rfl, ho.declarations⟩
  exact ⟨trivial, hbuilders.1, hbuilders.2.1, hbuilders.2.2, ho.constants⟩

theorem Output.Like.isDeclared {o o' : Output} (h : o.Like o') (name : String) :
    o.builder.isDeclared name = o'.builder.isDeclared name := by
  have hnames : ∀ o : Output, o.builder.isDeclared name = true ↔
      some name ∈ o.builder.declarations.map Declaration.name? := by
    intro o
    rw [o.indexed.isDeclared_iff, List.mem_map]
  rw [Bool.eq_iff_iff, hnames, hnames, h.declarations]

/-- Declarations with one name are both added or both dropped. -/
theorem declare_alike {d d' : Declaration} (h : d.name? = d'.name?) : DeclaresAlike (declare d) (declare d') := by
  intro o o' ho
  have hbuilders : (o.builder.declare d).2.name = (o'.builder.declare d').2.name ∧
      (o.builder.declare d).2.imports = (o'.builder.declare d').2.imports ∧
      (o.builder.declare d).2.declarations.map Declaration.name? =
        (o'.builder.declare d').2.declarations.map Declaration.name? := by
    rcases o.builder.declare_cases d with ⟨name, hname, htaken, heq⟩ | ⟨hfree, heq⟩
    · rcases o'.builder.declare_cases d' with ⟨-, -, -, heq'⟩ | ⟨hfree', -⟩
      · rw [heq, heq']
        exact ⟨ho.name, ho.imports, ho.declarations⟩
      · have hnew := hfree' name (h ▸ hname)
        rw [← ho.isDeclared, htaken] at hnew
        cases hnew
    · rcases o'.builder.declare_cases d' with ⟨name, hname', htaken', -⟩ | ⟨-, heq'⟩
      · have hnew := hfree name (h ▸ hname')
        rw [ho.isDeclared, htaken'] at hnew
        cases hnew
      · rw [heq, heq']
        refine ⟨ho.name, ho.imports, ?_⟩
        simp only [Builder.push, List.map_append, ho.declarations, List.map_cons, List.map_nil, h]
  exact ⟨trivial, hbuilders.1, hbuilders.2.1, hbuilders.2.2, ho.constants⟩

end Computations

/-! ## Attributes -/

/-- The same declarations, one after another. -/
theorem forM_declare_alike {α : Type} (f : α → Declaration) :
    ∀ items : List α, DeclaresAlike (items.forM fun a => declare (f a)) (items.forM fun a => declare (f a))
  | [] => .pure trivial
  | _ :: rest => (declare_alike rfl).bind fun _ _ _ => forM_declare_alike f rest

/-- The constants that the attribute of a field needs, and the names in use after it. -/
def attrConstants (owner field : String) (rules : List Rule) (names : Allocator) : Allocator × List Constant :=
  ((Rule.annotate (patternConstant owner field) false 0 rules).run (names, [])).2

theorem validateAttr_run (owner field : String) (rules : List Rule) (optional : Bool) (o : Output) :
    ((validateAttr owner field rules optional).run o).2 =
      (((attrConstants owner field rules o.constants).2.forM fun c => declare (.const c)).run
        { o with constants := (attrConstants owner field rules o.constants).1 }).2 := rfl

theorem validateAttr_alike (owner field : String) (rules : List Rule) (optional optional' : Bool) :
    EmitsAlike (fun _ _ => True) (validateAttr owner field rules optional)
      (validateAttr owner field rules optional') := by
  intro o o' ho
  refine ⟨trivial, ?_⟩
  rw [validateAttr_run, validateAttr_run, ho.constants]
  have ho₁ : Output.Like { o with constants := (attrConstants owner field rules o'.constants).1 }
      { o' with constants := (attrConstants owner field rules o'.constants).1 } :=
    ⟨ho.name, ho.imports, ho.declarations, rfl⟩
  exact (forM_declare_alike .const _ _ _ ho₁).2

theorem isTextEnum_bare (n : Node) : isTextEnum n.bare = isTextEnum n := by
  unfold isTextEnum
  rw [Node.bare_target, Node.bare_kind]
  cases n.target.kind <;> simp [Kind.bare]

mutual

theorem annotationRule_bare : ∀ (n : Node) (rule : Rule), annotationRule n.bare rule = annotationRule n rule
  | n, .oneOf members => by rw [annotationRule, annotationRule, isTextEnum_bare]
  | n, .elements inner nullable => by
    rw [annotationRule, annotationRule, Node.bare_element?]
    cases n.element? with
    | none => rfl
    | some element => simp only [Option.map_some, annotationRules_bare element inner]
  | _, .required | _, .type _ | _, .minLength _ | _, .maxLength _ | _, .minimum _ | _, .maximum _ | _, .minItems _
  | _, .maxItems _ | _, .pattern _ | _, .fields _ => by simp only [annotationRule]

/-- What is said in an annotation does not depend on presence. -/
theorem annotationRules_bare : ∀ (n : Node) (rules : List Rule), annotationRules n.bare rules = annotationRules n rules
  | _, [] => by rw [annotationRules, annotationRules]
  | n, rule :: rules => by
    rw [annotationRules, annotationRules, annotationRule_bare n rule, annotationRules_bare n rules]

end

/-! ## Declarations -/

theorem fieldDecl_alike (owner : String) {f f' : Schema.Field} (h : f.bare = f'.bare) :
    EmitsAlike (fun _ _ => True) (fieldDecl owner f) (fieldDecl owner f') := by
  obtain ⟨hname, -, htype, -, hrules, -⟩ := Field.bare_eq h
  have hannotated : annotationRules f.type f.rules = annotationRules f'.type f'.rules := by
    rw [← annotationRules_bare, htype, annotationRules_bare, hrules]
  unfold fieldDecl
  rw [hname, hannotated]
  exact (validateAttr_alike owner _ _ _ _).bind fun _ _ _ => .pure trivial

theorem fieldDecls_alike (owner : String) : ∀ fs fs' : List Schema.Field, Field.Alike fs fs' →
    EmitsAlike (fun _ _ => True) (fieldDecls owner fs) (fieldDecls owner fs')
  | [], [], _ => .pure trivial
  | [], _ :: _, h | _ :: _, [], h => by cases h
  | f :: fs, f' :: fs', h => by
    obtain ⟨hf, hfs⟩ := List.cons.inj h
    refine (fieldDecl_alike owner hf).bind fun _ _ _ => ?_
    exact (fieldDecls_alike owner fs fs' hfs).bind fun _ _ _ => .pure trivial

/-- Nodes that differ in nothing but presence are declared alike. -/
theorem emitNode_alike (root : String) {n n' : Node} (h : n.Like n') :
    DeclaresAlike (emitNode root n) (emitNode root n') := by
  have hname : n.name = n'.name := by rw [← n.bare_name, h, n'.bare_name]
  have hkind : n.kind.bare = n'.kind.bare := by rw [← n.bare_kind, h, n'.bare_kind]
  unfold emitNode
  refine EmitsAlike.get.bind fun o o' ho => ?_
  rw [hname, ho.isDeclared]
  split
  · exact .pure trivial
  · -- of the pairs of shapes, only those with one constructor can be the same when bare
    cases hk : n.kind <;> cases hk' : n'.kind <;> rw [hk, hk'] at hkind <;>
      simp only [Kind.bare, reduceCtorEq, Kind.object.injEq] at hkind
    case enumeration.enumeration =>
      refine (addImport_alike _ _).bind fun _ _ _ => ?_
      refine (addImport_alike _ _).bind fun _ _ _ => ?_
      exact declare_alike rfl
    case object.object fs fs' =>
      rw [Field.bareAll_eq, Field.bareAll_eq] at hkind
      refine (addImport_alike _ _).bind fun _ _ _ => ?_
      refine (addImport_alike _ _).bind fun _ _ _ => ?_
      refine (addImport_alike _ _).bind fun _ _ _ => ?_
      refine (fieldDecls_alike _ fs fs' hkind).bind fun _ _ _ => ?_
      exact declare_alike rfl
    all_goals exact declare_alike rfl

theorem bodyField_alike (owner : String) (p p' : Presence) {b b' : RequestBody} (hn : b.node.Like b'.node)
    (hr : b.rules = b'.rules) : EmitsAlike (fun _ _ => True) (bodyField owner p b) (bodyField owner p' b') := by
  have hannotated : annotationRules b.node b.rules = annotationRules b'.node b'.rules := by
    rw [← annotationRules_bare, hn, annotationRules_bare, hr]
  unfold bodyField
  rw [hannotated]
  exact (validateAttr_alike owner "body" _ _ _).bind fun _ _ _ => .pure trivial

theorem emitRequest_alike (root name : String) (p p' : Presence) {op op' : Operation}
    (hb : op.request.body.map (fun b => (b.node.bare, b.rules)) =
      op'.request.body.map fun b => (b.node.bare, b.rules)) :
    DeclaresAlike (emitRequest root name p op) (emitRequest root name p' op') := by
  unfold emitRequest
  refine (addImport_alike _ _).bind fun _ _ _ => ?_
  cases h : op.request.body with
  | none =>
    cases h' : op'.request.body with
    | none => exact declare_alike (by rfl)
    | some b' => rw [h, h'] at hb; cases hb
  | some b =>
    cases h' : op'.request.body with
    | none => rw [h, h'] at hb; cases hb
    | some b' =>
      rw [h, h'] at hb
      obtain ⟨hn, hr⟩ := Prod.mk.inj (Option.some.inj hb)
      exact (bodyField_alike name p p' hn hr).bind fun _ _ _ => declare_alike (by rfl)

theorem emitPayloads_alike : ∀ (rs rs' : List ResponseVariant) (names : List String), rs.length = rs'.length →
    DeclaresAlike (emitPayloads (rs.zip names)) (emitPayloads (rs'.zip names))
  | [], [], _, _ => .pure trivial
  | [], _ :: _, _, h | _ :: _, [], _, h => by cases h
  | _ :: _, _ :: _, [], _ => .pure trivial
  | _ :: rs, _ :: rs', _ :: names, h => by
    refine (addImport_alike _ _).bind fun _ _ _ => ?_
    refine (declare_alike (by rfl)).bind fun _ _ _ => ?_
    exact emitPayloads_alike rs rs' names (Nat.succ.inj h)

theorem emitResponses_alike (root : String) {op op' : Operation} (m : ResponseModel)
    (h : op.responses.length = op'.responses.length) :
    DeclaresAlike (emitResponses root op m) (emitResponses root op' m) := by
  refine (addImport_alike _ _).bind fun _ _ _ => ?_
  refine (emitPayloads_alike _ _ _ h).bind fun _ _ _ => ?_
  refine (declare_alike (by rfl)).bind fun _ _ _ => ?_
  exact (forM_declare_alike .impl _).bind fun _ _ _ => declare_alike rfl

end ApiForge.Emission
