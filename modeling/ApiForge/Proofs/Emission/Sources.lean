import ApiForge.Compilation
import ApiForge.Proofs.Emission.Envelope
import ApiForge.Proofs.Emission.Presence
import ApiForge.Proofs.Naming.Identifier

/-!
# What the types of a file are declared for

A type is declared for a schema, for the request of an operation, for the payload of a status or for the envelope of an
operation; that is its source. A declaration under a name that is taken is dropped.

* `Source.Builds x t`: the type `t` is what is declared for the source `x`.
* `Output.Holds xs o`: every type in the output `o` is built from one of the sources `xs`, constants have names without
  small letters, no name is declared twice, and the name of every source is declared.
* `emitNode_tells`, `emitRequest_tells`, `emitResponses_tells`: what is emitted keeps this for more sources.
* `Output.Holds.exists_declaration`: if the sources have different names, then what is declared under the name of a
  source is the type that is built from it, or a constant.
-/

namespace ApiForge.Emission

open Code Schema Naming

/-! ## Sources -/

/-- What a type is declared for. -/
inductive Source where
  | node (n : Node)
  | request (name : String) (op : Operation)
  | payload (name : String) (v : ResponseVariant)
  | envelope (op : Operation) (m : ResponseModel)

/-- The name of the type that is declared for a source. -/
def Source.name : Source → String
  | node n => n.name
  | request name _ => name
  | payload name _ => name
  | envelope _ m => m.envelope

/-- The type of a schema, after a given output. -/
def nodeDecl (n : Node) (o : Output) : TypeDecl :=
  match n.kind with
  | .object fields =>
    ⟨n.name, n.description.toList, [.derive recordTraits], .record ((fieldDecls n.name fields).run o).1⟩
  | .enumeration members => ⟨n.name, n.description.toList, [.derive enumTraits], .enumeration (variants [] members)⟩
  | _ => ⟨n.name, n.description.toList, [], .alias (shapeExpr n)⟩

theorem nodeDecl_name (n : Node) (o : Output) : (nodeDecl n o).name = n.name := by
  unfold nodeDecl
  split <;> rfl

/-- The field for the body of a request, after a given output. -/
def bodyFields (name : String) (presence : Presence) (op : Operation) (o : Output) : List Code.Field :=
  op.request.body.toList.map fun body => ((bodyField name presence body).run o).1

/-- The type of a request, after a given output. -/
def requestDecl (name : String) (presence : Presence) (op : Operation) (o : Output) : TypeDecl :=
  ⟨name, [docWith ("Request parts of `" ++ op.operationId ++ "`") op.summary],
    [.derive ["Debug", "Clone", "PartialEq", "Validate"]],
    .record (op.request.parameterParts.map partField ++ bodyFields name presence op o)⟩

/-- The type that is declared for a source. The names of constants in its attributes depend on what is there before. -/
def Source.Builds (presence : Presence) : Source → TypeDecl → Prop
  | node n, t => ∃ o, t = nodeDecl n o
  | request name op, t => ∃ o, t = requestDecl name presence op o
  | payload name v, t => t = payloadDecl name v
  | envelope op m, t => t = envelopeDecl op m

theorem Source.Builds.name {presence : Presence} {x : Source} {t : TypeDecl} (h : x.Builds presence t) :
    t.name = x.name := by
  cases x with
  | node n =>
    obtain ⟨o, rfl⟩ := h
    exact nodeDecl_name n o
  | request name op =>
    obtain ⟨o, rfl⟩ := h
    rfl
  | payload name v =>
    cases h
    rfl
  | envelope op m =>
    cases h
    rfl

/-! ## Outputs -/

/-- A declaration that comes from one of the sources, or needs none. -/
def ofSources (presence : Presence) (xs : List Source) : Declaration → Prop
  | .type t => ∃ x ∈ xs, x.Builds presence t
  | .const c => Shouting c.name
  | .impl _ => True
  | .func _ => False

/-- An output that goes with some sources. -/
structure Output.Holds (presence : Presence) (xs : List Source) (o : Output) : Prop where
  distinct : (o.declarations.filterMap Declaration.name?).Nodup
  origin : ∀ d ∈ o.declarations, ofSources presence xs d
  declared : ∀ x ∈ xs, o.builder.isDeclared x.name = true

section Holds

variable {presence : Presence} {xs ys : List Source} {o : Output}

theorem ofSources.mono {d : Declaration} (h : ofSources presence xs d) (hsub : xs ⊆ ys) : ofSources presence ys d := by
  cases d with
  | type t =>
    obtain ⟨x, hx, hbuilds⟩ := h
    exact ⟨x, hsub hx, hbuilds⟩
  | const c => exact h
  | impl b => exact h
  | func f => exact h

theorem Output.Holds.congr (h : o.Holds presence xs) (hmem : ∀ x, x ∈ ys ↔ x ∈ xs) : o.Holds presence ys :=
  ⟨h.distinct, fun d hd => (h.origin d hd).mono fun x hx => (hmem x).2 hx, fun x hx => h.declared x ((hmem x).1 hx)⟩

theorem Output.Holds.of_declarations (h : o.Holds presence xs) (o' : Output)
    (heq : o'.declarations = o.declarations) : o'.Holds presence xs := by
  refine ⟨heq ▸ h.distinct, heq ▸ h.origin, fun x hx => ?_⟩
  obtain ⟨d, hd, hname⟩ := (isDeclared_iff o x.name).1 (h.declared x hx)
  exact (isDeclared_iff o' x.name).2 ⟨d, heq ▸ hd, hname⟩

/-- What a declaration does to an output. -/
theorem declarations_declare (d : Declaration) (o : Output) :
    ((declare d).run o).2.declarations = o.declarations ∧ (∃ name, d.name? = some name ∧
      o.builder.isDeclared name = true) ∨
    ((declare d).run o).2.declarations = o.declarations ++ [d] ∧
      ∀ name, d.name? = some name → o.builder.isDeclared name = false := by
  have hrun : ((declare d).run o).2.declarations = (o.builder.declare d).2.declarations := rfl
  rcases o.builder.declare_cases d with ⟨name, hname, htaken, heq⟩ | ⟨hfree, heq⟩
  · rw [hrun, heq]
    exact .inl ⟨rfl, name, hname, htaken⟩
  · rw [hrun, heq]
    exact .inr ⟨rfl, hfree⟩

/-- One more declaration, for sources under its name. -/
theorem Output.Holds.declare (h : o.Holds presence xs) {d : Declaration} (hsub : xs ⊆ ys)
    (hd : ofSources presence ys d) (hys : ∀ y ∈ ys, y ∈ xs ∨ d.name? = some y.name) :
    ((Emission.declare d).run o).2.Holds presence ys := by
  rcases declarations_declare d o with ⟨hsame, name, hname, htaken⟩ | ⟨hmore, hnew⟩
  · have hold := h.of_declarations ((Emission.declare d).run o).2 hsame
    refine ⟨hold.distinct, fun e he => (hold.origin e he).mono hsub, fun y hy => ?_⟩
    rcases hys y hy with hy | hy
    · exact hold.declared y hy
    · obtain rfl : name = y.name := Option.some.inj (hname.symm.trans hy)
      obtain ⟨e, he, hename⟩ := (isDeclared_iff o y.name).1 htaken
      exact (isDeclared_iff _ _).2 ⟨e, hsame ▸ he, hename⟩
  · refine ⟨?_, fun e he => ?_, fun y hy => (isDeclared_iff _ _).2 ?_⟩
    · rw [hmore, List.filterMap_append]
      refine List.nodup_append.2 ⟨h.distinct, ?_, fun a ha b hb => ?_⟩
      · cases hname : d.name? <;> simp [hname]
      · obtain ⟨e, he, hename⟩ := List.mem_filterMap.1 ha
        have hbname : d.name? = some b := by
          cases hname : d.name? <;> simp_all
        rintro rfl
        have := (isDeclared_iff o a).2 ⟨e, he, hename⟩
        rw [hnew a hbname] at this
        cases this
    · rw [hmore, List.mem_append, List.mem_singleton] at he
      rcases he with he | rfl
      · exact (h.origin e he).mono hsub
      · exact hd
    · rw [hmore]
      rcases hys y hy with hy | hy
      · obtain ⟨e, he, hename⟩ := (isDeclared_iff o y.name).1 (h.declared y hy)
        exact ⟨e, List.mem_append_left _ he, hename⟩
      · exact ⟨d, List.mem_append_right _ (List.mem_singleton.2 rfl), hy⟩

end Holds

/-! ## Computations -/

/-- A computation that turns outputs for some sources into outputs for others. -/
def Tells {α : Type} (presence : Presence) (xs : List Source) (m : Emit α) (ys : List Source) : Prop :=
  ∀ o : Output, o.Holds presence xs → (m.run o).2.Holds presence ys

section Tells

variable {α β : Type} {presence : Presence} {xs ys zs : List Source}

theorem Tells.pure (a : α) : Tells presence xs (pure a) xs := fun _ h => h

/-- A sequence; its second part gets what the first gives from some output. -/
theorem Tells.bind {m : Emit α} {f : α → Emit β} (h : Tells presence xs m ys)
    (hf : ∀ o, Tells presence ys (f (m.run o).1) zs) : Tells presence xs (m >>= f) zs :=
  fun o ho => hf o _ (h o ho)

theorem Tells.congr {m : Emit α} (h : Tells presence xs m ys) (hmem : ∀ x, x ∈ zs ↔ x ∈ ys) :
    Tells presence xs m zs := fun o ho => (h o ho).congr hmem

theorem addImport_tells (module item : String) : Tells presence xs (addImport module item) xs :=
  fun o h => h.of_declarations _ (declarations_addImport module item o)

theorem declareConst_tells {c : Constant} (hc : Shouting c.name) : Tells presence xs (declare (.const c)) xs :=
  fun _ h => h.declare (List.Subset.refl _) hc fun _ hy => .inl hy

theorem declareImpl_tells (b : ImplBlock) : Tells presence xs (declare (.impl b)) xs :=
  fun _ h => h.declare (List.Subset.refl _) trivial fun _ hy => .inl hy

/-- A type is declared for its source. -/
theorem declareType_tells {x : Source} {t : TypeDecl} (h : x.Builds presence t) :
    Tells presence xs (declare (.type t)) (x :: xs) := by
  refine fun _ ho => ho.declare (List.subset_cons_self _ _) ⟨x, List.mem_cons_self, h⟩ fun y hy => ?_
  rcases List.mem_cons.1 hy with rfl | hy
  · exact .inr (congrArg some h.name)
  · exact .inl hy

theorem forM_declareConst_tells : ∀ (constants : List Constant), (∀ c ∈ constants, Shouting c.name) →
    Tells presence xs (constants.forM fun c => declare (.const c)) xs
  | [], _ => .pure _
  | c :: rest, h => (declareConst_tells (h c List.mem_cons_self)).bind fun _ =>
    forM_declareConst_tells rest fun c' hc' => h c' (List.mem_cons_of_mem c hc')

theorem forM_declareImpl_tells : ∀ blocks : List ImplBlock,
    Tells presence xs (blocks.forM fun b => declare (.impl b)) xs
  | [] => .pure _
  | b :: rest => (declareImpl_tells b).bind fun _ => forM_declareImpl_tells rest

end Tells

/-! ## Constants -/

theorem shouting_patternName (owner field : String) (depth : Nat) :
    Shouting (screaming owner ++ "_" ++ screaming field ++ String.join (List.replicate depth "_ITEMS") ++
      "_PATTERN") := by
  have hitems : Shouting (String.join (List.replicate depth "_ITEMS")) := by
    intro c hc
    rw [String.toList_join] at hc
    obtain ⟨item, hitem, hc⟩ := List.mem_flatMap.1 hc
    rw [List.eq_of_mem_replicate hitem] at hc
    exact (by decide : Shouting "_ITEMS") c hc
  exact ((((shouting_upperAscii _).append (by decide)).append (shouting_upperAscii _)).append hitems).append (by decide)

/-- The constants that are collected for patterns have the names that an allocator gives out for them. -/
theorem contents_names {N : String → Prop} {owner field : String} (hN : ∀ (names : Allocator) (depth : Nat),
    N (names.fresh (screaming owner ++ "_" ++ screaming field ++ String.join (List.replicate depth "_ITEMS") ++
      "_PATTERN"))) : ∀ (depth : Nat) (rules : List Rule) (st : Allocator × List Constant), (∀ c ∈ st.2, N c.name) →
      ∀ c ∈ ((Rule.annotate.contents (patternConstant owner field) depth rules).run st).2.2, N c.name
  | _, [], _, h => by
    rw [Rule.annotate.contents]
    exact h
  | depth, .oneOf _ :: rules, st, h | depth, .fields _ :: rules, st, h | depth, .required :: rules, st, h
  | depth, .type _ :: rules, st, h | depth, .minLength _ :: rules, st, h | depth, .maxLength _ :: rules, st, h
  | depth, .minimum _ :: rules, st, h | depth, .maximum _ :: rules, st, h | depth, .minItems _ :: rules, st, h
  | depth, .maxItems _ :: rules, st, h => by
    simp only [Rule.annotate.contents]
    exact contents_names hN depth rules st h
  | depth, .pattern p :: rules, st, h => by
    rw [Rule.annotate.contents]
    refine contents_names hN depth rules _ fun c hc => ?_
    rcases List.mem_append.1 hc with hc | hc
    · exact h c hc
    · rw [List.mem_singleton.1 hc]
      exact hN st.1 depth
  | depth, .elements inner _ :: rules, st, h => by
    rw [Rule.annotate.contents]
    exact contents_names hN depth rules _ (contents_names hN (depth + 1) inner st h)

theorem attrConstants_shouting (owner field : String) (rules : List Rule) (names : Allocator) :
    ∀ c ∈ (attrConstants owner field rules names).2, Shouting c.name :=
  contents_names (fun names depth => (shouting_patternName owner field depth).fresh names) 0 rules (names, [])
    (by nofun)

/-! ## Declarations -/

section Declarations

variable {presence : Presence} {xs : List Source}

theorem validateAttr_tells (owner field : String) (rules : List Rule) (optional : Bool) :
    Tells presence xs (validateAttr owner field rules optional) xs := by
  intro o h
  rw [validateAttr_run]
  exact forM_declareConst_tells _ (attrConstants_shouting owner field rules o.constants) _ (h.of_declarations _ rfl)

theorem fieldDecls_tells (owner : String) : ∀ fields : List Schema.Field,
    Tells presence xs (fieldDecls owner fields) xs
  | [] => .pure _
  | f :: fs => by
    refine Tells.bind ?_ fun _ => (fieldDecls_tells owner fs).bind fun _ => .pure _
    exact (validateAttr_tells owner _ _ _).bind fun _ => .pure _

/-- A source whose name is taken. -/
theorem Output.Holds.skip {o : Output} {x : Source} (ho : o.Holds presence xs)
    (htaken : o.builder.isDeclared x.name = true) : o.Holds presence (x :: xs) := by
  refine ⟨ho.distinct, fun d hd => (ho.origin d hd).mono (List.subset_cons_self _ _), fun y hy => ?_⟩
  rcases List.mem_cons.1 hy with rfl | hy
  · exact htaken
  · exact ho.declared y hy

/-- A schema is declared, unless its name is taken. -/
theorem emitNode_tells (root : String) (n : Node) : Tells presence xs (emitNode root n) (.node n :: xs) := by
  intro o ho
  change (StateT.run (if o.builder.isDeclared n.name = true then _ else _ : Emit Unit) o).2.Holds _ _
  split
  · rename_i htaken
    exact ho.skip htaken
  · revert o
    cases hk : n.kind with
    | object fields =>
      refine fun o ho _ => Tells.bind (addImport_tells _ _) (fun _ => ?_) o ho
      refine (addImport_tells _ _).bind fun _ => ?_
      refine (addImport_tells _ _).bind fun _ => ?_
      refine (fieldDecls_tells n.name fields).bind fun o => ?_
      exact declareType_tells ⟨o, by rw [nodeDecl, hk]⟩
    | enumeration members =>
      refine fun o ho _ => Tells.bind (addImport_tells _ _) (fun _ => ?_) o ho
      refine (addImport_tells _ _).bind fun _ => ?_
      exact declareType_tells ⟨o, by rw [nodeDecl, hk]⟩
    | scalar kind | array element | reference target =>
      exact fun o ho _ => declareType_tells (x := .node n) ⟨o, by rw [nodeDecl, hk]⟩ o ho

theorem emitNodes_tells (root : String) : ∀ (nodes : List Node) {xs : List Source},
    Tells presence xs (Compilation.emitNodes root nodes) (nodes.map .node ++ xs)
  | [], _ => .pure _
  | n :: ns, xs => by
    refine ((emitNode_tells root n).bind fun _ => emitNodes_tells root ns).congr fun x => ?_
    simp only [List.map_cons, List.cons_append, List.mem_cons, List.mem_append]
    tauto

theorem emitRequest_tells (root name : String) (op : Operation) :
    Tells presence xs (emitRequest root name presence op) (.request name op :: xs) := by
  refine (addImport_tells _ _).bind fun _ => ?_
  cases hbody : op.request.body with
  | none =>
    refine (Tells.pure _).bind fun o => declareType_tells ⟨o, ?_⟩
    rw [requestDecl, bodyFields, hbody]
    rfl
  | some body =>
    have hfield : Tells presence xs (bodyField name presence body) xs :=
      (validateAttr_tells name "body" _ _).bind fun _ => .pure _
    refine (hfield.bind fun _ => .pure _).bind fun o => declareType_tells ⟨o, ?_⟩
    rw [requestDecl, bodyFields, hbody]
    rfl

theorem emitPayloads_tells : ∀ (payloads : List (ResponseVariant × String)) {xs : List Source},
    Tells presence xs (emitPayloads payloads) (payloads.map (fun p => .payload p.2 p.1) ++ xs)
  | [], _ => .pure _
  | (v, name) :: rest, xs => by
    refine (((addImport_tells _ _).bind fun _ => (declareType_tells (x := .payload name v) rfl).bind fun _ =>
      emitPayloads_tells rest)).congr fun x => ?_
    simp only [List.map_cons, List.cons_append, List.mem_cons, List.mem_append]
    tauto

/-- The sources of the response types of an operation. -/
def responseSources (op : Operation) (m : ResponseModel) : List Source :=
  .envelope op m :: (op.responses.zip (m.payloads.map (·.2))).map fun p => .payload p.2 p.1

theorem emitResponses_tells (root : String) (op : Operation) (m : ResponseModel) :
    Tells presence xs (emitResponses root op m) (responseSources op m ++ xs) := by
  refine (addImport_tells _ _).bind fun _ => ?_
  refine (emitPayloads_tells _).bind fun _ => ?_
  refine (declareType_tells (x := .envelope op m) rfl).bind fun _ => ?_
  exact (forM_declareImpl_tells _).bind fun _ => declareImpl_tells _

/-- In a list where a value is taken by one item only, that item is what a filter for the value leaves. -/
theorem filter_eq_singleton {α : Type} {β : Type} [BEq β] [LawfulBEq β] {f : α → Option β} {b : β} {a : α} :
    ∀ {l : List α}, (l.filterMap f).Nodup → a ∈ l → f a = some b → l.filter (fun x => f x == some b) = [a] := by
  intro l hnodup ha hb
  obtain ⟨before, after, rfl⟩ := List.append_of_mem ha
  rw [List.filterMap_append, List.filterMap_cons_some hb, List.nodup_middle, List.nodup_cons,
    List.mem_append, not_or, List.mem_filterMap, List.mem_filterMap] at hnodup
  obtain ⟨⟨hbefore, hafter⟩, -⟩ := hnodup
  rw [List.filter_append, List.filter_cons_of_pos (by simp [hb]),
    List.filter_eq_nil_iff.2 fun x hx h => hbefore ⟨x, hx, by simpa using h⟩,
    List.filter_eq_nil_iff.2 fun x hx h => hafter ⟨x, hx, by simpa using h⟩]
  rfl

/-- **What is declared under the name of a source**, if the sources have different names: the type that is built from
it, or a constant. -/
theorem Output.Holds.exists_declaration {o : Output} (h : o.Holds presence xs) (hnames : (xs.map Source.name).Nodup)
    {x : Source} (hx : x ∈ xs) : ∃ d, o.declarations.filter (fun d => d.name? == some x.name) = [d] ∧
      ((∃ t, d = .type t ∧ x.Builds presence t) ∨ (∃ k, d = .const k) ∧ Shouting x.name) := by
  obtain ⟨d, hd, hname⟩ := (isDeclared_iff o x.name).1 (h.declared x hx)
  refine ⟨d, filter_eq_singleton h.distinct hd hname, ?_⟩
  have horigin := h.origin d hd
  cases d with
  | type t =>
    obtain ⟨y, hy, hbuilds⟩ := horigin
    obtain rfl : y = x := List.inj_on_of_nodup_map hnames hy hx (hbuilds.name.symm.trans (Option.some.inj hname))
    exact .inl ⟨t, rfl, hbuilds⟩
  | const k => exact .inr ⟨⟨k, rfl⟩, Option.some.inj hname ▸ horigin⟩
  | impl b => cases hname
  | func f => exact horigin.elim

end Declarations

end ApiForge.Emission
