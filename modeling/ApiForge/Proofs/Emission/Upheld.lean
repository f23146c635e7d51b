import ApiForge.Proofs.Emission.PatternSites
import ApiForge.Proofs.Naming.Snake

/-!
# Declarations that are added

What is emitted only adds declarations to an output, and which ones can be said beforehand. So what all declarations
have in common can be told from those that are added.

* `ForPattern owner sites k`: the constant `k` is declared for one of the occurrences `sites` of patterns in a type. Its
  name is not that of the type (`IsPatternName.ne_owner`).
* `Upholds P m`: the computation `m` only adds declarations that have the property `P`.
* `emitNode_upholds`, `emitRequest_upholds`, `emitResponses_upholds`: what must have the property for this.
* `emitOperation_upholds`: what must have it for all that is emitted for an operation.
-/

namespace ApiForge.Emission

open Code Schema Naming Compilation

/-! ## Constants for patterns -/

/-- The names that an allocator gives out for the constants of patterns in a type. -/
def IsPatternName (owner name : String) : Prop :=
  ∃ (names : Allocator) (field : String) (depth : Nat), name = names.fresh
    (screaming owner ++ "_" ++ screaming field ++ String.join (List.replicate depth "_ITEMS") ++ "_PATTERN")

/-- A constant for a pattern that occurs in a type. Its value is the source of the pattern. -/
structure ForPattern (owner : String) (sites : List PatternSite) (k : Constant) : Prop where
  name : IsPatternName owner k.name
  source : ∃ r ∈ sites, k = ⟨k.name, [], textRef, .str r.text⟩

theorem ForPattern.mono {owner : String} {sites sites' : List PatternSite} {k : Constant}
    (h : ForPattern owner sites k) (hsub : sites ⊆ sites') : ForPattern owner sites' k where
  name := h.name
  source := by
    obtain ⟨r, hr, hk⟩ := h.source
    exact ⟨r, hsub hr, hk⟩

/-- The constants that are declared for rules. -/
theorem attrConstants_forPattern (owner field place : String) (rules : List Rule) (names : Allocator) :
    ∀ k ∈ (attrConstants owner field rules names).2, ForPattern owner (Rule.sitesAll place 0 rules) k := by
  obtain ⟨ls, hls, hconstants⟩ := annotate_labels owner field place false 0 rules (names, [])
  intro k hk
  refine ⟨contents_names (fun names depth => ⟨names, field, depth, rfl⟩) 0 rules (names, []) nofun k hk, ?_⟩
  have hlabels : (attrConstants owner field rules names).2 = ls.map Label.const := hconstants
  rw [hlabels] at hk
  obtain ⟨l, hl, rfl⟩ := List.mem_map.1 hk
  exact ⟨l.origin, hls.origins ▸ List.mem_map_of_mem hl, rfl⟩

theorem alnumCount_le_screaming (name : String) : alnumCount name ≤ alnumCount (screaming name) :=
  Nat.le_trans (Nat.le_of_eq (alnumCount_snakeCase name).symm) (alnumCount_le_upperAscii _)

/-- A constant has more letters than the type it belongs to. -/
theorem IsPatternName.ne_owner {owner name : String} : IsPatternName owner name → name ≠ owner := by
  rintro ⟨names, field, depth, h⟩ heq
  have hle := alnumCount_le_fresh names (screaming owner ++ "_" ++ screaming field ++
    String.join (List.replicate depth "_ITEMS") ++ "_PATTERN")
  rw [← h, heq] at hle
  simp only [alnumCount_append] at hle
  have hpattern : alnumCount "_PATTERN" = 7 := by decide
  have howner := alnumCount_le_screaming owner
  omega

/-! ## Computations -/

/-- A computation that only adds declarations, all of which have a property. -/
def Upholds {α : Type} (P : Declaration → Prop) (m : Emit α) : Prop :=
  ∀ o : Output, ∃ added, (m.run o).2.declarations = o.declarations ++ added ∧ ∀ d ∈ added, P d

section Upholds

variable {α β : Type} {P : Declaration → Prop} {m : Emit α}

/-- If all declarations have the property, then they still have it afterwards. -/
theorem Upholds.forall_mem (h : Upholds P m) {o : Output} (ho : ∀ d ∈ o.declarations, P d) :
    ∀ d ∈ (m.run o).2.declarations, P d := by
  obtain ⟨added, heq, hadded⟩ := h o
  rw [heq]
  exact List.forall_mem_append.2 ⟨ho, hadded⟩

theorem Upholds.pure (a : α) : Upholds P (pure a) := fun _ => ⟨[], (List.append_nil _).symm, nofun⟩

/-- A sequence; its second part gets what the first gives from some output. -/
theorem Upholds.bind {f : α → Emit β} (h : Upholds P m) (hf : ∀ o, Upholds P (f (m.run o).1)) :
    Upholds P (m >>= f) := by
  intro o
  obtain ⟨first, hfirst, hP⟩ := h o
  obtain ⟨second, hsecond, hP'⟩ := hf o (m.run o).2
  refine ⟨first ++ second, ?_, List.forall_mem_append.2 ⟨hP, hP'⟩⟩
  rw [hfirst, List.append_assoc] at hsecond
  exact hsecond

theorem addImport_upholds (module item : String) : Upholds P (addImport module item) := fun o =>
  ⟨[], by rw [declarations_addImport module item o, List.append_nil], nofun⟩

theorem declare_upholds {d : Declaration} (hd : P d) : Upholds P (declare d) := by
  intro o
  rcases declarations_declare d o with ⟨hsame, -⟩ | ⟨hmore, -⟩
  · exact ⟨[], by rw [hsame, List.append_nil], nofun⟩
  · exact ⟨[d], hmore, List.forall_mem_singleton.2 hd⟩

theorem forM_declare_upholds {f : α → Declaration} : ∀ items : List α, (∀ a ∈ items, P (f a)) →
    Upholds P (items.forM fun a => declare (f a))
  | [], _ => .pure _
  | a :: items, h => (declare_upholds (h a List.mem_cons_self)).bind fun _ =>
    forM_declare_upholds items fun b hb => h b (List.mem_cons_of_mem a hb)

end Upholds

/-! ## Types -/

section Types

variable {P : Declaration → Prop} {owner : String}

theorem validateAttr_upholds (place field : String) {rules : List Rule} (optional : Bool)
    (hpattern : ∀ k, ForPattern owner (Rule.sitesAll place 0 rules) k → P (.const k)) :
    Upholds P (validateAttr owner field rules optional) := by
  intro o
  rw [validateAttr_run]
  exact forM_declare_upholds _ (fun k hk => hpattern k (attrConstants_forPattern owner field place rules _ k hk)) _

theorem fieldDecls_upholds : ∀ fields : List Schema.Field,
    (∀ k, ForPattern owner (fields.flatMap fun f => Rule.sitesAll f.name 0 f.rules) k → P (.const k)) →
    Upholds P (fieldDecls owner fields)
  | [], _ => .pure _
  | f :: fs, h => by
    have hattr : Upholds P (validateAttr owner (plainName f.name) (annotationRules f.type f.rules)
        (f.isOptional && !f.type.isNullable)) := by
      refine validateAttr_upholds f.name _ _ fun k hk => h k (hk.mono ?_)
      rw [sites_annotationRules, List.flatMap_cons]
      exact List.subset_append_left _ _
    have hfield : Upholds P (fieldDecl owner f) := hattr.bind fun _ => .pure _
    refine hfield.bind fun _ => (fieldDecls_upholds fs fun k hk => h k (hk.mono ?_)).bind fun _ => .pure _
    rw [List.flatMap_cons]
    exact List.subset_append_right _ _

theorem emitRequest_upholds (root : String) (presence : Presence) (op : Operation)
    (hpattern : ∀ k, ForPattern owner (Source.request owner op).sites k → P (.const k))
    (htype : ∀ o, P (.type (requestDecl owner presence op o))) : Upholds P (emitRequest root owner presence op) := by
  refine (addImport_upholds _ _).bind fun _ => ?_
  cases hbody : op.request.body with
  | none =>
    refine (Upholds.pure _).bind fun o => declare_upholds ?_
    have hdecl := htype o
    rwa [requestDecl, bodyFields, hbody] at hdecl
  | some body =>
    have hattr : ∀ optional, Upholds P (validateAttr owner "body" (annotationRules body.node body.rules) optional) := by
      refine fun optional => validateAttr_upholds "body" _ _ fun k hk => hpattern k (hk.mono ?_)
      rw [sites_annotationRules, Source.sites, hbody]
      exact List.subset_append_left _ _
    have hfield : Upholds P (bodyField owner presence body) := (hattr _).bind fun _ => .pure _
    refine (hfield.bind fun _ => .pure _).bind fun o => declare_upholds ?_
    have hdecl := htype o
    rwa [requestDecl, bodyFields, hbody] at hdecl

theorem emitNode_upholds (root : String) {n : Node}
    (hpattern : ∀ k, ForPattern n.name (Source.node n).sites k → P (.const k))
    (htype : ∀ o, P (.type (nodeDecl n o))) : Upholds P (emitNode root n) := by
  intro o
  change ∃ added, (StateT.run (if o.builder.isDeclared n.name = true then _ else _ : Emit Unit) o).2.declarations =
    _ ++ added ∧ _
  split
  · exact ⟨[], (List.append_nil _).symm, nofun⟩
  · revert o
    cases hk : n.kind with
    | object fields =>
      refine fun o _ => Upholds.bind (addImport_upholds _ _) (fun _ => ?_) o
      refine (addImport_upholds _ _).bind fun _ => (addImport_upholds _ _).bind fun _ => ?_
      have hfields : Upholds P (fieldDecls n.name fields) := by
        refine fieldDecls_upholds fields fun k hpat => hpattern k ?_
        rwa [Source.sites, hk]
      refine hfields.bind fun o => declare_upholds ?_
      have hdecl := htype o
      rwa [nodeDecl, hk] at hdecl
    | enumeration members =>
      refine fun o _ => Upholds.bind (addImport_upholds _ _) (fun _ => ?_) o
      refine (addImport_upholds _ _).bind fun _ => declare_upholds ?_
      have hdecl := htype o
      rwa [nodeDecl, hk] at hdecl
    | scalar kind | array element | reference target =>
      refine fun o _ => declare_upholds ?_ o
      have hdecl := htype o
      rwa [nodeDecl, hk] at hdecl

theorem emitNodes_upholds (root : String) : ∀ nodes : List Node,
    (∀ n ∈ nodes, ∀ k, ForPattern n.name (Source.node n).sites k → P (.const k)) →
    (∀ n ∈ nodes, ∀ o, P (.type (nodeDecl n o))) → Upholds P (emitNodes root nodes)
  | [], _, _ => .pure _
  | n :: ns, hpattern, htype =>
    (emitNode_upholds root (hpattern n List.mem_cons_self) (htype n List.mem_cons_self)).bind fun _ =>
      emitNodes_upholds root ns (fun m hm => hpattern m (List.mem_cons_of_mem n hm))
        fun m hm => htype m (List.mem_cons_of_mem n hm)

theorem emitPayloads_upholds : ∀ payloads : List (ResponseVariant × String),
    (∀ p ∈ payloads, P (.type (payloadDecl p.2 p.1))) → Upholds P (emitPayloads payloads)
  | [], _ => .pure _
  | p :: rest, h => (addImport_upholds _ _).bind fun _ =>
    (declare_upholds (h p List.mem_cons_self)).bind fun _ =>
      emitPayloads_upholds rest fun q hq => h q (List.mem_cons_of_mem p hq)

theorem emitResponses_upholds (root : String) (op : Operation) (m : ResponseModel)
    (htype : ∀ t, P (.type t)) (himpl : ∀ b ∈ envelopeImpl m :: constructors m, P (.impl b)) :
    Upholds P (emitResponses root op m) := by
  obtain ⟨henvelope, hconstructors⟩ := List.forall_mem_cons.1 himpl
  refine (addImport_upholds _ _).bind fun _ => (emitPayloads_upholds _ fun _ _ => htype _).bind fun _ => ?_
  refine (declare_upholds (htype _)).bind fun _ => ?_
  exact (forM_declare_upholds _ hconstructors).bind fun _ => declare_upholds henvelope

theorem emitOperation_upholds (root : String) (presence : Presence) {nodes : List Node} {op : Operation}
    {m : ResponseModel} (hnodes : ∀ n ∈ nodes, ∀ k, ForPattern n.name (Source.node n).sites k → P (.const k))
    (hrequest : ∀ k, ForPattern owner (Source.request owner op).sites k → P (.const k)) (htype : ∀ t, P (.type t))
    (himpl : ∀ b ∈ envelopeImpl m :: constructors m, P (.impl b)) : Upholds P (do
      emitNodes root nodes
      emitRequest root owner presence op
      emitResponses root op m) := by
  refine (emitNodes_upholds root nodes hnodes fun _ _ _ => htype _).bind fun _ => ?_
  refine (emitRequest_upholds root presence op hrequest fun _ => htype _).bind fun _ => ?_
  exact emitResponses_upholds root op m htype himpl

end Types

end ApiForge.Emission
