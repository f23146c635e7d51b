import ApiForge.Proofs.Emission.Spelled
import ApiForge.Proofs.Schema.Standing

/-!
# Wire keys in generated types

A generated record has one field for each field of the schema, in order. A field is read and written under the name that
its attribute renames it to, or else under its identifier without the raw mark; a variant likewise. Identifiers are
changed from keys, but the names on the wire are the keys.

* `Field.wireName`, `Variant.wireName`: the name on the wire, as the attributes say.
* `Node.WrittenAs n t`: the type `t` has the fields or the variants of the schema under legal and distinct identifiers,
  and their names on the wire are the keys or the members.
* `writtenAs_nodeDecl`: the type that is declared for a spelled schema is so.
* `emitNode_declares`: emitting a schema under a new name declares that type, and nothing else under the name.
* `Session.emits_wireKeys`: this holds of every record and every enumeration that a resolver gives.
* `compile_writes`: it holds of every schema in the file of a compilation.
-/

namespace ApiForge.Code

open Naming

/-! ## Names on the wire -/

/-- The name that an attribute gives to a field or a variant on the wire. -/
def Meta.rename? : Meta → Option String
  | .list "serde" items => items.findSome? fun
    | .nameValue "rename" (.lit (.str wire)) => some wire
    | _ => none
  | _ => none

/-- The name of a field on the wire. -/
def Field.wireName (f : Field) : String := (f.attrs.findSome? Meta.rename?).getD (withoutMark f.name)

/-- The name of a variant on the wire. -/
def Variant.wireName (v : Variant) : String := (v.attrs.findSome? Meta.rename?).getD (withoutMark v.name)

end ApiForge.Code

namespace ApiForge.Emission

open Code Schema Naming

/-! ## Fields -/

section Fields

variable {f : Schema.Field} {fields : List Schema.Field}

theorem rename?_wireAttr (f : Schema.Field) :
    (wireAttr f).findSome? Meta.rename? = if plainName f.name = f.wireKey then none else some f.wireKey := by
  unfold wireAttr
  dsimp only
  by_cases hplain : plainName f.name = f.wireKey <;> cases hoptional : f.isOptional <;>
    simp [hplain, Meta.rename?, Expression.str]

theorem rename?_validateAttribute (metas : List Meta) :
    (Rule.validateAttribute? metas).toList.findSome? Meta.rename? = none := by
  unfold Rule.validateAttribute?
  split <;> simp [Meta.rename?]

/-- A generated field has the identifier of the field, and its key on the wire. -/
theorem fieldDecl_wireName (h : IsFieldName f.name) (owner : String) (o : Output) :
    ((fieldDecl owner f).run o).1.name = f.name ∧ ((fieldDecl owner f).run o).1.wireName = f.wireKey := by
  refine ⟨rfl, ?_⟩
  have hattrs : ∃ metas, ((fieldDecl owner f).run o).1.attrs = wireAttr f ++ (Rule.validateAttribute? metas).toList :=
    ⟨_, rfl⟩
  obtain ⟨metas, hattrs⟩ := hattrs
  rw [Field.wireName, hattrs, List.findSome?_append, rename?_validateAttribute, Option.or_none, rename?_wireAttr]
  have hname : ((fieldDecl owner f).run o).1.name = f.name := rfl
  split
  · rename_i hplain
    rw [hname, ← dropRawMarks_eq h]
    exact hplain
  · rfl

theorem fieldDecls_wireNames (owner : String) : ∀ {fields : List Schema.Field}, (∀ f ∈ fields, IsFieldName f.name) →
    ∀ o, List.Forall₂ (fun (f : Schema.Field) decl => decl.name = f.name ∧ decl.wireName = f.wireKey) fields
      ((fieldDecls owner fields).run o).1
  | [], _, _ => .nil
  | _ :: _, h, o => by
    obtain ⟨hf, hfs⟩ := List.forall_mem_cons.1 h
    exact .cons (fieldDecl_wireName hf owner o) (fieldDecls_wireNames owner hfs _)

end Fields

/-! ## Variants -/

/-- The variants of an enumeration have legal names, all of them new, and the members on the wire. -/
theorem variants_spec : ∀ (members taken : List String),
    (variants taken members).map Variant.wireName = members ∧ (∀ v ∈ variants taken members, IsIdentifier v.name) ∧
    ((variants taken members).map (·.name)).Nodup ∧ ∀ v ∈ variants taken members, v.name ∉ taken
  | [], _ => ⟨rfl, nofun, List.nodup_nil, nofun⟩
  | member :: members, taken => by
    have hlegal (base : String) (h : base = if pascalCase member == "_" then "Empty" else pascalCase member) :
        IsIdentifier base := by
      split at h
      · exact h ▸ (by decide : IsIdentifier "Empty")
      · rename_i hne
        exact h ▸ isIdentifier_pascalCase (by simpa using hne)
    rw [variants]
    generalize hbase : (if pascalCase member == "_" then "Empty" else pascalCase member) = base
    have hnew : variantName taken base ∉ taken := Allocator.fresh_not_mem ⟨taken⟩ base
    obtain ⟨hwires, hlegals, hnodup, hfresh⟩ := variants_spec members (variantName taken base :: taken)
    refine ⟨by rw [List.map_cons, hwires]; rfl, List.forall_mem_cons.2 ⟨(hlegal base hbase.symm).fresh _, hlegals⟩,
      List.nodup_cons.2 ⟨fun hmem => ?_, hnodup⟩,
      List.forall_mem_cons.2 ⟨hnew, fun v hv hmem => hfresh v hv (List.mem_cons_of_mem _ hmem)⟩⟩
    obtain ⟨v, hv, hname⟩ := List.mem_map.1 hmem
    exact hfresh v hv (hname ▸ List.mem_cons_self)

end ApiForge.Emission

namespace ApiForge.Schema

open Code Emission Naming

/-! ## Types -/

/-- A type that is written for a schema: a record has the fields of the schema in order, under identifiers that the
language accepts and that differ also without raw marks, and its names on the wire are the keys. An enumeration has
legal and distinct variants, and their names on the wire are the members in order. The type itself renames nothing. -/
structure Node.WrittenAs (n : Node) (t : TypeDecl) : Prop where
  name : t.name = n.name
  attrs : ∀ a ∈ t.attrs, ∃ traits, a = .derive traits
  record : ∀ fields, n.kind = .object fields → ∃ decls, t.shape = .record decls ∧
    List.Forall₂ (fun (f : Schema.Field) decl => decl.name = f.name ∧ decl.wireName = f.wireKey) fields decls ∧
    (∀ decl ∈ decls, IsFieldName decl.name) ∧ (decls.map fun decl => withoutMark decl.name).Nodup
  enumeration : ∀ members, n.kind = .enumeration members → ∃ vs, t.shape = .enumeration vs ∧
    vs.map Variant.wireName = members ∧ (∀ v ∈ vs, IsIdentifier v.name) ∧ (vs.map (·.name)).Nodup

/-- The type that is declared for a spelled schema. -/
theorem writtenAs_nodeDecl {n : Node} (h : n.Spelled) (o : Output) : n.WrittenAs (nodeDecl n o) where
  name := nodeDecl_name n o
  attrs := by
    unfold nodeDecl
    split
    · exact List.forall_mem_singleton.2 ⟨_, rfl⟩
    · exact List.forall_mem_singleton.2 ⟨_, rfl⟩
    · exact nofun
  record fields hk := by
    have hnamed := h n .self fields hk
    have hwires := fieldDecls_wireNames n.name hnamed.legal o
    have hnames : ((fieldDecls n.name fields).run o).1.map (·.name) = fields.map (·.name) := by
      rw [← List.forall₂_eq_eq_eq, List.forall₂_map_left_iff, List.forall₂_map_right_iff]
      exact hwires.flip.imp fun _ _ hdecl => hdecl.1
    refine ⟨_, by rw [nodeDecl, hk], hwires, fun decl hdecl => ?_, ?_⟩
    · obtain ⟨f, hf, hname⟩ := List.mem_map.1 (hnames ▸ List.mem_map_of_mem hdecl)
      exact hname ▸ hnamed.legal f hf
    · have hmarks := congrArg (List.map withoutMark) hnames
      rw [List.map_map, List.map_map] at hmarks
      exact hmarks ▸ hnamed.withoutMark_nodup
  enumeration members hk := by
    obtain ⟨hwires, hlegal, hnodup, -⟩ := variants_spec members []
    exact ⟨_, by rw [nodeDecl, hk], hwires, hlegal, hnodup⟩

end ApiForge.Schema

namespace ApiForge.Emission

open Code Schema Naming

/-! ## Declarations -/

section Declares

variable {α : Type} {name : String} {Q : TypeDecl → Prop}

/-- A computation that gives one declaration under a name which is new: a type with the property. -/
def Declares (name : String) (Q : TypeDecl → Prop) (m : Emit Unit) : Prop :=
  ∀ o : Output, (∀ d ∈ o.declarations, d.name? ≠ some name) →
    ∃ t, (m.run o).2.declarations.filter (fun d => d.name? == some name) = [.type t] ∧ Q t

/-- What comes before the declaration leaves the name new. -/
theorem Declares.after {m : Emit α} {f : α → Emit Unit} (h : Upholds (fun d => d.name? ≠ some name) m)
    (hf : ∀ o, Declares name Q (f (m.run o).1)) : Declares name Q (m >>= f) := fun o ho => hf o _ (h.forall_mem ho)

theorem declare_declares {t : TypeDecl} (hname : t.name = name) (ht : Q t) : Declares name Q (declare (.type t)) := by
  refine fun o ho => ⟨t, ?_, ht⟩
  have hnone : o.declarations.filter (fun d => d.name? == some name) = [] :=
    List.filter_eq_nil_iff.2 fun d hd => by simpa using ho d hd
  rcases declarations_declare (.type t) o with ⟨-, name', hname', htaken⟩ | ⟨hmore, -⟩
  · obtain ⟨d, hd, hdname⟩ := (isDeclared_iff o name').1 htaken
    exact absurd (hdname.trans (hname'.symm.trans (congrArg some hname))) (ho d hd)
  · rw [hmore, List.filter_append, hnone, List.nil_append]
    exact List.filter_cons_of_pos (beq_iff_eq.2 (congrArg some hname))

/-- A schema is declared under a name that is new: the constants of its patterns have other names. -/
theorem emitNode_declares (root : String) (n : Node) :
    Declares n.name (fun t => ∃ o, t = nodeDecl n o) (emitNode root n) := by
  intro o ho
  have hnew : ¬o.builder.isDeclared n.name = true := fun htaken => by
    obtain ⟨d, hd, hname⟩ := (isDeclared_iff o n.name).1 htaken
    exact ho d hd hname
  change ∃ t, (StateT.run (if o.builder.isDeclared n.name = true then _ else _ : Emit Unit) o).2.declarations.filter
    _ = _ ∧ _
  rw [if_neg hnew]
  cases hk : n.kind with
  | object fields =>
    refine Declares.after (addImport_upholds _ _) (fun _ => ?_) o ho
    refine Declares.after (addImport_upholds _ _) fun _ => Declares.after (addImport_upholds _ _) fun _ => ?_
    refine Declares.after (fieldDecls_upholds fields fun k hk => ?_) fun o => ?_
    · exact fun hname => hk.name.ne_owner (Option.some.inj hname)
    · exact declare_declares rfl ⟨o, by rw [nodeDecl, hk]⟩
  | enumeration members =>
    refine Declares.after (addImport_upholds _ _) (fun _ => ?_) o ho
    refine Declares.after (addImport_upholds _ _) fun _ => ?_
    exact declare_declares rfl ⟨o, by rw [nodeDecl, hk]⟩
  | scalar kind | array element | reference target =>
    have hdecl : Declares n.name (fun t => ∃ o, t = nodeDecl n o) (declare (.type (nodeDecl n o))) :=
      declare_declares (nodeDecl_name n o) ⟨o, rfl⟩
    rw [nodeDecl, hk] at hdecl
    exact hdecl o ho

end Declares

end ApiForge.Emission

namespace ApiForge.Schema

open Code Emission Naming

/-! ## Sessions and compilations -/

section Sessions

variable {env : Env} {s : State} {nodes : List Node} {n a : Node}

/-- The fields of a plain schema are its properties in order. -/
theorem Stands.wireKeys (h : Session env s nodes) {doc : Option String} {ms : Json.Members} {fields : List Field}
    (hn : Stands env s doc (.obj ms) n) (hplain : Plain ms) (hk : n.kind = .object fields) :
    fields.map (·.wireKey) = (propertiesOf ms).map (·.1) := by
  have hrecord := List.forall₂_map_left_iff.1 (((hn.reads h).reading.parts _ rfl).record fields hplain hk)
  symm
  rw [← List.forall₂_eq_eq_eq, List.forall₂_map_left_iff, List.forall₂_map_right_iff]
  exact hrecord.imp fun _ _ hgives => (congrArg Prod.fst hgives.1).symm

/-- **Generated types keep wire keys and order**: after any session, take a schema that stands somewhere in an answer.
If it is emitted under a name that is new, then there is one declaration under its name, and that is the type which is
written for the schema. A record that is written has one field for each field of the schema in the same order; the
identifiers of the fields are legal and differ also without raw marks, and on the wire the fields have the keys of the
schema. The variants of an enumeration are legal and distinct, and on the wire they are the members in order. The fields
of a plain schema are its properties in order. -/
theorem Session.emits_wireKeys (h : Session env s nodes) (hn : n ∈ nodes) (ha : a.PartOf n) :
    (∀ root o, o.builder.isDeclared a.name = false →
      ∃ t, ((emitNode root a).run o).2.declarations.filter (fun d => d.name? == some a.name) = [.type t] ∧
        a.WrittenAs t) ∧
    ∀ doc ms b fields, Stands env s doc (.obj ms) b → Plain ms → b.kind = .object fields →
      fields.map (·.wireKey) = (propertiesOf ms).map (·.1) := by
  refine ⟨fun root o hnew => ?_, fun _ _ _ _ hb hplain hk => hb.wireKeys h hplain hk⟩
  have hfree : ∀ d ∈ o.declarations, d.name? ≠ some a.name := fun d hd hname => by
    rw [(isDeclared_iff o a.name).2 ⟨d, hd, hname⟩] at hnew
    cases hnew
  obtain ⟨t, hone, o', rfl⟩ := emitNode_declares root a o hfree
  exact ⟨_, hone, writtenAs_nodeDecl ((h.spelled.2 n hn).part ha) o'⟩

/-- Records whose keys have one identifier, or a keyword, or none. -/
def awkwardRecord : Json.Members :=
  [("type", .str "object"), ("properties", .obj [("type", .obj []), ("Type", .obj []), ("self", .obj []),
    ("日本", .obj [])])]

/-- The names of the fields of a record, with their keys. -/
def spelling (n : Node) : List (String × String) :=
  match n.kind with
  | .object fields => fields.map fun f => (f.name, f.wireKey)
  | _ => []

theorem awkwardRecord_resolved : Ends (resolveInline petEnv (.obj awkwardRecord) "Body" "pets") (.initial petEnv)
    (fun n _ => spelling n = [("r#type", "type"), ("type_2", "Type"), ("self_", "self"), ("__", "日本")])
    fun _ _ => False := by
  decide +kernel

theorem Session.emits_wireKeys_awkwardRecord : ∃ s n fields, Session petEnv s [n] ∧ n.kind = .object fields ∧
    fields.map (·.name) = ["r#type", "type_2", "self_", "__"] ∧
    (∀ root o, o.builder.isDeclared n.name = false →
      ∃ t, ((emitNode root n).run o).2.declarations.filter (fun d => d.name? == some n.name) = [.type t] ∧
        n.WrittenAs t) ∧
    fields.map (·.wireKey) = (propertiesOf awkwardRecord).map (·.1) := by
  obtain ⟨n, s, hrun, hspelling⟩ := awkwardRecord_resolved.exists_ok
  unfold spelling at hspelling
  split at hspelling
  · rename_i fields hk
    have hsession : Session petEnv s [n] := Session.start.asked hrun
    have hraw : Stands petEnv s none (.obj awkwardRecord) n := .asked .start hrun fun _ _ h => h
    obtain ⟨hemits, hkeys⟩ := hsession.emits_wireKeys List.mem_cons_self .self
    have hnames := congrArg (List.map Prod.fst) hspelling
    rw [List.map_map] at hnames
    exact ⟨s, n, fields, hsession, hk, hnames, hemits,
      hkeys none awkwardRecord n fields hraw ⟨by decide, by decide, by decide⟩ hk⟩
  · cases hspelling

end Sessions

section Compile

variable {config : Config} {d : Description} {c : Compilation}

/-- **What is written for the schemas of a compilation**: the file has one declaration under the name of each declared
schema. It is the type that is written for the schema, or a constant of something else, which can only be if the name
has no small letters. -/
theorem compile_writes (h : compile config d = .ok c) : ∃ s done, Run config d c s done ∧
    ∀ n ∈ s.declarationsSince 0, ∃ e, c.file.declarations.filter (fun e => e.name? == some n.name) = [e] ∧
      ((∃ t, e = .type t ∧ n.WrittenAs t) ∨ (∃ k, e = .const k) ∧ Shouting n.name) := by
  obtain ⟨s, done, p, hrun, hfile, hdone⟩ := compile_assembled h
  have hspelled := (hrun.spelled nameClass_true declarationClass_true).1
  refine ⟨s, done, hrun, fun n hn => ?_⟩
  obtain ⟨e, he, hcases⟩ := hdone.output.exists_declaration hdone.sources_nodup
    (List.mem_append_left _ (List.mem_map.2 ⟨n, hn, rfl⟩))
  refine ⟨e, by rw [hfile]; exact he, hcases.imp_left fun ⟨t, ht, o, hbuilds⟩ => ⟨t, ht, hbuilds ▸ ?_⟩⟩
  obtain ⟨m, hm, rfl⟩ := List.mem_filterMap.1 hn
  exact writtenAs_nodeDecl (hspelled.declared n (Array.mem_toList_iff.1 (List.mem_of_mem_drop hm))) o

end Compile

end ApiForge.Schema
