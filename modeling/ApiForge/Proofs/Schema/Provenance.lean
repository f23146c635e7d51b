import ApiForge.Proofs.Schema.Denotation
import ApiForge.Proofs.Schema.Forms
import ApiForge.Proofs.Schema.Merging
import ApiForge.Proofs.Schema.Order
import ApiForge.Proofs.Schema.Session
import ApiForge.Proofs.Schema.Within
import Mathlib.Logic.Relation

/-!
# Where records come from

Records are built in several ways, and a composition takes over the fields of other records. The flag that says whether
a field may be left out depends on the presence mode under which its record is built.

* `Leads env site site'`: the schema at a site asks for the one at another site: it contains it, or refers to it. The
  presence mode stays the same in what a schema contains; behind a reference it is that of the resolver.
* `Traced env site a`: the node `a` is what is read at a site that a site leads to.
* `view_built`: the records in what is read at a site are traced, and their fields are flagged by the presence mode of
  their own site.
-/

namespace ApiForge.Schema

open Json Naming

/-! ## Sites -/

/-- A raw schema and where it stands. -/
abbrev Site := Json × Place

/-- The schema at one site asks for the schema at another one. -/
inductive Leads (env : Env) : Site → Site → Prop where
  | property {ms : Members} {p : Place} {key : String} {schema : Json} : Plain ms → IsTyped ms "object" →
      (key, schema) ∈ propertiesOf ms → Leads env (.obj ms, p) (schema, p.part)
  | items {ms : Members} {p : Place} {schema : Json} : Plain ms → IsTyped ms "array" →
      ms.get? "items" = some schema → Leads env (.obj ms, p) (schema, p.part)
  | union {ms : Members} {p : Place} {members : List Json} {single : Json} : IsUnion ms members single →
      Leads env (.obj ms, p) (single, p)
  | reference {ms : Members} {p : Place} {r : String} {key : RefKey} {site : Site} : textOf ms "$ref" = some r →
      Denotes p.doc r key → env.lookup key = some site → Leads env (.obj ms, p) site
  | composed {ms own : Members} {p : Place} {key : String} {schema : Json} : textOf ms "$ref" = none →
      ms.has "allOf" = true → .own own ∈ pieces ms → (key, schema) ∈ propertiesOf own →
      Leads env (.obj ms, p) (schema, p.part)
  | referred {ms : Members} {p : Place} {r : String} {key : RefKey} {site : Site} : textOf ms "$ref" = none →
      ms.has "allOf" = true → .referred r ∈ pieces ms → Denotes p.doc r key → env.lookup key = some site →
      Leads env (.obj ms, p) site

/-- The node is what is read at a site that a site leads to. -/
def Traced (env : Env) (site : Site) (a : Node) : Prop :=
  ∃ site', Relation.ReflTransGen (Leads env) site site' ∧ ∃ i, view env.lookup i site'.1 site'.2 = some a

/-- All records in a node are traced. -/
def Covered (env : Env) (site : Site) (n : Node) : Prop :=
  ∀ a fields, a.PartOf n → a.kind = .object fields → Traced env site a

/-- What is read at a site: records in it are traced, and if it is a record itself, its fields are flagged. -/
structure Node.Built (env : Env) (site : Site) (n : Node) : Prop where
  parts : ∀ m ∈ n.kind.parts, Covered env site m
  flags : ∀ fields, n.kind = .object fields →
    ∀ f ∈ fields, f.optionalPresence = optionalPresence f.required site.2.presence

section Covering

variable {env : Env} {site site' : Site} {n m : Node}

theorem Traced.of_leads {a : Node} (h : Leads env site site') (ha : Traced env site' a) : Traced env site a := by
  obtain ⟨last, hlast, hread⟩ := ha
  exact ⟨last, hlast.head h, hread⟩

theorem Covered.of_leads (h : Leads env site site') (hn : Covered env site' n) : Covered env site n :=
  fun a fields ha hkind => (hn a fields ha hkind).of_leads h

/-- The types of the fields of a record are parts of the record, also behind references. -/
theorem Covered.field (hn : Covered env site n) {f : Field} (hf : f ∈ n.fields) : Covered env site f.type := by
  intro a fields ha hkind
  refine hn a fields ?_ hkind
  unfold Node.fields at hf
  split at hf
  · rename_i fs hfs
    exact (Node.PartOf.field hfs hf ha).trans n.target_partOf
  · cases hf

/-- A node without parts that is no record. -/
theorem covered_of_scalar {kind : ScalarKind} (hkind : n.kind = .scalar kind) : Covered env site n := by
  intro a fields ha hobject
  rcases Node.partOf_iff.1 ha with rfl | ⟨m, hm, -⟩
  · rw [hkind] at hobject
    cases hobject
  · rw [hkind] at hm
    cases hm

/-- What is read at a site is covered if its parts are. -/
theorem Node.Built.covered (hn : n.Built env site) (hread : ∃ i, view env.lookup i site.1 site.2 = some n) :
    Covered env site n := by
  intro a fields ha hkind
  rcases Node.partOf_iff.1 ha with rfl | ⟨m, hm, ha⟩
  · exact ⟨site, .refl, hread⟩
  · exact hn.parts m hm a fields ha hkind

end Covering

/-! ## Reading -/

/-- A view at which everything that is read is covered. -/
def Covers (env : Env) (read : View) : Prop := ∀ raw p n, read raw p = some n → Covered env (raw, p) n

section Reading

variable {env : Env} {read : View} {p : Place} {n : Node} {ms : Members}

theorem viewScalar_kind {kind : ScalarKind} {nullable : Bool} (h : viewScalar p kind nullable ms = some n) :
    n.kind = .scalar kind := by
  obtain ⟨constraints, -, hn⟩ := Option.bind_eq_some_iff.1 h
  cases hn
  rfl

/-- Scalars have no parts and no fields. -/
theorem viewScalar_built {raw : Json} {kind : ScalarKind} {nullable : Bool}
    (h : viewScalar p kind nullable ms = some n) : n.Built env (raw, p) := by
  have hkind := viewScalar_kind h
  refine ⟨fun m hm => ?_, fun fields hfields => ?_⟩
  · rw [hkind] at hm
    cases hm
  · rw [hkind] at hfields
    cases hfields

/-- Enumerations have no parts and no fields. -/
theorem viewEnum_built {raw : Json} {members : List Json} {nullable : Bool}
    (h : viewEnum ms members nullable p = some n) : n.Built env (raw, p) := by
  unfold viewEnum at h
  split at h
  · cases h
  · cases h
  · obtain ⟨constraints, -, hn⟩ := Option.bind_eq_some_iff.1 h
    cases hn
    exact ⟨nofun, nofun⟩

/-- The types of fields are read from the entries. -/
theorem mem_viewFields : ∀ {entries : List Entry} {taken : List String} {fields : List Field} {f : Field},
    viewFields read p taken entries = some fields → f ∈ fields →
      (∃ e ∈ entries, read e.schema p.part = some f.type) ∧
        f.optionalPresence = optionalPresence f.required p.presence
  | [], _, fields, f, h, hf => by
    cases h
    cases hf
  | e :: es, taken, fields, f, h, hf => by
    obtain ⟨type, htype, h⟩ := Option.bind_eq_some_iff.1 h
    obtain ⟨rest, hrest, h⟩ := Option.bind_eq_some_iff.1 h
    cases h
    rcases List.mem_cons.1 hf with rfl | hf
    · exact ⟨⟨e, List.mem_cons_self, htype⟩, rfl⟩
    · obtain ⟨⟨e', he', htype'⟩, hflag⟩ := mem_viewFields hrest hf
      exact ⟨⟨e', List.mem_cons_of_mem _ he', htype'⟩, hflag⟩

variable (hread : Covers env read)

include hread

theorem viewArray_built (hplain : Plain ms) (htyped : IsTyped ms "array") {nullable : Bool}
    (h : viewArray read ms nullable p = some n) : n.Built env (.obj ms, p) := by
  obtain ⟨element, helement, h⟩ := Option.bind_eq_some_iff.1 h
  obtain ⟨constraints, -, h⟩ := Option.bind_eq_some_iff.1 h
  cases h
  refine ⟨fun m hm => ?_, fun fields hfields => by cases hfields⟩
  obtain rfl := List.mem_singleton.1 hm
  unfold viewElement at helement
  split at helement
  · rename_i items hitems
    exact (hread _ _ _ helement).of_leads (.items hplain htyped hitems)
  · exact covered_of_scalar (viewScalar_kind helement)

theorem viewObject_built (hplain : Plain ms) (htyped : IsTyped ms "object") {nullable : Bool}
    (h : viewObject read ms nullable p = some n) : n.Built env (.obj ms, p) := by
  obtain ⟨fields, hfields, h⟩ := Option.bind_eq_some_iff.1 h
  cases h
  refine ⟨fun m hm => ?_, fun fs hfs f hf => ?_⟩
  · obtain ⟨f, hf, rfl⟩ := List.mem_map.1 hm
    obtain ⟨⟨e, he, htype⟩, -⟩ := mem_viewFields hfields hf
    exact (hread _ _ _ htype).of_leads (.property hplain htyped (mem_entriesOf he))
  · cases hfs
    exact (mem_viewFields hfields hf).2

/-- What a reference leads to is covered. -/
theorem viewRef_covered {raw : Json} {reference : String}
    (hleads : ∀ key site, Denotes p.doc reference key → env.lookup key = some site → Leads env (raw, p) site)
    (h : viewRef env.lookup read reference p = some n) : Covered env (raw, p) n := by
  obtain ⟨key, hkey, h⟩ := Option.bind_eq_some_iff.1 h
  obtain ⟨site, hlook, h⟩ := Option.bind_eq_some_iff.1 h
  exact (hread _ _ _ h).of_leads (hleads key site (Denotes.of_toOption hkey) hlook)

/-! ## Compositions -/

/-- The types of all fields that have been collected are covered. -/
def Merged.Covered (env : Env) (site : Site) (m : Merged) : Prop := ∀ f ∈ m.fields, Schema.Covered env site f.type

omit hread in
theorem Merged.Covered.merge {site : Site} {m : Merged} (hm : m.Covered env site) {fields : List Field}
    (hfields : ∀ f ∈ fields, Schema.Covered env site f.type) : (m.merge fields).Covered env site := by
  have hfold : Merged.Covered env site { m with fields := fields.foldl mergeField m.fields } := by
    refine List.foldlRecOn (motive := fun fs => Merged.Covered env site { m with fields := fs }) fields mergeField hm ?_
    intro fs hfs g hg f hf
    rcases mem_mergeField hf with rfl | hf
    · exact hfields _ hg
    · exact hfs f hf
  exact hfold

omit hread in
theorem memberPieces_subset {member : Json} (h : member ∈ membersOf ms) : memberPieces member ⊆ pieces ms := by
  intro p hp
  rw [pieces_eq]
  exact List.mem_append_left _ (List.mem_flatMap.2 ⟨member, h, hp⟩)

section Pieces

variable {whole : Members} (href : textOf whole "$ref" = none) (hall : whole.has "allOf" = true)

include href hall

/-- The fields of a record that a piece refers to are covered. -/
theorem viewReferred_covered {reference : String} (hpiece : .referred reference ∈ pieces whole) {fields : List Field}
    (h : viewReferred env.lookup read p reference = some fields) :
    ∀ f ∈ fields, Schema.Covered env (.obj whole, p) f.type := by
  obtain ⟨target, htarget, h⟩ := Option.bind_eq_some_iff.1 h
  have hcovered : Schema.Covered env (.obj whole, p) target :=
    viewRef_covered hread (fun _ _ => .referred href hall hpiece) htarget
  split at h
  · cases h
    exact fun f hf => hcovered.field hf
  · cases h

/-- The properties of a piece are covered. -/
theorem viewOwn_covered (hpiece : .own ms ∈ pieces whole) {m m' : Merged} (hm : m.Covered env (.obj whole, p))
    (h : viewOwn read p ms m = some m') : m'.Covered env (.obj whole, p) := by
  unfold viewOwn at h
  split at h
  · obtain ⟨fields, hfields, h⟩ := Option.bind_eq_some_iff.1 h
    cases h
    refine Merged.Covered.merge (m := m.require _) hm fun f hf => ?_
    obtain ⟨⟨e, he, htype⟩, -⟩ := mem_viewFields hfields hf
    exact (hread _ _ _ htype).of_leads (.composed href hall hpiece (mem_entriesOf he))
  · cases h

/-- The members of a composition, given how inline members are collected. -/
theorem viewMembers_covered {inline : Members → Merged → Option Merged}
    (hinline : ∀ ms m m', pieces ms ⊆ pieces whole → m.Covered env (.obj whole, p) → inline ms m = some m' →
      m'.Covered env (.obj whole, p)) :
    ∀ (members : List Json) (m m' : Merged), (∀ member ∈ members, memberPieces member ⊆ pieces whole) →
      m.Covered env (.obj whole, p) → viewMembers env.lookup read inline p members m = some m' →
      m'.Covered env (.obj whole, p)
  | [], m, m', _, hm, h => by
    cases h
    exact hm
  | .obj ms :: rest, m, m', hpieces, hm, h => by
    obtain ⟨hfirst, hrest⟩ := List.forall_mem_cons.1 hpieces
    obtain ⟨m₁, hm₁, h⟩ := Option.bind_eq_some_iff.1 h
    refine viewMembers_covered hinline rest m₁ m' hrest ?_ h
    unfold viewMember at hm₁
    unfold memberPieces at hfirst
    split at hm₁
    · rename_i reference hreference
      obtain ⟨fields, hfields, hmerge⟩ := Option.bind_eq_some_iff.1 hm₁
      cases hmerge
      simp only [hreference] at hfirst
      exact hm.merge (viewReferred_covered hread href hall (hfirst List.mem_cons_self) hfields)
    · rename_i hreference
      simp only [hreference] at hfirst
      exact hinline ms m m₁ hfirst hm hm₁
  | .null :: _, _, _, _, _, h | .bool _ :: _, _, _, _, _, h | .num _ :: _, _, _, _, _, h
  | .str _ :: _, _, _, _, _, h | .arr _ :: _, _, _, _, _, h => by cases h

/-- All fields that a composition collects are covered. -/
theorem viewAllOf_covered : ∀ (levels : Nat) (ms : Members) (m m' : Merged), pieces ms ⊆ pieces whole →
    m.Covered env (.obj whole, p) → viewAllOf env.lookup read p levels ms m = some m' →
    m'.Covered env (.obj whole, p)
  | 0, _, m, m', _, hm, h => by
    cases h
    exact hm
  | levels + 1, ms, m, m', hpieces, hm, h => by
    obtain ⟨m₁, hm₁, h⟩ := Option.bind_eq_some_iff.1 h
    have hown : Piece.own ms ∈ pieces whole := by
      refine hpieces ?_
      rw [pieces_eq]
      exact List.mem_append_right _ List.mem_cons_self
    refine viewOwn_covered hread href hall hown ?_ h
    unfold viewList at hm₁
    split at hm₁
    · cases hm₁
      exact hm
    · rename_i members hmembers
      have hmembersOf : membersOf ms = members := by rw [membersOf, hmembers]; rfl
      refine viewMembers_covered hread href hall (viewAllOf_covered levels) members _ m₁ ?_ hm hm₁
      intro member hmember
      exact List.Subset.trans (memberPieces_subset (hmembersOf ▸ hmember)) hpieces
    · cases hm₁

end Pieces

omit hread in
/-- Settling fields keeps their types and flags them anew. -/
theorem mem_settled {presence : Presence} {required : List String} :
    ∀ {fs : List Field} {taken : List String} {f : Field}, f ∈ settled presence required taken fs →
      (∃ g ∈ fs, f.type = g.type) ∧ f.optionalPresence = optionalPresence f.required presence
  | g :: gs, taken, f, h => by
    rcases List.mem_cons.1 h with rfl | h
    · exact ⟨⟨g, List.mem_cons_self, rfl⟩, rfl⟩
    · obtain ⟨⟨g', hg', htype⟩, hflag⟩ := mem_settled h
      exact ⟨⟨g', List.mem_cons_of_mem _ hg', htype⟩, hflag⟩

theorem viewComposition_built (href : textOf ms "$ref" = none) (hall : ms.has "allOf" = true)
    (h : viewComposition env.lookup read p ms = some n) : n.Built env (.obj ms, p) := by
  obtain ⟨merged, hmerged, h⟩ := Option.bind_eq_some_iff.1 h
  cases h
  have hcovered := viewAllOf_covered hread href hall _ ms {} merged (List.Subset.refl _) nofun hmerged
  refine ⟨fun m hm => ?_, fun fields hfields f hf => ?_⟩
  · obtain ⟨f, hf, rfl⟩ := List.mem_map.1 hm
    obtain ⟨⟨g, hg, htype⟩, -⟩ := mem_settled hf
    rw [htype]
    exact hcovered g hg
  · cases hfields
    exact (mem_settled hf).2

/-! ## Schemas -/

/-- A view at which what is read is built. -/
def Builds (env : Env) (read : View) : Prop := ∀ raw p n, read raw p = some n → n.Built env (raw, p)

theorem viewTyped_built (hplain : Plain ms) (h : viewTyped read p ms = some n) : n.Built env (.obj ms, p) := by
  unfold viewTyped at h
  split at h
  · cases h
  · rename_i type listed htype
    have htyped : ∀ name, type = some name → IsTyped ms name := by
      rintro name rfl
      exact ⟨p.context, listed, by
        cases htype' : typeOf ms p.context with
        | ok found => rw [htype'] at htype; cases htype; rfl
        | error e => rw [htype'] at htype; cases htype⟩
    split at h
    · exact viewObject_built hread hplain (htyped _ rfl) h
    · exact viewArray_built hread hplain (htyped _ rfl) h
    · split at h
      · exact viewEnum_built h
      · exact viewScalar_built h
    · exact viewScalar_built h
    · exact viewScalar_built h
    · exact viewScalar_built h
    · exact viewScalar_built h
    · cases h

end Reading

/-- A union is built as its one member is. -/
theorem viewUnion_built {env : Env} {read : View} {p : Place} {ms : Members} {members : Json} {n : Node}
    (hread : Builds env read) (href : textOf ms "$ref" = none) (hall : ms.has "allOf" = false)
    (hmembers : (ms.get? "oneOf").or (ms.get? "anyOf") = some members) (h : viewUnion read p members = some n) :
    n.Built env (.obj ms, p) := by
  unfold viewUnion at h
  split at h
  · cases h
  · rename_i list hlist
    split at h
    · rename_i single hsingle
      obtain ⟨n', hn', h⟩ := Option.bind_eq_some_iff.1 h
      have hunion : IsUnion ms list single := by
        cases members with
        | arr items => cases hlist; exact ⟨href, hall, hmembers, hsingle⟩
        | _ => cases hlist
      have hbuilt := hread single p n' hn'
      have hkind : n.kind = n'.kind := by
        cases h
        split <;> rfl
      refine ⟨fun m hm => ?_, fun fields hfields => ?_⟩
      · exact (hbuilt.parts m (hkind ▸ hm)).of_leads (.union hunion)
      · exact hbuilt.flags fields (hkind ▸ hfields)
    · cases h

theorem viewForm_built {env : Env} {read : View} {p : Place} {ms : Members} {n : Node} (hcovers : Covers env read)
    (hbuilds : Builds env read) (h : viewForm env.lookup read p ms = some n) : n.Built env (.obj ms, p) := by
  unfold viewForm at h
  cases href : textOf ms "$ref" with
  | some reference =>
    rw [href] at h
    obtain ⟨target, htarget, h⟩ := Option.bind_eq_some_iff.1 h
    cases h
    refine ⟨fun m hm => ?_, nofun⟩
    obtain rfl := List.mem_singleton.1 hm
    exact viewRef_covered hcovers (fun _ _ => .reference href) htarget
  | none =>
    rw [href] at h
    dsimp only at h
    split at h
    · rename_i hall
      exact viewComposition_built hcovers href hall h
    · rename_i hall
      have hall := Bool.eq_false_iff.2 hall
      split at h
      · rename_i members hmembers
        exact viewUnion_built hbuilds href hall hmembers h
      · rename_i hmembers
        exact viewTyped_built hcovers ⟨href, hall, hmembers⟩ h

/-- **What is read is built**: the records in it are traced to the sites that they are read at. -/
theorem view_built (env : Env) : ∀ i, Builds env (view env.lookup i)
  | 0 => nofun
  | i + 1 => by
    intro raw p n h
    have hbuilds := view_built env i
    have hcovers : Covers env (view env.lookup i) := fun raw p n h => (hbuilds raw p n h).covered ⟨i, h⟩
    match raw with
    | .obj ms => exact viewForm_built hcovers hbuilds h
    | .bool true => exact viewScalar_built h
    | .bool false | .null | .num _ | .str _ | .arr _ => cases h

end ApiForge.Schema
