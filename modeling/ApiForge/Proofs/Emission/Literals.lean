import ApiForge.Proofs.Code.Literals
import ApiForge.Proofs.Emission.Identifiers
import ApiForge.Proofs.Emission.WireNames
import ApiForge.Proofs.Route.Reachable

/-!
# Texts of descriptions in generated files

The base path, the routes, the sources of patterns and the names on the wire come from the description and may hold any
text. They are written as literals, so they can be read back from the lines of a file.

* `compile_begins`: a file begins with the constants of the base path and of the routes.
* `Field.sourceName`, `Variant.sourceName`: names on the wire, read from the lines of attributes.
* `NamesIn f t n`: in the file `f`, the names on the wire of a type are those of a schema.
* `ReadsAt f name values`: what is read on the line of a constant.
* `literals_read_back`: what is read in the file of a compilation.
-/

namespace ApiForge.Code

open Text Naming

/-! ## Lines of files -/

section Lines

variable {f : File}

theorem File.mem_lines {e : Declaration} (he : e ∈ f.declarations) {line : String} (h : line ∈ e.lines) :
    line ∈ f.lines :=
  List.mem_append_right _ (List.mem_flatMap.2 ⟨e, he, List.mem_cons_of_mem _ h⟩)

theorem File.valueLine_mem_lines {k : Constant} (h : .const k ∈ f.declarations) : k.valueLine ∈ f.lines := by
  have hline : k.valueLine ∈ k.lines := by
    rw [Constant.lines_eq]
    exact List.mem_append_right _ (List.mem_singleton_self _)
  exact File.mem_lines h hline

theorem mem_braces {head line : String} {body : List String} (h : line ∈ body) : "    " ++ line ∈ braces head body :=
  List.mem_append_left _ (List.mem_cons_of_mem _ (List.mem_map_of_mem h))

/-- The attributes of a field stand in the file of its record. -/
theorem File.field_mem_lines {t : TypeDecl} (ht : .type t ∈ f.declarations) {fields : List Field}
    (hshape : t.shape = .record fields) {field : Field} (hfield : field ∈ fields) {line : String}
    (h : line ∈ attrLines field.attrs) : "    " ++ line ∈ f.lines := by
  refine File.mem_lines ht (List.mem_append_right _ ?_)
  have hline : line ∈ fields.flatMap Field.lines :=
    List.mem_flatMap.2 ⟨field, hfield, List.mem_append_left _ (List.mem_append_right _ h)⟩
  rw [hshape]
  cases fields with
  | nil => cases hfield
  | cons first rest => exact mem_braces hline

/-- The attributes of a variant stand in the file of its enumeration. -/
theorem File.variant_mem_lines {t : TypeDecl} (ht : .type t ∈ f.declarations) {vs : List Variant}
    (hshape : t.shape = .enumeration vs) {v : Variant} (hv : v ∈ vs) {line : String} (h : line ∈ attrLines v.attrs) :
    "    " ++ line ∈ f.lines := by
  refine File.mem_lines ht (List.mem_append_right _ ?_)
  rw [hshape]
  exact mem_braces (List.mem_flatMap.2 ⟨v, hv, List.mem_append_left _ h⟩)

end Lines

/-! ## Names on the wire -/

/-- The name that the line of an attribute gives to a field or a variant on the wire: the first literal behind the words
for this. -/
def renameIn? (line : String) : Option String :=
  if startsWith "#[serde(rename = " line then (literals? line).bind (·.head?) else none

/-- The name of a field on the wire, read from the lines of its attributes. -/
def Field.sourceName (f : Field) : String := ((attrLines f.attrs).findSome? renameIn?).getD (withoutMark f.name)

/-- The name of a variant on the wire, read from the lines of its attributes. -/
def Variant.sourceName (v : Variant) : String := ((attrLines v.attrs).findSome? renameIn?).getD (withoutMark v.name)

/-- Lines of attributes that say what the attributes say give the same name. -/
theorem findSome?_attrLines {attrs : List Meta} (h : ∀ m ∈ attrs, renameIn? m.attribute = m.rename?) :
    (attrLines attrs).findSome? renameIn? = attrs.findSome? Meta.rename? := by
  induction attrs with
  | nil => rfl
  | cons m ms ih =>
    obtain ⟨hm, hms⟩ := List.forall_mem_cons.1 h
    have hrest : (attrLines ms).findSome? renameIn? = ms.findSome? Meta.rename? := ih hms
    rw [attrLines] at hrest
    rw [attrLines, List.map_cons, List.findSome?_cons, List.findSome?_cons, hm, hrest]

theorem Field.sourceName_eq {f : Field} (h : ∀ m ∈ f.attrs, renameIn? m.attribute = m.rename?) :
    f.sourceName = f.wireName := by
  rw [Field.sourceName, findSome?_attrLines h, Field.wireName]

theorem Variant.sourceName_eq {v : Variant} (h : ∀ m ∈ v.attrs, renameIn? m.attribute = m.rename?) :
    v.sourceName = v.wireName := by
  rw [Variant.sourceName, findSome?_attrLines h, Variant.wireName]

/-- **A new name is read back** from the line of its attribute, whatever stands behind it. -/
theorem renameIn?_serde (wire : String) {others : List Meta} (h : ∀ n ∈ Meta.verbatims others, Unquoted n) :
    renameIn? (Meta.attribute (.list "serde" (.nameValue "rename" (.str wire) :: others))) = some wire := by
  have hverbatim : ∀ n ∈ (Meta.list "serde" (.nameValue "rename" (.str wire) :: others)).verbatim, Unquoted n := by
    refine List.forall_mem_cons.2 ⟨by decide, List.forall_mem_append.2 ⟨?_, h⟩⟩
    exact List.forall_mem_singleton.2 (by decide)
  have hlead : startsWith "#[serde(rename = "
      (Meta.attribute (.list "serde" (.nameValue "rename" (.str wire) :: others))) = true := by
    obtain ⟨rest, hrest⟩ : ∃ rest,
        commaList (Meta.texts (.nameValue "rename" (.str wire) :: others)) = "rename = " ++ rest := by
      rw [Meta.texts]
      cases hothers : Meta.texts others with
      | nil => exact ⟨literal wire, by rw [commaList, String.intercalate_singleton]; rfl⟩
      | cons t ts =>
        refine ⟨literal wire ++ (", " ++ commaList (t :: ts)), ?_⟩
        rw [commaList, String.intercalate_cons_cons, String.append_assoc]
        exact String.append_assoc
    rw [startsWith_iff]
    refine ⟨rest ++ (")" ++ "]"), ?_⟩
    rw [Meta.attribute, Meta.text, hrest]
    simp only [← String.append_assoc]
    rfl
  rw [renameIn?, if_pos hlead, Meta.literals?_attribute hverbatim]
  rfl

/-- A condition gives no name. -/
theorem renameIn?_validate (items : List Meta) : renameIn? (Meta.attribute (.list "validate" items)) = none := by
  refine if_neg fun h => ?_
  obtain ⟨rest, hrest⟩ := startsWith_iff.1 h
  have hchars := congrArg String.toList hrest
  simp [Meta.attribute, Meta.text] at hchars

end ApiForge.Code

namespace ApiForge.Emission

open Code Schema Naming Text Compilation

/-! ## The first constants -/

section Begins

variable {env : Env} {s : State}

/-- What is emitted for an operation comes behind what is there. -/
theorem compileOperation_extends (root : String) (p : Progress) (raw : RawOperation) :
    Ends (compileOperation env root p raw) s
      (fun p' _ => ∃ added, p'.output.declarations = p.output.declarations ++ added) fun _ _ => True := by
  refine ends_bind.2 (ends_get.2 ((Ends.trivial _ _).bind fun op _ _ => ?_))
  refine ends_bind.2 (ends_get.2 ((Ends.trivial _ _).bind fun request _ _ => ?_))
  refine (Ends.trivial _ _).bind fun m _ _ => ends_pure.2 ?_
  obtain ⟨added, hadded, -⟩ := emitOperation_upholds (P := fun _ => True) root env.presence (fun _ _ _ _ => trivial)
    (fun _ _ => trivial) (fun _ => trivial) (fun _ _ => trivial) p.output
  exact ⟨added, hadded⟩

theorem compileOperations_extends (root : String) (raws : List RawOperation) (p : Progress) (s : State) :
    Ends (compileOperations env root raws p) s
      (fun p' _ => ∃ added, p'.output.declarations = p.output.declarations ++ added) fun _ _ => True := by
  induction raws generalizing p s with
  | nil => exact ends_pure.2 ⟨[], (List.append_nil _).symm⟩
  | cons raw raws ih =>
    refine (compileOperation_extends root p raw).bind fun p₁ s₁ ⟨first, hfirst⟩ => ?_
    refine (ih p₁ s₁).mono (fun p₂ _ ⟨second, hsecond⟩ => ⟨first ++ second, ?_⟩) fun _ _ h => h
    rw [hsecond, hfirst, List.append_assoc]

theorem assemble_begins (root : String) (raws : List RawOperation) :
    Ends (assemble env root raws) s (fun p _ => ∃ rest,
      p.output.declarations = .const (basePathConst env.description) :: .const (routesConst raws) :: rest)
      fun _ _ => True := by
  refine (Ends.trivial _ _).bind fun _ s₁ _ => ends_bind.2 (ends_get.2 ?_)
  refine (compileOperations_extends root raws _ _).mono (fun p _ ⟨added, hadded⟩ => ?_) fun _ _ h => h
  have hnodes : Upholds (fun _ => True) (emitNodes root (s₁.declarationsSince 0)) :=
    emitNodes_upholds root _ (fun _ _ _ _ => trivial) fun _ _ _ => trivial
  obtain ⟨declared, hdeclared, -⟩ := hnodes ((do
    declare (.const (basePathConst env.description))
    declare (.const (routesConst raws)) : Emit Unit).run { builder := { name := env.description.slug } }).2
  refine ⟨declared ++ added, hadded.trans ?_⟩
  exact congrArg (· ++ added) hdeclared

end Begins

/-! ## Names on the wire -/

section Names

theorem node_not_mem_operationSources {e : Named} {n : Node} : .node n ∉ operationSources e := by
  intro hn
  rcases List.mem_cons.1 hn with hn | hn
  · cases hn
  · rcases List.mem_cons.1 hn with hn | hn
    · cases hn
    · obtain ⟨p, -, hp⟩ := List.mem_map.1 hn
      cases hp

theorem renameIn?_wireAttr (f : Schema.Field) : ∀ m ∈ wireAttr f, renameIn? m.attribute = m.rename? := by
  intro m hm
  unfold wireAttr at hm
  dsimp only at hm
  cases hplain : plainName f.name == f.wireKey with
  | true =>
    cases hoptional : f.isOptional with
    | true =>
      rw [hplain, hoptional] at hm
      have hskip : renameIn? (Meta.attribute (.list "serde" [.path "default",
          .nameValue "skip_serializing_if" (.str "Option::is_none")])) = none := by decide
      rw [List.mem_singleton.1 hm]
      exact hskip
    | false =>
      rw [hplain, hoptional] at hm
      cases hm
  | false =>
    cases hoptional : f.isOptional with
    | true =>
      rw [hplain, hoptional] at hm
      rw [List.mem_singleton.1 hm]
      exact renameIn?_serde f.wireKey (by decide)
    | false =>
      rw [hplain, hoptional] at hm
      rw [List.mem_singleton.1 hm]
      exact renameIn?_serde f.wireKey nofun

theorem renameIn?_validateAttribute (metas : List Meta) :
    ∀ m ∈ (Rule.validateAttribute? metas).toList, renameIn? m.attribute = none := by
  intro m hm
  unfold Rule.validateAttribute? at hm
  split at hm
  · cases hm
  · rw [List.mem_singleton.1 hm]
    exact renameIn?_validate metas

theorem renameIn?_eq_of_mem_validateAttribute (metas : List Meta) :
    ∀ m ∈ (Rule.validateAttribute? metas).toList, renameIn? m.attribute = m.rename? := fun m hm =>
  (renameIn?_validateAttribute metas m hm).trans
    (List.findSome?_eq_none_iff.1 (rename?_validateAttribute metas) m hm).symm

/-- The names of fields on the wire are read from their lines. -/
theorem fieldDecls_sourceNames (owner : String) : ∀ (fields : List Schema.Field) (o : Output),
    ∀ decl ∈ ((fieldDecls owner fields).run o).1, decl.sourceName = decl.wireName
  | [], _ => nofun
  | f :: fs, o => by
    refine List.forall_mem_cons.2 ⟨Field.sourceName_eq fun m hm => ?_, fieldDecls_sourceNames owner fs _⟩
    rcases List.mem_append.1 hm with hm | hm
    · exact renameIn?_wireAttr f m hm
    · exact renameIn?_eq_of_mem_validateAttribute _ m hm

/-- The names of variants on the wire are read from their lines. -/
theorem variants_sourceNames (taken members : List String) :
    ∀ v ∈ variants taken members, v.sourceName = v.wireName := by
  induction members generalizing taken with
  | nil => nofun
  | cons member members ih =>
    refine List.forall_mem_cons.2 ⟨Variant.sourceName_eq fun m hm => ?_, ih _⟩
    rw [List.mem_singleton.1 hm]
    exact renameIn?_serde member nofun

/-- In a file, the names of a type on the wire are those of a schema: the keys of its fields or its members, read from
lines of the file. -/
structure NamesIn (f : File) (t : TypeDecl) (n : Node) : Prop where
  record : ∀ fields, n.kind = .object fields → ∃ decls, t.shape = .record decls ∧
    decls.map Code.Field.sourceName = fields.map (·.wireKey) ∧
    ∀ decl ∈ decls, ∀ line ∈ attrLines decl.attrs, "    " ++ line ∈ f.lines
  enumeration : ∀ members, n.kind = .enumeration members → ∃ vs, t.shape = .enumeration vs ∧
    vs.map Variant.sourceName = members ∧ ∀ v ∈ vs, ∀ line ∈ attrLines v.attrs, "    " ++ line ∈ f.lines

/-- **Names on the wire are read back** from the type of a spelled schema. -/
theorem namesIn_nodeDecl {f : File} {n : Node} {o : Output} (hn : n.Spelled)
    (ht : .type (nodeDecl n o) ∈ f.declarations) : NamesIn f (nodeDecl n o) n where
  record fields hk := by
    have hshape : (nodeDecl n o).shape = .record ((fieldDecls n.name fields).run o).1 := by rw [nodeDecl, hk]
    have hwires := fieldDecls_wireNames n.name (hn n .self fields hk).legal o
    refine ⟨_, hshape, ?_, fun decl hdecl line hline => File.field_mem_lines ht hshape hdecl hline⟩
    calc ((fieldDecls n.name fields).run o).1.map Code.Field.sourceName
        = ((fieldDecls n.name fields).run o).1.map Code.Field.wireName :=
          List.map_congr_left (fieldDecls_sourceNames n.name fields o)
      _ = fields.map (·.wireKey) := by
        rw [← List.forall₂_eq_eq_eq, List.forall₂_map_left_iff, List.forall₂_map_right_iff]
        exact hwires.flip.imp fun _ _ hdecl => hdecl.2
  enumeration members hk := by
    have hshape : (nodeDecl n o).shape = .enumeration (variants [] members) := by rw [nodeDecl, hk]
    refine ⟨_, hshape, ?_, fun v hv line hline => File.variant_mem_lines ht hshape hv hline⟩
    calc (variants [] members).map Variant.sourceName
        = (variants [] members).map Variant.wireName := List.map_congr_left (variants_sourceNames [] members)
      _ = members := (variants_spec members []).1

/-- Requests, payloads and envelopes are records that have the names of their fields on the wire. -/
theorem record_of_builds {presence : Presence} {e : Named} {x : Source} (hx : x ∈ operationSources e) {t : TypeDecl}
    (h : x.Builds presence t) : ∃ fields, t.shape = .record fields ∧
      ∀ field ∈ fields, ∀ line ∈ attrLines field.attrs, renameIn? line = none := by
  have hplain (field : Code.Field) (hattrs : field.attrs = []) : ∀ line ∈ attrLines field.attrs,
      renameIn? line = none := by
    rw [hattrs]
    nofun
  cases x with
  | node n => exact absurd hx node_not_mem_operationSources
  | request name op =>
    obtain ⟨o, rfl⟩ := h
    refine ⟨_, rfl, fun field hfield line hline => ?_⟩
    obtain ⟨m, hm, rfl⟩ := List.mem_map.1 hline
    rcases List.mem_append.1 hfield with hfield | hfield
    · obtain ⟨part, -, rfl⟩ := List.mem_map.1 hfield
      rw [List.mem_singleton.1 hm]
      exact renameIn?_validate _
    · obtain ⟨body, -, rfl⟩ := List.mem_map.1 hfield
      exact renameIn?_validateAttribute _ m hm
  | payload name v =>
    cases h
    refine ⟨_, rfl, fun field hfield => ?_⟩
    rcases List.mem_append.1 hfield with hfield | hfield
    · obtain ⟨body, -, rfl⟩ := List.mem_map.1 hfield
      exact hplain _ rfl
    · obtain ⟨headers, -, rfl⟩ := List.mem_map.1 hfield
      exact hplain _ rfl
  | envelope op m =>
    cases h
    refine ⟨_, rfl, fun field hfield => ?_⟩
    rcases List.mem_cons.1 hfield with rfl | hfield
    · exact hplain _ rfl
    · obtain ⟨slot, -, rfl⟩ := List.mem_map.1 hfield
      exact hplain _ rfl

end Names

/-! ## Constants -/

section Constants

theorem unquoted_textRef : Unquoted textRef.text := by decide

theorem literals?_basePath (d : Description) : literals? (basePathConst d).valueLine = some [d.basePath] :=
  Constant.literals?_valueLine (by decide : Unquoted "BASE_PATH") unquoted_textRef nofun

theorem literals?_routes (raws : List RawOperation) : literals? (routesConst raws).valueLine =
    some (raws.flatMap fun raw => [raw.method, raw.route.raw, raw.operationId]) := by
  let entry (raw : RawOperation) : Expression := .tuple [.str raw.method, .str raw.route.raw, .str raw.operationId]
  have hvalue : ∀ n ∈ (routesConst raws).value.verbatim, Unquoted n := by
    change ∀ n ∈ Expression.verbatims (raws.map entry), Unquoted n
    rw [Expression.verbatims_eq_flatMap, List.flatMap_map]
    intro n hn
    obtain ⟨raw, -, hraw⟩ := List.mem_flatMap.1 hn
    cases hraw
  have hstrings : (routesConst raws).value.strings =
      raws.flatMap fun raw => [raw.method, raw.route.raw, raw.operationId] := by
    change (Expression.stringLists (raws.map entry)).flatten = _
    rw [Expression.stringLists_eq_map, List.map_map]
    rfl
  have htype : Unquoted (TypeExpr.ref none (.slice (.tuple [textRef, textRef, textRef]))).text := by decide
  rw [← hstrings]
  exact Constant.literals?_valueLine (by decide : Unquoted "ROUTES") htype hvalue

/-- The source of a pattern is read back from the line of its constant. -/
theorem ForPattern.literals? {owner : String} {sites : List PatternSite} {k : Constant} (h : ForPattern owner sites k) :
    ∃ r ∈ sites, Text.literals? k.valueLine = some [r.text] := by
  obtain ⟨r, hr, hk⟩ := h.source
  have hword : IsWord k.name := h.name.isIdentifier.word
  have hname : Unquoted k.name := fun hmem => by
    have hchar := hword.chars '"' hmem
    revert hchar
    decide
  refine ⟨r, hr, ?_⟩
  rw [hk]
  exact Constant.literals?_valueLine hname unquoted_textRef nofun

end Constants

/-! ## Compilations -/

section Compile

variable {config : Config} {d : Description} {c : Compilation}

/-- **A file begins** with the constants of the base path and of the routes of its operations. -/
theorem compile_begins (h : compile config d = .ok c) : ∃ raws rest,
    c.file.declarations = .const (basePathConst d) :: .const (routesConst raws) :: rest ∧
      c.routes.entries = raws.map fun raw => ⟨raw.method, raw.route, raw.operationId⟩ := by
  obtain ⟨raws, notes, p, s, hops, hrun, hfile, -, -⟩ := compile_run h
  obtain ⟨raws', notes', hops', hresolved, hroutes⟩ := compile_resolved h
  obtain ⟨rest, hrest⟩ := (assemble_begins config.importRoot raws).of_ok hrun
  rw [hops] at hops'
  cases hops'
  have hentries : raws.map (fun raw => (⟨raw.method, raw.route, raw.operationId⟩ : Route.Entry)) =
      c.operations.map routeOf := by
    rw [← List.forall₂_eq_eq_eq, List.forall₂_map_left_iff, List.forall₂_map_right_iff]
    refine hresolved.imp fun raw op hop => ?_
    rw [routeOf, hop.method, hop.route, hop.operationId]
  exact ⟨raws, rest, (congrArg File.declarations hfile).trans hrest, by rw [hroutes, hentries]⟩

/-- Under a name the file has one declaration, a constant. The literals on its line have these values. -/
def ReadsAt (f : File) (name : String) (values : List String) : Prop :=
  ∃ k, f.declarations.filter (fun e => e.name? == some name) = [.const k] ∧ k.valueLine ∈ f.lines ∧
    literals? k.valueLine = some values

theorem readsAt_of_mem {f : File} (hdistinct : (f.declarations.filterMap Declaration.name?).Nodup) {k : Constant}
    (hk : .const k ∈ f.declarations) {values : List String} (h : literals? k.valueLine = some values) :
    ReadsAt f k.name values :=
  ⟨k, filter_eq_singleton hdistinct hk rfl, File.valueLine_mem_lines hk, h⟩

/-- **Literals are read back.** A literal begins and ends with a quote. Between the quotes there is no open quote and no
line break, and undoing the escapes gives the text, whichever characters are written by their code points. So the texts
of a description stand in the file of its compilation. The values on the lines of its constants are the base path, the
methods, templates and identities of the routes in order, and for every other constant the source of a pattern that
occurs in what a type is declared for. The names on the wire, read from the lines of attributes, are the keys or the
members of the schema that a type is declared for; the types of requests and responses are records in which no line
gives one. -/
theorem literals_read_back :
    (∀ (hides : Char → Bool) (s : String),
      (literalOf hides s).toList = '"' :: (literalBody hides s ++ ['"']) ∧
      hasOpenQuote (literalBody hides s) = false ∧ '\n' ∉ literalBody hides s ∧ '\r' ∉ literalBody hides s ∧
      literalValue? (literalOf hides s) = some s) ∧
    (∀ s : String, (Literal.str s).text = literalOf Text.hidden s) ∧
    ∀ (config : Config) (d : Description) (c : Compilation), compile config d = .ok c → ∃ s done,
      Run config d c s done ∧ c.file.render = String.intercalate "\n" (c.file.lines ++ [""]) ∧
      ReadsAt c.file "BASE_PATH" [d.basePath] ∧
      ReadsAt c.file "ROUTES" (c.routes.entries.flatMap fun e => [e.method, e.template.raw, e.operationId]) ∧
      (∀ k, .const k ∈ c.file.declarations → k.name = "BASE_PATH" ∨ k.name = "ROUTES" ∨
        ∃ x ∈ (s.declarationsSince 0).map Source.node ++ done.flatMap operationSources, ∃ r ∈ x.sites,
          ReadsAt c.file k.name [r.text]) ∧
      ∀ t, .type t ∈ c.file.declarations →
        (∃ n ∈ s.declarationsSince 0, (∃ o, t = nodeDecl n o) ∧ NamesIn c.file t n) ∨
        (∃ x ∈ done.flatMap operationSources, x.Builds config.presence t) ∧ ∃ fields, t.shape = .record fields ∧
          ∀ field ∈ fields, ∀ line ∈ attrLines field.attrs, renameIn? line = none := by
  refine ⟨literalOf_spec, literal_eq, fun config d c h => ?_⟩
  obtain ⟨s, done, p, hrun, hfile, hdone⟩ := compile_assembled h
  obtain ⟨raws, rest, hbegins, hroutes⟩ := compile_begins h
  have hspelled := (hrun.spelled nameClass_true declarationClass_true).1
  have hdistinct : (c.file.declarations.filterMap Declaration.name?).Nodup := hfile ▸ hdone.output.distinct
  have hbase : .const (basePathConst d) ∈ c.file.declarations := hbegins ▸ List.mem_cons_self
  have htable : .const (routesConst raws) ∈ c.file.declarations :=
    hbegins ▸ List.mem_cons_of_mem _ List.mem_cons_self
  refine ⟨s, done, hrun, File.render_eq _, readsAt_of_mem hdistinct hbase (literals?_basePath d), ?_, fun k hk => ?_,
    fun t ht => ?_⟩
  · rw [hroutes, List.flatMap_map]
    exact readsAt_of_mem hdistinct htable (literals?_routes raws)
  · have hcited : Cited _ (.const k) := hdone.cited _ (hfile ▸ hk)
    rcases hcited with hname | hname | ⟨x, hx, hpattern⟩
    · exact .inl hname
    · exact .inr (.inl hname)
    · obtain ⟨r, hr, hread⟩ := hpattern.literals?
      exact .inr (.inr ⟨x, hx, r, hr, readsAt_of_mem hdistinct hk hread⟩)
  · -- Only names that the resolver has spelled are known to be read back without their marks.
    obtain ⟨x, hx, hbuilds⟩ := hdone.output.origin (.type t) (hfile ▸ ht)
    rcases List.mem_append.1 hx with hx | hx
    · obtain ⟨n, hn, rfl⟩ := List.mem_map.1 hx
      obtain ⟨o, rfl⟩ := hbuilds
      obtain ⟨m, hm, rfl⟩ := List.mem_filterMap.1 hn
      have hnode := hspelled.declared n (Array.mem_toList_iff.1 (List.mem_of_mem_drop hm))
      exact .inl ⟨n, hn, ⟨o, rfl⟩, namesIn_nodeDecl hnode ht⟩
    · obtain ⟨e, -, he⟩ := List.mem_flatMap.1 hx
      exact .inr ⟨⟨x, hx, hbuilds⟩, record_of_builds he hbuilds⟩

end Compile

/-- A description with a base path, a route and an enumeration whose members are no names. -/
def booksDescription : Description :=
  let book : Json := .obj [("type", .str "string"), ("enum", .arr [.str "in stock", .str "\"sold\""])]
  let get : Json := .obj [("operationId", .str "listBooks")]
  ⟨"", "Books", "books", "/api", .obj [("paths", .obj [("/books", .obj [("get", get)])]),
    ("components", .obj [("schemas", .obj [("Book", book)])])], []⟩

/-- The names of the variants of a type on the wire, if it is an enumeration. -/
def variantNames? : Declaration → Option (List String)
  | .type ⟨_, _, _, .enumeration vs⟩ => some (vs.map Variant.sourceName)
  | _ => none

theorem compile_booksDescription : (compile {} booksDescription).toOption.map (fun c =>
    (c.routes.entries.flatMap fun e => [e.method, e.template.raw, e.operationId],
      c.file.declarations.filterMap variantNames?)) =
    some (["GET", "/books", "list_books"], [["in stock", "\"sold\""]]) := by
  decide +kernel

/-- The base path, the route and the names of variants, read from a file. -/
theorem literals_read_back_books : ∃ c t n, compile {} booksDescription = .ok c ∧
    ReadsAt c.file "BASE_PATH" ["/api"] ∧ ReadsAt c.file "ROUTES" ["GET", "/books", "list_books"] ∧
    .type t ∈ c.file.declarations ∧ variantNames? (.type t) = some ["in stock", "\"sold\""] ∧ NamesIn c.file t n := by
  obtain ⟨c, hc, hview⟩ := exists_compiled compile_booksDescription
  obtain ⟨hroutes, hvariants⟩ := Prod.mk.inj hview
  obtain ⟨-, -, hread⟩ := literals_read_back
  obtain ⟨s, done, -, -, hbase, htable, -, hnames⟩ := hread {} booksDescription c hc
  have hmem : ["in stock", "\"sold\""] ∈ c.file.declarations.filterMap variantNames? := by
    rw [hvariants]
    exact List.mem_singleton_self _
  obtain ⟨e, he, hvs⟩ := List.mem_filterMap.1 hmem
  cases e with
  | const | impl | func => cases hvs
  | type t =>
    rcases hnames t he with ⟨n, -, -, hn⟩ | ⟨-, fields, hfields, -⟩
    · exact ⟨c, t, n, hc, hbase, hroutes ▸ htable, he, hvs, hn⟩
    · obtain ⟨_, _, _, shape⟩ := t
      obtain rfl : shape = .record fields := hfields
      cases hvs

end ApiForge.Emission
