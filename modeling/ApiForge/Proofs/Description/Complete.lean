import ApiForge.Json.Printer
import ApiForge.Proofs.Description.Loading
import ApiForge.Proofs.Operation.Owners

/-!
# Descriptions with all their documents

A description that has been loaded has every document that a reference in it names. A reference that its compilation
cannot resolve therefore misses something in a document that is there: a named schema, or a reusable part of the root
document.

* `Description.Complete d`: every document that a reference names is there.
* `Description.Dangling d r`: a reference in a document misses a schema, or a reusable part.
* `compile_dangling`: what a complete description cannot resolve is dangling.
* `load_complete`: loading ends, and what is loaded is complete.
-/

namespace ApiForge

open Json Text Schema

/-! ## Complete descriptions -/

namespace Description

/-- Every document that a reference names is there. -/
def Complete (d : Description) : Prop :=
  ∀ {doc document name}, d.documentFor? doc = some document → RefersTo document name →
    ∃ other, d.documentFor? (some name) = some other

/-- A reference stands in a document of the description, but what it denotes does not exist. The document where a named
schema is looked for does. -/
inductive Dangling (d : Description) (reference : String) : Prop where
  | schema {doc : Option String} {document target : Json} {ms : Members} {key : RefKey} :
      d.documentFor? doc = some document → (Json.obj ms).Inside document → textOf ms "$ref" = some reference →
      Denotes doc reference key → d.documentFor? key.doc = some target →
      (schemasOf target).bind (·.get? key.name) = none → Dangling d reference
  | part {ms : Members} {part name : String} : (Json.obj ms).Inside d.document → textOf ms "$ref" = some reference →
      part ∈ partSections → dropLead? s!"#/components/{part}/" reference = some name → d.part? part name = none →
      Dangling d reference

end Description

section Complete

variable {reader : Reader} {w : Workspace} {root d : Description} {o : Declared} {v document : Json} {e : CompileError}
  {doc : Option String} {name reference : String}

theorem documentFor?_iff (h : Description.Ascending d.external) :
    d.documentFor? (some name) = some document ↔ (name, document) ∈ d.external :=
  h.find?_eq_some_iff

theorem Frontier.documentFor?_iff (h : Frontier reader w root [] d) : d.documentFor? (some name) = some document ↔
    name ∈ d.names ∧ reader.externalOf w root.source name = .ok document := by
  rw [ApiForge.documentFor?_iff h.ascending]
  constructor
  · exact fun hmem => ⟨List.mem_map.2 ⟨_, hmem, rfl⟩, (h.loaded _ hmem).2⟩
  · rintro ⟨hname, hdocument⟩
    obtain ⟨⟨name, other⟩, hmem, rfl⟩ := List.mem_map.1 hname
    cases hdocument.symm.trans (h.loaded _ hmem).2
    exact hmem

/-- Once nothing is pending, nothing is missing. -/
theorem Frontier.complete (h : Frontier reader w root [] d) : d.Complete := by
  intro doc document name hdocument hname
  have hloaded : name ∈ d.names := by
    cases doc with
    | none =>
      obtain rfl : d.document = document := Option.some.inj hdocument
      refine (h.direct ?_).resolve_left List.not_mem_nil
      rwa [h.same] at hname
    | some other =>
      have hmem := (ApiForge.documentFor?_iff h.ascending).1 hdocument
      exact (h.through _ hmem hname).resolve_left List.not_mem_nil
  obtain ⟨entry, hentry, rfl⟩ := List.mem_map.1 hloaded
  exact ⟨entry.2, (ApiForge.documentFor?_iff h.ascending).2 hentry⟩

/-! ## Where references stand -/

theorem Description.inside_of_paths {path : String} (h : (path, v) ∈ (d.paths?).getD []) : v.Inside d.document := by
  cases hpaths : d.paths? with
  | none =>
    rw [hpaths] at h
    cases h
  | some paths =>
    rw [hpaths] at h
    obtain ⟨value, hvalue, hmembers⟩ := Option.bind_eq_some_iff.1 hpaths
    cases value with
    | obj ms =>
      cases hmembers
      have hinside : v.Inside (.obj paths) := .member h .self
      exact hinside.trans (inside_of_get? hvalue)
    | _ => cases hmembers

/-- A declared operation and its path item stand in the root document. -/
theorem Declared.inside (h : o ∈ d.declared) :
    (Json.obj o.members).Inside d.document ∧ (Json.obj o.item).Inside d.document := by
  obtain ⟨⟨path, item⟩, hmem, hdeclared⟩ := List.mem_flatMap.1 h
  have hitem := Description.inside_of_paths hmem
  cases item with
  | obj item =>
    unfold Extract.declaredAt at hdeclared
    dsimp only at hdeclared
    split at hdeclared
    · cases hdeclared
    · obtain ⟨⟨key, operation⟩, hkey, hsome⟩ := List.mem_filterMap.1 hdeclared
      cases operation with
      | obj members =>
        obtain ⟨method, -, rfl⟩ := Option.map_eq_some_iff.1 hsome
        have hinside : (Json.obj members).Inside (.obj item) := .member hkey .self
        exact ⟨hinside.trans hitem, hitem⟩
      | _ => cases hsome
  | _ => cases hdeclared

theorem Description.part?_inside {part : String} (h : d.part? part name = some v) : v.Inside d.document := by
  obtain ⟨parts, hparts, hget⟩ := Option.bind_eq_some_iff.1 h
  obtain ⟨components, hcomponents, hsection⟩ := Option.bind_eq_some_iff.1 hparts
  exact (inside_of_get? hget).trans ((inside_of_get? hsection).trans (inside_of_get? hcomponents))

theorem Declared.Holds.inside_document (ho : o ∈ d.declared) (h : o.Holds d v) : v.Inside d.document := by
  induction h with
  | own => exact (Declared.inside ho).1
  | shared hget => exact (Members.inside_of_get? hget).trans (Declared.inside ho).2
  | inside _ hinside ih => exact hinside.trans ih
  | part _ _ _ hpart _ => exact Description.part?_inside hpart

/-- A named schema stands in a document of the description. -/
theorem Schema.Env.rawSchema?_inside {env : Env} {key : RefKey} {raw : Json} (h : env.rawSchema? key = some raw) :
    ∃ document, env.description.documentFor? key.doc = some document ∧ raw.Inside document := by
  obtain ⟨schemas, hschemas, hget⟩ := Option.bind_eq_some_iff.1 h
  obtain ⟨document, hdocument, hof⟩ := Option.bind_eq_some_iff.1 hschemas
  obtain ⟨components, hcomponents, hsection⟩ := Option.bind_eq_some_iff.1 hof
  exact ⟨document, hdocument,
    (inside_of_get? hget).trans ((inside_of_get? hsection).trans (inside_of_get? hcomponents))⟩

/-! ## What cannot be resolved -/

/-- What a reference in a complete description denotes is looked for in a document that is there. -/
theorem Description.Complete.documentFor?_of_denotes (hcomplete : d.Complete)
    (hdocument : d.documentFor? doc = some document) {ms : Members} (hinside : (Json.obj ms).Inside document)
    (href : textOf ms "$ref" = some reference) {key : RefKey} (hdenotes : Denotes doc reference key) :
    ∃ target, d.documentFor? key.doc = some target := by
  rcases hdenotes.doc_cases with hdoc | ⟨name, hdoc, hname, hfile⟩
  · exact ⟨document, hdoc ▸ hdocument⟩
  · rw [hdoc]
    exact hcomplete hdocument ⟨ms, reference, hinside, href, hname, hfile⟩

/-- A fault in a schema that is about a reference is about a schema that a document does not have. -/
theorem Schema.Fault.dangling {presence : Presence} {owner owner' : String} (hcomplete : d.Complete)
    (hdocument : d.documentFor? doc = some document) (hinside : v.Inside document)
    (h : Schema.Fault ⟨d, presence⟩ doc owner v (.unresolvedReference owner' reference)) : d.Dangling reference := by
  cases h with
  | missing href hdenotes hmissing =>
    obtain ⟨target, htarget⟩ := hcomplete.documentFor?_of_denotes hdocument hinside href hdenotes
    refine .schema hdocument hinside href hdenotes htarget ?_
    have hlookup := hmissing
    unfold Env.rawSchema? at hlookup
    dsimp only at hlookup
    rwa [htarget, Option.bind_some] at hlookup

theorem compile_dangling {config : Config} {owner : String} (hcomplete : d.Complete)
    (h : compile config d = .error (.unresolvedReference owner reference)) : d.Dangling reference := by
  cases compile_refused h with
  | collecting hrefused =>
    cases hrefused with
    | misread ho hmisread =>
      cases hmisread with
      | fault hv hfault =>
        cases hfault with
        | missing hpart href hname hmissing => exact .part (hv.inside_document ho) href hpart hname hmissing
  | resolving ho hv hfault => exact hfault.dangling hcomplete rfl (hv.inside_document ho)
  | named hnamed =>
    cases hnamed with
    | refused hraw hinside hfault =>
      obtain ⟨document, hdocument, hrawInside⟩ := Env.rawSchema?_inside hraw
      exact hfault.dangling hcomplete hdocument (hinside.trans hrawInside)

end Complete

/-! ## Loading -/

section Loading

variable {reader : Reader} {w : Workspace} {root d : Description} {name : String}

theorem Frontier.mem_names_iff (h : Frontier reader w root [] d) : name ∈ d.names ↔ Needed reader w root name :=
  Set.ext_iff.1 (h.isLeast.unique (isLeast_needed reader w root)) name

/-- Loading fails exactly if something that is needed cannot be read or parsed. -/
theorem Outcome.fails_iff {result : Except LoadError Description} (h : Outcome reader w root result) :
    (∃ e, result = .error e) ↔ ∃ name, Needed reader w root name ∧ ∃ e, reader.externalOf w root.source name = .error e := by
  cases result with
  | error e =>
    obtain ⟨name, hname, he⟩ := h
    exact ⟨fun _ => ⟨name, hname, e, he⟩, fun _ => ⟨e, rfl⟩⟩
  | ok d =>
    refine ⟨fun ⟨e, he⟩ => (nomatch he), fun ⟨name, hname, e, he⟩ => ?_⟩
    obtain ⟨entry, hentry, rfl⟩ := List.mem_map.1 (h.mem_names_iff.2 hname)
    rw [(h.loaded entry hentry).2] at he
    cases he

end Loading

/-- **Loading is complete**, however texts are read as documents. It ends, and a greater bound on its rounds changes
nothing. It fails if the root cannot be read or is no description, and otherwise exactly if one of the documents that
are needed cannot be read or parsed. What is loaded is the least set of names that covers the references, each with its
document. Compiling it reports a reference only for a schema that is missing in a document, or a missing reusable part
of the root document. -/
theorem load_complete (reader : Reader) (w : Workspace) (path : String) : ∃ result,
    (∃ enough, ∀ rounds ≥ enough, w.runWithin rounds (reader.load path) = some (result, w)) ∧
    w.run (reader.load path) = (result, w) ∧
    (∀ e, reader.rootOf w path = .error e → result = .error e) ∧
    ∀ root, reader.rootOf w path = .ok root →
      ∃ needed : Set String, IsLeast {names | Covers reader w root names} needed ∧
      ((∃ e, result = .error e) ↔ ∃ name ∈ needed, ∃ e, reader.externalOf w path name = .error e) ∧
      ∀ d, result = .ok d → d = { root with external := d.external } ∧
        d.names.Pairwise (· < ·) ∧ (∀ name, name ∈ d.names ↔ name ∈ needed) ∧
        (∀ name document, d.documentFor? (some name) = some document ↔
          name ∈ needed ∧ reader.externalOf w path name = .ok document) ∧
        ∀ config owner reference, compile config d = .error (.unresolvedReference owner reference) →
          d.Dangling reference := by
  cases hroot : reader.rootOf w path with
  | error e =>
    have hends := load_fails hroot
    refine ⟨.error e, hends.settled, hends.run_eq, fun e' he => ?_, fun root h => nomatch h⟩
    cases he
    rfl
  | ok root =>
    obtain ⟨result, hresult, hends⟩ := load_ends hroot
    obtain ⟨rfl, -⟩ := Reader.rootOf_eq_ok hroot
    refine ⟨result, hends.settled, hends.run_eq, fun e he => (nomatch he), fun root' hroot' => ?_⟩
    cases hroot'
    refine ⟨_, isLeast_needed reader w root, hresult.fails_iff, fun d hd => ?_⟩
    cases hd
    refine ⟨hresult.same, List.pairwise_map.2 hresult.ascending, fun name => hresult.mem_names_iff,
      fun name document => ?_, fun config owner reference h => compile_dangling hresult.complete h⟩
    rw [hresult.documentFor?_iff, hresult.mem_names_iff]
    rfl

/-- A value that is a reference. -/
def referenceTo (reference : String) : Json := .obj [("$ref", .str reference)]

/-- A workspace with a description of one operation with one parameter, and with further documents. -/
def petsWorkspace (parameter : Json) (documents : List (String × Json)) : Workspace :=
  let operation : Json := .obj [("operationId", .str "list"), ("parameters", .arr [parameter]), ("responses", .obj [])]
  let pets : Json := .obj [("openapi", .str "3.1.0"), ("info", .obj [("title", .str "Pets"), ("version", .str "1")]),
    ("paths", .obj [("/pets", .obj [("get", operation)])])]
  .ofFiles ((("pets.json", pets) :: documents).map fun entry => (entry.1, entry.2.text))

/-- Two documents that refer to one another are loaded. -/
example :
    let w := petsWorkspace (referenceTo "a.json#/A")
      [("a.json", referenceTo "b.json"), ("b.json", referenceTo "a.json")]
    ((w.runWithin 5 (Description.load "pets.json")).bind (·.1.toOption)).map (·.names) = some ["a.json", "b.json"] := by
  decide +kernel

/-- A reference that compiling reports, but that denotes no schema at all. -/
theorem compile_misses_part :
    (∃ d, ((petsWorkspace (referenceTo "#/components/parameters/A") []).run (Description.load "pets.json")).1 = .ok d ∧
      compile {} d = .error (.unresolvedReference "operation:list" "#/components/parameters/A")) ∧
    ∀ doc key, ¬ Denotes doc "#/components/parameters/A" key := by
  constructor
  · have hfails : ((petsWorkspace (referenceTo "#/components/parameters/A") []).runWithin 1
        (Description.load "pets.json")).bind (fun r => r.1.toOption.bind fun d => failure? (compile {} d)) =
        some (.unresolvedReference "operation:list" "#/components/parameters/A") := by
      decide +kernel
    obtain ⟨r, hrun, hfails⟩ := Option.bind_eq_some_iff.1 hfails
    obtain ⟨d, hload, hcompile⟩ := Option.bind_eq_some_iff.1 hfails
    refine ⟨d, ?_, eq_error_of_failure? hcompile⟩
    rw [Workspace.run_eq_of_runWithin hrun]
    exact ok_of_toOption rfl hload.symm
  · rintro doc key ⟨c, -, hkey⟩
    have hnone : (parseRef "#/components/parameters/A" c).toOption = none := rfl
    rw [hkey] at hnone
    cases hnone

end ApiForge
