import ApiForge.Proofs.Dispatch.PathParameters

/-!
# What of a request counts

A call is made of the texts that a request gives for the declared parameters. Of the query and of the headers all texts
under a name count, in their order, and of the cookies only the last one. Nothing else of a request is looked at, and a
parameter that is not given has no place in the record of its location.

* `Operation.declared`: the parameters that an operation declares. `declared_eq` takes them from the description.
* `Operation.SameData`: two requests give the same texts for them. Then they give the same records (`recordOf_congr`).
* `has_recordOf`: a record has the keys whose parameters are given.
* `only_declared_counts`: calls depend on nothing else, and their records have no other keys.
-/

namespace ApiForge

open Text Http Route Schema

/-! ## Texts under a name -/

/-- The texts of the pairs whose names are accepted, in order. -/
def textsUnder (accepts : String → Bool) (pairs : List (String × String)) : List String :=
  (pairs.filter (accepts ·.1)).map (·.2)

theorem textsUnder_ne_nil {accepts : String → Bool} {pairs : List (String × String)} :
    textsUnder accepts pairs ≠ [] ↔ ∃ name text, (name, text) ∈ pairs ∧ accepts name = true := by
  rw [textsUnder, ne_eq, List.map_eq_nil_iff, List.filter_eq_nil_iff]
  simp only [not_forall, not_not, Prod.exists, exists_prop]

theorem textsUnder_name_ne_nil {name : String} {pairs : List (String × String)} :
    textsUnder (· == name) pairs ≠ [] ↔ ∃ text, (name, text) ∈ pairs := by
  rw [textsUnder_ne_nil]
  constructor
  · rintro ⟨name', text, hmem, hname⟩
    exact ⟨text, eq_of_beq hname ▸ hmem⟩
  · rintro ⟨text, hmem⟩
    exact ⟨name, text, hmem, beq_self_eq_true name⟩

/-- The last pair with an accepted name has the last of the texts. -/
theorem find?_reverse_eq_getLast? (accepts : String → Bool) (pairs : List (String × String)) :
    (pairs.reverse.find? (accepts ·.1)).map (·.2) = (textsUnder accepts pairs).getLast? := by
  rw [textsUnder, List.getLast?_map, ← List.head?_filter, List.filter_reverse, List.head?_reverse]

namespace Http.Request

/-- The texts of the query under a name. -/
def queryTexts (r : Request) (name : String) : List String := textsUnder (· == name) r.query

/-- The texts of the headers with a name, in any case of its letters. -/
def headerTexts (r : Request) (name : String) : List String := textsUnder (sameIgnoringCase · name) r.headers

/-- The texts of the cookies under a name. -/
def cookieTexts (r : Request) (name : String) : List String := textsUnder (· == name) r.cookies

/-- A request, routed with some captures, gives a text for a parameter. -/
def Gives (r : Request) (captures : Captures) : Location → String → Prop
  | .path, key => ∃ text, (key, text) ∈ captures
  | .query, key => ∃ text, (key, text) ∈ r.query
  | .header, key => ∃ name text, (name, text) ∈ r.headers ∧ lowerAscii name = lowerAscii key
  | .cookie, key => ∃ text, (key, text) ∈ r.cookies

end Http.Request

/-! ## Declared parameters -/

/-- The names of the parameters that an operation declares at a location. -/
def Operation.declared (op : Operation) (location : Location) : List String :=
  match op.request.part? location with
  | some node => node.fields.map (·.wireKey)
  | none => []

theorem Operation.mem_declared {op : Operation} {location : Location} {key : String} :
    key ∈ op.declared location ↔
      ∃ node, op.request.part? location = some node ∧ key ∈ node.fields.map (·.wireKey) := by
  unfold declared
  cases op.request.part? location <;> simp

/-- A resolved operation declares the parameters it was collected with. -/
theorem RawOperation.Resolved.declared_eq {raw : RawOperation} {op : Operation} (h : raw.Resolved op)
    (location : Location) : op.declared location = (raw.parametersIn location).map (·.name) := by
  have hkeys : (raw.membersIn location).map (·.key) = (raw.parametersIn location).map (·.name) := by
    rw [membersIn, List.map_map]
    rfl
  have hpart := h.part location
  unfold Operation.declared
  cases hnode : op.request.part? location with
  | none =>
    rw [hnode] at hpart
    have hnone : raw.membersIn location = [] := hpart
    rw [← hkeys, hnone]
    rfl
  | some node =>
    rw [hnode] at hpart
    have hfirst := congrArg (List.map Prod.fst) hpart.2
    rw [List.map_map, List.map_map] at hfirst
    exact hfirst.trans hkeys

/-- Two requests have the same target without the query and the same body, and they give the same texts for the declared
parameters. -/
structure Operation.SameData (op : Operation) (r r' : Request) : Prop where
  method : r.method = r'.method
  path : r.path = r'.path
  body : r.body = r'.body
  query : ∀ key ∈ op.declared .query, r.queryTexts key = r'.queryTexts key
  headers : ∀ key ∈ op.declared .header, r.headerTexts key = r'.headerTexts key
  cookies : ∀ key ∈ op.declared .cookie, (r.cookieTexts key).getLast? = (r'.cookieTexts key).getLast?

namespace Dispatch

/-! ## Raw values -/

section Raw

variable {op : Operation} {r r' : Request} {captures : Captures} {location : Location} {key : String}

theorem rawValues_path (r : Request) (captures : Captures) (key : String) :
    rawValues r captures .path key = (textsUnder (· == key) captures).getLast?.toList :=
  congrArg Option.toList (find?_reverse_eq_getLast? (· == key) captures)

theorem rawValues_header (r : Request) (captures : Captures) (key : String) :
    rawValues r captures .header key = r.headerTexts key := rfl

theorem rawValues_cookie (r : Request) (captures : Captures) (key : String) :
    rawValues r captures .cookie key = (r.cookieTexts key).getLast?.toList :=
  congrArg Option.toList (find?_reverse_eq_getLast? (· == key) r.cookies)

/-- The same texts are read for a declared parameter. -/
theorem rawValues_congr (h : op.SameData r r') (hkey : key ∈ op.declared location) :
    rawValues r captures location key = rawValues r' captures location key := by
  cases location with
  | path => rfl
  | query => exact h.query key hkey
  | header => exact h.headers key hkey
  | cookie => rw [rawValues_cookie, rawValues_cookie, h.cookies key hkey]

theorem last_ne_nil {texts : List String} : texts.getLast?.toList ≠ [] ↔ texts ≠ [] := by
  rw [ne_eq, Option.toList_eq_nil_iff, List.getLast?_eq_none_iff]

/-- A text is read for exactly the parameters that are given. -/
theorem rawValues_ne_nil : rawValues r captures location key ≠ [] ↔ r.Gives captures location key := by
  cases location with
  | path => rw [rawValues_path, last_ne_nil]; exact textsUnder_name_ne_nil
  | query => exact textsUnder_name_ne_nil
  | header =>
    rw [rawValues_header, Request.headerTexts, textsUnder_ne_nil]
    simp only [sameIgnoringCase, beq_iff_eq, Request.Gives]
  | cookie => rw [rawValues_cookie, last_ne_nil]; exact textsUnder_name_ne_nil

end Raw

/-! ## Records -/

/-- A record depends on the texts of its fields alone. -/
theorem recordOf_congr {node : Node} {raw raw' : String → List String}
    (h : ∀ key ∈ node.fields.map (·.wireKey), raw key = raw' key) : recordOf node raw = recordOf node raw' := by
  refine List.foldl_ext _ _ [] fun ms f hf => ?_
  rw [h f.wireKey (List.mem_map_of_mem hf)]

theorem isSome_coerceAll {node : Node} {raws : List String} : (node.coerceAll raws).isSome ↔ raws ≠ [] := by
  constructor
  · rintro hsome rfl
    unfold Node.coerceAll at hsome
    split at hsome <;> cases hsome
  · intro hraws
    obtain ⟨value, hvalue, -⟩ := node.coerceAll_flat hraws
    rw [hvalue]
    rfl

/-- Fields add their own keys to a record, if there are texts for them. -/
theorem isSome_foldl {raw : String → List String} {key : String} (fields : List Field) (ms : Json.Members) :
    ((fields.foldl (putField raw) ms).get? key).isSome ↔
      (ms.get? key).isSome ∨ key ∈ fields.map (·.wireKey) ∧ raw key ≠ [] := by
  induction fields generalizing ms with
  | nil => simp
  | cons f fields ih =>
    have hput : ((putField raw ms f).get? key).isSome ↔ (ms.get? key).isSome ∨ key = f.wireKey ∧ raw key ≠ [] := by
      rw [get?_putField]
      split
      · rename_i hkey
        rw [Option.isSome_or, Bool.or_eq_true, isSome_coerceAll, ← hkey, or_comm, and_iff_right rfl]
      · rename_i hkey
        simp only [hkey, false_and, or_false]
    rw [List.foldl_cons, ih, hput, List.map_cons, List.mem_cons, or_assoc, or_and_right]

theorem has_eq_isSome (ms : Json.Members) (key : String) : ms.has key = (ms.get? key).isSome := by
  rw [Json.Members.get?, Option.isSome_map, List.isSome_find?]
  rfl

/-- A record has the keys of those fields that there are texts for, and no others. -/
theorem has_recordOf {node : Node} {raw : String → List String} {key : String} :
    (recordOf node raw).has key = true ↔ key ∈ node.fields.map (·.wireKey) ∧ raw key ≠ [] := by
  have hfold : recordOf node raw = node.fields.foldl (putField raw) [] := rfl
  rw [has_eq_isSome, hfold, isSome_foldl]
  exact or_iff_right Bool.false_ne_true

/-! ## Calls -/

section Calls

variable {op : Operation}

theorem mem_parameterParts {parts : RequestParts} {location : Location} {node : Node}
    (h : (location, node) ∈ parts.parameterParts) : parts.part? location = some node := by
  obtain ⟨location', -, hpart⟩ := List.mem_filterMap.1 h
  obtain ⟨node', hnode, heq⟩ := Option.map_eq_some_iff.1 hpart
  cases heq
  exact hnode

/-- Requests with the same data make calls that differ in nothing but their numbers. -/
theorem ofRequest_congr {r r' : Request} (h : op.SameData r r') (number number' : Nat) (captures : Captures) :
    Call.ofRequest number' op captures r' = { Call.ofRequest number op captures r with number := number' } := by
  have hrecords : ∀ part ∈ op.request.parameterParts,
      (part.1, recordOf part.2 (rawValues r' captures part.1)) =
        (part.1, recordOf part.2 (rawValues r captures part.1)) := by
    intro part hpart
    have hraw : ∀ key ∈ part.2.fields.map (·.wireKey),
        rawValues r captures part.1 key = rawValues r' captures part.1 key := by
      intro key hkey
      exact rawValues_congr h (Operation.mem_declared.2 ⟨part.2, mem_parameterParts hpart, hkey⟩)
    rw [recordOf_congr hraw]
  unfold Call.ofRequest
  rw [List.map_congr_left hrecords, h.method, h.path, h.body]

/-- The record of a location has the keys that are declared and given. -/
theorem has_part (number : Nat) (captures : Captures) (r : Request) {location : Location} {node : Node}
    (hnode : op.request.part? location = some node) :
    ∃ members : Json.Members, (Call.ofRequest number op captures r).part location = .obj members ∧
      ∀ key, members.has key = true ↔ key ∈ op.declared location ∧ r.Gives captures location key := by
  refine ⟨recordOf node (rawValues r captures location), ?_, fun key => ?_⟩
  · rw [part_ofRequest, hnode]
  · rw [has_recordOf, rawValues_ne_nil, Operation.declared, hnode]

end Calls

/-- **Only declared data counts.** The parameters of a compiled operation are those of a collected one. Two requests
that give the same texts for them, with the same method, path and body, make the same call up to its number, which
breaks the same rules. In the record of a location stand exactly the declared keys that the request gives; where nothing
is declared there is no record. -/
theorem only_declared_counts {config : Config} {d : Description} {c : Compilation} (hc : compile config d = .ok c)
    {op : Operation} (hop : op ∈ c.operations) :
    (∃ raws notes, (operationsOf d).run [] = .ok raws notes ∧ ∃ raw ∈ raws, raw.Resolved op ∧
      ∀ location, op.declared location = (raw.parametersIn location).map (·.name)) ∧
    (∀ r r' : Request, op.SameData r r' → ∀ (captures : Captures) (number number' : Nat),
      let call := Call.ofRequest number op captures r
      let call' := Call.ofRequest number' op captures r'
      call' = { call with number := number' } ∧ call'.violations = call.violations) ∧
    ∀ (r : Request) (captures : Captures) (number : Nat) (location : Location),
      let part := (Call.ofRequest number op captures r).part location
      (op.request.part? location = none → part = .null) ∧
      (op.request.part? location ≠ none → ∃ members : Json.Members, part = .obj members ∧
        ∀ key, members.has key = true ↔ key ∈ op.declared location ∧ r.Gives captures location key) := by
  refine ⟨?_, fun r r' h captures number number' => ?_, fun r captures number location => ⟨fun hnone => ?_, ?_⟩⟩
  · obtain ⟨raws, notes, hrun, raw, hraw, hresolved⟩ := compile_source hc hop
    exact ⟨raws, notes, hrun, raw, hraw, hresolved, hresolved.declared_eq⟩
  · have hcall := ofRequest_congr h number number' captures
    refine ⟨hcall, ?_⟩
    rw [hcall]
    rfl
  · rw [part_ofRequest, hnone]
  · intro hsome
    obtain ⟨node, hnode⟩ := Option.ne_none_iff_exists'.1 hsome
    exact has_part number captures r hnode

/-- A description with a parameter of each kind. -/
def notesDescription : Description :=
  let parameter (name place type : String) : Json :=
    .obj [("name", .str name), ("in", .str place), ("schema", .obj [("type", .str type)])]
  let tags : Json := .obj [("name", .str "tag"), ("in", .str "query"),
    ("schema", .obj [("type", .str "array"), ("items", .obj [("type", .str "string")])])]
  .mk "" "Notes" "notes" "" (.obj [("paths", .obj [("/notes/\x7bid\x7d", .obj [("get", .obj [
    ("operationId", .str "readNote"),
    ("parameters", .arr [parameter "id" "path" "integer", tags, parameter "X-Trace" "header" "string",
      parameter "sid" "cookie" "string", parameter "limit" "query" "integer"])])])])]) []

/-- A request with declared data only. -/
def plainRequest : Request where
  method := "GET"
  path := "/notes/7"
  query := [("tag", "a,b"), ("tag", "c")]
  headers := [("x-trace", "t")]
  cookies := [("sid", "new")]

/-- The same with other data in between. -/
def noisyRequest : Request where
  method := "GET"
  path := "/notes/7"
  query := [("Tag", "z"), ("tag", "a,b"), ("debug", "1"), ("tag", "c")]
  headers := [("Accept", "*/*"), ("X-TRACE", "t"), ("sid", "no")]
  cookies := [("sid", "old"), ("tag", "z"), ("sid", "new"), ("theme", "dark")]

theorem compile_notesDescription : (compile {} notesDescription).toOption.map (fun c =>
    c.operations.map fun op => Location.all.map op.declared) =
    some [[["id"], ["tag", "limit"], ["X-Trace"], ["sid"]]] := by decide +kernel

theorem only_declared_counts_notes : ∃ c op, compile {} notesDescription = .ok c ∧ op ∈ c.operations ∧
    op.SameData plainRequest noisyRequest ∧
    Call.ofRequest 2 op [("id", "7")] noisyRequest =
      { Call.ofRequest 1 op [("id", "7")] plainRequest with number := 2 } ∧
    ∃ members : Json.Members, (Call.ofRequest 2 op [("id", "7")] noisyRequest).part .query = .obj members ∧
      members.has "tag" = true ∧ members.has "limit" = false ∧ members.has "debug" = false := by
  obtain ⟨c, h, hview⟩ := exists_compiled compile_notesDescription
  obtain ⟨op, rest, hops, hdeclared, -⟩ := List.map_eq_cons_iff.1 hview
  have hop : op ∈ c.operations := by rw [hops]; exact List.mem_cons_self
  obtain ⟨hpath, hquery, hheader, hcookie⟩ : op.declared .path = ["id"] ∧ op.declared .query = ["tag", "limit"] ∧
      op.declared .header = ["X-Trace"] ∧ op.declared .cookie = ["sid"] := by
    simpa [Location.all] using hdeclared
  have hsame : op.SameData plainRequest noisyRequest := by
    refine ⟨rfl, rfl, rfl, ?_, ?_, ?_⟩
    · rw [hquery]; decide
    · rw [hheader]; decide
    · rw [hcookie]; decide
  obtain ⟨-, hcalls, hparts⟩ := only_declared_counts h hop
  have hsome : op.request.part? .query ≠ none := by
    intro hnone
    rw [Operation.declared, hnone] at hquery
    cases hquery
  obtain ⟨members, hpart, hhas⟩ := (hparts noisyRequest [("id", "7")] 2 .query).2 hsome
  have hgives : ∀ key, members.has key = true ↔ key ∈ ["tag", "limit"] ∧ ∃ text, (key, text) ∈ noisyRequest.query :=
    fun key => by rw [hhas key, hquery]; rfl
  refine ⟨c, op, h, hop, hsame, (hcalls _ _ hsame _ 1 2).1, members, hpart, ?_, ?_, ?_⟩
  · exact (hgives "tag").2 ⟨by decide, "c", by decide⟩
  · rw [← Bool.not_eq_true, hgives]
    simp [noisyRequest]
  · rw [← Bool.not_eq_true, hgives]
    simp

end Dispatch

end ApiForge
