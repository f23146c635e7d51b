import ApiForge.Proofs.Dispatch.Decision
import ApiForge.Proofs.Operation.PathParameters
import ApiForge.Proofs.Route.Table
import ApiForge.Proofs.Route.Template
import ApiForge.Proofs.Rule.Violations
import Mathlib.Data.List.Induction

/-!
# Path parameters of calls

A request that is routed to an operation has a captured text for every path parameter, so its value is there.

* `Captures.get?_eq_some_iff`, `Captures.lookup_toMap`: of a repeated placeholder, the last text counts.
* `get?_recordOf`: a record holds what the texts of its fields read as, and `part_ofRequest` is the record of a location.
* `pathParameters_given`: the path parameters of an operation agree with its template, every call has a value for each
  of them, and none is ever reported as missing.
-/

namespace ApiForge.Route.Captures

variable {captures : Captures} {name text : String}

/-- The text of a placeholder is the last one that was captured under its name. -/
theorem get?_eq_some_iff : captures.get? name = some text ↔
    ∃ before after, captures = before ++ (name, text) :: after ∧ name ∉ after.map (·.1) := by
  rw [get?, Option.map_eq_some_iff]
  constructor
  · rintro ⟨⟨name', text'⟩, hfind, rfl⟩
    obtain ⟨hname, after, before, hcaptures, hafter⟩ := List.find?_eq_some_iff_append.1 hfind
    obtain rfl : name' = name := by simpa using hname
    refine ⟨before.reverse, after.reverse, by simpa using congrArg List.reverse hcaptures, fun hmem => ?_⟩
    obtain ⟨c, hc, rfl⟩ := List.mem_map.1 hmem
    simpa using hafter c (List.mem_reverse.1 hc)
  · rintro ⟨before, after, rfl, hafter⟩
    refine ⟨(name, text), List.find?_eq_some_iff_append.2 ⟨by simp, after.reverse, before.reverse, by simp, ?_⟩, rfl⟩
    intro c hc
    have hne : c.1 ≠ name := fun h => hafter (h ▸ List.mem_map_of_mem (List.mem_reverse.1 hc))
    simpa using hne

theorem exists_get? (h : name ∈ captures.map (·.1)) : ∃ text, captures.get? name = some text := by
  obtain ⟨c, hc, rfl⟩ := List.mem_map.1 h
  rw [← Option.isSome_iff_exists, get?, Option.isSome_map, List.find?_isSome]
  exact ⟨c, List.mem_reverse.2 hc, by simp⟩

theorem lookup_cons_of_ne {other text : String} (h : name ≠ other) (texts : List (String × String)) :
    ((other, text) :: texts).lookup name = texts.lookup name := by
  rw [List.lookup_cons, beq_false_of_ne h]

theorem lookup_filter_ne {other : String} (h : name ≠ other) :
    ∀ texts : List (String × String), (texts.filter (·.1 != other)).lookup name = texts.lookup name
  | [] => rfl
  | (n, t) :: texts => by
    by_cases hn : n = other
    · rw [List.filter_cons_of_neg (by simpa using hn), lookup_cons_of_ne (hn ▸ h)]
      exact lookup_filter_ne h texts
    · rw [List.filter_cons_of_pos (by simpa using hn), List.lookup_cons, List.lookup_cons, lookup_filter_ne h texts]

/-- The map of the captured texts holds the same text under a name. -/
theorem lookup_toMap (captures : Captures) (name : String) : captures.toMap.lookup name = captures.get? name := by
  -- From the right: the last capture decides, or leaves the decision to those before it.
  induction captures using List.reverseRecOn with
  | nil => rfl
  | append_singleton cs c ih =>
    rw [toMap, List.foldl_append, List.foldl_cons, List.foldl_nil, get?, List.reverse_append, List.reverse_singleton,
      List.singleton_append]
    by_cases hc : c.1 = name
    · rw [List.find?_cons_of_pos (by simpa using hc), ← hc, List.lookup_cons_self]
      rfl
    · rw [List.find?_cons_of_neg (by simpa using hc), lookup_cons_of_ne (Ne.symm hc), lookup_filter_ne (Ne.symm hc)]
      exact ih

end ApiForge.Route.Captures

namespace ApiForge

theorem Json.Members.get?_insert (ms : Json.Members) (key : String) (value : Json) (k : String) :
    (ms.insert key value).get? k = if k = key then some value else ms.get? k := by
  unfold Members.insert Members.get?
  split
  · rename_i hhas
    have hkeys : ((fun m : String × Json => m.1 == k) ∘ fun m => if m.1 == key then (key, value) else m) =
        fun m => m.1 == k := by
      funext m
      by_cases hm : m.1 = key <;> simp [hm]
    rw [List.find?_map, hkeys, Option.map_map]
    cases hfound : ms.find? (·.1 == k) with
    | none =>
      have hne : k ≠ key := by
        rintro rfl
        obtain ⟨m, hm, hkey⟩ := List.any_eq_true.1 hhas
        exact List.find?_eq_none.1 hfound m hm hkey
      rw [if_neg hne]
      rfl
    | some m =>
      have hm : m.1 = k := by simpa using List.find?_some hfound
      by_cases hk : k = key <;> simp [hm, hk]
  · rename_i hnew
    rw [List.find?_append]
    split
    · rename_i hk
      have hnone : ms.find? (·.1 == k) = none :=
        List.find?_eq_none.2 fun m hm hkey => hnew (List.any_eq_true.2 ⟨m, hm, hk ▸ hkey⟩)
      rw [hnone, hk]
      simp
    · rename_i hk
      simp [Ne.symm hk]

namespace Dispatch

open Http Route Schema

/-! ## Records -/

/-- Puts the value of a field into a record. -/
def putField (raw : String → List String) (ms : Json.Members) (f : Field) : Json.Members :=
  match f.type.coerceAll (raw f.wireKey) with
  | some v => ms.insert f.wireKey v
  | none => ms

theorem get?_putField (raw : String → List String) (ms : Json.Members) (f : Field) (key : String) :
    (putField raw ms f).get? key =
      if key = f.wireKey then (f.type.coerceAll (raw f.wireKey)).or (ms.get? key) else ms.get? key := by
  unfold putField
  cases f.type.coerceAll (raw f.wireKey) with
  | none => simp
  | some v => rw [Json.Members.get?_insert, Option.some_or]

theorem get?_foldl_of_not_mem {raw : String → List String} {key : String} : ∀ {fields : List Field}
    {ms : Json.Members}, key ∉ fields.map (·.wireKey) → (fields.foldl (putField raw) ms).get? key = ms.get? key
  | [], _, _ => rfl
  | f :: fields, ms, h => by
    rw [List.map_cons, List.mem_cons, not_or] at h
    rw [List.foldl_cons, get?_foldl_of_not_mem h.2, get?_putField, if_neg h.1]

theorem get?_foldl_of_mem {raw : String → List String} {f : Field} : ∀ {fields : List Field} {ms : Json.Members},
    (fields.map (·.wireKey)).Nodup → f ∈ fields →
      (fields.foldl (putField raw) ms).get? f.wireKey = (f.type.coerceAll (raw f.wireKey)).or (ms.get? f.wireKey)
  | g :: fields, ms, hnodup, hf => by
    obtain ⟨hnew, hnodup⟩ := List.nodup_cons.1 hnodup
    rw [List.foldl_cons]
    rcases List.mem_cons.1 hf with rfl | hf
    · rw [get?_foldl_of_not_mem hnew, get?_putField, if_pos rfl]
    · have hne : f.wireKey ≠ g.wireKey := fun h => hnew (List.mem_map.2 ⟨f, hf, h⟩)
      rw [get?_foldl_of_mem hnodup hf, get?_putField, if_neg hne]

/-- A record with distinct keys holds under each of them what its texts read as. -/
theorem get?_recordOf {node : Node} (hnodup : (node.fields.map (·.wireKey)).Nodup) (raw : String → List String)
    {f : Field} (hf : f ∈ node.fields) : (recordOf node raw).get? f.wireKey = f.type.coerceAll (raw f.wireKey) := by
  have hfold : recordOf node raw = node.fields.foldl (putField raw) [] := rfl
  rw [hfold, get?_foldl_of_mem hnodup hf]
  exact Option.or_none

/-! ## Calls -/

/-- The captured names of a route are the placeholders of its template. -/
theorem names_of_route {t : Table} {method path : String} {entry : Route.Entry} {captures : Captures}
    (h : t.route method path = .matched entry captures) : captures.map (·.1) = entry.template.paramNames := by
  unfold Table.route at h
  split at h
  · cases h
  · exact Template.matchPath_names (Table.search_eq_matched_iff.1 h).2.2

section Calls

variable {op : Operation} {node : Node} {captures : Captures} {f : Field}

/-- Among the records of some locations, that of a location is found under it. -/
theorem find?_records (parts : RequestParts) (location : Location) (locations : List Location) :
    (locations.filterMap fun l => (parts.part? l).map (l, ·)).find? (·.1 == location) =
      if location ∈ locations then (parts.part? location).map (location, ·) else none := by
  induction locations with
  | nil => rfl
  | cons l locations ih =>
    by_cases hl : l = location
    · subst hl
      rw [if_pos List.mem_cons_self]
      cases hnode : parts.part? l with
      | none =>
        rw [List.filterMap_cons_none (by rw [hnode]; rfl), ih, hnode]
        exact ite_self none
      | some node =>
        rw [List.filterMap_cons_some (by rw [hnode]; rfl)]
        exact List.find?_cons_of_pos (beq_self_eq_true l)
    · have hmem : location ∈ l :: locations ↔ location ∈ locations := by simp [Ne.symm hl]
      simp only [hmem]
      cases hnode : parts.part? l with
      | none => rw [List.filterMap_cons_none (by rw [hnode]; rfl), ih]
      | some node =>
        rw [List.filterMap_cons_some (by rw [hnode]; rfl), List.find?_cons_of_neg (by simpa using hl), ih]

/-- The record of a location is made of the texts for its fields. -/
theorem part_ofRequest (number : Nat) (captures : Captures) (r : Request) (location : Location) :
    (Call.ofRequest number op captures r).part location = match op.request.part? location with
      | some node => .obj (recordOf node (rawValues r captures location))
      | none => .null := by
  have hall : location ∈ Location.all := by cases location <;> decide
  have hfind : op.request.parameterParts.find? (·.1 == location) = (op.request.part? location).map (location, ·) :=
    (find?_records op.request location Location.all).trans (if_pos hall)
  unfold Call.part Call.ofRequest
  dsimp only
  rw [List.find?_map]
  simp only [Function.comp_def]
  rw [hfind]
  cases op.request.part? location <;> rfl

/-- The value of a path parameter is what the text captured for it reads as. -/
theorem pathParam?_ofRequest (number : Nat) (r : Request) (hnode : op.request.path = some node)
    (hnodup : (node.fields.map (·.wireKey)).Nodup) (hf : f ∈ node.fields) {text : String}
    (htext : captures.get? f.wireKey = some text) :
    (Call.ofRequest number op captures r).pathParam? f.wireKey = f.type.coerceAll [text] := by
  rw [Call.pathParam?, part_ofRequest, RequestParts.part?, hnode]
  refine (get?_recordOf hnodup _ hf).trans ?_
  rw [rawValues, htext]
  rfl

/-- A call whose path parameters are complete values misses none of them. -/
theorem violationsIn_path {call : Call} (h : ∀ node, call.operation.request.path = some node → ∀ f ∈ node.fields,
    ∃ value, call.pathParam? f.wireKey = some value ∧ value.Complete) :
    ∀ v ∈ call.violationsIn .path, v.rule ≠ .required := by
  intro v hv
  unfold Call.violationsIn at hv
  split at hv
  · rename_i node hnode
    unfold Rule.checkObject at hv
    split at hv
    · rename_i members hpart
      refine Rule.checkFieldList_complete (fun rules hrules => ?_) v hv
      obtain ⟨f, hf, rfl⟩ := List.mem_map.1 hrules
      obtain ⟨value, hvalue, hcomplete⟩ := h node hnode f hf
      rw [Call.pathParam?, hpart] at hvalue
      exact ⟨value, hvalue, hcomplete⟩
    · rw [List.mem_singleton.1 hv]
      exact fun hrule => by cases hrule
  · cases hv

theorem violationsIn_under {call : Call} {location : Location} {v : Violation} (hv : v ∈ call.violationsIn location) :
    v.Under location.name := by
  unfold Call.violationsIn at hv
  split at hv
  · exact Rule.checkObject_under hv
  · cases hv

theorem bodyViolations_under {call : Call} {v : Violation} (hv : v ∈ call.bodyViolations) : v.Under "body" := by
  unfold Call.bodyViolations at hv
  split at hv
  · exact Rule.checkField_under hv
  · cases hv

/-- Only the rules of path parameters are reported under their place. -/
theorem mem_violationsIn_path {call : Call} {v : Violation} (hv : v ∈ call.violations) (hpath : v.Under "path") :
    v ∈ call.violationsIn .path := by
  rw [Call.violations_eq] at hv
  simp only [List.mem_append] at hv
  rcases hv with (((hv | hv) | hv) | hv) | hv
  · exact hv
  · exact absurd hpath ((violationsIn_under hv).not_under (by decide) (by decide))
  · exact absurd hpath ((violationsIn_under hv).not_under (by decide) (by decide))
  · exact absurd hpath ((violationsIn_under hv).not_under (by decide) (by decide))
  · exact absurd hpath ((bodyViolations_under hv).not_under (by decide) (by decide))

end Calls

/-- **Path parameters agree with the template.** Whatever parameters are declared, those of the path are the
placeholders of the template, each once and all of them required. A request that is routed to the operation gives each
of them a value, which the last text captured under its name reads as, and none is ever reported as missing. -/
theorem pathParameters_given {config : Config} {d : Description} {c : Compilation} (hc : compile config d = .ok c)
    {op : Operation} (hop : op ∈ c.operations) : op.PathAgrees ∧
    ∀ (r : Request) (captures : Captures),
      c.routes.route r.method r.path = .matched (Compilation.routeOf op) captures → ∀ number,
      let call := Call.ofRequest number op captures r
      (∀ node, op.request.path = some node → ∀ f ∈ node.fields, ∃ before text after value,
        captures = before ++ (f.wireKey, text) :: after ∧ f.wireKey ∉ after.map (·.1) ∧
        captures.get? f.wireKey = some text ∧ captures.toMap.lookup f.wireKey = some text ∧
        f.type.coerceAll [text] = some value ∧ call.pathParam? f.wireKey = some value) ∧
      ∀ v ∈ call.violations, v.Under "path" → v.rule ≠ .required := by
  have hagrees := pathAgrees_of_compile hc hop
  refine ⟨hagrees, fun r captures hroute number => ?_⟩
  have hgiven : ∀ node, op.request.path = some node → ∀ f ∈ node.fields, ∃ text value,
      captures.get? f.wireKey = some text ∧ f.type.coerceAll [text] = some value ∧ value.Flat ∧
        (Call.ofRequest number op captures r).pathParam? f.wireKey = some value := by
    intro node hnode f hf
    have hname : f.wireKey ∈ captures.map (·.1) := by
      rw [names_of_route hroute]
      exact (hagrees.names node hnode f.wireKey).1 (List.mem_map_of_mem hf)
    obtain ⟨text, htext⟩ := Captures.exists_get? hname
    obtain ⟨value, hvalue, hflat⟩ := f.type.coerceAll_flat (List.cons_ne_nil text [])
    refine ⟨text, value, htext, hvalue, hflat, ?_⟩
    rw [pathParam?_ofRequest number r hnode (hagrees.distinct node hnode) hf htext, hvalue]
  refine ⟨fun node hnode f hf => ?_, fun v hv hpath => ?_⟩
  · obtain ⟨text, value, htext, hvalue, -, hparam⟩ := hgiven node hnode f hf
    obtain ⟨before, after, hcaptures, hlast⟩ := Captures.get?_eq_some_iff.1 htext
    exact ⟨before, text, after, value, hcaptures, hlast, htext, (captures.lookup_toMap _).trans htext, hvalue, hparam⟩
  · refine violationsIn_path (fun node hnode f hf => ?_) v (mem_violationsIn_path hv hpath)
    obtain ⟨_, value, -, -, hflat, hparam⟩ := hgiven node hnode f hf
    exact ⟨value, hparam, hflat.complete⟩

/-- A description whose template repeats a placeholder. One path parameter is declared twice, one is no placeholder, and
one placeholder is not declared. -/
def treesDescription : Description :=
  let path (name : String) (schema : Json) : Json :=
    .obj [("name", .str name), ("in", .str "path"), ("schema", schema)]
  let integer : Json := .obj [("type", .str "integer")]
  let integers : Json := .obj [("type", .str "array"), ("items", integer)]
  let get : Json := .obj [("operationId", .str "leafOf"), ("parameters", .arr [path "node" integers])]
  ⟨"", "Trees", "trees", "", .obj [("paths", .obj [("/\x7bnode\x7d/of/\x7bnode\x7d/\x7bleaf\x7d",
    .obj [("parameters", .arr [path "node" integer, path "root" integer]), ("get", get)])])], []⟩

/-- A request for it that gives the repeated placeholder two texts. -/
def treesRequest : Request := { method := "GET", path := "/1/of/2,3/x" }

theorem compile_treesDescription : (compile {} treesDescription).toOption.map (fun c =>
    (c.operations.map (·.route.paramNames), match c.routes.route treesRequest.method treesRequest.path with
      | .matched _ captures => some captures
      | _ => none)) =
    some ([["node", "node", "leaf"]], some [("node", "1"), ("node", "2,3"), ("leaf", "x")]) := by decide +kernel

theorem pathParameters_given_trees : ∃ c op, compile {} treesDescription = .ok c ∧ c.operations = [op] ∧
    op.PathAgrees ∧ op.route.paramNames = ["node", "node", "leaf"] ∧
    ∃ node f value, op.request.path = some node ∧ f ∈ node.fields ∧ f.wireKey = "node" ∧
      f.type.coerceAll ["2,3"] = some value ∧
      (Call.ofRequest 1 op [("node", "1"), ("node", "2,3"), ("leaf", "x")] treesRequest).pathParam? "node" =
        some value := by
  obtain ⟨c, h, hview⟩ := exists_compiled compile_treesDescription
  obtain ⟨hnames, hcaptures⟩ := Prod.mk.inj hview
  obtain ⟨op, rest, hops, hname, hrest⟩ := List.map_eq_cons_iff.1 hnames
  obtain rfl := List.map_eq_nil_iff.1 hrest
  split at hcaptures
  · rename_i entry captures hroute
    obtain rfl := Option.some.inj hcaptures
    obtain ⟨op', hop', rfl⟩ := exists_operation h hroute
    obtain rfl : op' = op := by simpa [hops] using hop'
    obtain ⟨hagrees, hgiven⟩ := pathParameters_given h hop'
    cases hnode : op'.request.path with
    | none =>
      rw [hagrees.none_iff, hname] at hnode
      cases hnode
    | some node =>
      have hmem : "node" ∈ node.fields.map (·.wireKey) := by
        rw [hagrees.names node hnode, hname]
        exact List.mem_cons_self
      obtain ⟨f, hf, hkey⟩ := List.mem_map.1 hmem
      obtain ⟨_, text, _, value, -, -, htext, -, hvalue, hparam⟩ :=
        (hgiven treesRequest _ hroute 1).1 node hnode f hf
      rw [hkey] at htext hparam
      obtain rfl : "2,3" = text := Option.some.inj htext
      exact ⟨c, op', h, hops, hagrees, hname, node, f, value, hnode, hf, hkey, hvalue, hparam⟩
  · cases hcaptures

end Dispatch

end ApiForge
