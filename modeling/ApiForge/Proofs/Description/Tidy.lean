import ApiForge.Compilation
import ApiForge.Description.Load
import ApiForge.Proofs.Operation.Declared
import ApiForge.Proofs.Schema.Trimming

/-!
# Members that path items may not have

When a description is loaded, path items lose the members that they may not have. These are under no method, and nothing
in a description refers to them, so nothing but the text of the document is lost.

* `get?_tidyPaths`: all members of the document stay, and only path items change.
* `operationsOf_tidy`: the same operations are collected.
* `trims_tidy`: the same schemas are resolved.
* `tidyPaths_harmless`: a compilation gives the same result, and a tidy document stays as it is.
-/

namespace ApiForge

open Json

/-! ## Tidy documents -/

/-- What becomes of the value of the paths. -/
def tidyItems : Json → Json
  | .obj items => .obj (items.map fun i => (i.1, tidyPathItem i.2))
  | v => v

/-- What becomes of a member of the document. -/
def tidyMember (m : String × Json) : String × Json := (m.1, if m.1 = "paths" then tidyItems m.2 else m.2)

theorem tidyPaths_obj (ms : Members) : tidyPaths (.obj ms) = .obj (ms.map tidyMember) := by
  rw [tidyPaths]
  congr 1
  refine List.map_congr_left fun m _ => ?_
  obtain ⟨key, v⟩ := m
  split
  · rename_i heq
    cases heq
    rfl
  · rename_i hother
    by_cases hkey : key = "paths"
    · subst hkey
      cases v with
      | obj items => exact absurd rfl (hother items)
      | null | bool _ | num _ | str _ | arr _ => rfl
    · rw [tidyMember, if_neg hkey]

theorem Json.Members.get?_map (ms : Members) (f : String → Json → Json) (key : String) :
    Members.get? (ms.map fun m => (m.1, f m.1 m.2)) key = (Members.get? ms key).map (f key) := by
  induction ms with
  | nil => rfl
  | cons m ms ih =>
    unfold Members.get? at ih ⊢
    rw [List.map_cons]
    by_cases hm : m.1 = key
    · subst hm
      rw [List.find?_cons_of_pos (by simp), List.find?_cons_of_pos (by simp)]
      rfl
    · rw [List.find?_cons_of_neg (by simpa using hm), List.find?_cons_of_neg (by simpa using hm), ih]

/-- All members of a tidy document are those of the document, but for the path items. -/
theorem get?_tidyPaths (v : Json) (key : String) :
    (tidyPaths v).get? key = (v.get? key).map fun w => if key = "paths" then tidyItems w else w := by
  cases v with
  | obj ms =>
    rw [tidyPaths_obj]
    exact Members.get?_map ms (fun key w => if key = "paths" then tidyItems w else w) key
  | null | bool _ | num _ | str _ | arr _ => rfl

theorem get?_tidyPaths_of_ne {key : String} (h : key ≠ "paths") (v : Json) : (tidyPaths v).get? key = v.get? key := by
  rw [get?_tidyPaths]
  simp only [if_neg h, Option.map_id']

/-! ## A tidy document stays as it is -/

theorem tidyPathItem_tidy (v : Json) : tidyPathItem (tidyPathItem v) = tidyPathItem v := by
  cases v with
  | obj ms => simp only [tidyPathItem, List.filter_filter, Bool.and_self]
  | null | bool _ | num _ | str _ | arr _ => rfl

theorem tidyItems_tidy (v : Json) : tidyItems (tidyItems v) = tidyItems v := by
  cases v with
  | obj items => simp only [tidyItems, List.map_map, Function.comp_def, tidyPathItem_tidy]
  | null | bool _ | num _ | str _ | arr _ => rfl

theorem tidyPaths_tidy (v : Json) : tidyPaths (tidyPaths v) = tidyPaths v := by
  cases v with
  | obj ms =>
    have hmember : ∀ m, tidyMember (tidyMember m) = tidyMember m := by
      rintro ⟨key, w⟩
      by_cases hkey : key = "paths" <;> simp [tidyMember, hkey, tidyItems_tidy]
    simp only [tidyPaths_obj, List.map_map, Function.comp_def, hmember]
  | null | bool _ | num _ | str _ | arr _ => rfl

/-! ## The same operations -/

namespace Extract

section Sections

variable {d d' : Description} (h : ∀ part, sectionOf d part = sectionOf d' part)

include h

theorem followFrom_congr (part owner : String) : ∀ (fuel : Nat) (visited : List String) (raw : Json),
    followFrom d part owner fuel visited raw = followFrom d' part owner fuel visited raw
  | 0, _, _ => rfl
  | fuel + 1, visited, raw => by
    unfold followFrom
    simp only [h, followFrom_congr part owner fuel]

theorem follow_congr : follow d = follow d' := by
  funext part owner raw
  unfold follow
  simp only [h, followFrom_congr h]

theorem addParameters_congr (owner : String) : ∀ (raws : List Json) (params : List RawParameter),
    addParameters d owner raws params = addParameters d' owner raws params
  | [], _ => rfl
  | raw :: raws, params => by
    unfold addParameters parameter
    rw [follow_congr h]
    exact bind_congr fun p => addParameters_congr owner raws _

theorem addParameterList_congr : addParameterList d = addParameterList d' := by
  funext owner raw params
  unfold addParameterList
  split
  · rfl
  · exact addParameters_congr h owner _ params
  · rfl

theorem requestBody_congr : requestBody d = requestBody d' := by
  funext owner raw
  cases raw with
  | none => rfl
  | some raw => simp only [requestBody, follow_congr h]

theorem headerList_congr (owner : String) (headers : Members) :
    headerList d owner headers = headerList d' owner headers := by
  induction headers with
  | nil => rfl
  | cons header rest ih =>
    unfold headerList
    rw [follow_congr h, ih]

theorem responseList_congr (owner : String) : ∀ (ms : Members) (acc : List RawResponse),
    responseList d owner ms acc = responseList d' owner ms acc
  | [], _ => rfl
  | (key, raw) :: rest, acc => by
    unfold responseList
    simp only [follow_congr h, headerList_congr h owner, responseList_congr owner rest]

theorem responses_congr : responses d = responses d' := by
  funext owner raw
  unfold responses
  simp only [responseList_congr h owner]

/-- An operation is read the same where the reusable parts are the same. -/
theorem operation_congr {item item' : Members} (hitem : item.get? "parameters" = item'.get? "parameters")
    (route : Route.Template) (members : Members) (method id : String) :
    operation d route item members method id = operation d' route item' members method id := by
  unfold operation
  simp only [hitem, addParameterList_congr h, requestBody_congr h, responses_congr h]

end Sections

/-- A path item may have an operation under every method. -/
theorem isPathItemKey_of_method {key method : String} (h : method? key = some method) : isPathItemKey key = true := by
  unfold method? at h
  split at h
  · rename_i hverb
    have hsub : ∀ verb ∈ verbs, verb ∈ ["summary", "description", "servers", "parameters", "$ref", "get", "post", "put",
        "delete", "patch", "options", "head", "trace"] := by decide
    have hkey := hsub _ (List.contains_iff_mem.1 hverb)
    rw [isPathItemKey, List.contains_iff_mem.2 hkey, Bool.true_or]
  · cases h

/-- A member that a path item may have stands in the tidy path item, too. -/
theorem keeps_member {key : String} (h : isPathItemKey key = true) :
    (fun m : String × Json => isPathItemKey m.1 && m.1 == key) = fun m => m.1 == key := by
  funext m
  by_cases hm : m.1 = key
  · simp [hm, h]
  · simp [hm]

theorem get?_tidyItem (item : Members) {key : String} (h : isPathItemKey key = true) :
    Members.get? (item.filter fun m => isPathItemKey m.1) key = Members.get? item key := by
  simp only [Members.get?, List.find?_filter, Bool.decide_and, Bool.decide_eq_true, keeps_member h]

theorem has_tidyItem (item : Members) {key : String} (h : isPathItemKey key = true) :
    Members.has (item.filter fun m => isPathItemKey m.1) key = Members.has item key := by
  rw [Members.has, List.any_filter, keeps_member h, Members.has]

/-- The operations of a tidy path item are those of the path item. -/
theorem itemOperations_tidy {d d' : Description} (h : ∀ part, sectionOf d part = sectionOf d' part)
    (route : Route.Template) (item : Members) : ∀ (entries : Members) (ops : List RawOperation),
      itemOperations d route (item.filter fun m => isPathItemKey m.1) (entries.filter fun m => isPathItemKey m.1) ops =
        itemOperations d' route item entries ops
  | [], _ => rfl
  | (key, v) :: entries, ops => by
    have hparameters := get?_tidyItem item (show isPathItemKey "parameters" = true by decide +kernel)
    cases hkey : isPathItemKey key with
    | false =>
      have hmethod : method? key = none := Option.eq_none_iff_forall_ne_some.2 fun method hm => by
        rw [isPathItemKey_of_method hm] at hkey
        cases hkey
      rw [List.filter_cons_of_neg (by simp [hkey]), itemOperations_tidy h route item entries ops]
      cases v <;> simp only [itemOperations, hmethod]
    | true =>
      rw [List.filter_cons_of_pos (by simpa using hkey)]
      unfold itemOperations
      simp only [operation_congr h hparameters, itemOperations_tidy h route item entries]

/-- The operations of tidy path items are those of the path items. -/
theorem pathOperations_tidy {d d' : Description} (h : ∀ part, sectionOf d part = sectionOf d' part) :
    ∀ (entries : Members) (ops : List RawOperation),
      pathOperations d (entries.map fun i => (i.1, tidyPathItem i.2)) ops = pathOperations d' entries ops
  | [], _ => rfl
  | (path, v) :: entries, ops => by
    rw [List.map_cons]
    cases v with
    | obj item =>
      have hreference := has_tidyItem item (show isPathItemKey "$ref" = true by decide +kernel)
      rw [tidyPathItem, pathOperations, pathOperations]
      simp only [hreference, itemOperations_tidy h, pathOperations_tidy h entries]
    | null | bool _ | num _ | str _ | arr _ => exact pathOperations_tidy h entries ops

end Extract

/-- The description with another document. -/
def Description.withDocument (d : Description) (document : Json) : Description := { d with document }

section Same

variable (d : Description)

theorem sectionOf_tidy (part : String) :
    Extract.sectionOf (d.withDocument (tidyPaths d.document)) part = Extract.sectionOf d part := by
  unfold Extract.sectionOf Description.withDocument
  rw [get?_tidyPaths_of_ne (by decide)]

/-- The same operations are collected from a tidy document, with the same notes. -/
theorem operationsOf_tidy : operationsOf (d.withDocument (tidyPaths d.document)) = operationsOf d := by
  have hpaths : (d.withDocument (tidyPaths d.document)).paths?.getD [] =
      (d.paths?.getD []).map fun i => (i.1, tidyPathItem i.2) := by
    unfold Description.paths? Description.withDocument
    rw [get?_tidyPaths]
    cases d.document.get? "paths" with
    | none => rfl
    | some paths => cases paths <;> rfl
  rw [operationsOf, operationsOf, hpaths, Extract.pathOperations_tidy (sectionOf_tidy d)]

/-! ## The same schemas -/

theorem schemasOf_tidy (v : Json) : Description.schemasOf (tidyPaths v) = Description.schemasOf v := by
  unfold Description.schemasOf
  rw [get?_tidyPaths_of_ne (by decide)]

theorem membersDepth_map_le {f : String × Json → String × Json} (h : ∀ m, (f m).2.depth ≤ m.2.depth) :
    ∀ ms : Members, membersDepth (ms.map f) ≤ membersDepth ms
  | [] => Nat.le_refl _
  | m :: ms => by
    have ih := membersDepth_map_le h ms
    have hm := h m
    rw [List.map_cons, membersDepth, membersDepth]
    omega

theorem membersDepth_filter_le (p : String × Json → Bool) : ∀ ms : Members, membersDepth (ms.filter p) ≤ membersDepth ms
  | [] => Nat.le_refl _
  | m :: ms => by
    have ih := membersDepth_filter_le p ms
    rw [membersDepth]
    by_cases hm : p m = true
    · rw [List.filter_cons_of_pos hm, membersDepth]
      omega
    · rw [List.filter_cons_of_neg hm]
      omega

theorem depth_tidyItems (v : Json) : (tidyItems v).depth ≤ v.depth := by
  have hitem : ∀ v : Json, (tidyPathItem v).depth ≤ v.depth := by
    intro v
    cases v with
    | obj ms =>
      rw [tidyPathItem, depth_obj, depth_obj]
      exact Nat.succ_le_succ (membersDepth_filter_le _ ms)
    | null | bool _ | num _ | str _ | arr _ => exact Nat.le_refl _
  cases v with
  | obj items =>
    rw [tidyItems, depth_obj, depth_obj]
    exact Nat.succ_le_succ (membersDepth_map_le (fun i => hitem i.2) items)
  | null | bool _ | num _ | str _ | arr _ => exact Nat.le_refl _

/-- A tidy document is no deeper. -/
theorem depth_tidyPaths (v : Json) : (tidyPaths v).depth ≤ v.depth := by
  have hmember : ∀ m, (tidyMember m).2.depth ≤ m.2.depth := by
    intro m
    unfold tidyMember
    split
    · exact depth_tidyItems m.2
    · exact Nat.le_refl _
  cases v with
  | obj ms =>
    rw [tidyPaths_obj, depth_obj, depth_obj]
    exact Nat.succ_le_succ (membersDepth_map_le hmember ms)
  | null | bool _ | num _ | str _ | arr _ => exact Nat.le_refl _

/-- **A tidy document has the same named schemas**, and is no deeper. -/
theorem trims_tidy (presence : Presence) :
    Schema.Env.Trims ⟨d, presence⟩ ⟨d.withDocument (tidyPaths d.document), presence⟩ := by
  have hroots : Schema.Env.rootKeys ⟨d, presence⟩ =
      Schema.Env.rootKeys ⟨d.withDocument (tidyPaths d.document), presence⟩ := by
    unfold Schema.Env.rootKeys Description.schemas? Description.withDocument
    rw [schemasOf_tidy]
  refine ⟨⟨fun k => ?_, rfl, fun name => by rw [hroots]⟩, hroots, ?_, ?_⟩
  · obtain ⟨doc, name⟩ := k
    cases doc with
    | none =>
      unfold Schema.Env.rawSchema? Description.documentFor? Description.withDocument
      rw [Option.bind_some, Option.bind_some, schemasOf_tidy]
    | some path => rfl
  · unfold Schema.Env.keyCount Description.withDocument
    dsimp only
    rw [schemasOf_tidy]
  · have hstart : ∀ (ns : List Nat) {a b : Nat}, a ≤ b → ns.foldl max a ≤ ns.foldl max b := by
      intro ns
      induction ns with
      | nil => exact fun h => h
      | cons n ns ih => exact fun h => ih (by omega)
    exact hstart _ (depth_tidyPaths d.document)

end Same

/-! ## The same compilation -/

namespace Schema

variable {env env' : Env} (h : env.Trims env')

include h

theorem Env.Trims.resolveResponses_eq (base owner : String) : ∀ rs : List RawResponse,
    RawOperation.resolveResponses env base owner rs = RawOperation.resolveResponses env' base owner rs
  | [] => rfl
  | r :: rs => by
    unfold RawOperation.resolveResponses RawOperation.resolveResponse RawOperation.resolvePayload
      RawOperation.resolveHeaders
    rw [h.resolveInline_eq, h.synthesizeObject_eq, Env.Trims.resolveResponses_eq base owner rs]

/-- An operation is resolved the same. -/
theorem Env.Trims.resolve_eq : RawOperation.resolve env = RawOperation.resolve env' := by
  have hpart : RawOperation.resolvePart env = RawOperation.resolvePart env' := by
    funext op base owner location
    unfold RawOperation.resolvePart
    rw [h.synthesizeObject_eq, h.alike.presence]
  have hbody : RawOperation.resolveBody env = RawOperation.resolveBody env' := by
    funext base owner body
    cases body with
    | none => rfl
    | some body => rw [RawOperation.resolveBody, RawOperation.resolveBody, h.resolveInline_eq]
  funext op
  unfold RawOperation.resolve
  simp only [hpart, hbody, h.resolveResponses_eq]

theorem Env.Trims.compileOperations_eq (root : String) : ∀ (raws : List RawOperation) (p : Compilation.Progress),
    Compilation.compileOperations env root raws p = Compilation.compileOperations env' root raws p
  | [], _ => rfl
  | raw :: raws, p => by
    unfold Compilation.compileOperations Compilation.compileOperation
    rw [h.resolve_eq, h.alike.presence]
    exact bind_congr fun p' => Env.Trims.compileOperations_eq root raws p'

end Schema

theorem compile_tidy (config : Config) (d : Description) :
    compile config (d.withDocument (tidyPaths d.document)) = compile config d := by
  have h := trims_tidy d config.presence
  have hassemble : Compilation.assemble ⟨d.withDocument (tidyPaths d.document), config.presence⟩ config.importRoot =
      Compilation.assemble ⟨d, config.presence⟩ config.importRoot := by
    funext ops
    unfold Compilation.assemble
    rw [h.resolveComponents_eq]
    simp only [h.compileOperations_eq]
    rfl
  unfold compile
  rw [operationsOf_tidy]
  simp only [hassemble, h.initial_eq]
  rfl

/-- **Members that path items may not have are under no method, and nothing refers to them.** A tidy document stays as
it is when it is tidied again. Whatever else is in a description, with a document or with the tidy document in its
place the same operations are collected, in the same order and with the same notes, or the same error ends the
collection; and a compilation gives the same result or the same error. -/
theorem tidyPaths_harmless (document : Json) :
    tidyPaths (tidyPaths document) = tidyPaths document ∧
    ∀ (d : Description) (notes : List Diagnostic),
      (operationsOf (d.withDocument (tidyPaths document))).run notes =
        (operationsOf (d.withDocument document)).run notes ∧
      ∀ config, compile config (d.withDocument (tidyPaths document)) = compile config (d.withDocument document) := by
  refine ⟨tidyPaths_tidy document, fun d notes => ⟨?_, fun config => ?_⟩⟩
  · exact congrArg (EStateM.run · notes) (operationsOf_tidy (d.withDocument document))
  · exact compile_tidy config (d.withDocument document)

end ApiForge
