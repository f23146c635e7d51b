import ApiForge.Operation.Extract
import ApiForge.Proofs.Route.Template
import ApiForge.Proofs.Run

/-!
# The operations that a description declares

The operations of a description stand under the methods of its path items. They are collected in document order, each in
one step that gives it an identity, checks that the identity is new, and reads the operation.

* `Description.declared`: the declared operations.
* `Extract.collect`: the step for one of them.
* `Extract.Kept`: what the collection keeps from one declared operation to the next. It holds of all of them in the end
  (`Extract.Kept.operationsOf`).
* `Extract.Reads`: what all parts of an operation have in common: reading them fails on what is written there, and what
  is noted is about this operation. The step fails for a repeated identity only where it checks the identity.
-/

namespace ApiForge

/-! ## Declared operations -/

/-- An operation as it is declared: the members of an object under a method of a path item. -/
structure Declared where
  path : String
  item : Json.Members
  method : String
  members : Json.Members

namespace Extract

/-- The operation that an entry of a path item declares. -/
def declared? (path : String) (item : Json.Members) : String × Json → Option Declared
  | (key, .obj members) => (method? key).map fun method => ⟨path, item, method, members⟩
  | _ => none

/-- The operations that a path item declares; one that is a reference declares none. -/
def declaredAt : String × Json → List Declared
  | (path, .obj item) => if Json.Members.has item "$ref" then [] else item.filterMap (declared? path item)
  | _ => []

end Extract

namespace Description

/-- The operations that a description declares, in document order. -/
def declared (d : Description) : List Declared := ((d.paths?).getD []).flatMap Extract.declaredAt

/-- The paths of a description are templates, except for those of path items that are references. -/
def Templated (d : Description) : Prop :=
  ∀ path item, (path, Json.obj item) ∈ (d.paths?).getD [] → Json.Members.has item "$ref" = false →
    ∃ route, Route.Template.parse path = .ok route

end Description

namespace Extract

variable {d : Description} {route : Route.Template}

/-- Collects one declared operation. -/
def collect (d : Description) (route : Route.Template) (o : Declared) (ops : List RawOperation) :
    Extract (List RawOperation) := do
  let id ← operationId o.members o.method route.raw
  if ops.any (·.operationId == id) then throw (.duplicateOperation id)
  let op ← operation d route o.item o.members o.method id
  return ops ++ [op]

theorem itemOperations_cons {path : String} {item : Json.Members} {entry : String × Json} {o : Declared}
    (h : declared? path item entry = some o) (rest : Json.Members) (ops : List RawOperation) :
    itemOperations d route item (entry :: rest) ops = collect d route o ops >>= itemOperations d route item rest := by
  obtain ⟨key, v⟩ := entry
  cases v with
  | obj members =>
    obtain ⟨method, hmethod, rfl⟩ := Option.map_eq_some_iff.1 h
    rw [itemOperations.eq_def, collect]
    simp only [hmethod, bind_assoc]
    refine bind_congr fun id => ?_
    split
    · rfl
    · simp only [pure_bind, bind_assoc]
  | null => cases h
  | bool _ => cases h
  | num _ => cases h
  | str _ => cases h
  | arr _ => cases h

theorem itemOperations_skip {path : String} {item : Json.Members} {entry : String × Json}
    (h : declared? path item entry = none) (rest : Json.Members) (ops : List RawOperation) :
    itemOperations d route item (entry :: rest) ops = itemOperations d route item rest ops := by
  obtain ⟨key, v⟩ := entry
  cases v with
  | obj members =>
    have hmethod : method? key = none := Option.map_eq_none_iff.1 h
    rw [itemOperations.eq_def]
    simp only [hmethod]
  | null | bool _ | num _ | str _ | arr _ => cases hmethod : method? key <;> simp only [itemOperations, hmethod]

/-! ## What the collection keeps -/

/-- What is kept while operations are collected: `I done ops notes` holds once the declared operations `done` have given
`ops`, and `fail` holds of the error that ends the collection. -/
structure Kept (d : Description) (I : List Declared → List RawOperation → List Diagnostic → Prop)
    (fail : CompileError → Prop) : Prop where
  skipped : ∀ {done ops notes} {path : String}, I done ops notes → I done ops
    (notes ++ [.warn s!"path:{path}" "path_item_ref" "path item references are not followed; skipped"])
  untemplated : ∀ {path item e}, (path, Json.obj item) ∈ (d.paths?).getD [] → Json.Members.has item "$ref" = false →
    Route.Template.parse path = .error e → fail e
  collected : ∀ {done o rest ops notes route}, d.declared = done ++ o :: rest →
    Route.Template.parse o.path = .ok route → I done ops notes →
      Ends (collect d route o ops) notes (I (done ++ [o])) fun e _ => fail e

section Kept

variable {I : List Declared → List RawOperation → List Diagnostic → Prop} {fail : CompileError → Prop}

theorem Kept.itemOperations (h : Kept d I fail) {path : String} (hroute : Route.Template.parse path = .ok route)
    {item : Json.Members} : ∀ (entries : Json.Members) (done rest : List Declared) {ops : List RawOperation}
      {notes : List Diagnostic}, d.declared = done ++ (entries.filterMap (declared? path item) ++ rest) →
        I done ops notes → Ends (itemOperations d route item entries ops) notes
          (I (done ++ entries.filterMap (declared? path item))) fun e _ => fail e
  | [], _, _, _, _, _, hI => by rwa [List.filterMap_nil, List.append_nil]
  | entry :: entries, done, rest, ops, notes, hall, hI => by
    cases ho : declared? path item entry with
    | none =>
      rw [List.filterMap_cons_none ho] at hall ⊢
      rw [itemOperations_skip ho]
      exact h.itemOperations hroute entries done rest hall hI
    | some o =>
      have hpath : o.path = path := by
        obtain ⟨key, v⟩ := entry
        cases v <;> simp only [declared?, Option.map_eq_some_iff, reduceCtorEq] at ho
        obtain ⟨_, _, rfl⟩ := ho
        rfl
      rw [List.filterMap_cons_some ho] at hall ⊢
      rw [itemOperations_cons ho, List.append_cons]
      refine (h.collected hall (hpath ▸ hroute) hI).bind fun ops' notes' hI' => ?_
      exact h.itemOperations hroute entries _ rest (by rw [hall, List.cons_append, ← List.append_cons]) hI'

theorem Kept.pathOperations (h : Kept d I fail) : ∀ (entries : Json.Members) (done : List Declared)
    {ops : List RawOperation} {notes : List Diagnostic}, entries ⊆ (d.paths?).getD [] →
      d.declared = done ++ entries.flatMap declaredAt → I done ops notes →
        Ends (pathOperations d entries ops) notes (I d.declared) fun e _ => fail e
  | [], done, ops, notes, _, hall, hI => by
    rw [hall, List.flatMap_nil, List.append_nil]
    exact ends_pure.2 hI
  | (path, v) :: entries, done, ops, notes, hsub, hall, hI => by
    obtain ⟨hmem, hrest⟩ := List.cons_subset.1 hsub
    rw [List.flatMap_cons] at hall
    cases v with
    | obj item =>
      rw [declaredAt] at hall
      unfold Extract.pathOperations
      split
      · rename_i href
        rw [if_pos href] at hall
        exact ends_bind.2 (h.pathOperations entries _ hrest hall (h.skipped hI))
      · rename_i href
        rw [if_neg href] at hall
        split
        · rename_i e hparse
          exact h.untemplated hmem (by simpa using href) hparse
        · rename_i route hparse
          refine (h.itemOperations hparse item done _ hall hI).bind fun ops' notes' hI' => ?_
          exact h.pathOperations entries _ hrest (by rw [hall, List.append_assoc]) hI'
    | null | bool _ | num _ | str _ | arr _ => exact h.pathOperations entries _ hrest hall hI

/-- **What is kept from one declared operation to the next** holds after all of them. -/
theorem Kept.operationsOf (h : Kept d I fail) {notes : List Diagnostic} (hI : I [] [] notes) :
    Ends (operationsOf d) notes (I d.declared) fun e _ => fail e :=
  h.pathOperations _ [] (List.Subset.refl _) rfl hI

end Kept

/-! ## Reading an operation -/

/-- What all parts of an operation have in common: reading them fails for no identity that is repeated, and everything
that is noted is among `W`. -/
def Reads {α : Type} (W : Diagnostic → Prop) (m : Extract α) : Prop :=
  ∀ notes, Ends m notes (fun _ notes' => ∃ new, notes' = notes ++ new ∧ ∀ n ∈ new, W n)
    fun e _ => ∀ id, e ≠ .duplicateOperation id

section Reads

variable {α β : Type} {W : Diagnostic → Prop}

theorem Reads.pure (a : α) : Reads W (pure a) := fun notes => ends_pure.2 ⟨[], by simp⟩

theorem Reads.throw {e : CompileError} (h : ∀ id, e ≠ .duplicateOperation id) :
    Reads W (throw e : Extract α) := fun _ => ends_throw.2 h

theorem Reads.bind {m : Extract α} {f : α → Extract β} (hm : Reads W m) (hf : ∀ a, Reads W (f a)) :
    Reads W (m >>= f) := fun notes =>
  (hm notes).bind fun a _ ⟨new, hnotes, hnew⟩ => (hf a _).mono (fun _ _ ⟨new', hnotes', hnew'⟩ =>
    ⟨new ++ new', by rw [hnotes', hnotes, List.append_assoc], List.forall_mem_append.2 ⟨hnew, hnew'⟩⟩) fun _ _ h => h

theorem Reads.warn {location kind message : String} (h : W (.warn location kind message)) :
    Reads W (warn location kind message) := fun _ => ends_modify.2 ⟨[_], rfl, by simpa using h⟩

theorem unsupported_reads (owner detail : String) : Reads W (unsupported owner detail : Extract α) :=
  .throw fun _ => nofun

theorem followFrom_error (d : Description) (part owner : String) : ∀ (fuel : Nat) (visited : List String) (raw : Json)
    {e : CompileError}, followFrom d part owner fuel visited raw = .error e → ∀ id, e ≠ .duplicateOperation id
  | 0, _, _, _, h => by
    cases h
    exact fun _ => nofun
  | fuel + 1, visited, raw, e, h => by
    rw [followFrom.eq_def] at h
    dsimp only at h
    split at h
    · split at h
      · cases h
      · split at h
        · cases h
          exact fun _ => nofun
        · split at h
          · cases h
            exact fun _ => nofun
          · split at h
            · cases h
              exact fun _ => nofun
            · exact followFrom_error d part owner fuel _ _ h
    · cases h
      exact fun _ => nofun

theorem follow_reads (part owner : String) (raw : Json) : Reads W (follow d part owner raw) := by
  unfold follow
  dsimp only
  split
  · exact .pure _
  · rename_i hfail
    exact .throw (followFrom_error d part owner _ _ _ hfail)

theorem parameter_reads (owner : String) (raw : Json) : Reads W (parameter d owner raw) := by
  refine (follow_reads _ owner raw).bind fun ms => ?_
  split
  · exact unsupported_reads _ _
  · split
    · exact unsupported_reads _ _
    · exact .pure _

theorem addParameters_reads (owner : String) : ∀ (raws : List Json) (params : List RawParameter),
    Reads W (addParameters d owner raws params)
  | [], _ => .pure _
  | raw :: raws, _ => (parameter_reads owner raw).bind fun _ => addParameters_reads owner raws _

theorem addParameterList_reads (owner : String) (raw : Option Json) (params : List RawParameter) :
    Reads W (addParameterList d owner raw params) := by
  unfold addParameterList
  split
  · exact .pure _
  · exact addParameters_reads owner _ params
  · exact unsupported_reads _ _

theorem requestBody_reads (owner : String) : ∀ raw : Option Json, Reads W (requestBody d owner raw)
  | none => .pure _
  | some raw => (follow_reads _ owner raw).bind fun _ => .pure _

theorem headerList_reads (owner : String) : ∀ headers : Json.Members, Reads W (headerList d owner headers)
  | [] => .pure _
  | (name, raw) :: rest => by
    unfold headerList
    split
    · exact headerList_reads owner rest
    · exact (follow_reads _ owner raw).bind fun _ => (headerList_reads owner rest).bind fun _ => .pure _

variable {owner : String} (hW : ∀ kind message, kind ≠ "skipped_status" → W (.warn owner kind message))
include hW

theorem dropUnused_reads : ∀ params : List RawParameter, Reads W (dropUnused route owner params)
  | [] => .pure _
  | p :: ps => by
    unfold dropUnused
    split
    · exact (dropUnused_reads ps).bind fun _ => .pure _
    · exact (Reads.warn (hW _ _ (by decide))).bind fun _ => dropUnused_reads ps

theorem addUndeclared_reads : ∀ (names : List String) (params : List RawParameter),
    Reads W (addUndeclared route owner names params)
  | [], _ => .pure _
  | name :: names, params => by
    unfold addUndeclared
    dsimp only
    split
    · exact addUndeclared_reads names params
    · exact (Reads.warn (hW _ _ (by decide))).bind fun _ => addUndeclared_reads names _

theorem reconcile_reads (params : List RawParameter) : Reads W (reconcile route owner params) :=
  (dropUnused_reads hW params).bind fun _ => addUndeclared_reads hW _ _

omit hW
variable (hall : ∀ kind message, W (.warn owner kind message))
include hall

theorem responseList_reads : ∀ (ms : Json.Members) (acc : List RawResponse), Reads W (responseList d owner ms acc)
  | [], _ => .pure _
  | (key, raw) :: rest, acc => by
    unfold responseList
    split
    · exact (Reads.warn (hall _ _)).bind fun _ => responseList_reads rest acc
    · exact (follow_reads _ owner raw).bind fun _ => (headerList_reads owner _).bind fun _ => responseList_reads rest _

theorem responses_reads (raw : Option Json) : Reads W (responses d owner raw) := by
  unfold responses
  split
  · exact responseList_reads hall _ []
  · exact (Reads.warn (hall _ _)).bind fun _ => .pure _

end Reads

/-- An operation is read for what is written there, and what is noted is about it. -/
theorem operation_reads {W : Diagnostic → Prop} {id : String}
    (hall : ∀ kind message, W (.warn ("operation:" ++ id) kind message)) (item members : Json.Members)
    (method : String) : Reads W (operation d route item members method id) :=
  (addParameterList_reads _ _ _).bind fun _ => (addParameterList_reads _ _ _).bind fun _ =>
    (reconcile_reads (fun kind message _ => hall kind message) _).bind fun _ => (requestBody_reads _ _).bind fun _ =>
      (responses_reads hall _).bind fun _ => .pure _

end Extract

end ApiForge
