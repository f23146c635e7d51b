import ApiForge.Proofs.Operation.Provenance

/-!
# Path parameters and placeholders

Whatever parameters are declared, the path parameters of an operation are the placeholders of its template: what is not
a placeholder is dropped, what is not declared is made up, and a later declaration replaces an earlier one.

* `PathSound`: path parameters have distinct names and are required. Every step of the collection keeps this.
* `reconcile_agrees`: in the end the names are those of the placeholders.
* `Operation.PathAgrees`: the same of the record of the path parameters; `pathAgrees_of_compile` proves it of every
  operation of a compilation.
-/

namespace ApiForge

open Schema

/-- The names of the path parameters, in order of declaration. -/
def pathNames (params : List RawParameter) : List String := (params.filter (·.location == .path)).map (·.name)

/-- Path parameters have distinct names and are required. -/
structure PathSound (params : List RawParameter) : Prop where
  distinct : (pathNames params).Nodup
  required : ∀ p ∈ params, p.location = .path → p.required = true

section Names

variable {params : List RawParameter} {p : RawParameter} {name : String}

theorem mem_pathNames : name ∈ pathNames params ↔ ∃ p ∈ params, p.location = .path ∧ p.name = name := by
  simp only [pathNames, List.mem_map, List.mem_filter, beq_iff_eq, and_assoc]

theorem pathNames_append (params params' : List RawParameter) :
    pathNames (params ++ params') = pathNames params ++ pathNames params' := by
  simp only [pathNames, List.filter_append, List.map_append]

theorem pathNames_singleton (hp : p.location = .path) : pathNames [p] = [p.name] := by simp [pathNames, hp]

theorem pathNames_singleton_of_ne (hp : p.location ≠ .path) : pathNames [p] = [] := by simp [pathNames, hp]

/-- Names and locations alone decide about the names of the path parameters. -/
theorem pathNames_map {f : RawParameter → RawParameter} (hname : ∀ q, (f q).name = q.name)
    (hlocation : ∀ q, (f q).location = q.location) (params : List RawParameter) :
    pathNames (params.map f) = pathNames params := by
  simp only [pathNames, List.filter_map, List.map_map, Function.comp_def, hname, hlocation]

theorem PathSound.nil : PathSound [] := ⟨List.nodup_nil, fun _ h => by cases h⟩

theorem PathSound.sublist {params' : List RawParameter} (h : PathSound params) (hsub : params'.Sublist params) :
    PathSound params' where
  distinct := h.distinct.sublist ((hsub.filter _).map _)
  required q hq := h.required q (hsub.subset hq)

/-- A parameter whose name is not taken can be added. -/
theorem PathSound.append (h : PathSound params)
    (hp : p.location = .path → p.required = true ∧ p.name ∉ pathNames params) : PathSound (params ++ [p]) where
  distinct := by
    rw [pathNames_append]
    by_cases hpath : p.location = .path
    · rw [pathNames_singleton hpath]
      refine List.nodup_append.2 ⟨h.distinct, List.pairwise_singleton _ _, fun name hname name' hname' heq => ?_⟩
      rw [heq, List.mem_singleton.1 hname'] at hname
      exact (hp hpath).2 hname
    · rw [pathNames_singleton_of_ne hpath, List.append_nil]
      exact h.distinct
  required q hq hpath := by
    rcases List.mem_append.1 hq with hq | hq
    · exact h.required q hq hpath
    · rw [List.mem_singleton.1 hq] at hpath ⊢
      exact (hp hpath).1

end Names

/-! ## Collecting parameters -/

namespace Extract

variable {d : Description} {params : List RawParameter}

theorem parameter_required (owner : String) (raw : Json) (notes : List Diagnostic) :
    Ends (parameter d owner raw) notes (fun p _ => p.location = .path → p.required = true) fun _ _ => True := by
  refine (Ends.trivial _ _).bind fun ms _ _ => ?_
  split
  · trivial
  · split
    · trivial
    · refine ends_pure.2 fun hpath => ?_
      dsimp only at hpath
      simp only [hpath, beq_self_eq_true, Bool.true_or]

/-- A parameter that is merged in replaces the one that it repeats, or is new. -/
theorem mergeParameter_pathSound (h : PathSound params) {p : RawParameter}
    (hp : p.location = .path → p.required = true) : PathSound (mergeParameter params p) := by
  unfold mergeParameter
  split
  · refine ⟨?_, fun q hq hpath => ?_⟩
    · rw [pathNames_map (fun q => by grind) (fun q => by grind)]
      exact h.distinct
    · obtain ⟨q', hq', rfl⟩ := List.mem_map.1 hq
      split
      · rename_i hsame
        rw [if_pos hsame] at hpath
        exact hp hpath
      · rename_i hother
        rw [if_neg hother] at hpath
        exact h.required q' hq' hpath
  · rename_i hnew
    refine h.append fun hpath => ⟨hp hpath, fun hname => hnew ?_⟩
    obtain ⟨q, hq, hqpath, hqname⟩ := mem_pathNames.1 hname
    exact List.any_eq_true.2 ⟨q, hq, by simp [hqname, hqpath, hpath]⟩

theorem addParameters_pathSound (owner : String) : ∀ (raws : List Json) (params : List RawParameter)
    (notes : List Diagnostic), PathSound params →
      Ends (addParameters d owner raws params) notes (fun ps _ => PathSound ps) fun _ _ => True
  | [], _, _, h => ends_pure.2 h
  | raw :: raws, _, notes, h =>
    (parameter_required owner raw notes).bind fun _ _ hp =>
      addParameters_pathSound owner raws _ _ (mergeParameter_pathSound h hp)

theorem addParameterList_pathSound (owner : String) (raw : Option Json) (h : PathSound params)
    (notes : List Diagnostic) :
    Ends (addParameterList d owner raw params) notes (fun ps _ => PathSound ps) fun _ _ => True := by
  unfold addParameterList
  split
  · exact ends_pure.2 h
  · exact addParameters_pathSound owner _ params notes h
  · trivial

/-! ## Agreeing with the placeholders -/

/-- Dropping unused path parameters keeps the parameters of other locations and the placeholders. -/
theorem dropUnused_eq_filter (route : Route.Template) (owner : String) : ∀ (params : List RawParameter)
    (notes : List Diagnostic), Ends (dropUnused route owner params) notes (fun kept _ =>
      kept = params.filter fun p => p.location != .path || route.paramNames.contains p.name) fun _ _ => True
  | [], _ => ends_pure.2 rfl
  | p :: ps, notes => by
    unfold dropUnused
    split
    · rename_i hkeep
      refine (dropUnused_eq_filter route owner ps notes).bind fun kept _ hkept => ends_pure.2 ?_
      rw [hkept, List.filter_cons, if_pos hkeep]
    · rename_i hdrop
      refine (Ends.trivial _ _).bind fun _ _ _ => ?_
      rw [List.filter_cons, if_neg hdrop]
      exact dropUnused_eq_filter route owner ps _

/-- Every name gets a path parameter, and nothing else is added. -/
theorem addUndeclared_names (route : Route.Template) (owner : String) : ∀ (names : List String)
    (params : List RawParameter) (notes : List Diagnostic), PathSound params →
      Ends (addUndeclared route owner names params) notes (fun ps _ =>
        PathSound ps ∧ ∀ name, name ∈ pathNames ps ↔ name ∈ pathNames params ∨ name ∈ names) fun _ _ => True
  | [], params, _, h => ends_pure.2 ⟨h, fun name => by simp⟩
  | n :: names, params, notes, h => by
    unfold addUndeclared
    split
    · rename_i hdeclared
      obtain ⟨q, hq, hn⟩ := List.any_eq_true.1 hdeclared
      have hmem : n ∈ pathNames params := mem_pathNames.2 ⟨q, hq, by simpa using hn⟩
      refine (addUndeclared_names route owner names params notes h).mono (fun ps _ hps => ⟨hps.1, fun name => ?_⟩)
        fun _ _ h => h
      rw [hps.2, List.mem_cons]
      grind
    · rename_i hundeclared
      have hnew : n ∉ pathNames params := fun hmem => hundeclared <| by
        obtain ⟨q, hq, hpath, hname⟩ := mem_pathNames.1 hmem
        exact List.any_eq_true.2 ⟨q, hq, by simp [hpath, hname]⟩
      refine (Ends.trivial _ _).bind fun _ _ _ => ?_
      refine (addUndeclared_names route owner names _ _ (h.append fun _ => ⟨rfl, hnew⟩)).mono
        (fun ps _ hps => ⟨hps.1, fun name => ?_⟩) fun _ _ h => h
      rw [hps.2, pathNames_append, pathNames_singleton rfl]
      rw [List.mem_append, List.mem_singleton, List.mem_cons, or_assoc]

/-- After reconciliation, the path parameters are the placeholders. -/
theorem reconcile_agrees (route : Route.Template) (owner : String) (h : PathSound params) (notes : List Diagnostic) :
    Ends (reconcile route owner params) notes (fun ps _ =>
      PathSound ps ∧ ∀ name, name ∈ pathNames ps ↔ name ∈ route.paramNames) fun _ _ => True := by
  refine (dropUnused_eq_filter route owner params notes).bind fun kept _ hkept => ?_
  have hsound : PathSound kept := by
    rw [hkept]
    exact h.sublist List.filter_sublist
  have hused : ∀ name ∈ pathNames kept, name ∈ route.paramNames := by
    intro name hname
    obtain ⟨p, hp, hpath, rfl⟩ := mem_pathNames.1 hname
    rw [hkept] at hp
    simpa [hpath] using (List.mem_filter.1 hp).2
  refine (addUndeclared_names route owner route.paramNames kept _ hsound).mono
    (fun ps _ hps => ⟨hps.1, fun name => ?_⟩) fun _ _ h => h
  rw [hps.2]
  exact or_iff_right_of_imp (hused name)

end Extract

/-! ## Operations -/

/-- The path parameters that are collected for an operation are the placeholders of its template. -/
structure RawOperation.PathAgrees (raw : RawOperation) : Prop where
  sound : PathSound raw.parameters
  names : ∀ name, name ∈ pathNames raw.parameters ↔ name ∈ raw.route.paramNames

theorem Extract.operation_pathAgrees {d : Description} (route : Route.Template) : Gives d route (·.PathAgrees) := by
  intro item members method id notes
  refine (addParameterList_pathSound _ _ .nil _).bind fun shared _ hshared => ?_
  refine (addParameterList_pathSound _ _ hshared _).bind fun merged _ hmerged => ?_
  refine (reconcile_agrees route _ hmerged _).bind fun params _ hparams => ?_
  refine (Ends.trivial _ _).bind fun _ _ _ => ?_
  exact (Ends.trivial _ _).bind fun _ _ _ => ends_pure.2 ⟨hparams.1, hparams.2⟩

/-- **The path parameters of an operation are the placeholders of its template**: there is no record of them exactly
without placeholders, and otherwise its keys are the names of the placeholders, each once, all of them required. -/
structure Operation.PathAgrees (op : Operation) : Prop where
  none_iff : op.request.path = none ↔ op.route.paramNames = []
  distinct : ∀ node, op.request.path = some node → (node.fields.map (·.wireKey)).Nodup
  names : ∀ node, op.request.path = some node → ∀ name,
    name ∈ node.fields.map (·.wireKey) ↔ name ∈ op.route.paramNames
  required : ∀ node, op.request.path = some node → ∀ f ∈ node.fields, f.required = true

theorem RawOperation.Resolved.pathAgrees {raw : RawOperation} {op : Operation} (h : raw.Resolved op)
    (hraw : raw.PathAgrees) : op.PathAgrees := by
  have hkeys : (raw.membersIn .path).map (·.key) = pathNames raw.parameters := by
    simp only [membersIn, parametersIn, pathNames, List.map_map, Function.comp_def]
  have hnil : raw.membersIn .path = [] ↔ op.route.paramNames = [] := by
    rw [← List.map_eq_nil_iff (f := (·.key)), hkeys, h.route, List.eq_nil_iff_forall_not_mem,
      List.eq_nil_iff_forall_not_mem]
    simp only [hraw.names]
  have hpart := h.part .path
  have hfields : ∀ node, op.request.path = some node →
      node.fields.map Field.demand = (raw.membersIn .path).map fun m => (m.key, m.required) := by
    intro node hnode
    rw [show op.request.part? .path = some node from hnode] at hpart
    exact hpart.2
  have hwire : ∀ node, op.request.path = some node → node.fields.map (·.wireKey) = pathNames raw.parameters := by
    intro node hnode
    have := congrArg (List.map Prod.fst) (hfields node hnode)
    simpa only [List.map_map, Function.comp_def, Field.demand, hkeys] using this
  refine ⟨?_, fun node hnode => ?_, fun node hnode name => ?_, fun node hnode f hf => ?_⟩
  · rw [← hnil]
    cases hpath : op.request.path with
    | none =>
      rw [show op.request.part? .path = none from hpath] at hpart
      exact iff_of_true rfl hpart
    | some node =>
      rw [show op.request.part? .path = some node from hpath] at hpart
      exact iff_of_false (by simp) hpart.1
  · rw [hwire node hnode]
    exact hraw.sound.distinct
  · rw [hwire node hnode, h.route]
    exact hraw.names name
  · have hmem : f.demand ∈ (raw.membersIn .path).map fun m => (m.key, m.required) := by
      rw [← hfields node hnode]
      exact List.mem_map_of_mem hf
    obtain ⟨m, hm, hdemand⟩ := List.mem_map.1 hmem
    obtain ⟨p, hp, rfl⟩ := List.mem_map.1 hm
    obtain ⟨hp, hpath⟩ := List.mem_filter.1 hp
    rw [← show p.required = f.required from congrArg Prod.snd hdemand]
    exact hraw.sound.required p hp (by simpa using hpath)

theorem pathAgrees_of_compile {config : Config} {d : Description} {c : Compilation} (hc : compile config d = .ok c)
    {op : Operation} (hop : op ∈ c.operations) : op.PathAgrees := by
  obtain ⟨raw, hresolved, hraw⟩ := compile_forall hc (fun _ route _ => Extract.operation_pathAgrees route) hop
  exact hresolved.pathAgrees hraw

end ApiForge
