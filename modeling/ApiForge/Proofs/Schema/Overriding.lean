import ApiForge.Proofs.Schema.Composition

/-!
# The order of merged fields

A composition is collected in one walk over its pieces, from left to right and members before what the schema declares
itself. Every piece defines fields; a key that is defined again keeps its place, and its last definition counts.

* `Walk env build name c ps s defs s'`: the walk over some pieces, from one state to another, meets the definitions
  `defs`. A reference is resolved where the walk meets it and defines the fields of the record it leads to; a schema
  defines a field for each of its properties.
* `Overrides defs fields`: the fields that some definitions leave, in the order in which their keys are first defined.
* `mergeAllOf_walks`: collecting a composition is the walk over its pieces, by induction on the members.
* `build_overrides`: the record of every composition that is built has the fields that the walk leaves.
-/

namespace ApiForge.Schema

open Json Naming

/-! ## Definitions that override each other -/

section Lists

variable {α : Type} [BEq α] [LawfulBEq α]

/-- A last item is new or stands before. -/
theorem eraseDups_concat (l : List α) (a : α) :
    (l ++ [a]).eraseDups = if l.contains a then l.eraseDups else l.eraseDups ++ [a] := by
  rw [List.eraseDups_append, List.removeAll]
  by_cases ha : l.contains a = true
  · rw [if_pos ha, List.filter_cons_of_neg (by simpa using ha), List.filter_nil, List.eraseDups_nil, List.append_nil]
  · rw [if_neg ha, List.filter_cons_of_pos (by simpa using ha), List.filter_nil, List.eraseDups_cons,
      List.filter_nil, List.eraseDups_nil]

theorem nodup_eraseDups (l : List α) : l.eraseDups.Nodup := by
  induction l using List.reverseRecOn with
  | nil => simp
  | append_singleton l a ih =>
    rw [eraseDups_concat]
    split
    · exact ih
    · rename_i ha
      have hnew : a ∉ l.eraseDups := by simpa using ha
      exact List.nodup_append.2 ⟨ih, by simp, by simpa using fun b hb => ne_of_mem_of_not_mem hb hnew⟩

end Lists

/-- The fields that definitions leave: their keys are distinct and stand in the order in which they are first defined,
and each field has the type, with the constraints in it, and the description of the last definition of its key. -/
structure Overrides (defs fields : List Field) : Prop where
  order : fields.map (·.wireKey) = (defs.map (·.wireKey)).eraseDups
  distinct : (fields.map (·.wireKey)).Nodup
  last : ∀ f ∈ fields, ∃ d : Field, d.IsLast defs ∧ d.wireKey = f.wireKey ∧ d.type = f.type ∧
    d.description = f.description

/-- A field that is merged keeps the keys, or adds its own behind them. -/
theorem keys_mergeField (fields : List Field) (f : Field) : (mergeField fields f).map (·.wireKey) =
    if (fields.map (·.wireKey)).contains f.wireKey then fields.map (·.wireKey)
    else fields.map (·.wireKey) ++ [f.wireKey] := by
  have hany : fields.any (·.wireKey == f.wireKey) = (fields.map (·.wireKey)).contains f.wireKey := by
    rw [List.contains_eq_any_beq, List.any_map]
    exact List.any_congr rfl fun g => Bool.beq_comm
  unfold mergeField
  rw [hany]
  split
  · rw [List.map_map]
    refine List.map_congr_left fun g _ => ?_
    by_cases hkey : g.wireKey = f.wireKey
    · simp [hkey]
    · simp [hkey]
  · rw [List.map_append, List.map_singleton]

/-- Merged fields stand in the order in which their keys come first. -/
theorem keys_foldl_mergeField (fields : List Field) :
    (fields.foldl mergeField []).map (·.wireKey) = (fields.map (·.wireKey)).eraseDups := by
  induction fields using List.reverseRecOn with
  | nil => rfl
  | append_singleton fields f ih =>
    rw [List.foldl_append, List.foldl_cons, List.foldl_nil, keys_mergeField, ih, List.map_append, List.map_singleton,
      eraseDups_concat]
    have hsame : (fields.map (·.wireKey)).eraseDups.contains f.wireKey =
        (fields.map (·.wireKey)).contains f.wireKey := by
      rw [Bool.eq_iff_iff, List.contains_iff_mem, List.contains_iff_mem, List.mem_eraseDups]
    rw [hsame]

/-- A field with the key, type and description of another one. -/
def Field.Carries (f f' : Field) : Prop := f'.wireKey = f.wireKey ∧ f'.type = f.type ∧ f'.description = f.description

/-- Merged fields override each other, also when their presence is settled afterwards. -/
theorem overrides_merged {defs fields : List Field}
    (h : List.Forall₂ Field.Carries (defs.foldl mergeField []) fields) : Overrides defs fields := by
  have hkeys : fields.map (·.wireKey) = (defs.map (·.wireKey)).eraseDups := by
    rw [← keys_foldl_mergeField, ← List.forall₂_eq_eq_eq, List.forall₂_map_left_iff, List.forall₂_map_right_iff]
    exact h.flip.imp fun _ _ hf => hf.1
  refine ⟨hkeys, hkeys ▸ nodup_eraseDups _, fun f hf => ?_⟩
  obtain ⟨d, hd, hkey, htype, hdescription⟩ := exists_left_of_forall₂ h hf
  exact ⟨d, mem_foldl_mergeField_iff.1 hd, hkey.symm, htype.symm, hdescription.symm⟩

/-! ## The walk over a composition -/

/-- A field that stands for a property: it has the key of the property, the node that is built for its schema, and the
description in the schema. -/
structure Field.StandsFor (build : Build) (c : Context) (p : String × Json) (f : Field) : Prop where
  key : f.wireKey = p.1
  type : ∃ hint s s', (build p.2 (c.child hint)).run s = .ok f.type s'
  description : f.description = p.2.textAt? "description"

/-- The walk over pieces of a composition, in the states that it goes through, and the definitions that it meets. -/
inductive Walk (env : Env) (build : Build) (ownerName : String) (c : Context) :
    List Piece → State → List Field → State → Prop where
  | nil {s : State} : Walk env build ownerName c [] s [] s
  | referred {reference : String} {ps : List Piece} {s s₁ s₂ : State} {target : Node} {defs : List Field} :
      (resolveRef env build reference c).run s = .ok target s₁ → target.isObject = true →
      Walk env build ownerName c ps s₁ defs s₂ →
      Walk env build ownerName c (.referred reference :: ps) s (target.fields ++ defs) s₂
  | own {ms : Members} {ps : List Piece} {s s₁ s₂ : State} {fields defs : List Field} :
      (buildFields build ownerName c [] (entriesOf ms fun _ => false)).run s = .ok fields s₁ →
      List.Forall₂ (Field.StandsFor build c) (propertiesOf ms) fields →
      Walk env build ownerName c ps s₁ defs s₂ →
      Walk env build ownerName c (.own ms :: ps) s (fields ++ defs) s₂

section Walks

variable {env : Env} {build : Build} {ownerName : String} {c : Context}

theorem Walk.append {ps ps' : List Piece} {s s₁ s₂ : State} {defs defs' : List Field}
    (h : Walk env build ownerName c ps s defs s₁) (h' : Walk env build ownerName c ps' s₁ defs' s₂) :
    Walk env build ownerName c (ps ++ ps') s (defs ++ defs') s₂ := by
  induction h with
  | nil => exact h'
  | referred hrun hobject _ ih =>
    rw [List.cons_append, List.append_assoc]
    exact .referred hrun hobject (ih h')
  | own hrun hfields _ ih =>
    rw [List.cons_append, List.append_assoc]
    exact .own hrun hfields (ih h')

/-- Collecting from a state: what has been collected is merged with the definitions of the walk over some pieces. -/
def Collects (env : Env) (build : Build) (ownerName : String) (c : Context) (ps : List Piece) (m : Merged) (s : State)
    (run : Resolve Merged) : Prop :=
  Ends run s (fun m' s' => ∃ defs, Walk env build ownerName c ps s defs s' ∧
    m'.fields = defs.foldl mergeField m.fields) fun _ _ => True

theorem Collects.pure {m : Merged} {s : State} : Collects env build ownerName c [] m s (pure m) :=
  ends_pure.2 ⟨[], .nil, rfl⟩

theorem Collects.throw {ps : List Piece} {m : Merged} {s : State} {e : CompileError} :
    Collects env build ownerName c ps m s (throw e) := ends_throw.2 trivial

/-- One walk goes on where the other one stops. -/
theorem Collects.bind {ps ps' : List Piece} {m : Merged} {s : State} {run : Resolve Merged}
    {next : Merged → Resolve Merged} (h : Collects env build ownerName c ps m s run)
    (hnext : ∀ m₁ s₁, Collects env build ownerName c ps' m₁ s₁ (next m₁)) :
    Collects env build ownerName c (ps ++ ps') m s (run >>= next) := by
  refine Ends.bind h fun m₁ s₁ ⟨defs, hwalk, hfields⟩ => ?_
  refine (hnext m₁ s₁).mono (fun m₂ s₂ ⟨defs', hwalk', hfields'⟩ => ?_) fun _ _ h => h
  exact ⟨defs ++ defs', hwalk.append hwalk', by rw [hfields', hfields, List.foldl_append]⟩

theorem buildFields_standFor : ∀ (entries : List Entry) (taken : List String) (s : State),
    Ends (buildFields build ownerName c taken entries) s (fun fields _ => List.Forall₂
      (fun e f => f.wireKey = e.key ∧ f.description = e.description ∧
        ∃ hint s s', (build e.schema (c.child hint)).run s = .ok f.type s') entries fields) fun _ _ => True
  | [], _, _ => ends_pure.2 .nil
  | e :: es, taken, s => by
    refine Ends.bind_run fun type s₁ htype => ?_
    refine (Ends.trivial _ _).bind fun rules s₂ _ => ?_
    refine (buildFields_standFor es _ s₂).bind fun fields s₃ hfields => ?_
    exact ends_pure.2 (.cons ⟨rfl, rfl, _, s, s₁, htype⟩ hfields)

theorem mergeOwn_walks (ms : Members) (m : Merged) (s : State) :
    Collects env build ownerName c [.own ms] m s (mergeOwn build ownerName c ms m) := by
  unfold mergeOwn
  split
  · refine Ends.bind_run fun fields s₁ hrun => ends_pure.2 ⟨fields, ?_, rfl⟩
    have hstand := (buildFields_standFor _ [] s).of_ok hrun
    have hown : List.Forall₂ (Field.StandsFor build c) (propertiesOf ms) fields :=
      (List.forall₂_map_left_iff.1 hstand).imp fun _ _ ⟨hkey, hdescription, htype⟩ => ⟨hkey, htype, hdescription⟩
    simpa using Walk.own hrun hown Walk.nil
  · exact .throw

theorem mergeReferred_walks (reference : String) (m : Merged) (s : State) :
    Collects env build ownerName c [.referred reference] m s (m.merge <$> referredFields env build reference c) := by
  unfold Collects referredFields
  rw [ends_map]
  refine Ends.bind_run fun target s₁ hrun => ?_
  split
  · rename_i hobject
    refine ends_pure.2 ⟨target.fields, ?_, rfl⟩
    simpa using Walk.referred hrun hobject Walk.nil
  · exact ends_throw.2 trivial

/-- A way to collect inline members up to some depth that is the walk over their pieces. -/
def WalksPieces (env : Env) (build : Build) (ownerName : String) (c : Context) (levels : Nat)
    (inline : Members → Merged → Resolve Merged) : Prop :=
  ∀ ms m s, membersDepth ms < levels → Collects env build ownerName c (pieces ms) m s (inline ms m)

theorem mergeMembers_walks {inline : Members → Merged → Resolve Merged} {levels : Nat}
    (hi : WalksPieces env build ownerName c levels inline) : ∀ (members : List Json) (m : Merged) (s : State),
      (∀ ms, .obj ms ∈ members → membersDepth ms < levels) →
      Collects env build ownerName c (members.flatMap memberPieces) m s (mergeMembers env build inline c members m)
  | [], _, _, _ => .pure
  | .obj ms :: rest, m, s, hdepth => by
    have hmember : Collects env build ownerName c (memberPieces (.obj ms)) m s
        (mergeMember env build inline c ms m) := by
      cases href : textOf ms "$ref" with
      | some reference =>
        simp only [mergeMember, memberPieces, href]
        exact mergeReferred_walks reference m s
      | none =>
        simp only [mergeMember, memberPieces, href]
        exact hi ms m s (hdepth ms List.mem_cons_self)
    rw [List.flatMap_cons]
    refine hmember.bind fun m₁ s₁ => ?_
    exact mergeMembers_walks hi rest m₁ s₁ fun ms' h => hdepth ms' (List.mem_cons_of_mem _ h)
  | .null :: _, _, _, _ | .bool _ :: _, _, _, _ | .num _ :: _, _, _, _ | .str _ :: _, _, _, _ | .arr _ :: _, _, _, _ =>
    .throw

/-- Collecting a composition is the walk over its pieces. -/
theorem mergeAllOf_walks : ∀ levels, WalksPieces env build ownerName c levels (mergeAllOf env build ownerName c levels)
  | 0 => fun _ _ _ h => absurd h (Nat.not_lt_zero _)
  | levels + 1 => by
    intro ms m s hdepth
    have hdepths : ∀ ms', .obj ms' ∈ membersOf ms → membersDepth ms' < levels := by
      intro ms' hmem
      have := depth_of_membersOf hmem
      omega
    have hlist : Collects env build ownerName c ((membersOf ms).flatMap memberPieces) m s
        (mergeList env build (mergeAllOf env build ownerName c levels) c (ms.get? "allOf") m) := by
      unfold membersOf at hdepths ⊢
      cases hget : ms.get? "allOf" with
      | none => exact .pure
      | some v =>
        rw [hget] at hdepths
        cases v with
        | arr members => exact mergeMembers_walks (mergeAllOf_walks levels) members m s hdepths
        | _ => exact .throw
    rw [pieces_eq]
    exact hlist.bind fun m₁ s₁ => mergeOwn_walks ms m₁ s₁

end Walks

/-! ## Records of compositions -/

/-- Settling the presence of fields leaves their keys, types and descriptions. -/
theorem settleFields_carries (c : Context) (required : List String) : ∀ (fields : List Field) (taken : List String) s,
    Ends (settleFields c required taken fields) s (fun fields' _ => List.Forall₂ Field.Carries fields fields')
      fun _ _ => True
  | [], _, _ => ends_pure.2 .nil
  | f :: fields, taken, s => by
    refine (Ends.trivial _ s).bind fun rules s₁ _ => ?_
    refine (settleFields_carries c required fields _ s₁).bind fun fields' s₂ hfields => ?_
    exact ends_pure.2 (.cons ⟨rfl, rfl, rfl⟩ hfields)

theorem allOfNode_overrides (env : Env) (build : Build) (ms : Members) (c : Context) (s : State) :
    Ends (allOfNode env build ms c) s (fun n _ => n.isObject = true ∧ ∃ name s₁ slot s₂ defs s₃,
      (declaredName c).run s = .ok name s₁ ∧ openSlot.run s₁ = .ok slot s₂ ∧
      Walk env build name c (pieces ms) s₂ defs s₃ ∧ Overrides defs n.fields) fun _ _ => True := by
  refine Ends.bind_run fun name s₁ hname => ?_
  refine Ends.bind_run fun slot s₂ hslot => ?_
  refine Ends.bind (mergeAllOf_walks _ ms {} s₂ (Nat.lt_succ_self _)) fun merged s₃ ⟨defs, hwalk, hmerged⟩ => ?_
  refine (settleFields_carries c merged.required merged.fields [] s₃).bind fun fields _ hfields => ?_
  refine (Ends.trivial _ _).bind fun _ _ _ => ends_pure.2 ⟨rfl, name, s₁, slot, s₂, defs, s₃, hname, hslot, hwalk, ?_⟩
  rw [recordNode_fields]
  rw [hmerged] at hfields
  exact overrides_merged hfields

/-- **A key of a composition keeps its first place and has its last definition**: the record that is built for a
composition has the fields that are left by the definitions on the walk over its pieces. -/
theorem build_overrides {env : Env} {steps : Nat} {ms : Members} {c : Context} {s s' : State} {n : Node}
    (href : textOf ms "$ref" = none) (hall : ms.has "allOf" = true)
    (hrun : (Schema.build env steps (.obj ms) c).run s = .ok n s') :
    n.isObject = true ∧ ∃ name s₁ slot s₂ defs s₃, (declaredName c).run s = .ok name s₁ ∧
      openSlot.run s₁ = .ok slot s₂ ∧ Walk env (Schema.build env (steps - 1)) name c (pieces ms) s₂ defs s₃ ∧
      Overrides defs n.fields := by
  cases steps with
  | zero => cases hrun
  | succ steps =>
    have hform : formNode env (Schema.build env steps) ms c = allOfNode env (Schema.build env steps) ms c := by
      rw [formNode, href]
      exact if_pos hall
    have hnode : (allOfNode env (Schema.build env steps) ms c).run s = .ok n s' := hform ▸ hrun
    exact (allOfNode_overrides env _ ms c s).of_ok hnode

/-- Dogs, whose number is limited in an inline member, behind a nested member with a tag that dogs describe anew. -/
def limitedDog : Members :=
  [("allOf", .arr [.obj [("$ref", .str "#/components/schemas/Animal")],
      .obj [("allOf", .arr [.obj [("properties", .obj [("tag", .obj [("type", .str "string")])])]]),
        ("properties", .obj [("id", .obj [("type", .str "string"), ("maxLength", .num (.int 8))])])]]),
    ("properties", .obj [("age", .obj [("type", .str "integer")]),
      ("tag", .obj [("type", .str "integer"), ("description", .str "The number on the collar.")])])]

/-- The context of the schema of dogs. -/
def dogContext : Context := .ofKey (animalEnv limitedDog) ⟨none, "Dog"⟩ "Dog" []

/-- The keys of the fields of a node, with a limit from their types and their descriptions. -/
def Node.summaries (n : Node) : List (String × Option Nat × Option String) :=
  n.fields.map fun f => (f.wireKey, f.type.constraints.maxLength, f.description)

/-- The fields of dogs: a tag comes before an age, since it is first defined in the nested member. -/
def dogSummaries : List (String × Option Nat × Option String) :=
  [("id", some 8, none), ("tag", none, some "The number on the collar."), ("age", none, none)]

theorem build_limitedDog : Ends (Schema.build (animalEnv limitedDog) 9 (.obj limitedDog) dogContext)
    (.initial (animalEnv limitedDog)) (fun n _ => n.summaries = dogSummaries) fun _ _ => False := by
  decide +kernel

theorem build_overrides_limitedDog : textOf limitedDog "$ref" = none ∧ limitedDog.has "allOf" = true ∧
    ∃ n s', (Schema.build (animalEnv limitedDog) 9 (.obj limitedDog) dogContext).run (.initial (animalEnv limitedDog)) =
        .ok n s' ∧ n.summaries = dogSummaries ∧ n.isObject = true ∧ ∃ name s₁ slot s₂ defs s₃,
        (declaredName dogContext).run (.initial (animalEnv limitedDog)) = .ok name s₁ ∧
        openSlot.run s₁ = .ok slot s₂ ∧
        Walk (animalEnv limitedDog) (Schema.build (animalEnv limitedDog) 8) name dogContext (pieces limitedDog) s₂ defs
          s₃ ∧ Overrides defs n.fields := by
  obtain ⟨n, s', hrun, hfields⟩ := build_limitedDog.exists_ok
  exact ⟨by decide, by decide, n, s', hrun, hfields, build_overrides (by decide) (by decide) hrun⟩

end ApiForge.Schema
