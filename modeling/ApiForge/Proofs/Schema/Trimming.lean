import ApiForge.Proofs.Schema.Order

/-!
# Descriptions with the same named schemas

A resolver looks at the documents of a description only for named schemas. How deep the documents are decides how many
steps it may take, but with enough steps their number does not matter.

* `Env.Alike.unroll_eq`: where every key has the same schema, every build is the same.
* `Env.Trims env env'`: the second description has the same named schemas in documents that are no deeper.
* `Env.Trims.resolveComponents_eq`, `Env.Trims.resolveInline_eq`, `Env.Trims.synthesizeObject_eq`: resolution does not
  notice.
-/

namespace ApiForge.Schema

open Json Naming

variable {env env' : Env}

/-! ## The same schema for every key -/

section Alike

variable (h : env.Alike env')

include h

theorem Env.Alike.resolveKey_eq : resolveKey env = resolveKey env' := by
  funext build key owner reference stack
  have hctx : Context.ofKey env = Context.ofKey env' := by
    funext key name stack
    rw [Context.ofKey, Context.ofKey, h.presence]
  simp only [resolveKey, buildKey, h.raw, hctx]

theorem Env.Alike.resolveRef_eq : resolveRef env = resolveRef env' := by
  funext build reference c
  simp only [resolveRef, h.resolveKey_eq]

theorem Env.Alike.mergeMember_eq : mergeMember env = mergeMember env' := by
  funext build inline c ms m
  simp only [mergeMember, referredFields, h.resolveRef_eq]

theorem Env.Alike.mergeMembers_eq (build : Build) (inline : Members → Merged → Resolve Merged) (c : Context) :
    ∀ (members : List Json) (m : Merged),
      mergeMembers env build inline c members m = mergeMembers env' build inline c members m
  | [], _ => rfl
  | .obj ms :: rest, m => by
    unfold mergeMembers
    rw [h.mergeMember_eq]
    exact bind_congr fun m₁ => Env.Alike.mergeMembers_eq build inline c rest m₁
  | .null :: _, _ | .bool _ :: _, _ | .num _ :: _, _ | .str _ :: _, _ | .arr _ :: _, _ => rfl

theorem Env.Alike.mergeList_eq : mergeList env = mergeList env' := by
  funext build inline c members m
  unfold mergeList
  split
  · rfl
  · exact h.mergeMembers_eq build inline c _ m
  · rfl

theorem Env.Alike.mergeAllOf_eq (build : Build) (ownerName : String) (c : Context) : ∀ levels,
    mergeAllOf env build ownerName c levels = mergeAllOf env' build ownerName c levels
  | 0 => rfl
  | levels + 1 => by
    funext ms m
    unfold mergeAllOf
    rw [h.mergeList_eq, Env.Alike.mergeAllOf_eq build ownerName c levels]

theorem Env.Alike.buildStep_eq : buildStep env = buildStep env' := by
  funext build raw c
  cases raw with
  | obj ms => simp only [buildStep, formNode, allOfNode, h.resolveRef_eq, h.mergeAllOf_eq]
  | bool b => cases b <;> rfl
  | null | num _ | str _ | arr _ => rfl

/-- Where every key has the same schema, every build is the same. -/
theorem Env.Alike.unroll_eq (base : Build) : ∀ n, unroll env base n = unroll env' base n
  | 0 => rfl
  | n + 1 => by
    unfold unroll
    rw [h.buildStep_eq, Env.Alike.unroll_eq base n]

theorem Env.Alike.resolveKeys_eq (build : Build) : ∀ keys, resolveKeys env build keys = resolveKeys env' build keys
  | [] => rfl
  | key :: keys => by
    unfold resolveKeys
    rw [h.resolveKey_eq]
    refine bind_congr fun node => ?_
    rw [Env.Alike.resolveKeys_eq build keys]

end Alike

/-- The fields of a record are the same, however its parts are built. -/
theorem buildFields_eq {build build' : Build} (ownerName : String) (c : Context) :
    ∀ (entries : List Entry) (taken : List String), (∀ e ∈ entries, ∀ c, build e.schema c = build' e.schema c) →
      buildFields build ownerName c taken entries = buildFields build' ownerName c taken entries
  | [], _, _ => rfl
  | e :: es, taken, hall => by
    obtain ⟨he, hes⟩ := List.forall_mem_cons.1 hall
    unfold buildFields
    rw [he]
    refine bind_congr fun type => bind_congr fun rules => ?_
    rw [buildFields_eq ownerName c es _ hes]

/-! ## Documents that are no deeper -/

/-- The second description has the same named schemas as the first, in documents that are no deeper. -/
structure Env.Trims (env env' : Env) : Prop where
  alike : env.Alike env'
  rootKeys : env.rootKeys = env'.rootKeys
  keyCount : env.keyCount = env'.keyCount
  depth : env'.depth ≤ env.depth

section Trims

variable (h : env.Trims env')

include h

theorem Env.Trims.steps (depth : Nat) : env'.steps depth ≤ env.steps depth := by
  rw [Env.steps, Env.steps, h.keyCount]
  have hdepth := h.depth
  exact Nat.mul_le_mul_left _ (by omega)

/-- The steps for a depth are enough in both. -/
theorem Env.Trims.build_eq {depth : Nat} {raw : Json} (hraw : raw.depth ≤ depth) (c : Context) :
    build env (env.steps depth) raw c = build env' (env'.steps depth) raw c := by
  have henough {n : Nat} (hn : env'.steps depth ≤ n) : Enough env' (max env'.depth depth) n raw c :=
    enough_of_le (Nat.le_max_left _ _) (Nat.le_trans hraw (Nat.le_max_right _ _)) hn c
  rw [build_eq_unroll env (env.steps depth), build_eq_unroll env' (env'.steps depth), h.alike.unroll_eq]
  exact unroll_eq _ _ _ _ raw c (henough (h.steps depth)) (henough (Nat.le_refl _))

theorem Env.Trims.initial_eq : State.initial env = State.initial env' := by
  rw [State.initial, State.initial, h.rootKeys]

theorem Env.Trims.resolveComponents_eq : resolveComponents env = resolveComponents env' := by
  rw [resolveComponents, resolveComponents, h.rootKeys, h.alike.resolveKeys_eq, build_eq_unroll,
    h.alike.unroll_eq]
  exact resolveKeys_unroll env' _ (h.steps 0) _

theorem Env.Trims.resolveInline_eq : resolveInline env = resolveInline env' := by
  funext raw hint owner
  unfold resolveInline
  rw [h.build_eq (Nat.le_refl _), h.alike.presence]

theorem Env.Trims.synthesizeObject_eq : synthesizeObject env = synthesizeObject env' := by
  funext hint members presence owner
  unfold synthesizeObject
  refine bind_congr fun name => bind_congr fun slot => ?_
  dsimp only
  rw [buildFields_eq name _ _ [] fun e he c =>
    h.build_eq (le_foldl_max (.inr (List.mem_map.2 ⟨e, he, rfl⟩))) c]

end Trims

end ApiForge.Schema
