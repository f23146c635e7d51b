import ApiForge.Proofs.Schema.Traversal

/-!
# Building schemas ends

A build descends to a deeper part of the same schema or opens a named schema that was not open. There are finitely many
named schemas, and no schema is deeper than its document. So a bounded number of steps within one another is enough, and
it does not matter what a build would do after that many steps.

* `unroll env base n`: building in `n` steps, where `base` stands for all that lies deeper.
* `unroll_eq`: with enough steps, the base is never asked for.
* `resolveKeys_unroll`: the number of steps that `resolveComponents` takes is enough.
-/

namespace ApiForge.Schema

open Json

/-! ## Named schemas -/

/-- The named schemas of a document. -/
def keysOf (doc : Option String) (document : Json) : List RefKey :=
  (((Description.schemasOf document).bind Json.members?).getD []).map fun m => ⟨doc, m.1⟩

/-- The named schemas of all documents. -/
def Env.keys (env : Env) : List RefKey :=
  keysOf none env.description.document ++ env.description.external.flatMap fun e => keysOf (some e.1) e.2

theorem keys_length (env : Env) : env.keys.length = env.keyCount := by
  have hfold : ∀ (docs : List (String × Json)) (n : Nat),
      n + (docs.flatMap fun e => keysOf (some e.1) e.2).length = docs.foldl
        (fun n e => n + (((Description.schemasOf e.2).bind Json.members?).getD []).length) n := by
    intro docs
    induction docs with
    | nil => intro n; rfl
    | cons e docs ih =>
      intro n
      rw [List.foldl_cons, ← ih, List.flatMap_cons, List.length_append, keysOf, List.length_map, Nat.add_assoc]
  rw [Env.keys, List.length_append, Env.keyCount, ← hfold, keysOf, List.length_map]

theorem mem_keysOf {doc : Option String} {document raw : Json} {name : String}
    (h : (Description.schemasOf document).bind (·.get? name) = some raw) : ⟨doc, name⟩ ∈ keysOf doc document := by
  obtain ⟨schemas, hschemas, hget⟩ := Option.bind_eq_some_iff.1 h
  obtain ⟨ms, rfl, hmem⟩ := mem_of_get? hget
  rw [keysOf, hschemas]
  exact List.mem_map.2 ⟨(name, raw), hmem, rfl⟩

theorem documentFor?_mem {d : Description} {path : String} {document : Json}
    (h : d.documentFor? (some path) = some document) : (path, document) ∈ d.external := by
  obtain ⟨⟨p, doc⟩, hfind, rfl⟩ := Option.map_eq_some_iff.1 h
  obtain rfl : p = path := by simpa using List.find?_some hfind
  exact List.mem_of_find?_eq_some hfind

/-- A key with a raw schema is one of finitely many. -/
theorem mem_keys {env : Env} {key : RefKey} {raw : Json} (h : env.rawSchema? key = some raw) : key ∈ env.keys := by
  obtain ⟨doc, name⟩ := key
  unfold Env.rawSchema? at h
  rw [Option.bind_assoc] at h
  obtain ⟨document, hdoc, hraw⟩ := Option.bind_eq_some_iff.1 h
  refine List.mem_append.2 ?_
  cases doc with
  | none =>
    cases hdoc
    exact .inl (mem_keysOf hraw)
  | some path => exact .inr (List.mem_flatMap.2 ⟨(path, document), documentFor?_mem hdoc, mem_keysOf hraw⟩)

theorem le_foldl_max {n : Nat} : ∀ {ns : List Nat} {start : Nat}, n ≤ start ∨ n ∈ ns → n ≤ ns.foldl max start
  | [], _, .inl h => h
  | m :: ns, start, h => by
    rw [List.foldl_cons]
    refine le_foldl_max ?_
    rcases h with h | h
    · exact .inl (Nat.le_trans h (Nat.le_max_left _ _))
    · rcases List.mem_cons.1 h with rfl | h
      · exact .inl (Nat.le_max_right _ _)
      · exact .inr h

/-- A named schema is no deeper than the documents. -/
theorem depth_rawSchema {env : Env} {key : RefKey} {raw : Json} (h : env.rawSchema? key = some raw) :
    raw.depth ≤ env.depth := by
  obtain ⟨doc, name⟩ := key
  unfold Env.rawSchema? at h
  rw [Option.bind_assoc] at h
  obtain ⟨document, hdoc, hraw⟩ := Option.bind_eq_some_iff.1 h
  obtain ⟨schemas, hschemas, hget⟩ := Option.bind_eq_some_iff.1 hraw
  obtain ⟨components, hcomponents, hget'⟩ := Option.bind_eq_some_iff.1 hschemas
  have h₁ := depth_of_get? hget
  have h₂ := depth_of_get? hget'
  have h₃ := depth_of_get? hcomponents
  have hdocument : document.depth ≤ env.depth := by
    unfold Env.depth
    cases doc with
    | none =>
      cases hdoc
      exact le_foldl_max (.inl (Nat.le_refl _))
    | some path => exact le_foldl_max (.inr (List.mem_map.2 ⟨(path, document), documentFor?_mem hdoc, rfl⟩))
  omega

/-! ## The measure -/

/-- The number of named schemas that are not open. -/
def Env.free (env : Env) (stack : List RefKey) : Nat := env.keys.countP fun k => !stack.contains k

theorem free_le (env : Env) (stack : List RefKey) : env.free stack ≤ env.keyCount := by
  rw [← keys_length]
  exact List.countP_le_length

/-- Opening a named schema leaves fewer of them. -/
theorem free_cons_lt {env : Env} {key : RefKey} {stack : List RefKey} (hkey : key ∈ env.keys) (hnew : key ∉ stack) :
    env.free (key :: stack) < env.free stack := by
  have hlt : ∀ l : List RefKey, key ∈ l →
      l.countP (fun k => !(key :: stack).contains k) < l.countP fun k => !stack.contains k := by
    intro l hl
    induction l with
    | nil => cases hl
    | cons k l ih =>
      have hle : l.countP (fun k => !(key :: stack).contains k) ≤ l.countP fun k => !stack.contains k := by
        refine List.countP_mono_left fun k _ hk => ?_
        simp only [List.contains_cons, Bool.not_or, Bool.and_eq_true] at hk
        exact hk.2
      by_cases hk : k = key
      · subst hk
        rw [List.countP_cons_of_neg (by simp), List.countP_cons_of_pos (by simpa using hnew)]
        omega
      · have := ih ((List.mem_cons.1 hl).resolve_left (Ne.symm hk))
        have hsame : (!(key :: stack).contains k) = !stack.contains k := by simp [hk]
        rw [List.countP_cons, List.countP_cons, hsame]
        omega
  exact hlt env.keys hkey

/-- Whether `n` steps are enough for a schema, if no schema is deeper than `bound`. -/
structure Enough (env : Env) (bound n : Nat) (raw : Json) (c : Context) : Prop where
  documents : env.depth ≤ bound
  depth : raw.depth ≤ bound
  steps : env.free c.stack * (bound + 2) + raw.depth + 1 ≤ n

/-- What a build descends to takes fewer steps. -/
theorem Enough.descends {env : Env} {bound n : Nat} {raw raw' : Json} {c c' : Context}
    (h : Enough env bound (n + 1) raw c) (hd : Descends env raw c raw' c') : Enough env bound n raw' c' := by
  have hsteps := h.steps
  cases hd with
  | part hpart _ _ hstack =>
    have hdepth := hpart.depth
    have hraw := h.depth
    exact ⟨h.documents, by omega, by rw [hstack]; omega⟩
  | reference hr hkey hnew hraw =>
    rename_i r key name
    have hdepth : raw'.depth ≤ bound := Nat.le_trans (depth_rawSchema hraw) h.documents
    have hfree := free_cons_lt (mem_keys hraw) hnew
    have hmul : (env.free (key :: c.stack) + 1) * (bound + 2) ≤ env.free c.stack * (bound + 2) :=
      Nat.mul_le_mul_right _ hfree
    rw [Nat.add_mul] at hmul
    exact ⟨h.documents, hdepth, by show env.free (key :: c.stack) * (bound + 2) + raw'.depth + 1 ≤ n; omega⟩

theorem enough_of_le {env : Env} {bound n : Nat} {raw : Json} (hdocuments : env.depth ≤ bound)
    (hdepth : raw.depth ≤ bound) (h : (env.keyCount + 1) * (bound + 2) ≤ n) (c : Context) :
    Enough env bound n raw c := by
  refine ⟨hdocuments, hdepth, ?_⟩
  have hfree : env.free c.stack * (bound + 2) ≤ env.keyCount * (bound + 2) :=
    Nat.mul_le_mul_right _ (free_le env c.stack)
  rw [Nat.add_mul, Nat.one_mul] at h
  omega

/-! ## Enough steps -/

/-- Building in a number of steps within one another; `base` stands for what lies deeper. -/
def unroll (env : Env) (base : Build) : Nat → Build
  | 0 => base
  | n + 1 => buildStep env (unroll env base n)

theorem build_eq_unroll (env : Env) : ∀ n, build env n = unroll env (build env 0) n
  | 0 => rfl
  | n + 1 => congrArg (buildStep env) (build_eq_unroll env n)

/-- **With enough steps, the base does not matter.** -/
theorem unroll_eq {env : Env} {bound : Nat} (base base' : Build) : ∀ (n n' : Nat) (raw : Json) (c : Context),
    Enough env bound n raw c → Enough env bound n' raw c → unroll env base n raw c = unroll env base' n' raw c
  | 0, _, _, _, h, _ => by have := h.steps; omega
  | _ + 1, 0, _, _, _, h => by have := h.steps; omega
  | n + 1, n' + 1, raw, c, h, h' => by
    refine buildStep_congr fun raw' c' hd => ?_
    exact unroll_eq base base' n n' raw' c' (h.descends hd) (h'.descends hd)

/-- The steps that a schema is given are enough, wherever it stands. -/
theorem build_unroll {env : Env} {raw : Json} (base : Build) {n : Nat} (h : env.steps raw.depth ≤ n) (c : Context) :
    unroll env base n raw c = build env (env.steps raw.depth) raw c := by
  have henough {k : Nat} (hk : env.steps raw.depth ≤ k) : Enough env (max env.depth raw.depth) k raw c :=
    enough_of_le (Nat.le_max_left _ _) (Nat.le_max_right _ _) hk c
  rw [build_eq_unroll]
  exact unroll_eq base _ n _ raw c (henough h) (henough (Nat.le_refl _))

/-- The steps that `resolveComponents` takes are enough for every named schema, wherever it stands. -/
theorem enough_rawSchema {env : Env} {key : RefKey} {raw : Json} (hraw : env.rawSchema? key = some raw) {n : Nat}
    (h : env.steps 0 ≤ n) (c : Context) : Enough env env.depth n raw c := by
  rw [Env.steps, Nat.max_eq_left (Nat.zero_le _)] at h
  exact enough_of_le (Nat.le_refl _) (depth_rawSchema hraw) h c

/-- **Resolution ends**: with at least the steps that `resolveComponents` takes, it does not matter how many there are
or what lies deeper. -/
theorem resolveKeys_unroll (env : Env) (base : Build) {n : Nat} (h : env.steps 0 ≤ n) :
    ∀ keys, resolveKeys env (unroll env base n) keys = resolveKeys env (build env (env.steps 0)) keys
  | [] => rfl
  | key :: keys => by
    have hkey : ∀ owner reference, resolveKey env (unroll env base n) ⟨none, key⟩ owner reference [] =
        resolveKey env (build env (env.steps 0)) ⟨none, key⟩ owner reference [] := by
      refine resolveKey_congr fun raw name hraw _ => ?_
      rw [build_eq_unroll]
      exact unroll_eq base _ n _ raw _ (enough_rawSchema hraw h _) (enough_rawSchema hraw (Nat.le_refl _) _)
    unfold resolveKeys
    rw [hkey, resolveKeys_unroll env base h keys]

end ApiForge.Schema
