import ApiForge.Proofs.Schema.Denotation
import ApiForge.Proofs.Schema.Verdict
import Mathlib.Data.List.Perm.Basic

/-!
# The order of named schemas does not matter

In whatever order the named schemas are listed, a resolver succeeds or fails, and if it succeeds, then the nodes are the
same apart from names. The order decides which schema is reached first and through which others, what is resolved
already, and who gets a number behind the name.

* `Reorders`: two descriptions whose named schemas are listed in two orders.
* `Env.Alike`: what two such descriptions have in common for a resolver: the schema of every key, and which keys are
  those of the root document. So they have the same cycles (`Env.Alike.sound`) and the same readings
  (`Env.Alike.lookup`).
* `resolveComponents_reorder`: resolution in two orders.
-/

namespace ApiForge.Json.Members

variable {ms ms' : Members} {key : String}

/-- Of distinct keys, each has the value that is listed with it. -/
theorem get?_eq_some_iff (hkeys : (ms.map (·.1)).Nodup) {v : Json} : ms.get? key = some v ↔ (key, v) ∈ ms := by
  refine ⟨mem_of_get?, fun h => ?_⟩
  obtain ⟨w, hw⟩ := exists_get? h
  have hsame : (key, v) = (key, w) := List.inj_on_of_nodup_map hkeys h (mem_of_get? hw) rfl
  rw [hw, (Prod.mk.inj hsame).2]

theorem get?_perm (hkeys : (ms.map (·.1)).Nodup) (h : ms.Perm ms') : ms.get? key = ms'.get? key := by
  have hkeys' : (ms'.map (·.1)).Nodup := (h.map _).nodup_iff.1 hkeys
  refine Option.ext fun v => ?_
  rw [get?_eq_some_iff hkeys, get?_eq_some_iff hkeys', h.mem_iff]

end ApiForge.Json.Members

namespace ApiForge.Schema

open Json

/-! ## Descriptions with the same schemas -/

/-- Descriptions that list the same named schemas, each under a key of its own, in two orders. They refer to the same
further documents. -/
structure Reorders (d d' : Description) (ms ms' : Members) : Prop where
  schemas : d.schemas? = some ms
  schemas' : d'.schemas? = some ms'
  distinct : (ms.map (·.1)).Nodup
  perm : ms.Perm ms'
  external : d.external = d'.external

/-- Environments in which every key has the same schema, with the same keys in the root document. -/
structure Env.Alike (env env' : Env) : Prop where
  raw : ∀ k, env.rawSchema? k = env'.rawSchema? k
  presence : env.presence = env'.presence
  roots : ∀ name, name ∈ env.rootKeys ↔ name ∈ env'.rootKeys

theorem schemasOf_of_schemas? {d : Description} {ms : Members} (h : d.schemas? = some ms) :
    Description.schemasOf d.document = some (.obj ms) := by
  obtain ⟨schemas, hschemas, hms⟩ := Option.bind_eq_some_iff.1 h
  cases schemas with
  | obj ms' => rw [hschemas, ← Option.some.inj hms]
  | _ => cases hms

theorem Reorders.alike {d d' : Description} {ms ms' : Members} (h : Reorders d d' ms ms')
    (presence : Presence) : Env.Alike ⟨d, presence⟩ ⟨d', presence⟩ where
  presence := rfl
  roots name := by
    unfold Env.rootKeys
    rw [h.schemas, h.schemas']
    exact (h.perm.map _).mem_iff
  raw k := by
    obtain ⟨doc, name⟩ := k
    unfold Env.rawSchema? Description.documentFor?
    cases doc with
    | none =>
      rw [Option.bind_some, Option.bind_some, schemasOf_of_schemas? h.schemas, schemasOf_of_schemas? h.schemas']
      exact Members.get?_perm h.distinct h.perm
    | some path => rw [h.external]

section Alike

variable {env env' : Env}

theorem Env.Alike.symm (h : env.Alike env') : env'.Alike env :=
  ⟨fun k => (h.raw k).symm, h.presence.symm, fun name => (h.roots name).symm⟩

theorem Env.Alike.lookup (h : env.Alike env') : env.lookup = env'.lookup := by
  funext k
  rw [Env.lookup, Env.lookup, h.raw, h.presence]

theorem Env.Alike.refers (h : env.Alike env') {k k' : RefKey} (hk : Refers env k k') : Refers env' k k' := by
  obtain ⟨raw, r, hraw, hr, hd⟩ := hk
  exact ⟨raw, r, by rw [← h.raw]; exact hraw, hr, hd⟩

theorem Env.Alike.reachable (h : env.Alike env') {k : RefKey} (hk : Reachable env k) : Reachable env' k := by
  induction hk with
  | root hname => exact .root ((h.roots _).1 hname)
  | step _ hr ih => exact ih.step (h.refers hr)

/-! ## Cycles -/

/-- The first key of a cycle refers to itself, through the others. -/
theorem IsCycle.exists_transGen {keys : List RefKey} (h : IsCycle env keys) :
    ∃ k, Reachable env k ∧ Relation.TransGen (Refers env) k k := by
  obtain ⟨hreach, hrefers, hlen, hclosed⟩ := h
  match keys with
  | k :: k' :: rest =>
    obtain ⟨hfirst, hrest⟩ := List.isChain_cons_cons.1 hrefers
    have hlast : (k' :: rest).getLast (List.cons_ne_nil _ _) = k := by
      rw [List.head?_cons, List.getLast?_cons_cons,
        List.getLast?_eq_getLast_of_ne_nil (List.cons_ne_nil _ _)] at hclosed
      exact (Option.some.inj hclosed).symm
    refine ⟨k, hreach k List.mem_cons_self, .head' hfirst ?_⟩
    exact List.relationReflTransGen_of_exists_isChain_cons rest hrest hlast

/-- Where one of two alike resolvers has no cycles, an honest error of the other is about something else. -/
theorem Env.Sound.not_isCyclic (hsound : env.Sound) (h : env.Alike env') {e : CompileError} (he : Honest env' e) :
    ¬IsCyclic e := by
  intro hcyclic
  cases e with
  | cyclicSchema chain =>
    obtain ⟨keys, -, hcycle⟩ := he
    obtain ⟨k, hk, hloop⟩ := hcycle.exists_transGen
    exact hsound.acyclic k (h.symm.reachable hk) (hloop.lift id fun _ _ => h.symm.refers)
  | _ => exact hcyclic

/-! ## Resolution in two orders -/

/-- The named schemas of the root document are resolved to these nodes. -/
def Env.ResolvesTo (env : Env) (entries : List (String × Node)) : Prop :=
  ∃ s, (resolveComponents env).run (.initial env) = .ok entries s

theorem viewed_initial (env : Env) : (State.initial env).Viewed env := by
  intro k n hn
  rw [resolved_initial] at hn
  cases hn

theorem settled_initial (env : Env) : Settled env (State.initial env).keys := by
  rw [State.keys, resolved_initial]
  trivial

/-- What is known of the nodes of named schemas: each is sound and has the outline that is read. -/
theorem Env.ResolvesTo.entries {entries : List (String × Node)} (h : env.ResolvesTo entries) :
    entries.map (·.1) = env.rootKeys ∧ ∃ ρ, ∀ e ∈ entries, e.2.Sound ρ ∧ env.Reads e.1 (some e.2.outline) := by
  obtain ⟨s, hrun⟩ := h
  obtain ⟨-, hkeys, hread⟩ := (resolveKeys_follows env _ env.rootKeys (viewed_initial env)).of_ok hrun
  have hkeeps : Keeps [] none _ (.initial env) (resolveComponents env) fun entries ρ _ => ∀ e ∈ entries, e.2.Sound ρ :=
    resolveKeys_keeps (build_keeps env _) env.rootKeys (valid_initial env)
  obtain ⟨ρ, -, -, hsound⟩ := Ends.of_ok hkeeps hrun
  exact ⟨hkeys, ρ, fun e he => ⟨hsound e he, hread e he⟩⟩

/-- Resolving the named schemas says the truth about references. -/
theorem resolveComponents_ends (env : Env) :
    Ends (resolveComponents env) (.initial env) (fun _ _ => env.Sound) fun e _ => Honest env e := by
  have hexact := resolveKeys_exact env.rootKeys (fun _ h => h) (.initial env) (settled_initial env)
  exact hexact.mono (fun _ _ ⟨hsettled, _, hroots⟩ => hsettled.sound hroots) fun _ _ h => h.2 trivial

/-- If one of two alike resolvers succeeds, so does the other. -/
theorem Env.Alike.exists_resolvesTo (h : env.Alike env') {entries : List (String × Node)}
    (hentries : env.ResolvesTo entries) : ∃ entries', env'.ResolvesTo entries' := by
  obtain ⟨hkeys, ρ, hall⟩ := hentries.entries
  obtain ⟨s, hrun⟩ := hentries
  have hsound : env.Sound := (resolveComponents_ends env).of_ok hrun
  cases hrun' : (resolveComponents env').run (.initial env') with
  | ok entries' s' => exact ⟨entries', s', hrun'⟩
  | error e s' =>
    have hhonest : Honest env' e := (resolveComponents_ends env').of_error hrun'
    have hfails := (resolveKeys_follows env' _ env'.rootKeys (viewed_initial env')).of_error hrun'
    rcases hfails with hcyclic | ⟨key, hkey, hnone⟩
    · exact absurd hcyclic (hsound.not_isCyclic h hhonest)
    · -- the schema that could not be read has been read by the first resolver
      have hmem : key ∈ entries.map (·.1) := by
        rw [hkeys]
        exact (h.roots key).2 hkey
      obtain ⟨entry, hentry, rfl⟩ := List.mem_map.1 hmem
      have hread := (hall entry hentry).2
      rw [Env.Reads, h.lookup] at hread
      cases hread.unique hnone

/-- Nodes of alike resolvers are the same apart from names. -/
theorem Env.Alike.unnamed_eq (h : env.Alike env') {entries entries' : List (String × Node)}
    (hentries : env.ResolvesTo entries) (hentries' : env'.ResolvesTo entries') {key : String} {n n' : Node}
    (hn : (key, n) ∈ entries) (hn' : (key, n') ∈ entries') : n.unnamed = n'.unnamed := by
  obtain ⟨-, ρ, hall⟩ := hentries.entries
  obtain ⟨-, ρ', hall'⟩ := hentries'.entries
  obtain ⟨hsound, hread⟩ := hall _ hn
  obtain ⟨hsound', hread'⟩ := hall' _ hn'
  rw [Env.Reads, h.lookup] at hread
  exact hsound.unnamed_eq hsound' (Option.some.inj (hread.unique hread'))

end Alike

/-- **The order of named schemas does not matter.** If the named schemas of a description are listed in another order,
then they are resolved exactly if they were before, and the nodes of every key are the same apart from names. -/
theorem resolveComponents_reorder {d d' : Description} {ms ms' : Members} (h : Reorders d d' ms ms')
    (presence : Presence) :
    ((∃ entries, Env.ResolvesTo ⟨d, presence⟩ entries) ↔ ∃ entries, Env.ResolvesTo ⟨d', presence⟩ entries) ∧
    ∀ entries entries', Env.ResolvesTo ⟨d, presence⟩ entries → Env.ResolvesTo ⟨d', presence⟩ entries' →
      entries.map (·.1) = ms.map (·.1) ∧ entries'.map (·.1) = ms'.map (·.1) ∧
      ∀ key n n', (key, n) ∈ entries → (key, n') ∈ entries' → n.unnamed = n'.unnamed := by
  have halike := h.alike presence
  refine ⟨⟨?_, ?_⟩, fun entries entries' he he' => ⟨?_, ?_, fun key n n' hn hn' => halike.unnamed_eq he he' hn hn'⟩⟩
  · rintro ⟨entries, he⟩
    exact halike.exists_resolvesTo he
  · rintro ⟨entries, he⟩
    exact halike.symm.exists_resolvesTo he
  · rw [he.entries.1, Env.rootKeys, h.schemas]
    rfl
  · rw [he'.entries.1, Env.rootKeys, h.schemas']
    rfl

/-- A description with some named schemas. -/
def schemasDescription (ms : Members) : Description :=
  ⟨"", "", "", "", .obj [("components", .obj [("schemas", .obj ms)])], []⟩

/-- Lists of pets and pets, under names with the same Pascal case. -/
def petsSchemas : Members :=
  [("pet", .obj [("type", .str "array"), ("items", .obj [("$ref", .str "#/components/schemas/Pet")])]),
    ("Pet", .obj [("properties", .obj [("name", .obj [("type", .str "string")])]), ("required", .arr [.str "name"])])]

theorem reorders_pets : Reorders (schemasDescription petsSchemas) (schemasDescription petsSchemas.reverse) petsSchemas
    petsSchemas.reverse :=
  ⟨rfl, rfl, by decide, (List.reverse_perm _).symm, rfl⟩

/-- The keys and type names of the named schemas, if they are resolved. -/
def Env.typeNames? (env : Env) : Option (List (String × String)) :=
  match (resolveComponents env).run (.initial env) with
  | .ok entries _ => some (entries.map fun e => (e.1, e.2.name))
  | .error _ _ => none

theorem Env.exists_resolvesTo {env : Env} {names : List (String × String)} (h : env.typeNames? = some names) :
    ∃ entries, env.ResolvesTo entries ∧ entries.map (fun e => (e.1, e.2.name)) = names := by
  unfold Env.typeNames? at h
  cases hrun : (resolveComponents env).run (.initial env) with
  | ok entries s =>
    rw [hrun] at h
    exact ⟨entries, ⟨s, hrun⟩, Option.some.inj h⟩
  | error e s =>
    rw [hrun] at h
    cases h

theorem typeNames?_pets :
    Env.typeNames? ⟨schemasDescription petsSchemas, .standard⟩ = some [("pet", "Pet"), ("Pet", "Pet2")] ∧
    Env.typeNames? ⟨schemasDescription petsSchemas.reverse, .standard⟩ = some [("Pet", "Pet"), ("pet", "Pet2")] := by
  decide +kernel

theorem resolveComponents_reorder_pets : ∃ entries entries',
    Env.ResolvesTo ⟨schemasDescription petsSchemas, .standard⟩ entries ∧
    entries.map (fun e => (e.1, e.2.name)) = [("pet", "Pet"), ("Pet", "Pet2")] ∧
    Env.ResolvesTo ⟨schemasDescription petsSchemas.reverse, .standard⟩ entries' ∧
    entries'.map (fun e => (e.1, e.2.name)) = [("Pet", "Pet"), ("pet", "Pet2")] ∧
    ∀ key n n', (key, n) ∈ entries → (key, n') ∈ entries' → n.unnamed = n'.unnamed := by
  obtain ⟨entries, he, hnames⟩ := Env.exists_resolvesTo typeNames?_pets.1
  obtain ⟨entries', he', hnames'⟩ := Env.exists_resolvesTo typeNames?_pets.2
  obtain ⟨-, -, hsame⟩ := (resolveComponents_reorder reorders_pets .standard).2 entries entries' he he'
  exact ⟨entries, entries', he, hnames, he', hnames', hsame⟩

end ApiForge.Schema
