import ApiForge.Proofs.Emission.Spelled
import ApiForge.Proofs.Schema.TypeNames

/-!
# Identifiers of generated files

Types, constants and functions of a file are named by identifiers, with one exception: a named schema whose key has
neither letters nor digits is named by what is left of the key, the underscore alone.

* `Declaration.Legal`: the names that a declaration gives are identifiers.
* `IsPatternName.isIdentifier`: the names of pattern constants are.
* `compile_identifiers`: all declarations of a compilation are legal, but for the types that are named for such keys.
* `compile_declares_underscore`: a type of this kind.
-/

namespace ApiForge.Code

open Naming

/-- The names of types, constants and functions in a declaration are identifiers. -/
def Declaration.Legal : Declaration → Prop
  | .type t => IsIdentifier t.name
  | .const k => IsIdentifier k.name
  | .func f => IsIdentifier f.name
  | .impl b => ∀ f ∈ b.funcs, IsIdentifier f.name

end ApiForge.Code

namespace ApiForge.Schema

/-- Some named schema has a key without letters and digits. -/
def Env.HasIllegibleKey (env : Env) : Prop := ∃ k raw, env.rawSchema? k = some raw ∧ ¬Naming.Legible k.name

end ApiForge.Schema

namespace ApiForge.Emission

open Code Schema Naming Compilation

/-! ## Constants and functions -/

theorem isWord_screaming (name : String) : IsWord (screaming name) := (isWord_snakeCase name).upperAscii

theorem wordy_items (depth : Nat) : Wordy (String.join (List.replicate depth "_ITEMS")) := by
  intro c h
  rw [String.toList_join] at h
  obtain ⟨item, hitem, hc⟩ := List.mem_flatMap.1 h
  rw [List.eq_of_mem_replicate hitem] at hc
  exact (by decide : Wordy "_ITEMS") c hc

/-- The names of pattern constants are identifiers: they are words, and further words follow in them. -/
theorem IsPatternName.isIdentifier {owner name : String} : IsPatternName owner name → IsIdentifier name
  | ⟨names, field, depth, h⟩ => by
    rw [h]
    refine IsIdentifier.fresh names (Compound.isIdentifier ?_ ?_)
    · obtain ⟨c, cs, hcs, -⟩ := (isWord_screaming owner).start
      have hcapital : Capital (screaming owner) :=
        ⟨c, cs, hcs, shouting_upperAscii _ c (hcs ▸ List.mem_cons_self)⟩
      exact ((hcapital.append ⟨'_', [], rfl, by decide⟩).append _).append _ |>.append _
    · refine IsWord.append (IsWord.append ?_ (wordy_items depth)) (by decide)
      exact ((isWord_screaming owner).append (by decide)).append (isWord_screaming field).chars

theorem isIdentifier_slotName (status : Nat) : IsIdentifier (slotName status) :=
  IsWord.number (by decide : IsWord "status_") status

/-- Everything but types is legal in all files. -/
theorem declarationClass_legal : DeclarationClass fun d => (∀ t, d ≠ .type t) → d.Legal where
  type t h := absurd rfl (h t)
  pattern _ _ hk _ := hk.isIdentifier
  basePath _ _ := (by decide : IsIdentifier "BASE_PATH")
  routes _ _ := (by decide : IsIdentifier "ROUTES")
  impl m b hb _ f hf := by
    rcases List.mem_cons.1 hb with rfl | hb
    · rcases List.mem_cons.1 hf with rfl | hf
      · exact (by decide : IsIdentifier "status_code")
      · rw [List.mem_singleton.1 hf]
        exact (by decide : IsIdentifier "populated")
    · unfold constructors at hb
      split at hb
      · cases hb
      · rw [List.mem_singleton.1 hb] at hf
        obtain ⟨p, -, rfl⟩ := List.mem_map.1 hf
        exact isIdentifier_slotName p.1

/-! ## Types -/

section Types

variable {env : Env} {s : State}

/-- A type name that is given out is an identifier, or the underscore that is left of a key. -/
theorem isIdentifier_taken (ho : Orderly env [] s) (hs : s.Spelled IsWord) {name : String}
    (hname : name ∈ s.names.taken) : IsIdentifier name ∨ name = "_" ∧ env.HasIllegibleKey := by
  rcases ho.formed name hname with hcompound | ⟨k, raw, hraw, rfl⟩
  · exact .inl (hcompound.isIdentifier (hs.taken name hname))
  · refine (em (pascalCase k.name = "_")).symm.imp isIdentifier_pascalCase fun h => ⟨h, k, raw, hraw, ?_⟩
    exact pascalCase_eq_underscore_iff.1 h

/-- The first key without letters and digits gets the underscore. -/
theorem underscore_allocated : ∀ (keys : List String) (names : Allocator), (∃ key ∈ keys, ¬Legible key) →
    "_" ∈ names.taken ∨ "_" ∈ names.allocateAll (keys.map pascalCase)
  | [], _, h => by simp at h
  | key :: keys, names, h => by
    by_cases htaken : "_" ∈ names.taken
    · exact .inl htaken
    refine .inr (List.mem_cons.2 ?_)
    by_cases hkey : pascalCase key = "_"
    · refine .inl ?_
      rw [Allocator.allocate, hkey, Allocator.fresh_of_free (Allocator.isTaken_eq_false_iff.2 htaken)]
    · -- a legible key takes another name
      have hrest : ∃ key ∈ keys, ¬Legible key := by
        obtain ⟨k, hk, hillegible⟩ := h
        rcases List.mem_cons.1 hk with rfl | hk
        · exact absurd (pascalCase_eq_underscore_iff.2 hillegible) hkey
        · exact ⟨k, hk, hillegible⟩
      rcases underscore_allocated keys (names.allocate (pascalCase key)).2 hrest with hmem | hmem
      · rcases List.mem_cons.1 hmem with hname | hmem
        · exact absurd hname.symm ((isIdentifier_pascalCase hkey).fresh names).ne
        · exact absurd hmem htaken
      · exact .inr hmem

/-- If keys of named schemas have neither letters nor digits, one of the schemas is declared under the underscore. -/
theorem exists_underscore (hdistinct : env.rootKeys.Nodup) (h : ∃ key ∈ env.rootKeys, ¬Legible key)
    {entries : List (String × Node)} {s₀ : State}
    (hrun : (resolveComponents env).run (State.initial env) = .ok entries s₀)
    (hwithin : ∀ e ∈ entries, e.2.Within (s.declarationsSince 0)) :
    ∃ n ∈ s.declarationsSince 0, n.name = "_" := by
  have hnames := congrArg (List.map Prod.snd) (Session.start.resolveComponents_names hdistinct hrun)
  rw [List.map_map, Env.reservedNames, List.map_snd_zip (by rw [length_allocateAll, List.length_map])] at hnames
  have hunderscore := (underscore_allocated env.rootKeys {} h).resolve_left List.not_mem_nil
  rw [← hnames] at hunderscore
  obtain ⟨e, he, hname⟩ := List.mem_map.1 hunderscore
  obtain ⟨-, hentries⟩ := (resolveKeys_spells nameClass_true _ _ _ (spelled_initial nameClass_true)).of_ok hrun
  have hstands := hwithin e he e.2 .self
  rw [Node.StandsIn, if_pos (hentries e he).2] at hstands
  exact ⟨e.2, hstands, hname⟩

end Types

/-! ## Compilations -/

section Compile

variable {config : Config} {d : Description} {c : Compilation}

/-- **Names in generated files are identifiers, except the underscore**: in a compilation, all names of types, constants
and functions are identifiers, but for types that are named by the underscore alone. There is such a type only if some
named schema has a key without letters and digits, and there is one if a named schema of the root document has. The keys
of an object are distinct. -/
theorem compile_identifiers (h : compile config d = .ok c) :
    (∀ e ∈ c.file.declarations, e.Legal ∨ ∃ t, e = .type t ∧ t.name = "_" ∧ Env.HasIllegibleKey ⟨d, config.presence⟩) ∧
    ((Env.rootKeys ⟨d, config.presence⟩).Nodup → (∃ key ∈ Env.rootKeys ⟨d, config.presence⟩, ¬Legible key) →
      ∃ t, .type t ∈ c.file.declarations ∧ t.name = "_") := by
  obtain ⟨s, done, p, hrun, hfile, hdone⟩ := compile_assembled h
  obtain ⟨hs, hlegal⟩ := hrun.spelled nameClass_isWord declarationClass_legal
  refine ⟨fun e he => ?_, fun hdistinct hillegible => ?_⟩
  · cases e with
    | type t =>
      obtain ⟨x, hx, hbuilds⟩ := hdone.output.origin _ (hfile ▸ he)
      have htaken : x.name ∈ s.names.taken := by
        rcases List.mem_append.1 hx with hx | hx
        · obtain ⟨n, hn, rfl⟩ := List.mem_map.1 hx
          exact hdone.orderly.declared _ (List.mem_map_of_mem hn)
        · exact (hdone.held x hx).1.taken
      rw [← hbuilds.name] at htaken
      exact (isIdentifier_taken hdone.orderly hs htaken).imp_right fun h => ⟨t, rfl, h⟩
    | const k => exact .inl (hlegal _ he fun _ => nofun)
    | impl b => exact .inl (hlegal _ he fun _ => nofun)
    | func f => exact .inl (hlegal _ he fun _ => nofun)
  · obtain ⟨entries, s₀, hresolve, hwithin⟩ := hdone.components
    obtain ⟨n, hn, hname⟩ := exists_underscore hdistinct hillegible hresolve hwithin
    obtain ⟨e, he, hcases⟩ := hdone.output.exists_declaration hdone.sources_nodup
      (List.mem_append_left _ (List.mem_map.2 ⟨n, hn, rfl⟩))
    have hmem := List.mem_filter.1 (he ▸ List.mem_singleton_self e)
    rcases hcases with ⟨t, rfl, hbuilds⟩ | ⟨⟨k, rfl⟩, -⟩
    · exact ⟨t, hfile ▸ hmem.1, hbuilds.name.trans hname⟩
    · -- constants have other names
      have hlegal : (Declaration.const k).Legal := hlegal _ (hfile ▸ hmem.1) fun _ => nofun
      have hk : k.name = "_" := by simpa [Declaration.name?, Source.name, hname] using hmem.2
      exact absurd hk hlegal.ne

theorem compile_nihon : (compile {} (recordDescription "日本")).toOption.map (typeNames ·.file) = some ["_"] := by
  decide +kernel

theorem compile_identifiers_pet_nihon : (∃ c, compile {} (recordDescription "Pet") = .ok c ∧
      typeNames c.file = ["Pet"] ∧ ∀ e ∈ c.file.declarations, e.Legal) ∧
    ∃ c t, compile {} (recordDescription "日本") = .ok c ∧ .type t ∈ c.file.declarations ∧ t.name = "_" := by
  obtain ⟨c, hc, htypes⟩ := exists_compiled compile_pet.1
  obtain ⟨c', hc', -⟩ := exists_compiled compile_nihon
  refine ⟨⟨c, hc, htypes, fun e he => ((compile_identifiers hc).1 e he).resolve_right ?_⟩, ?_⟩
  · rintro ⟨t, rfl, hname, -⟩
    have hmem := mem_typeNames.2 ⟨t, he, hname⟩
    rw [htypes] at hmem
    exact absurd hmem (by decide)
  · have hillegible : ¬Legible "日本" := pascalCase_eq_underscore_iff.1 (by decide +kernel)
    obtain ⟨t, ht, hname⟩ := (compile_identifiers hc').2 (by decide) ⟨"日本", by decide, hillegible⟩
    exact ⟨c', t, hc', ht, hname⟩

/-- A type that is named by the underscore alone, which is no identifier. -/
theorem compile_declares_underscore : ∃ c t, compile {} (recordDescription "日本") = .ok c ∧
    .type t ∈ c.file.declarations ∧ t.name = "_" ∧ ¬(Declaration.type t).Legal := by
  obtain ⟨c, hc, htypes⟩ := exists_compiled compile_nihon
  obtain ⟨t, ht, hname⟩ := mem_typeNames.1 (htypes ▸ List.mem_singleton_self "_")
  exact ⟨c, t, hc, ht, hname, fun hlegal => hlegal.ne hname⟩

end Compile

end ApiForge.Emission
