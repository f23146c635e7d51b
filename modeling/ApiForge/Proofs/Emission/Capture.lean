import ApiForge.Proofs.Emission.Completeness

/-!
# Types named like what generated source uses

Generated source writes the types, variants and traits that it uses without a path. A declared type of such a name
takes its place. Three things stand against this: names of types begin with no small letter, the Pascal case of a name
is never `Self`, and names that are put together have a second capital or a number. Nothing stands against a named
schema whose Pascal case is one of the other names.

* `Worded.isSuffix`: a request or response name that ends in a small letter ends in one of the two words.
* `compile_captures`: which types of a file can have which of the names.
* `compile_declares_string`: a file with a type named `String`.
-/

namespace ApiForge.Emission

open Code Schema Naming Text

/-- The primitive types that generated source uses. -/
def primitiveNames : List String := ["bool", "i32", "i64", "f32", "f64", "u16", "str"]

/-- The types, variants and traits of one word that generated source uses. -/
def preludeNames : List String := ["String", "Option", "Vec", "Some", "None", "Serialize", "Deserialize", "Validate"]

/-! ## Shapes of names -/

theorem not_capital_primitive {name : String} (h : name ∈ primitiveNames) : ¬Capital name := by
  have hlower : ∀ name ∈ primitiveNames, name.toList.head?.all isLowerAscii = true := by decide
  rintro ⟨c, cs, hname, hc⟩
  have hfirst := hlower name h
  rw [hname, List.head?_cons, Option.all_some, hc] at hfirst
  cases hfirst

/-- Only the first letter of these names is a capital. -/
theorem not_compound_prelude {name : String} (h : name ∈ "Self" :: preludeNames) : ¬Compound name := by
  have hlower : ∀ name ∈ "Self" :: preludeNames, name.toList.tail.all isLowerAscii = true := by decide
  rintro ⟨c, cs, hname, -, x, hx, hxlower⟩
  have hrest := hlower name h
  rw [hname, List.tail_cons] at hrest
  have := List.all_eq_true.1 hrest x hx
  rw [hxlower] at this
  cases this

theorem Worded.isSuffix {name : String} (hlast : name.toList.getLast?.all isLowerAscii = true) :
    Worded name → ∃ word ∈ ["Request", "Response"], word.toList <:+ name.toList
  | ⟨word, hword, a, b, hname, hb⟩ => by
    cases hlist : b.getLast? with
    | none =>
      rw [List.getLast?_eq_none_iff.1 hlist, List.append_nil] at hname
      exact ⟨word, hword, a, hname.symm⟩
    | some c =>
      rw [hname, List.getLast?_append, hlist, Option.some_or, Option.all_some,
        hb c (List.mem_of_getLast? hlist)] at hlast
      cases hlast

/-- No request, payload or envelope has one of these names. -/
theorem not_worded_prelude {name : String} (h : name ∈ "ResponseEnvelope" :: preludeNames) : ¬Worded name := by
  have hlast : ∀ name ∈ "ResponseEnvelope" :: preludeNames, name.toList.getLast?.all isLowerAscii = true := by decide
  have hwords : ∀ name ∈ "ResponseEnvelope" :: preludeNames, ∀ word ∈ ["Request", "Response"],
      ¬word.toList <:+ name.toList := by decide
  intro hworded
  obtain ⟨word, hword, hsuffix⟩ := hworded.isSuffix (hlast name h)
  exact hwords name h word hword hsuffix

/-! ## Types of compilations -/

/-- **Which names are captured.** No type of a compilation is named like a primitive type or `Self`. A type that is
named like anything else that generated source uses is declared for a schema, never for a request, a payload or an
envelope; and if the name is one word, then a named schema has it as its Pascal case. -/
theorem compile_captures {config : Config} {d : Description} {c : Compilation} (h : compile config d = .ok c) :
    ∃ s done, Run config d c s done ∧ ∀ t, .type t ∈ c.file.declarations →
      t.name ∉ "Self" :: primitiveNames ∧
      (t.name ∈ "ResponseEnvelope" :: preludeNames → ∃ n ∈ s.declarationsSince 0, ∃ o, t = nodeDecl n o) ∧
      (t.name ∈ preludeNames →
        ∃ k raw, Env.rawSchema? ⟨d, config.presence⟩ k = some raw ∧ pascalCase k.name = t.name) := by
  obtain ⟨s, done, p, hrun, hfile, hdone⟩ := compile_assembled h
  refine ⟨s, done, hrun, fun t ht => ?_⟩
  obtain ⟨x, hx, hbuilds⟩ := hdone.output.origin (.type t) (hfile ▸ ht)
  have hformed : Formed ⟨d, config.presence⟩ t.name := by
    refine hdone.orderly.formed t.name ?_
    rw [hbuilds.name]
    rcases List.mem_append.1 hx with hx | hx
    · obtain ⟨n, hn, rfl⟩ := List.mem_map.1 hx
      exact hdone.orderly.declared n.name (List.mem_map_of_mem hn)
    · exact (hdone.held x hx).1.taken
  refine ⟨fun hmem => ?_, fun hmem => ?_, fun hmem => ?_⟩
  · rcases List.mem_cons.1 hmem with hself | hmem
    · rcases hformed with hcompound | ⟨k, -, -, hname⟩
      · exact not_compound_prelude (by rw [hself]; exact List.mem_cons_self) hcompound
      · exact pascalCase_ne_self k.name (hname.symm.trans hself)
    · exact not_capital_primitive hmem hformed.capital
  · rcases List.mem_append.1 hx with hx | hx
    · obtain ⟨n, hn, rfl⟩ := List.mem_map.1 hx
      exact ⟨n, hn, hbuilds⟩
    · exact absurd (hdone.held x hx).2 (not_worded_prelude (hbuilds.name ▸ hmem))
  · rcases hformed with hcompound | ⟨k, raw, hraw, hname⟩
    · exact absurd hcompound (not_compound_prelude (List.mem_cons_of_mem _ hmem))
    · exact ⟨k, raw, hraw, hname.symm⟩

theorem compile_string :
    (compile {} (recordDescription "String")).toOption.map (typeNames ·.file) = some ["String"] := by
  decide +kernel

theorem compile_captures_string : ∃ c s t n o k raw, compile {} (recordDescription "String") = .ok c ∧
    .type t ∈ c.file.declarations ∧ t.name ∈ preludeNames ∧ t = nodeDecl n o ∧ n ∈ State.declarationsSince s 0 ∧
    Env.rawSchema? ⟨recordDescription "String", .standard⟩ k = some raw ∧ pascalCase k.name = t.name := by
  obtain ⟨c, hc, htypes⟩ := exists_compiled compile_string
  obtain ⟨t, ht, hname⟩ := mem_typeNames.1 (by rw [htypes]; exact List.mem_cons_self)
  have hmem : t.name ∈ preludeNames := by rw [hname]; decide
  obtain ⟨s, done, -, hall⟩ := compile_captures hc
  obtain ⟨-, hnode, hkey⟩ := hall t ht
  obtain ⟨n, hn, o, ho⟩ := hnode (List.mem_cons_of_mem _ hmem)
  obtain ⟨k, raw, hraw, hpascal⟩ := hkey hmem
  exact ⟨c, s, t, n, o, k, raw, hc, ht, hmem, ho, hn, hraw, hpascal⟩

/-- A schema `String` takes the name of the type of texts. -/
theorem compile_declares_string : ∃ c t, compile {} (recordDescription "String") = .ok c ∧
    .type t ∈ c.file.declarations ∧ t.name = "String" := by
  obtain ⟨c, hc, htypes⟩ := exists_compiled compile_string
  obtain ⟨t, ht, hname⟩ := mem_typeNames.1 (by rw [htypes]; exact List.mem_cons_self)
  exact ⟨c, t, hc, ht, hname⟩

end ApiForge.Emission
