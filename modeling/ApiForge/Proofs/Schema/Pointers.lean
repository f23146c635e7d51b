import ApiForge.Proofs.Text.Cutting
import ApiForge.Schema.Resolver

/-!
# References to named schemas

A reference is a file, a `#` and a pointer. The pointer to a named schema writes the name with `~0` for a tilde and `~1`
for a slash, so that it has no slash of its own, and reading it undoes this for every name.

* `escapePointer` writes a name; `unescapePointer_escapePointer` reads it back.
* `unescapePointer_eq_replacePair`: reading in one pass is replacing `~1` everywhere and then `~0` everywhere. In the
  other order a tilde that was written before a `1` would make a slash.
* `parseRef_append`: what a reference with a given file and pointer denotes.
* `named_schema_addressable`: a schema is found by the reference to it, and what is no schema pointer is not supported.
-/

namespace ApiForge.Schema

open Text

/-! ## Escapes -/

/-- A character of a name as a pointer writes it. -/
def escapeChar (c : Char) : List Char := if c = '~' then ['~', '0'] else if c = '/' then ['~', '1'] else [c]

/-- A name as a pointer writes it: `~0` for a tilde and `~1` for a slash. -/
def escapePointer (name : List Char) : List Char := name.flatMap escapeChar

/-- Only a tilde begins an escape. -/
theorem unescapePointer_cons {c : Char} (h : c ≠ '~') (cs : List Char) :
    unescapePointer (c :: cs) = c :: unescapePointer cs := by
  rw [unescapePointer.eq_def]
  split
  · rename_i heq
    exact absurd (List.cons.inj heq).1 h
  · rename_i heq
    exact absurd (List.cons.inj heq).1 h
  · rename_i heq
    obtain ⟨rfl, rfl⟩ := List.cons.inj heq
    rfl
  · rename_i heq
    cases heq

/-- **A name is read back from its escapes.** -/
theorem unescapePointer_escapePointer (name : List Char) : unescapePointer (escapePointer name) = name := by
  induction name with
  | nil => rfl
  | cons c name ih =>
    rw [escapePointer, List.flatMap_cons, ← escapePointer]
    by_cases htilde : c = '~'
    · subst htilde
      exact congrArg ('~' :: ·) ih
    · by_cases hslash : c = '/'
      · subst hslash
        exact congrArg ('/' :: ·) ih
      · rw [escapeChar, if_neg htilde, if_neg hslash, List.singleton_append, unescapePointer_cons htilde, ih]

theorem slash_not_mem_escapePointer (name : List Char) : '/' ∉ escapePointer name := by
  intro h
  obtain ⟨c, -, hc⟩ := List.mem_flatMap.1 h
  unfold escapeChar at hc
  split at hc
  · exact absurd hc (by decide)
  · split at hc
    · exact absurd hc (by decide)
    · rename_i hne
      exact hne (List.mem_singleton.1 hc).symm

theorem escapePointer_ne_nil {name : List Char} (h : name ≠ []) : escapePointer name ≠ [] := by
  intro hnil
  apply h
  rw [← unescapePointer_escapePointer name, hnil]
  rfl

/-! ## One pass or two -/

/-- Replaces every pair of two characters by one character, from the left. -/
def replacePair (first second new : Char) : List Char → List Char
  | [] => []
  | [c] => [c]
  | c :: d :: cs =>
    if c = first ∧ d = second then new :: replacePair first second new cs
    else c :: replacePair first second new (d :: cs)

section ReplacePair

variable {first second new c : Char}

theorem replacePair_pair (cs : List Char) :
    replacePair first second new (first :: second :: cs) = new :: replacePair first second new cs := by
  rw [replacePair, if_pos ⟨rfl, rfl⟩]

theorem replacePair_cons (h : c ≠ first) (cs : List Char) :
    replacePair first second new (c :: cs) = c :: replacePair first second new cs := by
  cases cs with
  | nil => rfl
  | cons d cs => rw [replacePair, if_neg fun hpair => h hpair.1]

theorem replacePair_cons_of_head {cs : List Char} (h : cs.head? ≠ some second) :
    replacePair first second new (c :: cs) = c :: replacePair first second new cs := by
  cases cs with
  | nil => rfl
  | cons d cs => rw [replacePair, if_neg fun hpair => h (congrArg some hpair.2)]

/-- What replacing leaves in front is what stood there, or the new character. -/
theorem head?_replacePair {other : Char} (hnew : new ≠ other) :
    ∀ {cs : List Char}, cs.head? ≠ some other → (replacePair first second new cs).head? ≠ some other
  | [], h => h
  | [_], h => h
  | c :: d :: cs, h => by
    rw [replacePair]
    split
    · exact fun heq => hnew (Option.some.inj heq)
    · exact h

end ReplacePair

/-- **One pass reads what two passes read.** The slashes of the first pass make no new escape for the second. -/
theorem unescapePointer_eq_replacePair (cs : List Char) :
    unescapePointer cs = replacePair '~' '0' '~' (replacePair '~' '1' '/' cs) := by
  induction cs using unescapePointer.induct with
  | case1 cs ih => rw [unescapePointer, replacePair_pair, replacePair_cons (by decide), ih]
  | case2 cs ih =>
    have hzero : ('0' :: cs).head? ≠ some '1' := by simp
    rw [unescapePointer, replacePair_cons_of_head hzero, replacePair_cons (c := '0') (by decide), replacePair_pair, ih]
  | case3 c cs hone hzero ih =>
    by_cases hc : c = '~'
    · subst hc
      have hone' : cs.head? ≠ some '1' := by
        intro h
        obtain ⟨rest, rfl⟩ := List.head?_eq_some_iff.1 h
        exact hone rest rfl rfl
      have hzero' : cs.head? ≠ some '0' := by
        intro h
        obtain ⟨rest, rfl⟩ := List.head?_eq_some_iff.1 h
        exact hzero rest rfl rfl
      rw [unescapePointer, replacePair_cons_of_head hone',
        replacePair_cons_of_head (head?_replacePair (by decide) hzero'), ih]
      · exact hone
      · exact hzero
    · rw [unescapePointer_cons hc, replacePair_cons hc, replacePair_cons hc, ih]
  | case4 => rfl

example : replacePair '~' '1' '/' (replacePair '~' '0' '~' "~01".toList) = ['/'] := by decide

/-! ## References -/

/-- The reference to a named schema, from another file or, with the empty file, from its own. -/
def referenceTo (file name : String) : String :=
  file ++ "#" ++ (schemaPointer ++ String.ofList (escapePointer name.toList))

/-- The pointer of a reference: what stands behind its first `#`, or nothing. -/
def IsPointerOf (pointer reference : String) : Prop :=
  ∃ file : String, '#' ∉ file.toList ∧ (reference = file ++ "#" ++ pointer ∨ reference = file ∧ pointer = "")

/-- A pointer to a named schema. -/
def IsSchemaPointer (pointer : String) : Prop :=
  ∃ text : String, pointer = schemaPointer ++ text ∧ text ≠ "" ∧ '/' ∉ text.toList

section ParseRef

variable {c : Context}

theorem splitOnce?_reference {file : String} (h : '#' ∉ file.toList) (pointer : String) :
    splitOnce? '#' (file ++ "#" ++ pointer) = some (file, pointer) := splitOnce?_of_append (by simp) h

/-- A reference with a schema pointer denotes the name in the pointer, without its escapes. -/
theorem parseRef_append {file text : String} (hfile : '#' ∉ file.toList) (hne : text ≠ "")
    (hslash : '/' ∉ text.toList) :
    parseRef (file ++ "#" ++ (schemaPointer ++ text)) c =
      .ok ⟨if file = "" then c.doc else some file, String.ofList (unescapePointer text.toList)⟩ := by
  have hlead : afterLead? schemaPointer.toList (schemaPointer ++ text).toList = some text.toList := by
    rw [String.toList_append, afterLead?_append]
  unfold parseRef
  rw [splitOnce?_reference hfile, Option.getD_some]
  dsimp only
  rw [hlead]
  cases htext : text.toList with
  | nil => exact absurd (String.toList_eq_nil_iff.1 htext) hne
  | cons n ns =>
    rw [htext] at hslash
    simp [hslash]

/-- A reference whose pointer is no schema pointer is not supported. -/
theorem parseRef_of_not_pointer {reference pointer : String} (h : IsPointerOf pointer reference)
    (hno : ¬ IsSchemaPointer pointer) :
    parseRef reference c = .error (c.unsupported s!"reference '{reference}' is not a schema pointer") := by
  have hparts : ∃ file, (splitOnce? '#' reference).getD (reference, "") = (file, pointer) := by
    obtain ⟨file, hfile, rfl | ⟨rfl, rfl⟩⟩ := h
    · exact ⟨file, by rw [splitOnce?_reference hfile, Option.getD_some]⟩
    · exact ⟨reference, by rw [splitOnce?_eq_none hfile, Option.getD_none]⟩
  obtain ⟨file, hparts⟩ := hparts
  unfold parseRef
  rw [hparts]
  dsimp only
  split
  · rename_i n ns hlead
    have hpointer : pointer = schemaPointer ++ String.ofList (n :: ns) := by
      apply String.toList_inj.1
      rw [afterLead?_eq_some_iff.1 hlead, String.toList_append, String.toList_ofList]
    split
    · rfl
    · rename_i hslash
      refine absurd ⟨_, hpointer, by simp, ?_⟩ hno
      simpa using hslash
  · rfl

/-- The reference to a name denotes the name. -/
theorem parseRef_referenceTo {file name : String} (hfile : '#' ∉ file.toList) (hname : name ≠ "") :
    parseRef (referenceTo file name) c = .ok ⟨if file = "" then c.doc else some file, name⟩ := by
  have hne : String.ofList (escapePointer name.toList) ≠ "" := by
    intro h
    refine escapePointer_ne_nil (fun hnil => hname (String.toList_eq_nil_iff.1 hnil)) ?_
    simpa using congrArg String.toList h
  have hslash : '/' ∉ (String.ofList (escapePointer name.toList)).toList := by
    rw [String.toList_ofList]
    exact slash_not_mem_escapePointer _
  rw [referenceTo, parseRef_append hfile hne hslash, String.toList_ofList, unescapePointer_escapePointer,
    String.ofList_toList]

end ParseRef

/-! ## Resolving references -/

/-- A schema that exists is found: its node is known, or the schema is open already, or its node is built now. -/
theorem resolveKey_of_rawSchema {env : Env} {build : Build} {key : RefKey} {raw : Json}
    (hraw : env.rawSchema? key = some raw) (owner reference : String) (stack : List RefKey) (s : State) :
    resolveKey env build key owner reference stack s =
      match s.resolved.find? (·.1 == key) with
      | some entry => .ok entry.2 s
      | none =>
        if key ∈ stack then .error (.cyclicSchema (chainTo key stack)) s else buildKey env build key raw stack s := by
  have hget : ∀ f : State → Resolve Node, (get >>= f) s = f s s := fun _ => rfl
  rw [resolveKey, hget]
  cases s.resolved.find? fun entry => entry.1 == key with
  | some entry => rfl
  | none =>
    by_cases hopen : key ∈ stack
    · rw [if_pos (List.contains_iff_mem.2 hopen), if_pos hopen]
      rfl
    · rw [if_neg (mt List.contains_iff_mem.1 hopen), if_neg hopen, hraw]

/-- **Every named schema is addressable, and only named schemas are.** The reference with the escaped name of a schema
denotes the schema in the file of the reference, or in the document where the reference stands, and if there is such a
schema, resolving the reference finds it. A reference with any other pointer is not supported. -/
theorem named_schema_addressable (env : Env) (build : Build) (c : Context) :
    (∀ file name : String, '#' ∉ file.toList → name ≠ "" →
      let key : RefKey := ⟨if file = "" then c.doc else some file, name⟩
      parseRef (referenceTo file name) c = .ok key ∧
      ∀ document schemas raw, env.description.documentFor? key.doc = some document →
        Description.schemasOf document = some schemas → schemas.get? name = some raw →
        ∀ s, resolveRef env build (referenceTo file name) c s =
          match s.resolved.find? (·.1 == key) with
          | some entry => .ok entry.2 s
          | none =>
            if key ∈ c.stack then .error (.cyclicSchema (chainTo key c.stack)) s
            else buildKey env build key raw c.stack s) ∧
    ∀ reference pointer : String, IsPointerOf pointer reference → ¬ IsSchemaPointer pointer →
      let e := CompileError.unsupportedConstruct c.owner s!"reference '{reference}' is not a schema pointer"
      parseRef reference c = .error e ∧ ∀ s, resolveRef env build reference c s = .error e s := by
  refine ⟨fun file name hfile hname => ?_, fun reference pointer hpointer hno => ?_⟩
  · have hparse := parseRef_referenceTo (c := c) hfile hname
    refine ⟨hparse, fun document schemas raw hdocument hschemas hmember s => ?_⟩
    have hraw : env.rawSchema? ⟨if file = "" then c.doc else some file, name⟩ = some raw := by
      rw [Env.rawSchema?, hdocument, Option.bind_some, hschemas, Option.bind_some, hmember]
    rw [resolveRef, hparse]
    exact resolveKey_of_rawSchema hraw c.owner _ c.stack s
  · have hparse := parseRef_of_not_pointer (c := c) hpointer hno
    refine ⟨hparse, fun s => ?_⟩
    rw [resolveRef, hparse]
    rfl

/-- An external document with a schema whose name looks like an escape and has a slash, a `#` and a percent sign. -/
def oddNameEnv : Env :=
  let schemas : Json := .obj [("~1/#%2F", .obj [("type", .str "string")])]
  ⟨⟨"", "", "", "", .obj [], [("b.json", .obj [("components", .obj [("schemas", schemas)])])]⟩, .standard⟩

theorem named_schema_addressable_oddName :
    let key : RefKey := ⟨some "b.json", "~1/#%2F"⟩
    let c : Context := ⟨none, "operation:list", "Item", none, .standard, []⟩
    parseRef "b.json#/components/schemas/~01~1#%2F" c = .ok key ∧
      resolveRef oddNameEnv (Schema.build oddNameEnv 1) "b.json#/components/schemas/~01~1#%2F" c {} =
        buildKey oddNameEnv (Schema.build oddNameEnv 1) key (.obj [("type", .str "string")]) [] {} ∧
      parseRef "b.json#/components/parameters/A" c = .error (.unsupportedConstruct "operation:list"
        "reference 'b.json#/components/parameters/A' is not a schema pointer") := by
  intro key c
  have hreference : referenceTo "b.json" "~1/#%2F" = "b.json#/components/schemas/~01~1#%2F" := by decide
  have hfile : '#' ∉ "b.json".toList := by decide
  obtain ⟨haddress, hother⟩ := named_schema_addressable oddNameEnv (Schema.build oddNameEnv 1) c
  obtain ⟨hparse, hfound⟩ := haddress "b.json" "~1/#%2F" hfile (by decide)
  rw [hreference] at hparse hfound
  have hno : ¬ IsSchemaPointer "/components/parameters/A" := by
    rintro ⟨text, htext, -⟩
    have hlead : afterLead? schemaPointer.toList "/components/parameters/A".toList = some text.toList := by
      rw [htext, String.toList_append, afterLead?_append]
    have hnone : afterLead? schemaPointer.toList "/components/parameters/A".toList = none := by decide
    rw [hnone] at hlead
    cases hlead
  exact ⟨hparse, hfound _ _ _ rfl rfl rfl {}, (hother _ _ ⟨"b.json", hfile, .inl rfl⟩ hno).1⟩

end ApiForge.Schema
