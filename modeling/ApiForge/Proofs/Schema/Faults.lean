import ApiForge.Proofs.Schema.Denotation
import ApiForge.Proofs.Schema.Verdict

/-!
# What the errors of a resolver are about

Every error of a resolver is about something in a schema: a value that stands in the schema that was asked for, a value
in a named schema that it leads to, or a chain of named schemas that refer to one another.

* `Unsupported doc v detail`, `Fault env doc owner v e`: what is wrong with a value, read off the value alone.
* `NamedFault env e`: an error about named schemas, all of which exist.
* `Seat env fail raw c`: where a build is. Errors about what stands in the schema are among `fail`, and each open schema
  refers to the one that was opened next. What a build descends to has a seat again (`Seat.descends`).
* `build_failsOnly`: a build with enough steps fails only with errors of its seat. So the number of steps never shows
  in an error.
* `resolveComponents_failsOnly`, `resolveInline_failsOnly`, `synthesizeObject_failsOnly`: the same for what a resolver
  is asked.
-/

namespace ApiForge

/-- A computation that fails only with errors that are `fail`. -/
def FailsOnly {σ α : Type} (fail : CompileError → Prop) (m : EStateM CompileError σ α) : Prop :=
  ∀ s, Ends m s (fun _ _ => True) fun e _ => fail e

section FailsOnly

variable {σ α β : Type} {fail fail' : CompileError → Prop} {m : EStateM CompileError σ α}

theorem FailsOnly.pure (a : α) : FailsOnly fail (pure a : EStateM CompileError σ α) := fun _ => trivial

theorem FailsOnly.throw {e : CompileError} (h : fail e) : FailsOnly fail (throw e : EStateM CompileError σ α) :=
  fun _ => h

theorem FailsOnly.get : FailsOnly fail (get : EStateM CompileError σ σ) := fun _ => trivial

theorem FailsOnly.modify (f : σ → σ) : FailsOnly fail (modify f : EStateM CompileError σ PUnit) := fun _ => trivial

theorem FailsOnly.bind {f : α → EStateM CompileError σ β} (h : FailsOnly fail m) (hf : ∀ a, FailsOnly fail (f a)) :
    FailsOnly fail (m >>= f) := fun s => (h s).bind fun a s₁ _ => hf a s₁

theorem FailsOnly.map {f : α → β} (h : FailsOnly fail m) : FailsOnly fail (f <$> m) := fun s =>
  ends_map.2 (h s)

theorem FailsOnly.mono (h : FailsOnly fail m) (hfail : ∀ e, fail e → fail' e) : FailsOnly fail' m :=
  fun s => (h s).mono (fun _ _ h => h) fun e _ he => hfail e he

end FailsOnly

end ApiForge

namespace ApiForge.Schema

open Json Naming

/-! ## Faults -/

/-- What is not supported in a schema, and the words for it. The document of the schema matters for references only. -/
inductive Unsupported (doc : Option String) : Json → String → Prop where
  | noSchema {v : Json} : v.members? = none → v.bool? ≠ some true →
      Unsupported doc v ("schema must be an object, found " ++ v.text)
  | pointer {ms : Members} {r : String} : textOf ms "$ref" = some r → (∀ key, ¬ Denotes doc r key) →
      Unsupported doc (.obj ms) s!"reference '{r}' is not a schema pointer"
  | noRecord {ms : Members} {r : String} {key : RefKey} : textOf ms "$ref" = some r → Denotes doc r key →
      Unsupported doc (.obj ms) s!"allOf member '{r}' is not an object schema"
  | nullType {ms : Members} : ms.get? "type" = some (.str "null") → Unsupported doc (.obj ms) "schema of type null"
  | noType {ms : Members} {types : List Json} : ms.get? "type" = some (.arr types) →
      (types.filterMap Json.text?).filter (· != "null") = [] →
      Unsupported doc (.obj ms) "type list without a non-null type"
  | manyTypes {ms : Members} {types : List Json} {many : List String} : ms.get? "type" = some (.arr types) →
      (types.filterMap Json.text?).filter (· != "null") = many → 2 ≤ many.length →
      Unsupported doc (.obj ms) ("type list [" ++ Text.commaList many ++ "]")
  | oddType {ms : Members} {v : Json} : ms.get? "type" = some v → v.text? = none → v.items? = none →
      Unsupported doc (.obj ms) ("invalid type " ++ v.text)
  | unknownType {ms : Members} {type : String} : IsTyped ms type →
      type ∉ ["object", "array", "string", "integer", "number", "boolean"] →
      Unsupported doc (.obj ms) s!"unknown type '{type}'"
  | enumMember {ms : Members} {members : List Json} {v : Json} : (ms.get? "enum").bind Json.items? = some members →
      v ∈ members → v.text? = none → v.isNull = false →
      Unsupported doc (.obj ms) ("string enum member " ++ v.text ++ " is not a string")
  | noMembers {ms : Members} {members : List Json} : (ms.get? "enum").bind Json.items? = some members →
      (∀ v ∈ members, v.isNull = true) → Unsupported doc (.obj ms) "enum without members"
  | allOfList {ms : Members} {v : Json} : ms.get? "allOf" = some v → v.items? = none →
      Unsupported doc (.obj ms) "allOf must be a list"
  | allOfMember {ms : Members} {members : List Json} {v : Json} : ms.get? "allOf" = some (.arr members) →
      v ∈ members → v.members? = none → Unsupported doc (.obj ms) "allOf member must be a schema object"
  | notComposable {ms : Members} : isComposable ms = false →
      Unsupported doc (.obj ms) "allOf member is not an object schema"
  | unionList {ms : Members} {v : Json} : (ms.get? "oneOf").or (ms.get? "anyOf") = some v → v.items? = none →
      Unsupported doc (.obj ms) "oneOf/anyOf must be a list"
  | unionMembers {ms : Members} {members others : List Json} :
      (ms.get? "oneOf").or (ms.get? "anyOf") = some (.arr members) →
      members.filter (!isNullMember ·) = others → others.length ≠ 1 →
      Unsupported doc (.obj ms) s!"oneOf/anyOf with {others.length} non-null members"

/-- What is wrong with a value in a schema, and the error that says so. -/
inductive Fault (env : Env) (doc : Option String) (owner : String) : Json → CompileError → Prop where
  | unsupported {v : Json} {detail : String} : Unsupported doc v detail →
      Fault env doc owner v (.unsupportedConstruct owner detail)
  | pattern {ms : Members} {source : String} : textOf ms "pattern" = some source → TextPattern.parse? source = none →
      Fault env doc owner (.obj ms) (.invalidPattern owner source)
  | missing {ms : Members} {r : String} {key : RefKey} : textOf ms "$ref" = some r → Denotes doc r key →
      env.rawSchema? key = none → Fault env doc owner (.obj ms) (.unresolvedReference owner r)

/-- An error about named schemas: about something in one of them, or about a chain of them that refer to one another and
come back to the first. -/
inductive NamedFault (env : Env) : CompileError → Prop where
  | refused {key : RefKey} {raw v : Json} {e : CompileError} : env.rawSchema? key = some raw → v.Inside raw →
      Fault env key.doc ("schema:" ++ key.name) v e → NamedFault env e
  | cycle {keys : List RefKey} : (∀ k ∈ keys, ∃ raw, env.rawSchema? k = some raw) → keys.IsChain (Refers env) →
      2 ≤ keys.length → keys.head? = keys.getLast? → NamedFault env (.cyclicSchema (keys.map RefKey.text))

/-- What a fault in a schema is about is what the error names. -/
theorem Fault.owner {env : Env} {doc : Option String} {owner : String} {v : Json} {e : CompileError}
    (h : Fault env doc owner v e) : e.owner = owner := by
  cases h <;> rfl

/-! ## Seats -/

/-- Where a build is: errors about what stands in the schema or in named schemas are among `fail`, the open schemas
exist and each refers to the one that was opened next, and the innermost one traverses what the schema traverses. -/
structure Seat (env : Env) (fail : CompileError → Prop) (raw : Json) (c : Context) : Prop where
  fault : ∀ {v e}, v.Inside raw → Fault env c.doc c.owner v e → fail e
  named : ∀ {e}, NamedFault env e → fail e
  known : ∀ k ∈ c.stack, ∃ raw, env.rawSchema? k = some raw
  refers : c.stack.IsChain fun k k' => Refers env k' k
  top : ∀ key ∈ c.stack.head?, c.doc = key.doc ∧
    ∃ whole, env.rawSchema? key = some whole ∧ ∀ r, Traverses raw r → Traverses whole r

section Seat

variable {env : Env} {fail : CompileError → Prop} {raw raw' : Json} {c c' : Context} {key : RefKey} {r : String}

theorem Seat.push (h : Seat env fail raw c) (hr : Traverses raw r) (hd : Denotes c.doc r key) :
    (key :: c.stack).IsChain fun k k' => Refers env k' k := by
  cases hstack : c.stack with
  | nil => exact .singleton key
  | cons k rest =>
    obtain ⟨hdoc, whole, hwhole, hsub⟩ := h.top k (by rw [hstack]; rfl)
    have hrefers := h.refers
    rw [hstack] at hrefers
    exact List.isChain_cons_cons.2 ⟨⟨whole, r, hwhole, hsub r hr, hdoc ▸ hd⟩, hrefers⟩

/-- A named schema that is opened has a seat. -/
theorem seat_ofKey {stack : List RefKey} (hnamed : ∀ {e}, NamedFault env e → fail e)
    (hknown : ∀ k ∈ stack, ∃ raw, env.rawSchema? k = some raw)
    (hrefers : (key :: stack).IsChain fun k k' => Refers env k' k) (hraw : env.rawSchema? key = some raw)
    (name : String) : Seat env fail raw (.ofKey env key name stack) where
  fault hinside hfault := hnamed (.refused hraw hinside hfault)
  named := hnamed
  known := List.forall_mem_cons.2 ⟨⟨raw, hraw⟩, hknown⟩
  refers := hrefers
  top k hk := by
    cases hk
    exact ⟨rfl, raw, hraw, fun _ h => h⟩

/-- What a build descends to has a seat. -/
theorem Seat.descends (h : Seat env fail raw c) (hd : Descends env raw c raw' c') : Seat env fail raw' c' := by
  cases hd with
  | part hpart hdoc howner hstack =>
    refine ⟨fun hinside hfault => ?_, h.named, hstack ▸ h.known, hstack ▸ h.refers, fun k hk => ?_⟩
    · rw [hdoc, howner] at hfault
      exact h.fault (hinside.trans hpart.inside) hfault
    · obtain ⟨hkdoc, whole, hwhole, hsub⟩ := h.top k (hstack ▸ hk)
      exact ⟨hdoc.trans hkdoc, whole, hwhole, fun r hr => hsub r (hpart.traverses r hr)⟩
  | reference hr hkey hnew hraw => exact seat_ofKey h.named h.known (h.push hr hkey) hraw _

/-- An open schema that is referred to closes a chain of named schemas. -/
theorem Seat.cycle (h : Seat env fail raw c) (hr : Traverses raw r) (hd : Denotes c.doc r key) (hkey : key ∈ c.stack) :
    fail (.cyclicSchema (chainTo key c.stack)) := by
  obtain ⟨keys, htexts, hsub, hrefers, hlength, hclosed⟩ := exists_chainTo (h.push hr hd) hkey
  rw [htexts]
  refine h.named (.cycle (fun k hk => ?_) hrefers hlength hclosed)
  rcases List.mem_cons.1 (hsub hk) with rfl | hk
  · exact h.known k hkey
  · exact h.known k hk

theorem Seat.unsupported (h : Seat env fail raw c) {v : Json} {detail : String} (hinside : v.Inside raw)
    (hv : Unsupported c.doc v detail) : fail (c.unsupported detail) := h.fault hinside (.unsupported hv)

end Seat

/-! ## Steps -/

section Steps

variable {fail : CompileError → Prop} {env : Env} {raw : Json} {c : Context} {build : Build}

/-- What is silent never fails. -/
theorem Silent.failsOnly {α : Type} {m : Resolve α} {P : α → Prop} (h : Silent m P) : FailsOnly fail m :=
  fun s => (h s).mono (fun _ _ _ => trivial) fun _ _ hfalse => hfalse.elim

theorem resolveKey_failsOnly {key : RefKey} {owner reference : String} {stack : List RefKey}
    (hcycle : key ∈ stack → fail (.cyclicSchema (chainTo key stack)))
    (hmissing : env.rawSchema? key = none → fail (.unresolvedReference owner reference))
    (hb : ∀ raw name, env.rawSchema? key = some raw → key ∉ stack →
      FailsOnly fail (build raw (.ofKey env key name stack))) :
    FailsOnly fail (resolveKey env build key owner reference stack) := by
  refine FailsOnly.get.bind fun s => ?_
  split
  · exact .pure _
  · split
    · rename_i hkey
      exact .throw (hcycle (by simpa using hkey))
    · rename_i hkey
      split
      · rename_i hraw
        exact .throw (hmissing hraw)
      · rename_i raw hraw
        refine (componentName_silent key).failsOnly.bind fun name => ?_
        exact (hb raw name hraw (by simpa using hkey)).bind fun node => (FailsOnly.modify _).bind fun _ => .pure _

/-! ## Values without parts -/

section Values

variable {ms : Members}

theorem constraintsAt_failsOnly (hseat : Seat env fail raw c) (hinside : (Json.obj ms).Inside raw) :
    FailsOnly fail (constraintsAt ms c) := by
  unfold constraintsAt
  cases h : constraintsOf ms c with
  | ok constraints => exact .pure _
  | error e =>
    refine .throw ?_
    unfold constraintsOf at h
    cases hpattern : textOf ms "pattern" with
    | none => rw [hpattern] at h; cases h
    | some source =>
      rw [hpattern] at h
      cases hparse : TextPattern.parse? source with
      | none =>
        simp only [hparse] at h
        cases h
        exact hseat.fault hinside (.pattern hpattern hparse)
      | some p => simp only [hparse] at h; cases h

theorem scalarNode_failsOnly (hseat : Seat env fail raw c) (hinside : (Json.obj ms).Inside raw) (kind : ScalarKind)
    (nullable : Bool) : FailsOnly fail (scalarNode c kind nullable ms) :=
  (constraintsAt_failsOnly hseat hinside).bind fun _ => (declareNode_silent _).failsOnly

/-- Every value is a schema of some kind: a scalar without members never fails. -/
theorem scalarNode_nil_failsOnly (kind : ScalarKind) (nullable : Bool) (c : Context) :
    FailsOnly fail (scalarNode c kind nullable []) :=
  fun _ => (declareNode_silent _).failsOnly _

/-- The texts of an enumeration fail on a member that is no text. -/
theorem enumTexts_fault {e : CompileError} : ∀ {members : List Json}, enumTexts c members = .error e →
    ∃ v ∈ members, v.text? = none ∧ v.isNull = false ∧
      e = c.unsupported ("string enum member " ++ v.text ++ " is not a string")
  | .str _ :: rest, h => by
    rw [enumTexts] at h
    cases hrest : enumTexts c rest with
    | ok texts => rw [hrest] at h; cases h
    | error e' =>
      rw [hrest] at h
      cases h
      obtain ⟨v, hv, hfault⟩ := enumTexts_fault hrest
      exact ⟨v, List.mem_cons_of_mem _ hv, hfault⟩
  | .null :: rest, h => by
    rw [enumTexts] at h
    obtain ⟨v, hv, hfault⟩ := enumTexts_fault h
    exact ⟨v, List.mem_cons_of_mem _ hv, hfault⟩
  | .bool _ :: _, h | .num _ :: _, h | .arr _ :: _, h | .obj _ :: _, h => by
    cases h
    exact ⟨_, List.mem_cons_self, rfl, rfl, rfl⟩

/-- An enumeration without texts has no member but `null`. -/
theorem isNull_of_enumTexts : ∀ {members : List Json}, enumTexts c members = .ok [] → ∀ v ∈ members, v.isNull = true
  | [], _, _, hv => by cases hv
  | .str _ :: rest, h, _, _ => by
    rw [enumTexts] at h
    cases hrest : enumTexts c rest <;> rw [hrest] at h <;> cases h
  | .null :: rest, h, v, hv => by
    rw [enumTexts] at h
    rcases List.mem_cons.1 hv with rfl | hv
    · rfl
    · exact isNull_of_enumTexts h v hv
  | .bool _ :: _, h, _, _ | .num _ :: _, h, _, _ | .arr _ :: _, h, _, _ | .obj _ :: _, h, _, _ => by cases h

theorem enumNode_failsOnly (hseat : Seat env fail raw c) (hinside : (Json.obj ms).Inside raw) {members : List Json}
    (henum : (ms.get? "enum").bind Json.items? = some members) (nullable : Bool) :
    FailsOnly fail (enumNode ms members nullable c) := by
  unfold enumNode
  split
  · rename_i e he
    obtain ⟨v, hv, htext, hnull, rfl⟩ := enumTexts_fault he
    exact .throw (hseat.unsupported hinside (.enumMember henum hv htext hnull))
  · rename_i hempty
    exact .throw (hseat.unsupported hinside (.noMembers henum (isNull_of_enumTexts hempty)))
  · refine (declaredName_silent c).failsOnly.bind fun name => openSlot_silent.failsOnly.bind fun slot => ?_
    refine (constraintsAt_failsOnly hseat hinside).bind fun constraints => ?_
    exact (fillSlot_silent slot _).failsOnly.bind fun _ => .pure _

/-- A type that cannot be read is wrong in one of four ways. -/
theorem typeOf_fault {doc : Option String} {e : CompileError} (h : typeOf ms c = .error e) :
    ∃ detail, e = c.unsupported detail ∧ Unsupported doc (.obj ms) detail := by
  unfold typeOf at h
  cases htype : ms.get? "type" with
  | none =>
    rw [htype] at h
    dsimp only at h
    repeat' split at h
    all_goals cases h
  | some v =>
    rw [htype] at h
    cases v with
    | str t =>
      dsimp only at h
      split at h
      · rename_i hnull
        cases h
        rw [beq_iff_eq] at hnull
        exact ⟨_, rfl, .nullType (hnull ▸ htype)⟩
      · cases h
    | arr types =>
      dsimp only at h
      split at h
      · cases h
      · rename_i hnone
        cases h
        exact ⟨_, rfl, .noType htype hnone⟩
      · rename_i hsingle hnone
        cases h
        refine ⟨_, rfl, .manyTypes htype rfl ?_⟩
        cases hmany : (types.filterMap Json.text?).filter (· != "null") with
        | nil => exact absurd hmany hnone
        | cons first rest =>
          cases rest with
          | nil => exact absurd hmany (hsingle first)
          | cons second rest => simp
    | null | bool _ | num _ | obj _ =>
      cases h
      exact ⟨_, rfl, .oddType htype rfl rfl⟩

end Values

/-! ## References and compositions -/

/-- A reference that is no schema pointer denotes nothing. -/
theorem parseRef_fault {reference : String} {e : CompileError} (h : parseRef reference c = .error e) :
    e = c.unsupported s!"reference '{reference}' is not a schema pointer" ∧ ∀ key, ¬ Denotes c.doc reference key := by
  refine ⟨?_, fun key ⟨c', hdoc, hkey⟩ => ?_⟩
  · unfold parseRef at h
    dsimp only at h
    split at h
    · split at h
      · cases h
        rfl
      · cases h
    · cases h
      rfl
  · rw [parseRef_ok hkey hdoc] at h
    cases h

theorem buildFields_failsOnly (ownerName : String) : ∀ (entries : List Entry) (taken : List String),
    (∀ e ∈ entries, ∀ hint, FailsOnly fail (build e.schema (c.child hint))) →
      FailsOnly fail (buildFields build ownerName c taken entries)
  | [], _, _ => .pure _
  | e :: es, taken, h => by
    obtain ⟨he, hes⟩ := List.forall_mem_cons.1 h
    refine (he (ownerName ++ pascalCase e.key)).bind fun type => ?_
    refine (rulesOf_silent type e.required).failsOnly.bind fun rules => ?_
    exact (buildFields_failsOnly ownerName es _ hes).bind fun _ => .pure _

variable (hseat : Seat env fail raw c)
  (hb : ∀ raw' c', Descends env raw c raw' c' → FailsOnly fail (build raw' c'))
include hseat hb

/-- A reference that is resolved denotes a named schema. -/
theorem resolveRef_ends {ms : Members} {r : String} (hinside : (Json.obj ms).Inside raw)
    (href : textOf ms "$ref" = some r) (hr : Traverses raw r) (s : State) :
    Ends (resolveRef env build r c) s (fun _ _ => ∃ key, Denotes c.doc r key) fun e _ => fail e := by
  unfold resolveRef
  cases hkey : parseRef r c with
  | error e =>
    obtain ⟨rfl, hnone⟩ := parseRef_fault hkey
    exact hseat.unsupported hinside (.pointer href hnone)
  | ok key =>
    have hd : Denotes c.doc r key := ⟨c, rfl, hkey⟩
    have hfails : FailsOnly fail (resolveKey env build key c.owner r c.stack) :=
      resolveKey_failsOnly (hseat.cycle hr hd) (fun hraw => hseat.fault hinside (.missing href hd hraw))
        fun raw' name hraw hnew => hb raw' _ (.reference hr hd hnew hraw)
    exact (hfails s).mono (fun _ _ _ => ⟨key, hd⟩) fun _ _ h => h

theorem referredFields_failsOnly {ms : Members} {r : String} (hinside : (Json.obj ms).Inside raw)
    (href : textOf ms "$ref" = some r) (hr : Traverses raw r) : FailsOnly fail (referredFields env build r c) := by
  refine fun s => (resolveRef_ends hseat hb hinside href hr s).bind fun target _ ⟨key, hd⟩ => ?_
  split
  · trivial
  · exact hseat.unsupported hinside (.noRecord href hd)

theorem mergeMembers_failsOnly {inline : Members → Merged → Resolve Merged} {ms : Members} {all : List Json}
    (hms : IsPiece raw ms) (hall : ms.get? "allOf" = some (.arr all))
    (hinline : ∀ ms' m, .obj ms' ∈ all → textOf ms' "$ref" = none → FailsOnly fail (inline ms' m)) :
    ∀ (members : List Json) (m : Merged), members ⊆ all → FailsOnly fail (mergeMembers env build inline c members m)
  | [], _, _ => .pure _
  | .obj ms' :: rest, m, hsub => by
    obtain ⟨hmem, hrest⟩ := List.cons_subset.1 hsub
    have hinside : (Json.obj ms').Inside raw :=
      .trans (.trans (.item hmem .self) (Members.inside_of_get? hall)) hms.inside
    have hmember : FailsOnly fail (mergeMember env build inline c ms' m) := by
      unfold mergeMember
      cases href : textOf ms' "$ref" with
      | some r => exact (referredFields_failsOnly hseat hb hinside href (hms.reference hall hmem href)).map
      | none => exact hinline ms' m hmem href
    exact hmember.bind fun m₁ => mergeMembers_failsOnly hms hall hinline rest m₁ hrest
  | .null :: _, _, hsub | .bool _ :: _, _, hsub | .num _ :: _, _, hsub | .str _ :: _, _, hsub | .arr _ :: _, _, hsub =>
    .throw (hseat.unsupported hms.inside (.allOfMember hall (List.cons_subset.1 hsub).1 rfl))

theorem mergeAllOf_failsOnly (ownerName : String) : ∀ (levels : Nat) (ms : Members) (m : Merged), IsPiece raw ms →
    FailsOnly fail (mergeAllOf env build ownerName c levels ms m)
  | 0, _, _, _ => .pure _
  | levels + 1, ms, m, hms => by
    have hlist : FailsOnly fail
        (mergeList env build (mergeAllOf env build ownerName c levels) c (ms.get? "allOf") m) := by
      cases hall : ms.get? "allOf" with
      | none => exact .pure _
      | some v =>
        cases v with
        | arr members =>
          refine mergeMembers_failsOnly hseat hb hms hall (fun ms' m' hmem href => ?_) members m (List.Subset.refl _)
          exact mergeAllOf_failsOnly ownerName levels ms' m' (hms.inline hall hmem href)
        | _ => exact .throw (hseat.unsupported hms.inside (.allOfList hall rfl))
    refine hlist.bind fun m₁ => ?_
    unfold mergeOwn
    split
    · refine (buildFields_failsOnly ownerName _ [] fun e he hint => ?_).bind fun _ => .pure _
      exact hb e.schema (c.child hint) (.part (hms.property (mem_entriesOf he)) rfl rfl rfl)
    · rename_i hcomposable
      exact .throw (hseat.unsupported hms.inside (.notComposable (by simpa using hcomposable)))

omit hseat hb in
theorem settleFields_failsOnly (required : List String) : ∀ (fs : List Field) (taken : List String),
    FailsOnly fail (settleFields c required taken fs)
  | [], _ => .pure _
  | f :: fs, taken => by
    refine (settledRules_silent f _).failsOnly.bind fun rules => ?_
    exact (settleFields_failsOnly required fs _).bind fun _ => .pure _

theorem allOfNode_failsOnly {ms : Members} (hraw : raw = .obj ms) (href : textOf ms "$ref" = none)
    (hall : ms.has "allOf" = true) : FailsOnly fail (allOfNode env build ms c) := by
  subst hraw
  refine (declaredName_silent c).failsOnly.bind fun name => openSlot_silent.failsOnly.bind fun slot => ?_
  refine (mergeAllOf_failsOnly hseat hb name _ ms {} (isPiece_self href hall)).bind fun merged => ?_
  exact (settleFields_failsOnly _ _ _).bind fun _ => (fillSlot_silent slot _).failsOnly.bind fun _ => .pure _

/-! ## Schemas -/

theorem unionNode_failsOnly {ms : Members} (hraw : raw = .obj ms) (href : textOf ms "$ref" = none)
    (hall : ms.has "allOf" = false) {members : Json} (hunion : (ms.get? "oneOf").or (ms.get? "anyOf") = some members) :
    FailsOnly fail (unionNode build members c) := by
  subst hraw
  unfold unionNode
  cases members with
  | arr list =>
    dsimp only [Json.items?]
    split
    · rename_i single hsingle
      refine (hb single c (.part (isPart_union href hall hunion hsingle) rfl rfl rfl)).bind fun node => ?_
      split
      · exact .pure _
      · exact (makeNullable_silent node).failsOnly
    · rename_i hsingle
      refine .throw (hseat.unsupported .self (.unionMembers hunion rfl fun hlength => ?_))
      obtain ⟨single, hone⟩ := List.length_eq_one_iff.1 hlength
      exact hsingle single hone
  | _ => exact .throw (hseat.unsupported .self (.unionList hunion rfl))

omit hseat in
theorem objectNode_failsOnly {ms : Members} (hraw : raw = .obj ms) (hplain : Plain ms) (ht : IsTyped ms "object")
    (nullable : Bool) : FailsOnly fail (objectNode build ms nullable c) := by
  subst hraw
  refine (declaredName_silent c).failsOnly.bind fun name => openSlot_silent.failsOnly.bind fun slot => ?_
  refine (buildFields_failsOnly name _ [] fun e he hint => ?_).bind fun _ => ?_
  · exact hb e.schema (c.child hint) (.part (isPart_property hplain ht (mem_entriesOf he)) rfl rfl rfl)
  · exact (fillSlot_silent slot _).failsOnly.bind fun _ => .pure _

theorem arrayNode_failsOnly {ms : Members} (hraw : raw = .obj ms) (hplain : Plain ms) (ht : IsTyped ms "array")
    (nullable : Bool) : FailsOnly fail (arrayNode build ms nullable c) := by
  subst hraw
  refine (openSlotIf_silent _).failsOnly.bind fun slot => ?_
  have helement : FailsOnly fail (elementNode build ms (c.child (labelOf c ++ "Item"))) := by
    unfold elementNode
    cases hitems : ms.get? "items" with
    | none => exact scalarNode_nil_failsOnly .any false _
    | some items => exact hb items _ (.part (isPart_items hplain ht hitems) rfl rfl rfl)
  refine helement.bind fun element => (constraintsAt_failsOnly hseat .self).bind fun constraints => ?_
  exact (fillSlotIf_silent slot _).failsOnly.bind fun _ => .pure _

theorem typedNode_failsOnly {ms : Members} (hraw : raw = .obj ms) (hplain : Plain ms) :
    FailsOnly fail (typedNode build ms c) := by
  subst hraw
  unfold typedNode
  cases htype : typeOf ms c with
  | error e =>
    obtain ⟨detail, rfl, hfault⟩ := typeOf_fault htype
    exact .throw (hseat.unsupported .self hfault)
  | ok found =>
    obtain ⟨type, listed⟩ := found
    have hscalar (kind : ScalarKind) (nullable : Bool) : FailsOnly fail (scalarNode c kind nullable ms) :=
      scalarNode_failsOnly hseat .self kind nullable
    dsimp only
    split
    · exact objectNode_failsOnly hb rfl hplain ⟨c, listed, htype⟩ _
    · exact arrayNode_failsOnly hseat hb rfl hplain ⟨c, listed, htype⟩ _
    · split
      · rename_i members henum
        exact enumNode_failsOnly hseat .self henum _
      · exact hscalar _ _
    · exact hscalar _ _
    · exact hscalar _ _
    · exact hscalar _ _
    · exact hscalar _ _
    · rename_i other hobject harray hstring hinteger hnumber hboolean
      refine .throw (hseat.unsupported .self (.unknownType ⟨c, listed, htype⟩ ?_))
      simp only [List.mem_cons, List.not_mem_nil, or_false, not_or]
      refine ⟨?_, ?_, ?_, ?_, ?_, ?_⟩ <;> rintro rfl
      · exact hobject rfl
      · exact harray rfl
      · exact hstring rfl
      · exact hinteger rfl
      · exact hnumber rfl
      · exact hboolean rfl

theorem buildStep_failsOnly : FailsOnly fail (buildStep env build raw c) := by
  unfold buildStep
  split
  · rename_i ms
    unfold formNode
    split
    · rename_i r href
      refine fun s => (resolveRef_ends hseat hb .self href (.reference href) s).bind fun target s₁ _ => ?_
      exact (declareNode_silent _).failsOnly s₁
    · rename_i href
      split
      · rename_i hall
        exact allOfNode_failsOnly hseat hb rfl href hall
      · rename_i hall
        have hall : Members.has ms "allOf" = false := by simpa using hall
        split
        · rename_i members hunion
          exact unionNode_failsOnly hseat hb rfl href hall hunion
        · rename_i hunion
          exact typedNode_failsOnly hseat hb rfl ⟨href, hall, hunion⟩
  · exact scalarNode_nil_failsOnly .any false c
  · rename_i hobject htrue
    refine .throw (hseat.unsupported .self (.noSchema ?_ ?_))
    · cases raw with
      | obj ms => exact (hobject ms rfl).elim
      | _ => rfl
    · cases raw with
      | bool b =>
        rintro ⟨⟩
        exact htrue rfl
      | _ =>
        intro h
        cases h

end Steps

/-! ## Builds -/

/-- **A build with enough steps fails only with errors of its seat.** -/
theorem build_failsOnly {env : Env} {fail : CompileError → Prop} {bound : Nat} : ∀ (n : Nat) (raw : Json) (c : Context),
    Enough env bound n raw c → Seat env fail raw c → FailsOnly fail (build env n raw c)
  | 0, _, _, h, _ => by have := h.steps; omega
  | n + 1, raw, c, h, hseat => buildStep_failsOnly hseat fun raw' c' hd =>
    build_failsOnly n raw' c' (h.descends hd) (hseat.descends hd)

/-! ## Resolvers -/

section Resolvers

variable {env : Env} {fail : CompileError → Prop}

/-- The named schemas of the root document fail only with errors about named schemas. -/
theorem resolveKeys_failsOnly : ∀ (names : List String), names ⊆ env.rootKeys →
    FailsOnly (NamedFault env) (resolveKeys env (build env (env.steps 0)) names)
  | [], _ => .pure _
  | name :: names, h => by
    obtain ⟨hname, hnames⟩ := List.cons_subset.1 h
    obtain ⟨raw, hraw⟩ := exists_rawSchema_root hname
    refine FailsOnly.bind (resolveKey_failsOnly (fun hkey => by cases hkey) (fun hnone => ?_) ?_) fun node =>
      (resolveKeys_failsOnly names hnames).bind fun _ => .pure _
    · cases hraw.symm.trans hnone
    · intro raw' type hraw' _
      exact build_failsOnly _ raw' _ (enough_rawSchema hraw' (Nat.le_refl _) _)
        (seat_ofKey id (fun _ hk => by cases hk) (.singleton _) hraw' type)

theorem resolveComponents_failsOnly : FailsOnly (NamedFault env) (resolveComponents env) :=
  resolveKeys_failsOnly _ (List.Subset.refl _)

section Loose

variable {owner : String} (hnamed : ∀ {e}, NamedFault env e → fail e)
include hnamed

/-- A schema that stands in no named one fails only with errors about what stands in it or in named schemas. -/
theorem build_loose_failsOnly {raw : Json} (hfault : ∀ {v e}, v.Inside raw → Fault env none owner v e → fail e)
    {depth : Nat} (hdepth : raw.depth ≤ depth) (c : Context) (hdoc : c.doc = none) (howner : c.owner = owner)
    (hstack : c.stack = []) : FailsOnly fail (build env (env.steps depth) raw c) := by
  have henough : Enough env (max env.depth depth) (env.steps depth) raw c :=
    enough_of_le (Nat.le_max_left _ _) (Nat.le_trans hdepth (Nat.le_max_right _ _)) (Nat.le_refl _) c
  refine build_failsOnly _ raw c henough ⟨fun hinside h => ?_, hnamed, ?_, ?_, ?_⟩
  · rw [hdoc, howner] at h
    exact hfault hinside h
  all_goals rw [hstack]
  · exact List.forall_mem_nil _
  · exact .nil
  · exact fun _ hk => by cases hk

theorem resolveInline_failsOnly {raw : Json} (hfault : ∀ {v e}, v.Inside raw → Fault env none owner v e → fail e)
    (hint : String) : FailsOnly fail (resolveInline env raw hint owner) :=
  build_loose_failsOnly hnamed hfault (Nat.le_refl _) _ rfl rfl rfl

omit hnamed in
/-- A plain string and a schema that says nothing never fail. -/
theorem build_plain_failsOnly {raw : Json} (hraw : raw = stringSchema ∨ raw = .obj []) (depth : Nat) (c : Context) :
    FailsOnly fail (build env (env.steps depth) raw c) := by
  obtain ⟨n, hn⟩ : ∃ n, env.steps depth = n + 1 := by
    have hpos : 0 < env.steps depth := Nat.mul_pos (by omega) (by omega)
    exact ⟨env.steps depth - 1, by omega⟩
  rw [hn]
  rcases hraw with rfl | rfl
  · exact fun s => (declareNode_silent _).failsOnly s
  · exact fun s => (declareNode_silent _).failsOnly s

/-- A record of loose members fails only with errors about what stands in their schemas or in named schemas. -/
theorem synthesizeObject_failsOnly {members : List Member}
    (hfault : ∀ m ∈ members, ∀ schema ∈ m.schema, ∀ {v e}, v.Inside schema → Fault env none owner v e → fail e)
    (hint : String) (presence : Presence) :
    FailsOnly fail (synthesizeObject env hint members presence owner) := by
  refine (allocateName_silent hint).failsOnly.bind fun name => openSlot_silent.failsOnly.bind fun slot => ?_
  refine (buildFields_failsOnly name _ [] fun e he hint => ?_).bind fun fields => ?_
  · have hmem := List.mem_map_of_mem (f := (·.schema.depth)) he
    have hdepth : e.schema.depth ≤ List.foldl max 0 _ := le_foldl_max (.inr hmem)
    obtain ⟨m, hm, rfl⟩ := List.mem_map.1 he
    cases hschema : m.schema with
    | none => exact build_plain_failsOnly (.inl rfl) _ _
    | some schema =>
      rw [hschema] at hdepth
      exact build_loose_failsOnly hnamed (hfault m hm schema hschema) hdepth (.child _ _) rfl rfl rfl
  · exact (fillSlot_silent slot _).failsOnly.bind fun _ => .pure _

end Loose

end Resolvers

end ApiForge.Schema
