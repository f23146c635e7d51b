import ApiForge.Proofs.Naming.Snake
import ApiForge.Proofs.Operation.Declared
import ApiForge.Proofs.Operation.Identity
import ApiForge.Proofs.Route.Grammar

/-!
# Identities that are made up

An operation that declares no identity gets one from its method and its path. The path counts by its words only, so two
paths can lead to one identity, and then the collection fails.

* `synthesizedId_eq_iff`: two identities agree if the methods do and the paths have the same words in small letters.
* `Declared.Clashes`, `Description.Clashing`: operations for which this is so.
* `duplicateOperation_iff_clashing`: where no operation declares an identity, the collection fails for a repeated
  identity exactly if two operations clash, and otherwise it does not fail.
-/

namespace ApiForge

open Text Naming

/-! ## Methods -/

theorem Text.upperChar_lowerChar (c : Char) : upperChar (lowerChar c) = upperChar c := by
  cases hu : isUpperAscii c with
  | false => rw [lowerChar, if_neg (by simp [hu])]
  | true =>
    have hc := isUpperAscii_iff.1 hu
    have hnot : isLowerAscii c = false := Bool.eq_false_iff.2 fun hl => by
      have := isLowerAscii_iff.1 hl
      omega
    rw [upperChar, if_pos (isLowerAscii_lowerChar hu), lowerChar, if_pos hu, toNat_ofNat (by omega), upperChar,
      if_neg (by simp [hnot]), Nat.add_sub_cancel, Char.ofNat_toNat]

namespace Extract

/-- The methods that operations have. -/
def methods : List String := verbs.map upperAscii

theorem mem_methods {key method : String} (h : method? key = some method) : method ∈ methods := by
  unfold method? at h
  split at h
  · rename_i hverb
    obtain rfl := Option.some.inj h
    refine List.mem_map.2 ⟨lowerAscii key, List.contains_iff_mem.1 hverb, ?_⟩
    simp only [upperAscii, lowerAscii, String.toList_ofList, List.map_map, Function.comp_def, upperChar_lowerChar]
  · cases h

/-- A method is known from its small letters, and has no underscore. -/
theorem lowerAscii_methods : ∀ m ∈ methods, '_' ∉ (lowerAscii m).toList ∧
    ∀ m' ∈ methods, lowerAscii m = lowerAscii m' → m = m' := by
  decide +kernel

/-! ## Identities -/

theorem synthesizedId_of_words {method path : String} (h : lowerWords path ≠ []) :
    synthesizedId method path = lowerAscii method ++ "_" ++ snakeCase path := by
  have hne : snakeCase path ≠ "_" := fun heq => h ((snakeCase_eq_iff (t := "")).1 heq)
  rw [synthesizedId]
  exact if_neg (by simpa using hne)

theorem synthesizedId_of_no_words {method path : String} (h : lowerWords path = []) :
    synthesizedId method path = lowerAscii method := by
  have heq : snakeCase path = "_" := (snakeCase_eq_iff (t := "")).2 h
  rw [synthesizedId]
  exact if_pos (by simpa using heq)

/-- What stands before the first underscore and after it. -/
theorem append_underscore_inj {a a' b b' : String} (ha : '_' ∉ a.toList) (ha' : '_' ∉ a'.toList)
    (h : a ++ "_" ++ b = a' ++ "_" ++ b') : a = a' ∧ b = b' := by
  have htext : a.toList ++ '_' :: b.toList = a'.toList ++ '_' :: b'.toList := by
    simpa using congrArg String.toList h
  have hcut := cut?_eq_some_iff.2 ⟨htext, ha'⟩
  rw [cut?_eq_some_iff.2 ⟨rfl, ha⟩, Option.some.injEq, Prod.mk.injEq] at hcut
  exact ⟨String.toList_injective hcut.1, String.toList_injective hcut.2⟩

/-- **Made-up identities agree** if the methods do and the paths have the same words in small letters. -/
theorem synthesizedId_eq_iff {m m' p p' : String} (hm : m ∈ methods) (hm' : m' ∈ methods) :
    synthesizedId m p = synthesizedId m' p' ↔ m = m' ∧ lowerWords p = lowerWords p' := by
  obtain ⟨hmark, hinj⟩ := lowerAscii_methods m hm
  have hmark' := (lowerAscii_methods m' hm').1
  by_cases hp : lowerWords p = [] <;> by_cases hp' : lowerWords p' = []
  · rw [synthesizedId_of_no_words hp, synthesizedId_of_no_words hp', hp, hp']
    exact ⟨fun h => ⟨hinj m' hm' h, rfl⟩, fun h => by rw [h.1]⟩
  · rw [synthesizedId_of_no_words hp, synthesizedId_of_words hp', hp]
    refine ⟨fun h => absurd ?_ hmark, fun h => absurd h.2.symm hp'⟩
    simp [h]
  · rw [synthesizedId_of_words hp, synthesizedId_of_no_words hp', hp']
    refine ⟨fun h => absurd ?_ hmark', fun h => absurd h.2 hp⟩
    simp [← h]
  · rw [synthesizedId_of_words hp, synthesizedId_of_words hp', ← snakeCase_eq_iff]
    exact ⟨fun h => (append_underscore_inj hmark hmark' h).imp_left (hinj m' hm'), fun ⟨h, h'⟩ => by rw [h, h']⟩

end Extract

/-! ## Clashes -/

namespace Declared

/-- The operation declares no identity. -/
def Unnamed (o : Declared) : Prop := ∀ m ∈ o.members, m.1 ≠ "operationId" ∧ startsWith "x-handler" m.1 = false

/-- The identity that is made up for the operation. -/
def synthesizedId (o : Declared) : String := Extract.synthesizedId o.method o.path

/-- The operations have one method, and paths with the same words in small letters. -/
def Clashes (o o' : Declared) : Prop := o.method = o'.method ∧ lowerWords o.path = lowerWords o'.path

instance (o o' : Declared) : Decidable (o.Clashes o') := inferInstanceAs (Decidable (_ ∧ _))

theorem Unnamed.declaredId? {o : Declared} (h : o.Unnamed) : Extract.declaredId? o.members = none := by
  have hid : Extract.textOf o.members "operationId" = none := by
    have hget : Json.Members.get? o.members "operationId" = none :=
      Option.map_eq_none_iff.2 (List.find?_eq_none.2 fun m hm => by simpa using (h m hm).1)
    rw [Extract.textOf, hget]
    rfl
  rw [Extract.declaredId?, hid, List.findSome?_eq_none_iff.2 fun m hm => by simp [(h m hm).2]]
  rfl

end Declared

/-- Two of the declared operations clash. -/
def Description.Clashing (d : Description) : Prop := ∃ o o', [o, o'].Sublist d.declared ∧ o.Clashes o'

/-- The paths of a description are templates, and each of its operations can be read. -/
structure Description.Valid (d : Description) : Prop where
  templated : d.Templated
  readable : ∀ o ∈ d.declared, ∀ route, Route.Template.parse o.path = .ok route → ∀ id notes,
    ∃ op notes', (Extract.operation d route o.item o.members o.method id).run notes = .ok op notes'

namespace Extract

variable {d : Description} {route : Route.Template}

theorem mem_declared_method {o : Declared} (h : o ∈ d.declared) : o.method ∈ methods := by
  obtain ⟨⟨path, v⟩, -, ho⟩ := List.mem_flatMap.1 h
  cases v with
  | obj item =>
    rw [declaredAt] at ho
    split at ho
    · cases ho
    · obtain ⟨⟨key, w⟩, -, hentry⟩ := List.mem_filterMap.1 ho
      cases w with
      | obj members =>
        obtain ⟨method, hmethod, rfl⟩ := Option.map_eq_some_iff.1 hentry
        exact mem_methods hmethod
      | null | bool _ | num _ | str _ | arr _ => cases hentry
  | null | bool _ | num _ | str _ | arr _ => cases ho

/-- The operations have the identities that are made up for those declared so far, none of which clash. -/
def MadeUp (done : List Declared) (ops : List RawOperation) (_ : List Diagnostic) : Prop :=
  ops.map (·.operationId) = done.map (·.synthesizedId) ∧ done.Pairwise fun o o' => ¬o.Clashes o'

/-- Why the collection ends: for a repeated identity only if operations clash, and for nothing else if all of them can
be read. -/
def EndsFor (d : Description) (e : CompileError) : Prop :=
  (∀ id, e = .duplicateOperation id → d.Clashing) ∧ (d.Valid → ∃ id, e = .duplicateOperation id)

theorem operationId_unnamed {members : Json.Members} (h : declaredId? members = none) (method path : String)
    (notes : List Diagnostic) {fail : CompileError → List Diagnostic → Prop} :
    Ends (operationId members method path) notes (fun id _ => id = synthesizedId method path) fail := by
  rw [operationId, h]
  exact ends_bind.2 rfl

theorem MadeUp.append {done : List Declared} {o : Declared} {ops : List RawOperation} {notes notes' : List Diagnostic}
    (h : MadeUp done ops notes) (hnew : ∀ o' ∈ done, ¬o'.Clashes o) {op : RawOperation}
    (hid : op.operationId = o.synthesizedId) : MadeUp (done ++ [o]) (ops ++ [op]) notes' := by
  refine ⟨?_, List.pairwise_append.2 ⟨h.2, List.pairwise_singleton _ _, fun o' ho' x hx => ?_⟩⟩
  · rw [List.map_append, List.map_append, h.1, List.map_singleton, List.map_singleton, hid]
  · rw [List.mem_singleton.1 hx]
    exact hnew o' ho'

/-- An operation that is read gets the identity, and reading it fails for no repeated identity. -/
theorem operation_endsFor {o : Declared} (ho : o ∈ d.declared) (hroute : Route.Template.parse o.path = .ok route)
    (id : String) (notes : List Diagnostic) :
    Ends (operation d route o.item o.members o.method id) notes (fun op _ => op.operationId = id)
      fun e _ => EndsFor d e := by
  have hread : Reads (fun _ => True) (operation d route o.item o.members o.method id) :=
    operation_reads (fun _ _ => trivial) _ _ _
  refine ((operation_id _ _ _ id).and ((hread notes).and (Ends.self _ notes))).mono (fun _ _ h => h.1)
    fun e notes' ⟨_, hdup, hrun⟩ => ⟨fun id he => absurd he (hdup id), fun hvalid => ?_⟩
  obtain ⟨_, _, hok⟩ := hvalid.readable o ho route hroute id notes
  rw [hok] at hrun
  cases hrun

theorem collect_madeUp (hunnamed : ∀ o ∈ d.declared, o.Unnamed) {done rest : List Declared} {o : Declared}
    {ops : List RawOperation} {notes : List Diagnostic} (hall : d.declared = done ++ o :: rest)
    (hroute : Route.Template.parse o.path = .ok route) (h : MadeUp done ops notes) :
    Ends (collect d route o ops) notes (MadeUp (done ++ [o])) fun e _ => EndsFor d e := by
  have ho : o ∈ d.declared := hall ▸ List.mem_append_right done List.mem_cons_self
  have hclash {o' : Declared} (ho' : o' ∈ done) : o'.synthesizedId = o.synthesizedId ↔ o'.Clashes o :=
    synthesizedId_eq_iff (mem_declared_method (hall ▸ List.mem_append_left _ ho')) (mem_declared_method ho)
  refine (operationId_unnamed (hunnamed o ho).declaredId? _ _ _).bind fun id notes' hid => ?_
  rw [(Route.Template.parse_read hroute).1] at hid
  replace hid : id = o.synthesizedId := hid
  split
  · -- The identity is that of an operation collected before, so the two clash.
    rename_i hany
    obtain ⟨op, hop, hsame⟩ := List.any_eq_true.1 hany
    have hmem : o.synthesizedId ∈ done.map (·.synthesizedId) := by
      rw [← h.1, ← hid, ← beq_iff_eq.1 hsame]
      exact List.mem_map_of_mem hop
    obtain ⟨o', ho', hsame⟩ := List.mem_map.1 hmem
    refine ⟨fun _ _ => ⟨o', o, ?_, (hclash ho').1 hsame⟩, fun _ => ⟨id, rfl⟩⟩
    rw [hall]
    exact (List.singleton_sublist.2 ho').append (List.singleton_sublist.2 List.mem_cons_self)
  · rename_i hany
    have hnew : ∀ o' ∈ done, ¬o'.Clashes o := fun o' ho' hc => hany <| by
      have hmem : o'.synthesizedId ∈ ops.map (·.operationId) := h.1 ▸ List.mem_map_of_mem ho'
      obtain ⟨op, hop, hsame⟩ := List.mem_map.1 hmem
      exact List.any_eq_true.2 ⟨op, hop, beq_iff_eq.2 (hsame.trans (((hclash ho').2 hc).trans hid.symm))⟩
    exact (operation_endsFor ho hroute id notes').bind fun op _ hop => ends_pure.2 (h.append hnew (hop.trans hid))

theorem parse_ne_duplicate {path : String} {e : CompileError} (h : Route.Template.parse path = .error e) (id : String) :
    e ≠ .duplicateOperation id := by
  obtain ⟨reason, rfl⟩ := Route.Template.parse_error h
  exact nofun

theorem kept_madeUp (hunnamed : ∀ o ∈ d.declared, o.Unnamed) : Kept d MadeUp fun e => EndsFor d e where
  skipped h := h
  untemplated hmem href hparse := by
    refine ⟨fun id he => absurd he (parse_ne_duplicate hparse id), fun hvalid => ?_⟩
    obtain ⟨route, hroute⟩ := hvalid.templated _ _ hmem href
    rw [hparse] at hroute
    cases hroute
  collected := collect_madeUp hunnamed

end Extract

/-! ## All operations -/

section Clashing

variable {d : Description}

theorem Description.not_clashing_iff : ¬d.Clashing ↔ d.declared.Pairwise fun o o' => ¬o.Clashes o' := by
  rw [List.pairwise_iff_forall_sublist, Description.Clashing]
  exact ⟨fun h o o' hsub hc => h ⟨o, o', hsub, hc⟩, fun h ⟨o, o', hsub, hc⟩ => h hsub hc⟩

/-- **Where no operation declares an identity**, the collection fails for a repeated identity only if two operations
clash: they have one method, and paths with the same words in small letters. If the paths are templates and all
operations can be read, it does fail so in this case; otherwise it gives all declared operations, with the identities
that are made up for them, and no identity twice. -/
theorem duplicateOperation_iff_clashing (hunnamed : ∀ o ∈ d.declared, o.Unnamed) (notes : List Diagnostic) :
    (∀ id notes', (operationsOf d).run notes = .error (.duplicateOperation id) notes' → d.Clashing) ∧
    (d.Valid → d.Clashing → ∃ id notes', (operationsOf d).run notes = .error (.duplicateOperation id) notes') ∧
    (d.Valid → ¬d.Clashing → ∃ ops notes', (operationsOf d).run notes = .ok ops notes' ∧
      ops.map (·.operationId) = d.declared.map (·.synthesizedId) ∧ (ops.map (·.operationId)).Nodup) := by
  have hends : Ends (operationsOf d) notes (Extract.MadeUp d.declared) fun e _ => Extract.EndsFor d e :=
    (Extract.kept_madeUp hunnamed).operationsOf ⟨rfl, .nil⟩
  refine ⟨fun id notes' hrun => (hends.of_error hrun).1 id rfl, fun hvalid hclash => ?_, fun hvalid hnone => ?_⟩
  · cases hrun : (operationsOf d).run notes with
    | ok ops notes' => exact absurd hclash (Description.not_clashing_iff.2 (hends.of_ok hrun).2)
    | error e notes' =>
      obtain ⟨id, rfl⟩ := (hends.of_error hrun).2 hvalid
      exact ⟨id, notes', rfl⟩
  · cases hrun : (operationsOf d).run notes with
    | ok ops notes' => exact ⟨ops, notes', rfl, (hends.of_ok hrun).1, (operationsOf_distinct d notes).of_ok hrun⟩
    | error e notes' =>
      obtain ⟨id, rfl⟩ := (hends.of_error hrun).2 hvalid
      exact absurd ((hends.of_error hrun).1 id rfl) hnone

end Clashing

/-- A description with an operation under each of the given paths, which declares nothing but its method. -/
def bareDescription (paths : List String) : Description :=
  ⟨"", "", "", "", .obj [("paths", .obj (paths.map fun path => (path, .obj [("get", .obj [])])))], []⟩

section Bare

variable {paths : List String}

theorem declared_bareDescription (paths : List String) :
    (bareDescription paths).declared = paths.map fun path => ⟨path, [("get", .obj [])], "GET", []⟩ := by
  have hdeclared : ∀ path, Extract.declaredAt (path, .obj [("get", .obj [])]) =
      [⟨path, [("get", .obj [])], "GET", []⟩] := fun _ => rfl
  rw [Description.declared, List.map_eq_flatMap]
  show (paths.map _).flatMap _ = _
  rw [List.flatMap_map]
  simp only [hdeclared]

theorem unnamed_bareDescription (paths : List String) : ∀ o ∈ (bareDescription paths).declared, o.Unnamed := by
  rw [declared_bareDescription]
  rintro o ho
  obtain ⟨path, -, rfl⟩ := List.mem_map.1 ho
  exact List.forall_mem_nil _

theorem Extract.addUndeclared_ends (route : Route.Template) (owner : String) : ∀ (names : List String)
    (params : List RawParameter) (notes : List Diagnostic),
    Ends (addUndeclared route owner names params) notes (fun _ _ => True) fun _ _ => False
  | [], _, _ => trivial
  | name :: names, params, notes => by
    unfold addUndeclared
    dsimp only
    split
    · exact addUndeclared_ends route owner names params notes
    · exact ends_bind.2 (addUndeclared_ends route owner names _ _)

theorem valid_bareDescription (h : ∀ path ∈ paths, (Route.Template.parse path).toBool = true) :
    (bareDescription paths).Valid where
  templated path item hmem _ := by
    obtain ⟨_, hpath, heq⟩ := List.mem_map.1 hmem
    cases heq
    have hok := h path hpath
    cases hparse : Route.Template.parse path with
    | ok route => exact ⟨route, rfl⟩
    | error e =>
      rw [hparse] at hok
      cases hok
  readable o ho route _ id notes := by
    rw [declared_bareDescription] at ho
    obtain ⟨path, -, rfl⟩ := List.mem_map.1 ho
    have hread : Ends (Extract.operation (bareDescription paths) route [("get", .obj [])] [] "GET" id) notes
        (fun _ _ => True) fun _ _ => False :=
      (Extract.addUndeclared_ends route _ _ _ _).bind fun _ _ _ => trivial
    obtain ⟨op, notes', hrun, -⟩ := hread.exists_ok
    exact ⟨op, notes', hrun⟩

end Bare

/-- Paths with different words, and paths with the same words. -/
theorem duplicateOperation_iff_clashing_pets :
    (∀ o ∈ (bareDescription ["/pets", "/pets/\x7bid\x7d"]).declared, o.Unnamed) ∧
    (∀ o ∈ (bareDescription ["/pets/\x7bid\x7d", "/Pets/ID"]).declared, o.Unnamed) ∧
    (∃ ops notes, (operationsOf (bareDescription ["/pets", "/pets/\x7bid\x7d"])).run [] = .ok ops notes ∧
      ops.map (·.operationId) = ["get_pets", "get_pets_id"]) ∧
    ∃ id notes, (operationsOf (bareDescription ["/pets/\x7bid\x7d", "/Pets/ID"])).run [] =
      .error (.duplicateOperation id) notes := by
  have hapart := unnamed_bareDescription ["/pets", "/pets/\x7bid\x7d"]
  have hclashing := unnamed_bareDescription ["/pets/\x7bid\x7d", "/Pets/ID"]
  refine ⟨hapart, hclashing, ?_, ?_⟩
  · have hvalid : (bareDescription ["/pets", "/pets/\x7bid\x7d"]).Valid := valid_bareDescription (by decide +kernel)
    obtain ⟨ops, notes, hrun, hids, -⟩ := (duplicateOperation_iff_clashing hapart []).2.2 hvalid
      (Description.not_clashing_iff.2 (by decide +kernel))
    exact ⟨ops, notes, hrun, hids.trans (by decide +kernel)⟩
  · have hvalid : (bareDescription ["/pets/\x7bid\x7d", "/Pets/ID"]).Valid := valid_bareDescription (by decide +kernel)
    refine (duplicateOperation_iff_clashing hclashing []).2.1 hvalid ?_
    rw [Description.Clashing, declared_bareDescription]
    exact ⟨_, _, .refl _, by decide +kernel⟩

/-- Two paths from which one identity is made up. -/
def petPaths : Description := bareDescription ["/pets/\x7bid\x7d", "/pets/id"]

theorem operationsOf_petPaths :
    Ends (operationsOf petPaths) [] (fun _ _ => False) fun e _ => e = .duplicateOperation "get_pets_id" := by
  decide +kernel

/-- Operations with different paths, and with methods in small letters, that get one identity. -/
theorem duplicateOperation_of_distinct_paths : ∃ d : Description, (∀ o ∈ d.declared, o.Unnamed) ∧
    (∀ o ∈ d.declared, ∀ m ∈ o.item, m.1 ∈ Extract.verbs) ∧ d.Valid ∧
    (d.declared.map fun o => (o.method, o.path)).Nodup ∧
    ∃ notes, (operationsOf d).run [] = .error (.duplicateOperation "get_pets_id") notes := by
  have hverbs : ∀ o ∈ petPaths.declared, ∀ m ∈ o.item, m.1 ∈ Extract.verbs := by decide +kernel
  have hvalid : petPaths.Valid := valid_bareDescription (by decide +kernel)
  have hapart : (petPaths.declared.map fun o => (o.method, o.path)).Nodup := by decide +kernel
  obtain ⟨e, notes, hrun, he⟩ := operationsOf_petPaths.exists_error
  exact ⟨petPaths, unnamed_bareDescription _, hverbs, hvalid, hapart, notes, he ▸ hrun⟩

end ApiForge
