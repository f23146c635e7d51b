import ApiForge.Proofs.Json.Inside
import ApiForge.Schema.Resolver

/-!
# References that a resolver follows

The references in a raw schema that are followed when the schema is built, read off the schema alone, and the graph of
named schemas that they make up.

* `Traverses raw r`: the reference `r` stands where building `raw` gets to: it is the schema itself, or it is traversed
  by an item schema, a property, a member of a composition or the one member of a union that is not `null`.
* `Denotes doc r key`: a reference in a document denotes a named schema; without a file it stands in the same document.
* `Refers env k k'`: a named schema traverses a reference to another one.
* `Descends env raw c raw' c'`: building `raw` may ask for building `raw'`. Then `raw'` is a deeper part of `raw`, or
  the raw schema of a key that is referred to and not open.
-/

namespace ApiForge.Json

/-! ## Depth of parts -/

theorem depth_arr (items : List Json) : (arr items).depth = itemsDepth items + 1 := by rw [depth]

theorem depth_obj (ms : Members) : (obj ms).depth = membersDepth ms + 1 := by rw [depth]

theorem depth_le_itemsDepth {v : Json} : ∀ {items : List Json}, v ∈ items → v.depth ≤ itemsDepth items
  | x :: xs, h => by
    rw [itemsDepth]
    rcases List.mem_cons.1 h with rfl | h
    · exact Nat.le_max_left _ _
    · exact Nat.le_trans (depth_le_itemsDepth h) (Nat.le_max_right _ _)

theorem depth_le_membersDepth {key : String} {v : Json} :
    ∀ {ms : Members}, (key, v) ∈ ms → v.depth ≤ membersDepth ms
  | (k, w) :: ms, h => by
    rw [membersDepth]
    rcases List.mem_cons.1 h with h | h
    · cases h
      exact Nat.le_max_left _ _
    · exact Nat.le_trans (depth_le_membersDepth h) (Nat.le_max_right _ _)

theorem Members.mem_of_get? {ms : Members} {key : String} {v : Json} (h : ms.get? key = some v) : (key, v) ∈ ms := by
  obtain ⟨⟨k, w⟩, hfind, rfl⟩ := Option.map_eq_some_iff.1 h
  obtain rfl : k = key := by simpa using List.find?_some hfind
  exact List.mem_of_find?_eq_some hfind

theorem Members.depth_of_get? {ms : Members} {key : String} {v : Json} (h : ms.get? key = some v) :
    v.depth ≤ membersDepth ms := depth_le_membersDepth (mem_of_get? h)

theorem Members.exists_get? {ms : Members} {key : String} {v : Json} (h : (key, v) ∈ ms) :
    ∃ w, ms.get? key = some w := by
  have hfind : (ms.find? (·.1 == key)).isSome := List.find?_isSome.2 ⟨(key, v), h, by simp⟩
  obtain ⟨found, hfound⟩ := Option.isSome_iff_exists.1 hfind
  exact ⟨found.2, by rw [Members.get?, hfound]; rfl⟩

theorem mem_of_get? {v w : Json} {key : String} (h : v.get? key = some w) : ∃ ms, v = .obj ms ∧ (key, w) ∈ ms := by
  cases v with
  | obj ms => exact ⟨ms, rfl, Members.mem_of_get? h⟩
  | _ => cases h

theorem Members.inside_of_get? {ms : Members} {key : String} {v : Json} (h : ms.get? key = some v) :
    v.Inside (.obj ms) := .member (mem_of_get? h) .self

theorem inside_of_get? {v w : Json} {key : String} (h : v.get? key = some w) : w.Inside v := by
  obtain ⟨ms, rfl, hmem⟩ := mem_of_get? h
  exact .member hmem .self

theorem depth_of_get? {v w : Json} {key : String} (h : v.get? key = some w) : w.depth < v.depth := by
  obtain ⟨ms, rfl, hmem⟩ := mem_of_get? h
  rw [depth_obj]
  exact Nat.lt_succ_of_le (depth_le_membersDepth hmem)

end ApiForge.Json

namespace ApiForge.Schema

open Json Naming

/-! ## Traversed references -/

/-- The properties that a schema declares. -/
def propertiesOf (ms : Members) : Members := ((ms.get? "properties").bind Json.members?).getD []

/-- A schema that is neither a reference nor a composition nor a union. -/
structure Plain (ms : Members) : Prop where
  reference : textOf ms "$ref" = none
  composition : ms.has "allOf" = false
  union : (ms.get? "oneOf").or (ms.get? "anyOf") = none

/-- The declared or inferred type of a schema. -/
def IsTyped (ms : Members) (type : String) : Prop := ∃ c listed, typeOf ms c = .ok (some type, listed)

mutual

/-- The references that are followed when a schema is built. -/
inductive Traverses : Json → String → Prop where
  | reference {ms : Members} {r : String} : textOf ms "$ref" = some r → Traverses (.obj ms) r
  | composition {ms : Members} {r : String} : textOf ms "$ref" = none → ms.has "allOf" = true → Composes ms r →
      Traverses (.obj ms) r
  | union {ms : Members} {members : List Json} {single : Json} {r : String} : textOf ms "$ref" = none →
      ms.has "allOf" = false → (ms.get? "oneOf").or (ms.get? "anyOf") = some (.arr members) →
      members.filter (!isNullMember ·) = [single] → Traverses single r → Traverses (.obj ms) r
  | property {ms : Members} {key : String} {schema : Json} {r : String} : Plain ms → IsTyped ms "object" →
      (key, schema) ∈ propertiesOf ms → Traverses schema r → Traverses (.obj ms) r
  | items {ms : Members} {schema : Json} {r : String} : Plain ms → IsTyped ms "array" →
      ms.get? "items" = some schema → Traverses schema r → Traverses (.obj ms) r

/-- The references that are followed when a part of a composition is collected. -/
inductive Composes : Members → String → Prop where
  | reference {ms ms' : Members} {members : List Json} {r : String} : ms.get? "allOf" = some (.arr members) →
      .obj ms' ∈ members → textOf ms' "$ref" = some r → Composes ms r
  | inline {ms ms' : Members} {members : List Json} {r : String} : ms.get? "allOf" = some (.arr members) →
      .obj ms' ∈ members → textOf ms' "$ref" = none → Composes ms' r → Composes ms r
  | property {ms : Members} {key : String} {schema : Json} {r : String} : (key, schema) ∈ propertiesOf ms →
      Traverses schema r → Composes ms r

end

/-- What a reference in a document denotes. -/
def Denotes (doc : Option String) (reference : String) (key : RefKey) : Prop :=
  ∃ c : Context, c.doc = doc ∧ parseRef reference c = .ok key

/-- A named schema traverses a reference to another one. -/
def Refers (env : Env) (k k' : RefKey) : Prop :=
  ∃ raw reference, env.rawSchema? k = some raw ∧ Traverses raw reference ∧ Denotes k.doc reference k'

/-- The named schemas that the named schemas of the root document lead to. -/
inductive Reachable (env : Env) : RefKey → Prop where
  | root {name : String} : name ∈ env.rootKeys → Reachable env ⟨none, name⟩
  | step {k k' : RefKey} : Reachable env k → Refers env k k' → Reachable env k'

/-! ## Types and references do not depend on the place -/

theorem ok_of_toOption {ε α : Type} {x y : Except ε α} {a : α} (h : x = .ok a) (hxy : x.toOption = y.toOption) :
    y = .ok a := by
  rw [h] at hxy
  cases y with
  | ok b => exact congrArg Except.ok (Option.some.inj hxy).symm
  | error e => cases hxy

theorem toOption_typeOf (ms : Members) (c c' : Context) : (typeOf ms c).toOption = (typeOf ms c').toOption := by
  unfold typeOf
  dsimp only
  repeat' split
  all_goals rfl

theorem toOption_parseRef (reference : String) {c c' : Context} (hdoc : c.doc = c'.doc) :
    (parseRef reference c).toOption = (parseRef reference c').toOption := by
  unfold parseRef
  rw [hdoc]
  dsimp only
  repeat' split
  all_goals rfl

theorem typeOf_ok {ms : Members} {c : Context} {result : Option String × Bool} (h : typeOf ms c = .ok result)
    (c' : Context) : typeOf ms c' = .ok result := ok_of_toOption h (toOption_typeOf ms c c')

theorem parseRef_ok {reference : String} {c c' : Context} {key : RefKey} (h : parseRef reference c = .ok key)
    (hdoc : c.doc = c'.doc) : parseRef reference c' = .ok key := ok_of_toOption h (toOption_parseRef reference hdoc)

theorem IsTyped.typeOf {ms : Members} {type : String} (h : IsTyped ms type) (c : Context) :
    ∃ listed, Schema.typeOf ms c = .ok (some type, listed) := by
  obtain ⟨c', listed, h⟩ := h
  exact ⟨listed, typeOf_ok h c⟩

theorem IsTyped.eq {ms : Members} {type : String} {found : Option String} {c : Context} {listed : Bool}
    (h : IsTyped ms type) (htype : Schema.typeOf ms c = .ok (found, listed)) : found = some type := by
  obtain ⟨listed', h⟩ := h.typeOf c
  rw [h] at htype
  cases htype
  rfl

/-- A reference in a document denotes one named schema. -/
theorem Denotes.unique {doc : Option String} {reference : String} {k k' : RefKey} (h : Denotes doc reference k)
    (h' : Denotes doc reference k') : k = k' := by
  obtain ⟨c, hdoc, hk⟩ := h
  obtain ⟨c', hdoc', hk'⟩ := h'
  rw [parseRef_ok hk (hdoc.trans hdoc'.symm)] at hk'
  exact Except.ok.inj hk'

theorem Denotes.of_toOption {reference : String} {c : Context} {key : RefKey}
    (h : (parseRef reference c).toOption = some key) : Denotes c.doc reference key :=
  ⟨c, rfl, ok_of_toOption rfl h.symm⟩

/-! ## What a schema of each form traverses -/

section Forms

variable {ms : Members} {r : String}

theorem Traverses.of_reference (h : Traverses (.obj ms) r) {reference : String}
    (href : textOf ms "$ref" = some reference) : reference = r := by
  cases h with
  | reference href' => exact Option.some.inj (href.symm.trans href')
  | composition href' => cases href.symm.trans href'
  | union href' => cases href.symm.trans href'
  | property hplain => cases href.symm.trans hplain.reference
  | items hplain => cases href.symm.trans hplain.reference

theorem Traverses.of_composition (h : Traverses (.obj ms) r) (href : textOf ms "$ref" = none)
    (hall : ms.has "allOf" = true) : Composes ms r := by
  cases h with
  | reference href' => cases href.symm.trans href'
  | composition _ _ hr => exact hr
  | union _ hall' => cases hall.symm.trans hall'
  | property hplain => cases hall.symm.trans hplain.composition
  | items hplain => cases hall.symm.trans hplain.composition

theorem Traverses.of_union (h : Traverses (.obj ms) r) (href : textOf ms "$ref" = none) (hall : ms.has "allOf" = false)
    {members : Json} (hunion : (ms.get? "oneOf").or (ms.get? "anyOf") = some members) :
    ∃ list single, members = .arr list ∧ list.filter (!isNullMember ·) = [single] ∧ Traverses single r := by
  cases h with
  | reference href' => cases href.symm.trans href'
  | composition _ hall' => cases hall.symm.trans hall'
  | union _ _ hunion' hsingle hr => exact ⟨_, _, Option.some.inj (hunion.symm.trans hunion'), hsingle, hr⟩
  | property hplain => cases hunion.symm.trans hplain.union
  | items hplain => cases hunion.symm.trans hplain.union

/-- A plain schema traverses nothing but its properties or its items, as its type says. -/
theorem Traverses.of_plain (h : Traverses (.obj ms) r) (hplain : Plain ms) :
    (IsTyped ms "object" ∧ ∃ key schema, (key, schema) ∈ propertiesOf ms ∧ Traverses schema r) ∨
      (IsTyped ms "array" ∧ ∃ schema, ms.get? "items" = some schema ∧ Traverses schema r) := by
  cases h with
  | reference href => cases href.symm.trans hplain.reference
  | composition _ hall => cases hall.symm.trans hplain.composition
  | union _ _ hunion => cases hunion.symm.trans hplain.union
  | property _ ht hmem hr => exact .inl ⟨ht, _, _, hmem, hr⟩
  | items _ ht hitems hr => exact .inr ⟨ht, _, hitems, hr⟩

end Forms

/-! ## Parts -/

/-- A deeper schema that traverses only what the whole schema traverses. -/
structure IsPart (raw part : Json) : Prop where
  inside : part.Inside raw
  depth : part.depth < raw.depth
  traverses : ∀ r, Traverses part r → Traverses raw r

/-- A part of a composition. -/
structure IsPiece (raw : Json) (ms : Members) : Prop where
  inside : (Json.obj ms).Inside raw
  depth : membersDepth ms < raw.depth
  composes : ∀ r, Composes ms r → Traverses raw r

theorem inside_of_propertiesOf {ms : Members} {key : String} {schema : Json} (h : (key, schema) ∈ propertiesOf ms) :
    schema.Inside (.obj ms) := by
  unfold propertiesOf at h
  cases hget : ms.get? "properties" with
  | none => rw [hget] at h; cases h
  | some v =>
    rw [hget] at h
    cases v with
    | obj ps => exact Inside.trans (.member h .self) (Members.inside_of_get? hget)
    | _ => cases h

theorem depth_of_propertiesOf {ms : Members} {key : String} {schema : Json} (h : (key, schema) ∈ propertiesOf ms) :
    schema.depth < membersDepth ms := by
  unfold propertiesOf at h
  cases hget : ms.get? "properties" with
  | none => rw [hget] at h; cases h
  | some v =>
    rw [hget] at h
    cases v with
    | obj ps =>
      have hle := Members.depth_of_get? hget
      have hlt : schema.depth ≤ membersDepth ps := depth_le_membersDepth h
      rw [depth_obj] at hle
      omega
    | _ => cases h

section Parts

variable {ms : Members}

theorem isPart_property (hp : Plain ms) (ht : IsTyped ms "object") {key : String} {schema : Json}
    (h : (key, schema) ∈ propertiesOf ms) : IsPart (.obj ms) schema := by
  refine ⟨inside_of_propertiesOf h, ?_, fun r hr => .property hp ht h hr⟩
  have := depth_of_propertiesOf h
  rw [depth_obj]
  omega

theorem isPart_items (hp : Plain ms) (ht : IsTyped ms "array") {schema : Json} (h : ms.get? "items" = some schema) :
    IsPart (.obj ms) schema := by
  refine ⟨Members.inside_of_get? h, ?_, fun r hr => .items hp ht h hr⟩
  have := Members.depth_of_get? h
  rw [depth_obj]
  omega

theorem isPart_union (href : textOf ms "$ref" = none) (hall : ms.has "allOf" = false) {members : List Json}
    (h : (ms.get? "oneOf").or (ms.get? "anyOf") = some (.arr members)) {single : Json}
    (hsingle : members.filter (!isNullMember ·) = [single]) : IsPart (.obj ms) single := by
  have hmem : single ∈ members := (List.mem_filter.1 (hsingle ▸ List.mem_singleton_self single)).1
  have hinside : (Json.arr members).Inside (.obj ms) := by
    rcases Option.or_eq_some_iff.1 h with h | ⟨-, h⟩
    · exact Members.inside_of_get? h
    · exact Members.inside_of_get? h
  refine ⟨.trans (.item hmem .self) hinside, ?_, fun r hr => .union href hall h hsingle hr⟩
  have hitem := depth_le_itemsDepth hmem
  have harr : (Json.arr members).depth ≤ membersDepth ms := by
    rcases Option.or_eq_some_iff.1 h with h | ⟨-, h⟩
    · exact Members.depth_of_get? h
    · exact Members.depth_of_get? h
  rw [depth_arr] at harr
  rw [depth_obj]
  omega

theorem isPiece_self (href : textOf ms "$ref" = none) (hall : ms.has "allOf" = true) : IsPiece (.obj ms) ms :=
  ⟨.self, by rw [depth_obj]; omega, fun r hr => .composition href hall hr⟩

variable {raw : Json}

theorem IsPiece.inline (h : IsPiece raw ms) {members : List Json} (hall : ms.get? "allOf" = some (.arr members))
    {ms' : Members} (hmem : .obj ms' ∈ members) (href : textOf ms' "$ref" = none) : IsPiece raw ms' := by
  have hinside : (Json.obj ms').Inside (.obj ms) := .trans (.item hmem .self) (Members.inside_of_get? hall)
  refine ⟨hinside.trans h.inside, ?_, fun r hr => h.composes r (.inline hall hmem href hr)⟩
  have hitem := depth_le_itemsDepth hmem
  have harr := Members.depth_of_get? hall
  have hraw := h.depth
  rw [depth_obj] at hitem
  rw [depth_arr] at harr
  omega

theorem IsPiece.reference (h : IsPiece raw ms) {members : List Json} (hall : ms.get? "allOf" = some (.arr members))
    {ms' : Members} (hmem : .obj ms' ∈ members) {r : String} (href : textOf ms' "$ref" = some r) : Traverses raw r :=
  h.composes r (.reference hall hmem href)

theorem IsPiece.property (h : IsPiece raw ms) {key : String} {schema : Json} (hmem : (key, schema) ∈ propertiesOf ms) :
    IsPart raw schema := by
  refine ⟨(inside_of_propertiesOf hmem).trans h.inside, ?_, fun r hr => h.composes r (.property hmem hr)⟩
  have := depth_of_propertiesOf hmem
  have hraw := h.depth
  omega

/-- The entries of a record are its properties. -/
theorem mem_entriesOf {required : String → Bool} {e : Entry} (h : e ∈ entriesOf ms required) :
    (e.key, e.schema) ∈ propertiesOf ms := by
  obtain ⟨⟨key, schema⟩, hmem, rfl⟩ := List.mem_map.1 h
  exact hmem

end Parts

/-- Building a schema may ask for building another one: a part in its place, or a named schema that is not open. -/
inductive Descends (env : Env) (raw : Json) (c : Context) : Json → Context → Prop where
  | part {raw' : Json} {c' : Context} : IsPart raw raw' → c'.doc = c.doc → c'.owner = c.owner → c'.stack = c.stack →
      Descends env raw c raw' c'
  | reference {r : String} {key : RefKey} {raw' : Json} {name : String} : Traverses raw r → Denotes c.doc r key →
      key ∉ c.stack → env.rawSchema? key = some raw' → Descends env raw c raw' (.ofKey env key name c.stack)

/-! ## Only these parts are built -/

/-- Resolving a key asks only for its own raw schema, and only if it is not open. -/
theorem resolveKey_congr {env : Env} {build build' : Build} {key : RefKey} {stack : List RefKey}
    (h : ∀ raw name, env.rawSchema? key = some raw → key ∉ stack →
      build raw (.ofKey env key name stack) = build' raw (.ofKey env key name stack)) (owner reference : String) :
    resolveKey env build key owner reference stack = resolveKey env build' key owner reference stack := by
  unfold resolveKey
  refine bind_congr fun s => ?_
  split
  · rfl
  · split
    · rfl
    · rename_i hstack
      split
      · rfl
      · rename_i raw hraw
        refine bind_congr fun name => ?_
        rw [h raw name hraw (by simpa using hstack)]

section Congruence

variable {env : Env} {raw : Json} {c : Context} {build build' : Build}
  (hb : ∀ raw' c', Descends env raw c raw' c' → build raw' c' = build' raw' c')

include hb

theorem resolveRef_congr {r : String} (hr : Traverses raw r) :
    resolveRef env build r c = resolveRef env build' r c := by
  unfold resolveRef
  cases hkey : parseRef r c with
  | error e => rfl
  | ok key => exact resolveKey_congr (fun _ _ hraw hnew => hb _ _ (.reference hr ⟨c, rfl, hkey⟩ hnew hraw)) c.owner r

theorem buildFields_congr (ownerName : String) : ∀ (entries : List Entry) (taken : List String),
    (∀ e ∈ entries, IsPart raw e.schema) →
      buildFields build ownerName c taken entries = buildFields build' ownerName c taken entries
  | [], _, _ => rfl
  | e :: es, taken, h => by
    obtain ⟨he, hes⟩ := List.forall_mem_cons.1 h
    unfold buildFields
    rw [hb e.schema (c.child (ownerName ++ pascalCase e.key)) (.part he rfl rfl rfl)]
    refine bind_congr fun type => bind_congr fun rules => ?_
    rw [buildFields_congr ownerName es _ hes]

theorem mergeMembers_congr {inline inline' : Members → Merged → Resolve Merged} :
    ∀ (members : List Json) (m : Merged), (∀ ms, .obj ms ∈ members → ∀ r, textOf ms "$ref" = some r → Traverses raw r) →
      (∀ ms, .obj ms ∈ members → textOf ms "$ref" = none → inline ms = inline' ms) →
      mergeMembers env build inline c members m = mergeMembers env build' inline' c members m
  | [], _, _, _ => rfl
  | .obj ms :: rest, m, href, hinline => by
    have hmember : mergeMember env build inline c ms m = mergeMember env build' inline' c ms m := by
      unfold mergeMember
      cases h : textOf ms "$ref" with
      | some r =>
        dsimp only
        rw [referredFields, resolveRef_congr hb (href ms List.mem_cons_self r h), referredFields]
      | none =>
        dsimp only
        rw [hinline ms List.mem_cons_self h]
    unfold mergeMembers
    rw [hmember]
    refine bind_congr fun m₁ => mergeMembers_congr rest m₁ (fun ms hms => ?_) fun ms hms => ?_
    · exact href ms (List.mem_cons_of_mem _ hms)
    · exact hinline ms (List.mem_cons_of_mem _ hms)
  | .null :: _, _, _, _ | .bool _ :: _, _, _, _ | .num _ :: _, _, _, _ | .str _ :: _, _, _, _
  | .arr _ :: _, _, _, _ => rfl

theorem mergeAllOf_congr (ownerName : String) : ∀ (levels : Nat) (ms : Members), IsPiece raw ms →
    mergeAllOf env build ownerName c levels ms = mergeAllOf env build' ownerName c levels ms
  | 0, _, _ => rfl
  | levels + 1, ms, hms => by
    funext m
    have hlist : mergeList env build (mergeAllOf env build ownerName c levels) c (ms.get? "allOf") m =
        mergeList env build' (mergeAllOf env build' ownerName c levels) c (ms.get? "allOf") m := by
      cases hall : ms.get? "allOf" with
      | none => rfl
      | some v =>
        cases v with
        | arr members =>
          refine mergeMembers_congr hb members m (fun ms' hmem r href => ?_) fun ms' hmem href => ?_
          · exact hms.reference hall hmem href
          · exact mergeAllOf_congr ownerName levels ms' (hms.inline hall hmem href)
        | _ => rfl
    unfold mergeAllOf
    rw [hlist]
    refine bind_congr fun m₁ => ?_
    unfold mergeOwn
    rw [buildFields_congr hb ownerName _ [] fun e he => hms.property (mem_entriesOf he)]

theorem typedNode_congr {ms : Members} (hraw : raw = .obj ms) (hp : Plain ms) :
    typedNode build ms c = typedNode build' ms c := by
  subst hraw
  unfold typedNode
  split
  · rfl
  · rename_i type listed htype
    dsimp only
    split
    · have hentries : ∀ e ∈ entriesOf ms (textsOf ms "required").contains, IsPart (.obj ms) e.schema :=
        fun e he => isPart_property hp ⟨c, listed, htype⟩ (mem_entriesOf he)
      refine bind_congr fun name => bind_congr fun slot => ?_
      dsimp only
      rw [buildFields_congr hb name _ [] hentries]
    · refine bind_congr fun slot => ?_
      unfold elementNode
      cases hitems : ms.get? "items" with
      | none => rfl
      | some items =>
        have hpart := isPart_items hp ⟨c, listed, htype⟩ hitems
        dsimp only
        rw [hb items (c.child (labelOf c ++ "Item")) (.part hpart rfl rfl rfl)]
    all_goals rfl

/-- Building a schema asks for nothing but what it descends to. -/
theorem buildStep_congr : buildStep env build raw c = buildStep env build' raw c := by
  unfold buildStep
  split
  · rename_i ms
    unfold formNode
    split
    · rename_i r href
      rw [resolveRef_congr hb (.reference href)]
    · rename_i href
      split
      · rename_i hall
        refine bind_congr fun name => bind_congr fun slot => ?_
        rw [mergeAllOf_congr hb name _ ms (isPiece_self href hall)]
      · rename_i hall
        have hall : Members.has ms "allOf" = false := by simpa using hall
        split
        · rename_i members hunion
          unfold unionNode
          split
          · rfl
          · rename_i list hlist
            split
            · rename_i single hsingle
              cases members with
              | arr xs =>
                cases hlist
                rw [hb single c (.part (isPart_union href hall hunion hsingle) rfl rfl rfl)]
              | _ => cases hlist
            · rfl
        · rename_i hunion
          exact typedNode_congr hb rfl ⟨href, hall, hunion⟩
  · rfl
  · rfl

end Congruence

end ApiForge.Schema
