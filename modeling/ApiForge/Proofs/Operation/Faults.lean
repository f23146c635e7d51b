import ApiForge.Proofs.Json.Inside
import ApiForge.Proofs.Operation.Declared
import ApiForge.Proofs.Route.Grammar
import ApiForge.Proofs.Schema.Traversal
import Mathlib.Data.List.Chain
import Mathlib.Data.List.Perm.Subperm

/-!
# What belongs to an operation

An operation holds what stands under its method, the parameters of its path item, and the reusable parts that any of
these refers to. Everything that is collected for an operation is among this, and so is what an error is about, with one
exception: reusable parts that refer to one another in a loop are reported by their own names only.

* `Declared.Holds d o v`: a value belongs to a declared operation.
* `Extract.Fault d owner v e`: what is wrong with a value, read off the value and the reusable parts.
* `Declared.Loops d o part names`: reusable parts that refer to one another in a loop, and that the operation refers to.
* `Trail`: the invariant while references are followed. The names that were met are distinct, so the number of steps
  never shows (`followFrom_draws`).
* `Drawn d o op`: what is collected for a declared operation has its identity and only schemas that belong to it.
* `operationsOf_drawn`: the collected operations are drawn from the declared ones, in order, or the error is accounted
  for.
-/

namespace ApiForge

open Json Text

/-! ## What an operation holds -/

/-- The sections of reusable parts that operations refer to. -/
def partSections : List String := ["parameters", "requestBodies", "responses", "headers"]

/-- The reusable part of a section under a name. -/
def Description.part? (d : Description) (part name : String) : Option Json :=
  (Extract.sectionOf d part).bind (·.get? name)

/-- The value is a reference to the reusable part of a section under a name. -/
def PointsAt (part : String) (raw : Json) (name : String) : Prop :=
  ∃ ms r, raw = .obj ms ∧ Extract.textOf ms "$ref" = some r ∧ dropLead? s!"#/components/{part}/" r = some name

namespace Declared

/-- The identity of a declared operation. -/
def identity (o : Declared) : String := (Extract.declaredId? o.members).getD (Extract.synthesizedId o.method o.path)

/-- What errors about a declared operation name. -/
def owner (o : Declared) : String := "operation:" ++ o.identity

/-- What belongs to a declared operation. -/
inductive Holds (d : Description) (o : Declared) : Json → Prop where
  | own : Holds d o (.obj o.members)
  | shared {v : Json} : o.item.get? "parameters" = some v → Holds d o v
  | inside {v w : Json} : Holds d o w → v.Inside w → Holds d o v
  | part {raw v : Json} {part name : String} : part ∈ partSections → Holds d o raw → PointsAt part raw name →
      d.part? part name = some v → Holds d o v

/-- Reusable parts of one section that refer to one another until one of them is met again. The operation refers to the
first. -/
structure Loops (d : Description) (o : Declared) (part : String) (names : List String) : Prop where
  known : ∀ name ∈ names, ∃ v, d.part? part name = some v
  refers : names.IsChain fun name next => ∃ v, d.part? part name = some v ∧ PointsAt part v next
  held : ∃ raw first, o.Holds d raw ∧ names.head? = some first ∧ PointsAt part raw first
  closed : ∃ before last, names = before ++ [last] ∧ last ∈ before

end Declared

namespace Extract

variable {d : Description} {o : Declared}

/-- What is wrong with a value that belongs to an operation, and the error that says so. -/
inductive Fault (d : Description) (owner : String) : Json → CompileError → Prop where
  | noObject {part : String} {v : Json} : part ∈ partSections → v.members? = none →
      Fault d owner v (.unsupportedConstruct owner s!"{part} entry must be an object")
  | pointer {part : String} {ms : Members} {r : String} : part ∈ partSections → textOf ms "$ref" = some r →
      dropLead? s!"#/components/{part}/" r = none →
      Fault d owner (.obj ms) (.unsupportedConstruct owner s!"reference '{r}' is not a {part} pointer")
  | missing {part : String} {ms : Members} {r name : String} : part ∈ partSections → textOf ms "$ref" = some r →
      dropLead? s!"#/components/{part}/" r = some name → d.part? part name = none →
      Fault d owner (.obj ms) (.unresolvedReference owner r)
  | unnamed {ms : Members} : textOf ms "name" = none →
      Fault d owner (.obj ms) (.unsupportedConstruct owner "parameter without a name")
  | unplaced {ms : Members} {name : String} : textOf ms "name" = some name →
      (textOf ms "in").bind Location.ofName? = none →
      Fault d owner (.obj ms) (.unsupportedConstruct owner s!"parameter '{name}' has no valid 'in'")
  | noList {v : Json} : v.items? = none → Fault d owner v (.unsupportedConstruct owner "parameters must be a list")

theorem Fault.owner {owner : String} {v : Json} {e : CompileError} (h : Fault d owner v e) : e.owner = owner := by
  cases h <;> rfl

/-- Why an operation cannot be read: something that belongs to it is wrong, or reusable parts refer to one another in a
loop. -/
inductive Misread (d : Description) (o : Declared) (owner : String) : CompileError → Prop where
  | fault {v : Json} {e : CompileError} : o.Holds d v → Fault d owner v e → Misread d o owner e
  | loop {part : String} {names : List String} : part ∈ partSections → o.Loops d part names →
      Misread d o owner (.cyclicSchema names)

/-! ## Following references -/

/-- Where the following of references is: the names that were met lead from the first value to this one. -/
structure Trail (d : Description) (part : String) (start : Json) (visited : List String) (raw : Json) : Prop where
  known : ∀ name ∈ visited, ∃ v, d.part? part name = some v
  refers : visited.IsChain fun name next => ∃ v, d.part? part name = some v ∧ PointsAt part v next
  distinct : visited.Nodup
  first : ∀ name ∈ visited.head?, PointsAt part start name
  last : (visited = [] ∧ raw = start) ∨ ∃ before name, visited = before ++ [name] ∧ d.part? part name = some raw

section Trail

variable {part name : String} {start raw next : Json} {visited : List String}

theorem trail_start (d : Description) (part : String) (start : Json) : Trail d part start [] start :=
  ⟨List.forall_mem_nil _, .nil, List.nodup_nil, (fun _ h => nomatch h), .inl ⟨rfl, rfl⟩⟩

/-- A reference goes on from the value that was reached. -/
theorem Trail.refers_append (h : Trail d part start visited raw) (hname : PointsAt part raw name) :
    (visited ++ [name]).IsChain fun name next => ∃ v, d.part? part name = some v ∧ PointsAt part v next := by
  rcases h.last with ⟨rfl, -⟩ | ⟨before, last, rfl, hlast⟩
  · exact .singleton name
  · rw [List.append_assoc, List.singleton_append]
    exact List.isChain_split.2 ⟨h.refers, List.isChain_pair.2 ⟨raw, hlast, hname⟩⟩

theorem Trail.first_append (h : Trail d part start visited raw) (hname : PointsAt part raw name) :
    ∃ first, (visited ++ [name]).head? = some first ∧ PointsAt part start first := by
  cases visited with
  | nil =>
    rcases h.last with ⟨-, rfl⟩ | ⟨before, last, hnil, -⟩
    · exact ⟨name, rfl, hname⟩
    · simp at hnil
  | cons first rest => exact ⟨first, rfl, h.first first rfl⟩

theorem Trail.push (h : Trail d part start visited raw) (hname : PointsAt part raw name) (hnew : name ∉ visited)
    (hnext : d.part? part name = some next) : Trail d part start (visited ++ [name]) next where
  known := by
    intro name' hname'
    rcases List.mem_append.1 hname' with hname' | hname'
    · exact h.known name' hname'
    · rw [List.mem_singleton.1 hname']
      exact ⟨next, hnext⟩
  refers := h.refers_append hname
  distinct := by
    rw [List.nodup_append]
    refine ⟨h.distinct, List.pairwise_singleton _ _, fun a ha b hb hab => ?_⟩
    rw [List.mem_singleton.1 hb] at hab
    exact hnew (hab ▸ ha)
  first name' hname' := by
    obtain ⟨first, hfirst, hstart⟩ := h.first_append hname
    rw [hfirst] at hname'
    cases hname'
    exact hstart
  last := .inr ⟨visited, name, rfl, hnext⟩

/-- A name that is met again closes a loop. -/
theorem Trail.loops (h : Trail d part start visited raw) (hstart : o.Holds d start) (hname : PointsAt part raw name)
    (hmem : name ∈ visited) : o.Loops d part (visited ++ [name]) where
  known := by
    intro name' hname'
    rcases List.mem_append.1 hname' with hname' | hname'
    · exact h.known name' hname'
    · rw [List.mem_singleton.1 hname']
      exact h.known name hmem
  refers := h.refers_append hname
  held := by
    obtain ⟨first, hfirst, hpoints⟩ := h.first_append hname
    exact ⟨start, first, hstart, hfirst, hpoints⟩
  closed := ⟨visited, name, rfl, hmem⟩

/-- No more names are met than the section has. -/
theorem Trail.length_le (h : Trail d part start visited raw) :
    visited.length ≤ (((sectionOf d part).bind Json.members?).getD []).length := by
  have hsub : visited ⊆ (((sectionOf d part).bind Json.members?).getD []).map (·.1) := by
    intro name hname
    obtain ⟨v, hv⟩ := h.known name hname
    obtain ⟨parts, hparts, hget⟩ := Option.bind_eq_some_iff.1 hv
    obtain ⟨ms, rfl, hmem⟩ := mem_of_get? hget
    rw [hparts]
    exact List.mem_map.2 ⟨(name, v), hmem, rfl⟩
  have hle := (List.subperm_of_subset h.distinct hsub).length_le
  rwa [List.length_map] at hle

end Trail

/-! ## Reading -/

/-- A computation that gives a result with `P`, or fails because an operation cannot be read. -/
def Draws {α : Type} (d : Description) (o : Declared) (owner : String) (m : Extract α) (P : α → Prop) : Prop :=
  ∀ notes, Ends m notes (fun a _ => P a) fun e _ => Misread d o owner e

section Draws

variable {α β : Type} {owner : String} {m : Extract α} {P : α → Prop} {Q : β → Prop}

theorem Draws.pure {a : α} (h : P a) : Draws d o owner (pure a) P := fun _ => h

theorem Draws.throw {e : CompileError} (h : Misread d o owner e) : Draws d o owner (throw e : Extract α) P := fun _ => h

theorem Draws.warn {location kind message : String} :
    Draws d o owner (warn location kind message) fun _ => True := fun _ => trivial

theorem Draws.bind {f : α → Extract β} (h : Draws d o owner m P) (hf : ∀ a, P a → Draws d o owner (f a) Q) :
    Draws d o owner (m >>= f) Q := fun notes => (h notes).bind fun a notes' ha => hf a ha notes'

theorem unsupported_draws {v : Json} {detail : String} (hv : o.Holds d v)
    (h : Fault d owner v (.unsupportedConstruct owner detail)) :
    Draws d o owner (unsupported owner detail : Extract α) P :=
  .throw (.fault hv h)

/-- What following references gives: an object that belongs to the operation, or a reason why it cannot be read. -/
def Reaches (d : Description) (o : Declared) (owner : String) : Except CompileError Members → Prop
  | .ok ms => o.Holds d (.obj ms)
  | .error e => Misread d o owner e

/-- The number of steps is enough, since no name is met twice. -/
theorem followFrom_reaches {part : String} (hpart : part ∈ partSections) {start : Json} (hstart : o.Holds d start) :
    ∀ (fuel : Nat) {visited : List String} {raw : Json},
      (((sectionOf d part).bind Json.members?).getD []).length + 1 ≤ fuel + visited.length →
      Trail d part start visited raw → o.Holds d raw → Reaches d o owner (followFrom d part owner fuel visited raw)
  | 0, visited, raw, hfuel, htrail, _ => by
    have := htrail.length_le
    omega
  | fuel + 1, visited, raw, hfuel, htrail, hraw => by
    rw [followFrom.eq_def]
    cases raw with
    | obj members =>
      dsimp only
      cases href : (Members.get? members "$ref").bind Json.text? with
      | none => exact hraw
      | some r =>
        dsimp only
        cases hname : dropLead? s!"#/components/{part}/" r with
        | none => exact Misread.fault hraw (.pointer hpart href hname)
        | some name =>
          have hpoints : PointsAt part (.obj members) name := ⟨members, r, rfl, href, hname⟩
          dsimp only
          split
          · rename_i hvisited
            exact Misread.loop hpart (htrail.loops hstart hpoints (by simpa using hvisited))
          · rename_i hvisited
            have hnew : name ∉ visited := by simpa using hvisited
            split
            · rename_i hnext
              exact Misread.fault hraw (.missing hpart href hname hnext)
            · rename_i next hnext
              refine followFrom_reaches hpart hstart fuel ?_ (htrail.push hpoints hnew hnext)
                (.part hpart hraw hpoints hnext)
              rw [List.length_append, List.length_singleton]
              omega
    | null | bool _ | num _ | str _ | arr _ => exact Misread.fault hraw (.noObject hpart rfl)

theorem follow_draws {part : String} (hpart : part ∈ partSections) {raw : Json} (hraw : o.Holds d raw) :
    Draws d o owner (follow d part owner raw) fun ms => o.Holds d (.obj ms) := by
  have hfollow : Reaches d o owner
      (followFrom d part owner ((((sectionOf d part).bind Json.members?).getD []).length + 2) [] raw) :=
    followFrom_reaches hpart hraw _ (by simp) (trail_start d part raw) hraw
  unfold follow
  dsimp only
  split
  · rename_i members hok
    rw [hok] at hfollow
    exact .pure hfollow
  · rename_i e herror
    rw [herror] at hfollow
    exact .throw hfollow

/-! ## Values that belong to an operation -/

/-- A value, if there is one, belongs to the operation. -/
def HoldsValue (d : Description) (o : Declared) (value : Option Json) : Prop := ∀ v ∈ value, o.Holds d v

theorem holdsValue_get? {ms : Members} (h : o.Holds d (.obj ms)) (key : String) : HoldsValue d o (ms.get? key) :=
  fun _ hv => .inside h (Members.inside_of_get? hv)

theorem HoldsValue.members {value : Option Json} (h : HoldsValue d o value) :
    ∀ m ∈ (value.bind Json.members?).getD [], o.Holds d m.2 := by
  intro m hm
  cases value with
  | none => cases hm
  | some v =>
    cases v with
    | obj ms => exact .inside (h _ rfl) (.member hm .self)
    | _ => cases hm

/-- The schema of the media type that is selected stands in the part. -/
theorem holdsValue_mediaOf {ms : Members} (h : o.Holds d (.obj ms)) : HoldsValue d o ((mediaOf ms).bind (·.2)) := by
  intro schema hschema
  obtain ⟨⟨type, found⟩, hmedia, hfound⟩ := Option.bind_eq_some_iff.1 hschema
  obtain rfl : found = some schema := hfound
  obtain ⟨content, hcontent, hselect⟩ := Option.bind_eq_some_iff.1 hmedia
  obtain ⟨v, hv, hmembers⟩ := Option.bind_eq_some_iff.1 hcontent
  have hmedia : ∃ key media, (key, media) ∈ content ∧ media.get? "schema" = some schema := by
    unfold selectMedia? at hselect
    split at hselect
    · rename_i media hjson
      exact ⟨_, media, Members.mem_of_get? hjson, (Prod.mk.inj (Option.some.inj hselect)).2⟩
    · obtain ⟨⟨key, media⟩, hfind, hpair⟩ := Option.map_eq_some_iff.1 hselect
      refine ⟨key, media, ?_, (Prod.mk.inj hpair).2⟩
      rcases Option.or_eq_some_iff.1 hfind with hfind | ⟨-, hhead⟩
      · exact List.mem_of_find?_eq_some hfind
      · exact List.mem_of_head? hhead
  obtain ⟨key, media, hmem, hget⟩ := hmedia
  cases v with
  | obj content =>
    cases hmembers
    have hinside : schema.Inside (.obj content) := (inside_of_get? hget).trans (.member hmem .self)
    exact .inside h (hinside.trans (Members.inside_of_get? hv))
  | _ => cases hmembers

/-! ## Parameters -/

/-- The schemas of parameters belong to the operation. -/
def HoldsParameters (d : Description) (o : Declared) (params : List RawParameter) : Prop :=
  ∀ p ∈ params, HoldsValue d o p.schema

theorem parameter_draws {raw : Json} (hraw : o.Holds d raw) :
    Draws d o owner (parameter d owner raw) fun p => HoldsValue d o p.schema := by
  refine (follow_draws (by decide) hraw).bind fun ms hms => ?_
  split
  · rename_i hname
    exact unsupported_draws hms (.unnamed hname)
  · rename_i name hname
    split
    · rename_i hlocation
      exact unsupported_draws hms (.unplaced hname hlocation)
    · refine .pure fun schema hschema => ?_
      rcases Option.or_eq_some_iff.1 hschema with hschema | ⟨-, hschema⟩
      · exact holdsValue_get? hms "schema" schema hschema
      · exact holdsValue_mediaOf hms schema hschema

theorem HoldsParameters.merge {params : List RawParameter} (h : HoldsParameters d o params) {p : RawParameter}
    (hp : HoldsValue d o p.schema) : HoldsParameters d o (mergeParameter params p) := by
  unfold mergeParameter
  split
  · intro q hq
    obtain ⟨q', hq', rfl⟩ := List.mem_map.1 hq
    split
    · exact hp
    · exact h q' hq'
  · intro q hq
    rcases List.mem_append.1 hq with hq | hq
    · exact h q hq
    · rw [List.mem_singleton.1 hq]
      exact hp

theorem addParameters_draws : ∀ (raws : List Json) {params : List RawParameter}, (∀ raw ∈ raws, o.Holds d raw) →
    HoldsParameters d o params → Draws d o owner (addParameters d owner raws params) (HoldsParameters d o)
  | [], _, _, h => .pure h
  | raw :: raws, _, hraws, h => by
    obtain ⟨hraw, hraws⟩ := List.forall_mem_cons.1 hraws
    exact (parameter_draws hraw).bind fun p hp => addParameters_draws raws hraws (h.merge hp)

theorem addParameterList_draws {raw : Option Json} (hraw : HoldsValue d o raw) {params : List RawParameter}
    (h : HoldsParameters d o params) :
    Draws d o owner (addParameterList d owner raw params) (HoldsParameters d o) := by
  unfold addParameterList
  split
  · exact .pure h
  · rename_i list
    exact addParameters_draws list (fun v hv => .inside (hraw _ rfl) (.item hv .self)) h
  · rename_i v hlist
    refine unsupported_draws (hraw v rfl) (.noList ?_)
    cases v with
    | arr list => exact (hlist list rfl).elim
    | _ => rfl

theorem dropUnused_draws (route : Route.Template) : ∀ (params : List RawParameter), HoldsParameters d o params →
    Draws d o owner (dropUnused route owner params) (HoldsParameters d o)
  | [], h => .pure h
  | p :: ps, h => by
    obtain ⟨hp, hps⟩ := List.forall_mem_cons.1 h
    unfold dropUnused
    split
    · exact (dropUnused_draws route ps hps).bind fun kept hkept => .pure (List.forall_mem_cons.2 ⟨hp, hkept⟩)
    · exact Draws.warn.bind fun _ _ => dropUnused_draws route ps hps

theorem addUndeclared_draws (route : Route.Template) : ∀ (names : List String) {params : List RawParameter},
    HoldsParameters d o params → Draws d o owner (addUndeclared route owner names params) (HoldsParameters d o)
  | [], _, h => .pure h
  | name :: names, params, h => by
    unfold addUndeclared
    dsimp only
    split
    · exact addUndeclared_draws route names h
    · refine Draws.warn.bind fun _ _ => addUndeclared_draws route names fun p hp => ?_
      rcases List.mem_append.1 hp with hp | hp
      · exact h p hp
      · rw [List.mem_singleton.1 hp]
        intro v hv
        cases hv

theorem reconcile_draws (route : Route.Template) {params : List RawParameter} (h : HoldsParameters d o params) :
    Draws d o owner (reconcile route owner params) (HoldsParameters d o) :=
  (dropUnused_draws route params h).bind fun _ hkept => addUndeclared_draws route _ hkept

/-! ## Bodies and responses -/

theorem requestBody_draws {raw : Option Json} (hraw : HoldsValue d o raw) :
    Draws d o owner (requestBody d owner raw) fun body => ∀ b ∈ body, HoldsValue d o b.schema := by
  cases raw with
  | none => exact .pure fun _ hnone => nomatch hnone
  | some raw =>
    refine (follow_draws (by decide) (hraw raw rfl)).bind fun ms hms => .pure fun b hb => ?_
    obtain ⟨⟨type, schema⟩, hmedia, rfl⟩ := Option.map_eq_some_iff.1 hb
    intro v hv
    exact holdsValue_mediaOf hms v (by rw [hmedia]; exact hv)

/-- The schemas of headers belong to the operation. -/
def HoldsHeaders (d : Description) (o : Declared) (headers : List RawHeader) : Prop :=
  ∀ h ∈ headers, HoldsValue d o h.schema

theorem headerList_draws : ∀ (headers : Members), (∀ m ∈ headers, o.Holds d m.2) →
    Draws d o owner (headerList d owner headers) (HoldsHeaders d o)
  | [], _ => .pure fun _ h => nomatch h
  | (name, raw) :: rest, h => by
    obtain ⟨hraw, hrest⟩ := List.forall_mem_cons.1 h
    unfold headerList
    split
    · exact headerList_draws rest hrest
    · refine (follow_draws (by decide) hraw).bind fun ms hms => ?_
      refine (headerList_draws rest hrest).bind fun headers hheaders => .pure ?_
      exact List.forall_mem_cons.2 ⟨holdsValue_get? hms "schema", hheaders⟩

/-- The schemas of a response and of its headers belong to the operation. -/
def HoldsResponse (d : Description) (o : Declared) (r : RawResponse) : Prop :=
  HoldsValue d o r.schema ∧ HoldsHeaders d o r.headers

theorem mem_of_mem_insertResponse {r x : RawResponse} : ∀ {rs : List RawResponse}, x ∈ insertResponse r rs →
    x = r ∨ x ∈ rs
  | [], h => .inl (List.mem_singleton.1 h)
  | y :: rs, h => by
    unfold insertResponse at h
    split at h
    · exact List.mem_cons.1 h
    · split at h
      · exact (List.mem_cons.1 h).imp_right (List.mem_cons_of_mem y)
      · rcases List.mem_cons.1 h with rfl | h
        · exact .inr List.mem_cons_self
        · exact (mem_of_mem_insertResponse h).imp_right (List.mem_cons_of_mem y)

theorem responseList_draws : ∀ (ms : Members) {acc : List RawResponse}, (∀ m ∈ ms, o.Holds d m.2) →
    (∀ r ∈ acc, HoldsResponse d o r) →
      Draws d o owner (responseList d owner ms acc) fun rs => ∀ r ∈ rs, HoldsResponse d o r
  | [], _, _, hacc => .pure hacc
  | (key, raw) :: rest, acc, h, hacc => by
    obtain ⟨hraw, hrest⟩ := List.forall_mem_cons.1 h
    unfold responseList
    split
    · exact Draws.warn.bind fun _ _ => responseList_draws rest hrest hacc
    · refine (follow_draws (by decide) hraw).bind fun ms hms => ?_
      refine (headerList_draws _ (holdsValue_get? hms "headers").members).bind fun headers hheaders => ?_
      refine responseList_draws rest hrest fun r hr => ?_
      rcases mem_of_mem_insertResponse hr with rfl | hr
      · exact ⟨holdsValue_mediaOf hms, hheaders⟩
      · exact hacc r hr

theorem responses_draws {raw : Option Json} (hraw : HoldsValue d o raw) :
    Draws d o owner (responses d owner raw) fun rs => ∀ r ∈ rs, HoldsResponse d o r := by
  unfold responses
  split
  · rename_i ms hms
    refine responseList_draws ms (fun m hm => hraw.members m ?_) fun _ h => nomatch h
    rwa [hms]
  · exact Draws.warn.bind fun _ _ => .pure (List.forall_mem_nil _)

/-! ## Operations -/

/-- All schemas of a collected operation belong to a declared one. -/
structure HoldsOperation (d : Description) (o : Declared) (op : RawOperation) : Prop where
  parameters : HoldsParameters d o op.parameters
  body : ∀ b ∈ op.requestBody, HoldsValue d o b.schema
  responses : ∀ r ∈ op.responses, HoldsResponse d o r

theorem operation_draws (route : Route.Template) (id : String) :
    Draws d o ("operation:" ++ id) (operation d route o.item o.members o.method id)
      fun op => op.operationId = id ∧ HoldsOperation d o op := by
  have hown (key : String) : HoldsValue d o (Members.get? o.members key) := holdsValue_get? .own key
  refine (addParameterList_draws (fun v hv => .shared hv) (List.forall_mem_nil _)).bind fun shared hshared => ?_
  refine (addParameterList_draws (hown "parameters") hshared).bind fun merged hmerged => ?_
  refine (reconcile_draws route hmerged).bind fun parameters hparameters => ?_
  refine (requestBody_draws (hown "requestBody")).bind fun body hbody => ?_
  refine (responses_draws (hown "responses")).bind fun responses hresponses => .pure ?_
  exact ⟨rfl, hparameters, hbody, hresponses⟩

end Draws

/-! ## All operations -/

/-- What is collected for a declared operation: it has its identity, and all its schemas belong to it. -/
structure Drawn (d : Description) (o : Declared) (op : RawOperation) : Prop where
  operationId : op.operationId = o.identity
  holds : HoldsOperation d o op

/-- Why operations cannot be collected: a path is no template, an identity is declared twice, or an operation cannot be
read. -/
inductive Refused (d : Description) : CompileError → Prop where
  | route {path reason : String} {item : Members} : (path, .obj item) ∈ (d.paths?).getD [] →
      Route.Template.parse path = .error (.invalidRouteTemplate path reason) →
      Refused d (.invalidRouteTemplate path reason)
  | duplicate {o o' : Declared} : [o, o'].Sublist d.declared → o.identity = o'.identity →
      Refused d (.duplicateOperation o.identity)
  | misread {o : Declared} {e : CompileError} : o ∈ d.declared → Misread d o o.owner e → Refused d e

theorem operationId_identity (o : Declared) (notes : List Diagnostic) :
    Ends (operationId o.members o.method o.path) notes (fun id _ => id = o.identity) fun _ _ => False := by
  unfold operationId Declared.identity
  cases Extract.declaredId? o.members with
  | some id => rfl
  | none => exact ends_bind.2 rfl

theorem collect_drawn {done rest : List Declared} {ops : List RawOperation} {route : Route.Template}
    (hall : d.declared = done ++ o :: rest) (hroute : Route.Template.parse o.path = .ok route)
    (hdone : List.Forall₂ (Drawn d) done ops) (notes : List Diagnostic) :
    Ends (collect d route o ops) notes (fun ops' _ => List.Forall₂ (Drawn d) (done ++ [o]) ops')
      fun e _ => Refused d e := by
  have ho : o ∈ d.declared := by
    rw [hall]
    exact List.mem_append_right _ List.mem_cons_self
  unfold collect
  rw [(Route.Template.parse_read hroute).1]
  refine ((operationId_identity o notes).mono (fun _ _ h => h) fun _ _ h => h.elim).bind fun id notes' hid => ?_
  subst hid
  split
  · rename_i hany
    obtain ⟨op, hop, hsame⟩ := List.any_eq_true.1 hany
    have hids : done.map Declared.identity = ops.map (·.operationId) := by
      rw [← List.forall₂_eq_eq_eq, List.forall₂_map_left_iff, List.forall₂_map_right_iff]
      exact hdone.imp fun _ _ h => h.operationId.symm
    have hmem : o.identity ∈ done.map Declared.identity := by
      rw [hids, ← beq_iff_eq.1 hsame]
      exact List.mem_map_of_mem hop
    obtain ⟨o', ho', hsame'⟩ := List.mem_map.1 hmem
    have hsub : [o', o].Sublist d.declared := by
      rw [hall]
      exact (List.singleton_sublist.2 ho').append (List.singleton_sublist.2 List.mem_cons_self)
    have hrefused : Refused d (.duplicateOperation o'.identity) := .duplicate hsub hsame'
    rw [hsame'] at hrefused
    exact hrefused
  · have hdraws := operation_draws (d := d) (o := o) route o.identity notes'
    refine (hdraws.mono (fun _ _ h => h) fun e _ h => Refused.misread ho h).bind fun op _ ⟨hid, hop⟩ => ?_
    exact List.rel_append hdone (.cons ⟨hid, hop⟩ .nil)

end Extract

open Extract in
/-- **The collected operations are drawn from the declared ones**, one by one and in order; otherwise the collection
fails for a reason that the description shows. -/
theorem operationsOf_drawn (d : Description) (notes : List Diagnostic) :
    Ends (operationsOf d) notes (fun ops _ => List.Forall₂ (Drawn d) d.declared ops) fun e _ => Refused d e := by
  have hkept : Kept d (fun done ops _ => List.Forall₂ (Drawn d) done ops) (Refused d) := {
    skipped := id
    untemplated := fun hmem _ hparse => by
      obtain ⟨reason, rfl⟩ := Route.Template.parse_error hparse
      exact .route hmem hparse
    collected := fun hall hroute hdone => collect_drawn hall hroute hdone _ }
  exact hkept.operationsOf .nil

end ApiForge
