import ApiForge.Proofs.Operation.Declared
import ApiForge.Proofs.Operation.Identity
import ApiForge.Proofs.Schema.Coercion
import Mathlib.Data.List.Dedup

/-!
# What becomes of the response keys

A response key that is no status is skipped with a warning; the others become responses, in the order of their statuses.
A status can be written in several ways, and of the keys that denote one status only the last becomes a response.

* `Collected`: the responses that response keys give. Every step of the collection keeps this.
* `Noted owner k`: the notes that were added are about one operation, and `k` of them are about response keys that are
  skipped.
* `Accounted`: both, for one operation of a description and all notes.
* `operationsOf_accounts_responses`: responses and skipped keys account for all response keys exactly if no two keys
  denote one status, in particular if every status is written as usual.
-/

namespace ApiForge

namespace Extract

variable {d : Description} {owner : String}

/-! ## Ordered responses -/

/-- The responses are in ascending order of status, one for each status. -/
def Ascending (rs : List RawResponse) : Prop := rs.Pairwise fun r r' => r.status < r'.status

section Ascending

variable {r x : RawResponse}

/-- A response that is inserted replaces the one with its status. -/
theorem mem_insertResponse : ∀ {rs : List RawResponse}, Ascending rs →
    (x ∈ insertResponse r rs ↔ x = r ∨ x ∈ rs ∧ x.status ≠ r.status)
  | [], _ => by simp [insertResponse]
  | y :: rs, h => by
    obtain ⟨hy, hrs⟩ := List.pairwise_cons.1 h
    have hafter (hle : r.status ≤ y.status) : ∀ z ∈ rs, z.status ≠ r.status := fun z hz hsame => by
      have := hy z hz
      omega
    unfold insertResponse
    split
    · rename_i hlt
      simp only [List.mem_cons]
      refine or_congr_right ⟨fun hx => ⟨hx, ?_⟩, And.left⟩
      rcases hx with rfl | hx
      · omega
      · exact hafter (by omega) x hx
    · split
      · rename_i heq
        have heq : r.status = y.status := by simpa using heq
        simp only [List.mem_cons]
        refine or_congr_right ⟨fun hx => ⟨.inr hx, hafter (by omega) x hx⟩, fun ⟨hx, hne⟩ => hx.resolve_left ?_⟩
        rintro rfl
        exact hne heq.symm
      · rename_i hne
        have hne : r.status ≠ y.status := by simpa using hne
        simp only [List.mem_cons, mem_insertResponse hrs]
        constructor
        · rintro (rfl | rfl | ⟨hx, hxr⟩)
          · exact .inr ⟨.inl rfl, hne.symm⟩
          · exact .inl rfl
          · exact .inr ⟨.inr hx, hxr⟩
        · rintro (rfl | ⟨rfl | hx, hxr⟩)
          · exact .inr (.inl rfl)
          · exact .inl rfl
          · exact .inr (.inr ⟨hx, hxr⟩)

theorem Ascending.insert : ∀ {rs : List RawResponse}, Ascending rs → Ascending (insertResponse r rs)
  | [], _ => List.pairwise_singleton _ _
  | y :: rs, h => by
    obtain ⟨hy, hrs⟩ := List.pairwise_cons.1 h
    unfold insertResponse
    split
    · rename_i hlt
      refine List.pairwise_cons.2 ⟨fun z hz => ?_, h⟩
      rcases List.mem_cons.1 hz with rfl | hz
      · exact hlt
      · exact Nat.lt_trans hlt (hy z hz)
    · split
      · rename_i heq
        have heq : r.status = y.status := by simpa using heq
        exact List.pairwise_cons.2 ⟨fun z hz => heq ▸ hy z hz, hrs⟩
      · rename_i hle hne
        have hne : r.status ≠ y.status := by simpa using hne
        refine List.pairwise_cons.2 ⟨fun z hz => ?_, Ascending.insert hrs⟩
        rcases (mem_insertResponse hrs).1 hz with rfl | ⟨hz, -⟩
        · omega
        · exact hy z hz

end Ascending

/-! ## Collected responses -/

/-- The statuses that response keys denote, in the order of the keys. -/
def statuses (ms : Json.Members) : List Nat := ms.filterMap fun m => status? m.1

/-- What is read of a response, from the object that stands there or is referred to. -/
def ReadFrom (d : Description) (owner : String) (raw : Json) (r : RawResponse) : Prop :=
  ∃ parts notes notes' notes'', (follow d "responses" owner raw).run notes = .ok parts notes' ∧
    (headerList d owner (((parts.get? "headers").bind Json.members?).getD [])).run notes' = .ok r.headers notes'' ∧
    r.description = textOf parts "description" ∧ r.contentType = (mediaOf parts).map (·.1) ∧
    r.schema = (mediaOf parts).bind (·.2)

/-- The responses that response keys give: one for each status that they denote, in ascending order, and it is what is
read under the last key that denotes this status. -/
structure Collected (d : Description) (owner : String) (ms : Json.Members) (rs : List RawResponse) : Prop where
  ascending : Ascending rs
  complete : ∀ n ∈ statuses ms, ∃ r ∈ rs, r.status = n
  last : ∀ r ∈ rs, ∃ before key raw after, ms = before ++ (key, raw) :: after ∧ status? key = some r.status ∧
    ReadFrom d owner raw r ∧ r.status ∉ statuses after

section Collected

variable {ms : Json.Members} {rs : List RawResponse} {key : String} {raw : Json}

theorem statuses_append (ms ms' : Json.Members) : statuses (ms ++ ms') = statuses ms ++ statuses ms' :=
  List.filterMap_append

theorem statuses_singleton (key : String) (raw : Json) : statuses [(key, raw)] = (status? key).toList := by
  cases h : status? key <;> simp [statuses, h]

theorem Collected.nil : Collected d owner [] [] := ⟨.nil, List.forall_mem_nil _, List.forall_mem_nil _⟩

/-- Keys that denote no status give no response. -/
theorem Collected.skip (h : Collected d owner ms rs) (hkey : status? key = none) :
    Collected d owner (ms ++ [(key, raw)]) rs := by
  have hnone : statuses [(key, raw)] = [] := by rw [statuses_singleton, hkey]; rfl
  refine ⟨h.ascending, fun n hn => ?_, fun r hr => ?_⟩
  · rw [statuses_append, hnone, List.append_nil] at hn
    exact h.complete n hn
  · obtain ⟨before, key', raw', after, rfl, hkey', hread, hlast⟩ := h.last r hr
    refine ⟨before, key', raw', after ++ [(key, raw)], by simp, hkey', hread, ?_⟩
    rwa [statuses_append, hnone, List.append_nil]

/-- A key that denotes a status gives a response, in place of the one with this status. -/
theorem Collected.insert (h : Collected d owner ms rs) {r : RawResponse} (hkey : status? key = some r.status)
    (hread : ReadFrom d owner raw r) : Collected d owner (ms ++ [(key, raw)]) (insertResponse r rs) := by
  have hsome : statuses [(key, raw)] = [r.status] := by rw [statuses_singleton, hkey]; rfl
  refine ⟨h.ascending.insert, fun n hn => ?_, fun x hx => ?_⟩
  · by_cases hsame : n = r.status
    · exact ⟨r, (mem_insertResponse h.ascending).2 (.inl rfl), hsame.symm⟩
    · rw [statuses_append, hsome, List.mem_append, List.mem_singleton] at hn
      obtain ⟨x, hx, rfl⟩ := h.complete n (hn.resolve_right hsame)
      exact ⟨x, (mem_insertResponse h.ascending).2 (.inr ⟨hx, hsame⟩), rfl⟩
  · rcases (mem_insertResponse h.ascending).1 hx with rfl | ⟨hx, hne⟩
    · exact ⟨ms, key, raw, [], rfl, hkey, hread, List.not_mem_nil⟩
    · obtain ⟨before, key', raw', after, rfl, hkey', hread', hlast⟩ := h.last x hx
      refine ⟨before, key', raw', after ++ [(key, raw)], by simp, hkey', hread', ?_⟩
      rw [statuses_append, hsome, List.mem_append, List.mem_singleton, not_or]
      exact ⟨hlast, hne⟩

theorem Collected.mem_status_iff (h : Collected d owner ms rs) {n : Nat} :
    n ∈ rs.map (·.status) ↔ n ∈ statuses ms := by
  refine List.mem_map.trans ⟨?_, fun hn => h.complete n hn⟩
  rintro ⟨r, hr, rfl⟩
  obtain ⟨before, key, raw, after, rfl, hkey, -⟩ := h.last r hr
  exact List.mem_filterMap.2 ⟨(key, raw), by simp, hkey⟩

/-- There are as many responses as there are keys that denote a status, exactly if no two of them denote one. -/
theorem Collected.length_eq_iff (h : Collected d owner ms rs) :
    rs.length ≤ (statuses ms).length ∧ (rs.length = (statuses ms).length ↔ (statuses ms).Nodup) := by
  have hnodup : (rs.map (·.status)).Nodup := List.pairwise_map.2 (h.ascending.imp Nat.ne_of_lt)
  have hperm : (rs.map (·.status)).Perm (statuses ms).dedup :=
    (List.perm_ext_iff_of_nodup hnodup (List.nodup_dedup _)).2 fun n => by rw [h.mem_status_iff, List.mem_dedup]
  have hlength : rs.length = (statuses ms).dedup.length := by rw [← hperm.length_eq, List.length_map]
  have hsub := List.dedup_sublist (statuses ms)
  rw [hlength, ← List.dedup_eq_self]
  exact ⟨hsub.length_le, fun heq => hsub.eq_of_length heq, fun heq => by rw [heq]⟩

/-- The number of keys that denote no status. -/
def skipCount (ms : Json.Members) : Nat := ms.countP fun m => (status? m.1).isNone

theorem skipCount_cons (key : String) (raw : Json) (rest : Json.Members) :
    skipCount ((key, raw) :: rest) = skipCount rest + if (status? key).isNone then 1 else 0 := List.countP_cons

/-- Every key denotes a status or is skipped. -/
theorem length_statuses (ms : Json.Members) : (statuses ms).length + skipCount ms = ms.length := by
  induction ms with
  | nil => rfl
  | cons m ms ih =>
    obtain ⟨key, raw⟩ := m
    rw [skipCount_cons, List.length_cons, ← ih]
    cases hm : status? key with
    | none => simp [statuses, hm, Nat.add_assoc]
    | some n => simp [statuses, hm, Nat.add_right_comm]

/-- A status that is written as usual denotes itself. -/
theorem status?_toString {n m : Nat} (h : status? (toString n) = some m) : m = n := by
  have hdigit : ∀ c ∈ (toString n).toList, c.isDigit = true := fun c hc => by
    rw [Nat.toString_eq_ofList_toDigits, String.toList_ofList] at hc
    exact Nat.isDigit_of_mem_toDigits (by decide) (by decide) hc
  unfold status? at h
  split at h
  · cases h
  · obtain ⟨i, hi, rfl⟩ := Option.map_eq_some_iff.1 (Option.filter_eq_some_iff.1 h).1
    generalize hcs : (toString n).toList = cs at hdigit
    cases hcs ▸ Decimal.integer?_eq_some_iff.1 hi with
    | plain hds =>
      have hread : Nat.ofDigitChars 10 (toString n).toList 0 = n := by simp
      rw [Int.toNat_natCast, ← hcs, hread]
    | plus => exact absurd (hdigit '+' List.mem_cons_self) (by decide)
    | minus => exact absurd (hdigit '-' List.mem_cons_self) (by decide)

/-- Distinct keys that write their statuses as usual denote distinct statuses. -/
theorem nodup_statuses {ms : Json.Members} (hkeys : (ms.map (·.1)).Nodup)
    (husual : ∀ m ∈ ms, status? m.1 = none ∨ ∃ n : Nat, m.1 = toString n) : (statuses ms).Nodup := by
  refine List.pairwise_filterMap.2 ((List.pairwise_map.1 hkeys).imp_of_mem fun {m m'} hm hm' hne n hn n' hn' heq => ?_)
  obtain ⟨k, hk⟩ := (husual m hm).resolve_left (by simp [hn])
  obtain ⟨k', hk'⟩ := (husual m' hm').resolve_left (by simp [hn'])
  rw [hk] at hn
  rw [hk'] at hn'
  exact hne (by rw [hk, hk', ← status?_toString hn, ← status?_toString hn', heq])

end Collected

/-! ## Notes -/

/-- The notes that were added are about one operation, and `k` of them are about response keys that are skipped. -/
def Noted (owner : String) (k : Nat) (notes notes' : List Diagnostic) : Prop :=
  ∃ new, notes' = notes ++ new ∧ (∀ n ∈ new, n.location = owner) ∧ new.countP (·.kind == "skipped_status") = k

/-- How many response keys are noted as skipped for an operation. -/
def skips (id : String) (notes : List Diagnostic) : Nat :=
  notes.countP fun n => n.location == "operation:" ++ id && n.kind == "skipped_status"

section Noted

variable {k l : Nat} {notes notes' notes'' : List Diagnostic} {α β : Type}

theorem Noted.refl : Noted owner 0 notes notes := ⟨[], by simp⟩

theorem Noted.trans : Noted owner k notes notes' → Noted owner l notes' notes'' → Noted owner (k + l) notes notes''
  | ⟨new, hnotes, howner, hk⟩, ⟨new', hnotes', howner', hl⟩ =>
    ⟨new ++ new', by rw [hnotes', hnotes, List.append_assoc], List.forall_mem_append.2 ⟨howner, howner'⟩,
      by rw [List.countP_append, hk, hl]⟩

/-- What is noted about an operation, but about no response key. -/
def Plain (owner : String) (n : Diagnostic) : Prop := n.location = owner ∧ n.kind ≠ "skipped_status"

/-- A part of an operation that is read without a note about a response key. -/
theorem Reads.noted {m : Extract α} (h : Reads (Plain owner) m) (notes : List Diagnostic) :
    Ends m notes (fun _ notes' => Noted owner 0 notes notes') fun _ _ => True :=
  (h notes).mono (fun _ _ ⟨new, hnotes, hnew⟩ => ⟨new, hnotes, fun n hn => (hnew n hn).1,
    List.countP_eq_zero.2 fun n hn => by simpa using (hnew n hn).2⟩) fun _ _ _ => trivial

/-- A sequence that begins with such a part. -/
theorem Reads.bind_noted {m : Extract α} {f : α → Extract β} {P : β → Prop} (hm : Reads (Plain owner) m)
    (hf : ∀ a notes, Ends (f a) notes (fun b notes' => P b ∧ Noted owner k notes notes') fun _ _ => True)
    (notes : List Diagnostic) :
    Ends (m >>= f) notes (fun b notes' => P b ∧ Noted owner k notes notes') fun _ _ => True :=
  (hm.noted notes).bind fun a _ hnoted => (hf a _).mono (fun _ _ ⟨hb, hnoted'⟩ =>
    ⟨hb, by simpa using hnoted.trans hnoted'⟩) fun _ _ _ => trivial

theorem Noted.skips_eq {id : String} (h : Noted ("operation:" ++ id) k notes notes') :
    skips id notes' = skips id notes + k := by
  obtain ⟨new, rfl, howner, rfl⟩ := h
  rw [skips, List.countP_append, skips]
  refine congrArg _ (List.countP_congr fun n hn => ?_)
  simp [howner n hn]

theorem Noted.skips_of_ne {id id' : String} (h : Noted ("operation:" ++ id) k notes notes') (hne : id' ≠ id) :
    skips id' notes' = skips id' notes := by
  obtain ⟨new, rfl, howner, -⟩ := h
  rw [skips, List.countP_append, skips, Nat.add_eq_left]
  refine List.countP_eq_zero.2 fun n hn => ?_
  have : "operation:" ++ id ≠ "operation:" ++ id' := fun heq => hne ((String.append_right_inj _).1 heq).symm
  simp [howner n hn, this]

end Noted

/-! ## Reading the responses -/

theorem responseList_collected : ∀ (rest done : Json.Members) (acc : List RawResponse) (notes : List Diagnostic),
    Collected d owner done acc → Ends (responseList d owner rest acc) notes
      (fun rs notes' => Collected d owner (done ++ rest) rs ∧ Noted owner (skipCount rest) notes notes')
      fun _ _ => True
  | [], done, _, _, h => ends_pure.2 ⟨by rwa [List.append_nil], .refl⟩
  | (key, raw) :: rest, done, acc, notes, h => by
    rw [List.append_cons, skipCount_cons]
    unfold responseList
    split
    · rename_i hkey
      rw [if_pos (by simp [hkey])]
      refine ends_bind.2 ((responseList_collected rest _ acc _ (h.skip hkey)).mono (fun rs notes' ⟨hrs, hnoted⟩ =>
        ⟨hrs, ?_⟩) fun _ _ _ => trivial)
      have hone : Noted owner 1 notes (notes ++ [Diagnostic.warn owner "skipped_status"
        s!"response key '{key}' is not a numeric status; skipped"]) :=
        ⟨_, rfl, by simp [Diagnostic.warn], by simp [Diagnostic.warn]⟩
      exact Nat.add_comm _ _ ▸ hone.trans hnoted
    · rename_i status hkey
      rw [if_neg (by simp [hkey]), Nat.add_zero]
      refine Ends.bind_run fun parts notes₁ hparts => ?_
      refine Ends.bind_run fun headers notes₂ hheaders => ?_
      have hnoted : Noted owner (0 + 0) notes notes₂ := (((follow_reads _ owner raw).noted notes).of_ok hparts).trans
        (((headerList_reads owner _).noted notes₁).of_ok hheaders)
      have hread : ReadFrom d owner raw ⟨status, textOf parts "description", (mediaOf parts).map (·.1),
        (mediaOf parts).bind (·.2), headers⟩ := ⟨parts, notes, notes₁, notes₂, hparts, hheaders, rfl, rfl, rfl⟩
      refine (responseList_collected rest _ _ notes₂ (h.insert hkey hread)).mono (fun rs notes' ⟨hrs, hnoted'⟩ =>
        ⟨hrs, ?_⟩) fun _ _ _ => trivial
      simpa using hnoted.trans hnoted'

/-- The members of the responses of an operation. -/
def responsesOf (members : Json.Members) : Option Json.Members :=
  (Json.Members.get? members "responses").bind Json.members?

theorem responses_collected (raw : Option Json) (notes : List Diagnostic) :
    Ends (responses d owner raw) notes (fun rs notes' => (∀ ms, raw.bind Json.members? = some ms →
      Collected d owner ms rs) ∧ Noted owner (((raw.bind Json.members?).map skipCount).getD 0) notes notes')
      fun _ _ => True := by
  unfold responses
  cases hraw : raw.bind Json.members? with
  | none => exact ends_bind.2 ⟨nofun, _, rfl, by simp [Diagnostic.warn], by simp [Diagnostic.warn]⟩
  | some ms =>
    refine (responseList_collected ms [] [] notes .nil).mono (fun rs notes' ⟨hrs, hnoted⟩ => ⟨?_, hnoted⟩)
      fun _ _ _ => trivial
    rintro ms' heq
    exact Option.some.inj heq ▸ hrs

variable {route : Route.Template}

theorem operation_collected (item members : Json.Members) (method id : String) (notes : List Diagnostic) :
    Ends (operation d route item members method id) notes (fun op notes' =>
      (op.operationId = id ∧ op.method = method ∧ op.route = route ∧
        ∀ ms, responsesOf members = some ms → Collected d ("operation:" ++ id) ms op.responses) ∧
      Noted ("operation:" ++ id) (((responsesOf members).map skipCount).getD 0) notes notes') fun _ _ => True := by
  refine (addParameterList_reads _ _ _).bind_noted (fun shared => ?_) notes
  refine (addParameterList_reads _ _ _).bind_noted fun merged => ?_
  refine (reconcile_reads (fun kind message hkind => ⟨rfl, hkind⟩) merged).bind_noted fun parameters => ?_
  refine (requestBody_reads _ _).bind_noted fun body notes => ?_
  exact (responses_collected _ notes).bind fun rs _ ⟨hrs, hnoted⟩ => ends_pure.2 ⟨⟨rfl, rfl, rfl, hrs⟩, hnoted⟩

/-! ## All operations -/

/-- What has become of the response keys of an operation. -/
structure Accounted (d : Description) (notes : List Diagnostic) (o : Declared) (op : RawOperation) : Prop where
  method : op.method = o.method
  route : Route.Template.parse o.path = .ok op.route
  collected : ∀ ms, responsesOf o.members = some ms → Collected d ("operation:" ++ op.operationId) ms op.responses
  skipped : skips op.operationId notes = ((responsesOf o.members).map skipCount).getD 0

/-- What is kept while operations are collected: no skipped key is noted for an operation that has not been
collected. -/
structure Tally (d : Description) (done : List Declared) (ops : List RawOperation) (notes : List Diagnostic) :
    Prop where
  distinct : Distinct ops
  accounted : List.Forall₂ (Accounted d notes) done ops
  pending : ∀ id, id ∉ ops.map (·.operationId) → skips id notes = 0

theorem operationId_skips (members : Json.Members) (method path : String) (notes : List Diagnostic) :
    Ends (operationId members method path) notes (fun _ notes' => ∀ id, skips id notes' = skips id notes)
      fun _ _ => True := by
  unfold operationId
  split
  · exact ends_pure.2 fun _ => rfl
  · refine ends_bind.2 fun id => ?_
    simp [skips, Diagnostic.warn]

/-- Notes that are not about skipped keys change nothing. -/
theorem Tally.noted {done : List Declared} {ops : List RawOperation} {notes notes' : List Diagnostic}
    (h : Tally d done ops notes) (hskips : ∀ id, skips id notes' = skips id notes) : Tally d done ops notes' where
  distinct := h.distinct
  accounted := h.accounted.imp fun _ _ ho => { ho with skipped := (hskips _).trans ho.skipped }
  pending id hid := (hskips id).trans (h.pending id hid)

theorem Tally.append {done : List Declared} {o : Declared} {ops : List RawOperation} {op : RawOperation}
    {notes notes' : List Diagnostic} (h : Tally d done ops notes) (hnew : op.operationId ∉ ops.map (·.operationId))
    (hnoted : Noted ("operation:" ++ op.operationId) (((responsesOf o.members).map skipCount).getD 0) notes notes')
    (hmethod : op.method = o.method) (hroute : Route.Template.parse o.path = .ok op.route)
    (hcollected : ∀ ms, responsesOf o.members = some ms →
      Collected d ("operation:" ++ op.operationId) ms op.responses) :
    Tally d (done ++ [o]) (ops ++ [op]) notes' where
  distinct := h.distinct.append (List.any_eq_false.2 fun op' hop' heq =>
    hnew (beq_iff_eq.1 heq ▸ List.mem_map_of_mem hop'))
  accounted := by
    have hapart : ∀ op' ∈ ops, op'.operationId ≠ op.operationId := fun op' hop' heq =>
      hnew (heq ▸ List.mem_map_of_mem hop')
    have hold := ((List.forall₂_and_left _ _).2 ⟨hapart, h.accounted.flip⟩).flip
    refine List.rel_append (hold.imp fun o' op' ⟨hne, ho'⟩ =>
      { ho' with skipped := (hnoted.skips_of_ne hne).trans ho'.skipped }) (.cons ⟨hmethod, hroute, hcollected, ?_⟩ .nil)
    rw [hnoted.skips_eq, h.pending _ hnew, Nat.zero_add]
  pending id hid := by
    rw [List.map_append, List.mem_append, not_or, List.map_singleton, List.mem_singleton] at hid
    rw [hnoted.skips_of_ne hid.2, h.pending id hid.1]

theorem collect_tally {done : List Declared} {o : Declared} {ops : List RawOperation} {notes : List Diagnostic}
    (hroute : Route.Template.parse o.path = .ok route) (h : Tally d done ops notes) :
    Ends (collect d route o ops) notes (Tally d (done ++ [o])) fun _ _ => True := by
  refine (operationId_skips _ _ _ notes).bind fun id notes' hskips => ?_
  split
  · trivial
  · rename_i hany
    have hnew : id ∉ ops.map (·.operationId) := fun hid => hany <| by
      obtain ⟨op, hop, hsame⟩ := List.mem_map.1 hid
      exact List.any_eq_true.2 ⟨op, hop, beq_iff_eq.2 hsame⟩
    refine (operation_collected o.item o.members o.method id notes').bind
      fun op notes'' ⟨⟨hid, hmethod, hop, hcollected⟩, hnoted⟩ => ends_pure.2 ?_
    subst hid hop
    exact (h.noted hskips).append hnew hnoted hmethod hroute hcollected

theorem kept_tally (d : Description) : Kept d (Tally d) fun _ => True where
  skipped h := h.noted fun id => by simp [skips, Diagnostic.warn]
  untemplated _ _ _ := trivial
  collected _ hroute h := collect_tally hroute h

end Extract

open Extract

/-- **Responses and skipped keys** of an operation account for its response keys exactly if no two of them denote one
status. There is one response for each status that is denoted, in ascending order, which is read under the last key that
denotes it, and one warning for each key that denotes none. Nothing is lost if every status is written as usual. -/
theorem operationsOf_accounts_responses {d : Description} {ops : List RawOperation} {notes : List Diagnostic}
    (h : (operationsOf d).run [] = .ok ops notes) :
    List.Forall₂ (fun o op => op.method = o.method ∧ Route.Template.parse o.path = .ok op.route ∧
      ∀ ms, responsesOf o.members = some ms → Collected d ("operation:" ++ op.operationId) ms op.responses ∧
        skips op.operationId notes = skipCount ms ∧ op.responses.length + skips op.operationId notes ≤ ms.length ∧
        (op.responses.length + skips op.operationId notes = ms.length ↔ (statuses ms).Nodup) ∧
        ((ms.map (·.1)).Nodup → (∀ m ∈ ms, status? m.1 = none ∨ ∃ n : Nat, m.1 = toString n) →
          op.responses.length + skips op.operationId notes = ms.length)) d.declared ops := by
  have htally : Tally d d.declared ops notes :=
    ((kept_tally d).operationsOf ⟨List.nodup_nil, .nil, fun _ _ => rfl⟩).of_ok h
  refine htally.accounted.imp fun o op ho => ⟨ho.method, ho.route, fun ms hms => ?_⟩
  have hcollected := ho.collected ms hms
  have hskipped : skips op.operationId notes = skipCount ms := by rw [ho.skipped, hms]; rfl
  have hlength := length_statuses ms
  obtain ⟨hle, heq⟩ := hcollected.length_eq_iff
  have hexact : op.responses.length + skips op.operationId notes = ms.length ↔ (statuses ms).Nodup := by
    rw [← heq]
    omega
  exact ⟨hcollected, hskipped, by omega, hexact, fun hkeys husual => hexact.2 (nodup_statuses hkeys husual)⟩

/-- A description with one operation, which has the given responses. -/
def respondingDescription (ms : Json.Members) : Description :=
  let list : Json := .obj [("operationId", .str "list"), ("responses", .obj ms)]
  ⟨"", "", "", "", .obj [("paths", .obj [("/pets", .obj [("get", list)])])], []⟩

/-- The responses of a list: two statuses and a key that denotes none. -/
def listResponses : Json.Members := [("404", .obj []), ("default", .obj []), ("200", .obj [])]

theorem operationsOf_listResponses : Ends (operationsOf (respondingDescription listResponses)) []
    (fun ops _ => ops.length = 1) fun _ _ => False := by
  decide +kernel

theorem operationsOf_accounts_responses_list : ∃ op notes,
    (operationsOf (respondingDescription listResponses)).run [] = .ok [op] notes ∧
      op.responses.length + skips op.operationId notes = 3 := by
  obtain ⟨ops, notes, hrun, hlength⟩ := operationsOf_listResponses.exists_ok
  obtain ⟨op, rfl⟩ := List.length_eq_one_iff.1 hlength
  have hone := operationsOf_accounts_responses hrun
  obtain ⟨-, -, hop⟩ := (List.forall₂_cons.1 hone).1
  obtain ⟨-, -, -, hexact, -⟩ := hop listResponses rfl
  exact ⟨op, notes, hrun, hexact.2 (by decide +kernel)⟩

/-- Two keys for one status, of which the first leaves neither a response nor a warning. -/
theorem operationsOf_loses_response : ∃ d ops notes, (operationsOf d).run [] = .ok ops notes ∧
    ¬List.Forall₂ (fun o op => ∀ ms, responsesOf o.members = some ms →
      op.responses.length + skips op.operationId notes = ms.length) d.declared ops := by
  have hends : Ends (operationsOf (respondingDescription [("200", .obj []), ("0200", .obj [])])) []
      (fun ops notes => ops.map (fun op => op.responses.length + skips op.operationId notes) = [1])
      fun _ _ => False := by decide +kernel
  obtain ⟨ops, notes, hrun, hlength⟩ := hends.exists_ok
  refine ⟨_, ops, notes, hrun, fun hall => ?_⟩
  obtain ⟨op, hop, hone⟩ := List.map_eq_singleton_iff.1 hlength
  subst hop
  have htwo := (List.forall₂_cons.1 hall).1 [("200", .obj []), ("0200", .obj [])] rfl
  rw [hone] at htwo
  cases htwo

end ApiForge
