import ApiForge.Proofs.Http.Envelope
import Mathlib.Data.List.Basic

/-!
# Histories of envelopes

What an envelope holds is determined by the statuses that it was made for and by the calls on it: a slot holds the
payload that was given last for its status, and the status code is the one that was set last.

* `Call`: a call on an envelope. `Envelope.performAll` makes a sequence of them.
* `recent? f calls`: what the last of the calls gives that gives anything.
* `Recorded declared status calls e`: an envelope holds what the calls say. Every call keeps this
  (`Recorded.perform`), so every sequence of calls does (`Recorded.performAll`).
* `contract_of_history`: what every sequence of calls on an empty envelope leads to.
-/

namespace ApiForge.Http

/-! ## Calls -/

/-- A call on an envelope. -/
inductive Call where
  | populate (status : Nat) (payload : Payload)
  | withStatus (status : Nat)

namespace Call

/-- The payload that a call gives for a status. -/
def payload? (status : Nat) : Call → Option Payload
  | populate s payload => if s = status then some payload else none
  | withStatus _ => none

/-- The status code that a call sets. -/
def status? : Call → Option Nat
  | populate _ _ => none
  | withStatus status => some status

theorem payload?_eq_some_iff {status : Nat} {payload : Payload} {c : Call} :
    c.payload? status = some payload ↔ c = populate status payload := by
  cases c with
  | populate s p =>
    by_cases h : s = status
    · simp [payload?, h]
    · simp [payload?, h]
  | withStatus s => simp [payload?]

end Call

/-- The envelope after a call. -/
def Envelope.perform (e : Envelope) : Call → Envelope
  | .populate status payload => (e.tryPopulate status payload).2
  | .withStatus status => e.withStatus status

/-- The envelope after a sequence of calls. -/
def Envelope.performAll (e : Envelope) (calls : List Call) : Envelope := calls.foldl Envelope.perform e

/-! ## The last call that gives something -/

/-- What the last item gives that gives anything. -/
def recent? {α β : Type} (f : α → Option β) (items : List α) : Option β := items.reverse.findSome? f

section Recent

variable {α β : Type} {f : α → Option β} {items : List α}

theorem recent?_push (f : α → Option β) (items : List α) (a : α) :
    recent? f (items ++ [a]) = (f a).or (recent? f items) := by
  rw [recent?, List.reverse_concat, List.findSome?_cons]
  cases f a with
  | none => rfl
  | some b => rfl

theorem recent?_eq_some_iff {b : β} : recent? f items = some b ↔
    ∃ before a after, items = before ++ a :: after ∧ f a = some b ∧ ∀ x ∈ after, f x = none := by
  rw [recent?, List.findSome?_eq_some_iff]
  constructor
  · rintro ⟨after, a, before, heq, ha, hafter⟩
    refine ⟨before.reverse, a, after.reverse, ?_, ha, fun x hx => hafter x (List.mem_reverse.1 hx)⟩
    have hitems := congrArg List.reverse heq
    simpa using hitems
  · rintro ⟨before, a, after, rfl, ha, hafter⟩
    exact ⟨after.reverse, a, before.reverse, by simp, ha, fun x hx => hafter x (List.mem_reverse.1 hx)⟩

theorem recent?_isSome_iff : (recent? f items).isSome = true ↔ ∃ a ∈ items, (f a).isSome = true := by
  simp [recent?]

end Recent

/-- There is a last payload for a status if one was given. -/
theorem isSome_recent?_payload? {status : Nat} {calls : List Call} :
    (recent? (Call.payload? status) calls).isSome = true ↔ ∃ payload, .populate status payload ∈ calls := by
  rw [recent?_isSome_iff]
  constructor
  · rintro ⟨c, hc, hsome⟩
    obtain ⟨payload, hpayload⟩ := Option.isSome_iff_exists.1 hsome
    exact ⟨payload, Call.payload?_eq_some_iff.1 hpayload ▸ hc⟩
  · rintro ⟨payload, hc⟩
    exact ⟨_, hc, by simp [Call.payload?]⟩

/-- An ascending list whose only item is `c`. -/
theorem eq_singleton_iff_of_ascending {c : Nat} {statuses : List Nat} (h : statuses.Pairwise (· < ·)) :
    statuses = [c] ↔ ∀ s, s ∈ statuses ↔ s = c := by
  refine ⟨fun heq s => by rw [heq, List.mem_singleton], fun hmem => ?_⟩
  cases statuses with
  | nil => exact absurd ((hmem c).2 rfl) List.not_mem_nil
  | cons s rest =>
    obtain ⟨hfirst, -⟩ := List.pairwise_cons.1 h
    obtain rfl : s = c := (hmem s).1 List.mem_cons_self
    cases rest with
    | nil => rfl
    | cons t rest =>
      have ht : t = s := (hmem t).1 (by simp)
      have hlt := hfirst t List.mem_cons_self
      omega

/-! ## What an envelope holds -/

/-- An envelope holds what the calls say: its slots are those of the declared statuses, each of them with the payload
that was given last for its status, and the status code is the one that was set last. -/
structure Recorded (declared : List Nat) (status : Nat) (calls : List Call) (e : Envelope) : Prop where
  keys (s : Nat) : s ∈ e.declared ↔ s ∈ declared
  slots : ∀ slot ∈ e.slots, slot.2 = recent? (Call.payload? slot.1) calls
  status : e.status = (recent? Call.status? calls).getD status

namespace Envelope

theorem declares_iff {e : Envelope} {s : Nat} : e.declares s = true ↔ s ∈ e.declared := by
  simp [declares, declared]

/-- Filling a slot that does not exist changes nothing. -/
theorem populate_of_not_declared {e : Envelope} {s : Nat} (h : s ∉ e.declared) (payload : Payload) :
    e.populate s payload = e := by
  have hslots : (e.slots.map fun slot => (slot.1, if slot.1 == s then some payload else slot.2)) = e.slots := by
    rw [List.map_congr_left (g := id), List.map_id]
    intro slot hslot
    have hne : slot.1 ≠ s := fun heq => h (List.mem_map.2 ⟨slot, hslot, heq⟩)
    simp [hne]
  cases e
  simpa [populate] using hslots

theorem tryPopulate_eq (e : Envelope) (s : Nat) (payload : Payload) :
    e.tryPopulate s payload = (e.declares s, e.populate s payload) := by
  unfold tryPopulate
  cases h : e.declares s with
  | true => rfl
  | false =>
    have hnone : s ∉ e.declared := fun hs => by
      rw [declares_iff.2 hs] at h
      cases h
    rw [populate_of_not_declared hnone]
    rfl

/-- A slot that is added is empty. -/
theorem eq_none_of_mem_addSlot {s : Nat} {slots : List (Nat × Option Payload)} (h : ∀ slot ∈ slots, slot.2 = none) :
    ∀ slot ∈ addSlot s slots, slot.2 = none := by
  fun_induction addSlot s slots with
  | case1 => simp
  | case2 t p rest heq => simpa using (List.forall_mem_cons.1 h).2
  | case3 t p rest hne hlt => simpa using h
  | case4 t p rest hne hge ih =>
    obtain ⟨hhead, hrest⟩ := List.forall_mem_cons.1 h
    exact List.forall_mem_cons.2 ⟨hhead, ih hrest⟩

/-- In an empty envelope all slots are empty. -/
theorem eq_none_of_mem_slots_empty {declared : List Nat} {status : Nat} :
    ∀ slot ∈ (empty declared status).slots, slot.2 = none :=
  List.foldlRecOn (motive := fun slots : List (Nat × Option Payload) => ∀ slot ∈ slots, slot.2 = none) declared
    _ (List.forall_mem_nil _) fun _ hslots _ _ => eq_none_of_mem_addSlot hslots

theorem declared_ascending (e : Envelope) : e.declared.Pairwise (· < ·) := List.pairwise_map.2 e.ascending

theorem populated_ascending (e : Envelope) : e.populated.Pairwise (· < ·) :=
  List.pairwise_map.2 (e.ascending.filter _)

/-- The contract is kept for a status exactly if it is the status code and the only filled slot. -/
theorem check_eq_ok_iff {e : Envelope} {c : Nat} : e.check = .ok c ↔ e.status = c ∧ e.populated = [c] := by
  rw [check]
  by_cases h : e.populated = [e.status]
  · rw [h, checkContract_self, Except.ok.injEq]
    exact ⟨fun heq => ⟨heq, by rw [heq]⟩, And.left⟩
  · rw [checkContract_of_ne h]
    refine ⟨nofun, fun ⟨hstatus, hpopulated⟩ => ?_⟩
    rw [hstatus] at h
    exact absurd hpopulated h

end Envelope

section Recorded

variable {declared : List Nat} {status : Nat} {calls : List Call} {e : Envelope}

theorem recorded_empty (declared : List Nat) (status : Nat) : Recorded declared status [] (.empty declared status) where
  keys _ := Envelope.mem_declared_empty
  slots := Envelope.eq_none_of_mem_slots_empty
  status := rfl

/-- **Every call is recorded.** -/
theorem Recorded.perform (h : Recorded declared status calls e) (c : Call) :
    Recorded declared status (calls ++ [c]) (e.perform c) := by
  cases c with
  | populate s payload =>
    rw [Envelope.perform, Envelope.tryPopulate_eq]
    refine ⟨fun t => ?_, fun slot hslot => ?_, ?_⟩
    · rw [Envelope.declared_populate]
      exact h.keys t
    · obtain ⟨old, hold, rfl⟩ := List.mem_map.1 hslot
      rw [recent?_push]
      by_cases hs : old.1 = s
      · simp [Call.payload?, hs]
      · simp [Call.payload?, hs, Ne.symm hs, h.slots old hold]
    · rw [recent?_push]
      exact h.status
  | withStatus s =>
    refine ⟨h.keys, fun slot hslot => ?_, ?_⟩
    · rw [recent?_push]
      exact h.slots slot hslot
    · rw [recent?_push]
      rfl

/-- **Every sequence of calls is recorded.** -/
theorem Recorded.performAll (h : Recorded declared status calls e) (more : List Call) :
    Recorded declared status (calls ++ more) (e.performAll more) := by
  induction more generalizing calls e with
  | nil =>
    rw [List.append_nil]
    exact h
  | cons c more ih =>
    have hrest := ih (h.perform c)
    rwa [List.append_assoc, List.singleton_append] at hrest

/-- The filled slots are those of the declared statuses for which a payload was given. -/
theorem Recorded.mem_populated (h : Recorded declared status calls e) {s : Nat} :
    s ∈ e.populated ↔ s ∈ declared ∧ ∃ payload, .populate s payload ∈ calls := by
  rw [← h.keys, ← isSome_recent?_payload?]
  simp only [Envelope.populated, Envelope.declared, List.mem_map, List.mem_filter]
  constructor
  · rintro ⟨slot, ⟨hslot, hfilled⟩, rfl⟩
    exact ⟨⟨slot, hslot, rfl⟩, h.slots slot hslot ▸ hfilled⟩
  · rintro ⟨⟨slot, hslot, rfl⟩, hsome⟩
    exact ⟨slot, ⟨hslot, by rwa [h.slots slot hslot]⟩, rfl⟩

/-- The contract is kept exactly if the status code is the only declared status for which a payload was given. -/
theorem Recorded.check_eq_ok_iff (h : Recorded declared status calls e) {c : Nat} : e.check = .ok c ↔
    e.status = c ∧ c ∈ declared ∧ ∀ s ∈ declared, (∃ payload, .populate s payload ∈ calls) ↔ s = c := by
  rw [Envelope.check_eq_ok_iff, eq_singleton_iff_of_ascending e.populated_ascending]
  refine and_congr_right fun _ => ?_
  constructor
  · intro hmem
    refine ⟨(h.mem_populated.1 ((hmem c).2 rfl)).1, fun s hs => ?_⟩
    rw [← hmem s, h.mem_populated, and_iff_right hs]
  · rintro ⟨hc, hgiven⟩ s
    rw [h.mem_populated]
    refine ⟨fun ⟨hs, hpayload⟩ => (hgiven s hs).1 hpayload, ?_⟩
    rintro rfl
    exact ⟨hc, (hgiven s hc).2 rfl⟩

/-- The payload of an envelope that keeps its contract was given last for its status. -/
theorem Recorded.payload_last (h : Recorded declared status calls e) {c : Nat} (hc : e.check = .ok c) :
    ∃ payload before after, e.payload? = some payload ∧ calls = before ++ .populate c payload :: after ∧
      ∀ other, .populate c other ∉ after := by
  -- The payload comes from the slot of the status code, and the slot holds what was given last.
  obtain ⟨rfl, hpopulated⟩ := Envelope.check_eq_ok_iff.1 hc
  obtain ⟨payload, hpayload, hslot⟩ := Envelope.exists_payload hpopulated
  have hrecent : recent? (Call.payload? e.status) calls = some payload := (h.slots _ hslot).symm
  obtain ⟨before, call, after, heq, hcall, hafter⟩ := recent?_eq_some_iff.1 hrecent
  obtain rfl := Call.payload?_eq_some_iff.1 hcall
  refine ⟨payload, before, after, hpayload, heq, fun other hother => ?_⟩
  have hnone := hafter _ hother
  simp [Call.payload?] at hnone

/-- An envelope that is made with one payload records one call. -/
theorem recorded_respond (declared : List Nat) (s : Nat) (payload : Payload) :
    Recorded declared s [.populate s payload] (Envelope.respond declared s payload) := by
  have hperform := (recorded_empty declared s).perform (.populate s payload)
  rwa [Envelope.perform, Envelope.tryPopulate_eq] at hperform

/-- An envelope that is made with one payload keeps its contract exactly if its status is declared. -/
theorem respond_check_eq_ok_iff (declared : List Nat) (s : Nat) (payload : Payload) :
    (Envelope.respond declared s payload).check = .ok s ↔ s ∈ declared := by
  rw [(recorded_respond declared s payload).check_eq_ok_iff]
  refine ⟨fun ⟨_, hs, _⟩ => hs, fun hs => ⟨rfl, hs, fun t _ => ?_⟩⟩
  constructor
  · rintro ⟨other, hother⟩
    cases List.mem_singleton.1 hother
    rfl
  · rintro rfl
    exact ⟨payload, List.mem_singleton_self _⟩

end Recorded

/-! ## The contract -/

/-- **The contract of an envelope, over any history.** After every sequence of calls on an empty envelope its slots are
those of the declared statuses, and its status code is the one that was set last. A further payload is taken exactly if
its status is declared, and otherwise nothing changes. The filled slots are, in ascending order, those of the declared
statuses for which a payload was given. The contract is kept exactly if the status code is declared and is the only
declared status for which a payload was given; then the payload is the one that was given last for it. An envelope that
is made with one payload keeps its contract exactly if its status is declared. -/
theorem contract_of_history (declared : List Nat) (status : Nat) (calls : List Call) :
    let e := (Envelope.empty declared status).performAll calls
    (e.declared.Pairwise (· < ·) ∧ ∀ s, s ∈ e.declared ↔ s ∈ declared) ∧
    e.status = (recent? Call.status? calls).getD status ∧
    (∀ s payload, ((e.tryPopulate s payload).1 = true ↔ s ∈ declared) ∧
      (s ∉ declared → (e.tryPopulate s payload).2 = e)) ∧
    (e.populated.Pairwise (· < ·) ∧
      ∀ s, s ∈ e.populated ↔ s ∈ declared ∧ ∃ payload, .populate s payload ∈ calls) ∧
    (∀ c, e.check = .ok c ↔
      e.status = c ∧ c ∈ declared ∧ ∀ s ∈ declared, (∃ payload, .populate s payload ∈ calls) ↔ s = c) ∧
    (∀ c, e.check = .ok c → ∃ payload before after, e.payload? = some payload ∧
      calls = before ++ .populate c payload :: after ∧ ∀ other, .populate c other ∉ after) ∧
    ∀ s payload, (Envelope.respond declared s payload).check = .ok s ↔ s ∈ declared := by
  intro e
  have h : Recorded declared status calls e := (recorded_empty declared status).performAll calls
  refine ⟨⟨e.declared_ascending, h.keys⟩, h.status, fun s payload => ?_, ⟨e.populated_ascending,
    fun s => h.mem_populated⟩, fun c => h.check_eq_ok_iff, fun c hc => h.payload_last hc,
    respond_check_eq_ok_iff declared⟩
  rw [Envelope.tryPopulate_eq]
  refine ⟨Envelope.declares_iff.trans (h.keys s), fun hs => ?_⟩
  exact Envelope.populate_of_not_declared (mt (h.keys s).1 hs) payload

/-- A status may be declared twice, a payload may be given twice, and the status code may be set in between. -/
theorem contract_of_history_retried :
    let calls : List Call := [.populate 200 {}, .withStatus 404, .populate 500 {},
      .populate 200 { headers := [("etag", "2")] }, .withStatus 200]
    let e := (Envelope.empty [404, 200, 404] 0).performAll calls
    e.check = .ok 200 ∧ (e.tryPopulate 500 {}).2 = e ∧ ∃ payload before after, e.payload? = some payload ∧
      calls = before ++ .populate 200 payload :: after ∧ ∀ other, .populate 200 other ∉ after := by
  intro calls e
  obtain ⟨-, -, htry, -, -, hlast, -⟩ := contract_of_history [404, 200, 404] 0 calls
  have hcheck : e.check = .ok 200 := rfl
  exact ⟨hcheck, (htry 500 {}).2 (by decide), hlast 200 hcheck⟩

end ApiForge.Http
