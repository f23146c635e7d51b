import ApiForge.Http.Envelope

/-!
# Slots of envelopes

* `exists_payload`: an envelope that keeps its contract has a payload.
* `mem_declared_empty`: an empty envelope has a slot for each status that it is given.
* `populated_fill`: the filled slots are those that were filled, in the order of the statuses.
-/

namespace ApiForge

/-- In a list with distinct keys, every item is found under its key. -/
theorem find?_key {α κ : Type} [DecidableEq κ] (key : α → κ) {items : List α}
    (hdistinct : items.Pairwise (key · ≠ key ·)) {a : α} (ha : a ∈ items) : items.find? (key · == key a) = some a := by
  induction items with
  | nil => cases ha
  | cons b items ih =>
    obtain ⟨hhead, htail⟩ := List.pairwise_cons.1 hdistinct
    rcases List.mem_cons.1 ha with rfl | ha
    · exact List.find?_cons_of_pos (by simp)
    · rw [List.find?_cons_of_neg (by simpa using hhead a ha)]
      exact ih htail ha

end ApiForge

namespace ApiForge.Http.Envelope

/-- **An envelope that keeps its contract has a payload**: the slot of its status is filled. -/
theorem exists_payload {e : Envelope} (h : e.populated = [e.status]) :
    ∃ payload, e.payload? = some payload ∧ (e.status, some payload) ∈ e.slots := by
  have hmem : e.status ∈ e.populated := by rw [h]; exact List.mem_singleton_self _
  obtain ⟨⟨status, slot⟩, hslot, hstatus⟩ := List.mem_map.1 hmem
  obtain ⟨hslot, hfilled⟩ := List.mem_filter.1 hslot
  obtain ⟨payload, rfl⟩ := Option.isSome_iff_exists.1 hfilled
  obtain rfl : status = e.status := hstatus
  refine ⟨payload, ?_, hslot⟩
  have hdistinct : e.slots.Pairwise (·.1 ≠ ·.1) := e.ascending.imp fun h => Nat.ne_of_lt h
  rw [Envelope.payload?, find?_key (·.1) hdistinct hslot]
  rfl

/-! ## Declared statuses -/

theorem mem_keys_addSlot {s status : Nat} {slots : List (Nat × Option Payload)} :
    s ∈ (addSlot status slots).map (·.1) ↔ s = status ∨ s ∈ slots.map (·.1) := by
  fun_induction addSlot status slots with
  | case1 => simp
  | case2 t p rest heq =>
    obtain rfl : status = t := beq_iff_eq.1 heq
    simp
  | case3 t p rest _ _ => simp
  | case4 t p rest _ _ ih =>
    simp only [List.map_cons, List.mem_cons, ih]
    exact or_left_comm

/-- An empty envelope has the slots that it is given. -/
theorem mem_declared_empty {declared : List Nat} {s status : Nat} :
    s ∈ (empty declared status).declared ↔ s ∈ declared := by
  have hfold : ∀ (statuses : List Nat) (slots : List (Nat × Option Payload)),
      s ∈ (statuses.foldl (fun slots t => addSlot t slots) slots).map (·.1) ↔
        s ∈ statuses ∨ s ∈ slots.map (·.1) := by
    intro statuses
    induction statuses with
    | nil => simp
    | cons t statuses ih =>
      intro slots
      rw [List.foldl_cons, ih, mem_keys_addSlot, List.mem_cons, or_assoc]
      exact or_left_comm
  have h := hfold declared []
  rwa [List.map_nil, or_iff_left (List.not_mem_nil)] at h

@[simp] theorem declared_populate (e : Envelope) (status : Nat) (payload : Payload) :
    (e.populate status payload).declared = e.declared := by
  simp [declared, populate]

@[simp] theorem declared_withStatus (e : Envelope) (status : Nat) : (e.withStatus status).declared = e.declared := rfl

/-! ## Filling slots -/

/-- Fills slots one after another. -/
def fill (e : Envelope) (fills : List (Nat × Payload)) : Envelope := fills.foldl (fun e f => e.populate f.1 f.2) e

theorem addSlot_of_lt {status : Nat} : ∀ {slots : List (Nat × Option Payload)}, (∀ slot ∈ slots, slot.1 < status) →
    addSlot status slots = slots ++ [(status, none)]
  | [], _ => rfl
  | (s, p) :: rest, h => by
    obtain ⟨hs, hrest⟩ := List.forall_mem_cons.1 h
    have hne : ¬ (status == s) = true := by simpa using Nat.ne_of_gt hs
    have hge : ¬ status < s := by simp only at hs; omega
    rw [addSlot, if_neg hne, if_neg hge, addSlot_of_lt hrest, List.cons_append]

/-- Slots that are added in ascending order come one after another. -/
theorem foldl_addSlot : ∀ {declared : List Nat} {slots : List (Nat × Option Payload)}, declared.Pairwise (· < ·) →
    (∀ slot ∈ slots, ∀ s ∈ declared, slot.1 < s) →
      declared.foldl (fun slots s => addSlot s slots) slots = slots ++ declared.map fun s => (s, none)
  | [], slots, _, _ => (List.append_nil slots).symm
  | s :: declared, slots, hdeclared, hslots => by
    obtain ⟨hs, hdeclared⟩ := List.pairwise_cons.1 hdeclared
    have hnext : ∀ slot ∈ slots ++ [(s, none)], ∀ s' ∈ declared, slot.1 < s' := by
      intro slot hslot s' hs'
      rcases List.mem_append.1 hslot with hslot | hslot
      · exact hslots slot hslot s' (List.mem_cons_of_mem _ hs')
      · rw [List.mem_singleton.1 hslot]
        exact hs s' hs'
    rw [List.foldl_cons, addSlot_of_lt fun slot hslot => hslots slot hslot s List.mem_cons_self,
      foldl_addSlot hdeclared hnext, List.append_assoc, List.map_cons, List.singleton_append]

/-- An empty envelope has an empty slot for each status. -/
theorem slots_empty {declared : List Nat} (h : declared.Pairwise (· < ·)) (status : Nat) :
    (empty declared status).slots = declared.map fun s => (s, none) :=
  foldl_addSlot h (by nofun)

/-- A slot is filled in the end if it was filled before or is filled on the way. -/
theorem populated_fill : ∀ (fills : List (Nat × Payload)) (e : Envelope), (e.fill fills).populated =
    (e.slots.filter fun slot => slot.2.isSome || slot.1 ∈ fills.map (·.1)).map (·.1)
  | [], e => by simp [fill, populated]
  | (status, payload) :: fills, e => by
    have hfill : e.fill ((status, payload) :: fills) = (e.populate status payload).fill fills := rfl
    rw [hfill, populated_fill fills, populate]
    dsimp only
    rw [List.filter_map, List.map_map]
    congr 1
    refine List.filter_congr fun slot _ => ?_
    by_cases hslot : slot.1 = status
    · simp [hslot]
    · have hmem : slot.1 ∈ ((status, payload) :: fills).map (·.1) ↔ slot.1 ∈ fills.map (·.1) := by
        rw [List.map_cons, List.mem_cons, or_iff_right hslot]
      simp [hslot, decide_eq_decide.2 hmem]

theorem populated_fill_empty {declared : List Nat} (h : declared.Pairwise (· < ·)) (status : Nat)
    (fills : List (Nat × Payload)) :
    ((empty declared status).fill fills).populated = declared.filter (· ∈ fills.map (·.1)) := by
  rw [populated_fill, slots_empty h, List.filter_map, List.map_map]
  simp only [Function.comp_def, Option.isSome_none, Bool.false_or, List.map_id']

end ApiForge.Http.Envelope
