import ApiForge.Json.Basic

/-!
# Envelopes

An operation declares the statuses that it may answer with. An envelope has a slot for each of them and a status code.
It keeps its contract when exactly one slot is filled and this is the slot of the status code.

* `Envelope.populate` fills a slot that has been declared; `Envelope.tryPopulate` says whether there is one.
* `Envelope.check` decides whether the contract is kept.
-/

namespace ApiForge.Http

/-- Names and values of headers, each name once, in ascending order. -/
abbrev Headers := List (String × String)

/-- Sets a header at its place in the order. -/
def Headers.insert (name value : String) : Headers → Headers
  | [] => [(name, value)]
  | (n, v) :: rest =>
    if name == n then (name, value) :: rest
    else if name < n then (name, value) :: (n, v) :: rest
    else (n, v) :: insert name value rest

/-- The headers of a list, where the last value of a name counts. -/
def Headers.ofList (hs : List (String × String)) : Headers := hs.foldl (fun acc h => Headers.insert h.1 h.2 acc) []

/-- What fills a slot. -/
structure Payload where
  body : Option Json := none
  headers : Headers := []

/-- A list of slots in ascending order of status, each status once. -/
def Ascending (slots : List (Nat × Option Payload)) : Prop := slots.Pairwise (·.1 < ·.1)

/-- A status code with a slot for each declared status, in ascending order. -/
structure Envelope where
  status : Nat
  slots : List (Nat × Option Payload)
  ascending : Ascending slots

/-- A broken contract: the status code and the slots that are filled. -/
structure ContractViolation where
  status : Nat
  populated : List Nat
  deriving DecidableEq

/-- The words for a broken contract. -/
def ContractViolation.message (v : ContractViolation) : String :=
  match v.populated with
  | [] => s!"status {v.status} returned with no populated slot"
  | [one] => s!"status {v.status} returned with slot {one} populated"
  | many =>
    let listed := String.intercalate ", " (many.map toString)
    s!"status {v.status} returned with {many.length} populated slots [{listed}]"

/-- The status code, if the contract is kept: exactly one slot is filled, and it is the slot of the status code. -/
def checkContract (status : Nat) (populated : List Nat) : Except ContractViolation Nat :=
  if populated == [status] then .ok status else .error ⟨status, populated⟩

@[simp] theorem checkContract_self (status : Nat) : checkContract status [status] = .ok status := by
  simp [checkContract]

@[simp] theorem checkContract_of_ne {status : Nat} {populated : List Nat} (h : populated ≠ [status]) :
    checkContract status populated = .error ⟨status, populated⟩ := by
  simp [checkContract, h]

namespace Envelope

/-- Adds an empty slot at its place in the order. -/
def addSlot (status : Nat) : List (Nat × Option Payload) → List (Nat × Option Payload)
  | [] => [(status, none)]
  | (s, p) :: rest =>
    if status == s then (s, none) :: rest
    else if status < s then (status, none) :: (s, p) :: rest
    else (s, p) :: addSlot status rest

theorem mem_addSlot {status : Nat} {slot : Nat × Option Payload} {slots : List (Nat × Option Payload)}
    (h : slot ∈ addSlot status slots) : slot.1 = status ∨ slot ∈ slots := by
  fun_induction addSlot status slots with
  | case1 => exact .inl (by rw [List.mem_singleton.1 h])
  | case2 s p rest heq =>
    rcases List.mem_cons.1 h with rfl | h
    · exact .inl (beq_iff_eq.1 heq).symm
    · exact .inr (List.mem_cons_of_mem _ h)
  | case3 s p rest _ _ =>
    rcases List.mem_cons.1 h with rfl | h
    · exact .inl rfl
    · exact .inr h
  | case4 s p rest _ _ ih =>
    rcases List.mem_cons.1 h with rfl | h
    · exact .inr List.mem_cons_self
    · exact (ih h).imp_right (List.mem_cons_of_mem _)

theorem ascending_addSlot {status : Nat} {slots : List (Nat × Option Payload)} (h : Ascending slots) :
    Ascending (addSlot status slots) := by
  fun_induction addSlot status slots with
  | case1 => exact List.pairwise_singleton _ _
  | case2 s p rest _ => exact List.pairwise_cons.2 (List.pairwise_cons.1 h)
  | case3 s p rest _ hlt =>
    refine List.pairwise_cons.2 ⟨fun slot hslot => ?_, h⟩
    rcases List.mem_cons.1 hslot with rfl | hslot
    · exact hlt
    · exact Nat.lt_trans hlt ((List.pairwise_cons.1 h).1 slot hslot)
  | case4 s p rest hne hge ih =>
    obtain ⟨hhead, htail⟩ := List.pairwise_cons.1 h
    refine List.pairwise_cons.2 ⟨fun slot hslot => ?_, ih htail⟩
    rcases mem_addSlot hslot with heq | hslot
    · have hne : status ≠ s := by simpa using hne
      show s < slot.1
      omega
    · exact hhead slot hslot

/-- An envelope with empty slots. -/
def empty (declared : List Nat) (status : Nat) : Envelope where
  status := status
  slots := declared.foldl (fun slots s => addSlot s slots) []
  ascending := by
    refine List.foldlRecOn (motive := Ascending) declared _ List.Pairwise.nil fun _ h _ _ => ?_
    exact ascending_addSlot h

/-- The declared statuses in ascending order. -/
def declared (e : Envelope) : List Nat := e.slots.map (·.1)

/-- Whether a status is declared. -/
def declares (e : Envelope) (status : Nat) : Bool := e.slots.any (·.1 == status)

/-- Fills the slot of a status, if there is one. -/
def populate (e : Envelope) (status : Nat) (payload : Payload) : Envelope where
  status := e.status
  slots := e.slots.map fun s => (s.1, if s.1 == status then some payload else s.2)
  ascending := by
    rw [Ascending, List.pairwise_map]
    exact e.ascending

/-- Fills the slot of a status if there is one, and says whether there is. -/
def tryPopulate (e : Envelope) (status : Nat) (payload : Payload) : Bool × Envelope :=
  if e.declares status then (true, e.populate status payload) else (false, e)

/-- An envelope with one slot filled. -/
def respond (declared : List Nat) (status : Nat) (payload : Payload) : Envelope :=
  (empty declared status).populate status payload

/-- Sets the status code. -/
def withStatus (e : Envelope) (status : Nat) : Envelope := { e with status }

/-- The statuses whose slots are filled, in ascending order. -/
def populated (e : Envelope) : List Nat := (e.slots.filter (·.2.isSome)).map (·.1)

/-- What fills the slot of the status code. -/
def payload? (e : Envelope) : Option Payload := (e.slots.find? (·.1 == e.status)).bind (·.2)

/-- The status code, if the contract is kept. -/
def check (e : Envelope) : Except ContractViolation Nat := checkContract e.status e.populated

end Envelope

end ApiForge.Http
