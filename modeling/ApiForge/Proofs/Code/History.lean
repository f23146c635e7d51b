import ApiForge.Code.Builder
import Mathlib.Data.List.Basic

/-!
# Histories of builders

What a builder holds is determined by the calls that it has answered: imports and their items in the order of their
first requests, the declarations that it has accepted, and the names of these declarations.

* `FirstSeen requests seen`: each of the requested items once, in the order of their first requests.
* `Builder.run`: the events of a sequence of calls, each call with its answer, and the builder after them.
* `Recorded events b`: a builder holds what the events say. Every call keeps this (`Recorded.perform`), so every
  sequence of calls does (`Recorded.run`).
* `builder_keeps_first_requests`: what every sequence of calls on a new builder gives.
-/

namespace ApiForge.Code

/-! ## The order of first requests -/

/-- Each of the requested items once, in the order of their first requests. -/
structure FirstSeen {α : Type} [DecidableEq α] (requests seen : List α) : Prop where
  mem_iff (x : α) : x ∈ seen ↔ x ∈ requests
  ordered : seen.Pairwise fun x y => requests.idxOf x < requests.idxOf y

namespace FirstSeen

variable {α : Type} [DecidableEq α] {requests seen : List α} {x : α}

theorem nil : FirstSeen ([] : List α) [] := ⟨fun _ => .rfl, .nil⟩

theorem nodup (h : FirstSeen requests seen) : seen.Nodup := by
  refine List.Pairwise.imp ?_ h.ordered
  rintro x _ hlt rfl
  exact Nat.lt_irrefl _ hlt

/-- A request that was made before changes nothing. -/
theorem again (h : FirstSeen requests seen) (hx : x ∈ requests) : FirstSeen (requests ++ [x]) seen := by
  refine ⟨fun y => ?_, h.ordered.imp_of_mem fun {a b} ha hb hlt => ?_⟩
  · rw [h.mem_iff, List.mem_append, List.mem_singleton]
    exact ⟨.inl, fun hy => hy.elim id fun heq => heq ▸ hx⟩
  · rwa [List.idxOf_append_of_mem ((h.mem_iff a).1 ha), List.idxOf_append_of_mem ((h.mem_iff b).1 hb)]

/-- The first request of an item appends it. -/
theorem push (h : FirstSeen requests seen) (hx : x ∉ requests) : FirstSeen (requests ++ [x]) (seen ++ [x]) := by
  refine ⟨fun y => by rw [List.mem_append, List.mem_append, h.mem_iff], List.pairwise_append.2 ⟨?_, by simp, ?_⟩⟩
  · refine h.ordered.imp_of_mem fun {a b} ha hb hlt => ?_
    rwa [List.idxOf_append_of_mem ((h.mem_iff a).1 ha), List.idxOf_append_of_mem ((h.mem_iff b).1 hb)]
  · intro a ha b hb
    obtain rfl := List.mem_singleton.1 hb
    rw [List.idxOf_append_of_mem ((h.mem_iff a).1 ha), List.idxOf_append_of_notMem hx]
    exact Nat.lt_of_lt_of_le (List.idxOf_lt_length_iff.2 ((h.mem_iff a).1 ha)) (Nat.le_add_right _ _)

end FirstSeen

/-! ## Calls and events -/

/-- A call of a builder. -/
inductive Call where
  | addImport (module item : String)
  | importModule (module : String)
  | declare (d : Declaration)
  | isDeclared (name : String)

/-- A call with its answer. -/
inductive Event where
  | imported (module item : String)
  | importedModule (module : String)
  | declared (d : Declaration) (accepted : Bool)
  | asked (name : String) (known : Bool)

namespace Event

/-- The call that was answered. -/
def call : Event → Call
  | imported module item => .addImport module item
  | importedModule module => .importModule module
  | declared d _ => .declare d
  | asked name _ => .isDeclared name

/-- The module that was requested. -/
def module? : Event → Option String
  | imported module _ => some module
  | importedModule module => some module
  | _ => none

/-- The item that was requested of a module; the empty text is no item. -/
def item? (module : String) : Event → Option String
  | imported module' item => if module' = module ∧ item ≠ "" then some item else none
  | _ => none

/-- The declaration that was accepted. -/
def accepted? : Event → Option Declaration
  | declared d true => some d
  | _ => none

/-- Whether the answer is right after the events before. A declaration is accepted if it has no name or is the first
under its name; a name is known if a declaration under it was accepted. -/
def IsRight (before : List Event) : Event → Prop
  | declared d accepted =>
    accepted = true ↔ ∀ name, d.name? = some name → ∀ d' answer, declared d' answer ∈ before → d'.name? ≠ some name
  | asked name known => known = true ↔ ∃ d, declared d true ∈ before ∧ d.name? = some name
  | _ => True

end Event

namespace Builder

/-- The answer of a builder to a call, and the builder after it. -/
def perform (b : Builder) : Call → Event × Builder
  | .addImport module item => (.imported module item, b.addImport module item)
  | .importModule module => (.importedModule module, b.addImport module "")
  | .declare d => (.declared d (b.declare d).1, (b.declare d).2)
  | .isDeclared name => (.asked name (b.isDeclared name), b)

/-- The events of a sequence of calls, and the builder after them. -/
def run (b : Builder) : List Call → List Event × Builder
  | [] => ([], b)
  | c :: calls =>
    let (event, b') := b.perform c
    let (events, b'') := b'.run calls
    (event :: events, b'')

/-- Every call has its event. -/
theorem calls_run : ∀ (b : Builder) (calls : List Call), (b.run calls).1.map Event.call = calls
  | _, [] => rfl
  | b, c :: calls => by
    have hcall : (b.perform c).1.call = c := by cases c <;> rfl
    exact congrArg₂ List.cons hcall (calls_run (b.perform c).2 calls)

/-! ## Items and declarations -/

theorem addItem_empty (items : List String) : addItem items "" = items := rfl

theorem firstSeen_addItem {requests items : List String} {item : String} (h : FirstSeen requests items)
    (hitem : item ≠ "") : FirstSeen (requests ++ [item]) (addItem items item) := by
  have hempty : item.isEmpty = false := by simpa using hitem
  by_cases hmem : item ∈ items
  · rw [addItem, if_pos (by simp [hmem])]
    exact h.again ((h.mem_iff item).1 hmem)
  · rw [addItem, if_neg (by simp [hempty, hmem])]
    exact h.push (mt (h.mem_iff item).2 hmem)

/-- A request merges its item into the entry of its module, or appends an entry. -/
theorem addImport_cases (b : Builder) (module item : String) :
    (module ∈ b.imports.map (·.module) ∧ b.addImport module item =
      { b with imports := b.imports.map fun i =>
          if i.module = module then { i with items := addItem i.items item } else i }) ∨
    (module ∉ b.imports.map (·.module) ∧
      b.addImport module item = { b with imports := b.imports ++ [⟨module, addItem [] item⟩] }) := by
  by_cases h : module ∈ b.imports.map (·.module)
  · refine .inl ⟨h, ?_⟩
    obtain ⟨i, hi, hmodule⟩ := List.mem_map.1 h
    rw [addImport, if_pos (List.any_eq_true.2 ⟨i, hi, by simp [hmodule]⟩)]
    simp
  · refine .inr ⟨h, ?_⟩
    rw [addImport, if_neg]
    intro hany
    obtain ⟨i, hi, hmodule⟩ := List.any_eq_true.1 hany
    exact h (List.mem_map.2 ⟨i, hi, by simpa using hmodule⟩)

end Builder

/-! ## What a builder holds -/

/-- The imports of a builder are those that were requested, in the order of their first requests. -/
structure ImportsRecorded (events : List Event) (imports : List Import) : Prop where
  modules : FirstSeen (events.filterMap Event.module?) (imports.map (·.module))
  items : ∀ i ∈ imports, FirstSeen (events.filterMap (Event.item? i.module)) i.items

/-- A builder holds what the events say: the imports that were requested, the declarations that were accepted, and the
names of these. Every answer was right. -/
structure Recorded (events : List Event) (b : Builder) : Prop where
  imports : ImportsRecorded events b.imports
  declarations : b.declarations = events.filterMap Event.accepted?
  indexed : b.Indexed
  known : ∀ d accepted name, .declared d accepted ∈ events → d.name? = some name → b.isDeclared name = true
  right : ∀ before e after, events = before ++ e :: after → e.IsRight before

/-- An event that requests no import leaves the imports as they are. -/
theorem ImportsRecorded.skip {events : List Event} {imports : List Import} {e : Event}
    (h : ImportsRecorded events imports) (hmodule : e.module? = none) : ImportsRecorded (events ++ [e]) imports := by
  have hitem : ∀ module, e.item? module = none := by
    intro module
    cases e with
    | imported module' item => cases hmodule
    | importedModule module' => cases hmodule
    | declared d accepted => rfl
    | asked name known => rfl
  refine ⟨?_, fun i hi => ?_⟩
  · simpa [List.filterMap_append, hmodule] using h.modules
  · simpa [List.filterMap_append, hitem] using h.items i hi

section Request

theorem filterMap_push {α β : Type} (f : α → Option β) (xs : List α) (x : α) :
    (xs ++ [x]).filterMap f = xs.filterMap f ++ (f x).toList := by
  cases h : f x with
  | none => simp [h]
  | some y => simp [h]

variable {events : List Event} {e : Event} {module item : String}

/-- An event that requests an item of a module, or the module alone if the item is empty. -/
def Event.Requests (e : Event) (module item : String) : Prop :=
  e.module? = some module ∧ ∀ m, e.item? m = if module = m ∧ item ≠ "" then some item else none

/-- A request adds its item to the items of its module, and leaves those of other modules. -/
theorem Event.Requests.firstSeen (he : e.Requests module item) {m : String} {items : List String}
    (h : FirstSeen (events.filterMap (Event.item? m)) items) :
    FirstSeen ((events ++ [e]).filterMap (Event.item? m))
      (if m = module then Builder.addItem items item else items) := by
  rw [filterMap_push, he.2 m]
  by_cases hm : m = module
  · rw [if_pos hm]
    by_cases hitem : item = ""
    · rw [if_neg fun hboth => hboth.2 hitem, hitem, Builder.addItem_empty]
      simpa using h
    · rw [if_pos ⟨hm.symm, hitem⟩]
      exact Builder.firstSeen_addItem h hitem
  · rw [if_neg hm, if_neg fun hboth => hm hboth.1.symm]
    simpa using h

theorem module?_of_item? {m x : String} : ∀ {e : Event}, e.item? m = some x → e.module? = some m
  | .imported module item, h => by
    rw [Event.item?] at h
    split at h
    · rename_i hboth
      exact congrArg some hboth.1
    · cases h

/-- Without a request of a module there is none of its items. -/
theorem filterMap_item?_of_not_mem (h : module ∉ events.filterMap Event.module?) :
    events.filterMap (Event.item? module) = [] := by
  rw [List.filterMap_eq_nil_iff]
  intro e he
  cases hitem : e.item? module with
  | none => rfl
  | some x => exact absurd (List.mem_filterMap.2 ⟨e, he, module?_of_item? hitem⟩) h

/-- A request is recorded by `addImport`. -/
theorem ImportsRecorded.request {b : Builder} (h : ImportsRecorded events b.imports) (he : e.Requests module item) :
    ImportsRecorded (events ++ [e]) (b.addImport module item).imports := by
  have hrequests : (events ++ [e]).filterMap Event.module? = events.filterMap Event.module? ++ [module] := by
    rw [filterMap_push, he.1]
    rfl
  rcases b.addImport_cases module item with ⟨hmem, heq⟩ | ⟨hmem, heq⟩
  · rw [heq]
    refine ⟨?_, fun i hi => ?_⟩
    · have hmodules : (b.imports.map fun i => if i.module = module then { i with items := Builder.addItem i.items item }
          else i).map (·.module) = b.imports.map (·.module) := by
        rw [List.map_map]
        refine List.map_congr_left fun i _ => ?_
        rw [Function.comp]
        split
        · rfl
        · rfl
      rw [hrequests]
      exact hmodules ▸ h.modules.again ((h.modules.mem_iff module).1 hmem)
    · obtain ⟨j, hj, rfl⟩ := List.mem_map.1 hi
      have hitems := he.firstSeen (h.items j hj)
      split
      · rename_i hm
        rwa [if_pos hm] at hitems
      · rename_i hm
        rwa [if_neg hm] at hitems
  · rw [heq]
    have hnew : module ∉ events.filterMap Event.module? := mt (h.modules.mem_iff module).2 hmem
    refine ⟨?_, fun i hi => ?_⟩
    · rw [hrequests, List.map_append]
      exact h.modules.push hnew
    · rcases List.mem_append.1 hi with hi | hi
      · have hne : i.module ≠ module := fun hm => hmem (List.mem_map.2 ⟨i, hi, hm⟩)
        have hitems := he.firstSeen (h.items i hi)
        rwa [if_neg hne] at hitems
      · obtain rfl := List.mem_singleton.1 hi
        have hnone : FirstSeen (events.filterMap (Event.item? module)) [] := by
          rw [filterMap_item?_of_not_mem hnew]
          exact .nil
        have hitems := he.firstSeen hnone
        rwa [if_pos rfl] at hitems

end Request

/-! ## Every call is recorded -/

section Perform

variable {events : List Event} {b : Builder}

/-- A new event is right if it is right after the events before. -/
theorem right_push {e : Event} (h : ∀ before e after, events = before ++ e :: after → e.IsRight before)
    (he : e.IsRight events) : ∀ before e' after, events ++ [e] = before ++ e' :: after → e'.IsRight before := by
  intro before e' after heq
  rcases List.eq_nil_or_concat after with rfl | ⟨after, last, rfl⟩
  · obtain ⟨rfl, hlast⟩ := List.append_inj' heq rfl
    cases hlast
    exact he
  · rw [List.concat_eq_append, ← List.cons_append, ← List.append_assoc] at heq
    exact h before e' after (List.append_inj' heq rfl).1

/-- A declaration that was accepted is among the declarations, and only those are. -/
theorem Recorded.mem_declarations (h : Recorded events b) {d : Declaration} :
    d ∈ b.declarations ↔ .declared d true ∈ events := by
  rw [h.declarations, List.mem_filterMap]
  constructor
  · rintro ⟨e, he, hd⟩
    cases e with
    | declared d' accepted =>
      cases accepted with
      | true =>
        cases hd
        exact he
      | false => cases hd
    | imported module item => cases hd
    | importedModule module => cases hd
    | asked name known => cases hd
  · exact fun he => ⟨_, he, rfl⟩

theorem Recorded.isDeclared_iff (h : Recorded events b) {name : String} :
    b.isDeclared name = true ↔ ∃ d, .declared d true ∈ events ∧ d.name? = some name := by
  rw [h.indexed.isDeclared_iff]
  exact exists_congr fun d => and_congr_left' h.mem_declarations

/-- An event that is no declaration concerns the imports only. -/
theorem Recorded.of_imports (h : Recorded events b) {e : Event} {imports : List Import}
    (himports : ImportsRecorded (events ++ [e]) imports) (hdecl : ∀ d accepted, e ≠ .declared d accepted)
    (hright : e.IsRight events) : Recorded (events ++ [e]) { b with imports } where
  imports := himports
  declarations := by
    have hnone : e.accepted? = none := by
      cases e with
      | declared d accepted => exact absurd rfl (hdecl d accepted)
      | imported module item => rfl
      | importedModule module => rfl
      | asked name known => rfl
    rw [filterMap_push, hnone, Option.toList_none, List.append_nil]
    exact h.declarations
  indexed := h.indexed
  known := by
    intro d accepted name hmem hname
    rcases List.mem_append.1 hmem with hmem | hmem
    · exact h.known d accepted name hmem hname
    · exact absurd (List.mem_singleton.1 hmem).symm (hdecl d accepted)
  right := right_push h.right hright

/-- A declaration under a name that is taken is refused, and an earlier one has the name. -/
theorem Recorded.refuse (h : Recorded events b) {d : Declaration} {name : String} (hname : d.name? = some name)
    (htaken : b.isDeclared name = true) : Recorded (events ++ [.declared d false]) b where
  imports := h.imports.skip rfl
  declarations := by
    rw [filterMap_push, h.declarations]
    exact (List.append_nil _).symm
  indexed := h.indexed
  known := by
    intro d' accepted name' hmem hname'
    rcases List.mem_append.1 hmem with hmem | hmem
    · exact h.known d' accepted name' hmem hname'
    · cases List.mem_singleton.1 hmem
      cases hname.symm.trans hname'
      exact htaken
  right := by
    refine right_push h.right ⟨nofun, fun hfirst => ?_⟩
    obtain ⟨d', hd', hname'⟩ := h.isDeclared_iff.1 htaken
    exact absurd hname' (hfirst name hname d' true hd')

/-- A declaration without a name, or the first under its name, is accepted. -/
theorem Recorded.accept (h : Recorded events b) {d : Declaration}
    (hfree : ∀ name, d.name? = some name → b.isDeclared name = false) :
    Recorded (events ++ [.declared d true]) (b.push d) where
  imports := h.imports.skip rfl
  declarations := by
    rw [filterMap_push, Builder.push, h.declarations]
    rfl
  indexed := h.indexed.push d
  known := by
    intro d' accepted name hmem hname
    rw [Builder.isDeclared_iff_mem, Builder.push, List.mem_append, Option.mem_toList]
    rcases List.mem_append.1 hmem with hmem | hmem
    · exact .inr (Builder.isDeclared_iff_mem.1 (h.known d' accepted name hmem hname))
    · cases List.mem_singleton.1 hmem
      exact .inl hname
  right := by
    refine right_push h.right ⟨fun _ name hname d' answer hmem hname' => ?_, fun _ => rfl⟩
    have htaken := h.known d' answer name hmem hname'
    rw [hfree name hname] at htaken
    cases htaken

/-- **Every call is recorded.** -/
theorem Recorded.perform (h : Recorded events b) (c : Call) :
    Recorded (events ++ [(b.perform c).1]) (b.perform c).2 := by
  have himported : ∀ {e : Event} {module item : String}, e.Requests module item →
      (∀ d accepted, e ≠ .declared d accepted) → e.IsRight events →
      Recorded (events ++ [e]) (b.addImport module item) := by
    intro e module item he hdecl hright
    have hb : b.addImport module item = { b with imports := (b.addImport module item).imports } := by
      rcases b.addImport_cases module item with ⟨-, heq⟩ | ⟨-, heq⟩
      · rw [heq]
      · rw [heq]
    rw [hb]
    exact h.of_imports (h.imports.request he) hdecl hright
  cases c with
  | addImport module item => exact himported ⟨rfl, fun _ => rfl⟩ (by nofun) trivial
  | importModule module => exact himported ⟨rfl, fun _ => (if_neg fun hboth => hboth.2 rfl).symm⟩ (by nofun) trivial
  | declare d =>
    rw [Builder.perform]
    rcases b.declare_cases d with ⟨name, hname, htaken, heq⟩ | ⟨hfree, heq⟩
    · rw [heq]
      exact h.refuse hname htaken
    · rw [heq]
      exact h.accept hfree
  | isDeclared name => exact h.of_imports (h.imports.skip rfl) (by nofun) h.isDeclared_iff

/-- **Every sequence of calls is recorded.** -/
theorem Recorded.run : ∀ {events : List Event} {b : Builder}, Recorded events b → ∀ calls : List Call,
    Recorded (events ++ (b.run calls).1) (b.run calls).2
  | events, b, h, [] => by
    rw [Builder.run, List.append_nil]
    exact h
  | events, b, h, c :: calls => by
    have hrest := (h.perform c).run calls
    rwa [List.append_assoc, List.singleton_append] at hrest

theorem recorded_new (name : String) : Recorded [] ({ name } : Builder) where
  imports := ⟨.nil, by nofun⟩
  declarations := rfl
  indexed := Builder.indexed_new name
  known := by nofun
  right := by
    intro before e after h
    cases before <;> cases h

end Perform

/-- **A builder keeps what was requested first, in the order of the requests.** After every sequence of calls on a new
builder, its modules, and the items of each module, are those that were requested, each once and in the order of their
first requests. Its declarations are those that were accepted, in the order of the calls, and the names that are taken
are theirs. A declaration is accepted exactly if it has no name or is the first under its name, and a name is known
exactly if a declaration under it was accepted before. -/
theorem builder_keeps_first_requests (name : String) (calls : List Call) :
    let events := (({ name } : Builder).run calls).1
    let b := (({ name } : Builder).run calls).2
    events.map Event.call = calls ∧
    ((b.imports.map (·.module)).Nodup ∧ FirstSeen (events.filterMap Event.module?) (b.imports.map (·.module))) ∧
    (∀ i ∈ b.imports, i.items.Nodup ∧ FirstSeen (events.filterMap (Event.item? i.module)) i.items) ∧
    (b.declarations = events.filterMap Event.accepted? ∧
      ∀ n, n ∈ b.declared ↔ ∃ d ∈ b.declarations, d.name? = some n) ∧
    (∀ before d accepted after, events = before ++ .declared d accepted :: after →
      (accepted = true ↔ ∀ n, d.name? = some n → ∀ d' answer, .declared d' answer ∈ before → d'.name? ≠ some n)) ∧
    ∀ before n known after, events = before ++ .asked n known :: after →
      (known = true ↔ ∃ d, .declared d true ∈ before ∧ d.name? = some n) := by
  intro events b
  have h : Recorded events b := (recorded_new name).run calls
  exact ⟨Builder.calls_run _ calls, ⟨h.imports.modules.nodup, h.imports.modules⟩,
    fun i hi => ⟨(h.imports.items i hi).nodup, h.imports.items i hi⟩, ⟨h.declarations, h.indexed⟩,
    fun before d accepted after heq => h.right before _ after heq,
    fun before n known after heq => h.right before _ after heq⟩

/-- A type and a constant under one name. -/
def petType : Declaration := .type { name := "Pet", shape := .alias (.named "String") }

def petConstant : Declaration := .const { name := "Pet", type := .named "u16", value := .int 42 }

/-- Imports of two modules with repetitions, two declarations under one name, and a question about the name. -/
def petCalls : List Call :=
  [.addImport "serde" "Serialize", .importModule "std", .addImport "serde" "Deserialize",
    .addImport "serde" "Serialize", .declare petType, .declare petConstant, .isDeclared "Pet"]

theorem builder_keeps_first_requests_pet :
    let events := (({ name := "pets" } : Builder).run petCalls).1
    let b := (({ name := "pets" } : Builder).run petCalls).2
    FirstSeen ["serde", "std", "serde", "serde"] (b.imports.map (·.module)) ∧
      FirstSeen ["Serialize", "Deserialize", "Serialize"] ["Serialize", "Deserialize"] ∧
      b.declarations = [petType] ∧
      ("Pet" ∈ b.declared ↔ ∃ d ∈ b.declarations, d.name? = some "Pet") ∧
      events = events.take 5 ++ .declared petConstant false :: events.drop 6 ∧
      (¬ ∀ n, petConstant.name? = some n → ∀ d answer, .declared d answer ∈ events.take 5 → d.name? ≠ some n) ∧
      events = events.take 6 ++ .asked "Pet" true :: [] ∧
      ∃ d, .declared d true ∈ events.take 6 ∧ d.name? = some "Pet" := by
  intro events b
  obtain ⟨-, ⟨-, hmodules⟩, hitems, ⟨hdecl, htaken⟩, haccepted, hknown⟩ := builder_keeps_first_requests "pets" petCalls
  have hserde := hitems ⟨"serde", ["Serialize", "Deserialize"]⟩ (by decide)
  refine ⟨hmodules, hserde.2, hdecl, htaken "Pet", rfl, fun hfirst => ?_, rfl, (hknown _ "Pet" true [] rfl).1 rfl⟩
  exact Bool.false_ne_true ((haccepted _ petConstant false _ rfl).2 hfirst)

end ApiForge.Code
