import ApiForge.Code.Printer
import ApiForge.Proofs.Code.History
import Mathlib.Data.List.Nodup

/-!
# What the lines of imports bring

All requests of a module share one line. It brings every item that was requested. The module itself is brought only if
no item was.

* `Brings line module item`: a line names an item of a module, alone or in a list.
* `requested_imports_brought`: what the one line of a module brings after any sequence of calls.
* `bare_import_lost`: a module that was requested and is not brought.
-/

namespace ApiForge.Code

open Text

/-- A line brings an item of a module: it names the item alone, or among others. -/
inductive Brings (line module item : String) : Prop where
  | alone : line = "use " ++ module ++ "::" ++ item ++ ";" → Brings line module item
  | among (before after : List String) :
      line = "use " ++ module ++ "::\x7b" ++ commaList (before ++ item :: after) ++ "\x7d;" → Brings line module item

/-! ## One line -/

theorem Import.brings {i : Import} {item : String} (h : item ∈ i.items) : Brings i.render i.module item := by
  obtain ⟨module, items⟩ := i
  cases items with
  | nil => cases h
  | cons first rest =>
    cases rest with
    | nil =>
      obtain rfl := List.mem_singleton.1 h
      exact .alone rfl
    | cons second rest =>
      obtain ⟨before, after, hitems⟩ := List.append_of_mem h
      exact .among before after (by rw [← hitems]; rfl)

/-- Only the line of an import without items brings the module itself. -/
theorem Import.render_eq_bare_iff {i : Import} : i.render = "use " ++ i.module ++ ";" ↔ i.items = [] := by
  obtain ⟨module, items⟩ := i
  constructor
  · intro h
    have hlength := congrArg String.length h
    cases items with
    | nil => rfl
    | cons first rest =>
      cases rest with
      | nil =>
        simp only [Import.render, String.length_append] at hlength
        have hcolons : "::".length = 2 := rfl
        omega
      | cons second rest =>
        simp only [Import.render, String.length_append] at hlength
        have hopen : "::\x7b".length = 3 := rfl
        have hclose : "\x7d;".length = 2 := rfl
        have hend : ";".length = 1 := rfl
        omega
  · rintro rfl
    rfl

/-! ## The lines of a file -/

/-- The items that the events request of a module are those of the calls. -/
theorem mem_items_iff {events : List Event} {module item : String} :
    item ∈ events.filterMap (Event.item? module) ↔ .addImport module item ∈ events.map Event.call ∧ item ≠ "" := by
  rw [List.mem_filterMap, List.mem_map]
  constructor
  · rintro ⟨e, he, hitem⟩
    cases e with
    | imported module' item' =>
      rw [Event.item?] at hitem
      split at hitem
      · rename_i hboth
        cases hitem
        exact ⟨⟨_, he, by rw [Event.call, hboth.1]⟩, hboth.2⟩
      · cases hitem
    | importedModule module' => cases hitem
    | declared d accepted => cases hitem
    | asked name known => cases hitem
  · rintro ⟨⟨e, he, hcall⟩, hne⟩
    cases e with
    | imported module' item' =>
      cases hcall
      exact ⟨_, he, if_pos ⟨rfl, hne⟩⟩
    | importedModule module' => cases hcall
    | declared d accepted => cases hcall
    | asked name known => cases hcall

/-- A module that a call requests is among the requests. -/
theorem mem_modules {events : List Event} {module : String}
    (h : .importModule module ∈ events.map Event.call ∨ ∃ item, .addImport module item ∈ events.map Event.call) :
    module ∈ events.filterMap Event.module? := by
  rw [List.mem_filterMap]
  rcases h with h | ⟨item, h⟩
  · obtain ⟨e, he, hcall⟩ := List.mem_map.1 h
    cases e <;> cases hcall
    exact ⟨_, he, rfl⟩
  · obtain ⟨e, he, hcall⟩ := List.mem_map.1 h
    cases e <;> cases hcall
    exact ⟨_, he, rfl⟩

/-- **Every requested item is brought.** After any sequence of calls on a new builder, a module that was requested has
one import in the finished file. Its line brings every item that was requested of the module, and it brings the module
itself exactly if no item was requested. -/
theorem requested_imports_brought (name : String) (calls : List Call) (module : String)
    (h : .importModule module ∈ calls ∨ ∃ item, .addImport module item ∈ calls) :
    let imports := (({ name } : Builder).run calls).2.finish.imports
    ∃ i ∈ imports, i.module = module ∧ (∀ j ∈ imports, j.module = module → j = i) ∧
      (∀ item, .addImport module item ∈ calls → item ≠ "" → Brings i.render module item) ∧
      (i.render = "use " ++ module ++ ";" ↔ ∀ item, .addImport module item ∈ calls → item = "") := by
  intro imports
  have hrecorded := (recorded_new name).run calls
  rw [List.nil_append] at hrecorded
  obtain ⟨hmodules, hitems⟩ := hrecorded.imports
  have hcalls := Builder.calls_run { name } calls
  rw [← hcalls] at h ⊢
  obtain ⟨i, hi, rfl⟩ := List.mem_map.1 ((hmodules.mem_iff module).2 (mem_modules h))
  have hi_items : ∀ item, item ∈ i.items ↔ _ := fun item => ((hitems i hi).mem_iff item).trans mem_items_iff
  refine ⟨i, hi, rfl, fun j hj hmodule => ?_, fun item hcall hne => Import.brings ((hi_items item).2 ⟨hcall, hne⟩), ?_⟩
  · exact List.inj_on_of_nodup_map hmodules.nodup hj hi hmodule
  · rw [Import.render_eq_bare_iff, List.eq_nil_iff_forall_not_mem]
    refine forall_congr' fun item => ?_
    rw [hi_items item, not_and, not_not]

/-- A module that is requested, and then an item of it. -/
theorem requested_imports_brought_serde :
    let calls : List Call := [.addImport "serde" "Serialize", .importModule "std", .addImport "serde" "Deserialize"]
    let imports := (({ name := "pets" } : Builder).run calls).2.finish.imports
    ∃ i ∈ imports, Brings i.render "serde" "Serialize" ∧ i.render ≠ "use serde;" := by
  intro calls imports
  obtain ⟨i, hi, -, -, hbrings, hbare⟩ :=
    requested_imports_brought "pets" calls "serde" (.inr ⟨"Serialize", List.mem_cons_self⟩)
  refine ⟨i, hi, hbrings "Serialize" List.mem_cons_self (by decide), fun h => ?_⟩
  exact absurd (hbare.1 h "Serialize" List.mem_cons_self) (by decide)

/-- A module is requested, and then an item of it: no line brings the module itself. -/
theorem bare_import_lost : ∃ calls : List Call, .importModule "serde_json" ∈ calls ∧
    "use serde_json;" ∉ (({ name := "pets" } : Builder).run calls).2.finish.imports.map Import.render :=
  ⟨[.importModule "serde_json", .addImport "serde_json" "Value"], List.mem_cons_self, by decide⟩

end ApiForge.Code
