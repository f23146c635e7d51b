import ApiForge.Code.Basic

/-!
# Building a file

A builder collects imports and declarations in the order of their first request. Imports of one module are merged into
its first entry; a second declaration under a name is dropped. The names that are taken are kept beside the declarations,
so that no call has to search for one.

* `Builder.Indexed`: the names that are kept are those of the declarations. The calls of a builder keep this
  (`Builder.Indexed.addImport`, `Builder.Indexed.declare`).
-/

namespace ApiForge.Code

/-- A file under construction. -/
structure Builder where
  name : String
  imports : List Import := []
  declarations : List Declaration := []
  /-- The names that are taken, in no particular order. -/
  declared : List String := []
  deriving Inhabited

namespace Builder

/-- Adds an item to a list of items unless it is there; the empty text is no item. -/
def addItem (items : List String) (item : String) : List String :=
  if item.isEmpty || items.contains item then items else items ++ [item]

/-- Requests an item of a module; the empty item requests the module itself. -/
def addImport (b : Builder) (module item : String) : Builder :=
  if b.imports.any (·.module == module) then
    { b with imports := b.imports.map fun i =>
        if i.module == module then { i with items := addItem i.items item } else i }
  else { b with imports := b.imports ++ [⟨module, addItem [] item⟩] }

/-- Whether a name is declared. -/
def isDeclared (b : Builder) (name : String) : Bool := b.declared.contains name

/-- Appends a declaration, and takes its name if it has one. -/
def push (b : Builder) (d : Declaration) : Builder :=
  { b with declarations := b.declarations ++ [d], declared := d.name?.toList ++ b.declared }

/-- Appends a declaration unless its name is taken, and says whether it did. -/
def declare (b : Builder) (d : Declaration) : Bool × Builder :=
  match d.name? with
  | some name => if b.isDeclared name then (false, b) else (true, b.push d)
  | none => (true, b.push d)

/-- The finished file. -/
def finish (b : Builder) : File := ⟨b.name, b.imports, b.declarations⟩

/-! ## The names that are taken -/

/-- The names that are taken are those of the declarations. -/
def Indexed (b : Builder) : Prop := ∀ name, name ∈ b.declared ↔ ∃ d ∈ b.declarations, d.name? = some name

section Indexed

variable {b : Builder}

theorem isDeclared_iff_mem {name : String} : b.isDeclared name = true ↔ name ∈ b.declared := List.contains_iff_mem

theorem indexed_new (name : String) : ({ name } : Builder).Indexed := fun _ => by simp

theorem Indexed.isDeclared_iff (h : b.Indexed) {name : String} :
    b.isDeclared name = true ↔ ∃ d ∈ b.declarations, d.name? = some name :=
  isDeclared_iff_mem.trans (h name)

/-- A declaration is refused if its name is taken, and appended otherwise. -/
theorem declare_cases (b : Builder) (d : Declaration) :
    (∃ name, d.name? = some name ∧ b.isDeclared name = true ∧ b.declare d = (false, b)) ∨
      (∀ name, d.name? = some name → b.isDeclared name = false) ∧ b.declare d = (true, b.push d) := by
  unfold declare
  cases hname : d.name? with
  | none => exact .inr ⟨fun _ h => (by cases h), rfl⟩
  | some name =>
    cases htaken : b.isDeclared name with
    | true => exact .inl ⟨name, rfl, htaken, by simp [htaken]⟩
    | false =>
      refine .inr ⟨fun _ h => ?_, by simp [htaken]⟩
      cases h
      exact htaken

theorem Indexed.push (h : b.Indexed) (d : Declaration) : (b.push d).Indexed := by
  intro name
  simp only [Builder.push, List.mem_append, Option.mem_toList, h name, List.mem_singleton, or_and_right, exists_or,
    exists_eq_left, or_comm]

theorem Indexed.declare (h : b.Indexed) (d : Declaration) : (b.declare d).2.Indexed := by
  rcases b.declare_cases d with ⟨-, -, -, heq⟩ | ⟨-, heq⟩
  · rw [heq]
    exact h
  · rw [heq]
    exact h.push d

/-- An import concerns no declaration. -/
theorem Indexed.addImport (h : b.Indexed) (module item : String) : (b.addImport module item).Indexed := by
  unfold Builder.addImport
  split
  · exact h
  · exact h

end Indexed

end Builder

end ApiForge.Code
