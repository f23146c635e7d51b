import ApiForge.Description.Load
import ApiForge.Proofs.Description.References
import ApiForge.Proofs.Files.Rounds
import Mathlib.Algebra.Order.BigOperators.Group.Finset
import Mathlib.Data.String.Basic
import Mathlib.Order.Bounds.Basic

/-!
# Loading goes on until nothing is missing

A description is loaded with the documents that references in it name, and with those that these documents refer to in
turn. They may refer to one another in loops; each is loaded once. How texts are read as documents does not matter.

* `Reader.rootOf` and `Reader.externalOf`: the root of a description and the documents that its references name.
* `Needed reader w root name`: references lead from the root document to this name. This is the least set of names that
  covers the references (`isLeast_needed`).
* `Frontier reader w root pending d`: the invariant of loading. What is loaded or pending is needed, and what the loaded
  documents refer to is loaded or pending.
* `remaining`: no more rounds follow than names are pending, or stand in documents that are not loaded. It goes down
  with each round, since a workspace has finitely many files and no document is loaded twice.
* `load_ends`: loading ends, with all that is needed or with the failure of something needed.
-/

namespace ApiForge

open Json Text

/-! ## Documents in a workspace -/

/-- The directory where the documents stand that a description refers to. -/
def Description.directoryOf (source : String) : String := (Files.Path.parent? source).getD ""

namespace Reader

variable {reader : Reader} {w : Workspace} {source path text name : String} {document : Json}

/-- The description at a path, without the documents that it refers to. -/
def rootOf (reader : Reader) (w : Workspace) (path : String) : Except LoadError Description :=
  match w.read path with
  | .error e => .error (.unreadable path e)
  | .ok text => reader.parse path text

/-- The document that a name stands for in a description that was read from `source`. -/
def externalOf (reader : Reader) (w : Workspace) (source name : String) : Except LoadError Json :=
  let file := Files.Path.join (Description.directoryOf source) name
  match w.read file with
  | .error e => .error (.unreadableExternal name source e)
  | .ok text => reader.document file text

/-- What a description that has been parsed has from the text and its path. -/
theorem parse_eq_ok {d : Description} (h : reader.parse source text = .ok d) :
    d.source = source ∧ d.external = [] ∧ ∃ title, d.slug = Naming.slug title := by
  unfold parse at h
  cases hdocument : reader.document source text with
  | error e => rw [hdocument] at h; cases h
  | ok document =>
    rw [hdocument] at h
    change reader.ofDocument source document = .ok d at h
    unfold ofDocument at h
    dsimp only at h
    split at h
    · cases h
      exact ⟨rfl, rfl, _, rfl⟩
    · cases h

theorem rootOf_eq_ok {root : Description} (h : reader.rootOf w path = .ok root) :
    root.source = path ∧ root.external = [] ∧ ∃ title, root.slug = Naming.slug title := by
  unfold rootOf at h
  split at h
  · cases h
  · exact parse_eq_ok h

theorem document_eq_ok (h : reader.document path text = .ok document) :
    reader.yaml? text = some document ∨ reader.json? text = some document := by
  unfold Reader.document at h
  split at h
  · split at h
    · rename_i hyaml
      cases h
      exact .inl hyaml
    · cases h
  · split at h
    · rename_i hjson
      cases h
      exact .inr hjson
    · cases h

/-- A document comes from one of the files. -/
theorem file_of_externalOf (h : reader.externalOf w source name = .ok document) :
    ∃ f ∈ w.files, reader.yaml? f.2 = some document ∨ reader.json? f.2 = some document := by
  unfold externalOf at h
  dsimp only at h
  split at h
  · cases h
  · rename_i text hread
    obtain ⟨l, -, -, hfile⟩ := Workspace.read_eq_ok_iff.1 hread
    obtain ⟨f, hfind, htext⟩ := Option.map_eq_some_iff.1 hfile
    refine ⟨f, List.mem_of_find?_eq_some hfind, ?_⟩
    rw [htext]
    exact document_eq_ok h

end Reader

/-! ## Names that are pending -/

theorem mem_insertName {name x : String} : ∀ {names : List String}, x ∈ insertName name names ↔ x = name ∨ x ∈ names
  | [] => by simp [insertName]
  | n :: names => by
    unfold insertName
    split
    · rename_i heq
      rw [eq_of_beq heq]
      simp
    · split
      · exact List.mem_cons
      · rw [List.mem_cons, mem_insertName, List.mem_cons, or_left_comm]

theorem length_insertName_le (name : String) : ∀ names : List String, (insertName name names).length ≤ names.length + 1
  | [] => Nat.le_refl 1
  | n :: names => by
    unfold insertName
    split
    · exact Nat.le_succ _
    · split
      · exact Nat.le_refl _
      · exact Nat.succ_le_succ (length_insertName_le name names)

theorem Reader.mem_addNames {x : String} : ∀ {names pending : List String},
    x ∈ addNames names pending ↔ x ∈ names ∨ x ∈ pending
  | [], pending => by simp [addNames]
  | name :: names, pending => by
    have ih : x ∈ addNames names (insertName name pending) ↔ x ∈ names ∨ x ∈ insertName name pending := mem_addNames
    rw [mem_insertName] at ih
    rw [List.mem_cons, or_assoc, or_left_comm]
    exact ih

theorem Reader.length_addNames_le : ∀ names pending : List String,
    (addNames names pending).length ≤ pending.length + names.length
  | [], pending => Nat.le_refl _
  | name :: names, pending => by
    have ih := length_addNames_le names (insertName name pending)
    have hinsert := length_insertName_le name pending
    rw [List.length_cons]
    calc (addNames (name :: names) pending).length ≤ (insertName name pending).length + names.length := ih
      _ ≤ pending.length + (names.length + 1) := by omega

namespace Description

/-! ## Documents that are loaded -/

/-- The names of the documents that are loaded. -/
def names (d : Description) : List String := d.external.map (·.1)

/-- The documents are in ascending order of their names. -/
def Ascending (external : List (String × Json)) : Prop := external.Pairwise fun a b => a.1 < b.1

section Ascending

variable {name : String} {document : Json} {entry : String × Json}

theorem mem_insertSorted : ∀ {external : List (String × Json)}, name ∉ external.map (·.1) →
    (entry ∈ insertSorted name document external ↔ entry = (name, document) ∨ entry ∈ external)
  | [], _ => by simp [insertSorted]
  | (p, v) :: external, h => by
    rw [List.map_cons, List.mem_cons, not_or] at h
    unfold insertSorted
    rw [if_neg (by simpa using h.1)]
    split
    · exact List.mem_cons
    · rw [List.mem_cons, mem_insertSorted h.2, List.mem_cons, or_left_comm]

theorem Ascending.insertSorted : ∀ {external : List (String × Json)}, Ascending external →
    name ∉ external.map (·.1) → Ascending (insertSorted name document external)
  | [], _, _ => List.pairwise_singleton _ _
  | (p, v) :: external, h, hnew => by
    rw [List.map_cons, List.mem_cons, not_or] at hnew
    obtain ⟨hp, hrest⟩ := List.pairwise_cons.1 h
    unfold Description.insertSorted
    rw [if_neg (by simpa using hnew.1)]
    split
    · rename_i hlt
      refine List.pairwise_cons.2 ⟨fun entry hentry => ?_, h⟩
      rcases List.mem_cons.1 hentry with rfl | hentry
      · exact hlt
      · exact hlt.trans (hp entry hentry)
    · rename_i hle
      refine List.pairwise_cons.2 ⟨fun entry hentry => ?_, Ascending.insertSorted hrest hnew.2⟩
      rcases (mem_insertSorted hnew.2).1 hentry with rfl | hentry
      · exact lt_of_le_of_ne (not_lt.1 hle) (Ne.symm hnew.1)
      · exact hp entry hentry

/-- Each name has one document. -/
theorem Ascending.find?_eq_some_iff : ∀ {external : List (String × Json)}, Ascending external →
    ((external.find? (·.1 == name)).map (·.2) = some document ↔ (name, document) ∈ external)
  | [], _ => by simp
  | (p, v) :: external, h => by
    obtain ⟨hp, hrest⟩ := List.pairwise_cons.1 h
    by_cases hname : p = name
    · subst hname
      rw [List.find?_cons_of_pos (by simp), Option.map_some, Option.some_inj, List.mem_cons, Prod.mk.injEq]
      constructor
      · rintro rfl
        exact .inl ⟨rfl, rfl⟩
      · rintro (⟨-, rfl⟩ | hmem)
        · rfl
        · exact absurd (hp _ hmem) (lt_irrefl _)
    · rw [List.find?_cons_of_neg (by simpa using hname), Ascending.find?_eq_some_iff hrest, List.mem_cons,
        Prod.mk.injEq]
      exact (or_iff_right fun h => hname h.1.symm).symm

end Ascending

theorem mem_names_withExternal {d : Description} {name x : String} (h : name ∉ d.names) (document : Json) :
    x ∈ (d.withExternal name document).names ↔ x = name ∨ x ∈ d.names := by
  unfold names withExternal
  simp only [List.mem_map, mem_insertSorted h]
  constructor
  · rintro ⟨entry, rfl | hentry, rfl⟩
    · exact .inl rfl
    · exact .inr ⟨entry, hentry, rfl⟩
  · rintro (rfl | ⟨entry, hentry, rfl⟩)
    · exact ⟨(x, document), .inl rfl, rfl⟩
    · exact ⟨entry, .inr hentry, rfl⟩

end Description

/-! ## What is needed -/

/-- References lead from the root document to the name. -/
inductive Needed (reader : Reader) (w : Workspace) (root : Description) : String → Prop where
  | direct {name : String} : RefersTo root.document name → Needed reader w root name
  | through {name other : String} {document : Json} : Needed reader w root name →
      reader.externalOf w root.source name = .ok document → RefersTo document other → Needed reader w root other

/-- The names cover the references of the root document, and of all documents that they stand for. -/
structure Covers (reader : Reader) (w : Workspace) (root : Description) (names : Set String) : Prop where
  direct : ∀ {name}, RefersTo root.document name → name ∈ names
  through : ∀ {name other document}, name ∈ names → reader.externalOf w root.source name = .ok document →
    RefersTo document other → other ∈ names

variable {reader : Reader} {w : Workspace} {root d : Description} {pending : List String} {name : String}
  {document : Json}

theorem Needed.mem {names : Set String} (h : Needed reader w root name) (hcovers : Covers reader w root names) : name ∈ names := by
  induction h with
  | direct hname => exact hcovers.direct hname
  | through _ hdocument hother ih => exact hcovers.through ih hdocument hother

theorem isLeast_needed (reader : Reader) (w : Workspace) (root : Description) :
    IsLeast {names | Covers reader w root names} {name | Needed reader w root name} :=
  ⟨⟨.direct, .through⟩, fun _ hcovers _ hname => Needed.mem hname hcovers⟩

/-- The names that references in a text name, however it is read. -/
def namesIn (reader : Reader) (text : String) : List String :=
  ((reader.yaml? text).map referredDocuments).getD [] ++ ((reader.json? text).map referredDocuments).getD []

/-- All names that references name, in the root document and in the files of the workspace. -/
def mentioned (reader : Reader) (w : Workspace) (root : Description) : Finset String :=
  (referredDocuments root.document ++ w.files.flatMap fun f => namesIn reader f.2).toFinset

theorem Needed.mem_mentioned (h : Needed reader w root name) : name ∈ mentioned reader w root := by
  rw [mentioned, List.mem_toFinset, List.mem_append]
  cases h with
  | direct hname => exact .inl (mem_referredDocuments_iff.2 hname)
  | through _ hdocument hother =>
    obtain ⟨f, hf, hparse⟩ := Reader.file_of_externalOf hdocument
    refine .inr (List.mem_flatMap.2 ⟨f, hf, List.mem_append.2 ?_⟩)
    rcases hparse with hparse | hparse
    · exact .inl (by simpa [hparse] using mem_referredDocuments_iff.2 hother)
    · exact .inr (by simpa [hparse] using mem_referredDocuments_iff.2 hother)

/-! ## The invariant of loading -/

/-- Where loading is: what is loaded or pending is needed, and what loaded documents refer to is loaded or pending. -/
structure Frontier (reader : Reader) (w : Workspace) (root : Description) (pending : List String) (d : Description) :
    Prop where
  same : d = { root with external := d.external }
  ascending : Description.Ascending d.external
  loaded : ∀ entry ∈ d.external, Needed reader w root entry.1 ∧ reader.externalOf w root.source entry.1 = .ok entry.2
  needed : ∀ name ∈ pending, Needed reader w root name
  direct : ∀ {name}, RefersTo root.document name → name ∈ pending ∨ name ∈ d.names
  through : ∀ entry ∈ d.external, ∀ {name}, RefersTo entry.2 name → name ∈ pending ∨ name ∈ d.names

theorem Frontier.source (h : Frontier reader w root pending d) : d.source = root.source := by rw [h.same]

theorem frontier_start (reader : Reader) (w : Workspace) (h : root.external = []) :
    Frontier reader w root (Reader.addNames (referredDocuments root.document) []) root where
  same := rfl
  ascending := by
    rw [h]
    exact .nil
  loaded := by
    rw [h]
    exact List.forall_mem_nil _
  needed name hname := by
    refine .direct (mem_referredDocuments_iff.1 ?_)
    simpa [Reader.mem_addNames] using hname
  direct hname := .inl (Reader.mem_addNames.2 (.inl (mem_referredDocuments_iff.2 hname)))
  through := by
    rw [h]
    exact List.forall_mem_nil _

/-- A name whose document is there already needs nothing else. -/
theorem Frontier.skip (h : Frontier reader w root (name :: pending) d) (hname : name ∈ d.names) :
    Frontier reader w root pending d := by
  have hdrop {x : String} (hx : x ∈ name :: pending ∨ x ∈ d.names) : x ∈ pending ∨ x ∈ d.names := by
    rcases hx with hx | hx
    · rcases List.mem_cons.1 hx with rfl | hx
      · exact .inr hname
      · exact .inl hx
    · exact .inr hx
  exact ⟨h.same, h.ascending, h.loaded, fun x hx => h.needed x (List.mem_cons_of_mem _ hx),
    fun hx => hdrop (h.direct hx), fun entry hentry _ hx => hdrop (h.through entry hentry hx)⟩

/-- A document is loaded, and the names that stand in it are pending. -/
theorem Frontier.load (h : Frontier reader w root (name :: pending) d) (hname : name ∉ d.names)
    (hdocument : reader.externalOf w root.source name = .ok document) :
    Frontier reader w root (Reader.addNames (referredDocuments document) pending) (d.withExternal name document) := by
  have hneeded := h.needed name List.mem_cons_self
  have hentry {entry : String × Json} :
      entry ∈ (d.withExternal name document).external ↔ entry = (name, document) ∨ entry ∈ d.external :=
    Description.mem_insertSorted hname
  have hmove {x : String} (hx : x ∈ name :: pending ∨ x ∈ d.names) :
      x ∈ Reader.addNames (referredDocuments document) pending ∨ x ∈ (d.withExternal name document).names := by
    rw [Reader.mem_addNames, Description.mem_names_withExternal hname]
    rcases hx with hx | hx
    · rcases List.mem_cons.1 hx with rfl | hx
      · exact .inr (.inl rfl)
      · exact .inl (.inr hx)
    · exact .inr (.inr hx)
  refine ⟨?_, h.ascending.insertSorted hname, fun entry he => ?_, fun x hx => ?_, fun hx => hmove (h.direct hx),
    fun entry he x hx => ?_⟩
  · have hsame := h.same
    cases d
    cases hsame
    rfl
  · rcases hentry.1 he with rfl | he
    · exact ⟨hneeded, hdocument⟩
    · exact h.loaded entry he
  · rcases Reader.mem_addNames.1 hx with hx | hx
    · exact .through hneeded hdocument (mem_referredDocuments_iff.1 hx)
    · exact h.needed x (List.mem_cons_of_mem _ hx)
  · rcases hentry.1 he with rfl | he
    · exact .inl (Reader.mem_addNames.2 (.inl (mem_referredDocuments_iff.2 hx)))
    · exact hmove (h.through entry he hx)

/-- Once nothing is pending, exactly what is needed is loaded. -/
theorem Frontier.isLeast (h : Frontier reader w root [] d) :
    IsLeast {names | Covers reader w root names} {name | name ∈ d.names} := by
  refine ⟨⟨fun hname => (h.direct hname).resolve_left List.not_mem_nil, fun hname hdocument hother => ?_⟩,
    fun names hcovers name hname => ?_⟩
  · obtain ⟨entry, hentry, rfl⟩ := List.mem_map.1 hname
    cases hdocument.symm.trans (h.loaded entry hentry).2
    exact (h.through entry hentry hother).resolve_left List.not_mem_nil
  · obtain ⟨entry, hentry, rfl⟩ := List.mem_map.1 hname
    exact (h.loaded entry hentry).1.mem hcovers

/-! ## Steps -/

/-- The names that stand in the document of a name. -/
def namesBehind (reader : Reader) (w : Workspace) (source name : String) : List String :=
  ((reader.externalOf w source name).toOption.map referredDocuments).getD []

/-- An upper bound for the steps to come: the pending names, and those in documents that are not loaded. -/
def remaining (reader : Reader) (w : Workspace) (root : Description) (pending : List String) (d : Description) : Nat :=
  pending.length + ∑ name ∈ mentioned reader w root \ d.names.toFinset, (namesBehind reader w root.source name).length

theorem remaining_skip : remaining reader w root (name :: pending) d = remaining reader w root pending d + 1 := by
  rw [remaining, remaining, List.length_cons, Nat.add_right_comm]

theorem remaining_load (hmentioned : name ∈ mentioned reader w root) (hname : name ∉ d.names)
    (hdocument : reader.externalOf w root.source name = .ok document) :
    remaining reader w root (Reader.addNames (referredDocuments document) pending) (d.withExternal name document) + 1 ≤
      remaining reader w root (name :: pending) d := by
  have hbehind : namesBehind reader w root.source name = referredDocuments document := by
    rw [namesBehind, hdocument]
    rfl
  have hnames : (d.withExternal name document).names.toFinset = insert name d.names.toFinset := by
    ext x
    rw [List.mem_toFinset, Description.mem_names_withExternal hname, Finset.mem_insert, List.mem_toFinset]
  have hmem : name ∈ mentioned reader w root \ d.names.toFinset :=
    Finset.mem_sdiff.2 ⟨hmentioned, fun h => hname (List.mem_toFinset.1 h)⟩
  have hsum := Finset.add_sum_erase _ (fun x => (namesBehind reader w root.source x).length) hmem
  have hlength := Reader.length_addNames_le (referredDocuments document) pending
  rw [remaining, remaining, hnames, Finset.sdiff_insert, List.length_cons]
  rw [hbehind] at hsum
  omega

/-- A round for a name whose document is there: nothing is read. -/
theorem ends_loadNext_known (base : String) (h : name ∈ d.names) :
    w.Ends (reader.loadNext base (name :: pending, d)) (.inl (pending, d), w) := by
  obtain ⟨entry, hentry, rfl⟩ := List.mem_map.1 h
  have hany : d.external.any (·.1 == entry.1) = true := List.any_eq_true.2 ⟨entry, hentry, beq_self_eq_true _⟩
  refine ⟨0, ?_⟩
  rw [Reader.loadNext, if_pos hany]
  rfl

/-- A round for a name whose document is not there: the document is read. -/
theorem ends_loadNext_new (reader : Reader) (w : Workspace) (pending : List String) (h : name ∉ d.names) :
    w.Ends (reader.loadNext (Description.directoryOf d.source) (name :: pending, d))
      (match reader.externalOf w d.source name with
      | .error e => .inr (.error e)
      | .ok document =>
        .inl (Reader.addNames (referredDocuments document) pending, d.withExternal name document), w) := by
  have hany : ¬d.external.any (·.1 == name) = true := fun hany => by
    obtain ⟨entry, hentry, hname⟩ := List.any_eq_true.1 hany
    exact h (List.mem_map.2 ⟨entry, hentry, eq_of_beq hname⟩)
  rw [Reader.loadNext, if_neg hany]
  refine (Workspace.ends_textOf _).bind ?_
  unfold Reader.externalOf
  dsimp only
  cases w.read (Files.Path.join (Description.directoryOf d.source) name) with
  | error e => exact ⟨0, rfl⟩
  | ok text =>
    dsimp only
    cases reader.document (Files.Path.join (Description.directoryOf d.source) name) text with
    | error e => exact ⟨0, rfl⟩
    | ok document => exact ⟨0, rfl⟩

/-- How loading ends: with everything that is needed, or with the failure of something needed. -/
def Outcome (reader : Reader) (w : Workspace) (root : Description) : Except LoadError Description → Prop
  | .ok d => Frontier reader w root [] d
  | .error e => ∃ name, Needed reader w root name ∧ reader.externalOf w root.source name = .error e

/-- The loop of loading ends. The induction is on a bound for the rounds to come. -/
theorem loop_ends : ∀ (n : Nat) {pending : List String} {d : Description}, Frontier reader w root pending d →
    remaining reader w root pending d ≤ n → ∃ result, Outcome reader w root result ∧
      w.Ends (Task.repeated (reader.loadNext (Description.directoryOf root.source)) (pending, d)) (result, w)
  | n, [], d, h, _ => ⟨.ok d, h, .last ⟨0, rfl⟩⟩
  | 0, name :: pending, d, _, hn => by
    rw [remaining_skip] at hn
    omega
  | n + 1, name :: pending, d, h, hn => by
    by_cases hname : name ∈ d.names
    · rw [remaining_skip] at hn
      obtain ⟨result, hresult, hrest⟩ := loop_ends n (h.skip hname) (Nat.le_of_succ_le_succ hn)
      exact ⟨result, hresult, .again (ends_loadNext_known _ hname) hrest⟩
    · have hneeded := h.needed name List.mem_cons_self
      have hround := ends_loadNext_new reader w pending hname
      rw [h.source] at hround
      cases hdocument : reader.externalOf w root.source name with
      | error e =>
        rw [hdocument] at hround
        exact ⟨.error e, ⟨name, hneeded, hdocument⟩, .last hround⟩
      | ok document =>
        rw [hdocument] at hround
        have hless := (remaining_load hneeded.mem_mentioned hname hdocument).trans hn
        obtain ⟨result, hresult, hrest⟩ := loop_ends n (h.load hname hdocument) (Nat.le_of_succ_le_succ hless)
        exact ⟨result, hresult, .again hround hrest⟩

/-- Without a root nothing is loaded. -/
theorem load_fails {path : String} {e : LoadError} (h : reader.rootOf w path = .error e) :
    w.Ends (reader.load path) (.error e, w) := by
  unfold Reader.rootOf at h
  refine (Workspace.ends_textOf path).bind ?_
  cases htext : w.read path with
  | error cause =>
    rw [htext] at h
    cases h
    exact ⟨0, rfl⟩
  | ok text =>
    rw [htext] at h
    dsimp only at h ⊢
    rw [h]
    exact ⟨0, rfl⟩

/-- **Loading ends.** -/
theorem load_ends {path : String} (h : reader.rootOf w path = .ok root) :
    ∃ result, Outcome reader w root result ∧ w.Ends (reader.load path) (result, w) := by
  obtain ⟨rfl, hexternal, -⟩ := Reader.rootOf_eq_ok h
  obtain ⟨result, hresult, hloop⟩ := loop_ends _ (frontier_start reader w hexternal) (Nat.le_refl _)
  refine ⟨result, hresult, (Workspace.ends_textOf root.source).bind ?_⟩
  unfold Reader.rootOf at h
  cases htext : w.read root.source with
  | error cause =>
    rw [htext] at h
    cases h
  | ok text =>
    rw [htext] at h
    dsimp only at h ⊢
    rw [h]
    exact hloop

theorem exists_ends_load (reader : Reader) (w : Workspace) (path : String) : ∃ r, w.Ends (reader.load path) r := by
  cases hroot : reader.rootOf w path with
  | error e => exact ⟨_, load_fails hroot⟩
  | ok root =>
    obtain ⟨result, -, hends⟩ := load_ends hroot
    exact ⟨_, hends⟩

end ApiForge
