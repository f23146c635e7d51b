import ApiForge.Files.Path
import ApiForge.Files.Workspace
import ApiForge.Proofs.Text.Cutting

/-!
# Where joined paths lead

The steps of a path are its parts between slashes. A path that is put behind a directory has the steps of the directory
and then its own (`steps_join`), so it leads to a location below that of the directory (`locate_join`).
-/

namespace ApiForge

open Text

namespace Files.Path

/-- A text that names a file or a directory. -/
structure IsName (name : String) : Prop where
  noSlash : '/' ∉ name.toList
  ne_empty : name ≠ ""
  ne_dot : name ≠ "."
  ne_dots : name ≠ ".."

/-- The parts of a path between slashes. -/
def steps (path : String) : List String := (split '/' path).filter (· != "")

/-- A slash cuts a path in two. -/
theorem split_slash (a b : String) : split '/' (a ++ "/" ++ b) = split '/' a ++ split '/' b := by
  simp only [split, ← List.map_append, ← pieces_append_cons]
  simp

theorem IsName.split {name : String} (h : IsName name) : split '/' name = [name] := by
  rw [Text.split, pieces_of_not_mem h.noSlash]
  simp

theorem IsName.not_absolute {name : String} (h : IsName name) : isAbsolute name = false := by
  refine Bool.eq_false_iff.2 fun habs => ?_
  obtain ⟨rest, rfl⟩ := startsWith_iff.1 habs
  exact h.noSlash (by simp)

/-- The parts of a name behind a directory: at the end the name, and before it those of the directory. -/
theorem split_join (directory : String) {name : String} (h : IsName name) :
    ∃ before, split '/' (join directory name) = before ++ [name] ∧ before.filter (· != "") = steps directory := by
  unfold join steps
  rw [h.not_absolute, Bool.false_or]
  split
  · rename_i hempty
    rw [String.isEmpty_iff.1 hempty]
    exact ⟨[], h.split, rfl⟩
  · split
    · rename_i htrail
      obtain ⟨rest, rfl⟩ := dropTrail?_isSome_iff.1 htrail
      refine ⟨Text.split '/' rest, by rw [split_slash, h.split], ?_⟩
      have : rest ++ "/" = rest ++ "/" ++ "" := by simp
      rw [this, split_slash, List.filter_append]
      simp [Text.split, pieces]
    · exact ⟨Text.split '/' directory, by rw [split_slash, h.split], rfl⟩

theorem steps_join (directory : String) {name : String} (h : IsName name) :
    steps (join directory name) = steps directory ++ [name] := by
  obtain ⟨before, hsplit, hbefore⟩ := split_join directory h
  rw [steps, hsplit, List.filter_append, hbefore]
  simp [h.ne_empty]

theorem isAbsolute_append {a : String} (h : a ≠ "") (b : String) : isAbsolute (a ++ b) = isAbsolute a := by
  have hchars : a.toList ≠ [] := fun hnil => h (String.toList_injective hnil)
  obtain ⟨c, cs, hcs⟩ := List.exists_cons_of_ne_nil hchars
  by_cases hc : '/' = c
  · subst hc
    simp [isAbsolute, startsWith, dropLead?, afterLead?, hcs]
  · simp [isAbsolute, startsWith, dropLead?, afterLead?, hcs, hc]

/-- A name behind a directory begins where the directory does. -/
theorem isAbsolute_join (directory : String) {name : String} (h : IsName name) :
    isAbsolute (join directory name) = isAbsolute directory := by
  unfold join
  rw [h.not_absolute, Bool.false_or]
  split
  · rename_i hempty
    rw [String.isEmpty_iff.1 hempty, h.not_absolute]
    rfl
  · rename_i hne
    have hdirectory : directory ≠ "" := fun heq => hne (String.isEmpty_iff.2 heq)
    split
    · exact isAbsolute_append hdirectory name
    · rw [String.append_assoc]
      exact isAbsolute_append hdirectory _

end Files.Path

namespace Workspace

open Files.Path

variable {w : Workspace} {k l m : Trail}

/-- The steps of a path are followed one part after the other. -/
theorem follow_append (w : Workspace) (rest : List String) : ∀ (parts : List String) (l : Trail),
    w.follow l (parts ++ rest) = (w.follow l parts).bind fun m => w.follow m rest
  | [], _ => rfl
  | part :: parts, l => by
    rw [List.cons_append, follow, follow]
    cases w.enter l with
    | error e => rfl
    | ok u =>
      dsimp only
      split
      · exact follow_append w rest parts l
      · split
        · exact follow_append w rest parts _
        · exact follow_append w rest parts _

theorem follow_name {name : String} (h : IsName name) (hl : w.follow m [name] = .ok l) : l = m ++ [name] := by
  unfold follow at hl
  cases he : w.enter m with
  | error e => rw [he] at hl; cases hl
  | ok u =>
    rw [he] at hl
    simp only [follow, beq_iff_eq, h.ne_dot, h.ne_dots, if_false] at hl
    exact (Except.ok.inj hl).symm

/-- Names lead down step by step. -/
theorem follow_names {names : List String} (h : ∀ name ∈ names, IsName name) (hl : w.follow m names = .ok l) :
    l = m ++ names := by
  induction names generalizing m with
  | nil =>
    rw [follow] at hl
    rw [List.append_nil, Except.ok.inj hl]
  | cons name names ih =>
    obtain ⟨hname, hnames⟩ := List.forall_mem_cons.1 h
    rw [← List.singleton_append, follow_append] at hl
    cases hnext : w.follow m [name] with
    | error e =>
      rw [hnext] at hl
      cases hl
    | ok m' =>
      rw [hnext] at hl
      rw [ih hnames hl, follow_name hname hnext, List.append_assoc, List.singleton_append]

/-- A name behind a directory leads one step down from where the steps of the directory lead. -/
theorem follow_steps_join {directory name : String} (h : IsName name)
    (hl : w.follow k (steps (join directory name)) = .ok l) :
    ∃ m, w.follow k (steps directory) = .ok m ∧ l = m ++ [name] := by
  rw [steps_join directory h, follow_append] at hl
  cases hm : w.follow k (steps directory) with
  | error e => rw [hm] at hl; cases hl
  | ok m =>
    rw [hm] at hl
    exact ⟨m, rfl, follow_name h hl⟩

/-- Where a path begins depends on its first character only. -/
theorem start_congr {path other : String} (h : isAbsolute path = isAbsolute other) (w : Workspace) :
    w.start path = w.start other := by
  rw [start, start, h]

theorem locate_join {directory name : String} (h : IsName name) (hl : w.locate (join directory name) = .ok l) :
    w.follow (w.start (join directory name)) (steps (join directory name)) = .ok l := by
  unfold locate at hl
  split at hl
  · cases hl
  · obtain ⟨before, hsplit, -⟩ := split_join directory h
    have hlast : (split '/' (join directory name)).getLast? ≠ some "" := by
      rw [hsplit, List.getLast?_append]
      simpa using h.ne_empty
    simpa [steps, hlast] using hl

end Workspace

end ApiForge
