import ApiForge.Files.Workspace
import Mathlib.Tactic.SplitIfs

/-!
# What requests leave in a workspace

* `run_bind`: a task runs step by step.
* `write_read`: a text that has been written is read back, and `write_keeps` and `makeDirectory_keeps` say that a
  request leaves what is read at other locations. Directories are never removed, so a path keeps its location
  (`Grows.locate`).
-/

namespace ApiForge.Workspace

variable {w w' : Workspace} {l m : Trail} {path other text text' : String}

/-- One task runs after another. -/
@[simp] theorem run_bind {α β : Type} (t : Task α) (f : α → Task β) :
    ∀ w : Workspace, w.run (t >>= f) = (w.run t).2.run (f (w.run t).1) := by
  change ∀ w : Workspace, w.run (t.andThen f) = _
  induction t with
  | done a => exact fun _ => rfl
  | probe p k ih | read p k ih | format p k ih | cancelled k ih => exact fun w => ih _ f w
  | makeDirectory p k ih | write p t k ih => exact fun w => ih _ f _
  | loop round start k _ ih => exact fun w => ih _ f _
  | print t k ih | warn t k ih => exact fun w => ih f _

/-! ## Directories -/

/-- The second workspace has every directory of the first, and the same working directory. -/
structure Grows (w w' : Workspace) : Prop where
  current : w'.current = w.current
  directories : ∀ l, w.isDirectory l = true → w'.isDirectory l = true

theorem Grows.refl (w : Workspace) : Grows w w := ⟨rfl, fun _ h => h⟩

theorem Grows.trans {w₁ w₂ w₃ : Workspace} (h : Grows w₁ w₂) (h' : Grows w₂ w₃) : Grows w₁ w₃ :=
  ⟨h'.current.trans h.current, fun l hl => h'.directories l (h.directories l hl)⟩

theorem Grows.start (h : Grows w w') (path : String) : w'.start path = w.start path := by
  rw [Workspace.start, Workspace.start, h.current]

theorem enter_eq_ok_iff : w.enter l = .ok () ↔ w.isDirectory l = true := by
  unfold enter
  split
  · rename_i h
    simp [h]
  · rename_i h
    split <;> simp [h]

theorem Grows.enter (h : Grows w w') (hl : w.enter l = .ok ()) : w'.enter l = .ok () :=
  enter_eq_ok_iff.2 (h.directories l (enter_eq_ok_iff.1 hl))

/-- A step down is possible where it was. -/
theorem Grows.follow (h : Grows w w') : ∀ {parts : List String} {l m : Trail}, w.follow l parts = .ok m →
    w'.follow l parts = .ok m
  | [], _, _, hm => hm
  | part :: rest, l, m, hm => by
    cases hl : w.enter l with
    | error e => simp [Workspace.follow, hl] at hm
    | ok u =>
      simp only [Workspace.follow, hl] at hm
      simp only [Workspace.follow, h.enter hl]
      split_ifs at hm ⊢ with hdot hup
      · exact h.follow hm
      · exact h.follow hm
      · exact h.follow hm

/-- A path keeps its location. -/
theorem Grows.locate (h : Grows w w') (hl : w.locate path = .ok l) : w'.locate path = .ok l := by
  unfold Workspace.locate at hl ⊢
  split
  · rename_i hpath
    rw [if_pos hpath] at hl
    cases hl
  · rename_i hpath
    rw [if_neg hpath] at hl
    rw [h.start]
    exact h.follow hl

theorem addDirectory_file? (w : Workspace) (l m : Trail) : (w.addDirectory l).file? m = w.file? m := by
  unfold addDirectory
  split <;> rfl

theorem addDirectory_current (w : Workspace) (l : Trail) : (w.addDirectory l).current = w.current := by
  unfold addDirectory
  split <;> rfl

theorem isDirectory_addDirectory : (w.addDirectory l).isDirectory m = true ↔ w.isDirectory m = true ∨ m = l := by
  unfold addDirectory
  split
  · rename_i h
    exact ⟨Or.inl, fun hm => hm.elim id fun hm => hm ▸ h⟩
  · simp only [isDirectory, Bool.or_eq_true, List.contains_eq_mem, List.mem_append, List.mem_singleton,
      decide_eq_true_eq, or_assoc]

/-! ## Files -/

@[simp] theorem isDirectory_put (w : Workspace) (l m : Trail) (text : String) :
    (w.put l text).isDirectory m = w.isDirectory m := by
  unfold put
  split <;> rfl

/-- The file at a location once the text at another is replaced. -/
theorem find?_replace (l m : Trail) (text : String) : ∀ files : List (Trail × String),
    ((files.map fun f => if f.1 == l then (l, text) else f).find? (·.1 == m)).map (·.2) =
      if m = l then (files.find? (·.1 == l)).map fun _ => text else (files.find? (·.1 == m)).map (·.2)
  | [] => by simp
  | (k, t) :: files => by
    have ih := find?_replace l m text files
    rw [List.map_cons]
    by_cases hk : k = l
    · subst hk
      by_cases hm : m = k
      · simp [hm]
      · rw [if_pos (beq_self_eq_true k), List.find?_cons_of_neg (by simpa using Ne.symm hm), ih, if_neg hm, if_neg hm,
          List.find?_cons_of_neg (by simpa using Ne.symm hm)]
    · rw [if_neg (by simpa using hk)]
      by_cases hm : k = m
      · subst hm
        simp [hk]
      · rw [List.find?_cons_of_neg (by simpa using hm), ih, List.find?_cons_of_neg (by simpa using hk),
          List.find?_cons_of_neg (by simpa using hm)]

/-- A text that is put at a location is there, and the other files are as before. -/
theorem file?_put (w : Workspace) (l m : Trail) (text : String) :
    (w.put l text).file? m = if m = l then some text else w.file? m := by
  unfold put
  split
  · rename_i h
    unfold file? at h ⊢
    rw [find?_replace]
    obtain ⟨f, hf⟩ := Option.isSome_iff_exists.1 (Option.isSome_map.symm.trans h)
    rw [hf, Option.map_some]
  · rename_i h
    unfold file? at h ⊢
    simp only [Option.isSome_map, Bool.not_eq_true, Option.isSome_eq_false_iff, Option.isNone_iff_eq_none] at h
    simp only [List.find?_append]
    split
    · rename_i hm
      rw [hm, h]
      simp
    · rename_i hm
      simp [Ne.symm hm]

/-! ## Requests -/

/-- What is read at a path: the text at its location, which is no directory. -/
theorem read_eq_ok_iff : w.read path = .ok text ↔
    ∃ l, w.locate path = .ok l ∧ w.isDirectory l = false ∧ w.file? l = some text := by
  unfold read
  cases hl : w.locate path with
  | error e => simp
  | ok l =>
    cases hd : w.isDirectory l with
    | true => simp [hd]
    | false => cases hf : w.file? l <;> simp [hd, hf]

/-- What a request that writes does. -/
theorem write_eq_ok_iff : w.write path text = .ok w' ↔
    ∃ l, w.locate path = .ok l ∧ w.isDirectory l = false ∧ w.isDirectory l.dropLast = true ∧ w' = w.put l text := by
  unfold write
  cases hl : w.locate path with
  | error e => simp
  | ok l =>
    cases hd : w.isDirectory l with
    | true => simp [hd]
    | false =>
      cases he : w.enter l.dropLast with
      | error e =>
        have : ¬w.isDirectory l.dropLast = true := fun h => by simp [enter_eq_ok_iff.2 h] at he
        simp [hd, he, this]
      | ok u => simpa [hd, he, enter_eq_ok_iff.1 he] using eq_comm

theorem grows_put (w : Workspace) (l : Trail) (text : String) : Grows w (w.put l text) where
  current := by
    unfold put
    split <;> rfl
  directories m hm := (isDirectory_put w l m text).trans hm

theorem grows_addDirectory (w : Workspace) (l : Trail) : Grows w (w.addDirectory l) :=
  ⟨addDirectory_current w l, fun _ hm => isDirectory_addDirectory.2 (.inl hm)⟩

/-- **A text that has been written is read back.** -/
theorem write_read (h : w.write path text = .ok w') : w'.read path = .ok text := by
  obtain ⟨l, hl, hd, -, rfl⟩ := write_eq_ok_iff.1 h
  refine read_eq_ok_iff.2 ⟨l, (grows_put w l text).locate hl, ?_, ?_⟩
  · rw [isDirectory_put, hd]
  · rw [file?_put, if_pos rfl]

/-- Writing leaves the text at every other location. -/
theorem write_keeps (h : w.write path text = .ok w') (hother : w.read other = .ok text')
    (hne : w.locate path ≠ w.locate other) : w'.read other = .ok text' := by
  obtain ⟨l, hl, -, -, rfl⟩ := write_eq_ok_iff.1 h
  obtain ⟨m, hm, hd, hf⟩ := read_eq_ok_iff.1 hother
  have hlm : m ≠ l := fun e => hne (by rw [hl, hm, e])
  refine read_eq_ok_iff.2 ⟨m, (grows_put w l text).locate hm, ?_, ?_⟩
  · rw [isDirectory_put, hd]
  · rw [file?_put, if_neg hlm, hf]

/-- A location that holds a file does not become a directory. -/
theorem makeFrom_keeps : ∀ {parts : List String} {w : Workspace} {l : Trail}, w.makeFrom l parts = .ok w' →
    Grows w w' ∧ ∀ m, w'.file? m = w.file? m ∧
      ((w.file? m).isSome → w.isDirectory m = false → w'.isDirectory m = false)
  | [], w, l, h => by
    cases h
    exact ⟨Grows.refl _, fun m => ⟨rfl, fun _ hd => hd⟩⟩
  | part :: rest, w, l, h => by
    simp only [makeFrom] at h
    split_ifs at h with hdot hup hfile
    · exact makeFrom_keeps h
    · exact makeFrom_keeps h
    · obtain ⟨hgrows, hfiles⟩ := makeFrom_keeps h
      refine ⟨(grows_addDirectory w (l ++ [part])).trans hgrows, fun m => ?_⟩
      obtain ⟨hsame, hdir⟩ := hfiles m
      rw [addDirectory_file?] at hsame hdir
      refine ⟨hsame, fun hm hd => hdir hm (Bool.eq_false_iff.2 fun hadd => ?_)⟩
      rcases isDirectory_addDirectory.1 hadd with hadd | rfl
      · rw [hd] at hadd
        cases hadd
      · exact hfile hm

/-- **Making directories leaves every text.** -/
theorem makeDirectory_keeps (h : w.makeDirectory path = .ok w') (hother : w.read other = .ok text') :
    w'.read other = .ok text' := by
  obtain ⟨hgrows, hfiles⟩ := makeFrom_keeps h
  obtain ⟨m, hm, hd, hf⟩ := read_eq_ok_iff.1 hother
  obtain ⟨hsame, hdir⟩ := hfiles m
  exact read_eq_ok_iff.2 ⟨m, hgrows.locate hm, hdir (hf ▸ rfl) hd, hsame.trans hf⟩

end ApiForge.Workspace
