import ApiForge.Proofs.Files.Workspace

/-!
# Tasks that end

A loop may go round for ever, and then `Workspace.run` gives any result at all. A task ends if a bound on the rounds
of its loops is not reached.

* `runWithin`: runs a task, but gives up where a loop goes round too often. It computes, so what a closed task comes to
  can be evaluated. A greater bound changes no result (`runWithin_mono`).
* `Ends w t r`: the task ends with this result, and this is what `run` gives (`Ends.run_eq`). The rules `Ends.bind`,
  `Ends.again` and `Ends.last` follow the task; of two tasks that end, both do within the greater bound (`Ends.both`).
-/

namespace ApiForge.Workspace

section Loops

variable {σ γ : Type} {next : σ → Option (σ ⊕ γ)} {c : γ}

/-- Goes from state to state until there is a result, in at most so many rounds. -/
def iterateWithin (next : σ → Option (σ ⊕ γ)) : (rounds : Nat) → σ → Option γ
  | 0, _ => none
  | rounds + 1, s =>
    match next s with
    | some (.inl s) => iterateWithin next rounds s
    | some (.inr c) => some c
    | none => none

theorem iterate_eq_of_iterateWithin [Nonempty γ] {total : σ → σ ⊕ γ}
    (htotal : ∀ s r, next s = some r → total s = r) : ∀ {n : Nat} {s : σ}, iterateWithin next n s = some c →
    iterate total s = c
  | 0, s, h => by cases h
  | n + 1, s, h => by
    rw [iterateWithin] at h
    rw [iterate_eq]
    cases hnext : next s with
    | none =>
      rw [hnext] at h
      cases h
    | some r =>
      rw [hnext] at h
      rw [htotal s r hnext]
      cases r with
      | inl s' => exact iterate_eq_of_iterateWithin htotal h
      | inr c' => exact Option.some.inj h

theorem iterateWithin_mono {next' : σ → Option (σ ⊕ γ)} (hnext : ∀ s r, next s = some r → next' s = some r) :
    ∀ {m n : Nat} {s : σ}, m ≤ n → iterateWithin next m s = some c → iterateWithin next' n s = some c
  | 0, _, _, _, h => by cases h
  | m + 1, 0, _, hmn, _ => absurd hmn (Nat.not_succ_le_zero m)
  | m + 1, n + 1, s, hmn, h => by
    rw [iterateWithin] at h ⊢
    cases hround : next s with
    | none =>
      rw [hround] at h
      cases h
    | some r =>
      rw [hround] at h
      rw [hnext s r hround]
      cases r with
      | inl s' => exact iterateWithin_mono hnext (Nat.le_of_succ_le_succ hmn) h
      | inr c' => exact h

end Loops

/-- Runs a task, with at most so many rounds in each loop. -/
def runWithin (rounds : Nat) : {α : Type} → Workspace → Task α → Option (α × Workspace)
  | _, w, .done a => some (a, w)
  | _, w, .probe p k => runWithin rounds w (k (w.existsAt p))
  | _, w, .read p k => runWithin rounds w (k (w.read p))
  | _, w, .makeDirectory p k => let (r, w) := w.answer (w.makeDirectory p); runWithin rounds w (k r)
  | _, w, .write p t k => let (r, w) := w.answer (w.write p t); runWithin rounds w (k r)
  | _, w, .format _ k => runWithin rounds w (k w.format)
  | _, w, .print t k => runWithin rounds { w with output := w.output ++ t } k
  | _, w, .warn t k => runWithin rounds { w with warnings := w.warnings ++ t } k
  | _, w, .cancelled k => runWithin rounds w (k w.cancelled)
  | _, w, @Task.loop _ _ _ _ round s k =>
    match iterateWithin (fun (s, w) => (runWithin rounds w (round s)).map endOfRound) rounds (s, w) with
    | some (c, w) => runWithin rounds w (k c)
    | none => none

variable {α β : Type} {m n : Nat} {w w' : Workspace}

/-- **What a task comes to within a bound is what it comes to.** -/
theorem run_eq_of_runWithin {t : Task α} : ∀ {w : Workspace} {r : α × Workspace}, runWithin n w t = some r →
    w.run t = r := by
  induction t with
  | done a => exact fun h => Option.some.inj h
  | probe p k ih | read p k ih | format p k ih | cancelled k ih => exact fun h => ih _ h
  | makeDirectory p k ih | write p t k ih => exact fun h => ih _ h
  | print t k ih | warn t k ih => exact fun h => ih h
  | @loop σ γ α _ round s k ihround ih =>
    intro w r h
    rw [runWithin] at h
    rw [run]
    -- a round is a task of its own, for which `ihround` says the same
    split at h
    · rename_i c w' hloop
      have hround (p : σ × Workspace) (r : (σ × Workspace) ⊕ (γ × Workspace))
          (hp : (runWithin n p.2 (round p.1)).map endOfRound = some r) : endOfRound (run p.2 (round p.1)) = r := by
        obtain ⟨result, hresult, rfl⟩ := Option.map_eq_some_iff.1 hp
        rw [ihround p.1 hresult]
      rw [iterate_eq_of_iterateWithin hround hloop]
      exact ih c h
    · cases h

/-- If a round comes to what another does, it gives the same state or result. -/
theorem map_endOfRound {σ γ : Type} {o o' : Option ((σ ⊕ γ) × Workspace)} (h : ∀ r, o = some r → o' = some r)
    (r : (σ × Workspace) ⊕ (γ × Workspace)) (hr : o.map endOfRound = some r) : o'.map endOfRound = some r := by
  obtain ⟨result, hresult, rfl⟩ := Option.map_eq_some_iff.1 hr
  rw [h result hresult, Option.map_some]

/-- A greater bound changes no result. -/
theorem runWithin_mono {t : Task α} (hmn : m ≤ n) : ∀ {w : Workspace} {r : α × Workspace}, runWithin m w t = some r →
    runWithin n w t = some r := by
  induction t with
  | done a => exact fun h => h
  | probe p k ih | read p k ih | format p k ih | cancelled k ih => exact fun h => ih _ h
  | makeDirectory p k ih | write p t k ih => exact fun h => ih _ h
  | print t k ih | warn t k ih => exact fun h => ih h
  | @loop σ γ α _ round s k ihround ih =>
    intro w r h
    rw [runWithin] at h ⊢
    split at h
    · rename_i c w' hloop
      rw [iterateWithin_mono (fun p => map_endOfRound fun _ => ihround p.1) hmn hloop]
      exact ih c h
    · cases h

/-- One task runs after another, within the same bound. -/
theorem runWithin_bind (t : Task α) (f : α → Task β) : ∀ w : Workspace,
    runWithin n w (t >>= f) = (runWithin n w t).bind fun r => runWithin n r.2 (f r.1) := by
  change ∀ w : Workspace, runWithin n w (t.andThen f) = _
  induction t with
  | done a => exact fun _ => rfl
  | probe p k ih | read p k ih | format p k ih | cancelled k ih => exact fun w => ih _ f w
  | makeDirectory p k ih | write p t k ih => exact fun w => ih _ f _
  | print t k ih | warn t k ih => exact fun w => ih f _
  | loop round s k _ ih =>
    intro w
    rw [Task.andThen, runWithin, runWithin]
    split
    · exact ih _ f _
    · rfl

/-! ## Ends -/

/-- The task ends with this result, and leaves this workspace. -/
def Ends (w : Workspace) (t : Task α) (r : α × Workspace) : Prop := ∃ rounds, runWithin rounds w t = some r

theorem ends_textOf (path : String) : Ends w (Task.textOf path) (w.read path, w) := ⟨0, rfl⟩

namespace Ends

variable {t : Task α} {f : α → Task β} {a : α} {r : α × Workspace}

theorem run_eq (h : Ends w t r) : w.run t = r := by
  obtain ⟨rounds, hrun⟩ := h
  exact run_eq_of_runWithin hrun

/-- What a task comes to is settled by some number of rounds, whatever the bound is from there on. -/
theorem settled (h : Ends w t r) : ∃ enough, ∀ rounds ≥ enough, runWithin rounds w t = some r := by
  obtain ⟨enough, hrun⟩ := h
  exact ⟨enough, fun rounds hrounds => runWithin_mono hrounds hrun⟩

/-- Two tasks that end, with the greater bound. -/
theorem both {t' : Task β} {r' : β × Workspace} (h : Ends w t r) (h' : Ends w' t' r') :
    ∃ rounds, runWithin rounds w t = some r ∧ runWithin rounds w' t' = some r' := by
  obtain ⟨m, hm⟩ := h
  obtain ⟨n, hn⟩ := h'
  exact ⟨max m n, runWithin_mono (Nat.le_max_left m n) hm, runWithin_mono (Nat.le_max_right m n) hn⟩

protected theorem bind {r : β × Workspace} (h : Ends w t (a, w')) (hf : Ends w' (f a) r) : Ends w (t >>= f) r := by
  obtain ⟨rounds, ht, hrest⟩ := h.both hf
  refine ⟨rounds, ?_⟩
  rw [runWithin_bind, ht]
  exact hrest

/-- A task ends if its first part does, and whatever this comes to, the other part. -/
theorem exists_bind (h : ∃ r, Ends w t r) (hf : ∀ (a : α) (w' : Workspace), ∃ r, Ends w' (f a) r) :
    ∃ r, Ends w (t >>= f) r := by
  obtain ⟨⟨a, w'⟩, hends⟩ := h
  obtain ⟨r, hrest⟩ := hf a w'
  exact ⟨r, hends.bind hrest⟩

section Loop

variable {σ γ : Type} [Nonempty γ] {round : σ → Task (σ ⊕ γ)} {s s' : σ} {c : γ}

theorem runWithin_repeated : runWithin n w (Task.repeated round s) =
    iterateWithin (fun p => (runWithin n p.2 (round p.1)).map endOfRound) n (s, w) := by
  rw [Task.repeated, runWithin]
  split
  · rename_i hloop
    exact hloop.symm
  · rename_i hloop
    exact hloop.symm

/-- A loop goes round once more. -/
theorem again {r : γ × Workspace} (h : Ends w (round s) (.inl s', w')) (hrest : Ends w' (Task.repeated round s') r) :
    Ends w (Task.repeated round s) r := by
  obtain ⟨rounds, hround, hloop⟩ := h.both hrest
  refine ⟨rounds + 1, ?_⟩
  rw [runWithin_repeated] at hloop
  rw [runWithin_repeated, iterateWithin, runWithin_mono (Nat.le_succ rounds) hround]
  exact iterateWithin_mono (fun _ => map_endOfRound fun _ => runWithin_mono (Nat.le_succ rounds)) (Nat.le_refl rounds)
    hloop

/-- The last round of a loop. -/
theorem last (h : Ends w (round s) (.inr c, w')) : Ends w (Task.repeated round s) (c, w') := by
  obtain ⟨m, hm⟩ := h
  refine ⟨m + 1, ?_⟩
  rw [runWithin_repeated, iterateWithin, runWithin_mono (Nat.le_succ m) hm]
  rfl

end Loop

end Ends

end ApiForge.Workspace
