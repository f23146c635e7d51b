/-!
# Runs that keep a state and may fail

Schemas are resolved and operations are collected by computations that carry a state and may fail; what a failed
computation has done to the state stays.

* `Ends m s ok fail`: the run of `m` from `s` gives a result and a state with `ok`, or an error and a state with `fail`.
* `Agree S R m n`: from states related by `S`, the runs of `m` and `n` both give results related by `R`, or both fail
  with one error, and the states are again related by `S`.

Both go through sequences step by step (`ends_bind`, `Agree.bind`).
-/

namespace ApiForge

variable {ε σ τ α β γ δ : Type}

/-! ## One run -/

/-- How the run of a computation from a state ends. -/
def Ends (m : EStateM ε σ α) (s : σ) (ok : α → σ → Prop) (fail : ε → σ → Prop) : Prop :=
  match m.run s with
  | .ok a t => ok a t
  | .error e t => fail e t

section Ends

variable {s : σ} {ok ok' : α → σ → Prop} {fail fail' : ε → σ → Prop}

instance {m : EStateM ε σ α} [∀ a t, Decidable (ok a t)] [∀ e t, Decidable (fail e t)] : Decidable (Ends m s ok fail) :=
  match h : m.run s with
  | .ok a t => decidable_of_iff (ok a t) (by rw [Ends, h])
  | .error e t => decidable_of_iff (fail e t) (by rw [Ends, h])

@[simp] theorem ends_pure {a : α} : Ends (pure a) s ok fail ↔ ok a s := Iff.rfl

@[simp] theorem ends_throw {e : ε} : Ends (throw e : EStateM ε σ α) s ok fail ↔ fail e s := Iff.rfl

@[simp] theorem ends_get {ok : σ → σ → Prop} : Ends (get : EStateM ε σ σ) s ok fail ↔ ok s s := Iff.rfl

@[simp] theorem ends_modify {f : σ → σ} {ok : PUnit → σ → Prop} :
    Ends (modify f : EStateM ε σ PUnit) s ok fail ↔ ok ⟨⟩ (f s) := Iff.rfl

@[simp] theorem ends_modifyGet {f : σ → α × σ} :
    Ends (modifyGet f : EStateM ε σ α) s ok fail ↔ ok (f s).1 (f s).2 := Iff.rfl

/-- A sequence ends as its second part does from where the first part gets to. -/
@[simp] theorem ends_bind {m : EStateM ε σ α} {f : α → EStateM ε σ β} {ok : β → σ → Prop} :
    Ends (m >>= f) s ok fail ↔ Ends m s (fun a t => Ends (f a) t ok fail) fail := by
  unfold Ends
  rw [EStateM.run_bind]
  cases m.run s <;> rfl

@[simp] theorem ends_map {m : EStateM ε σ α} {f : α → β} {ok : β → σ → Prop} :
    Ends (f <$> m) s ok fail ↔ Ends m s (fun a t => ok (f a) t) fail := by
  rw [← bind_pure_comp, ends_bind]
  rfl

theorem Ends.mono {m : EStateM ε σ α} (h : Ends m s ok fail) (hok : ∀ a t, ok a t → ok' a t)
    (hfail : ∀ e t, fail e t → fail' e t) : Ends m s ok' fail' := by
  unfold Ends at h ⊢
  cases hm : m.run s with
  | ok a t => rw [hm] at h; exact hok a t h
  | error e t => rw [hm] at h; exact hfail e t h

/-- Two things that are known of one run. -/
theorem Ends.and {m : EStateM ε σ α} (h : Ends m s ok fail) (h' : Ends m s ok' fail') :
    Ends m s (fun a t => ok a t ∧ ok' a t) fun e t => fail e t ∧ fail' e t := by
  unfold Ends at h h' ⊢
  cases hm : m.run s with
  | ok a t => rw [hm] at h h'; exact ⟨h, h'⟩
  | error e t => rw [hm] at h h'; exact ⟨h, h'⟩

theorem Ends.trivial (m : EStateM ε σ α) (s : σ) : Ends m s (fun _ _ => True) fun _ _ => True := by
  unfold Ends
  cases m.run s <;> exact True.intro

/-- A run ends as it does. -/
theorem Ends.self (m : EStateM ε σ α) (s : σ) :
    Ends m s (fun a t => m.run s = .ok a t) fun e t => m.run s = .error e t := by
  unfold Ends
  cases m.run s <;> rfl

/-- A sequence, given what its first part leads to. -/
theorem Ends.bind {m : EStateM ε σ α} {f : α → EStateM ε σ β} {Q : β → σ → Prop} (h : Ends m s ok fail)
    (hf : ∀ a t, ok a t → Ends (f a) t Q fail) : Ends (m >>= f) s Q fail :=
  ends_bind.2 (h.mono hf fun _ _ hfail => hfail)

/-- A sequence, given the run of its first part, where nothing is asked of a failure. -/
theorem Ends.bind_run {m : EStateM ε σ α} {f : α → EStateM ε σ β} {Q : β → σ → Prop}
    (hf : ∀ a t, m.run s = .ok a t → Ends (f a) t Q fun _ _ => True) : Ends (m >>= f) s Q fun _ _ => True :=
  ((Ends.self m s).mono (fun _ _ h => h) fun _ _ _ => True.intro).bind hf

/-- A run that cannot fail gives a result. -/
theorem Ends.exists_ok {m : EStateM ε σ α} (h : Ends m s ok fun _ _ => False) : ∃ a t, m.run s = .ok a t ∧ ok a t := by
  unfold Ends at h
  cases hm : m.run s with
  | ok a t => rw [hm] at h; exact ⟨a, t, rfl, h⟩
  | error e t => rw [hm] at h; exact h.elim

/-- A run that cannot give a result fails. -/
theorem Ends.exists_error {m : EStateM ε σ α} (h : Ends m s (fun _ _ => False) fail) :
    ∃ e t, m.run s = .error e t ∧ fail e t := by
  unfold Ends at h
  cases hm : m.run s with
  | ok a t => rw [hm] at h; exact h.elim
  | error e t => rw [hm] at h; exact ⟨e, t, rfl, h⟩

/-- What is known of a run that gave a result. -/
theorem Ends.of_ok {m : EStateM ε σ α} {a : α} {t : σ} (h : Ends m s ok fail) (hm : m.run s = .ok a t) : ok a t := by
  unfold Ends at h
  rwa [hm] at h

/-- What is known of a run that failed. -/
theorem Ends.of_error {m : EStateM ε σ α} {e : ε} {t : σ} (h : Ends m s ok fail) (hm : m.run s = .error e t) :
    fail e t := by
  unfold Ends at h
  rwa [hm] at h

end Ends

/-! ## Two runs -/

/-- Two computations that agree from related states. -/
def Agree (S : σ → τ → Prop) (R : α → β → Prop) (m : EStateM ε σ α) (n : EStateM ε τ β) : Prop :=
  ∀ s t, S s t → match m.run s, n.run t with
    | .ok a s', .ok b t' => R a b ∧ S s' t'
    | .error e s', .error e' t' => e = e' ∧ S s' t'
    | _, _ => False

section Agree

variable {S : σ → τ → Prop} {R R' : α → β → Prop} {m : EStateM ε σ α} {n : EStateM ε τ β}

theorem Agree.pure {a : α} {b : β} (h : R a b) :
    Agree S R (pure a : EStateM ε σ α) (pure b : EStateM ε τ β) := fun _ _ hs => ⟨h, hs⟩

theorem Agree.throw (e : ε) : Agree S R (throw e : EStateM ε σ α) (throw e : EStateM ε τ β) := fun _ _ hs => ⟨rfl, hs⟩

theorem Agree.get : Agree S S (get : EStateM ε σ σ) (get : EStateM ε τ τ) := fun _ _ hs => ⟨hs, hs⟩

theorem Agree.modify {f : σ → σ} {g : τ → τ} (h : ∀ s t, S s t → S (f s) (g t)) :
    Agree S (fun _ _ => True) (modify f : EStateM ε σ PUnit) (modify g : EStateM ε τ PUnit) :=
  fun s t hs => ⟨trivial, h s t hs⟩

theorem Agree.modifyGet {f : σ → α × σ} {g : τ → β × τ}
    (h : ∀ s t, S s t → R (f s).1 (g t).1 ∧ S (f s).2 (g t).2) :
    Agree S R (modifyGet f : EStateM ε σ α) (modifyGet g : EStateM ε τ β) := fun s t hs => h s t hs

/-- Sequences agree when their parts do. -/
theorem Agree.bind {Q : γ → δ → Prop} {f : α → EStateM ε σ γ} {g : β → EStateM ε τ δ} (h : Agree S R m n)
    (hf : ∀ a b, R a b → Agree S Q (f a) (g b)) : Agree S Q (m >>= f) (n >>= g) := by
  intro s t hs
  have := h s t hs
  rw [EStateM.run_bind, EStateM.run_bind]
  cases hm : m.run s with
  | ok a s' =>
    cases hn : n.run t with
    | ok b t' => rw [hm, hn] at this; exact hf a b this.1 s' t' this.2
    | error e' t' => rw [hm, hn] at this; exact absurd this id
  | error e s' =>
    cases hn : n.run t with
    | ok b t' => rw [hm, hn] at this; exact absurd this id
    | error e' t' => rw [hm, hn] at this; exact this

theorem Agree.map {Q : γ → δ → Prop} {f : α → γ} {g : β → δ} (h : Agree S R m n) (hf : ∀ a b, R a b → Q (f a) (g b)) :
    Agree S Q (f <$> m) (g <$> n) := by
  rw [← bind_pure_comp, ← bind_pure_comp]
  exact h.bind fun a b hab => .pure (hf a b hab)

end Agree

end ApiForge
