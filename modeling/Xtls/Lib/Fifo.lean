import Mathlib.Data.List.Infix

/-!
# Bounded FIFO queues

What the callers of a bounded queue are told, as a transition system over the list of queued
objects.  `FifoTrace cap es q` says that the answers `es`, oldest first, are those of a queue of
capacity `cap` that started empty and now holds `q`.
-/

namespace Xtls

/-- The answer to a call. -/
inductive QueueEvent (α : Type) where
  | enqueued (a : α)
  | full
  | dequeued (a : α)
  | empty
  deriving DecidableEq, Repr

section

variable {α : Type} {cap : Nat}

inductive FifoStep (cap : Nat) : List α → QueueEvent α → List α → Prop
  | enqueue {q : List α} (a : α) (h : q.length < cap) : FifoStep cap q (.enqueued a) (q ++ [a])
  | full {q : List α} (h : q.length = cap) : FifoStep cap q .full q
  | dequeue (a : α) (q : List α) : FifoStep cap (a :: q) (.dequeued a) q
  | empty : FifoStep cap [] .empty []

inductive FifoTrace (cap : Nat) : List (QueueEvent α) → List α → Prop
  | nil : FifoTrace cap [] []
  | snoc {es : List (QueueEvent α)} {e : QueueEvent α} {q q' : List α} (h : FifoTrace cap es q)
      (step : FifoStep cap q e q') : FifoTrace cap (es ++ [e]) q'

def enqueuedIn (es : List (QueueEvent α)) : List α :=
  es.filterMap fun | .enqueued a => some a | _ => none

def dequeuedIn (es : List (QueueEvent α)) : List α :=
  es.filterMap fun | .dequeued a => some a | _ => none

theorem FifoTrace.enqueuedIn_eq {es : List (QueueEvent α)} {q : List α} (h : FifoTrace cap es q) :
    enqueuedIn es = dequeuedIn es ++ q := by
  induction h with
  | nil => rfl
  | snoc _ step ih =>
    unfold enqueuedIn dequeuedIn at *
    cases step with
    | enqueue a _ => simp [ih]
    | full _ => simpa using ih
    | dequeue a q => simp [ih]
    | empty => simpa using ih

theorem FifoTrace.dequeuedIn_isPrefix {es : List (QueueEvent α)} {q : List α}
    (h : FifoTrace cap es q) : dequeuedIn es <+: enqueuedIn es :=
  ⟨q, h.enqueuedIn_eq.symm⟩

end

end Xtls
