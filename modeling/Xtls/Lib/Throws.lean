import Xtls.Lib.Run

/-!
# The errors a computation can end with, and what it returns

`Throws E x`: if `x` fails, its error is in `E`.  `Yields E Q x`: moreover, what `x` returns satisfies `Q`.
The rules follow the way a computation is put together.
-/

namespace Xtls

section

variable {η α β : Type} {E F : η → Prop} {x : Except η α} {f : α → Except η β}

def Throws (E : η → Prop) (x : Except η α) : Prop := ∀ e, x = .error e → E e

theorem Throws.ok (a : α) : Throws E (.ok a) := fun _ h => absurd h nofun

theorem Throws.error {e : η} (h : E e) : Throws E (.error e : Except η α) := by
  intro e' he
  cases he
  exact h

theorem Throws.bind (hx : Throws E x) (hf : ∀ a, x = .ok a → Throws E (f a)) : Throws E (x >>= f) := by
  cases x with
  | error e => exact fun e' he => hx e' (by cases he; rfl)
  | ok a => exact hf a rfl

theorem Throws.ite {p : Prop} [Decidable p] {y : Except η α} (hx : p → Throws E x) (hy : ¬ p → Throws E y) :
    Throws E (if p then x else y) := by
  split
  · exact hx ‹_›
  · exact hy ‹_›

theorem Throws.mono (h : Throws E x) (hEF : ∀ e, E e → F e) : Throws F x := fun e he => hEF e (h e he)

structure Yields (E : η → Prop) (Q : α → Prop) (x : Except η α) : Prop where
  throws : Throws E x
  returns : ∀ a, x = .ok a → Q a

variable {P Q : α → Prop} {R : β → Prop}

theorem Yields.ok {a : α} (h : Q a) : Yields E Q (.ok a) := by
  refine ⟨.ok a, fun b hb => ?_⟩
  cases hb
  exact h

theorem Yields.error {e : η} (h : E e) : Yields E Q (.error e) := ⟨.error h, fun _ ha => absurd ha nofun⟩

theorem Yields.bind (hx : Yields E Q x) (hf : ∀ a, Q a → Yields E R (f a)) : Yields E R (x >>= f) := by
  cases x with
  | error e => exact .error (hx.throws e rfl)
  | ok a => exact hf a (hx.returns a rfl)

theorem Yields.imp (h : Yields E P x) (hPQ : ∀ a, P a → Q a) : Yields E Q x :=
  ⟨h.throws, fun a ha => hPQ a (h.returns a ha)⟩

end

end Xtls
