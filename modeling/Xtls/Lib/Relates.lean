import Mathlib.Data.List.Forall2
import Xtls.Lib.Run

/-!
# Two computations side by side

`Relates R x y`: both computations fail with the same error, or both return and `R` holds of what they
return.  The rules follow the way a computation is put together.
-/

namespace Xtls

inductive Relates {η α β : Type} (R : α → β → Prop) : Except η α → Except η β → Prop
  | ok {a : α} {b : β} (h : R a b) : Relates R (.ok a) (.ok b)
  | error (e : η) : Relates R (.error e) (.error e)

/-- Values related by `V`, states by `R`. -/
def Both {α β σ τ : Type} (V : α → β → Prop) (R : σ → τ → Prop) (x : α × σ) (y : β × τ) : Prop :=
  V x.1 y.1 ∧ R x.2 y.2

namespace Relates

variable {η α β γ δ : Type} {R S : α → β → Prop} {T : γ → δ → Prop} {x x' : Except η α} {y y' : Except η β}

/- The rule for a continuation that needs to know where its argument comes from. -/
theorem bind_of {f : α → Except η γ} {g : β → Except η δ} (hx : Relates R x y)
    (hf : ∀ a b, x = .ok a → y = .ok b → R a b → Relates T (f a) (g b)) :
    Relates T (x >>= f) (y >>= g) := by
  cases hx with
  | ok h => exact hf _ _ rfl rfl h
  | error e => exact .error e

theorem bind {f : α → Except η γ} {g : β → Except η δ} (hx : Relates R x y)
    (hf : ∀ a b, R a b → Relates T (f a) (g b)) : Relates T (x >>= f) (y >>= g) :=
  hx.bind_of fun a b _ _ => hf a b

theorem bind_same_of {ε : Type} {z : Except η ε} {f : ε → Except η γ} {g : ε → Except η δ}
    (hf : ∀ a, z = .ok a → Relates T (f a) (g a)) : Relates T (z >>= f) (z >>= g) := by
  cases z with
  | ok a => exact hf a rfl
  | error e => exact .error e

theorem bind_same {ε : Type} {z : Except η ε} {f : ε → Except η γ} {g : ε → Except η δ}
    (hf : ∀ a, Relates T (f a) (g a)) : Relates T (z >>= f) (z >>= g) :=
  bind_same_of fun a _ => hf a

theorem ite {p : Prop} [Decidable p] (hx : p → Relates R x y) (hy : ¬ p → Relates R x' y') :
    Relates R (if p then x else x') (if p then y else y') := by
  split
  · exact hx ‹_›
  · exact hy ‹_›

theorem and_left {P : α → Prop} (h : Relates R x y) (hP : ∀ a, x = .ok a → P a) :
    Relates (fun a b => P a ∧ R a b) x y := by
  cases h with
  | ok h => exact .ok ⟨hP _ rfl, h⟩
  | error e => exact .error e

theorem mono (h : Relates R x y) (hRS : ∀ a b, R a b → S a b) : Relates S x y := by
  cases h with
  | ok h => exact .ok (hRS _ _ h)
  | error e => exact .error e

end Relates

def reports {ε η σ ω : Type} (step : ε → σ → Except η σ) (look : ε → σ → ω) : List ε → σ → List ω
  | [], _ => []
  | e :: es, s => look e s :: match step e s with
    | .ok s' => reports step look es s'
    | .error _ => []

section

variable {ε ε' η σ τ ω : Type} {step : ε → σ → Except η σ} {step' : ε' → τ → Except η τ}
variable {ready : ε → σ → Prop} {E : ε → ε' → Prop} {R : σ → τ → Prop}

theorem run_relates
    (hstep : ∀ e e' s s', E e e' → ready e s → R s s' → Relates R (step e s) (step' e' s'))
    {es : List ε} {es' : List ε'} {s : σ} {s' : τ} (hes : List.Forall₂ E es es')
    (ha : Along step ready es s) (h : R s s') : Relates R (run step es s) (run step' es' s') := by
  induction hes generalizing s s' with
  | nil => exact .ok h
  | @cons e e' es es' he _ ih =>
    obtain ⟨hready, ha⟩ := ha
    have hone := hstep e e' s s' he hready h
    unfold run
    generalize step e s = x at hone ha
    generalize step' e' s' = y at hone
    cases hone with
    | error x => exact .error x
    | ok hone => exact ih ha hone

theorem reports_eq {look : ε → σ → ω} {look' : ε' → τ → ω}
    (hstep : ∀ e e' s s', E e e' → ready e s → R s s' → Relates R (step e s) (step' e' s'))
    (hlook : ∀ e e' s s', E e e' → ready e s → R s s' → look' e' s' = look e s)
    {es : List ε} {es' : List ε'} {s : σ} {s' : τ} (hes : List.Forall₂ E es es')
    (ha : Along step ready es s) (h : R s s') : reports step' look' es' s' = reports step look es s := by
  induction hes generalizing s s' with
  | nil => rfl
  | @cons e e' es es' he _ ih =>
    obtain ⟨hready, ha⟩ := ha
    have hone := hstep e e' s s' he hready h
    unfold reports
    rw [hlook e e' s s' he hready h]
    generalize step e s = x at hone ha
    generalize step' e' s' = y at hone
    cases hone with
    | error x => rfl
    | ok hone => exact congrArg _ (ih ha hone)

end

end Xtls
