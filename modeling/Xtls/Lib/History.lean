import Xtls.Lib.Run

/-!
# Preservation under a condition on the history

A state carries a list of past events, newest first.  `Keeps hist good P s s'` says that the history
only grew from `s` to `s'` and that `P` survived, provided every event of the longer history is
good.  The condition is on the history at the end, so the relation composes without a side
condition on the states in between.
-/

namespace Xtls

section

variable {σ ε : Type} {hist : σ → List ε} {good : ε → Prop} {P : σ → Prop}

structure Keeps (hist : σ → List ε) (good : ε → Prop) (P : σ → Prop) (s s' : σ) : Prop where
  grows : hist s <:+ hist s'
  keeps : (∀ e ∈ hist s', good e) → P s → P s'

theorem Keeps.refl (s : σ) : Keeps hist good P s s := ⟨List.suffix_refl _, fun _ h => h⟩

theorem Keeps.trans {a b c : σ} (h1 : Keeps hist good P a b) (h2 : Keeps hist good P b c) :
    Keeps hist good P a c where
  grows := h1.grows.trans h2.grows
  keeps hg ha := h2.keeps hg (h1.keeps (fun e he => hg e (h2.grows.subset he)) ha)

theorem Keeps.quiet {s s' : σ} (hh : hist s' = hist s) (h : P s → P s') :
    Keeps hist good P s s' :=
  ⟨hh ▸ List.suffix_refl _, fun _ => h⟩

theorem Keeps.record {s s' : σ} {e : ε} (hh : hist s' = e :: hist s)
    (h : good e → (∀ x ∈ hist s, good x) → P s → P s') : Keeps hist good P s s' where
  grows := hh ▸ List.suffix_cons e (hist s)
  keeps hg hs := h (hg e (hh ▸ List.mem_cons_self))
    (fun x hx => hg x (hh ▸ List.mem_cons_of_mem e hx)) hs

variable {ι η : Type} {step : ι → σ → Except η σ}

theorem run_keeps (hstep : ∀ (x : ι) (s s' : σ), step x s = .ok s' → Keeps hist good P s s')
    (xs : List ι) (s s' : σ) (h : run step xs s = .ok s') : Keeps hist good P s s' := by
  induction xs generalizing s with
  | nil => cases h; exact .refl _
  | cons x xs ih =>
    obtain ⟨t, ht, h'⟩ := bind_ok h
    exact (hstep x s t ht).trans (ih t h')

end

end Xtls
