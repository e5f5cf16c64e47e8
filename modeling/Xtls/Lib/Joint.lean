import Xtls.Lib.Run

/-!
# Two machines side by side

An event of `jointStep f g` is one of either machine and changes the state of that machine.  The machines
share nothing; that one gets only what the other has sent is a condition on the events (`Along`).
`Sometime` says of a run that one of its states so far had a property.
-/

namespace Xtls

section

variable {σ τ ε δ η θ : Type} (f : ε → σ → Except η σ) (g : δ → τ → Except θ τ)

def jointStep : ε ⊕ δ → σ × τ → Except (η ⊕ θ) (σ × τ)
  | .inl e, s =>
    match f e s.1 with
    | .ok a => .ok (a, s.2)
    | .error x => .error (.inl x)
  | .inr d, s =>
    match g d s.2 with
    | .ok b => .ok (s.1, b)
    | .error x => .error (.inr x)

variable {f g}

theorem jointStep_inl {e : ε} {s s' : σ × τ} (h : jointStep f g (.inl e) s = .ok s') :
    f e s.1 = .ok s'.1 ∧ s'.2 = s.2 := by
  simp only [jointStep] at h
  split at h
  · rename_i a ha
    cases h
    exact ⟨ha, rfl⟩
  · cases h

theorem jointStep_inr {d : δ} {s s' : σ × τ} (h : jointStep f g (.inr d) s = .ok s') :
    g d s.2 = .ok s'.2 ∧ s'.1 = s.1 := by
  simp only [jointStep] at h
  split at h
  · rename_i b hb
    cases h
    exact ⟨hb, rfl⟩
  · cases h

theorem run_joint_left {es : List (ε ⊕ δ)} {s s' : σ × τ} (h : run (jointStep f g) es s = .ok s') :
    run f (es.filterMap Sum.getLeft?) s.1 = .ok s'.1 := by
  induction es generalizing s with
  | nil =>
    cases h
    rfl
  | cons e es ih =>
    obtain ⟨t, ht, h'⟩ := bind_ok h
    cases e with
    | inl e =>
      show f e s.1 >>= run f (es.filterMap Sum.getLeft?) = .ok s'.1
      rw [(jointStep_inl ht).1]
      exact ih h'
    | inr d =>
      rw [← (jointStep_inr ht).2]
      exact ih h'

end

section

variable {σ ε η : Type} {step : ε → σ → Except η σ} {s0 s : σ} {es : List ε} {Q : σ → Prop}

def Sometime (step : ε → σ → Except η σ) (s0 : σ) (es : List ε) (Q : σ → Prop) : Prop :=
  ∃ pre s, pre <+: es ∧ run step pre s0 = .ok s ∧ Q s

theorem Sometime.now (h : run step es s0 = .ok s) (hs : Q s) : Sometime step s0 es Q :=
  ⟨es, s, List.prefix_refl es, h, hs⟩

theorem Sometime.later (h : Sometime step s0 es Q) (fs : List ε) : Sometime step s0 (es ++ fs) Q := by
  obtain ⟨pre, s, hpre, hrun, hs⟩ := h
  exact ⟨pre, s, hpre.trans (List.prefix_append es fs), hrun, hs⟩

end

end Xtls
