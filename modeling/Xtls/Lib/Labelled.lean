import Xtls.Lib.Run

/-!
# Labelled transitions

`step s l s'` says that a system can go from `s` to `s'` and does `l` on the way, a list of acts that
may be empty.  `Path` is any number of such steps, with all that was done; `Path.history` carries an
invariant of what was done so far and of the state.
-/

namespace Xtls

section

variable {σ α : Type} {step : σ → List α → σ → Prop} {s t u : σ} {l m : List α}

inductive Path (step : σ → List α → σ → Prop) : σ → List α → σ → Prop
  | refl (s : σ) : Path step s [] s
  | cons {s t u : σ} {l m : List α} (head : step s l t) (tail : Path step t m u) :
      Path step s (l ++ m) u

theorem Path.single (h : step s l t) : Path step s l t := by
  have hp := Path.cons h (.refl t)
  rwa [List.append_nil] at hp

theorem Path.append (h1 : Path step s l t) (h2 : Path step t m u) : Path step s (l ++ m) u := by
  induction h1 with
  | refl => exact h2
  | cons hs _ ih =>
    rw [List.append_assoc]
    exact .cons hs (ih h2)

theorem Path.history {I : List α → σ → Prop}
    (hstep : ∀ log s l s', step s l s' → I log s → I (log ++ l) s') {log : List α}
    (h : Path step s l t) (hs : I log s) : I (log ++ l) t := by
  induction h generalizing log with
  | refl => rwa [List.append_nil]
  | cons hd _ ih =>
    rw [← List.append_assoc]
    exact ih (hstep _ _ _ _ hd hs)

end

/-! ### Order in a list of acts -/

section

variable {α : Type} {first second : α → Prop} {log acts : List α}

/-- Every act of the second kind comes after one of the first kind. -/
def EachAfter (first second : α → Prop) (log : List α) : Prop :=
  ∀ pre a post, log = pre ++ a :: post → second a → ∃ b ∈ pre, first b

theorem EachAfter.nil : EachAfter first second [] :=
  fun pre a post h => absurd h (by cases pre <;> nofun)

theorem EachAfter.mono {first' : α → Prop} (h : EachAfter first second log) (hf : ∀ a ∈ log, first a → first' a) :
    EachAfter first' second log := by
  intro pre a post heq ha
  obtain ⟨b, hb, hfirst⟩ := h pre a post heq ha
  exact ⟨b, hb, hf b (heq ▸ List.mem_append_left _ hb) hfirst⟩

theorem EachAfter.append (h : EachAfter first second log)
    (ha : ∀ a ∈ acts, second a → ∃ b ∈ log, first b) : EachAfter first second (log ++ acts) := by
  intro pre a post heq hsecond
  rcases List.append_eq_append_iff.mp heq with ⟨mid, rfl, hacts⟩ | ⟨mid, rfl, hpost⟩
  · -- the act is one of those that are added
    have hmem : a ∈ acts := by rw [hacts]; simp
    obtain ⟨b, hb, hfirst⟩ := ha a hmem hsecond
    exact ⟨b, List.mem_append_left _ hb, hfirst⟩
  · cases mid with
    | nil =>
      have hmem : a ∈ acts := by
        rw [show acts = a :: post from hpost.symm]
        exact List.mem_cons_self
      obtain ⟨b, hb, hfirst⟩ := ha a hmem hsecond
      exact ⟨b, by simpa using hb, hfirst⟩
    | cons m mid =>
      cases hpost
      exact h pre a mid rfl hsecond

end

/-! ### A log kept beside a machine

An observer of a machine keeps one list of acts for every index: `acts x s i` is what index `i` does
in the step, and `fresh x s s'` is the index whose list starts anew with the step, and with what. -/

section

variable {ι σ ε η α : Type} [DecidableEq ι]

structure Logged (ι σ α : Type) where
  state : σ
  log : ι → List α

def logStep (step : ε → σ → Except η σ) (fresh : ε → σ → σ → Option (ι × List α))
    (acts : ε → σ → ι → List α) (x : ε) (l : Logged ι σ α) : Except η (Logged ι σ α) := do
  let s' ← step x l.state
  return {
    state := s'
    log := fun i => match fresh x l.state s' with
      | some (j, start) => if i = j then start else l.log i ++ acts x l.state i
      | none => l.log i ++ acts x l.state i }

variable {step : ε → σ → Except η σ} {fresh : ε → σ → σ → Option (ι × List α)}
  {acts : ε → σ → ι → List α} {x : ε} {l l' : Logged ι σ α}

theorem logStep_ok (h : logStep step fresh acts x l = .ok l') :
    step x l.state = .ok l'.state
      ∧ (∀ i start, fresh x l.state l'.state = some (i, start) → l'.log i = start)
      ∧ ∀ i, (∀ start, fresh x l.state l'.state ≠ some (i, start)) →
        l'.log i = l.log i ++ acts x l.state i := by
  obtain ⟨s', hs, h⟩ := bind_ok h
  cases h
  refine ⟨hs, fun i start hf => ?_, fun i hf => ?_⟩
  · simp only [hf, if_pos]
  · dsimp only
    split
    · rename_i j start hj
      refine if_neg fun hi => hf start ?_
      rw [hi]
      exact hj
    · rfl

/-- Keeping a log changes no run. -/
theorem run_logStep (es : List ε) (l : Logged ι σ α) :
    (run (logStep step fresh acts) es l).map Logged.state = run step es l.state := by
  induction es generalizing l with
  | nil => rfl
  | cons e es ih =>
    show (logStep step fresh acts e l >>= run (logStep step fresh acts) es).map Logged.state
      = step e l.state >>= run step es
    unfold logStep
    cases step e l.state with
    | error h => rfl
    | ok s => exact ih _

end

end Xtls
