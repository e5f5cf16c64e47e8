import Mathlib.Logic.Relation

/-!
# Runs of a machine that may stop

A machine is a function `step : ε → σ → Except η σ`: event `e` takes a state to a state or stops
the program with a reason in `η`.  `run` is a run over a list of events; the two rules at the end
carry an invariant, or an invariant together with a history condition, along a run.
-/

namespace Xtls

theorem bind_ok {η α β : Type} {x : Except η α} {f : α → Except η β} {b : β}
    (h : (x >>= f) = .ok b) : ∃ a, x = .ok a ∧ f a = .ok b := by
  cases x with
  | error e => cases h
  | ok a => exact ⟨a, rfl, h⟩

section

variable {σ ε η : Type} (step : ε → σ → Except η σ)

def run : List ε → σ → Except η σ
  | [], s => .ok s
  | e :: es, s => step e s >>= run es

theorem run_append (es fs : List ε) (s : σ) :
    run step (es ++ fs) s = run step es s >>= run step fs := by
  induction es generalizing s with
  | nil => rfl
  | cons e es ih =>
    show (step e s >>= run step (es ++ fs)) = (step e s >>= run step es) >>= run step fs
    cases hs : step e s with
    | error x => rfl
    | ok s' => exact ih s'

theorem run_flatMap {δ : Type} {big : δ → σ → Except η σ} {f : δ → List ε}
    (h : ∀ d s, big d s = run step (f d) s) (ds : List δ) (s : σ) :
    run big ds s = run step (ds.flatMap f) s := by
  induction ds generalizing s with
  | nil => rfl
  | cons d ds ih =>
    rw [run, List.flatMap_cons, run_append, h]
    congr 1
    funext t
    exact ih t

def Reaches (s s' : σ) : Prop := ∃ es, run step es s = .ok s'

variable {step}

theorem Reaches.refl (s : σ) : Reaches step s s := ⟨[], rfl⟩

theorem Reaches.trans {a b c : σ} (h1 : Reaches step a b) (h2 : Reaches step b c) :
    Reaches step a c := by
  obtain ⟨es, h1⟩ := h1
  obtain ⟨fs, h2⟩ := h2
  refine ⟨es ++ fs, ?_⟩
  rw [run_append, h1]
  exact h2

theorem Reaches.head {e : ε} {a b c : σ} (h1 : step e a = .ok b) (h2 : Reaches step b c) :
    Reaches step a c := by
  obtain ⟨es, h2⟩ := h2
  refine ⟨e :: es, ?_⟩
  show step e a >>= run step es = .ok c
  rw [h1]
  exact h2

theorem Reaches.one {e : ε} {a b : σ} (h : step e a = .ok b) : Reaches step a b := .head h (.refl b)

theorem run_invariant {Inv : σ → Prop}
    (hstep : ∀ e s s', step e s = .ok s' → Inv s → Inv s')
    (es : List ε) (s s' : σ) (h : run step es s = .ok s') (hs : Inv s) : Inv s' := by
  induction es generalizing s with
  | nil => cases h; exact hs
  | cons e es ih =>
    obtain ⟨t, ht, h'⟩ := bind_ok h
    exact ih t h' (hstep e s t ht hs)

end

section

variable {σ ε η : Type} (step : ε → σ → Except η σ) (ready : ε → σ → Prop)

/-- Every event of the run comes in a state that is ready for it. -/
def Along : List ε → σ → Prop
  | [], _ => True
  | e :: es, s => ready e s ∧ match step e s with
    | .ok s' => Along es s'
    | .error _ => True

instance decidableAlong [∀ e s, Decidable (ready e s)] :
    (es : List ε) → (s : σ) → Decidable (Along step ready es s)
  | [], _ => inferInstanceAs (Decidable True)
  | e :: es, s => by
    unfold Along
    cases step e s with
    | ok s' =>
      have := decidableAlong es s'
      infer_instance
    | error _ => infer_instance

variable {step ready}

theorem along_inputs {es : List ε} (h : ∀ e ∈ es, ∀ s, ready e s) (s : σ) : Along step ready es s := by
  induction es generalizing s with
  | nil => trivial
  | cons e es ih =>
    refine ⟨h e List.mem_cons_self s, ?_⟩
    split
    · exact ih (fun x hx => h x (List.mem_cons_of_mem e hx)) _
    · trivial

theorem run_along {Inv : σ → Prop}
    (hstep : ∀ e s s', ready e s → step e s = .ok s' → Inv s → Inv s')
    (es : List ε) (s s' : σ) (ha : Along step ready es s) (h : run step es s = .ok s') (hs : Inv s) :
    Inv s' := by
  induction es generalizing s with
  | nil => cases h; exact hs
  | cons e es ih =>
    obtain ⟨t, ht, h'⟩ := bind_ok h
    simp only [Along, ht] at ha
    exact ih t ha.2 h' (hstep e s t ha.1 ht hs)

theorem along_history {P : List ε → σ → Prop} {s0 : σ} (hnil : P [] s0)
    (hsnoc : ∀ es e s s', run step es s0 = .ok s → ready e s → step e s = .ok s' → P es s → P (es ++ [e]) s')
    (es : List ε) (s : σ) (ha : Along step ready es s0) (h : run step es s0 = .ok s) : P es s := by
  have hfrom : ∀ es pre t, run step pre s0 = .ok t → P pre t → Along step ready es t → run step es t = .ok s →
      P (pre ++ es) s := by
    intro es
    induction es with
    | nil =>
      intro pre t _ ht _ h
      cases h
      rw [List.append_nil]
      exact ht
    | cons e es ih =>
      intro pre t hpre ht ha h
      obtain ⟨u, hu, h⟩ := bind_ok h
      simp only [Along, hu] at ha
      have hnext : run step (pre ++ [e]) s0 = .ok u := by
        rw [run_append, hpre]
        show step e t >>= run step [] = .ok u
        rw [hu]
        rfl
      have hrest := ih (pre ++ [e]) u hnext (hsnoc pre e t u hpre ha.1 hu ht) ha.2 h
      rwa [List.append_assoc] at hrest
  exact hfrom es [] s0 rfl hnil ha h

theorem run_history {P : List ε → σ → Prop} {s0 : σ} (hnil : P [] s0)
    (hsnoc : ∀ es e s s', run step es s0 = .ok s → step e s = .ok s' → P es s → P (es ++ [e]) s')
    (es : List ε) (s : σ) (h : run step es s0 = .ok s) : P es s := by
  have ha : Along step (fun _ _ => True) es s0 := along_inputs (fun _ _ _ => trivial) s0
  exact along_history hnil (fun es e s s' hrun _ => hsnoc es e s s' hrun) es s ha h

end

def endsIn {η σ : Type} (p : σ → Prop) [DecidablePred p] : Except η σ → Bool
  | .ok s => p s
  | .error _ => false

theorem endsIn_ok {η σ : Type} (p : σ → Prop) [DecidablePred p] (r : Except η σ)
    (h : endsIn p r = true) : ∃ s, r = .ok s ∧ p s := by
  cases r with
  | error e => cases h
  | ok s => exact ⟨s, rfl, of_decide_eq_true h⟩

def stopsFor {η σ : Type} [DecidableEq η] (e : η) : Except η σ → Bool
  | .ok _ => false
  | .error e' => e' = e

theorem stopsFor_error {η σ : Type} [DecidableEq η] (e : η) (r : Except η σ)
    (h : stopsFor e r = true) : r = .error e := by
  cases r with
  | ok s => cases h
  | error e' => exact congrArg _ (of_decide_eq_true h)

end Xtls
