import Mathlib.Data.Fintype.Pigeonhole
import Mathlib.Logic.Function.Iterate

/-!
# Loops over finitely many values

A loop takes `x` to `next x` until `stop` holds.  Over a finite type it ends exactly if it does not come
back to a value, and then within as many rounds as the type has values; in any case it comes to no value
later than that (`exists_early`).
-/

namespace Xtls

section

variable {α : Type} (next : α → α) (stop : α → Prop) (x : α)

def Ends : Prop := ∃ n, stop (next^[n] x)

/- The loop comes back to a value that it has not stopped at. -/
def Returns : Prop := ∃ i j, i < j ∧ (∀ k, k ≤ j → ¬ stop (next^[k] x)) ∧ next^[j] x = next^[i] x

variable {next stop x}

theorem Returns.forever (h : Returns next stop x) (n : Nat) : ¬ stop (next^[n] x) := by
  obtain ⟨i, j, hij, hgo, hback⟩ := h
  induction n using Nat.strongRecOn with
  | ind n ih =>
    by_cases hn : n ≤ j
    · exact hgo n hn
    · -- a round behind `j` is one of the rounds behind `i`
      have hback' : next^[n] x = next^[n - j + i] x := by
        have hsplit : n = n - j + j := by omega
        calc next^[n] x = next^[n - j + j] x := by rw [← hsplit]
          _ = next^[n - j] (next^[j] x) := Function.iterate_add_apply ..
          _ = next^[n - j] (next^[i] x) := by rw [hback]
          _ = next^[n - j + i] x := (Function.iterate_add_apply ..).symm
      rw [hback']
      exact ih (n - j + i) (by omega)

theorem ends_iff [Finite α] : Ends next stop x ↔ ¬ Returns next stop x := by
  constructor
  · rintro ⟨n, hn⟩ h
    exact h.forever n hn
  · intro h
    by_contra hnever
    have hgo : ∀ n, ¬ stop (next^[n] x) := fun n hn => hnever ⟨n, hn⟩
    obtain ⟨i, j, hne, heq⟩ := Finite.exists_ne_map_eq_of_infinite fun n : Nat => next^[n] x
    rcases Nat.lt_or_gt_of_ne hne with hlt | hgt
    · exact h ⟨i, j, hlt, fun k _ => hgo k, heq.symm⟩
    · exact h ⟨j, i, hgt, fun k _ => hgo k, heq⟩

theorem Ends.within [Fintype α] (h : Ends next stop x) : ∃ n, n < Fintype.card α ∧ stop (next^[n] x) := by
  classical
  refine ⟨Nat.find h, ?_, Nat.find_spec h⟩
  have hdistinct : Function.Injective fun k : Fin (Nat.find h + 1) => next^[k] x := by
    have hlt : ∀ i j : Fin (Nat.find h + 1), i < j → next^[i] x ≠ next^[j] x := by
      intro i j hij heq
      -- from `j` the loop needs as long as from `i`
      have hj : j.val ≤ Nat.find h := Nat.lt_succ_iff.mp j.isLt
      have hstop : stop (next^[Nat.find h - j + i] x) := by
        have hsplit : Nat.find h - j + j = Nat.find h := by omega
        rw [Function.iterate_add_apply, heq, ← Function.iterate_add_apply, hsplit]
        exact Nat.find_spec h
      have hearly : Nat.find h - j + i < Nat.find h := by
        have : i.val < j.val := hij
        omega
      exact Nat.find_min h hearly hstop
    intro i j heq
    rcases lt_trichotomy i j with hij | hij | hij
    · exact absurd heq (hlt i j hij)
    · exact hij
    · exact absurd heq.symm (hlt j i hij)
  have hcard := Fintype.card_le_of_injective _ hdistinct
  rw [Fintype.card_fin] at hcard
  exact hcard

theorem exists_early [Fintype α] (next : α → α) (x : α) (n : Nat) :
    ∃ m, m < Fintype.card α ∧ m ≤ n ∧ next^[m] x = next^[n] x := by
  induction n using Nat.strongRecOn with
  | ind n ih =>
    by_cases hn : n < Fintype.card α
    · exact ⟨n, hn, Nat.le_refl n, rfl⟩
    · -- two of the rounds up to `n` agree, so that the rounds between them can be left out
      have hsame : ∃ i j : Fin (Fintype.card α + 1), i < j ∧ next^[i] x = next^[j] x := by
        obtain ⟨i, j, hne, heq⟩ := Fintype.exists_ne_map_eq_of_card_lt
          (fun k : Fin (Fintype.card α + 1) => next^[k] x) (by rw [Fintype.card_fin]; omega)
        rcases lt_or_gt_of_ne hne with hlt | hgt
        · exact ⟨i, j, hlt, heq⟩
        · exact ⟨j, i, hgt, heq.symm⟩
      obtain ⟨i, j, hij, heq⟩ := hsame
      have hlt : i.val < j.val := hij
      have hj : j.val ≤ n := by omega
      obtain ⟨m, hm, hle, hval⟩ := ih (n - j + i) (by omega)
      refine ⟨m, hm, by omega, hval.trans ?_⟩
      rw [Function.iterate_add_apply, heq, ← Function.iterate_add_apply, Nat.sub_add_cancel hj]

end

end Xtls
