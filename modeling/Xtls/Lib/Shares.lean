import Mathlib.Data.List.Nodup
import Mathlib.Data.List.Perm.Basic

/-!
# A pool and its holders

Resources are in a pool or with one of many holders.  `Shares pool held` says that no resource is in
two places or twice in one; `Covers all pool held` that each one is somewhere.  A move between the pool
and one holder rearranges the two lists, and may lose some of their resources.
-/

namespace Xtls

structure Shares {α κ : Type} (pool : List α) (held : κ → List α) : Prop where
  nodup : ∀ k, (pool ++ held k).Nodup
  apart : ∀ k l, k ≠ l → ∀ x ∈ held k, x ∉ held l

def Covers {α κ : Type} (all : α → Prop) (pool : List α) (held : κ → List α) : Prop :=
  ∀ x, all x ↔ x ∈ pool ∨ ∃ k, x ∈ held k

section

variable {α κ : Type} {pool pool' lost : List α} {held held' : κ → List α} {k : κ} {all : α → Prop}

theorem Shares.move (h : Shares pool held)
    (hp : (pool' ++ held' k ++ lost).Perm (pool ++ held k)) (hothers : ∀ l, l ≠ k → held' l = held l) :
    Shares pool' held' := by
  have hmem : ∀ {x}, x ∈ pool' ∨ x ∈ held' k → x ∈ pool ∨ x ∈ held k := fun hx =>
    List.mem_append.mp (hp.subset (List.mem_append_left lost (List.mem_append.mpr hx)))
  have hnd : (pool' ++ held' k).Nodup := (List.nodup_append.mp (hp.nodup_iff.mpr (h.nodup k))).1
  -- what the other holders have was neither in the pool nor with `k`
  have hout : ∀ l, l ≠ k → ∀ x ∈ held l, x ∉ pool' ∧ x ∉ held' k := by
    intro l hl x hx
    have hpool : x ∉ pool := fun hm => (List.nodup_append.mp (h.nodup l)).2.2 x hm x hx rfl
    have hk : x ∉ held k := h.apart l k hl x hx
    exact ⟨fun hm => (hmem (.inl hm)).elim hpool hk, fun hm => (hmem (.inr hm)).elim hpool hk⟩
  constructor
  · intro l
    by_cases hl : l = k
    · exact hl ▸ hnd
    · rw [hothers l hl]
      refine List.nodup_append.mpr ⟨(List.nodup_append.mp hnd).1,
        (List.nodup_append.mp (h.nodup l)).2.1, ?_⟩
      rintro x hx y hy rfl
      exact (hout l hl x hy).1 hx
  · intro l m hlm x hx hm
    by_cases hl : l = k
    · have hmk : m ≠ k := fun he => hlm (hl.trans he.symm)
      rw [hothers m hmk] at hm
      exact (hout m hmk x hm).2 (hl ▸ hx)
    · rw [hothers l hl] at hx
      by_cases hmk : m = k
      · exact (hout l hl x hx).2 (hmk ▸ hm)
      · rw [hothers m hmk] at hm
        exact h.apart l m hlm x hx hm

theorem Covers.move (h : Covers all pool held) (hp : (pool' ++ held' k).Perm (pool ++ held k))
    (hothers : ∀ l, l ≠ k → held' l = held l) : Covers all pool' held' := by
  have hmem : ∀ x, (x ∈ pool' ∨ x ∈ held' k) ↔ (x ∈ pool ∨ x ∈ held k) := fun x => by
    rw [← List.mem_append, ← List.mem_append]
    exact hp.mem_iff
  have hsplit : ∀ (f : κ → List α) x, (∃ l, x ∈ f l) ↔ x ∈ f k ∨ ∃ l, l ≠ k ∧ x ∈ f l := by
    intro f x
    constructor
    · rintro ⟨l, hl⟩
      by_cases hlk : l = k
      · exact .inl (hlk ▸ hl)
      · exact .inr ⟨l, hlk, hl⟩
    · rintro (hk | ⟨l, -, hl⟩)
      · exact ⟨k, hk⟩
      · exact ⟨l, hl⟩
  have hrest : ∀ x, (∃ l, l ≠ k ∧ x ∈ held' l) ↔ ∃ l, l ≠ k ∧ x ∈ held l := fun x =>
    exists_congr fun l => and_congr_right fun hl => by rw [hothers l hl]
  intro x
  rw [h x, hsplit, hsplit held', hrest, ← or_assoc, ← or_assoc, hmem]

/-- With finitely many holders, what they have and the pool together are all resources. -/
theorem Shares.perm [Inhabited κ] (h : Shares pool held) (hc : Covers all pool held) {ks : List κ} (hks : ks.Nodup)
    (hout : ∀ l, l ∉ ks → held l = []) {xs : List α} (hxs : xs.Nodup) (hall : ∀ x, x ∈ xs ↔ all x) :
    (ks.flatMap held ++ pool).Perm xs := by
  have hheld : (ks.flatMap held).Nodup := by
    rw [List.nodup_flatMap]
    refine ⟨fun l _ => (List.nodup_append.mp (h.nodup l)).2.1, hks.imp fun hne => ?_⟩
    exact fun x hx hy => h.apart _ _ hne x hx hy
  have hmem : ∀ x, x ∈ ks.flatMap held ↔ ∃ l, x ∈ held l := fun x => by
    rw [List.mem_flatMap]
    refine ⟨fun ⟨l, _, hl⟩ => ⟨l, hl⟩, fun ⟨l, hl⟩ => ⟨l, ?_, hl⟩⟩
    by_contra hno
    rw [hout l hno] at hl
    exact absurd hl List.not_mem_nil
  have hnd : (ks.flatMap held ++ pool).Nodup := by
    refine List.nodup_append.mpr ⟨hheld, (List.nodup_append.mp (h.nodup default)).1, ?_⟩
    rintro x hx y hy rfl
    obtain ⟨l, hl⟩ := (hmem x).mp hx
    exact (List.nodup_append.mp (h.nodup l)).2.2 x hy x hl rfl
  rw [List.perm_ext_iff_of_nodup hnd hxs]
  intro x
  rw [List.mem_append, hmem, hall, hc x, or_comm]

end

end Xtls
