import Mathlib.Data.List.Perm.Basic
import Mathlib.Logic.Function.Basic

/-!
# Resources with one owner

`own` says who owns each resource.  A list `l` of handles `a`, each for the resource `key a`,
*lists* the owner given by `tag` when it has every handle exactly once whose resource is owned as
`tag a` says.  The rules follow a resource from one owner to the next.
-/

namespace Xtls

structure Lists {ι κ α : Type} (own : ι → κ) (key : α → ι) (tag : α → κ) (l : List α) : Prop where
  nodup : l.Nodup
  mem : ∀ a, a ∈ l ↔ own (key a) = tag a

section

variable {ι κ α : Type} {own : ι → κ} {key : α → ι} {tag : α → κ} {l l' : List α}

theorem Lists.perm (h : Lists own key tag l) (hp : l.Perm l') : Lists own key tag l' where
  nodup := hp.nodup_iff.mp h.nodup
  mem a := (hp.mem_iff).symm.trans (h.mem a)

variable [DecidableEq ι]

theorem Lists.add {a : α} (h : Lists own key tag l) (hp : (a :: l).Perm l')
    (hnew : ∀ b, key b = key a → own (key a) ≠ tag b)
    (hinj : ∀ b, key b = key a → tag b = tag a → b = a) :
    Lists (Function.update own (key a) (tag a)) key tag l' := by
  refine Lists.perm (l := a :: l) ⟨?_, fun b => ?_⟩ hp
  · exact List.nodup_cons.mpr ⟨fun ha => hnew a rfl ((h.mem a).mp ha), h.nodup⟩
  · rw [List.mem_cons, h.mem b]
    by_cases hk : key b = key a
    · rw [hk, Function.update_self]
      constructor
      · rintro (rfl | hb)
        · rfl
        · exact absurd hb (hnew b hk)
      · exact fun ht => .inl (hinj b hk ht.symm)
    · rw [Function.update_of_ne hk]
      exact or_iff_right fun hb => hk (hb ▸ rfl)

theorem Lists.drop {a : α} {k : κ} (h : Lists own key tag l) (hp : l.Perm (a :: l'))
    (hk : ∀ b, key b = key a → k ≠ tag b) (hinj : ∀ b, key b = key a → tag b = tag a → b = a) :
    Lists (Function.update own (key a) k) key tag l' := by
  have h' : Lists own key tag (a :: l') := h.perm hp
  obtain ⟨ha, hnd⟩ := List.nodup_cons.mp h'.nodup
  have hown : own (key a) = tag a := (h'.mem a).mp List.mem_cons_self
  refine ⟨hnd, fun b => ?_⟩
  by_cases hb : key b = key a
  · rw [hb, Function.update_self]
    refine ⟨fun hm => ?_, fun ht => absurd ht (hk b hb)⟩
    have hb' : own (key b) = tag b := (h'.mem b).mp (List.mem_cons_of_mem a hm)
    have he : b = a := hinj b hb (by rw [← hb', hb, hown])
    exact absurd (he ▸ hm) ha
  · rw [Function.update_of_ne hb, ← h'.mem b, List.mem_cons]
    exact (or_iff_right fun he : b = a => hb (he ▸ rfl)).symm

theorem Lists.skip {i : ι} {k : κ} (h : Lists own key tag l) (hi : ∀ b, key b = i → own i ≠ tag b)
    (hk : ∀ b, key b = i → k ≠ tag b) : Lists (Function.update own i k) key tag l := by
  refine ⟨h.nodup, fun b => ?_⟩
  rw [h.mem b]
  by_cases hb : key b = i
  · subst hb
    rw [Function.update_self]
    exact iff_of_false (hi b rfl) (hk b rfl)
  · rw [Function.update_of_ne hb]

end

end Xtls
