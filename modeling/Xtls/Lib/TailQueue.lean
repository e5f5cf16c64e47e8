import Mathlib.Data.List.Nodup
import Mathlib.Logic.Function.Basic

/-!
# Tail queues

The doubly linked lists of `sys/queue.h`, many heads over one kind of element.  The links lie in the
elements, so an element is in at most one list and at most once.  `Represents q f` says which list each
head has; `insertTail` and `remove` write the pointers in the order of the macros.
-/

namespace Xtls

section

variable {κ α : Type}

/-- The address of a pointer to an element: `tqh_first` of a head or `tqe_next` of an element. -/
inductive Link (κ α : Type) where
  | first (k : κ)
  | next (a : α)
  deriving DecidableEq

/-- What the pointers hold: `cell` is read through an address, `last` is `tqh_last` of a head and `prev`
is `tqe_prev` of an element. -/
structure Queues (κ α : Type) where
  cell : Link κ α → Option α
  last : κ → Link κ α
  prev : α → Link κ α

namespace Queues

/- `TAILQ_INIT` for every head; the links of the elements hold anything. -/
def init (next : α → Option α) (prev : α → Link κ α) : Queues κ α where
  cell
    | .first _ => none
    | .next a => next a
  last := .first
  prev := prev

section

variable [DecidableEq κ] [DecidableEq α]

/-- `TAILQ_INSERT_TAIL`. -/
def insertTail (k : κ) (a : α) (q : Queues κ α) : Queues κ α :=
  let q := { q with cell := Function.update q.cell (.next a) none }
  let q := { q with prev := Function.update q.prev a (q.last k) }
  let q := { q with cell := Function.update q.cell (q.last k) (some a) }
  { q with last := Function.update q.last k (.next a) }

def unlinkNext (k : κ) (a : α) (q : Queues κ α) : Queues κ α :=
  match q.cell (.next a) with
  | some b => { q with prev := Function.update q.prev b (q.prev a) }
  | none => { q with last := Function.update q.last k (q.prev a) }

/-- `TAILQ_REMOVE`. -/
def remove (k : κ) (a : α) (q : Queues κ α) : Queues κ α :=
  let q := q.unlinkNext k a
  { q with cell := Function.update q.cell (q.prev a) (q.cell (.next a)) }

end

/-- `TAILQ_FOREACH` with a body that may end it; `none` when it has not ended after `fuel` elements. -/
def foreach {β : Type} (body : α → Option β) (q : Queues κ α) : Nat → Link κ α → Option (Option β)
  | 0, _ => none
  | fuel + 1, l =>
    match q.cell l with
    | none => some none
    | some a =>
      match body a with
      | some b => some (some b)
      | none => foreach body q fuel (.next a)

/-! ### Lists in memory -/

/-- From the pointer at `l`, the elements of the list follow one another up to the pointer at `e`. -/
def Chain (q : Queues κ α) : Link κ α → List α → Link κ α → Prop
  | l, [], e => e = l
  | l, a :: as, e => q.cell l = some a ∧ q.prev a = l ∧ q.Chain (.next a) as e

variable {q q' : Queues κ α} {l m e : Link κ α} {as bs : List α} {a : α}

theorem chain_append : q.Chain l (as ++ bs) e ↔ ∃ m, q.Chain l as m ∧ q.Chain m bs e := by
  induction as generalizing l with
  | nil => exact ⟨fun h => ⟨l, rfl, h⟩, fun ⟨m, hm, h⟩ => hm ▸ h⟩
  | cons a as ih =>
    constructor
    · rintro ⟨hcell, hprev, hrest⟩
      obtain ⟨m, hm, h⟩ := ih.mp hrest
      exact ⟨m, ⟨hcell, hprev, hm⟩, h⟩
    · rintro ⟨m, ⟨hcell, hprev, hm⟩, h⟩
      exact ⟨hcell, hprev, ih.mpr ⟨m, hm, h⟩⟩

theorem Chain.ends (h : q.Chain l as e) : e = l ∨ ∃ b ∈ as, e = .next b := by
  induction as generalizing l with
  | nil => exact .inl h
  | cons a as ih =>
    obtain ⟨-, -, h⟩ := h
    rcases ih h with rfl | ⟨b, hb, rfl⟩
    · exact .inr ⟨a, List.mem_cons_self, rfl⟩
    · exact .inr ⟨b, List.mem_cons_of_mem a hb, rfl⟩

theorem Chain.frame (h : q.Chain l as e) (hnd : as.Nodup) (hl : ∀ b ∈ as, l ≠ .next b)
    (hcell : ∀ x, x ≠ e → (x = l ∨ ∃ b ∈ as, x = .next b) → q'.cell x = q.cell x)
    (hprev : ∀ b ∈ as, q'.prev b = q.prev b) : q'.Chain l as e := by
  induction as generalizing l with
  | nil => exact h
  | cons a as ih =>
    obtain ⟨hnot, hnd⟩ := List.nodup_cons.mp hnd
    obtain ⟨hc, hp, hrest⟩ := h
    have hle : l ≠ e := by
      rcases hrest.ends with rfl | ⟨b, hb, rfl⟩
      · exact hl a List.mem_cons_self
      · exact hl b (List.mem_cons_of_mem a hb)
    refine ⟨(hcell l hle (.inl rfl)).trans hc, (hprev a List.mem_cons_self).trans hp, ?_⟩
    refine ih hrest hnd (fun b hb heq => ?_) (fun x hx hin => hcell x hx (.inr ?_))
      (fun b hb => hprev b (List.mem_cons_of_mem a hb))
    · cases heq
      exact hnot hb
    · rcases hin with rfl | ⟨b, hb, rfl⟩
      · exact ⟨a, List.mem_cons_self, rfl⟩
      · exact ⟨b, List.mem_cons_of_mem a hb, rfl⟩

theorem Chain.foreach {β : Type} (h : q.Chain l as e) (hend : q.cell e = none) (body : α → Option β) {fuel : Nat}
    (hfuel : as.length < fuel) : q.foreach body fuel l = some (as.findSome? body) := by
  induction as generalizing l fuel with
  | nil =>
    obtain ⟨fuel, rfl⟩ := Nat.exists_eq_succ_of_ne_zero (Nat.ne_of_gt hfuel)
    cases h
    rw [Queues.foreach, hend]
    rfl
  | cons a as ih =>
    obtain ⟨fuel, rfl⟩ := Nat.exists_eq_succ_of_ne_zero (Nat.ne_of_gt (Nat.zero_lt_of_lt hfuel))
    obtain ⟨hc, -, hrest⟩ := h
    rw [Queues.foreach, hc, List.findSome?_cons]
    dsimp only
    cases body a with
    | some b => rfl
    | none => exact ih hrest (Nat.lt_of_succ_lt_succ hfuel)

/-- The head `k` has the list `f k`. -/
structure Represents (q : Queues κ α) (f : κ → List α) : Prop where
  chain : ∀ k, q.Chain (.first k) (f k) (q.last k)
  ends : ∀ k, q.cell (q.last k) = none
  nodup : ∀ k, (f k).Nodup
  apart : ∀ k k', k ≠ k' → ∀ a ∈ f k, a ∉ f k'

section

variable {f : κ → List α} {k : κ}

theorem init_represents (next : α → Option α) (prev : α → Link κ α) :
    (init next prev).Represents fun _ => [] :=
  ⟨fun _ => rfl, fun _ => rfl, fun _ => List.nodup_nil, fun _ _ _ _ ha => absurd ha List.not_mem_nil⟩

theorem Represents.foreach {β : Type} (h : q.Represents f) (body : α → Option β) {fuel : Nat}
    (hfuel : (f k).length < fuel) : q.foreach body fuel (.first k) = some ((f k).findSome? body) :=
  (h.chain k).foreach (h.ends k) body hfuel

theorem Represents.links_ne (h : q.Represents f) {k' : κ} (hk : k' ≠ k) {x y : Link κ α}
    (hx : x = .first k' ∨ ∃ b ∈ f k', x = .next b) (hy : y = .first k ∨ ∃ b ∈ f k, y = .next b) : x ≠ y := by
  rintro rfl
  rcases hx with rfl | ⟨b, hb, rfl⟩ <;> rcases hy with hy | ⟨c, hc, hy⟩ <;> cases hy
  · exact hk rfl
  · exact h.apart k' k hk b hb hc

variable [DecidableEq κ] [DecidableEq α]

theorem Represents.insertTail (h : q.Represents f) (ha : ∀ k, a ∉ f k) :
    (q.insertTail k a).Represents fun i => if i = k then f i ++ [a] else f i := by
  have hlast : q.last k ≠ .next a := by
    rcases (h.chain k).ends with heq | ⟨b, hb, heq⟩
    · rw [heq]
      exact nofun
    · rw [heq]
      rintro ⟨⟩
      exact ha k hb
  have hcell : ∀ x, x ≠ q.last k → x ≠ .next a → (q.insertTail k a).cell x = q.cell x := fun x hx hxa => by
    simp only [Queues.insertTail, Function.update_of_ne hx, Function.update_of_ne hxa]
  have hprev : ∀ b, b ≠ a → (q.insertTail k a).prev b = q.prev b := fun b hb => Function.update_of_ne hb ..
  -- the elements of every list are still linked
  have hold : ∀ i, (q.insertTail k a).Chain (.first i) (f i) (q.last i) := fun i => by
    refine (h.chain i).frame (h.nodup i) (fun _ _ => nofun) (fun x hx hin => hcell x ?_ ?_)
      fun b hb => hprev b (ne_of_mem_of_not_mem hb (ha i))
    · by_cases hi : i = k
      · exact hi ▸ hx
      · exact h.links_ne hi hin (h.chain k).ends
    · rcases hin with rfl | ⟨b, hb, rfl⟩
      · exact nofun
      · rintro ⟨⟩
        exact ha i hb
  constructor
  · intro i
    by_cases hi : i = k
    · subst hi
      rw [if_pos rfl, chain_append]
      refine ⟨q.last i, hold i, ?_, ?_, ?_⟩
      · exact Function.update_self ..
      · exact Function.update_self ..
      · exact Function.update_self ..
    · rw [if_neg hi]
      have hkeep : (q.insertTail k a).last i = q.last i := Function.update_of_ne hi ..
      rw [hkeep]
      exact hold i
  · intro i
    by_cases hi : i = k
    · subst hi
      have hnew : (q.insertTail i a).last i = .next a := Function.update_self ..
      rw [hnew]
      simp only [Queues.insertTail, Function.update_of_ne hlast.symm, Function.update_self]
    · have hkeep : (q.insertTail k a).last i = q.last i := Function.update_of_ne hi ..
      rw [hkeep, hcell _ (h.links_ne hi (h.chain i).ends (h.chain k).ends) ?_, h.ends]
      rcases (h.chain i).ends with heq | ⟨b, hb, heq⟩
      · rw [heq]
        exact nofun
      · rw [heq]
        rintro ⟨⟩
        exact ha i hb
  · intro i
    split
    · exact List.nodup_append.mpr ⟨h.nodup i, List.nodup_singleton a, fun b hb c hc heq =>
        ha i (List.mem_singleton.mp hc ▸ heq ▸ hb)⟩
    · exact h.nodup i
  · intro i j hij b hb hb'
    have hmem : ∀ i, b ∈ (if i = k then f i ++ [a] else f i) → b ∈ f i ∨ i = k ∧ b = a := fun i hb => by
      split at hb
      · rename_i hi
        exact (List.mem_append.mp hb).imp id fun h => ⟨hi, List.mem_singleton.mp h⟩
      · exact .inl hb
    rcases hmem i hb with hb | ⟨hi, rfl⟩ <;> rcases hmem j hb' with hb' | ⟨hj, hba⟩
    · exact h.apart i j hij b hb hb'
    · exact ha i (hba ▸ hb)
    · exact ha j hb'
    · exact hij (hi.trans hj.symm)

theorem remove_frame (k : κ) (a : α) (q : Queues κ α) (hloop : q.cell (.next a) ≠ some a) :
    (∀ x, x ≠ q.prev a → (q.remove k a).cell x = q.cell x)
      ∧ (q.remove k a).cell (q.prev a) = q.cell (.next a)
      ∧ (∀ b, q.cell (.next a) ≠ some b → (q.remove k a).prev b = q.prev b)
      ∧ ∀ i, i ≠ k → (q.remove k a).last i = q.last i := by
  simp only [Queues.remove, unlinkNext]
  cases hnext : q.cell (.next a) with
  | none =>
    simp only [hnext]
    exact ⟨fun x hx => Function.update_of_ne hx .., Function.update_self .., fun _ _ => trivial,
      fun i hi => Function.update_of_ne hi ..⟩
  | some c =>
    have hca : a ≠ c := fun heq => hloop (heq ▸ hnext)
    simp only [hnext, Function.update_of_ne hca]
    exact ⟨fun x hx => Function.update_of_ne hx .., Function.update_self ..,
      fun b hb => Function.update_of_ne (fun heq => hb (congrArg some heq.symm)) .., fun _ _ => trivial⟩

theorem Represents.remove (h : q.Represents f) (ha : a ∈ f k) :
    (q.remove k a).Represents fun i => if i = k then (f i).erase a else f i := by
  obtain ⟨pre, post, hsplit⟩ := List.append_of_mem ha
  have hnd := h.nodup k
  rw [hsplit] at hnd
  obtain ⟨hpre, hrest, hcross⟩ := List.nodup_append.mp hnd
  obtain ⟨hpost, hndpost⟩ := List.nodup_cons.mp hrest
  have hapre : a ∉ pre := fun hm => hcross a hm a List.mem_cons_self rfl
  have herase : (f k).erase a = pre ++ post := by
    rw [hsplit, List.erase_append_right _ hapre, List.erase_cons_head]
  have hchain := h.chain k
  rw [hsplit, chain_append] at hchain
  obtain ⟨m, hbefore, hcell, hprev, hafter⟩ := hchain
  have hmem : ∀ b ∈ pre ++ post, b ∈ f k := fun b hb => by
    rw [hsplit]
    exact List.mem_append.mpr ((List.mem_append.mp hb).imp id (List.mem_cons_of_mem a))
  have hm : m = .first k ∨ ∃ b ∈ f k, m = .next b := hbefore.ends.imp id fun ⟨b, hb, heq⟩ =>
    ⟨b, hmem b (List.mem_append_left _ hb), heq⟩
  -- the neighbour behind `a`
  have hnext : q.cell (.next a) = post.head? := by
    cases post with
    | nil =>
      have hend := h.ends k
      rw [show q.last k = .next a from hafter] at hend
      exact hend
    | cons c cs => exact hafter.1
  have hbehind : ∀ b, q.cell (.next a) = some b → b ∈ post := fun b hb =>
    List.mem_of_mem_head? (hnext ▸ hb)
  obtain ⟨hother, hset, hkeep, hlast⟩ := remove_frame k a q fun heq => hpost (hbehind a heq)
  rw [hprev] at hother hset
  have hkept : ∀ i, i ≠ k → (q.remove k a).Chain (.first i) (f i) (q.last i) := fun i hi => by
    refine (h.chain i).frame (h.nodup i) (fun _ _ => nofun) (fun x _ hin => hother x ?_)
      fun b hb => hkeep b fun heq => ?_
    · exact h.links_ne hi hin hm
    · exact h.apart i k hi b hb (hmem b (List.mem_append_right _ (hbehind b heq)))
  have hbefore' : (q.remove k a).Chain (.first k) pre m := by
    refine hbefore.frame hpre (fun _ _ => nofun) (fun x hx _ => hother x hx) fun b hb => hkeep b fun heq => ?_
    exact hcross b hb b (List.mem_cons_of_mem a (hbehind b heq)) rfl
  have hend : (q.remove k a).Chain m post ((q.remove k a).last k)
      ∧ (q.remove k a).cell ((q.remove k a).last k) = none := by
    cases post with
    | nil =>
      have hnone : q.cell (.next a) = none := hnext
      have hnew : (q.remove k a).last k = m := by
        simp only [Queues.remove, unlinkNext, hnone]
        rw [Function.update_self, hprev]
      rw [hnew, hset, hnext]
      exact ⟨rfl, rfl⟩
    | cons c cs =>
      obtain ⟨hc, hpc, hcs⟩ := hafter
      obtain ⟨hnotc, hndcs⟩ := List.nodup_cons.mp hndpost
      have hca : a ≠ c := fun heq => hpost (heq ▸ List.mem_cons_self)
      have hnew : (q.remove k a).last k = q.last k := by
        simp only [Queues.remove, unlinkNext, hc]
      have hprevc : (q.remove k a).prev c = m := by
        simp only [Queues.remove, unlinkNext, hc]
        rw [Function.update_self, hprev]
      -- no pointer behind `c` is the one before `a`
      have hne : ∀ b ∈ c :: cs, Link.next b ≠ m := fun b hb heq => by
        rcases hbefore.ends with hfirst | ⟨d, hd, hdm⟩
        · rw [hfirst] at heq
          cases heq
        · rw [hdm] at heq
          cases heq
          exact hcross b hd b (List.mem_cons_of_mem a hb) rfl
      have hcs' : (q.remove k a).Chain (.next c) cs (q.last k) := by
        refine hcs.frame hndcs (fun b hb heq => ?_) (fun x _ hin => hother x ?_) fun b hb => hkeep b fun heq => ?_
        · cases heq
          exact hnotc hb
        · rcases hin with rfl | ⟨b, hb, rfl⟩
          · exact hne c List.mem_cons_self
          · exact hne b (List.mem_cons_of_mem c hb)
        · rw [hc] at heq
          cases heq
          exact hnotc hb
      rw [hnew]
      refine ⟨⟨hset.trans hc, hprevc, hcs'⟩, ?_⟩
      have hlastne : q.last k ≠ m := by
        rcases hcs.ends with heq | ⟨b, hb, heq⟩
        · exact heq ▸ hne c List.mem_cons_self
        · exact heq ▸ hne b (List.mem_cons_of_mem c hb)
      rw [hother _ hlastne, h.ends]
  constructor
  · intro i
    by_cases hi : i = k
    · subst hi
      rw [if_pos rfl, herase, chain_append]
      exact ⟨m, hbefore', hend.1⟩
    · rw [if_neg hi, hlast i hi]
      exact hkept i hi
  · intro i
    by_cases hi : i = k
    · exact hi ▸ hend.2
    · rw [hlast i hi, hother _ (h.links_ne hi (h.chain i).ends hm), h.ends]
  · intro i
    split
    · exact (h.nodup i).erase a
    · exact h.nodup i
  · intro i j hij b hb hb'
    have hsub : ∀ i, b ∈ (if i = k then (f i).erase a else f i) → b ∈ f i := fun i hb => by
      split at hb
      · exact List.mem_of_mem_erase hb
      · exact hb
    exact h.apart i j hij b (hsub i hb) (hsub j hb')

end

end Queues

/-! ### Elements by their key -/

section

variable {g h : α → κ} {items : List α} {a : α} {k : κ} [DecidableEq κ]

/-- The elements with key `k`, in the order of `items`. -/
def buckets (g : α → κ) (items : List α) (k : κ) : List α := items.filter fun a => g a = k

theorem mem_buckets : a ∈ buckets g items k ↔ a ∈ items ∧ g a = k := by
  rw [buckets, List.mem_filter, decide_eq_true_iff]

theorem buckets_congr (heq : ∀ a ∈ items, g a = h a) : buckets g items k = buckets h items k :=
  List.filter_congr fun a ha => by rw [heq a ha]

theorem buckets_snoc :
    buckets g (items ++ [a]) k = if k = g a then buckets g items k ++ [a] else buckets g items k := by
  simp only [buckets, List.filter_append, List.filter_cons, List.filter_nil, decide_eq_true_eq]
  split
  · rename_i hk
    rw [if_pos hk.symm]
  · rename_i hk
    rw [if_neg fun hk' => hk hk'.symm, List.append_nil]

theorem buckets_erase [DecidableEq α] (hnd : items.Nodup) :
    buckets g (items.erase a) k = if k = g a then (buckets g items k).erase a else buckets g items k := by
  simp only [buckets]
  rw [hnd.erase_eq_filter, List.filter_filter]
  split
  · rw [(hnd.filter _).erase_eq_filter, List.filter_filter]
    exact List.filter_congr fun b _ => Bool.and_comm ..
  · rename_i hk
    refine List.filter_congr fun b _ => ?_
    by_cases hb : b = a
    · have hne : ¬ g b = k := fun hg => hk (hb ▸ hg.symm)
      simp only [decide_eq_false hne, Bool.false_and]
    · simp only [bne_iff_ne.mpr hb, Bool.and_true]

theorem buckets_find (p : α → Bool) (hp : ∀ a, p a = true → g a = k) :
    (buckets g items k).find? p = items.find? p := by
  induction items with
  | nil => rfl
  | cons a items ih =>
    simp only [buckets, List.filter_cons, decide_eq_true_eq] at ih ⊢
    split
    · rw [List.find?_cons, List.find?_cons, ih]
    · rename_i hk
      have hno : p a = false := Bool.eq_false_iff.mpr fun h => hk (hp a h)
      rw [ih, List.find?_cons, hno]

end

end

end Xtls
