import Xtls.Lib.Run
import Xtls.Lib.TailQueue

/-!
# Walking a tail queue while it changes

`TAILQ_FOREACH` reads the successor of an element after the body has run for it, and `TAILQ_REMOVE` leaves
the link of the element that it takes out.  A body that takes out no other element than its own therefore
runs once for every element of the list, in order.
-/

namespace Xtls

namespace Queues

section

variable {κ α σ η : Type}

/-- `TAILQ_FOREACH` with a body that changes the state and with it the pointers; `none` when it has not
ended after `fuel` elements. -/
def walk (links : σ → Queues κ α) (body : α → σ → Except η σ) : Nat → Link κ α → σ → Option (Except η σ)
  | 0, _, _ => none
  | fuel + 1, l, s =>
    match (links s).cell l with
    | none => some (.ok s)
    | some a =>
      match body a s with
      | .error e => some (.error e)
      | .ok s' => walk links body fuel (.next a) s'

def walkAll (links : σ → Queues κ α) (body : α → σ → Except η σ) (fuel : Nat) : List κ → σ → Option (Except η σ)
  | [], s => some (.ok s)
  | k :: ks, s =>
    match walk links body fuel (.first k) s with
    | none => none
    | some (.error e) => some (.error e)
    | some (.ok s') => walkAll links body fuel ks s'

theorem walkAll_cons {links : σ → Queues κ α} {body : α → σ → Except η σ} {fuel : Nat} {k : κ} {ks : List κ}
    {s s' : σ} : walkAll links body fuel (k :: ks) s = some (.ok s')
    ↔ ∃ t, walk links body fuel (.first k) s = some (.ok t) ∧ walkAll links body fuel ks t = some (.ok s') := by
  rw [walkAll]
  split <;> rename_i hwalk
  · simp [hwalk]
  · simp [hwalk]
  · simp [hwalk]

theorem Represents.next {q : Queues κ α} {f : κ → List α} {k : κ} {a : α} {pre post : List α}
    (h : q.Represents f) (hf : f k = pre ++ a :: post) : q.cell (.next a) = post.head? := by
  have hchain := h.chain k
  rw [hf, chain_append] at hchain
  obtain ⟨m, -, -, -, hafter⟩ := hchain
  cases post with
  | nil =>
    have hend := h.ends k
    rw [show q.last k = .next a from hafter] at hend
    exact hend
  | cons b bs => exact hafter.1

theorem Represents.first {q : Queues κ α} {f : κ → List α} (h : q.Represents f) (k : κ) :
    q.cell (.first k) = (f k).head? := by
  have hchain := h.chain k
  cases hf : f k with
  | nil =>
    rw [hf] at hchain
    have hend := h.ends k
    rw [show q.last k = .first k from hchain] at hend
    exact hend
  | cons b bs =>
    rw [hf] at hchain
    exact hchain.1

variable [DecidableEq κ] [DecidableEq α]

theorem Represents.next_removed {q : Queues κ α} {f : κ → List α} {k : κ} {a : α} {pre post : List α}
    (h : q.Represents f) (hf : f k = pre ++ a :: post) : (q.remove k a).cell (.next a) = post.head? := by
  have hnext := h.next hf
  have hnd := h.nodup k
  rw [hf] at hnd
  obtain ⟨-, hrest, hcross⟩ := List.nodup_append.mp hnd
  have hpost : a ∉ post := (List.nodup_cons.mp hrest).1
  have hloop : q.cell (.next a) ≠ some a := fun heq => by
    rw [hnext] at heq
    exact hpost (List.mem_of_mem_head? heq)
  have hchain := h.chain k
  rw [hf, chain_append] at hchain
  obtain ⟨m, hbefore, -, hprev, -⟩ := hchain
  have hne : Link.next a ≠ q.prev a := fun heq => by
    rw [hprev] at heq
    rcases hbefore.ends with hm | ⟨b, hb, hm⟩
    · rw [hm] at heq
      cases heq
    · rw [hm] at heq
      cases heq
      exact hcross a hb a List.mem_cons_self rfl
  rw [(remove_frame k a q hloop).1 _ hne]
  exact hnext

/-! ### Bodies that take out their own element

`lists` is what the pointers stand for while the invariant `Inv` holds.  `Good` is a condition on how far
the run has come: it holds of every state before one in which it holds. -/

/-- The body leaves the lists alone or takes its element out of the list of `k`; on an element of the lists
it does what `act` does. -/
structure OwnOnly (links : σ → Queues κ α) (lists : σ → κ → List α) (body act : α → σ → Except η σ)
    (Inv Good : σ → Prop) : Prop where
  represents : ∀ s, Inv s → (links s).Represents (lists s)
  agree : ∀ k a s, Inv s → a ∈ lists s k → body a s = act a s
  before : ∀ a s s', body a s = .ok s' ∨ act a s = .ok s' → Good s' → Good s
  effect : ∀ k a s s', Inv s → a ∈ lists s k → body a s = .ok s' → Good s' → Inv s'
    ∧ (links s' = links s ∧ lists s' = lists s
      ∨ links s' = (links s).remove k a ∧ lists s' = fun i => if i = k then (lists s i).erase a else lists s i)

section

variable {links : σ → Queues κ α} {lists : σ → κ → List α} {body act : α → σ → Except η σ}
  {Inv Good : σ → Prop} {s s' : σ} {k : κ}

theorem OwnOnly.run_before (h : OwnOnly links lists body act Inv Good) {as : List α} (hrun : run act as s = .ok s')
    (hgood : Good s') : Good s := by
  induction as generalizing s with
  | nil =>
    cases hrun
    exact hgood
  | cons a as ih =>
    obtain ⟨t, ht, hrun⟩ := bind_ok hrun
    exact h.before a s t (.inr ht) (ih hrun)

theorem OwnOnly.walk_before (h : OwnOnly links lists body act Inv Good) {fuel : Nat} {l : Link κ α}
    (hwalk : walk links body fuel l s = some (.ok s')) (hgood : Good s') : Good s := by
  induction fuel generalizing l s with
  | zero => cases hwalk
  | succ fuel ih =>
    rw [walk] at hwalk
    split at hwalk
    · cases hwalk
      exact hgood
    · rename_i a _
      split at hwalk
      · cases hwalk
      · rename_i t ht
        exact h.before a s t (.inl ht) (ih hwalk)

/- A walk that has come to the link `l`, with the elements of `as` still to come. -/
theorem OwnOnly.walk_from (h : OwnOnly links lists body act Inv Good) {pre as : List α} {l : Link κ α} {fuel : Nat}
    (hs : Inv s) (hlist : lists s k = pre ++ as) (hl : (links s).cell l = as.head?) (hfuel : as.length < fuel)
    (hgood : Good s') :
    (walk links body fuel l s = some (.ok s') ↔ run act as s = .ok s')
      ∧ (run act as s = .ok s' → Inv s' ∧ ∀ i, i ≠ k → lists s' i = lists s i) := by
  induction as generalizing pre l s fuel with
  | nil =>
    obtain ⟨fuel, rfl⟩ := Nat.exists_eq_succ_of_ne_zero (Nat.ne_of_gt hfuel)
    rw [walk, hl]
    refine ⟨by simp only [List.head?_nil, Option.some.injEq, run], fun hrun => ?_⟩
    cases hrun
    exact ⟨hs, fun _ _ => rfl⟩
  | cons a as ih =>
    obtain ⟨fuel, rfl⟩ := Nat.exists_eq_succ_of_ne_zero (Nat.ne_of_gt (Nat.zero_lt_of_lt hfuel))
    rw [walk, hl]
    simp only [List.head?_cons]
    have hmem : a ∈ lists s k := by
      rw [hlist]
      exact List.mem_append_right pre List.mem_cons_self
    have hagree := h.agree k a s hs hmem
    cases hbody : body a s with
    | error e =>
      have hrun : run act (a :: as) s = .error e := by
        rw [run, ← hagree, hbody]
        rfl
      rw [hrun]
      simp
    | ok t =>
      have hrun : run act (a :: as) s = run act as t := by
        rw [run, ← hagree, hbody]
        rfl
      rw [hrun]
      have hrep := h.represents s hs
      -- what the body did, once the rest of the run is known to be good
      have hcase : Good t → Inv t ∧ ∃ pre', lists t k = pre' ++ as ∧ (links t).cell (.next a) = as.head?
          ∧ ∀ i, i ≠ k → lists t i = lists s i := fun hgt => by
        obtain ⟨ht, ⟨hlinks, hlists⟩ | ⟨hlinks, hlists⟩⟩ := h.effect k a s t hs hmem hbody hgt
        · refine ⟨ht, pre ++ [a], ?_, ?_, fun i _ => by rw [hlists]⟩
          · rw [hlists, hlist, List.append_assoc]
            rfl
          · rw [hlinks]
            exact hrep.next hlist
        · refine ⟨ht, pre, ?_, ?_, fun i hi => by rw [hlists]; exact if_neg hi⟩
          · have hnd := hrep.nodup k
            rw [hlist] at hnd
            have hpre : a ∉ pre := fun hm =>
              (List.nodup_append.mp hnd).2.2 a hm a List.mem_cons_self rfl
            rw [hlists]
            simp only [if_true]
            rw [hlist, List.erase_append_right _ hpre, List.erase_cons_head]
          · rw [hlinks]
            exact hrep.next_removed hlist
      by_cases hgt : Good t
      · obtain ⟨ht, pre', hlist', hcell, hothers⟩ := hcase hgt
        obtain ⟨hiff, hafter⟩ := ih ht hlist' hcell (Nat.lt_of_succ_lt_succ hfuel)
        refine ⟨hiff, fun hrun => ?_⟩
        obtain ⟨hs', hsame⟩ := hafter hrun
        exact ⟨hs', fun i hi => (hsame i hi).trans (hothers i hi)⟩
      · have hno : run act as t ≠ .ok s' := fun hrun => hgt (h.run_before hrun hgood)
        exact ⟨⟨fun hwalk => absurd (h.walk_before hwalk hgood) hgt, fun hrun => absurd hrun hno⟩,
          fun hrun => absurd hrun hno⟩

/-- The walk over the list of `k` runs the body for the elements that are in the list at its start. -/
theorem OwnOnly.walk_iff (h : OwnOnly links lists body act Inv Good) {fuel : Nat} (hs : Inv s)
    (hfuel : (lists s k).length < fuel) (hgood : Good s') :
    (walk links body fuel (.first k) s = some (.ok s') ↔ run act (lists s k) s = .ok s')
      ∧ (run act (lists s k) s = .ok s' → Inv s' ∧ ∀ i, i ≠ k → lists s' i = lists s i) := by
  have hlist : lists s k = [] ++ lists s k := rfl
  exact h.walk_from hs hlist ((h.represents s hs).first k) hfuel hgood

theorem OwnOnly.walkAll_before (h : OwnOnly links lists body act Inv Good) {fuel : Nat} {ks : List κ}
    (hwalk : walkAll links body fuel ks s = some (.ok s')) (hgood : Good s') : Good s := by
  induction ks generalizing s with
  | nil =>
    cases hwalk
    exact hgood
  | cons k ks ih =>
    obtain ⟨t, ht, hwalk⟩ := walkAll_cons.mp hwalk
    exact h.walk_before ht (ih hwalk)

/-- The walk over the lists of `ks` runs the body for the elements that are in them at its start. -/
theorem OwnOnly.walkAll_iff (h : OwnOnly links lists body act Inv Good) {fuel : Nat} {ks : List κ} (hs : Inv s)
    (hks : ks.Nodup) (hfuel : ∀ k ∈ ks, (lists s k).length < fuel) (hgood : Good s') :
    (walkAll links body fuel ks s = some (.ok s') ↔ run act (ks.flatMap (lists s)) s = .ok s')
      ∧ (run act (ks.flatMap (lists s)) s = .ok s' → Inv s') := by
  induction ks generalizing s with
  | nil =>
    refine ⟨by simp only [walkAll, List.flatMap_nil, run, Option.some.injEq], fun hrun => ?_⟩
    cases hrun
    exact hs
  | cons k ks ih =>
    obtain ⟨hk, hks⟩ := List.nodup_cons.mp hks
    rw [walkAll_cons, List.flatMap_cons, run_append]
    -- the lists still to come are as they were at the start
    have hrest : ∀ t, run act (lists s k) s = .ok t → Good t →
        (walkAll links body fuel ks t = some (.ok s') ↔ run act (ks.flatMap (lists s)) t = .ok s')
          ∧ (run act (ks.flatMap (lists s)) t = .ok s' → Inv s') := fun t hrun hgt => by
      obtain ⟨ht, hsame⟩ := (h.walk_iff hs (hfuel k List.mem_cons_self) hgt).2 hrun
      have hlists : ∀ i ∈ ks, lists t i = lists s i := fun i hi => hsame i (ne_of_mem_of_not_mem hi hk)
      have hflat : ks.flatMap (lists s) = ks.flatMap (lists t) := by
        rw [List.flatMap_def, List.flatMap_def, List.map_congr_left fun i hi => (hlists i hi).symm]
      rw [hflat]
      refine ih ht hks fun i hi => ?_
      rw [hlists i hi]
      exact hfuel i (List.mem_cons_of_mem k hi)
    refine ⟨⟨?_, fun hrun => ?_⟩, fun hrun => ?_⟩
    · rintro ⟨t, hwalk, hall⟩
      have hgt := h.walkAll_before hall hgood
      have hrun := (h.walk_iff hs (hfuel k List.mem_cons_self) hgt).1.mp hwalk
      rw [hrun]
      exact (hrest t hrun hgt).1.mp hall
    · obtain ⟨t, ht, hrun⟩ := bind_ok hrun
      have hgt := h.run_before hrun hgood
      exact ⟨t, (h.walk_iff hs (hfuel k List.mem_cons_self) hgt).1.mpr ht, (hrest t ht hgt).1.mpr hrun⟩
    · obtain ⟨t, ht, hrun⟩ := bind_ok hrun
      exact (hrest t ht (h.run_before hrun hgood)).2 hrun

end

end

end Queues

end Xtls
