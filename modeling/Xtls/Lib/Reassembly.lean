import Mathlib.Data.List.Basic

/-!
# Pieces of a stream

A receiver gets pieces of a stream, each with the position of its first element.  If every piece starts at 0
or not behind the end of an earlier one, nothing is left out: what is before a piece was received before it.
If moreover no piece starts before the end of an earlier one, the pieces in a row are the stream.
-/

namespace Xtls

structure Piece (α : Type) where
  start : Nat
  data : List α

section

variable {α : Type} {l pre post : List (Piece α)} {p : Piece α} {i : Nat}

def Piece.stop (p : Piece α) : Nat := p.start + p.data.length

/- One of the pieces has the element at position `i`. -/
def Covered (l : List (Piece α)) (i : Nat) : Prop := ∃ p ∈ l, p.start ≤ i ∧ i < p.stop

def Gapless (l : List (Piece α)) : Prop :=
  ∀ pre p post, l = pre ++ p :: post → p.start = 0 ∨ ∃ q ∈ pre, p.start ≤ q.stop

/- No piece repeats what an earlier one has. -/
def Fresh (l : List (Piece α)) : Prop := l.Pairwise fun q p => q.stop ≤ p.start

instance (l : List (Piece α)) : Decidable (Fresh l) :=
  inferInstanceAs (Decidable (l.Pairwise fun q p => q.stop ≤ p.start))

theorem Covered.append (h : Covered pre i) (post : List (Piece α)) : Covered (pre ++ post) i := by
  obtain ⟨p, hp, hi⟩ := h
  exact ⟨p, List.mem_append_left post hp, hi⟩

theorem Gapless.covered (h : Gapless l) (heq : l = pre ++ p :: post) (hi : i < p.start) : Covered pre i := by
  -- the piece that `p` follows covers the positions from its own start on
  induction hn : pre.length using Nat.strongRecOn generalizing pre p post with
  | ind n ih =>
    rcases h pre p post heq with hzero | ⟨q, hq, hle⟩
    · omega
    · by_cases hqi : q.start ≤ i
      · exact ⟨q, hq, hqi, Nat.lt_of_lt_of_le hi hle⟩
      · obtain ⟨before, after, hpre⟩ := List.append_of_mem hq
        have hlen : before.length < n := by
          rw [← hn, hpre, List.length_append, List.length_cons]
          omega
        have hbefore : l = before ++ q :: (after ++ p :: post) := by
          rw [heq, hpre, List.append_assoc, List.cons_append]
        have hcovered := ih before.length hlen hbefore (Nat.lt_of_not_le hqi) rfl
        rw [hpre]
        exact hcovered.append _

theorem Gapless.tail {first : Piece α} (h : Gapless (first :: l)) (hfirst : first.stop = 0) : Gapless l := by
  intro pre p post heq
  rcases h (first :: pre) p post (congrArg (first :: ·) heq) with hzero | ⟨q, hq, hle⟩
  · exact .inl hzero
  · rcases List.mem_cons.mp hq with rfl | hq
    · exact .inl (Nat.le_zero.mp (hfirst ▸ hle))
    · exact .inr ⟨q, hq, hle⟩

/- The pieces so far are the first `n` elements, and none of them goes further. -/
structure Received (b : List α) (pre : List (Piece α)) : Prop where
  whole : pre.flatMap Piece.data = b.take (pre.flatMap Piece.data).length
  reached : ∀ q ∈ pre, q.stop ≤ (pre.flatMap Piece.data).length
  last : (pre.flatMap Piece.data).length = 0 ∨ ∃ q ∈ pre, q.stop = (pre.flatMap Piece.data).length

theorem Gapless.concat {b : List α} (h : Gapless l) (hfresh : Fresh l)
    (hb : ∀ p ∈ l, p.data = (b.drop p.start).take p.data.length) :
    l.flatMap Piece.data = b.take (l.flatMap Piece.data).length := by
  have hfrom : ∀ post pre, l = pre ++ post → Received b pre → Received b l := by
    intro post
    induction post with
    | nil =>
      intro pre heq hpre
      rw [heq, List.append_nil]
      exact hpre
    | cons p post ih =>
      intro pre heq hpre
      refine ih (pre ++ [p]) (by rw [heq, List.append_assoc, List.cons_append, List.nil_append]) ?_
      have hlen : ((pre ++ [p]).flatMap Piece.data).length = (pre.flatMap Piece.data).length + p.data.length := by
        simp only [List.flatMap_append, List.flatMap_cons, List.flatMap_nil, List.append_nil, List.length_append]
      -- the piece starts right where the others end
      have hstart : p.start = (pre.flatMap Piece.data).length := by
        refine Nat.le_antisymm ?_ ?_
        · rcases h pre p post heq with hzero | ⟨q, hq, hle⟩
          · omega
          · exact Nat.le_trans hle (hpre.reached q hq)
        · rcases hpre.last with hzero | ⟨q, hq, hstop⟩
          · omega
          · rw [← hstop]
            exact (List.pairwise_append.mp (heq ▸ hfresh)).2.2 q hq p List.mem_cons_self
      have hstop : p.stop = ((pre ++ [p]).flatMap Piece.data).length := by rw [hlen, Piece.stop, hstart]
      refine ⟨?_, fun q hq => ?_, .inr ⟨p, List.mem_append_right _ List.mem_cons_self, hstop⟩⟩
      · have hp := hb p (heq ▸ List.mem_append_right _ List.mem_cons_self)
        rw [hlen, List.take_add, ← hpre.whole, ← hstart, ← hp]
        simp only [List.flatMap_append, List.flatMap_cons, List.flatMap_nil, List.append_nil]
      · rw [hlen]
        rcases List.mem_append.mp hq with hq | hq
        · exact Nat.le_trans (hpre.reached q hq) (Nat.le_add_right _ _)
        · rw [List.mem_singleton.mp hq]
          exact Nat.le_of_eq (hstop.trans hlen)
  exact (hfrom l [] rfl ⟨rfl, fun _ hq => absurd hq List.not_mem_nil, .inl rfl⟩).whole

end

end Xtls
