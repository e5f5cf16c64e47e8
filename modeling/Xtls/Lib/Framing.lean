import Xtls.Lib.Octets

/-!
# Frames in a byte stream

A format of frames whose first bytes, the header, tell the length of the frame.  A stream splits in one way
into complete frames and a rest that holds no complete frame, and the pieces of a stream can be split one
after the other when each rest is put in front of the next piece.
-/

namespace Xtls

structure Framing where
  header : Nat
  size : Bytes → Nat
  header_pos : 0 < header
  header_le : ∀ b, header ≤ size b
  size_append : ∀ b c, header ≤ b.length → size (b ++ c) = size b

namespace Framing

variable (F : Framing)

def IsFrame (b : Bytes) : Prop := F.header ≤ b.length ∧ b.length = F.size b

/-- No frame starts at the beginning and is complete. -/
def Incomplete (b : Bytes) : Prop := b.length < F.header ∨ b.length < F.size b

structure Splits (stream : Bytes) (frames : List Bytes) (rest : Bytes) : Prop where
  whole : stream = frames.flatten ++ rest
  frames : ∀ f ∈ frames, F.IsFrame f
  rest : F.Incomplete rest

variable {F} {a b f stream rest rest' : Bytes} {frames frames' : List Bytes}

theorem Splits.none (h : F.Incomplete rest) : F.Splits rest [] rest := ⟨rfl, nofun, h⟩

theorem Splits.cons (hf : F.IsFrame f) (h : F.Splits stream frames rest) :
    F.Splits (f ++ stream) (f :: frames) rest := by
  refine ⟨?_, ?_, h.rest⟩
  · rw [h.whole, List.flatten_cons, List.append_assoc]
  · intro g hg
    rcases List.mem_cons.mp hg with rfl | hg
    · exact hf
    · exact h.frames g hg

theorem Splits.append (h : F.Splits a frames rest) (h' : F.Splits (rest ++ b) frames' rest') :
    F.Splits (a ++ b) (frames ++ frames') rest' := by
  refine ⟨?_, ?_, h'.rest⟩
  · rw [h.whole, List.append_assoc, h'.whole, List.flatten_append, List.append_assoc]
  · intro g hg
    rcases List.mem_append.mp hg with hg | hg
    · exact h.frames g hg
    · exact h'.frames g hg

theorem IsFrame.not_incomplete (hf : F.IsFrame f) (b : Bytes) : ¬ F.Incomplete (f ++ b) := by
  have hsize := F.size_append f b hf.1
  have hlen := hf.2
  have hheader := hf.1
  rintro (h | h)
  · rw [List.length_append] at h
    omega
  · rw [List.length_append, hsize] at h
    omega

theorem IsFrame.eq_of_append (hf : F.IsFrame f) {g : Bytes} (hg : F.IsFrame g) (h : f ++ a = g ++ b) :
    f = g ∧ a = b := by
  have hlen : f.length = g.length := by
    rw [hf.2, hg.2, ← F.size_append f a hf.1, h, F.size_append g b hg.1]
  exact List.append_inj h hlen

theorem Splits.unique (h : F.Splits stream frames rest) (h' : F.Splits stream frames' rest') :
    frames = frames' ∧ rest = rest' := by
  induction frames generalizing stream frames' with
  | nil =>
    have hrest : stream = rest := h.whole
    cases frames' with
    | nil =>
      have hrest' : stream = rest' := h'.whole
      exact ⟨rfl, hrest.symm.trans hrest'⟩
    | cons g gs =>
      have hg := h'.frames g List.mem_cons_self
      have hwhole := h'.whole
      rw [hrest, List.flatten_cons, List.append_assoc] at hwhole
      exact absurd h.rest (hwhole ▸ hg.not_incomplete _)
  | cons f fs ih =>
    have hf := h.frames f List.mem_cons_self
    have hwhole := h.whole
    rw [List.flatten_cons, List.append_assoc] at hwhole
    cases frames' with
    | nil =>
      have hrest' : stream = rest' := h'.whole
      exact absurd h'.rest (hrest' ▸ hwhole ▸ hf.not_incomplete _)
    | cons g gs =>
      have hg := h'.frames g List.mem_cons_self
      have hwhole' := h'.whole
      rw [List.flatten_cons, List.append_assoc] at hwhole'
      obtain ⟨rfl, htail⟩ := hf.eq_of_append hg (hwhole.symm.trans hwhole')
      have hs : F.Splits (fs.flatten ++ rest) fs rest :=
        ⟨rfl, fun x hx => h.frames x (List.mem_cons_of_mem f hx), h.rest⟩
      have hs' : F.Splits (fs.flatten ++ rest) gs rest' :=
        ⟨htail, fun x hx => h'.frames x (List.mem_cons_of_mem f hx), h'.rest⟩
      obtain ⟨rfl, hrest⟩ := ih hs hs'
      exact ⟨rfl, hrest⟩

end Framing

end Xtls
