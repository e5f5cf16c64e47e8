import Xtls.Nic.Assembly
import Xtls.Nic.Lifetime
import Xtls.Lib.Framing

/-!
# The records of a byte stream

`process_new_record` (`ssl.c` 748-851) is called with the payload of one packet after the other and hands on
the records that are complete.  A rest of less than five bytes behind a record is left by `break` before a
record is taken for it, so that these bytes are lost and the next packet is read as if it started a record.
-/

namespace Xtls.Nic

/-- TLS records: five bytes of header, of which the last two are the length of what follows. -/
def tlsRecords : Framing where
  header := recordHeaderSize
  size := fun b => (be16 b 3).toNat + recordHeaderSize
  header_pos := by decide
  header_le := fun _ => Nat.le_add_left ..
  size_append := fun b c h => by
    have hlen : 5 ≤ b.length := h
    unfold be16
    rw [byteAt_append_left _ _ _ (by omega), byteAt_append_left _ _ _ (by omega)]

def kept (s : St) : Bytes := (s.conn.sess.currentReadRecord.map Record.data).getD []

/-- The record that a round of the loop completes. -/
def roundOutput (ρ : Bytes × St) : List Bytes :=
  match currentRecord ρ.1 ρ.2 with
  | .ok (r, _) => if (filled r ρ.1).data.length = r.length then [(filled r ρ.1).data] else []
  | .error _ => []

/-- The records that a call hands on, to `process_read_record` or to `recv_q`. -/
def handedOn (env : Env) (fuel : Nat) (pkt : Bytes) (s : St) : List Bytes :=
  (rounds env fuel pkt s).flatMap roundOutput

/- The current record starts with its header and is not complete. -/
def Underway (s : St) : Prop :=
  ∀ r, s.conn.sess.currentReadRecord = some r → Opened r ∧ r.data.length < r.length

section

variable {env : Env} {s s' : St} {pkt pkt' : Bytes} {r : Record}

theorem kept_some (h : s.conn.sess.currentReadRecord = some r) : kept s = r.data := by
  rw [kept, h]
  rfl

theorem kept_none (h : s.conn.sess.currentReadRecord = none) : kept s = [] := by
  rw [kept, h]
  rfl

theorem Opened.isFrame (h : Opened r) (hfull : r.data.length = r.length) : tlsRecords.IsFrame r.data :=
  ⟨h.header, hfull.trans h.length⟩

/-- The records of connection `c` that became complete in `new`, the newest event first. -/
def completedIn (c : ConnId) (new : List Event) : List Bytes :=
  (new.reverse.filterMap (Event.completed c)).map Record.data

structure CompletesNone (s s' : St) : Prop where
  id : s'.conn.id = s.conn.id
  omits : Omits (fun e => (e.completed s.conn.id).isSome) s.ctx s'.ctx

theorem completedIn_append (c : ConnId) (new old : List Event) :
    completedIn c (new ++ old) = completedIn c old ++ completedIn c new := by
  rw [completedIn, List.reverse_append, List.filterMap_append, List.map_append, completedIn, completedIn]

theorem completedIn_none {c : ConnId} {new : List Event} (h : ∀ e ∈ new, (e.completed c).isSome = false) :
    completedIn c new = [] := by
  rw [completedIn, List.filterMap_eq_nil_iff.mpr, List.map_nil]
  intro e he
  have hno := h e (List.mem_reverse.mp he)
  cases hc : e.completed c with
  | none => rfl
  | some r =>
    rw [hc] at hno
    cases hno

theorem outcomeRule_completesNone : OutcomeRule CompletesNone where
  refl _ := ⟨rfl, .of_eq rfl⟩
  trans h h' := ⟨h'.id.trans h.id, h.omits.trans (h.id ▸ h'.omits)⟩
  frame _ _ hf := ⟨hf.id, .of_eq hf.trace⟩
  hello _ _ _ _ _ _ _ _ _ hsub := ⟨hsub.id, .of_eq hsub.trace⟩
  spec _ _ := ⟨rfl, .of_eq rfl⟩
  finish _ _ := ⟨rfl, .of_eq rfl⟩
  removed _ _ hr := by
    refine ⟨hr.id, [_, _], hr.trace, fun e he => ?_⟩
    rcases List.mem_pair.mp he with rfl | rfl <;> rfl

/- The record that is complete goes on record; what is done with it then completes no other one. -/
theorem takeRecord_completes {rest : Nat} (h : takeRecord env rest r (completing r s) = .ok s') :
    s'.conn.id = s.conn.id ∧ ∃ new, s'.ctx.trace = new ++ s.ctx.trace ∧ completedIn s.conn.id new = [r.data] := by
  have hafter : CompletesNone (completing r s) s' := by
    rcases takeRecord_cases h with ⟨-, rfl⟩ | ⟨hw, ret, hread⟩
    · exact ⟨rfl, .of_eq rfl⟩
    · have hcall : CompletesNone (completing r s) (reading rest r (completing r s)) := ⟨rfl, .event rfl rfl⟩
      exact outcomeRule_completesNone.trans hcall
        (outcomeRule_completesNone.outcome hw (processReadRecord_outcome hread hw))
  obtain ⟨hid, new, htrace, hnew⟩ := hafter
  have hnone : completedIn s.conn.id new = [] := completedIn_none hnew
  refine ⟨hid, new ++ [.complete s.conn.id r], by rw [htrace, List.append_assoc]; rfl, ?_⟩
  rw [completedIn_append, hnone, List.append_nil]
  simp [completedIn, Event.completed]

theorem round_completes (h : newRecordRound env pkt s = .ok (pkt', s')) : s'.conn.id = s.conn.id
    ∧ ∃ new, s'.ctx.trace = new ++ s.ctx.trace ∧ completedIn s.conn.id new = roundOutput (pkt, s) := by
  obtain ⟨r, s1, hcur, -, hcases⟩ := newRecordRound_cases h
  have hfirst : s1.conn.id = s.conn.id ∧ s1.ctx.trace = s.ctx.trace := by
    rcases currentRecord_cases hcur with ⟨-, rfl⟩ | ⟨-, -, hf, -⟩
    · exact ⟨rfl, rfl⟩
    · exact ⟨hf.id, hf.trace⟩
  rcases hcases with ⟨hpart, rfl⟩ | ⟨hfull, s2, hs2, rfl⟩
  · refine ⟨hfirst.1, [], hfirst.2, ?_⟩
    simp only [roundOutput, hcur, hpart, if_false]
    rfl
  · obtain ⟨hid, new, htrace, hnew⟩ := takeRecord_completes hs2
    have hid : s2.conn.id = s1.conn.id := hid
    refine ⟨hid.trans hfirst.1, new, htrace.trans (congrArg _ hfirst.2), ?_⟩
    simp only [roundOutput, hcur, hfull, if_true]
    rw [← hfirst.1]
    exact hnew

/-- The records that a call hands on are those that it puts on record as complete. -/
theorem loop_completes (fuel : Nat) (h : processNewRecordLoop env fuel pkt s = .ok s') : s'.conn.id = s.conn.id
    ∧ ∃ new, s'.ctx.trace = new ++ s.ctx.trace ∧ completedIn s.conn.id new = handedOn env fuel pkt s := by
  induction fuel generalizing pkt s with
  | zero => cases h
  | succ fuel ih =>
    unfold processNewRecordLoop at h
    rw [handedOn, rounds]
    split at h
    · rename_i hnil
      cases h
      exact ⟨rfl, [], rfl, by rw [if_pos hnil]; rfl⟩
    · rename_i hne
      rw [if_neg hne]
      split at h
      · rename_i hshort
        cases h
        exact ⟨rfl, [], rfl, by rw [if_pos hshort]; rfl⟩
      · rename_i hshort
        obtain ⟨⟨pkt1, s1⟩, hround, h⟩ := bind_ok h
        obtain ⟨hid1, new1, htrace1, hnew1⟩ := round_completes hround
        obtain ⟨hid, new, htrace, hnew⟩ := ih h
        refine ⟨hid.trans hid1, new ++ new1, by rw [htrace, htrace1, List.append_assoc], ?_⟩
        rw [completedIn_append, hnew1, ← hid1, hnew, if_neg hshort, hround, List.flatMap_cons, handedOn]

/-! ### One packet after the other -/

theorem Underway.apart (h : Underway s) : kept s = [] ∨ recordHeaderSize ≤ (kept s).length := by
  cases hcur : s.conn.sess.currentReadRecord with
  | none => exact .inl (kept_none hcur)
  | some r =>
    rw [kept_some hcur]
    exact .inr (h r hcur).1.header

end

end Xtls.Nic
