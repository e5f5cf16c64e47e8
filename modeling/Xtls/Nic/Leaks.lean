import Xtls.Nic.Ledger
import Xtls.Nic.Registry

/-!
# What a removed session leaves behind

`clear_ssl_session` returns the records of `recv_q` and of the pending operation (`tcp.c` 629-740).  The
record under reassembly, and a record that was dropped on the way, are returned by nobody.
-/

namespace Xtls.Nic

/-- No record is given up: it decrypts and comes to something, a session it ends is not read any
further, and no session is cleared with a record half received. -/
def Event.NoLoss (env : Env) (e : Event) : Prop := e.Decrypts env ∧ e.Accounted env ∧ e.EndsLast env

instance (env : Env) : DecidablePred (Event.Accounted env)
  | .read conn r _ room => inferInstanceAs (Decidable (retransmits conn.sess r = true ∨
      (usable env conn.sess r = true ∧ refuses env conn.sess r = false
        ∧ (byteAt r.data 0 = ContentType.handshake.code → room = true))))
  | .clear conn =>
    inferInstanceAs (Decidable (∀ r, conn.sess.currentReadRecord = some r → r.data.length = r.length))
  | .insert _ | .remove .. | .complete .. | .verifyData .. => .isTrue trivial

instance (env : Env) : DecidablePred (Event.NoLoss env) := fun e => by
  unfold Event.NoLoss
  infer_instance

/-- Each record is in the pool or with a connection. -/
def Complete (n : Nat) (s : Sys) : Prop := Covers (· < 3 * n) s.ctx.recordPool s.held

section

variable {env : Env} {n : Nat} {s s' : St} {others : ConnId → Conn}

theorem Flow.complete (h : Flow env ⟨[], true, s⟩ ⟨[], true, s'⟩) (hop : OpFacts (s.among others))
    (hacc : ∀ e ∈ s'.ctx.trace, e.Accounted env) (hs : Complete n (s.among others)) :
    Complete n (s'.among others) := by
  obtain ⟨lost, hp, hnone⟩ := h.slots
  have hid : s'.conn.id = s.conn.id := h.id
  have hself : (s'.among others).conns s.conn.id = s'.conn := hid ▸ s'.among_self
  have hmove : (s'.ctx.recordPool ++ (s'.among others).held s.conn.id).Perm
      (s.ctx.recordPool ++ (s.among others).held s.conn.id) := by
    rw [hnone hacc, List.append_nil] at hp
    rw [Sys.held, Sys.held, hself, s.among_self]
    exact hp
  exact Covers.move hs hmove fun c hc => h.held hop hc

theorem Flows.complete (h : Flows env s s') :
    Carries (Event.NoLoss env) (fun s => (OpFacts s ∧ Ledger s) ∧ Complete n s) s s' := by
  refine ⟨h.op.grows, fun hgood others ⟨⟨hop, hs⟩, hall⟩ => ?_⟩
  have hdec : ∀ e ∈ s'.ctx.trace, e.Decrypts env := fun e he => (hgood e he).1
  obtain ⟨hid, hsafe⟩ := h.carries.carries hdec others ⟨hop, hs⟩
  refine ⟨hid, hsafe, ?_⟩
  have hwait := hs.waits s.conn.id
  have hunf := hs.unfilled s.conn.id
  rw [s.among_self] at hwait hunf
  exact (h.flow hdec others hop hwait hunf).complete hop (fun e he => (hgood e he).2.1) hall

end

section

variable {env : Env} {n : Nat} {s s' : Sys} {c : ConnId}

theorem Complete.same (h : Complete n s) (hs : SameRecords s s') : Complete n s' := by
  rw [Complete, hs.held, hs.pool]
  exact h

theorem kept_complete (env : Env) (n : Nat) :
    Kept env (Event.NoLoss env) fun s => (OpFacts s ∧ Ledger s) ∧ Complete n s where
  ids _ h := h.1.1.ids
  quiet _ _ hq h := ⟨(kept_ledger env).quiet _ _ hq h.1, h.2.same hq.sameRecords⟩
  inserted _ _ _ hi h := ⟨(kept_ledger env).inserted _ _ _ hi h.1, h.2.same hi.sameRecords⟩
  closed := (closed_flows env).map (fun _ _ h => h.complete) .trans
  removed _ _ hr := (Flows.removed hr).complete
  submits _ _ _ hs h :=
    ⟨(kept_ledger env).submits _ _ _ hs h.1, h.2.same (submitted_sameRecords h.1.1 hs)⟩
  completes _ _ _ _ hs h :=
    ⟨(kept_ledger env).completes _ _ _ _ hs h.1, h.2.same (completed_sameRecords hs)⟩

theorem initial_complete (n ringCnt : Nat) : Complete n (initial n ringCnt) := by
  intro x
  show x < 3 * n ↔ x ∈ List.range (3 * n) ∨ ∃ _, x ∈ []
  simp

theorem Left.held (h : Left s c) : s.held c = [] := by
  obtain ⟨⟨-, -, -, -, hcur, hq⟩, hpend⟩ := h.idle
  rw [Sys.held, heldWith, pendingRecord, hcur, hq, hpend]
  rfl

theorem Registry.mem_active (h : Registry n s) {b : Nat} (hc : c ∈ s.ctx.htTable b) : c ∈ s.active := by
  refine List.mem_flatMap.mpr ⟨b, ?_, hc⟩
  rw [(h.placed b c hc).1]
  exact List.mem_range.mpr (calculateHash_lt _)

end

/-- As long as no record is given up, only sessions in the table hold records, each record is in
`record_pool` or held by one of them, and a worker without a session has all of its records back. -/
theorem records_all_returned (env : Env) (n ringCnt : Nat) (inputs : List Input) (s : Sys)
    (hrun : run (step env) inputs (initial n ringCnt) = .ok s)
    (hgood : ∀ e ∈ s.ctx.trace, e.NoLoss env) :
    (∀ c, c ∉ s.active → s.held c = [])
      ∧ (∀ x, x < 3 * n → x ∈ s.ctx.recordPool ∨ ∃ c ∈ s.active, x ∈ s.held c)
      ∧ (s.active = [] → s.ctx.freeRecordCnt = 3 * n) := by
  have hreg : Registry n s := ((run_keeps step_registry inputs _ s hrun).keeps
    (fun e he => (hgood e he).2.2) ⟨initial_opFacts n ringCnt, initial_registry n ringCnt⟩).2
  obtain ⟨⟨-, hledger⟩, hall⟩ := (kept_complete env n).holds hrun hgood
    ⟨⟨initial_opFacts n ringCnt, initial_ledger n ringCnt⟩, initial_complete n ringCnt⟩
  have hheld : ∀ c, c ∉ s.active → s.held c = [] := fun c hc =>
    (hreg.left c fun b hb => hc (hreg.mem_active hb)).held
  refine ⟨hheld, fun x hx => ?_, fun hnone => ?_⟩
  · refine ((hall x).mp hx).imp_right fun ⟨c, hc⟩ => ⟨c, ?_, hc⟩
    by_contra hno
    rw [hheld c hno] at hc
    exact absurd hc List.not_mem_nil
  · have hperm : (List.flatMap s.held [] ++ s.ctx.recordPool).Perm (List.range (3 * n)) := by
      refine hledger.shares.perm hall List.nodup_nil (fun c _ => hheld c ?_) List.nodup_range
        fun x => List.mem_range
      rw [hnone]
      exact List.not_mem_nil
    have hlen := hperm.length_eq
    rw [List.flatMap_nil, List.nil_append, List.length_range] at hlen
    rw [hledger.cnt, hlen]
    rfl

theorem records_all_returned_alert :
    ∃ s, run (step sampleEnv) [.packet 0 sampleSyn, .packet 0 (sampleSegment 101 5 sampleAlert (by decide))]
        (initial 2 8) = .ok s
      ∧ s.active = [] ∧ s.ctx.freeRecordCnt = 6 := by
  obtain ⟨s, hs, hg, hnone⟩ := endsIn_ok
    (fun s : Sys => (∀ e ∈ s.ctx.trace, e.NoLoss sampleEnv) ∧ s.active = [])
    (run (step sampleEnv) [.packet 0 sampleSyn, .packet 0 (sampleSegment 101 5 sampleAlert (by decide))]
      (initial 2 8)) (by decide +kernel)
  exact ⟨s, hs, hnone, (records_all_returned sampleEnv 2 8 _ s hs hg).2.2 hnone⟩

def sampleWrongFinished : Bytes :=
  [0x17, 3, 3, 0, 0x35, 0x14, 0, 0, 0x30] ++ List.replicate 48 1 ++ [0x16]

/- The session is aborted, and the record with the Finished is not returned. -/
theorem refusedFinished_leaks :
    ∃ s, run (step sampleEnv)
        [.packet 0 sampleSyn, .packet 0 (sampleSegment 101 5 sampleWrongFinished (by decide))]
        (initial 2 8) = .ok s
      ∧ s.active = [] ∧ s.ctx.freeRecordCnt = 5 := by
  obtain ⟨s, hs, h⟩ := endsIn_ok (fun s : Sys => s.active = [] ∧ s.ctx.freeRecordCnt = 5)
    (run (step sampleEnv)
      [.packet 0 sampleSyn, .packet 0 (sampleSegment 101 5 sampleWrongFinished (by decide))]
      (initial 2 8)) (by decide +kernel)
  exact ⟨s, hs, h⟩

end Xtls.Nic
