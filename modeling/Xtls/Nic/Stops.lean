import Xtls.Nic.Course
import Xtls.Nic.Halts

/-!
# Why a step ends the process

In a state that a run reaches `send_handshake` does not fail, because the counters of the server flight
agree.  The other two reasons are met by one kind of input each (`step_throws`).
-/

namespace Xtls.Nic

section

variable {env : Env} {s s' : St} {r : Record} {f : St → Except Halt St} {others : ConnId → Conn}

theorem sealRecord_throws {type : ContentType} {frag : Bytes}
    (h : s.conn.sess.writeSp.bulkCipherAlgorithm = .noCipher
      ∨ s.conn.sess.serverWriteIvSeqNum = r.seqNum ∧ frag ≠ []) :
    Throws Halt.Common (sealRecord env r type frag s) := by
  refine .ite (fun _ => .ok _) fun hw => .ite (fun _ => .error trivial) fun _ => ?_
  obtain ⟨hseq, hfrag⟩ := h.resolve_left hw
  refine .bind (.bind (newSslCryptoOp_throws s) fun _ _ => ?_) fun a ha => ?_
  · dsimp only
    split <;> exact .ok _
  · -- `encrypt_record` has returned a record
    obtain ⟨⟨o, t⟩, ho, ha⟩ := bind_ok ha
    obtain ⟨pool, -, rfl⟩ := newSslCryptoOp_cases ho
    simp only [St.mapCtx_conn, hseq, hfrag, ne_eq, not_true_eq_false, if_false] at ha
    cases ha
    exact .ok _

theorem IsMessage.throws (hf : IsMessage env f)
    (h : s.stage.clear = true ∨ s.stage.serverWriteIvSeqNum = s.stage.sendSeqNum) :
    Throws Halt.Common (f s) := by
  obtain ⟨type, msgType, body, hf⟩ := hf
  rw [hf]
  refine .bind (newRecord_throws _ s) fun a ha => ?_
  unfold newSendRecord newRecord at ha
  split at ha
  · cases ha
  · cases ha
    refine .bind (storeHandshake_throws _ _ _) fun t ht => .bind (sealRecord_throws ?_) fun _ _ =>
      .bind (bounded_throws _ _) fun _ _ => .ok _
    have hsess : t.conn.sess.writeSp = s.conn.sess.writeSp
        ∧ t.conn.sess.serverWriteIvSeqNum = s.conn.sess.serverWriteIvSeqNum := by
      rcases storeHandshake_cases ht with ⟨-, rfl⟩ | ⟨-, rfl⟩ <;> exact ⟨rfl, rfl⟩
    rw [hsess.1, hsess.2]
    refine h.imp of_decide_eq_true fun h => ⟨h, ?_⟩
    split <;> exact nofun

theorem messages_throws {g : St → Except Halt St} {k : HandshakeType} {rest : St → Except Halt St}
    (hf : IsMessage env f) (hg : IsMessage env g)
    (h1 : s.stage.clear = true ∨ s.stage.serverWriteIvSeqNum = s.stage.sendSeqNum)
    (hrest : ∀ t, Throws Halt.Common (rest t)) :
    Throws Halt.Common (do
      let t ← f s
      let t ← g (setHandshakeState k t)
      rest t) := by
  refine .bind (hf.throws h1) fun t ht => .bind (hg.throws ?_) fun _ _ => hrest _
  have hstage : (setHandshakeState k t).stage = { s.stage.sends with handshakeState := k } := by
    rw [← (hf.stage ht).1]
    rfl
  rw [hstage]
  cases hc : s.stage.clear with
  | true =>
    left
    rw [s.stage.sends_eq]
    exact hc
  | false =>
    right
    obtain ⟨hsend, hiv⟩ := s.stage.sends_counters
    show s.stage.sends.serverWriteIvSeqNum = s.stage.sends.sendSeqNum
    rw [hsend, hiv, hc]
    rfl

theorem sendRemainServerRecords_throws (env : Env) (hv : s.stage.Sound) :
    Throws Halt.Common (sendRemainServerRecords env s) := by
  have hcounted := hv.counted
  unfold Stage.Counted at hcounted
  refine .ite (fun hst => ?_) fun _ => .ite (fun hst => ?_) fun _ =>
    .ite (fun _ => .bind (sendPendingRecords_throws s) fun _ _ => .ok _) fun _ => .ok _
  · have hstage : s.stage.handshakeState = .serverHello := hst.1
    simp only [hstage] at hcounted
    refine messages_throws ⟨_, _, fun _ => put16 0, fun _ => rfl⟩
      ⟨_, _, fun _ => certificateBody env, fun _ => rfl⟩ (.inr (hcounted.2.trans hcounted.1.symm))
      fun t => .bind (requestPka_throws _ _) fun _ _ => .ok _
  · have hstage : s.stage.handshakeState = .certificate := hst.1
    simp only [hstage] at hcounted
    exact messages_throws ⟨_, _, fun t => certificateVerifyBody t.conn.sess, fun _ => rfl⟩
      ⟨_, _, fun t => finishedMac env.crypto t.conn.sess.tls13Ctx.serverSecret t.conn.sess.handshakeMsgs,
        fun _ => rfl⟩ (.inr hcounted.1) fun _ => .ok _

theorem answerClientHello_throws {ch : ClientHello}
    (hclear : s.conn.sess.writeSp.bulkCipherAlgorithm = .noCipher) :
    Throws Halt.Common (answerClientHello env r ch s) := by
  unfold answerClientHello
  split
  · exact .error trivial
  · rename_i off _
    have hhello : IsMessage env (sendServerHello env) := ⟨_, _, serverHelloBody, fun _ => rfl⟩
    have hsent : (setPendingSp r ch (slice r.pf off x25519KeyLen) s).stage.clear = true :=
      decide_eq_true hclear
    exact .bind (hhello.throws (.inl hsent)) fun _ _ => .bind (requestPka_throws _ _) fun _ _ => .ok _

def Halt.OfResult (e : Halt) : Prop := e.Common ∨ e = .unsupportedPkaState

theorem getProcessedCrypto_throws (env : Env) (hv : s.stage.Sound) :
    Throws Halt.OfResult (getProcessedCrypto env s) := by
  refine .ite (fun _ => .ok _) fun _ => ?_
  split
  · exact .error (.inl trivial)
  · split
    · rename_i hst
      have hcounted := hv.counted
      simp only [Stage.Counted, St.stage, stageOf, hst, decide_eq_true_eq] at hcounted
      dsimp only
      split
      · exact .error (.inl trivial)
      · rename_i r _
        refine .bind (Throws.mono ?_ fun _ => .inl) fun _ _ => .ite (fun _ => .ok _) fun _ => .ok _
        by_cases hh : r.plainText.recordType = some .handshake
            ∧ r.fragment.msgType = HandshakeType.clientHello.code
        · unfold handleReadRecord handleHandshake
          rw [hh.1]
          refine .bind (storeHandshake_throws _ _ _) fun t ht => ?_
          have hw : t.conn.sess.writeSp = s.conn.sess.writeSp := by
            rcases storeHandshake_cases ht with ⟨-, rfl⟩ | ⟨-, rfl⟩ <;> rfl
          split
          · split
            · exact .ok _
            · exact .bind (answerClientHello_throws (by rw [hw]; exact hcounted.1)) fun _ _ => .ok _
          · exact .error trivial
        · exact handleReadRecord_throws _ hh
    · exact .ok _
    · exact .ok _
    · exact .error (.inr rfl)

theorem serveConnection_throws (env : Env) (hp : OpFacts (s.among others) ∧ Placed (s.among others))
    (hv : s.stage.Sound) (hl : Listed s.ctx s.conn.id) : Throws Halt.OfResult (serveConnection env s) := by
  have hcommon : ∀ e : Halt, e.Common → e.OfResult := fun _ => .inl
  rw [serveConnection_eq]
  refine .bind ((processSessionReadLoop_throws env _ s).mono hcommon) fun s1 h1 => ?_
  have hread := processSessionRead_conducts h1
  have hv1 : s1.stage.Sound := Stage.path_sound (hread.lived others hp hv (.inl hl)).path hv
  refine .bind (.bind (getProcessedCrypto_throws env hv1) fun _ _ => (removeHws_throws _).mono hcommon)
    fun s2 h2 => (sendRemainServerRecords_throws env ?_).mono hcommon
  have hlived := (hread.trans (processResults_conducts h2)).lived others hp hv (.inl hl)
  exact Stage.path_sound (hlived.toGoes.trans (forwardAppData_goes s2)).path hv

end

/-! ### The whole worker -/

/-- The reasons for which input `x` can end the process. -/
inductive StopsFor (x : Input) (s : Sys) : Halt → Prop
  | common {e : Halt} (h : e.Common) : StopsFor x s e
  | result {c : ConnId} (input : x = .serve c) (mem : Listed s.ctx c) : StopsFor x s .unsupportedPkaState
  | session {port : UInt16} {p : Packet} (input : x = .packet port p)
      (syn : validatePacketType port p = some .tcpSyn) (new : searchTcpConnection p s = .ok none)
      (empty : s.ctx.freeSessionQ = []) : StopsFor x s .notEnoughSession

section

variable {env : Env} {s s' : Sys} {c : ConnId} {p : Packet} {port : UInt16}

theorem insertTcpConnection_throws : Throws (fun e => e.Common ∨ e = .notEnoughSession
    ∧ s.ctx.freeSessionQ = []) (insertTcpConnection env port p s) := by
  unfold insertTcpConnection
  split
  · rename_i hq
    exact .error (.inr ⟨rfl, hq⟩)
  · exact .ite (fun _ => .error (.inl trivial)) fun _ => .ok _

theorem processSynPacket_throws (hsyn : validatePacketType port p = some .tcpSyn) :
    Throws (StopsFor (.packet port p) s) (processSynPacket env port p s) := by
  have hcommon : ∀ e : Halt, e.Common → StopsFor (.packet port p) s e := fun _ => .common
  refine .bind ((searchTcpConnection_throws p s).mono hcommon) fun found hfound => ?_
  cases found with
  | none =>
    refine .bind (insertTcpConnection_throws.mono fun e he => ?_) fun _ _ => .ok _
    rcases he with he | ⟨rfl, hq⟩
    · exact .common he
    · exact .session rfl hsyn hfound hq
  | some c =>
    dsimp only
    split
    · exact .ok _
    · refine .bind (.bind ((removeSession_throws _).mono hcommon) fun _ _ => .ok _) fun u hu => ?_
      obtain ⟨t, ht, rfl⟩ := Sys.on_ok hu
      refine .bind (insertTcpConnection_throws.mono fun e he => ?_) fun _ _ => .ok _
      rcases he with he | ⟨-, hq⟩
      · exact .common he
      · -- the connection that was removed is in the queue
        have hfree : t.ctx.freeSessionQ = [] := hq
        rw [(removeSession_removed ht).freeQ] at hfree
        exact absurd hfree (by simp)

theorem step_throws (env : Env) (hs : s.Conducted) (x : Input) : Throws (StopsFor x s) (step env x s) := by
  have hcommon : ∀ e : Halt, e.Common → StopsFor x s e := fun _ => .common
  cases x with
  | packet port p =>
    simp only [step, processPacket]
    split
    · exact onConnection_throws hcommon fun _ _ => (processHandshakePacket_throws env p _).mono hcommon
    · exact processSynPacket_throws ‹_›
    · exact onConnection_throws hcommon fun _ _ => (processAckPacket_throws p _).mono hcommon
    · exact onConnection_throws hcommon fun _ _ => .ok _
    · exact onConnection_throws hcommon fun _ _ => .ok _
    · exact (processFinPacket_throws port p s).mono hcommon
    · exact (processRstPacket_throws port p s).mono hcommon
    · exact .ok _
    · exact .ok _
  | serve c =>
    refine .ite (fun hmem => ?_) fun _ => .ok _
    have hserve := serveConnection_throws env (hs.among c) (hs.sound c) (hs.listed.mpr ⟨_, hmem⟩)
    refine .bind (hserve.mono fun e he => ?_) fun _ _ => .ok _
    rcases he with he | rfl
    · exact .common he
    · exact .result rfl ⟨_, hmem⟩
  | pkaSubmit priv => exact (handleSubmittedPka_throws priv s).mono hcommon
  | pkaComplete o results => exact (handleCompletedPka_throws o results s).mono hcommon
  | outside o => exact .ok _

end

end Xtls.Nic
