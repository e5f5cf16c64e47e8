import Xtls.Lib.Reassembly
import Xtls.Nic.Assembly
import Xtls.Nic.HandOff
import Xtls.Nic.SynDuplicate

/-!
# The bytes of a client

`validate_sequence` (`tcp.c` 2566-2615) takes a segment that repeats the last one, that starts at the number of
the last ACK, or that starts where the last one ends; `process_handshake_packet` (2685-2778) passes it on and
drops every other one.  All three are the start or the end of a segment that was passed on before.
-/

namespace Xtls.Nic

/-- A segment whose payload is passed on. -/
@[ext] structure Segment where
  seq : UInt32
  payload : Bytes
  lt : payload.length < 65536

instance : DecidableEq Segment := fun _ _ => decidable_of_iff' _ Segment.ext_iff

namespace Segment

def next (q : Segment) : UInt32 := q.seq + UInt32.ofNat q.payload.length

/- `send_tcp_packet` takes 126 off the number for a long segment of an active session. -/
def Mark (q : Segment) (n : UInt32) : Prop :=
  n = q.seq ∨ n = q.next ∨ 126 < q.payload.length ∧ n = q.next - 126

/- The SYN, whose payload `insert_tcp_connection` counts, but which is not passed on. -/
def opening (p : Packet) : Segment := ⟨p.seq + 1, p.payload, p.payloadLt⟩

/-- The segment as a piece of the client's stream, which starts at number `base`. -/
def piece (base : UInt32) (q : Segment) : Piece Byte := ⟨(q.seq - base).toNat, q.payload⟩

end Segment

def Packet.segment (p : Packet) : Segment := ⟨p.seq, p.payload, p.payloadLt⟩

/-- What connection `c` gets from a packet: the one that `process_handshake_packet` calls
`process_normal_seq_case` for (`processPacket_inSequence`).  Of any other packet it reads nothing
(`step_unaccepted`). -/
def accepted (x : Input) (s : Sys) (c : ConnId) : List Segment :=
  match x with
  | .packet port p =>
    if validatePacketType port p = some .sslHandshake ∧ searchTcpConnection p s = .ok (some c)
        ∧ (s.conns c).tcp.onload = false
        ∧ validateSequence (s.conns c).tcp p.seq p.ack p.payloadLen = .ok then
      [p.segment]
    else []
  | _ => []

def Deed.opening : Deed → Option Segment
  | .created p => some (.opening p)
  | _ => none

def openedBy (x : Input) (s s' : Sys) : Option (ConnId × List Segment) :=
  (createdBy x s s').map fun r => (r.1, r.2.filterMap Deed.opening)

/-- The machine with the segments that each connection was passed since its SYN. -/
abbrev Passed := Logged ConnId Sys Segment

def passedStep (env : Env) : Input → Passed → Except Halt Passed := logStep (step env) openedBy accepted

def Passed.initial (n ringCnt : Nat) : Passed := ⟨Nic.initial n ringCnt, fun _ => []⟩

/-! ### The numbers of a connection -/

/-- The last segment is the same, and the number that was acknowledged is the old one or one of its marks. -/
structure Acked (t t' : Tcp) : Prop where
  seq : t'.lastRecvSeq = t.lastRecvSeq
  len : t'.lastRecvLen = t.lastRecvLen
  ack : t'.lastSentAck = t.lastSentAck ∨ t'.lastSentAck = t.lastRecvSeq + t.lastRecvLen
    ∨ 126 < t.lastRecvLen ∧ t'.lastSentAck = t.lastRecvSeq + t.lastRecvLen - 126

/-- A move after which the connection is out of the table, or has the same numbers. -/
structure AckMove (s s' : St) : Prop where
  carries : Carries (fun _ => True) (fun s => OpFacts s ∧ Placed s) s s'
  listed : ∀ others, OpFacts (s.among others) ∧ Placed (s.among others) → Listed s'.ctx s'.conn.id →
    Listed s.ctx s.conn.id ∧ Acked s.conn.tcp s'.conn.tcp

section

variable {env : Env} {s s' t : St} {t1 t2 t3 : Tcp} {p : Packet} {o : OpId} {fill : Op}

theorem Acked.refl (t : Tcp) : Acked t t := ⟨rfl, rfl, .inl rfl⟩

theorem Acked.trans (h1 : Acked t1 t2) (h2 : Acked t2 t3) : Acked t1 t3 := by
  refine ⟨h2.seq.trans h1.seq, h2.len.trans h1.len, ?_⟩
  rcases h2.ack with hold | hnew
  · rw [hold]
    exact h1.ack
  · rw [h1.seq, h1.len] at hnew
    exact .inr hnew

theorem Acked.of_eq (h : t2 = t1) : Acked t1 t2 := h ▸ .refl t1

theorem SendFrame.acked (hf : SendFrame s s') : Acked s.conn.tcp s'.conn.tcp := by
  refine ⟨(congrArg Tcp.lastRecvSeq hf.tcp :), (congrArg Tcp.lastRecvLen hf.tcp :), ?_⟩
  rcases hf.sentAck with hold | hnew
  · exact .inl hold
  · rw [hnew]
    unfold recvAckOf
    dsimp only
    split
    · rename_i hcut
      exact .inr (.inr ⟨hcut.2, rfl⟩)
    · exact .inr (.inl rfl)

theorem request_acked (h : (∃ o, Rejects o s s') ∨ ∃ o, Submits fill o s s') : Acked s.conn.tcp s'.conn.tcp := by
  rcases h with ⟨o, hrej⟩ | ⟨o, hsub⟩
  · exact hrej.frame.acked
  · exact .of_eq hsub.tcp

theorem CryptoOutcome.acked (h : CryptoOutcome env s s') : Acked s.conn.tcp s'.conn.tcp := by
  cases h with
  | idle => exact .refl _
  | @keyGen o r ch t u _ _ _ _ _ hf ha =>
    obtain ⟨off, s1, s2, -, hf', hreq, rfl⟩ := answerClientHello_cases ha
    have hsent : Acked s.conn.tcp s1.conn.tcp := Acked.trans hf.acked hf'.acked
    exact hsent.trans ((request_acked hreq).trans (deleteRecord_frame r s2).acked)
  | sharedSecret => exact .refl _
  | signature => exact .refl _

theorem RemainOutcome.acked (h : RemainOutcome env s s') : Acked s.conn.tcp s'.conn.tcp := by
  cases h with
  | idle => exact .refl _
  | @certificate s1 s2 _ _ _ hf hf' hreq =>
    have hcert : Acked s.conn.tcp s2.conn.tcp := Acked.trans hf.acked hf'.acked
    have hrequest : Acked (signatureRequest env s2).conn.tcp s'.conn.tcp := request_acked hreq
    exact hcert.trans hrequest
  | @finished s1 s2 port _ _ hf hf' => exact Acked.trans hf.acked hf'.acked
  | pending _ _ hf => exact hf.acked

theorem AckMove.stays (hc : Carries (fun _ => True) (fun s => OpFacts s ∧ Placed s) s s') (hs : Stays s s')
    (ha : Acked s.conn.tcp s'.conn.tcp) : AckMove s s' := by
  refine ⟨hc, fun others _ hl => ⟨?_, ha⟩⟩
  unfold Listed at hl ⊢
  rw [hs.table, hs.id] at hl
  exact hl

theorem AckMove.trans (h1 : AckMove s t) (h2 : AckMove t s') : AckMove s s' := by
  refine ⟨h1.carries.trans h2.carries, fun others hp hl => ?_⟩
  obtain ⟨-, hp'⟩ := h1.carries.carries (fun _ _ => trivial) others hp
  obtain ⟨hl', ha'⟩ := h2.listed others hp' hl
  obtain ⟨hl, ha⟩ := h1.listed others hp hl'
  exact ⟨hl, ha.trans ha'⟩

theorem readRule_ackMove : ReadRule AckMove where
  refl s := .stays (readRule_placed.refl s) (.refl s) (.refl _)
  trans := .trans
  frame s s' hf := .stays (readRule_placed.frame s s' hf) hf.stays hf.acked
  hello s s' r ch o hw hst hr hn hsub :=
    .stays (readRule_placed.hello s s' r ch o hw hst hr hn hsub) hsub.stays (.of_eq hsub.tcp)
  spec s hst := .stays (readRule_placed.spec s hst) ⟨rfl, rfl, fun h => h, rfl⟩ (.refl _)
  finish s hst := ⟨readRule_placed.finish s hst, fun _ _ hl => ⟨hl, rfl, rfl, .inl rfl⟩⟩
  removed s s' hr := by
    refine ⟨readRule_placed.removed s s' hr, fun others hp hl => ?_⟩
    have hgone : s'.stage.listed ↔ Stage.removed.listed := by rw [hr.stage hp.2]
    exact absurd (hgone.mp hl) id
  call rest r s := .stays (readRule_placed.call rest r s) ⟨rfl, rfl, fun h => h, rfl⟩ (.refl _)
  complete r s := .stays (readRule_placed.complete r s) ⟨rfl, rfl, fun h => h, rfl⟩ (.refl _)
  queues s cur q := .stays (readRule_placed.queues s cur q) (mapSess_stays _ s) (.refl _)

theorem serveConnection_ackMove (h : serveConnection env s = .ok s') : AckMove s s' := by
  obtain ⟨s1, h1, h⟩ := bind_ok h
  obtain ⟨s2, h2, h⟩ := bind_ok h
  obtain ⟨s3, h3, h4⟩ := bind_ok h
  have hread : AckMove s s1 := processSessionReadLoop_rule readRule_ackMove.refl readRule_ackMove.trans
    (fun _ _ _ _ _ hw _ hr => readRule_ackMove.queued hw hr) h1
  have hcrypto : AckMove s1 s2 := by
    refine ⟨(closed_placed env).crypto s1 s2 h2, fun others hp hl => ?_⟩
    have hout := getProcessedCrypto_outcome hp.1.core.hello h2
    exact (AckMove.stays ((closed_placed env).crypto s1 s2 h2) hout.stays hout.acked).listed others hp hl
  have happly : AckMove s2 (applyHws s2) := by
    refine ⟨(closed_placed env).toMoveRule.applies s2, fun others _ hl => ?_⟩
    unfold applyHws at hl ⊢
    split at hl
    · rename_i hws
      rw [if_pos hws]
      exact ⟨hl, rfl, rfl, .inl rfl⟩
    · rename_i hws
      rw [if_neg hws]
      exact ⟨hl, .refl _⟩
  have hremove : AckMove (applyHws s2) s3 := by
    rcases removeHws_cases h3 with ⟨-, rfl⟩ | ⟨-, hr⟩
    · exact readRule_ackMove.refl _
    · exact readRule_ackMove.removed _ _ hr
  have hforward : AckMove s3 (forwardAppData s3) := by
    refine ⟨(closed_placed env).toMoveRule.forward s3, fun others _ hl => ?_⟩
    unfold forwardAppData at hl ⊢
    split at hl
    · rename_i hf
      rw [if_pos hf]
      exact ⟨hl, rfl, rfl, .inl rfl⟩
    · rename_i hf
      rw [if_neg hf]
      exact ⟨hl, .refl _⟩
  have hout := sendRemainServerRecords_outcome h4
  have hremain : AckMove (forwardAppData s3) s' :=
    .stays ((closed_placed env).remain _ _ hout) hout.stays hout.acked
  exact hread.trans (hcrypto.trans (happly.trans (hremove.trans (hforward.trans hremain))))

/-! ### Packets -/

theorem keepAppData_ackMove (env : Env) (ho : s.conn.tcp.onload = true) (h : keepAppData p s = .ok s') :
    AckMove s s' := by
  obtain ⟨data, -, h⟩ := bind_ok h
  cases h
  exact ⟨(closed_placed env).tcp s _ (.keeps data ho), fun _ _ hl => ⟨hl, rfl, rfl, .inl rfl⟩⟩

theorem processAckPacket_ackMove (env : Env) (h : processAckPacket p s = .ok s') : AckMove s s' := by
  unfold processAckPacket at h
  split at h
  · cases h
    exact readRule_ackMove.refl s
  · split at h
    · rename_i ho
      exact keepAppData_ackMove env ho h
    · cases h
      exact readRule_ackMove.refl s

theorem processHostMigFin_ackMove (env : Env) (p : Packet) (s : St) : AckMove s (processHostMigFin p s) := by
  refine ⟨(closed_placed env).acts (p := p) .migFin, fun _ _ hl => ?_⟩
  unfold processHostMigFin at hl ⊢
  dsimp only at hl ⊢
  split at hl
  · rename_i hm
    rw [if_pos hm]
    exact ⟨hl, rfl, rfl, .inl rfl⟩
  · rename_i hm
    rw [if_neg hm]
    exact ⟨hl, rfl, rfl, .inl rfl⟩

theorem processHostClose_ackMove (env : Env) (p : Packet) (s : St) : AckMove s (processHostClose p s) := by
  refine ⟨(closed_placed env).acts (p := p) .close, fun _ _ hl => ?_⟩
  unfold processHostClose at hl ⊢
  split at hl
  · rename_i hm
    rw [if_pos hm]
    exact ⟨hl, rfl, rfl, .inl rfl⟩
  · rename_i hm
    rw [if_neg hm]
    exact ⟨hl, .refl _⟩

theorem processNormalSeqCase_ackMove (h : processNormalSeqCase env p s = .ok s') : AckMove (storeNumbers p s) s' := by
  obtain ⟨⟨ret, u⟩, hu, h⟩ := bind_ok h
  have hssl : AckMove (storeNumbers p s) u := by
    unfold processSslPacket at hu
    split at hu
    · cases hu
      exact readRule_ackMove.refl _
    · obtain ⟨v, hv, hu⟩ := bind_ok hu
      cases hu
      exact processNewRecordLoop_rule readRule_ackMove.refl readRule_ackMove.trans
        (fun _ _ _ _ _ hr => readRule_ackMove.round hr) hv
  dsimp only at h
  split at h <;> cases h
  · exact hssl.trans (readRule_ackMove.frame _ _ (sendTcpEmpty_frame _ u))
  · exact hssl

theorem processHandshakePacket_ackMove
    (hv : s.conn.tcp.onload = false → validateSequence s.conn.tcp p.seq p.ack p.payloadLen ≠ .ok)
    (h : processHandshakePacket env p s = .ok s') : AckMove s s' := by
  unfold processHandshakePacket at h
  split at h
  · rename_i ho
    exact keepAppData_ackMove env ho h
  · rename_i ho
    have ho : s.conn.tcp.onload = false := Bool.eq_false_of_not_eq_true ho
    split at h
    · rename_i hok
      exact absurd hok (hv ho)
    · cases h
      exact readRule_ackMove.refl s
    · cases h
      exact readRule_ackMove.frame _ _ (sendTcpEmpty_frame _ s)
    · cases h
      exact readRule_ackMove.refl s

end

/-! ### Steps of the machine -/

section

variable {env : Env} {x : Input} {s s' : Sys} {c d : ConnId} {p : Packet} {port : UInt16}

theorem AckMove.put {t : St} (hs : s.Conducted) (h : AckMove ⟨s.conns d, s.ctx⟩ t) (hl : Listed t.ctx c) :
    Acked (s.conns c).tcp ((s.put d t).conns c).tcp := by
  by_cases hc : c = d
  · subst hc
    obtain ⟨hid, -⟩ := h.carries.carries (fun _ _ => trivial) s.conns (hs.among c)
    rw [s.put_self]
    refine (h.listed s.conns (hs.among c) ?_).2
    have hid : t.conn.id = c := hid.trans (hs.facts.1.ids c)
    rw [hid]
    exact hl
  · rw [s.put_ne t hc]
    exact .refl _

theorem SysQuiet.acked (hq : SysQuiet s s') (c : ConnId) : Acked (s.conns c).tcp (s'.conns c).tcp := by
  rw [hq.1]
  exact .refl _

theorem onConnection_ackMove {f : St → Except Halt St} (hs : s.Conducted)
    (hf : ∀ t, searchTcpConnection p s = .ok (some c) → f ⟨s.conns c, s.ctx⟩ = .ok t →
      AckMove ⟨s.conns c, s.ctx⟩ t)
    (h : onConnection p f s = .ok s') (hl : Listed s'.ctx c) : Acked (s.conns c).tcp (s'.conns c).tcp := by
  obtain ⟨found, hfound, h⟩ := bind_ok h
  cases found with
  | none =>
    cases h
    exact .refl _
  | some d =>
    obtain ⟨t, ht, rfl⟩ := Sys.on_ok h
    by_cases hc : c = d
    · subst hc
      exact (hf t hfound ht).put hs hl
    · rw [s.put_ne t hc]
      exact .refl _

theorem processSynPacket_ackMove (hs : s.Conducted) (hsyn : validatePacketType port p = some .tcpSyn)
    (h : processSynPacket env port p s = .ok s')
    (hold : ∀ start, createdBy (.packet port p) s s' ≠ some (c, start)) (hl : Listed s'.ctx c) :
    Acked (s.conns c).tcp (s'.conns c).tcp := by
  cases processSynPacket_cases h with
  | @creates d u _ hfound hu hq =>
    obtain ⟨hi, -⟩ := insertTcpConnection_inserted hu
    have hnew : createdBy (.packet port p) s s' = some (d, [.created p]) := hi.created hq hsyn (Nat.le_refl _)
    have hcd : c ≠ d := fun heq => hold _ (heq ▸ hnew)
    rw [hq.1, hi.others c hcd]
    exact .refl _
  | answers _ _ hq => exact hq.acked c
  | @replaces e d t u _ hfound hnew ht hq hv =>
    obtain ⟨hi, -⟩ := insertTcpConnection_inserted hv
    have hrem := removeSession_removed ht
    have htrace : s.ctx.trace.length ≤ u.ctx.trace.length := by
      obtain ⟨-, out, outside, hctx⟩ := hq
      rw [hctx]
      exact hrem.grows.length_le
    have hnew : createdBy (.packet port p) s s' = some (d, [.created p]) := hi.created (.refl s') hsyn htrace
    have hcd : c ≠ d := fun heq => hold _ (heq ▸ hnew)
    have hlu : Listed (s.put e t).ctx c := by
      obtain ⟨b, hb⟩ := hl
      have hb := ((hi.mem c b).mp hb).resolve_right fun hc => hcd hc.1
      obtain ⟨-, out, outside, hctx⟩ := hq
      rw [hctx] at hb
      exact ⟨b, hb⟩
    rw [hi.others c hcd, hq.1]
    exact (readRule_ackMove.removed _ _ hrem).put hs hlu

/-- A step leaves the numbers of a connection as they are, or passes a segment on and takes its numbers. -/
theorem step_ackMove (hs : s.Conducted) (h : step env x s = .ok s')
    (hold : ∀ start, createdBy x s s' ≠ some (c, start)) (hl : Listed s'.ctx c) :
    accepted x s c = [] ∧ Acked (s.conns c).tcp (s'.conns c).tcp
      ∨ ∃ p : Packet, accepted x s c = [p.segment]
        ∧ Acked (storeNumbers p ⟨s.conns c, s.ctx⟩).conn.tcp (s'.conns c).tcp := by
  cases x with
  | packet port p =>
    have hother : validatePacketType port p ≠ some .sslHandshake → accepted (.packet port p) s c = [] :=
      fun htype => if_neg fun hall => htype hall.1
    have hstep : processPacket env port p s = .ok s' := h
    unfold processPacket at hstep
    split at hstep
    · rename_i htype
      by_cases hacc : searchTcpConnection p s = .ok (some c) ∧ (s.conns c).tcp.onload = false
          ∧ validateSequence (s.conns c).tcp p.seq p.ack p.payloadLen = .ok
      · refine .inr ⟨p, if_pos ⟨htype, hacc⟩, ?_⟩
        have hread : s.on c (processNormalSeqCase env p) = .ok s' :=
          (processPacket_inSequence htype hacc.1 hacc.2.1 hacc.2.2).symm.trans h
        obtain ⟨t, hnormal, rfl⟩ := Sys.on_ok hread
        have hmove := processNormalSeqCase_ackMove hnormal
        have hseg : Carries (fun _ => True) (fun s => OpFacts s ∧ Placed s) ⟨s.conns c, s.ctx⟩
            (storeNumbers p ⟨s.conns c, s.ctx⟩) := (closed_placed env).tcp _ _ (.segment p hacc.2.1)
        obtain ⟨hid, hp⟩ := hseg.carries (fun _ _ => trivial) s.conns (hs.among c)
        obtain ⟨hid', -⟩ := hmove.carries.carries (fun _ _ => trivial) s.conns hp
        have hid' : t.conn.id = c := hid'.trans (hid.trans (hs.facts.1.ids c))
        rw [s.put_self]
        refine (hmove.listed s.conns hp ?_).2
        rw [hid']
        exact hl
      · refine .inl ⟨if_neg fun hall => hacc hall.2, onConnection_ackMove hs (fun t hfound ht => ?_) hstep hl⟩
        exact processHandshakePacket_ackMove (fun ho hok => hacc ⟨hfound, ho, hok⟩) ht
    · rename_i htype
      exact .inl ⟨hother (by rw [htype]; decide), processSynPacket_ackMove hs htype hstep hold hl⟩
    · rename_i htype
      exact .inl ⟨hother (by rw [htype]; decide),
        onConnection_ackMove hs (fun _ _ ht => processAckPacket_ackMove env ht) hstep hl⟩
    · rename_i htype
      refine .inl ⟨hother (by rw [htype]; decide), onConnection_ackMove hs ?_ hstep hl⟩
      intro t _ ht
      cases ht
      exact processHostMigFin_ackMove env p _
    · rename_i htype
      refine .inl ⟨hother (by rw [htype]; decide), onConnection_ackMove hs ?_ hstep hl⟩
      intro t _ ht
      cases ht
      exact processHostClose_ackMove env p _
    · rename_i htype
      exact .inl ⟨hother (by rw [htype]; decide), (processFinPacket_quiet hstep).acked c⟩
    · rename_i htype
      exact .inl ⟨hother (by rw [htype]; decide), (processRstPacket_quiet hstep).acked c⟩
    · rename_i htype
      cases hstep
      exact .inl ⟨hother (by rw [htype]; decide), .refl _⟩
    · rename_i htype
      cases hstep
      exact .inl ⟨hother (by rw [htype]; decide), .refl _⟩
  | serve d =>
    refine .inl ⟨rfl, ?_⟩
    simp only [step] at h
    split at h
    · obtain ⟨t, ht, rfl⟩ := Sys.on_ok h
      exact (serveConnection_ackMove ht).put hs hl
    · cases h
      exact .refl _
  | pkaSubmit priv =>
    refine .inl ⟨rfl, ?_⟩
    rcases handleSubmittedPka_cases h with rfl | ⟨o, ring, d, -, -, -, -, hconns, -⟩
    · exact .refl _
    · exact .of_eq (setConn_tcp hconns c)
  | pkaComplete o results =>
    refine .inl ⟨rfl, ?_⟩
    rcases handleCompletedPka_cases h with rfl | ⟨d, -, -, ⟨-, hconns, -⟩ | ⟨-, -, hconns, -⟩⟩
    · exact .refl _
    · exact .of_eq (setConn_tcp hconns c)
    · exact .of_eq (setConn_tcp hconns c)
  | outside o =>
    cases h
    exact .inl ⟨rfl, .refl _⟩

end

/-! ### The segments that are not taken -/

/-- Nothing of the connection is read. -/
structure Unread (s s' : St) : Prop where
  trace : s'.ctx.trace = s.ctx.trace
  current : s'.conn.sess.currentReadRecord = s.conn.sess.currentReadRecord
  queue : s'.conn.sess.recvQ = s.conn.sess.recvQ

/-- No record of connection `c` is read in a step, and none is taken or queued, unless the connection is
removed. -/
def LeftAlone (c : ConnId) (s s' : Sys) : Prop :=
  Omits (fun e => (e.reads c).isSome) s.ctx s'.ctx
    ∧ (Spares c s.ctx s'.ctx → (s'.conns c).sess.currentReadRecord = (s.conns c).sess.currentReadRecord
      ∧ (s'.conns c).sess.recvQ = (s.conns c).sess.recvQ)

section

variable {env : Env} {s s' : St} {p : Packet}

theorem moveRule_unread : MoveRule Unread where
  refl _ := ⟨rfl, rfl, rfl⟩
  trans h h' := ⟨h'.trace.trans h.trace, h'.current.trans h.current, h'.queue.trans h.queue⟩
  tcp _ _ _ := ⟨rfl, rfl, rfl⟩
  emits _ _ := ⟨rfl, rfl, rfl⟩
  frame _ _ hf := ⟨hf.trace, hf.currentReadRecord,
    hf.recvQ⟩

theorem processHandshakePacket_unread
    (hv : s.conn.tcp.onload = false → validateSequence s.conn.tcp p.seq p.ack p.payloadLen ≠ .ok)
    (h : processHandshakePacket env p s = .ok s') : Unread s s' := by
  unfold processHandshakePacket at h
  split at h
  · rename_i ho
    exact moveRule_unread.keepAppData ho h
  · rename_i ho
    split at h
    · rename_i hok
      exact absurd hok (hv (Bool.eq_false_of_not_eq_true ho))
    · cases h
      exact moveRule_unread.refl s
    · cases h
      exact moveRule_unread.frame _ _ (sendTcpEmpty_still _ s)
    · cases h
      exact moveRule_unread.refl s

theorem processHostMigFin_unread (p : Packet) (s : St) : Unread s (processHostMigFin p s) := by
  unfold processHostMigFin
  dsimp only
  split <;> exact ⟨rfl, rfl, rfl⟩

theorem processHostClose_unread (p : Packet) (s : St) : Unread s (processHostClose p s) := by
  unfold processHostClose
  split <;> exact ⟨rfl, rfl, rfl⟩

end

section

variable {env : Env} {s s' u : Sys} {c d : ConnId} {p : Packet} {port : UInt16}

theorem Event.reads_subject {e : Event} (h : (e.reads c).isSome = true) : e.subject = c := by
  cases e with
  | read conn _ _ _ =>
    simp only [Event.reads, Option.isSome_ite] at h
    exact h
  | _ => cases h

theorem SysQuiet.leftAlone (hq : SysQuiet s s') : LeftAlone c s s' := by
  refine ⟨?_, fun _ => by rw [hq.1]; exact ⟨rfl, rfl⟩⟩
  obtain ⟨-, out, outside, hctx⟩ := hq
  exact .of_eq (by rw [hctx])

theorem Inserted.leftAlone (hi : Inserted d s s') : LeftAlone c s s' :=
  ⟨.event hi.trace rfl, fun _ => by rw [(hi.sess c).2]; exact ⟨rfl, rfl⟩⟩

theorem LeftAlone.trans (h : LeftAlone c s u) (h' : LeftAlone c u s') : LeftAlone c s s' := by
  refine ⟨h.1.trans h'.1, fun hspares => ?_⟩
  obtain ⟨hfirst, hlater⟩ := hspares.split h.1.grows h'.1.grows
  obtain ⟨hcur, hq⟩ := h.2 hfirst
  obtain ⟨hcur', hq'⟩ := h'.2 hlater
  exact ⟨hcur'.trans hcur, hq'.trans hq⟩

/- What is done for another connection, and what is done for this one without reading. -/
theorem Lasting.leftAlone {t : St} (hs : OpFacts s) (h : Lasting ⟨s.conns d, s.ctx⟩ t)
    (hown : c = d → Unread ⟨s.conns d, s.ctx⟩ t) : LeftAlone c s (s.put d t) := by
  by_cases hc : c = d
  · obtain ⟨htrace, hcur, hq⟩ := hown hc
    subst hc
    refine ⟨.of_eq htrace, fun _ => ?_⟩
    rw [s.put_self]
    exact ⟨hcur, hq⟩
  · have hself : OpFacts ((⟨s.conns d, s.ctx⟩ : St).among s.conns) := by
      rw [s.among_put (hs.ids d)]
      exact hs
    refine ⟨h.apart hself (by rw [hs.ids d]; exact hc) fun _ => Event.reads_subject, fun _ => ?_⟩
    rw [s.put_ne t hc]
    exact ⟨rfl, rfl⟩

theorem onConnection_leftAlone {f : St → Except Halt St} (hs : OpFacts s)
    (hlasting : ∀ u t, f u = .ok t → Lasting u t)
    (hown : ∀ t, searchTcpConnection p s = .ok (some c) → f ⟨s.conns c, s.ctx⟩ = .ok t →
      Unread ⟨s.conns c, s.ctx⟩ t)
    (h : onConnection p f s = .ok s') : LeftAlone c s s' := by
  obtain ⟨found, hfound, h⟩ := bind_ok h
  cases found with
  | none =>
    cases h
    exact SysQuiet.leftAlone (.refl s)
  | some d =>
    obtain ⟨t, ht, rfl⟩ := Sys.on_ok h
    refine (hlasting _ t ht).leftAlone hs fun hc => ?_
    subst hc
    exact hown t hfound ht

/- A SYN reads nothing; where it replaces a connection, that one is removed. -/
theorem processSynPacket_leftAlone (hs : OpFacts s) (h : processSynPacket env port p s = .ok s') :
    LeftAlone c s s' := by
  cases processSynPacket_cases h with
  | creates _ hu hq =>
    obtain ⟨hi, -⟩ := insertTcpConnection_inserted hu
    exact hi.leftAlone.trans hq.leftAlone
  | answers _ _ hq => exact hq.leftAlone
  | @replaces e d t u _ hfound hnew ht hq hv =>
    obtain ⟨hi, -⟩ := insertTcpConnection_inserted hv
    have hrem := removeSession_removed ht
    have hput : LeftAlone c s (s.put e t) := by
      by_cases hc : c = e
      · refine ⟨⟨[_, _], hrem.trace, fun a ha => ?_⟩, fun hspares => absurd hspares ?_⟩
        · rcases List.mem_pair.mp ha with rfl | rfl <;> rfl
        · have hgone := hrem.not_spares
          rw [hs.ids e, ← hc] at hgone
          exact hgone
      · exact (readRule_lasting.removed _ _ hrem).leftAlone hs fun heq => absurd heq hc
    exact hput.trans (hq.leftAlone.trans hi.leftAlone)

/-- Of a packet that is not accepted for a connection, nothing is read there: `process_read_record` is not called
for the connection, and unless the packet is a new SYN of the client, `current_read_record` and `recv_q` are as
they were. -/
theorem step_unaccepted (hs : OpFacts s) (h : step env (.packet port p) s = .ok s')
    (hnot : accepted (.packet port p) s c = []) : LeftAlone c s s' := by
  have hstep : processPacket env port p s = .ok s' := h
  unfold processPacket at hstep
  split at hstep
  · rename_i htype
    refine onConnection_leftAlone hs (fun _ _ ht => (closed_lasting env).acts (.handshake ht))
      (fun t hfound ht => ?_) hstep
    refine processHandshakePacket_unread (fun ho hok => ?_) ht
    have hsome : accepted (.packet port p) s c = [p.segment] := if_pos ⟨htype, hfound, ho, hok⟩
    rw [hnot] at hsome
    cases hsome
  · exact processSynPacket_leftAlone hs hstep
  · exact onConnection_leftAlone hs (fun _ _ ht => (closed_lasting env).acts (.ack ht))
      (fun t _ ht => moveRule_unread.ack ht) hstep
  · refine onConnection_leftAlone hs (fun u t ht => ?_) (fun t _ ht => ?_) hstep
    · cases ht
      exact (closed_lasting env).acts .migFin
    · cases ht
      exact processHostMigFin_unread p _
  · refine onConnection_leftAlone hs (fun u t ht => ?_) (fun t _ ht => ?_) hstep
    · cases ht
      exact (closed_lasting env).acts .close
    · cases ht
      exact processHostClose_unread p _
  · exact (processFinPacket_quiet hstep).leftAlone
  · exact (processRstPacket_quiet hstep).leftAlone
  · cases hstep
    exact SysQuiet.leftAlone (.refl s)
  · cases hstep
    exact SysQuiet.leftAlone (.refl s)

end

/-! ### The segments so far -/

/-- The numbers of the connection are those of the segments it was passed. -/
structure Tracks (l : List Segment) (t : Tcp) : Prop where
  last : ∃ q, l.getLast? = some q ∧ t.lastRecvSeq = q.seq ∧ t.lastRecvLen = UInt32.ofNat q.payload.length
  ack : ∃ q ∈ l, q.Mark t.lastSentAck

/-- Each segment behind the first one starts at a mark of an earlier one. -/
def Chained (l : List Segment) : Prop :=
  ∀ pre q post, l = pre ++ q :: post → pre = [] ∨ ∃ r ∈ pre, r.Mark q.seq

section

variable {l : List Segment} {t t' : Tcp} {q : Segment}

theorem payloadLen_toUInt32 (p : Packet) : p.payloadLen.toUInt32 = UInt32.ofNat p.payload.length := by
  have hlt := p.payloadLt
  apply UInt32.toNat_inj.mp
  rw [UInt16.toNat_toUInt32, Packet.payloadLen, UInt16.toNat_ofNat', UInt32.toNat_ofNat']
  omega

theorem Tracks.acked (h : Tracks l t) (ha : Acked t t') : Tracks l t' := by
  obtain ⟨q, hlast, hseq, hlen⟩ := h.last
  refine ⟨⟨q, hlast, ha.seq.trans hseq, ha.len.trans hlen⟩, ?_⟩
  rcases ha.ack with hold | hnew
  · rw [hold]
    exact h.ack
  · rw [hseq, hlen] at hnew
    refine ⟨q, List.mem_of_getLast? hlast, .inr ?_⟩
    rcases hnew with hend | ⟨hlong, hcut⟩
    · exact .inl hend
    · have hlt := q.lt
      rw [UInt32.lt_iff_toNat_lt, UInt32.toNat_ofNat'] at hlong
      have hlong : 126 < q.payload.length % 2 ^ 32 := hlong
      exact .inr ⟨by omega, hcut⟩

theorem Tracks.segment {s : St} (h : Tracks l s.conn.tcp) (p : Packet) :
    Tracks (l ++ [p.segment]) (storeNumbers p s).conn.tcp := by
  refine ⟨⟨_, List.getLast?_concat, rfl, payloadLen_toUInt32 p⟩, ?_⟩
  obtain ⟨q, hq, hmark⟩ := h.ack
  exact ⟨q, List.mem_append_left _ hq, hmark⟩

theorem Tracks.mark {seq ack : UInt32} {len : UInt16} (h : Tracks l t)
    (hv : validateSequence t seq ack len = .ok) : ∃ q ∈ l, q.Mark seq := by
  obtain ⟨q, hlast, hseq, hlen⟩ := h.last
  have hmem := List.mem_of_getLast? hlast
  unfold validateSequence at hv
  split at hv
  · rename_i hdup
    exact ⟨q, hmem, .inl (hdup.1.trans hseq)⟩
  · split at hv
    · rename_i hnext
      rcases hnext with hsent | hend
      · rw [← hsent]
        exact h.ack
      · rw [← hend, hseq, hlen]
        exact ⟨q, hmem, .inr (.inl rfl)⟩
    · split at hv
      · cases hv
      · split at hv <;> cases hv

theorem Chained.append (h : Chained l) (hq : l = [] ∨ ∃ r ∈ l, r.Mark q.seq) : Chained (l ++ [q]) := by
  intro pre a post heq
  have hends : ∀ mid, [q] = mid ++ a :: post → mid = [] ∧ q = a := fun mid hmid => by
    cases mid with
    | nil => exact ⟨rfl, (List.cons.inj hmid).1⟩
    | cons m mid =>
      have hnil := (List.cons.inj hmid).2
      cases mid <;> cases hnil
  rcases List.append_eq_append_iff.mp heq with ⟨mid, rfl, hmid⟩ | ⟨mid, rfl, hmid⟩
  · obtain ⟨rfl, rfl⟩ := hends mid hmid
    rw [List.append_nil]
    exact hq
  · cases mid with
    | nil =>
      obtain ⟨-, rfl⟩ := hends [] hmid.symm
      rw [List.append_nil] at hq
      exact hq
    | cons m mid =>
      cases hmid
      exact h pre a mid rfl

theorem Segment.Mark.start_le {base seq : UInt32} (h : q.Mark seq)
    (hwrap : (q.piece base).stop < 2 ^ 32) : (seq - base).toNat ≤ (q.piece base).stop := by
  have hstop : (q.piece base).stop = (q.seq - base).toNat + q.payload.length := rfl
  have hnext : (q.next - base).toNat = (q.piece base).stop := by
    have hsum : q.next - base = q.seq - base + UInt32.ofNat q.payload.length := by
      rw [Segment.next, UInt32.sub_eq_add_neg, UInt32.sub_eq_add_neg, UInt32.add_assoc, UInt32.add_assoc,
        UInt32.add_comm (UInt32.ofNat _)]
    rw [hsum, UInt32.toNat_add, UInt32.toNat_ofNat', hstop]
    omega
  rcases h with rfl | rfl | ⟨hlong, rfl⟩
  · rw [hstop]
    exact Nat.le_add_right _ _
  · exact Nat.le_of_eq hnext
  · have hcut : q.next - 126 - base = q.next - base - 126 := by
      simp only [UInt32.sub_eq_add_neg, UInt32.add_assoc, UInt32.add_comm (-126)]
    have hle : (126 : UInt32).toNat ≤ (q.next - base).toNat := by
      rw [hnext, hstop]
      show 126 ≤ _
      omega
    rw [hcut, UInt32.toNat_sub_of_le _ _ (UInt32.le_iff_toNat_le.mpr hle), hnext]
    exact Nat.sub_le _ _

theorem Chained.gapless {first : Segment} {rest : List Segment} (h : Chained (first :: rest))
    (hwrap : ∀ q ∈ first :: rest, (q.piece first.seq).stop < 2 ^ 32) :
    Gapless ((first :: rest).map (Segment.piece first.seq)) := by
  intro pre p post heq
  obtain ⟨before, behind, hsplit, hpre, hrest⟩ := List.map_eq_append_iff.mp heq
  obtain ⟨q, after, rfl, rfl, -⟩ := List.map_eq_cons_iff.mp hrest
  rcases h before q after hsplit with rfl | ⟨r, hr, hmark⟩
  · cases hsplit
    refine .inl ?_
    show (first.seq - first.seq).toNat = 0
    rw [UInt32.sub_self]
    rfl
  · refine .inr ⟨r.piece first.seq, hpre ▸ List.mem_map_of_mem hr, ?_⟩
    exact hmark.start_le (hwrap r (hsplit ▸ List.mem_append_left _ hr))

end

/-! ### Every run -/

/-- What holds of the segments of every connection. -/
structure Passed.Sound (L : Passed) : Prop where
  conducted : L.state.Conducted
  chained : ∀ c, Chained (L.log c)
  tracks : ∀ c, Listed L.state.ctx c → Tracks (L.log c) (L.state.conns c).tcp

section

variable {env : Env} {inputs : List Input} {n ringCnt : Nat} {L : Passed} {c : ConnId} {x : Input} {s : Sys}

theorem Stage.path_listed {v v' : Stage} {ds : List Deed} (hp : Path Stage.Step v ds v') (hl : v'.listed) :
    v.listed := by
  induction hp with
  | refl => exact hl
  | cons hs _ ih => exact (hs.addr (ih hl)).1

theorem accepted_cases (x : Input) (s : Sys) (c : ConnId) : accepted x s c = []
    ∨ ∃ p : Packet, accepted x s c = [p.segment] ∧ Listed s.ctx c
      ∧ validateSequence (s.conns c).tcp p.seq p.ack p.payloadLen = .ok := by
  unfold accepted
  split
  · rename_i port p
    split
    · rename_i hall
      exact .inr ⟨p, rfl, searchTcpConnection_listed hall.2.1, hall.2.2.2⟩
    · exact .inl rfl
  · exact .inl rfl

theorem chained_opening (p : Packet) : Chained [.opening p] := by
  have hnil : Chained [] := fun pre q post heq => by cases pre <;> cases heq
  exact hnil.append (.inl rfl)

theorem passedStep_sound (x : Input) (L L' : Passed) (h : passedStep env x L = .ok L') (hL : L.Sound) : L'.Sound := by
  obtain ⟨hstep, hfresh, hold⟩ := logStep_ok h
  have hconducted := step_conducted x _ _ hstep hL.conducted
  have hboth : ∀ c, Chained (L'.log c) ∧ (Listed L'.state.ctx c → Tracks (L'.log c) (L'.state.conns c).tcp) := by
    intro c
    cases (step_takes env hL.conducted x).turn _ hstep c with
    | @created port cookie p t v hx hnew htcp =>
      have hlog : L'.log c = [.opening p] := by
        refine hfresh c _ ?_
        rw [openedBy, hnew]
        rfl
      rw [hlog, htcp]
      exact ⟨chained_opening p, fun _ => ⟨⟨_, rfl, rfl, payloadLen_toUInt32 p⟩, _, List.mem_cons_self, .inl rfl⟩⟩
    | goes hnot hpath =>
      have hlog : L'.log c = L.log c ++ accepted x L.state c := by
        refine hold c fun start hstart => ?_
        obtain ⟨r, hr, heq⟩ := Option.map_eq_some_iff.mp hstart
        cases heq
        exact hnot _ hr
      rw [hlog]
      constructor
      · rcases accepted_cases x L.state c with hnone | ⟨p, hacc, hl, hv⟩
        · rw [hnone, List.append_nil]
          exact hL.chained c
        · rw [hacc]
          exact (hL.chained c).append (.inr ((hL.tracks c hl).mark hv))
      · intro hl
        have hbefore := hL.conducted.listed.mp (Stage.path_listed hpath (hconducted.listed.mpr hl))
        have htracks := hL.tracks c hbefore
        rcases step_ackMove hL.conducted hstep hnot hl with ⟨hnone, hacked⟩ | ⟨p, hacc, hacked⟩
        · rw [hnone, List.append_nil]
          exact htracks.acked hacked
        · rw [hacc]
          exact (Tracks.segment (s := ⟨L.state.conns c, L.state.ctx⟩) htracks p).acked hacked
  exact ⟨hconducted, fun c => (hboth c).1, fun c => (hboth c).2⟩

theorem run_passed (h : run (passedStep env) inputs (.initial n ringCnt) = .ok L) : L.Sound := by
  refine run_invariant passedStep_sound inputs _ L h ⟨initial_conducted n ringCnt, fun c => ?_, fun c hl => ?_⟩
  · intro pre q post heq
    cases pre <;> cases heq
  · obtain ⟨b, hb⟩ := hl
    exact absurd hb List.not_mem_nil

/-- In every run, for a connection whose SYN had no payload and whose client sends segments of one stream `b` of less
than 4 GiB, lost, repeated, reordered or cut in any way: each byte of the stream before a segment that is passed
on was passed on before it.  If no segment that is passed on starts within an earlier one, the payloads in a row are
the beginning of the stream. -/
theorem bytes_in_order (h : run (passedStep env) inputs (.initial n ringCnt) = .ok L) {syn : Packet}
    {rest : List Segment} (hlog : L.log c = .opening syn :: rest) (hsyn : syn.payload = []) (b : Bytes)
    (hb : b.length < 2 ^ 32)
    (hclient : ∀ q ∈ rest, ∃ o, o + q.payload.length ≤ b.length ∧ q.seq = syn.seq + 1 + UInt32.ofNat o
      ∧ q.payload = (b.drop o).take q.payload.length) :
    (∀ pre q post, rest = pre ++ q :: post → ∀ i < (q.piece (syn.seq + 1)).start,
        Covered (pre.map (Segment.piece (syn.seq + 1))) i)
      ∧ (Fresh (rest.map (Segment.piece (syn.seq + 1))) →
        rest.flatMap Segment.payload = b.take (rest.flatMap Segment.payload).length) := by
  have hstart : ∀ q ∈ rest, ∃ o, (q.piece (syn.seq + 1)).start = o ∧ o + q.payload.length ≤ b.length
      ∧ q.payload = (b.drop o).take q.payload.length := by
    intro q hq
    obtain ⟨o, hlen, hseq, hdata⟩ := hclient q hq
    refine ⟨o, ?_, hlen, hdata⟩
    show (q.seq - (syn.seq + 1)).toNat = o
    rw [hseq, UInt32.add_comm, UInt32.add_sub_cancel, UInt32.toNat_ofNat']
    omega
  have hopening : ((Segment.opening syn).piece (syn.seq + 1)).stop = 0 := by
    show (syn.seq + 1 - (syn.seq + 1)).toNat + syn.payload.length = 0
    rw [UInt32.sub_self, hsyn]
    rfl
  have hchained : Chained (.opening syn :: rest) := hlog ▸ (run_passed h).chained c
  have hgapless : Gapless (rest.map (Segment.piece (syn.seq + 1))) := by
    refine (hchained.gapless fun q hq => ?_).tail hopening
    rcases List.mem_cons.mp hq with rfl | hq
    · show ((Segment.opening syn).piece (syn.seq + 1)).stop < _
      omega
    · obtain ⟨o, ho, hlen, -⟩ := hstart q hq
      show (q.piece (syn.seq + 1)).start + q.payload.length < _
      omega
  constructor
  · intro pre q post heq i hi
    exact hgapless.covered (by rw [heq, List.map_append, List.map_cons]) hi
  · intro hfresh
    have hdata : ∀ p ∈ rest.map (Segment.piece (syn.seq + 1)), p.data = (b.drop p.start).take p.data.length := by
      intro p hp
      obtain ⟨q, hq, rfl⟩ := List.mem_map.mp hp
      obtain ⟨o, ho, -, hdata⟩ := hstart q hq
      rw [ho]
      exact hdata
    have hflat : (rest.map (Segment.piece (syn.seq + 1))).flatMap Piece.data = rest.flatMap Segment.payload :=
      List.flatMap_map ..
    have hconcat := hgapless.concat hfresh hdata
    rwa [hflat] at hconcat

def sampleStream : Bytes := sampleHello [0x13, 2] ++ (sampleCipherSpec ++ sampleFinished)

theorem sampleSecondFlight_lt : (sampleCipherSpec ++ sampleFinished).length < 65536 := by decide

/- The second flight comes before the ClientHello, where it is dropped, and again behind it. -/
def sampleReordered : List Input :=
  .packet 0 sampleSyn :: .packet 0 (sampleSegment 211 5 (sampleCipherSpec ++ sampleFinished) sampleSecondFlight_lt)
    :: sampleHandshake.tail

theorem bytes_in_order_sample : ∃ L, run (passedStep sampleEnv) sampleReordered (.initial 2 8) = .ok L
    ∧ (L.log 0).length = 3
    ∧ (L.log 0).tail.flatMap Segment.payload = sampleStream.take ((L.log 0).tail.flatMap Segment.payload).length := by
  obtain ⟨L, hrun, hlog⟩ := endsIn_ok (fun L : Passed => L.log 0 = [.opening sampleSyn,
      ⟨101, sampleHello [0x13, 2], sampleHello_lt⟩, ⟨211, sampleCipherSpec ++ sampleFinished, sampleSecondFlight_lt⟩])
    (run (passedStep sampleEnv) sampleReordered (.initial 2 8)) (by decide +kernel)
  refine ⟨L, hrun, by rw [hlog]; rfl, ?_⟩
  rw [hlog]
  refine (bytes_in_order hrun hlog rfl sampleStream (by decide +kernel) ?_).2 (by decide +kernel)
  intro q hq
  rcases List.mem_cons.mp hq with rfl | hq
  · exact ⟨0, by decide +kernel⟩
  · cases List.mem_singleton.mp hq
    exact ⟨110, by decide +kernel⟩

end

end Xtls.Nic
