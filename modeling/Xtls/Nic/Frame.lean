import Xtls.Lib.Run
import Xtls.Nic.Handle

/-!
# What the sending side leaves alone

Sending, packing, encrypting and the record accounting touch no field that decides how the
handshake goes on.  `Session.core`, `Tcp.core` and `Ctx.core` blank out the fields these functions
may write; `SendFrame` says that nothing else changed, and `Frame` that nothing was written to the
server flight either.
-/

namespace Xtls.Nic

/-- A session without its accounting, its sending side, its identifier and its transcript. -/
def Session.core (e : Session) : Session :=
  { e with
    numCurrentRecords := 0, nextRecordId := 0, id_ := [], handshakeMsgs := [], sendBuffer := []
    sendSeqNum := 0, serverWriteIvSeqNum := 0, clientWriteIvSeqNum := 0, metaHdr := {}
    serverRecords := [], numOfRetransmittedCh := 0, numOfRetransmittedMetaPkt := 0 }

/-- A connection without its sending side. -/
def Tcp.core (t : Tcp) : Tcp :=
  { t with
    state := .idle, ipId := 0, lastSentSeq := 0, lastSentAck := 0, lastSentLen := 0
    totalSent := 0 }

def Out.isFrame : Out → Bool
  | .frame _ _ => true
  | _ => false

/-- A core without its pools, and with the packets of clients only that it has passed on. -/
def Ctx.core (c : Ctx) : Ctx :=
  { c with
    ops := fun _ => {}, opPool := [], freeOpCnt := 0, usingOpCnt := 0
    recordPool := [], freeRecordCnt := 0, usingRecordCnt := 0, out := c.out.filter Out.isFrame }

/-- Operations outside the pool keep their contents; the pool keeps its operations. -/
structure OpsKept (c c' : Ctx) : Prop where
  pool : c'.opPool.Perm c.opPool
  ops : ∀ o, c'.ops o = c.ops o ∨ (o ∈ c.opPool ∧ c'.ops o = {})

theorem OpsKept.refl (c : Ctx) : OpsKept c c := ⟨.refl _, fun _ => .inl rfl⟩

theorem OpsKept.trans {a b c : Ctx} (h1 : OpsKept a b) (h2 : OpsKept b c) : OpsKept a c where
  pool := h2.pool.trans h1.pool
  ops o := by
    rcases h2.ops o with h | ⟨hm, h⟩
    · rw [h]; exact h1.ops o
    · exact .inr ⟨h1.pool.subset hm, h⟩

theorem OpsKept.cycle {c c' : Ctx} {o : OpId} {pool : List OpId} (hp : c.opPool = o :: pool)
    (hp' : c'.opPool = pool ++ [o]) (ho : c'.ops o = {}) (hrest : ∀ i, i ≠ o → c'.ops i = c.ops i) :
    OpsKept c c' where
  pool := by rw [hp, hp']; exact List.perm_append_singleton o pool
  ops i := by
    by_cases hi : i = o
    · subst hi; exact .inr ⟨by rw [hp]; exact List.mem_cons_self, ho⟩
    · exact .inl (hrest i hi)

theorem OpsKept.data {c c' : Ctx} (h : OpsKept c c') (o : OpId) (r : Record)
    (hr : (c'.ops o).data = some r) : (c.ops o).data = some r := by
  rcases h.ops o with ho | ⟨-, ho⟩
  · exact ho ▸ hr
  · rw [ho] at hr; cases hr

/- The two counters that go on with every encrypted record. -/
def Session.counters (e : Session) : UInt64 × UInt64 := (e.sendSeqNum, e.serverWriteIvSeqNum)

/- The ClientHello has still to be taken; reading one sets the session id. -/
def Session.Unasked (e : Session) : Prop := e.handshakeState = .helloRequest ∧ e.waitingCrypto = false

structure SendFrame (s s' : St) : Prop where
  id : s'.conn.id = s.conn.id
  sess : s'.conn.sess.core = s.conn.sess.core
  tcp : s'.conn.tcp.core = s.conn.tcp.core
  tcpState : s'.conn.tcp.state = s.conn.tcp.state ∨ s'.conn.tcp.state = .sent
  sentAck : s'.conn.tcp.lastSentAck = s.conn.tcp.lastSentAck
    ∨ s'.conn.tcp.lastSentAck = recvAckOf s.conn
  counters : s.conn.sess.writeSp.bulkCipherAlgorithm = .noCipher →
    s'.conn.sess.counters = s.conn.sess.counters
  ctx : s'.ctx.core = s.ctx.core
  ops : OpsKept s.ctx s'.ctx
  sessionId : s'.conn.sess.id_ = s.conn.sess.id_ ∨ (s.conn.sess.Unasked ∧ s'.conn.sess.id_.length = 32)

def Session.written (e : Session) : Bytes × UInt64 × UInt64 := (e.handshakeMsgs, e.counters)

structure FlushFrame (s s' : St) : Prop extends SendFrame s s' where
  written : s'.conn.sess.written = s.conn.sess.written

def Session.flightBuffers (e : Session) : Bytes × Bytes := (e.sendBuffer, e.serverRecords)

/-- A packet of the server whose payload is a part of `bytes`, or a packet without one. -/
def Out.Within (bytes : Bytes) : Out → Prop
  | .tcp _ pkt => pkt.payload <:+: bytes
  | .keyMeta _ _ => True
  | .frame _ _ => False

/-- Nothing is sent but parts of `bytes`. -/
def Ctx.Posts (bytes : Bytes) (c c' : Ctx) : Prop :=
  ∃ new, c'.out = c.out ++ new ∧ ∀ o ∈ new, o.Within bytes

/- A ClientHello that arrives again is answered from `server_records`. -/
structure Frame (s s' : St) : Prop extends FlushFrame s s' where
  buffers : s'.conn.sess.flightBuffers = s.conn.sess.flightBuffers
  posts : s.ctx.Posts s.conn.sess.serverRecords s'.ctx

theorem FlushFrame.msgs {s s' : St} (h : FlushFrame s s') :
    s'.conn.sess.handshakeMsgs = s.conn.sess.handshakeMsgs :=
  congrArg Prod.fst h.written

theorem Frame.buffer {s s' : St} (h : Frame s s') : s'.conn.sess.sendBuffer = s.conn.sess.sendBuffer :=
  congrArg Prod.fst h.buffers

theorem Frame.records {s s' : St} (h : Frame s s') :
    s'.conn.sess.serverRecords = s.conn.sess.serverRecords := congrArg Prod.snd h.buffers

theorem Ctx.Posts.none {b : Bytes} {c c' : Ctx} (h : c'.out = c.out) : c.Posts b c' :=
  ⟨[], h.trans (List.append_nil _).symm, fun _ ho => absurd ho List.not_mem_nil⟩

theorem Ctx.Posts.one {b : Bytes} {c c' : Ctx} {o : Out} (h : c'.out = c.out ++ [o]) (ho : o.Within b) :
    c.Posts b c' := ⟨[o], h, fun _ hm => List.mem_singleton.mp hm ▸ ho⟩

theorem Ctx.Posts.trans {b : Bytes} {c1 c2 c3 : Ctx} (h1 : c1.Posts b c2) (h2 : c2.Posts b c3) : c1.Posts b c3 := by
  obtain ⟨new1, hout1, hin1⟩ := h1
  obtain ⟨new2, hout2, hin2⟩ := h2
  refine ⟨new1 ++ new2, by rw [hout2, hout1, List.append_assoc], fun o ho => ?_⟩
  exact (List.mem_append.mp ho).elim (hin1 o) (hin2 o)

theorem recvAckOf_core {c c' : Conn} (hs : c'.sess.core = c.sess.core)
    (ht : c'.tcp.core = c.tcp.core) : recvAckOf c' = recvAckOf c := by
  have h1 : c'.sess.state = c.sess.state := (congrArg Session.state hs :)
  have h2 : c'.tcp.lastRecvSeq = c.tcp.lastRecvSeq := (congrArg Tcp.lastRecvSeq ht :)
  have h3 : c'.tcp.lastRecvLen = c.tcp.lastRecvLen := (congrArg Tcp.lastRecvLen ht :)
  simp only [recvAckOf, h1, h2, h3]

theorem SendFrame.refl (s : St) : SendFrame s s :=
  ⟨rfl, rfl, rfl, .inl rfl, .inl rfl, fun _ => rfl, rfl, .refl _, .inl rfl⟩

theorem Session.Unasked.core {e e' : Session} (h : e'.Unasked) (hc : e'.core = e.core) : e.Unasked := by
  have hs : e'.handshakeState = e.handshakeState := (congrArg Session.handshakeState hc :)
  have hw : e'.waitingCrypto = e.waitingCrypto := (congrArg Session.waitingCrypto hc :)
  exact ⟨hs ▸ h.1, hw ▸ h.2⟩

theorem SendFrame.trans {a b c : St} (h1 : SendFrame a b) (h2 : SendFrame b c) :
    SendFrame a c where
  id := h2.id.trans h1.id
  sess := h2.sess.trans h1.sess
  tcp := h2.tcp.trans h1.tcp
  tcpState := by
    rcases h2.tcpState with h | h
    · rw [h]; exact h1.tcpState
    · exact .inr h
  sentAck := by
    rcases h2.sentAck with h | h
    · rw [h]; exact h1.sentAck
    · exact .inr (h.trans (recvAckOf_core h1.sess h1.tcp))
  counters hc := by
    have hw : b.conn.sess.writeSp = a.conn.sess.writeSp := (congrArg Session.writeSp h1.sess :)
    exact (h2.counters (hw ▸ hc)).trans (h1.counters hc)
  ctx := h2.ctx.trans h1.ctx
  ops := h1.ops.trans h2.ops
  sessionId := by
    rcases h2.sessionId with h | ⟨hu, h⟩
    · rw [h]; exact h1.sessionId
    · exact .inr ⟨hu.core h1.sess, h⟩

theorem Frame.refl (s : St) : Frame s s := ⟨⟨.refl s, rfl⟩, rfl, .none rfl⟩

theorem Frame.trans {a b c : St} (h1 : Frame a b) (h2 : Frame b c) : Frame a c :=
  ⟨⟨h1.toSendFrame.trans h2.toSendFrame, h2.written.trans h1.written⟩, h2.buffers.trans h1.buffers,
    h1.posts.trans (h1.records ▸ h2.posts)⟩

theorem Frame.mapSess {s : St} {f : Session → Session} (hc : (f s.conn.sess).core = s.conn.sess.core)
    (hw : (f s.conn.sess).written = s.conn.sess.written)
    (hid : (f s.conn.sess).id_ = s.conn.sess.id_)
    (hb : (f s.conn.sess).flightBuffers = s.conn.sess.flightBuffers) : Frame s (s.mapSess f) :=
  ⟨⟨⟨rfl, hc, rfl, .inl rfl, .inl rfl, fun _ => congrArg Prod.snd hw, rfl, .refl _, .inl hid⟩, hw⟩, hb, .none rfl⟩

theorem SendFrame.mapSess {s : St} {f : Session → Session}
    (hc : (f s.conn.sess).core = s.conn.sess.core)
    (hn : (f s.conn.sess).counters = s.conn.sess.counters)
    (hid : (f s.conn.sess).id_ = s.conn.sess.id_) : SendFrame s (s.mapSess f) :=
  ⟨rfl, hc, rfl, .inl rfl, .inl rfl, fun _ => hn, rfl, .refl _, .inl hid⟩

theorem Frame.mapCtx {s : St} {f : Ctx → Ctx} (hc : (f s.ctx).core = s.ctx.core)
    (ho : (f s.ctx).ops = s.ctx.ops) (hp : (f s.ctx).opPool = s.ctx.opPool)
    (hout : s.ctx.Posts s.conn.sess.serverRecords (f s.ctx)) : Frame s (s.mapCtx f) := by
  refine ⟨⟨⟨rfl, rfl, rfl, .inl rfl, .inl rfl, fun _ => rfl, hc, ⟨?_, ?_⟩, .inl rfl⟩, rfl⟩, rfl, hout⟩
  · exact .of_eq hp
  · exact fun o => .inl (congrFun ho o)

section

variable {s s' : St} {r : Record} {o : OpId} {env : Env}

/-! ### Fields that stay -/

theorem SendFrame.handshakeState (h : SendFrame s s') : s'.conn.sess.handshakeState = s.conn.sess.handshakeState :=
  (congrArg Session.handshakeState h.sess :)

theorem SendFrame.state (h : SendFrame s s') : s'.conn.sess.state = s.conn.sess.state :=
  (congrArg Session.state h.sess :)

theorem SendFrame.recvQ (h : SendFrame s s') : s'.conn.sess.recvQ = s.conn.sess.recvQ :=
  (congrArg Session.recvQ h.sess :)

theorem SendFrame.currentReadRecord (h : SendFrame s s') :
    s'.conn.sess.currentReadRecord = s.conn.sess.currentReadRecord :=
  (congrArg Session.currentReadRecord h.sess :)

theorem SendFrame.pendingPkaOp (h : SendFrame s s') : s'.conn.sess.pendingPkaOp = s.conn.sess.pendingPkaOp :=
  (congrArg Session.pendingPkaOp h.sess :)

theorem SendFrame.waitingCrypto (h : SendFrame s s') : s'.conn.sess.waitingCrypto = s.conn.sess.waitingCrypto :=
  (congrArg Session.waitingCrypto h.sess :)

theorem SendFrame.completedCrypto (h : SendFrame s s') : s'.conn.sess.completedCrypto = s.conn.sess.completedCrypto :=
  (congrArg Session.completedCrypto h.sess :)

theorem SendFrame.tls13Ctx (h : SendFrame s s') : s'.conn.sess.tls13Ctx = s.conn.sess.tls13Ctx :=
  (congrArg Session.tls13Ctx h.sess :)

theorem SendFrame.readSp (h : SendFrame s s') : s'.conn.sess.readSp = s.conn.sess.readSp :=
  (congrArg Session.readSp h.sess :)

theorem SendFrame.writeSp (h : SendFrame s s') : s'.conn.sess.writeSp = s.conn.sess.writeSp :=
  (congrArg Session.writeSp h.sess :)

theorem SendFrame.pendingSp (h : SendFrame s s') : s'.conn.sess.pendingSp = s.conn.sess.pendingSp :=
  (congrArg Session.pendingSp h.sess :)

theorem SendFrame.trace (h : SendFrame s s') : s'.ctx.trace = s.ctx.trace := (congrArg Ctx.trace h.ctx :)

theorem SendFrame.htTable (h : SendFrame s s') : s'.ctx.htTable = s.ctx.htTable := (congrArg Ctx.htTable h.ctx :)

theorem SendFrame.id_length (h : SendFrame s s') (hid : s.conn.sess.id_.length = 32) :
    s'.conn.sess.id_.length = 32 := by
  rcases h.sessionId with heq | ⟨-, hlen⟩
  · rw [heq]
    exact hid
  · exact hlen

/-! ### Accounting -/

theorem deleteRecord_frame (r : Record) (s : St) : Frame s (deleteRecord r s) :=
  (Frame.mapCtx rfl rfl rfl (.none rfl)).trans (Frame.mapSess rfl rfl rfl rfl)

theorem newRecord_frame {seq : UInt64} (h : newRecord seq s = .ok (r, s')) : Frame s s' := by
  unfold newRecord at h
  split at h
  · cases h
  · cases h
    exact (Frame.mapSess rfl rfl rfl rfl).trans (Frame.mapCtx rfl rfl rfl (.none rfl))

theorem newSslCryptoOp_cases (h : newSslCryptoOp s = .ok (o, s')) :
    ∃ pool, s.ctx.opPool = o :: pool ∧ s' = s.mapCtx fun c =>
      { c with opPool := pool, freeOpCnt := c.freeOpCnt - 1, usingOpCnt := c.usingOpCnt + 1 } := by
  unfold newSslCryptoOp at h
  split at h
  · cases h
  · rename_i o' pool hp
    cases h
    exact ⟨pool, hp, rfl⟩

theorem cryptoCycle_frame {f : Session → Session} (h : newSslCryptoOp s = .ok (o, s'))
    (hc : (f s.conn.sess).core = s.conn.sess.core)
    (hn : s.conn.sess.writeSp.bulkCipherAlgorithm = .noCipher →
      (f s.conn.sess).counters = s.conn.sess.counters)
    (hid : (f s.conn.sess).id_ = s.conn.sess.id_) :
    SendFrame s (deleteOp o (s'.mapSess f)) := by
  obtain ⟨pool, hp, rfl⟩ := newSslCryptoOp_cases h
  refine ⟨rfl, hc, rfl, .inl rfl, .inl rfl, hn, rfl, ?_, .inl hid⟩
  refine OpsKept.cycle hp rfl ?_ ?_
  · simp [deleteOp, Ctx.setOp]
  · intro i hi
    simp [deleteOp, Ctx.setOp, hi]

/-! ### TCP output -/

theorem emit_core {x : Out} (hx : x.isFrame = false) (c : Ctx) :
    ({ c with out := c.out ++ [x] } : Ctx).core = c.core := by
  simp [Ctx.core, List.filter_append, hx]

theorem Out.Within.isFrame {b : Bytes} {x : Out} (hx : x.Within b) : x.isFrame = false := by
  cases x with
  | frame => exact absurd hx id
  | _ => rfl

theorem emit_frame {x : Out} (hx : x.Within []) (s : St) : Frame s (emit x s) := by
  refine Frame.mapCtx (emit_core hx.isFrame s.ctx) rfl rfl (.one rfl ?_)
  cases x with
  | tcp port pkt => exact List.IsInfix.trans hx List.nil_infix
  | keyMeta => trivial
  | frame => exact absurd hx id

theorem emitTcp_frame {pkt : OutTcp} (port : UInt16) (hp : pkt.payload = []) (s : St) :
    Frame s (emit (.tcp port pkt) s) := by
  have hin : pkt.payload <:+: [] := hp ▸ List.infix_refl _
  exact emit_frame (x := .tcp port pkt) hin s

/-- Parts of `b` are sent and nothing is written to the flight. -/
structure Transmits (b : Bytes) (s s' : St) : Prop extends FlushFrame s s' where
  buffers : s'.conn.sess.flightBuffers = s.conn.sess.flightBuffers
  posts : s.ctx.Posts b s'.ctx

theorem Transmits.trans {b : Bytes} {t : St} (h1 : Transmits b s t) (h2 : Transmits b t s') : Transmits b s s' :=
  ⟨⟨h1.toSendFrame.trans h2.toSendFrame, h2.written.trans h1.written⟩, h2.buffers.trans h1.buffers,
    h1.posts.trans h2.posts⟩

theorem sendTcpSegment_transmits {b payload : Bytes} (hp : payload <:+: b) (flags : Byte) (already : UInt32) (s : St) :
    Transmits b s (sendTcpSegment flags payload already s) :=
  ⟨⟨⟨rfl, rfl, rfl, .inr rfl, .inr rfl, fun _ => rfl, emit_core rfl s.ctx, ⟨.refl _, fun _ => .inl rfl⟩, .inl rfl⟩,
    rfl⟩, rfl, .one rfl hp⟩

theorem sendTcpLoop_transmits {b left : Bytes} (hp : left <:+: b) (flags : Byte) (fuel : Nat) (already : UInt32)
    (s : St) : Transmits b s (sendTcpLoop flags fuel left already s) := by
  induction fuel generalizing left already s with
  | zero => exact ⟨⟨.refl s, rfl⟩, rfl, .none rfl⟩
  | succ fuel ih =>
    have hseg := sendTcpSegment_transmits ((List.take_prefix maxSegment left).isInfix.trans hp) flags already s
    unfold sendTcpLoop
    dsimp only
    split
    · exact hseg
    · exact hseg.trans (ih ((List.drop_suffix _ left).isInfix.trans hp) _ _)

theorem sendTcpPacket_transmits (flags : Byte) (payload : Bytes) (s : St) :
    Transmits payload s (sendTcpPacket flags payload s) := sendTcpLoop_transmits (List.infix_refl _) ..

theorem sendTcpPacket_frame (flags : Byte) {payload : Bytes} (s : St) (hp : payload <:+: s.conn.sess.serverRecords) :
    Frame s (sendTcpPacket flags payload s) := by
  have hsent : Transmits s.conn.sess.serverRecords s (sendTcpPacket flags payload s) := sendTcpLoop_transmits hp ..
  exact ⟨hsent.toFlushFrame, hsent.buffers, hsent.posts⟩

theorem sendTcpEmpty_frame (flags : Byte) (s : St) : Frame s (sendTcpPacket flags [] s) :=
  sendTcpPacket_frame flags s List.nil_infix

theorem sendKeyMeta_frame (env : Env) (port : UInt16) (s : St) : Frame s (sendKeyMeta env port s) :=
  (Frame.mapSess rfl rfl rfl rfl).trans (emit_frame (x := .keyMeta _ _) trivial _)

theorem sendRstConnMeta_frame (port : UInt16) (s : St) : Frame s (sendRstConnMeta port s) :=
  (Frame.mapSess rfl rfl rfl rfl).trans (emit_frame (x := .keyMeta _ _) trivial _)

theorem sendPendingRecords_frame (h : sendPendingRecords s = .ok s') : FlushFrame s s' := by
  obtain ⟨records, -, h⟩ := bind_ok h
  cases h
  have hf := sendTcpPacket_transmits TCP_FLAG_ACK s.conn.sess.sendBuffer s
  exact ⟨hf.toSendFrame.trans (SendFrame.mapSess rfl rfl rfl), hf.written⟩

/-! ### Records of the server flight -/

theorem storeHandshake_cases {m : Byte} {frag : Bytes} (h : storeHandshake m frag s = .ok s') :
    (m ≤ s.conn.sess.handshakeState.code ∧ s' = s) ∨
    (¬ m ≤ s.conn.sess.handshakeState.code ∧
      s' = s.mapSess fun e => { e with handshakeMsgs := e.handshakeMsgs ++ frag }) := by
  unfold storeHandshake at h
  split at h
  · rename_i hm
    cases h
    exact .inl ⟨hm, rfl⟩
  · rename_i hm
    obtain ⟨msgs, hb, h⟩ := bind_ok h
    unfold bounded at hb
    split at hb
    · cases hb
    · cases hb
      dsimp only at h
      split at h
      · cases h
      · cases h
        exact .inr ⟨hm, rfl⟩

theorem storeHandshake_frame {m : Byte} {frag : Bytes} (h : storeHandshake m frag s = .ok s') :
    SendFrame s s' := by
  rcases storeHandshake_cases h with ⟨-, rfl⟩ | ⟨-, rfl⟩
  · exact .refl s'
  · exact SendFrame.mapSess rfl rfl rfl

/- The case that leaks an operation ends the process in `send_record`. -/
theorem sealRecord_cases {type : ContentType} {frag data : Bytes}
    (h : sealRecord env r type frag s = .ok (data, s')) :
    (s.conn.sess.writeSp.bulkCipherAlgorithm = .noCipher ∧ s' = s
      ∧ data = recordHeader type s.conn.sess.version frag.length ++ frag)
    ∨ (s.conn.sess.writeSp.bulkCipherAlgorithm ≠ .noCipher ∧ s.conn.sess.pendingSp.cipherType = .aead
      ∧ ∃ o t, newSslCryptoOp s = .ok (o, t) ∧ s' = deleteOp o (t.mapSess fun e =>
          { e with sendSeqNum := e.sendSeqNum + 1, serverWriteIvSeqNum := r.seqNum + 1 })
        ∧ data = recordHeader type s.conn.sess.version (frag.length + gcmTagSize)
          ++ (let (ct, tag) := env.crypto.gcmEncrypt (slice s.conn.sess.tls13Ctx.serverHandshakeKey 0 32)
                (makeNonce s.conn.sess.tls13Ctx.serverHandshakeIv s.conn.sess.sendSeqNum)
                (recordHeader type s.conn.sess.version (frag.length + gcmTagSize)) frag
              ct.val ++ tag.val)) := by
  unfold sealRecord at h
  dsimp only at h
  split at h
  · rename_i hclear
    cases h
    exact .inl ⟨hclear, rfl, rfl⟩
  · rename_i hw
    split at h
    · cases h
    · rename_i haead
      obtain ⟨⟨enc, t⟩, ht, h⟩ := bind_ok h
      cases enc with
      | none => cases h
      | some enc =>
        cases h
        obtain ⟨⟨o, u⟩, ho, ht⟩ := bind_ok ht
        obtain ⟨pool, -, rfl⟩ := newSslCryptoOp_cases ho
        dsimp only at ht
        split at ht
        · cases ht
        · split at ht <;> cases ht
          exact .inr ⟨hw, not_not.mp haead, o, _, ho, rfl, List.append_assoc ..⟩

theorem sealRecord_frame {type : ContentType} {frag data : Bytes}
    (h : sealRecord env r type frag s = .ok (data, s')) : SendFrame s s' := by
  rcases sealRecord_cases h with ⟨-, rfl, -⟩ | ⟨hw, -, o, t, ho, rfl, -⟩
  · exact .refl _
  · exact cryptoCycle_frame ho rfl (fun hc => absurd hc hw) rfl

theorem sendRecord_frame {type : ContentType} {msgType : HandshakeType} {body : Bytes}
    (h : sendRecord env r type msgType body s = .ok s') : SendFrame s s' := by
  obtain ⟨s1, h1, h⟩ := bind_ok h
  obtain ⟨⟨data, s2⟩, h2, h⟩ := bind_ok h
  obtain ⟨buffer, -, h⟩ := bind_ok h
  cases h
  refine (storeHandshake_frame h1).trans ((sealRecord_frame h2).trans ?_)
  exact (SendFrame.mapSess rfl rfl rfl).trans (deleteRecord_frame _ _).toSendFrame

theorem sendMessage_frame {type : ContentType} {msgType : HandshakeType} {b : St → Bytes}
    (h : (do let (r, t) ← newSendRecord s
             sendRecord env r type msgType (b t) t) = .ok s') : SendFrame s s' := by
  obtain ⟨⟨r, t⟩, hr, h⟩ := bind_ok h
  exact (newRecord_frame hr).toSendFrame.trans (sendRecord_frame h)

theorem sendServerHello_frame (h : sendServerHello env s = .ok s') : SendFrame s s' :=
  sendMessage_frame h

theorem sendEncryptedExtensions_frame (h : sendEncryptedExtensions env s = .ok s') :
    SendFrame s s' :=
  sendMessage_frame (b := fun _ => put16 0) h

theorem sendCertificate_frame (h : sendCertificate env s = .ok s') : SendFrame s s' :=
  sendMessage_frame (b := fun _ => certificateBody env) h

theorem sendCertificateVerify_frame (h : sendCertificateVerify env s = .ok s') : SendFrame s s' :=
  sendMessage_frame (b := fun t => certificateVerifyBody t.conn.sess) h

theorem sendServerFinished_frame (h : sendServerFinished env s = .ok s') : SendFrame s s' :=
  sendMessage_frame
    (b := fun t => finishedMac env.crypto t.conn.sess.tls13Ctx.serverSecret
      t.conn.sess.handshakeMsgs) h

theorem retransmittedHello_frame (env : Env) (r : Record) (s : St) :
    Frame s (retransmittedHello env r s) := by
  unfold retransmittedHello
  extract_lets h signed s1 s2
  have h1 : Frame s s1 := by
    unfold s1
    split
    · exact (sendKeyMeta_frame _ _ _).trans (Frame.mapSess rfl rfl rfl rfl)
    · exact .refl s
  have h2 : Frame s1 s2 := by
    unfold s2
    split
    · exact sendTcpPacket_frame _ _ (List.infix_refl _)
    · exact .refl s1
  exact h1.trans (h2.trans ((Frame.mapSess rfl rfl rfl rfl).trans (deleteRecord_frame _ _)))

/-! ### PKA requests -/

/-- What a request for which the ring has no room does: operation `o` goes back to the pool. -/
structure Rejects (o : OpId) (s s' : St) : Prop where
  frame : Frame s s'
  full : s.ctx.ringCnt ≤ s.ctx.submitPkaRing.length + 1
  pool : ∃ pool, s.ctx.opPool = o :: pool ∧ s'.ctx.opPool = pool ++ [o]
  op : s'.ctx.ops o = {}
  ops : ∀ i, i ≠ o → s'.ctx.ops i = s.ctx.ops i

/-- What a successful request does: operation `o` leaves the pool, is filled and queued. -/
structure Submits (fill : Op) (o : OpId) (s s' : St) : Prop where
  id : s'.conn.id = s.conn.id
  sess : s'.conn.sess = { s.conn.sess with waitingCrypto := true, pendingPkaOp := some o }
  tcp : s'.conn.tcp = s.conn.tcp
  room : ¬ s.ctx.ringCnt ≤ s.ctx.submitPkaRing.length + 1
  pool : s.ctx.opPool = o :: s'.ctx.opPool
  ring : s'.ctx.submitPkaRing = s.ctx.submitPkaRing ++ [o]
  op : s'.ctx.ops o = { fill with sess := some s.conn.id, pkaFlag := true }
  ops : ∀ i, i ≠ o → s'.ctx.ops i = s.ctx.ops i
  ctx : { s'.ctx.core with submitPkaRing := [] } = { s.ctx.core with submitPkaRing := [] }
  out : s'.ctx.out = s.ctx.out

theorem requestPka_cases {fill : Op} {ret : Int} (h : requestPka fill s = .ok (ret, s')) :
    (ret = -1 ∧ ∃ o, Rejects o s s') ∨ (ret = 0 ∧ ∃ o, Submits fill o s s') := by
  obtain ⟨⟨o, t⟩, ho, h⟩ := bind_ok h
  obtain ⟨pool, hp, rfl⟩ := newSslCryptoOp_cases ho
  dsimp only [submitPkaRequest] at h
  by_cases hfull : s.ctx.ringCnt ≤ s.ctx.submitPkaRing.length + 1
  · simp only [St.mapCtx_ctx, Ctx.setOp, hfull, if_true] at h
    cases h
    refine .inl ⟨rfl, o, ⟨⟨⟨rfl, rfl, rfl, .inl rfl, .inl rfl, fun _ => rfl, rfl, ?_, .inl rfl⟩, rfl⟩, rfl, .none rfl⟩,
      hfull, ⟨pool, hp, rfl⟩, ?_, ?_⟩
    · refine OpsKept.cycle hp rfl ?_ ?_
      · simp [deleteOp, Ctx.setOp]
      · intro i hi
        simp [deleteOp, Ctx.setOp, hi]
    · simp [deleteOp, Ctx.setOp]
    · intro i hi
      simp [deleteOp, Ctx.setOp, hi]
  · simp only [St.mapCtx_ctx, Ctx.setOp, hfull, if_false] at h
    cases h
    refine .inr ⟨rfl, o, rfl, rfl, rfl, hfull, hp, rfl, ?_, ?_, rfl, rfl⟩
    · simp
    · intro i hi
      simp [hi]

end

end Xtls.Nic
