import Xtls.Lib.Relates
import Xtls.Nic.System

/-!
# Two runs side by side

Two runs of the machine that differ in the sequence numbers of the clients, in the numbers of the
records, and in what a free connection was left with.  Here is the relation between their states
(`Twin` for one connection) and that the functions below `ssl.c` and `tcp.c` keep it.

A state of the second run is written as the state of the first one with other values in the fields that
may differ (`St.twin`), so that everything else is equal by definition.
-/

namespace Xtls.Nic

/-- How the second run differs: the sequence numbers of its clients are `seq` ahead, and its records may
have other numbers. -/
structure Skew where
  seq : UInt32 := 0
  ids : Bool := false

def Skew.shift (k : Skew) (serverPort : UInt16) : UInt32 := if serverPort = 0xBB01 then k.seq else 0

/-! ### Bytes, records and outputs -/

/-- A frame whose TCP sequence number is `d` ahead. -/
def shiftFrame (d : UInt32) (frame : Bytes) : Bytes :=
  if frame.length < 42 then frame
  else frame.take 38 ++ put32 (be32 frame 38 + d) ++ frame.drop 42

def FrameTwin (d : UInt32) (b b' : Bytes) : Prop :=
  ∃ frame len, b = slice frame 0 len ∧ b' = slice (shiftFrame d frame) 0 len

def RecordTwin (k : Skew) (r r' : Record) : Prop :=
  ∃ n, r' = { r with id := n } ∧ (k.ids = false → n = r.id)

/- The operands are not looked at: the results come from outside. -/
def OpTwin (k : Skew) (a b : Op) : Prop :=
  ∃ pkaIn pkaIn1 pkaIn2 data,
    b = { a with pkaIn := pkaIn, pkaIn1 := pkaIn1, pkaIn2 := pkaIn2, data := data }
    ∧ Option.Rel (RecordTwin k) a.data data

/- What is compared with a packet of the host, and what `send_rst_conn_meta` leaves in place. -/
structure MetaTwin (k : Skew) (m m' : MetaHdr) : Prop where
  serverSeqNum : m'.serverSeqNum = m.serverSeqNum
  serverAckNum : m'.serverAckNum = m.serverAckNum + k.shift m.serverPort
  serverIp : m'.serverIp = m.serverIp
  serverPort : m'.serverPort = m.serverPort

def MetaHdr.skew (k : Skew) (m : MetaHdr) : MetaHdr :=
  { m with serverAckNum := m.serverAckNum + k.shift m.serverPort }

/- To the host go resets in the name of the client, to the client its sequence numbers come back as
acknowledgements. -/
def OutTcp.skew (k : Skew) (port : UInt16) (pkt : OutTcp) : OutTcp :=
  if port % 2 = 1 then { pkt with sentSeq := pkt.sentSeq + k.seq }
  else { pkt with recvAck := pkt.recvAck + k.shift pkt.srcPort }

/-- What the two runs send. -/
inductive OutTwin (k : Skew) : Out → Out → Prop
  | tcp (port : UInt16) (pkt : OutTcp) : OutTwin k (.tcp port pkt) (.tcp port (pkt.skew k port))
  | keyMeta (port : UInt16) (hdr : MetaHdr) : OutTwin k (.keyMeta port hdr) (.keyMeta port (hdr.skew k))
  | frame (port : UInt16) {b b' : Bytes} (h : FrameTwin k.seq b b') : OutTwin k (.frame port b) (.frame port b')

/-- The records that were received in full, with their connections. -/
def delivered (trace : List Event) : List (ConnId × Bytes) :=
  trace.filterMap fun
    | .complete id r => some (id, r.data)
    | _ => none

/- The value behind a missing `return` does not depend on the number of the record. -/
def Outside.IgnoresId (o : Outside) : Prop :=
  ∀ (r : Record) (n : Nat), o.missingReturn { r with id := n } = o.missingReturn r

/-! ### States -/

structure ConnWild where
  lastRecvSeq : UInt32
  lastSentAck : UInt32
  pendingAppData : Bytes
  metaHdr : MetaHdr
  nextRecordId : Nat
  recvQ : List Record
  currentReadRecord : Option Record
  pkaOp : Option OpId
  sharedSecretOperand : Operand
  ecdsaTranscriptHash : Operand
  ecdsaK : Operand
  ecdhePrivKey : Operand
  ecdhePubKey : Operand

structure CtxWild where
  ops : OpId → Op
  out : List Out
  trace : List Event

def Tcp.twin (v : ConnWild) (t : Tcp) : Tcp :=
  { t with
    lastRecvSeq := v.lastRecvSeq, lastSentAck := v.lastSentAck, pendingAppData := v.pendingAppData }

def Session.twin (v : ConnWild) (e : Session) : Session :=
  { e with
    metaHdr := v.metaHdr, nextRecordId := v.nextRecordId, recvQ := v.recvQ
    currentReadRecord := v.currentReadRecord, pkaOp := v.pkaOp
    sharedSecretOperand := v.sharedSecretOperand, ecdsaTranscriptHash := v.ecdsaTranscriptHash
    ecdsaK := v.ecdsaK, ecdhePrivKey := v.ecdhePrivKey, ecdhePubKey := v.ecdhePubKey }

def Conn.twin (v : ConnWild) (c : Conn) : Conn := { c with tcp := c.tcp.twin v, sess := c.sess.twin v }

def Ctx.twin (w : CtxWild) (c : Ctx) : Ctx := { c with ops := w.ops, out := w.out, trace := w.trace }

def St.twin (v : ConnWild) (w : CtxWild) (s : St) : St := ⟨s.conn.twin v, s.ctx.twin w⟩

def Conn.wild (c : Conn) : ConnWild where
  lastRecvSeq := c.tcp.lastRecvSeq
  lastSentAck := c.tcp.lastSentAck
  pendingAppData := c.tcp.pendingAppData
  metaHdr := c.sess.metaHdr
  nextRecordId := c.sess.nextRecordId
  recvQ := c.sess.recvQ
  currentReadRecord := c.sess.currentReadRecord
  pkaOp := c.sess.pkaOp
  sharedSecretOperand := c.sess.sharedSecretOperand
  ecdsaTranscriptHash := c.sess.ecdsaTranscriptHash
  ecdsaK := c.sess.ecdsaK
  ecdhePrivKey := c.sess.ecdhePrivKey
  ecdhePubKey := c.sess.ecdhePubKey

def Ctx.wild (c : Ctx) : CtxWild := ⟨c.ops, c.out, c.trace⟩

/-- How the fields that may differ correspond.  `pka_op` is looked at only when a result has arrived. -/
structure ConnFits (k : Skew) (c : Conn) (v : ConnWild) : Prop where
  lastRecvSeq : v.lastRecvSeq = c.tcp.lastRecvSeq + k.shift c.tcp.serverPort
  lastSentAck : v.lastSentAck = c.tcp.lastSentAck + k.shift c.tcp.serverPort
  pendingAppData : FrameTwin k.seq c.tcp.pendingAppData v.pendingAppData
  portid : c.tcp.portid % 2 = 0
  metaHdr : MetaTwin k c.sess.metaHdr v.metaHdr
  nextRecordId : k.ids = false → v.nextRecordId = c.sess.nextRecordId
  recvQ : List.Forall₂ (RecordTwin k) c.sess.recvQ v.recvQ
  currentReadRecord : Option.Rel (RecordTwin k) c.sess.currentReadRecord v.currentReadRecord
  pkaOp : c.sess.completedCrypto = true → v.pkaOp = c.sess.pkaOp

structure CtxFits (k : Skew) (c : Ctx) (w : CtxWild) : Prop where
  ops : ∀ o, OpTwin k (c.ops o) (w.ops o)
  out : List.Forall₂ (OutTwin k) c.out w.out
  trace : delivered w.trace = delivered c.trace
  outside : k.ids = true → c.outside.IgnoresId

/-- The same connection of two runs, together with the core. -/
def Twin (k : Skew) (s s' : St) : Prop :=
  ∃ v w, ConnFits k s.conn v ∧ CtxFits k s.ctx w ∧ s' = s.twin v w

section

variable {k : Skew} {s s' t t' : St} {r r' : Record} {o : OpId}

/-! ### Records and frames -/

theorem shiftFrame_length (d : UInt32) (frame : Bytes) : (shiftFrame d frame).length = frame.length := by
  unfold shiftFrame
  split
  · rfl
  · rename_i hlen
    have hput : (put32 (be32 frame 38 + d)).length = 4 := rfl
    rw [List.length_append, List.length_append, List.length_take, List.length_drop, hput]
    omega

theorem FrameTwin.nil (d : UInt32) : FrameTwin d [] [] := ⟨[], 0, rfl, rfl⟩

theorem FrameTwin.length {d : UInt32} {b b' : Bytes} (h : FrameTwin d b b') : b'.length = b.length := by
  obtain ⟨frame, len, rfl, rfl⟩ := h
  rw [slice_length, slice_length]

theorem FrameTwin.eq_nil {d : UInt32} {b b' : Bytes} (h : FrameTwin d b b') : b' = [] ↔ b = [] := by
  rw [← List.length_eq_zero_iff, ← List.length_eq_zero_iff, h.length]

theorem RecordTwin.refl (k : Skew) (r : Record) : RecordTwin k r r := ⟨r.id, rfl, fun _ => rfl⟩

theorem RecordTwin.map (h : RecordTwin k r r') (f : Record → Record)
    (hf : ∀ r n, f { r with id := n } = { f r with id := n }) : RecordTwin k (f r) (f r') := by
  obtain ⟨n, rfl, hn⟩ := h
  have hid : (f r).id = r.id := (congrArg Record.id (hf r r.id) :)
  exact ⟨n, hf r n, fun hk => (hn hk).trans hid.symm⟩

theorem RecordTwin.val {α : Type} (h : RecordTwin k r r') (f : Record → α)
    (hf : ∀ r n, f { r with id := n } = f r) : f r' = f r := by
  obtain ⟨n, rfl, -⟩ := h
  exact hf r n

theorem RecordTwin.missingReturn (h : RecordTwin k r r') {o : Outside} (ho : k.ids = true → o.IgnoresId) :
    o.missingReturn r' = o.missingReturn r := by
  obtain ⟨n, rfl, hn⟩ := h
  cases hk : k.ids with
  | true => exact ho hk r n
  | false => rw [hn hk]

theorem OpTwin.refl (k : Skew) (a : Op) : OpTwin k a a := by
  refine ⟨a.pkaIn, a.pkaIn1, a.pkaIn2, a.data, rfl, ?_⟩
  cases a.data with
  | none => exact .none
  | some r => exact .some (.refl k r)

/-! ### Updates of the other fields -/

theorem ConnFits.same {c c' : Conn} {v : ConnWild} (h : ConnFits k c v) (hw : c'.wild = c.wild)
    (hp : c'.tcp.serverPort = c.tcp.serverPort) (hport : c'.tcp.portid = c.tcp.portid)
    (hc : c'.sess.completedCrypto = true → c.sess.completedCrypto = true) : ConnFits k c' v := by
  have hseq : c'.tcp.lastRecvSeq = c.tcp.lastRecvSeq := (congrArg ConnWild.lastRecvSeq hw :)
  have hack : c'.tcp.lastSentAck = c.tcp.lastSentAck := (congrArg ConnWild.lastSentAck hw :)
  have hdata : c'.tcp.pendingAppData = c.tcp.pendingAppData := (congrArg ConnWild.pendingAppData hw :)
  have hmeta : c'.sess.metaHdr = c.sess.metaHdr := (congrArg ConnWild.metaHdr hw :)
  have hnext : c'.sess.nextRecordId = c.sess.nextRecordId := (congrArg ConnWild.nextRecordId hw :)
  have hq : c'.sess.recvQ = c.sess.recvQ := (congrArg ConnWild.recvQ hw :)
  have hcur : c'.sess.currentReadRecord = c.sess.currentReadRecord :=
    (congrArg ConnWild.currentReadRecord hw :)
  have hop : c'.sess.pkaOp = c.sess.pkaOp := (congrArg ConnWild.pkaOp hw :)
  constructor
  · rw [hseq, hp]
    exact h.lastRecvSeq
  · rw [hack, hp]
    exact h.lastSentAck
  · rw [hdata]
    exact h.pendingAppData
  · rw [hport]
    exact h.portid
  · rw [hmeta]
    exact h.metaHdr
  · rw [hnext]
    exact h.nextRecordId
  · rw [hq]
    exact h.recvQ
  · rw [hcur]
    exact h.currentReadRecord
  · rw [hop]
    exact fun h' => h.pkaOp (hc h')

theorem Twin.mapSess (h : Twin k s s') (f : Session → Session)
    (hf : ∀ e v, f (e.twin v) = (f e).twin v ∧ ((f e).completedCrypto = true → e.completedCrypto = true)) :
    Twin k (s.mapSess f) (s'.mapSess f) := by
  obtain ⟨v, w, hv, hw, rfl⟩ := h
  have hkeep : f s.conn.sess = (f s.conn.sess).twin s.conn.wild := (hf s.conn.sess s.conn.wild).1
  have hwild : (s.mapSess f).conn.wild = s.conn.wild :=
    (congrArg (fun e => Conn.wild { s.conn with sess := e }) hkeep :)
  refine ⟨v, w, hv.same hwild rfl rfl (hf _ v).2, hw, ?_⟩
  show St.mk { (s.conn.twin v) with sess := f (s.conn.sess.twin v) } _ = _
  rw [(hf _ v).1]
  rfl

theorem Twin.mapTcp (h : Twin k s s') (f : Tcp → Tcp) (hf : ∀ t v, f (t.twin v) = (f t).twin v
      ∧ (f t).serverPort = t.serverPort ∧ (f t).portid = t.portid) :
    Twin k (s.mapTcp f) (s'.mapTcp f) := by
  obtain ⟨v, w, hv, hw, rfl⟩ := h
  have hkeep : f s.conn.tcp = (f s.conn.tcp).twin s.conn.wild := (hf s.conn.tcp s.conn.wild).1
  have hwild : (s.mapTcp f).conn.wild = s.conn.wild :=
    (congrArg (fun t => Conn.wild { s.conn with tcp := t }) hkeep :)
  refine ⟨v, w, hv.same hwild (hf _ v).2.1 (hf _ v).2.2 id, hw, ?_⟩
  show St.mk { (s.conn.twin v) with tcp := f (s.conn.tcp.twin v) } _ = _
  rw [(hf _ v).1]
  rfl

theorem Twin.mapCtx (h : Twin k s s') (f : Ctx → Ctx)
    (hf : ∀ c w, f (c.twin w) = (f c).twin w ∧ (f c).outside = c.outside) :
    Twin k (s.mapCtx f) (s'.mapCtx f) := by
  obtain ⟨v, w, hv, hw, rfl⟩ := h
  have hkeep : f s.ctx = (f s.ctx).twin s.ctx.wild := (hf s.ctx s.ctx.wild).1
  have hops : (f s.ctx).ops = s.ctx.ops := (congrArg Ctx.ops hkeep :)
  have hout : (f s.ctx).out = s.ctx.out := (congrArg Ctx.out hkeep :)
  have htrace : (f s.ctx).trace = s.ctx.trace := (congrArg Ctx.trace hkeep :)
  refine ⟨v, w, hv, ⟨?_, ?_, ?_, ?_⟩, ?_⟩
  · show ∀ o, OpTwin k ((f s.ctx).ops o) _
    rw [hops]
    exact hw.ops
  · show List.Forall₂ _ (f s.ctx).out _
    rw [hout]
    exact hw.out
  · show _ = delivered (f s.ctx).trace
    rw [htrace]
    exact hw.trace
  · show _ → (f s.ctx).outside.IgnoresId
    rw [(hf _ w).2]
    exact hw.outside
  · show St.mk _ (f (s.ctx.twin w)) = _
    rw [(hf _ w).1]
    rfl

theorem Twin.read {α : Type} (h : Twin k s s') (f : St → α) (hf : ∀ s v w, f (s.twin v w) = f s) :
    f s' = f s := by
  obtain ⟨v, w, -, -, rfl⟩ := h
  exact hf s v w

theorem Twin.setOp (h : Twin k s s') {a b : Op} (hab : OpTwin k a b) :
    Twin k (s.mapCtx (·.setOp o a)) (s'.mapCtx (·.setOp o b)) := by
  obtain ⟨v, w, hv, hw, rfl⟩ := h
  refine ⟨v, { w with ops := fun i => if i = o then b else w.ops i }, hv, { hw with ops := fun i => ?_ }, rfl⟩
  show OpTwin k (if i = o then a else s.ctx.ops i) (if i = o then b else w.ops i)
  split
  · exact hab
  · exact hw.ops i

theorem emit_twin (h : Twin k s s') {x y : Out} (hxy : OutTwin k x y) : Twin k (emit x s) (emit y s') := by
  obtain ⟨v, w, hv, hw, rfl⟩ := h
  refine ⟨v, { w with out := w.out ++ [y] }, hv, { hw with out := ?_ }, rfl⟩
  exact List.rel_append hw.out (.cons hxy .nil)

theorem Twin.note (h : Twin k s s') (es es' : List Event) (he : delivered es' = delivered es) :
    Twin k (s.mapCtx fun c => { c with trace := es ++ c.trace })
      (s'.mapCtx fun c => { c with trace := es' ++ c.trace }) := by
  obtain ⟨v, w, hv, hw, rfl⟩ := h
  refine ⟨v, { w with trace := es' ++ w.trace }, hv, { hw with trace := ?_ }, rfl⟩
  show delivered (es' ++ w.trace) = delivered (es ++ s.ctx.trace)
  unfold delivered at he ⊢
  have ht : delivered w.trace = delivered s.ctx.trace := hw.trace
  unfold delivered at ht
  rw [List.filterMap_append, List.filterMap_append, he, ht]

/-! ### Pools -/

theorem newSslCryptoOp_twin (h : Twin k s s') :
    Relates (Both Eq (Twin k)) (newSslCryptoOp s) (newSslCryptoOp s') := by
  have hpool := h.read (·.ctx.opPool) fun _ _ _ => rfl
  unfold newSslCryptoOp
  rw [hpool]
  split
  · exact .error _
  · exact .ok ⟨rfl, h.mapCtx _ fun _ _ => ⟨rfl, rfl⟩⟩

theorem deleteOp_twin (h : Twin k s s') : Twin k (deleteOp o s) (deleteOp o s') :=
  (h.setOp (.refl k {})).mapCtx
    (fun c => { c with
      opPool := c.opPool ++ [o], freeOpCnt := c.freeOpCnt + 1, usingOpCnt := c.usingOpCnt - 1 })
    fun _ _ => ⟨rfl, rfl⟩

theorem newRecord_twin (h : Twin k s s') (seq : UInt64) :
    Relates (Both (RecordTwin k) (Twin k)) (newRecord seq s) (newRecord seq s') := by
  have hpool := h.read (·.ctx.recordPool) fun _ _ _ => rfl
  unfold newRecord
  rw [hpool]
  split
  · exact .error _
  · obtain ⟨v, w, hv, hw, rfl⟩ := h
    refine .ok ⟨⟨v.nextRecordId, rfl, hv.nextRecordId⟩, { v with nextRecordId := v.nextRecordId + 1 }, w, ?_, ?_, rfl⟩
    · exact { hv with nextRecordId := fun hk => congrArg (· + 1) (hv.nextRecordId hk) }
    · exact { hw with }

theorem freeRecord_twin (h : Twin k s s') (hr : RecordTwin k r r') :
    Twin k (s.mapCtx (freeRecord r)) (s'.mapCtx (freeRecord r')) := by
  have hsame : freeRecord r' = freeRecord r := hr.val freeRecord fun _ _ => rfl
  rw [hsame]
  exact h.mapCtx _ fun _ _ => ⟨rfl, rfl⟩

theorem deleteRecord_twin (h : Twin k s s') (hr : RecordTwin k r r') :
    Twin k (deleteRecord r s) (deleteRecord r' s') :=
  (freeRecord_twin h hr).mapSess _ fun _ _ => ⟨rfl, id⟩

theorem removePendingPkaOp_twin (h : Twin k s s') : Twin k (removePendingPkaOp s) (removePendingPkaOp s') := by
  have hpending := h.read (·.conn.sess.pendingPkaOp) fun _ _ _ => rfl
  unfold removePendingPkaOp
  rw [hpending]
  split
  · exact h
  · rename_i o _
    dsimp only
    refine ((deleteOp_twin ?_).mapSess (fun e => { e with pendingPkaOp := none }) fun _ _ => ⟨rfl, id⟩).mapCtx
      (fun c => { c with curCryptoCnt := c.curCryptoCnt - 1 }) fun _ _ => ⟨rfl, rfl⟩
    obtain ⟨v, w, hv, hw, rfl⟩ := id h
    obtain ⟨_, _, _, data, hop, hdata⟩ := hw.ops o
    have hread : ((s.twin v w).ctx.ops o).data = data := congrArg Op.data hop
    rw [hread]
    generalize (s.ctx.ops o).data = a at hdata
    cases hdata with
    | none => exact h
    | some hr => exact deleteRecord_twin h hr

/-! ### Sending -/

theorem recvAckOf_twin {c : Conn} {v : ConnWild} (hv : ConnFits k c v) :
    recvAckOf (c.twin v) = recvAckOf c + k.shift c.tcp.serverPort := by
  have hack : recvAckOf (c.twin v) = if c.sess.state = .active ∧ c.tcp.lastRecvLen > 126 then
      v.lastRecvSeq + c.tcp.lastRecvLen - 126 else v.lastRecvSeq + c.tcp.lastRecvLen := rfl
  rw [hack, hv.lastRecvSeq]
  unfold recvAckOf
  dsimp only
  split <;> grind

theorem sendTcpSegment_twin (h : Twin k s s') (flags : Byte) (payload : Bytes) (already : UInt32) :
    Twin k (sendTcpSegment flags payload already s) (sendTcpSegment flags payload already s') := by
  obtain ⟨v, w, hv, hw, rfl⟩ := id h
  have hack := recvAckOf_twin hv
  have hport : ¬ s.conn.tcp.portid % 2 = 1 := by
    rw [hv.portid]
    decide
  let pkt : OutTcp :=
    { dstMac := s.conn.tcp.clientMac, srcMac := s.conn.tcp.serverMac, srcIp := s.conn.tcp.serverIp
      dstIp := s.conn.tcp.clientIp, srcPort := s.conn.tcp.serverPort, dstPort := s.conn.tcp.clientPort
      packetId := s.conn.tcp.ipId, flags := flags, sentSeq := s.conn.tcp.lastRecvAck + already
      recvAck := recvAckOf s.conn, rxWin := 8192, payload := payload }
  have hpkt : pkt.skew k s.conn.tcp.portid = { pkt with recvAck := recvAckOf (s.conn.twin v) } := by
    unfold OutTcp.skew
    rw [if_neg hport, hack]
  obtain ⟨v', w', hv', hw', he⟩ := emit_twin h (.tcp s.conn.tcp.portid pkt)
  rw [hpkt] at he
  refine ⟨{ v' with lastSentAck := recvAckOf (s.conn.twin v) }, w', { hv' with lastSentAck := hack }, hw', ?_⟩
  have hseg : sendTcpSegment flags payload already (s.twin v w)
      = (emit (.tcp s.conn.tcp.portid { pkt with recvAck := recvAckOf (s.conn.twin v) }) (s.twin v w)).mapTcp
        fun t => { t with
          ipId := t.ipId + 1, lastSentSeq := pkt.sentSeq, lastSentAck := recvAckOf (s.conn.twin v)
          lastSentLen := UInt32.ofNat payload.length
          totalSent := t.totalSent + UInt32.ofNat payload.length, state := .sent } := rfl
  rw [hseg, he]
  rfl

theorem sendTcpLoop_twin (flags : Byte) (fuel : Nat) :
    ∀ {s s' : St}, Twin k s s' → ∀ (left : Bytes) (already : UInt32),
      Twin k (sendTcpLoop flags fuel left already s) (sendTcpLoop flags fuel left already s') := by
  induction fuel with
  | zero => exact fun h _ _ => h
  | succ fuel ih =>
    intro s s' h left already
    have hseg := sendTcpSegment_twin h flags (left.take maxSegment) already
    unfold sendTcpLoop
    dsimp only
    split
    · exact hseg
    · exact ih hseg _ _

theorem sendTcpPacket_twin (h : Twin k s s') (flags : Byte) (payload : Bytes) :
    Twin k (sendTcpPacket flags payload s) (sendTcpPacket flags payload s') :=
  sendTcpLoop_twin flags _ h _ _

theorem sendKeyMeta_twin (h : Twin k s s') (env : Env) (port : UInt16) :
    Twin k (sendKeyMeta env port s) (sendKeyMeta env port s') := by
  obtain ⟨v, w, hv, hw, rfl⟩ := id h
  let hdr : MetaHdr :=
    { clientIp := s.conn.tcp.clientIp, serverIp := s.conn.tcp.serverIp
      clientPort := s.conn.tcp.clientPort, serverPort := s.conn.tcp.serverPort
      serverSeqNum := s.conn.tcp.lastRecvAck + sendBufferOffset s.conn.sess
      serverAckNum := s.conn.tcp.lastRecvSeq + s.conn.tcp.lastRecvLen + 80
      customEthType := 0x0801 + s.conn.tcp.clientPort % env.hostThreadsNum
      connMeta := buildConnectionMeta s.conn }
  have hack : v.lastRecvSeq + s.conn.tcp.lastRecvLen + 80
      = hdr.serverAckNum + k.shift s.conn.tcp.serverPort := by
    rw [hv.lastRecvSeq]
    grind
  have hset : Twin k (s.mapSess fun e => { e with metaHdr := hdr })
      ((s.twin v w).mapSess fun e => { e with metaHdr := hdr.skew k }) :=
    ⟨{ v with metaHdr := hdr.skew k }, w, { hv with metaHdr := ⟨rfl, rfl, rfl, rfl⟩ }, hw, rfl⟩
  have hsend : sendKeyMeta env port (s.twin v w)
      = emit (.keyMeta port { hdr with serverAckNum := v.lastRecvSeq + s.conn.tcp.lastRecvLen + 80 })
        ((s.twin v w).mapSess fun e =>
          { e with metaHdr := { hdr with serverAckNum := v.lastRecvSeq + s.conn.tcp.lastRecvLen + 80 } }) :=
    rfl
  rw [hsend, hack]
  exact emit_twin hset (.keyMeta port hdr)

/- The meta packet is built on the one before, which has to be one of the connection. -/
theorem sendRstConnMeta_twin (h : Twin k s s') (port : UInt16)
    (hmeta : k.shift s.conn.sess.metaHdr.serverPort = k.shift s.conn.tcp.serverPort) :
    Twin k (sendRstConnMeta port s) (sendRstConnMeta port s') := by
  obtain ⟨v, w, hv, hw, rfl⟩ := id h
  let hdr : MetaHdr :=
    { s.conn.sess.metaHdr with
      clientIp := s.conn.tcp.clientIp, clientPort := s.conn.tcp.clientPort
      serverSeqNum := s.conn.tcp.lastRecvAck + sendBufferOffset s.conn.sess
      serverAckNum := s.conn.tcp.lastRecvSeq + s.conn.tcp.lastRecvLen
      customEthType := 0x08FF, connMeta := buildConnectionMeta s.conn }
  have hack : v.lastRecvSeq + s.conn.tcp.lastRecvLen
      = hdr.serverAckNum + k.shift s.conn.sess.metaHdr.serverPort := by
    rw [hv.lastRecvSeq, hmeta]
    grind
  have hset : Twin k (s.mapSess fun e => { e with metaHdr := hdr })
      ((s.twin v w).mapSess fun e => { e with metaHdr := hdr.skew k }) :=
    ⟨{ v with metaHdr := hdr.skew k }, w, { hv with metaHdr := ⟨rfl, rfl, rfl, rfl⟩ }, hw, rfl⟩
  have hdr' : hdr.skew k = { v.metaHdr with
      clientIp := s.conn.tcp.clientIp, clientPort := s.conn.tcp.clientPort
      serverSeqNum := s.conn.tcp.lastRecvAck + sendBufferOffset s.conn.sess
      serverAckNum := v.lastRecvSeq + s.conn.tcp.lastRecvLen
      customEthType := 0x08FF, connMeta := buildConnectionMeta s.conn } := by
    dsimp only
    rw [hack, hv.metaHdr.serverIp, hv.metaHdr.serverPort]
    rfl
  rw [hdr'] at hset
  have hout := OutTwin.keyMeta (k := k) port hdr
  rw [hdr'] at hout
  exact emit_twin hset hout

/-! ### Clearing -/

theorem freeRecords_eq {q q' : List Record} (h : List.Forall₂ (RecordTwin k) q q') :
    freeRecords q' = freeRecords q := by
  induction h with
  | nil => rfl
  | cons hr _ ih =>
    funext c
    have hfree := hr.val freeRecord fun _ _ => rfl
    simp only [freeRecords, hfree, ih]

theorem freeRecords_twin (h : Twin k s s') (q : List Record) :
    Twin k (s.mapCtx (freeRecords q)) (s'.mapCtx (freeRecords q)) := by
  have hblind : ∀ (q : List Record) (c : Ctx) (w : CtxWild),
      freeRecords q (c.twin w) = (freeRecords q c).twin w := by
    intro q
    induction q with
    | nil => exact fun _ _ => rfl
    | cons r q ih => exact fun c w => ih (freeRecord r c) w
  have houtside : ∀ (q : List Record) (c : Ctx), (freeRecords q c).outside = c.outside := by
    intro q
    induction q with
    | nil => exact fun _ => rfl
    | cons r q ih => exact fun c => ih (freeRecord r c)
  exact h.mapCtx (freeRecords q) fun c w => ⟨hblind q c w, houtside q c⟩

theorem clearSessionFields_twin (h : Twin k s s') (rand : UInt64) :
    Twin k (s.mapSess (clearSessionFields rand)) (s'.mapSess (clearSessionFields rand)) := by
  obtain ⟨v, w, hv, hw, rfl⟩ := h
  refine ⟨{ v with metaHdr := { v.metaHdr with serverSeqNum := 0 }, currentReadRecord := none }, w, ?_, hw, rfl⟩
  exact
    { hv with
      metaHdr := ⟨rfl, hv.metaHdr.serverAckNum, hv.metaHdr.serverIp, hv.metaHdr.serverPort⟩
      currentReadRecord := .none
      pkaOp := fun h => absurd h nofun }

theorem clearSslSession_twin (h : Twin k s s') : Twin k (clearSslSession s) (clearSslSession s') := by
  have hrand := h.read (·.ctx.outside.rand) fun _ _ _ => rfl
  have hpending := removePendingPkaOp_twin (clearSessionFields_twin h s.ctx.outside.rand)
  unfold clearSslSession
  rw [hrand]
  dsimp only
  obtain ⟨v, w, hv, hw, he⟩ := id hpending
  have hq : (removePendingPkaOp (s'.mapSess (clearSessionFields s.ctx.outside.rand))).conn.sess.recvQ
      = v.recvQ := by
    rw [he]
    rfl
  rw [hq, freeRecords_eq hv.recvQ]
  obtain ⟨v', w', hv', hw', he'⟩ := freeRecords_twin hpending
    (removePendingPkaOp (s.mapSess (clearSessionFields s.ctx.outside.rand))).conn.sess.recvQ
  rw [he']
  exact ⟨{ v' with recvQ := [] }, w', { hv' with recvQ := .nil }, hw', rfl⟩

theorem Skew.shift_zero (k : Skew) : k.shift 0 = 0 := if_neg (by decide)

theorem clearTcpConnection_twin (h : Twin k s s') :
    Twin k (s.mapTcp clearTcpConnection) (s'.mapTcp clearTcpConnection) := by
  obtain ⟨v, w, hv, hw, rfl⟩ := h
  refine ⟨{ v with lastRecvSeq := 0, lastSentAck := 0, pendingAppData := [] }, w, ?_, hw, rfl⟩
  have hzero : (0 : UInt32) = 0 + k.shift 0 := by rw [k.shift_zero, UInt32.add_zero]
  exact { hv with lastRecvSeq := hzero, lastSentAck := hzero, pendingAppData := .nil _, portid := rfl }

theorem removeSession_twin (h : Twin k s s') : Relates (Twin k) (removeSession s) (removeSession s') := by
  have hcnt := h.read (·.ctx.activeCnt) fun _ _ _ => rfl
  have hid := h.read (·.conn.id) fun _ _ _ => rfl
  have hhash := h.read (fun s => htRemove s.conn.tcp s.conn.id) fun _ _ _ => rfl
  unfold removeSession
  rw [hcnt]
  refine .ite (fun _ => .error _) fun _ => .ok ?_
  rw [hhash, hid]
  have hout : Twin k (s.mapCtx (htRemove s.conn.tcp s.conn.id)) (s'.mapCtx (htRemove s.conn.tcp s.conn.id)) :=
    h.mapCtx _ fun _ _ => ⟨rfl, rfl⟩
  have hcleared := clearTcpConnection_twin (clearSslSession_twin
    (hout.mapCtx (fun c => { c with activeCnt := c.activeCnt - 1 }) fun _ _ => ⟨rfl, rfl⟩))
  have hfree := hcleared.mapCtx
    (fun c => { c with freeSessionQ := c.freeSessionQ ++ [s.conn.id], freeCnt := c.freeCnt + 1 })
    fun _ _ => ⟨rfl, rfl⟩
  exact hfree.note [.remove s.conn.id (outstanding s.ctx s.conn.id), .clear s.conn]
    [.remove s.conn.id (outstanding s'.ctx s.conn.id), .clear s'.conn] rfl

theorem abortSession_twin (h : Twin k s s') : Relates (Twin k) (abortSession s) (abortSession s') :=
  removeSession_twin (sendTcpPacket_twin h _ _)

theorem applyHws_twin (h : Twin k s s') : Twin k (applyHws s) (applyHws s') := by
  have hcond := h.read (fun s => (s.conn.sess.state, s.conn.tcp.recvMigFin, s.conn.tcp.hwsInserted))
    fun _ _ _ => rfl
  simp only [Prod.mk.injEq] at hcond
  unfold applyHws
  rw [hcond.1, hcond.2.1, hcond.2.2]
  split
  · exact h.mapTcp _ fun _ _ => ⟨rfl, rfl, rfl⟩
  · exact h

theorem removeHws_twin (h : Twin k s s') : Relates (Twin k) (removeHws s) (removeHws s') := by
  have happlied := h.read (·.conn.tcp.hwsApplied) fun _ _ _ => rfl
  have hdel := h.read (·.conn.tcp.hwsReadyToDel) fun _ _ _ => rfl
  unfold removeHws
  rw [happlied, hdel]
  exact .ite (fun _ => removeSession_twin h) fun _ => .ok h

theorem forwardAppData_twin (h : Twin k s s') : Twin k (forwardAppData s) (forwardAppData s') := by
  obtain ⟨v, w, hv, hw, rfl⟩ := id h
  have hcond : ((s.twin v w).conn.tcp.hwsApplied = true ∧ (s.twin v w).conn.tcp.pendingAppData ≠ [])
      ↔ (s.conn.tcp.hwsApplied = true ∧ s.conn.tcp.pendingAppData ≠ []) :=
    and_congr_right fun _ => not_congr hv.pendingAppData.eq_nil
  unfold forwardAppData
  by_cases hfwd : s.conn.tcp.hwsApplied = true ∧ s.conn.tcp.pendingAppData ≠ []
  · rw [if_pos hfwd, if_pos (hcond.mpr hfwd)]
    obtain ⟨v', w', hv', hw', he⟩ := emit_twin h (.frame (s.conn.tcp.portid + 1) hv.pendingAppData)
    refine ⟨{ v' with pendingAppData := [] }, w', { hv' with pendingAppData := .nil _ }, hw', ?_⟩
    have hemit : emit (.frame ((s.twin v w).conn.tcp.portid + 1) (s.twin v w).conn.tcp.pendingAppData)
        (s.twin v w) = emit (.frame (s.conn.tcp.portid + 1) v.pendingAppData) (s.twin v w) := rfl
    rw [hemit, he]
    rfl
  · rw [if_neg hfwd, if_neg fun h' => hfwd (hcond.mp h')]
    exact h

end

end Xtls.Nic
