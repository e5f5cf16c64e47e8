import Xtls.Lib.Layout
import Xtls.Nic.Placement
import Xtls.Nic.TwinRead

/-!
# Two runs of the machine

The packets of the second run are those of the first one with other sequence numbers of the clients, and
what a free connection was left with may differ in everything that its next SYN overwrites.
-/

namespace Xtls.Nic

/-! ### Inputs -/

/-- A packet of a client whose sequence number is `d` ahead. -/
def Packet.shift (d : UInt32) (p : Packet) : Packet :=
  { p with seq := p.seq + d, frame := shiftFrame d p.frame }

/-- Packets of the host whose acknowledgement numbers, and the copies at offset 48, are `d` apart. -/
structure HostTwin (d : UInt32) (p p' : Packet) : Prop where
  etherType : p'.etherType = p.etherType
  tos : p'.tos = p.tos
  addr : p'.addr = p.addr
  seq : p'.seq = p.seq
  ack : p'.ack = p.ack + d
  copy : le32 p'.frame 48 = le32 p.frame 48 + d

inductive InputTwin (k : Skew) : Input → Input → Prop
  | client {port : UInt16} (hport : port % 2 = 0) (p : Packet) :
      InputTwin k (.packet port p) (.packet port (p.shift k.seq))
  | host {port : UInt16} (hport : port % 2 = 1) {p p' : Packet} (h : HostTwin k.seq p p') :
      InputTwin k (.packet port p) (.packet port p')
  | serve (c : ConnId) : InputTwin k (.serve c) (.serve c)
  | pkaSubmit (priv : Operand) : InputTwin k (.pkaSubmit priv) (.pkaSubmit priv)
  | pkaComplete (o : OpId) (results : List Bytes) :
      InputTwin k (.pkaComplete o results) (.pkaComplete o results)
  | outside (o : Outside) (ho : k.ids = true → o.IgnoresId) : InputTwin k (.outside o) (.outside o)

def KnownTo (p : Packet) (s : Sys) : Except Halt (Option ConnId) → Prop
  | .ok (some c) => p.dstPort = 0xBB01 ∧ (s.conns c).sess.metaHdr.serverPort = 0xBB01
  | _ => True

instance (p : Packet) (s : Sys) (found : Except Halt (Option ConnId)) : Decidable (KnownTo p s found) :=
  match found with
  | .ok (some _) => inferInstanceAs (Decidable (_ ∧ _))
  | .ok none => inferInstanceAs (Decidable True)
  | .error _ => inferInstanceAs (Decidable True)

/-- A packet of the host comes to a connection to the HTTPS port that has sent a key meta packet, which is
what sets `server_port` of `meta_hdr`. -/
def HostKnows (x : Input) (s : Sys) : Prop :=
  match x with
  | .packet port p => port % 2 = 1 → KnownTo p s (searchTcpConnection p s)
  | _ => True

instance (x : Input) (s : Sys) : Decidable (HostKnows x s) :=
  match x with
  | .packet port p => inferInstanceAs (Decidable (port % 2 = 1 → KnownTo p s (searchTcpConnection p s)))
  | .serve _ => inferInstanceAs (Decidable True)
  | .pkaSubmit _ => inferInstanceAs (Decidable True)
  | .pkaComplete _ _ => inferInstanceAs (Decidable True)
  | .outside _ => inferInstanceAs (Decidable True)

/-! ### States of all connections -/

def ConnTwin (k : Skew) (c c' : Conn) : Prop := ∃ v, ConnFits k c v ∧ c' = c.twin v

def CtxTwin (k : Skew) (c c' : Ctx) : Prop := ∃ w, CtxFits k c w ∧ c' = c.twin w

/- A free connection: its next SYN overwrites the addresses and the cookie. -/
def LeftTwin (k : Skew) (c c' : Conn) : Prop :=
  ∃ v clientMac serverMac cookie, ConnFits k c v ∧ c' = { c.twin v with
    tcp := { c.tcp.twin v with clientMac := clientMac, serverMac := serverMac, cookie := cookie } }

structure SysTwin (k : Skew) (s s' : Sys) : Prop where
  conns : ∀ i, (s.conns i).tcp.state ≠ .idle → ConnTwin k (s.conns i) (s'.conns i)
  left : ∀ i, LeftTwin k (s.conns i) (s'.conns i)
  ctx : CtxTwin k s.ctx s'.ctx

/-- States that two runs reach side by side. -/
structure Paired (k : Skew) (s s' : Sys) : Prop where
  opFacts : OpFacts s
  placed : Placed s
  twin : SysTwin k s s'

section

variable {env : Env} {k : Skew} {s s' : Sys} {t t' : St} {c : ConnId} {p p' : Packet} {port : UInt16}

theorem ConnTwin.left {c c' : Conn} (h : ConnTwin k c c') : LeftTwin k c c' := by
  obtain ⟨v, hv, rfl⟩ := h
  exact ⟨v, c.tcp.clientMac, c.tcp.serverMac, c.tcp.cookie, hv, rfl⟩

theorem ConnTwin.twin {c c' : Conn} {x x' : Ctx} (hc : ConnTwin k c c') (hx : CtxTwin k x x') :
    Twin k ⟨c, x⟩ ⟨c', x'⟩ := by
  obtain ⟨v, hv, rfl⟩ := hc
  obtain ⟨w, hw, rfl⟩ := hx
  exact ⟨v, w, hv, hw, rfl⟩

theorem Twin.conn (h : Twin k t t') : ConnTwin k t.conn t'.conn := by
  obtain ⟨v, w, hv, -, rfl⟩ := h
  exact ⟨v, hv, rfl⟩

theorem Twin.ctx (h : Twin k t t') : CtxTwin k t.ctx t'.ctx := by
  obtain ⟨v, w, -, hw, rfl⟩ := h
  exact ⟨w, hw, rfl⟩

theorem SysTwin.put (hs : SysTwin k s s') (ht : Twin k t t') : SysTwin k (s.put c t) (s'.put c t') where
  conns i hi := by
    unfold Sys.put at hi ⊢
    dsimp only at hi ⊢
    split
    · exact ht.conn
    · rename_i hne
      rw [if_neg hne] at hi
      exact hs.conns i hi
  left i := by
    unfold Sys.put
    dsimp only
    split
    · exact ht.conn.left
    · exact hs.left i
  ctx := ht.ctx

theorem Sys.on_twin (hs : SysTwin k s s') (hc : (s.conns c).tcp.state ≠ .idle) {f g : St → Except Halt St}
    (hf : ∀ t', Twin k ⟨s.conns c, s.ctx⟩ t' → Relates (Twin k) (f ⟨s.conns c, s.ctx⟩) (g t')) :
    Relates (fun u u' => SysTwin k u u' ∧ ConnTwin k (u.conns c) (u'.conns c)) (s.on c f) (s'.on c g) := by
  refine .bind (hf _ ((hs.conns c hc).twin hs.ctx)) fun t t' ht => .ok ⟨hs.put ht, ?_⟩
  have hconn : ∀ (s : Sys) (t : St), (s.put c t).conns c = t.conn := fun _ _ => if_pos rfl
  rw [hconn, hconn]
  exact ht.conn

/-! ### The search -/

theorem LeftTwin.read {α : Type} {c c' : Conn} (h : LeftTwin k c c') (f : Conn → α)
    (hf : ∀ c v m m' cookie, f { Conn.twin v c with
      tcp := { c.tcp.twin v with clientMac := m, serverMac := m', cookie := cookie } } = f c) : f c' = f c := by
  obtain ⟨v, m, m', cookie, -, rfl⟩ := h
  exact hf c v m m' cookie

theorem htSearch_twin (hs : SysTwin k s s') (key : Tcp) (cs : List ConnId) :
    htSearch s'.conns key cs = htSearch s.conns key cs := by
  induction cs with
  | nil => rfl
  | cons c cs ih =>
    have hread := (hs.left c).read (fun c => (c.tcp.state, c.tcp.addr)) fun _ _ _ _ _ => rfl
    simp only [Prod.mk.injEq, Tcp.addr] at hread
    obtain ⟨hstate, hip, hport, hip', hport'⟩ := hread
    unfold htSearch
    dsimp only
    rw [hstate, hip, hport, hip', hport', ih]

theorem searchTcpConnection_twin (hs : SysTwin k s s') (haddr : p'.addr = p.addr) :
    searchTcpConnection p' s' = searchTcpConnection p s := by
  simp only [Packet.addr, Prod.mk.injEq] at haddr
  obtain ⟨hip, hport, hip', hport'⟩ := haddr
  obtain ⟨w, -, hctx⟩ := hs.ctx
  unfold searchTcpConnection
  rw [hip, hport, hip', hport', hctx]
  exact htSearch_twin hs _ _

/-! ### Packets of a connection -/

theorem Skew.shift_https (k : Skew) {port : UInt16} (h : port = 0xBB01) : k.shift port = k.seq := if_pos h

theorem seqLt_shift (a b d : UInt32) : seqLt (a + d) (b + d) = seqLt a b := by
  unfold seqLt
  have hsub : a + d - (b + d) = a - b := by grind
  rw [hsub]

theorem seqGt_shift (a b d : UInt32) : seqGt (a + d) (b + d) = seqGt a b := by
  unfold seqGt
  have hsub : a + d - (b + d) = a - b := by grind
  simp only [hsub, ne_eq, UInt32.add_left_inj]

theorem validateSequence_twin {x : Conn} {v : ConnWild} (hv : ConnFits k x v)
    (hport : x.tcp.serverPort = 0xBB01) (seq ack : UInt32) (len : UInt16) :
    validateSequence (x.tcp.twin v) (seq + k.seq) ack len = validateSequence x.tcp seq ack len := by
  have hrecv : (x.tcp.twin v).lastRecvSeq = x.tcp.lastRecvSeq + k.seq := by
    rw [← k.shift_https hport]
    exact hv.lastRecvSeq
  have hsent : (x.tcp.twin v).lastSentAck = x.tcp.lastSentAck + k.seq := by
    rw [← k.shift_https hport]
    exact hv.lastSentAck
  have hack : (x.tcp.twin v).lastRecvAck = x.tcp.lastRecvAck := rfl
  have hlen : (x.tcp.twin v).lastRecvLen = x.tcp.lastRecvLen := rfl
  have hend : x.tcp.lastRecvSeq + k.seq + x.tcp.lastRecvLen
      = x.tcp.lastRecvSeq + x.tcp.lastRecvLen + k.seq := by grind
  unfold validateSequence
  rw [hrecv, hsent, hack, hlen, hend]
  simp only [UInt32.add_left_inj, seqLt_shift, seqGt_shift]

theorem processNormalSeqCase_twin (h : Twin k t t') (hport : t.conn.tcp.serverPort = 0xBB01) (p : Packet) :
    Relates (Twin k) (processNormalSeqCase env p t) (processNormalSeqCase env (p.shift k.seq) t') := by
  obtain ⟨v, w, hv, hw, rfl⟩ := h
  have hset : Twin k (storeNumbers p t) (storeNumbers (p.shift k.seq) (t.twin v w)) := by
    refine ⟨{ v with lastRecvSeq := p.seq + k.seq }, w, { hv with lastRecvSeq := ?_ }, hw, rfl⟩
    exact congrArg (p.seq + ·) (k.shift_https hport).symm
  refine .bind (processSslPacket_twin hset p.payload) ?_
  rintro ⟨ret, u⟩ ⟨_, u'⟩ ⟨rfl, hu⟩
  exact .ite (fun _ => .ok (sendTcpPacket_twin hu _ _)) fun _ => .ok hu

theorem keepAppData_twin (h : Twin k t t') (p : Packet) :
    Relates (Twin k) (keepAppData p t) (keepAppData (p.shift k.seq) t') := by
  have hframe : FrameTwin k.seq p.stored (p.shift k.seq).stored := ⟨p.frame, _, rfl, rfl⟩
  have hbounded : Relates (FrameTwin k.seq) (bounded maxAppDataSize p.stored)
      (bounded maxAppDataSize (p.shift k.seq).stored) := by
    unfold bounded
    rw [hframe.length]
    exact .ite (fun _ => .error _) fun _ => .ok hframe
  refine .bind hbounded fun b b' hb => .ok ?_
  obtain ⟨v, w, hv, hw, rfl⟩ := h
  exact ⟨{ v with pendingAppData := b' }, w, { hv with pendingAppData := hb }, hw, rfl⟩

theorem processHandshakePacket_twin (h : Twin k t t') (hport : t.conn.tcp.serverPort = 0xBB01) (p : Packet) :
    Relates (Twin k) (processHandshakePacket env p t) (processHandshakePacket env (p.shift k.seq) t') := by
  have honload := h.read (·.conn.tcp.onload) fun _ _ _ => rfl
  have hcase : validateSequence t'.conn.tcp (p.seq + k.seq) p.ack p.payloadLen
      = validateSequence t.conn.tcp p.seq p.ack p.payloadLen := by
    obtain ⟨v, w, hv, hw, rfl⟩ := h
    exact validateSequence_twin hv hport _ _ _
  have hshift : validateSequence t'.conn.tcp (p.shift k.seq).seq (p.shift k.seq).ack (p.shift k.seq).payloadLen
      = validateSequence t'.conn.tcp (p.seq + k.seq) p.ack p.payloadLen := rfl
  unfold processHandshakePacket
  rw [honload, hshift, hcase]
  refine .ite (fun _ => keepAppData_twin h p) fun _ => ?_
  split
  · exact processNormalSeqCase_twin h hport p
  · exact .ok h
  · exact .ok (sendTcpPacket_twin h _ _)
  · exact .ok h

theorem processAckPacket_twin (h : Twin k t t') (p : Packet) :
    Relates (Twin k) (processAckPacket p t) (processAckPacket (p.shift k.seq) t') := by
  have honload := h.read (·.conn.tcp.onload) fun _ _ _ => rfl
  have hcookie := h.read (·.conn.tcp.cookie) fun _ _ _ => rfl
  unfold processAckPacket
  rw [honload, hcookie]
  exact .ite (fun _ => .ok h) fun _ => .ite (fun _ => keepAppData_twin h p) fun _ => .ok h

theorem matchesMeta_twin (h : Twin k t t') (hp : HostTwin k.seq p p')
    (hmeta : k.shift t.conn.sess.metaHdr.serverPort = k.seq) :
    matchesMeta p' t'.conn.sess = matchesMeta p t.conn.sess := by
  obtain ⟨v, w, hv, hw, rfl⟩ := h
  have hseq : (t.twin v w).conn.sess.metaHdr.serverSeqNum = t.conn.sess.metaHdr.serverSeqNum :=
    hv.metaHdr.serverSeqNum
  have hack : (t.twin v w).conn.sess.metaHdr.serverAckNum = t.conn.sess.metaHdr.serverAckNum + k.seq := by
    rw [← hmeta]
    exact hv.metaHdr.serverAckNum
  unfold matchesMeta
  simp only [hseq, hack, hp.seq, hp.ack, UInt32.add_left_inj]

theorem odd_succ {n : UInt16} (h : n % 2 = 0) : (n + 1) % 2 = 1 := by
  have heven : n.toNat % 2 = 0 := by
    have htoNat := congrArg UInt16.toNat h
    rwa [UInt16.toNat_mod] at htoNat
  have hlt := n.toNat_lt
  apply UInt16.toNat_inj.mp
  rw [UInt16.toNat_mod, UInt16.toNat_add]
  show (n.toNat + 1) % 2 ^ 16 % 2 = 1
  omega

theorem processHostMigFin_twin (h : Twin k t t') (hp : HostTwin k.seq p p')
    (hmeta : k.shift t.conn.sess.metaHdr.serverPort = k.seq) (htcp : k.shift t.conn.tcp.serverPort = k.seq) :
    Twin k (processHostMigFin p t) (processHostMigFin p' t') := by
  have hmatch := matchesMeta_twin h hp hmeta
  have hport := h.read (·.conn.tcp.portid) fun _ _ _ => rfl
  have hodd : (t.conn.tcp.portid + 1) % 2 = 1 := by
    obtain ⟨v, w, hv, hw, rfl⟩ := h
    exact odd_succ hv.portid
  let reset (seq : UInt32) : OutTcp :=
    { srcMac := t.conn.tcp.clientMac, dstMac := t.conn.tcp.serverMac, srcIp := t.conn.tcp.clientIp
      dstIp := t.conn.tcp.serverIp, srcPort := t.conn.tcp.clientPort, dstPort := t.conn.tcp.serverPort
      sentSeq := seq, recvAck := 0, packetId := 0xffff, rxWin := 8192, flags := TCP_FLAG_RST ||| TCP_FLAG_ACK }
  have hreset : Twin k (emit (.tcp (t.conn.tcp.portid + 1) (reset (le32 p.frame 48))) t)
      (emit (.tcp (t.conn.tcp.portid + 1) (reset (le32 p'.frame 48))) t') := by
    have hout := OutTwin.tcp (k := k) (t.conn.tcp.portid + 1) (reset (le32 p.frame 48))
    have hskew : (reset (le32 p.frame 48)).skew k (t.conn.tcp.portid + 1) = reset (le32 p'.frame 48) := by
      unfold OutTcp.skew
      rw [if_pos hodd, hp.copy]
    rw [hskew] at hout
    exact emit_twin h hout
  have hrst : Twin k
      (sendRstConnMeta (t.conn.tcp.portid + 1) (emit (.tcp (t.conn.tcp.portid + 1) (reset (le32 p.frame 48))) t))
      (sendRstConnMeta (t.conn.tcp.portid + 1) (emit (.tcp (t.conn.tcp.portid + 1) (reset (le32 p'.frame 48))) t')) :=
    sendRstConnMeta_twin hreset _ (hmeta.trans htcp.symm)
  have hneed := hrst.mapTcp (fun t => { t with needToSendRstMeta := true }) fun _ _ => ⟨rfl, rfl, rfl⟩
  have hbody : processHostMigFin p' t' = if matchesMeta p' t'.conn.sess then
      t'.mapTcp fun t => { t with recvMigFin := true }
    else (sendRstConnMeta (t.conn.tcp.portid + 1)
      (emit (.tcp (t.conn.tcp.portid + 1) (reset (le32 p'.frame 48))) t')).mapTcp
      fun t => { t with needToSendRstMeta := true } := by
    obtain ⟨v, w, hv, hw, rfl⟩ := h
    rfl
  rw [hbody, hmatch]
  unfold processHostMigFin
  dsimp only
  split
  · exact h.mapTcp _ fun _ _ => ⟨rfl, rfl, rfl⟩
  · exact hneed

theorem processHostClose_twin (h : Twin k t t') (hp : HostTwin k.seq p p')
    (hmeta : k.shift t.conn.sess.metaHdr.serverPort = k.seq) :
    Twin k (processHostClose p t) (processHostClose p' t') := by
  unfold processHostClose
  rw [matchesMeta_twin h hp hmeta]
  split
  · exact h.mapTcp _ fun _ _ => ⟨rfl, rfl, rfl⟩
  · exact h

theorem serveConnection_twin (h : Twin k t t') :
    Relates (Twin k) (serveConnection env t) (serveConnection env t') := by
  refine .bind (processSessionRead_twin h) fun u u' hu => ?_
  refine .bind (getProcessedCrypto_twin hu) fun x x' hx => ?_
  exact .bind (removeHws_twin (applyHws_twin hx)) fun y y' hy =>
    sendRemainServerRecords_twin (forwardAppData_twin hy)

/-! ### The core -/

theorem ConnFits.refl (x : Conn) (htcp : k.shift x.tcp.serverPort = 0) (hport : x.tcp.portid % 2 = 0)
    (hmeta : k.shift x.sess.metaHdr.serverPort = 0)
    (hdata : FrameTwin k.seq x.tcp.pendingAppData x.tcp.pendingAppData) : ConnFits k x x.wild where
  lastRecvSeq := by
    rw [htcp, UInt32.add_zero]
    rfl
  lastSentAck := by
    rw [htcp, UInt32.add_zero]
    rfl
  pendingAppData := hdata
  portid := hport
  metaHdr := ⟨rfl, by rw [hmeta, UInt32.add_zero]; rfl, rfl, rfl⟩
  nextRecordId _ := rfl
  recvQ := List.forall₂_same.mpr fun r _ => .refl k r
  currentReadRecord := by
    show Option.Rel _ x.sess.currentReadRecord x.sess.currentReadRecord
    cases x.sess.currentReadRecord with
    | none => exact .none
    | some r => exact .some (.refl k r)
  pkaOp _ := rfl

theorem CtxTwin.idle {x x' : Ctx} (h : CtxTwin k x x') : Twin k ⟨{ id := 0 }, x⟩ ⟨{ id := 0 }, x'⟩ := by
  obtain ⟨w, hw, rfl⟩ := h
  exact ⟨Conn.wild { id := 0 }, w, .refl _ k.shift_zero rfl k.shift_zero (.nil _), hw, rfl⟩

theorem Sys.emit_twin (hs : SysTwin k s s') {x y : Out} (hxy : OutTwin k x y) :
    SysTwin k (s.emit x) (s'.emit y) where
  conns := hs.conns
  left := hs.left
  ctx := (Nic.emit_twin hs.ctx.idle hxy).ctx

theorem sendSynackPacket_twin (hs : SysTwin k s s') (hport : port % 2 = 0) (hp : p.dstPort = 0xBB01)
    (cookie : UInt32) :
    SysTwin k (sendSynackPacket port p cookie s) (sendSynackPacket port (p.shift k.seq) cookie s') := by
  obtain ⟨w, -, hctx⟩ := id hs.ctx
  have hrand : s'.ctx.outside.rand = s.ctx.outside.rand := by rw [hctx]; rfl
  let pkt (ack : UInt32) : OutTcp :=
    { dstMac := p.srcMac, srcMac := p.dstMac, srcIp := p.dstIp, dstIp := p.srcIp
      srcPort := p.dstPort, dstPort := p.srcPort, packetId := UInt16.ofNat s.ctx.outside.rand.toNat
      flags := TCP_FLAG_SYN ||| TCP_FLAG_ACK, sentSeq := cookie, recvAck := ack
      rxWin := p.rxWin, options := p.options }
  have hout := OutTwin.tcp (k := k) port (pkt (p.seq + 1))
  have hskew : (pkt (p.seq + 1)).skew k port = pkt (p.seq + k.seq + 1) := by
    have hack : p.seq + 1 + k.seq = p.seq + k.seq + 1 := by grind
    unfold OutTcp.skew
    rw [if_neg (by rw [hport]; decide), k.shift_https hp]
    exact congrArg pkt hack
  rw [hskew] at hout
  have hsend : sendSynackPacket port (p.shift k.seq) cookie s' = s'.emit (.tcp port (pkt (p.seq + k.seq + 1))) := by
    unfold sendSynackPacket
    rw [hrand]
    rfl
  rw [hsend]
  exact Sys.emit_twin hs hout

theorem LeftTwin.inserted {x x' : Conn} (h : LeftTwin k x x') (hport : port % 2 = 0) (hp : p.dstPort = 0xBB01)
    (cookie : UInt32) : ConnTwin k { x with tcp := insertedTcp port cookie p x.tcp }
      { x' with tcp := insertedTcp port cookie (p.shift k.seq) x'.tcp } := by
  obtain ⟨v, m, m', old, hv, rfl⟩ := h
  have hseq : p.seq + k.seq + 1 = p.seq + 1 + k.shift p.dstPort := by
    rw [k.shift_https hp]
    grind
  refine ⟨{ v with lastRecvSeq := p.seq + k.seq + 1, lastSentAck := p.seq + k.seq + 1 }, ?_, rfl⟩
  exact { hv with lastRecvSeq := hseq, lastSentAck := hseq, portid := hport }

theorem insertTcpConnection_twin (hs : SysTwin k s s') (hport : port % 2 = 0) (hp : p.dstPort = 0xBB01) :
    Relates (fun x y => x.1 = y.1 ∧ SysTwin k x.2 y.2 ∧ ConnTwin k (x.2.conns x.1) (y.2.conns y.1))
      (insertTcpConnection env port p s) (insertTcpConnection env port (p.shift k.seq) s') := by
  obtain ⟨w, hw, hctx⟩ := id hs.ctx
  have hq : s'.ctx.freeSessionQ = s.ctx.freeSessionQ := by rw [hctx]; rfl
  unfold insertTcpConnection
  rw [hq]
  split
  · exact .error _
  · rename_i c q _
    have hstate := (hs.left c).read (·.tcp.state) fun _ _ _ _ _ => rfl
    rw [hstate]
    refine .ite (fun _ => .error _) fun _ => .ok ⟨rfl, ?_⟩
    dsimp only
    have hcookie : getCookie env s'.ctx.outside.tMajor (p.shift k.seq) = getCookie env s.ctx.outside.tMajor p := by
      rw [hctx]
      rfl
    have hnew := (hs.left c).inserted hport hp (getCookie env s.ctx.outside.tMajor p)
    rw [hcookie, if_pos rfl, if_pos rfl]
    refine ⟨⟨fun i hi => ?_, fun i => ?_, ?_⟩, hnew⟩
    · dsimp only at hi ⊢
      split
      · exact hnew
      · rename_i hne
        rw [if_neg hne] at hi
        exact hs.conns i hi
    · dsimp only
      split
      · exact hnew.left
      · exact hs.left i
    · have hhash : htInsert (insertedTcp port (getCookie env s.ctx.outside.tMajor p) (p.shift k.seq) (s'.conns c).tcp) c
          = htInsert (insertedTcp port (getCookie env s.ctx.outside.tMajor p) p (s.conns c).tcp) c := rfl
      have hin := ((hs.ctx.idle.mapCtx (fun x => { x with freeSessionQ := q, freeCnt := x.freeCnt - 1 })
        fun _ _ => ⟨rfl, rfl⟩).mapCtx
          (htInsert (insertedTcp port (getCookie env s.ctx.outside.tMajor p) p (s.conns c).tcp) c)
          fun _ _ => ⟨rfl, rfl⟩).mapCtx (fun x => { x with activeCnt := x.activeCnt + 1 }) fun _ _ => ⟨rfl, rfl⟩
      exact (hin.note [.insert c] [.insert c] rfl).ctx

theorem processSynPacket_twin (hs : SysTwin k s s') (hport : port % 2 = 0) (hp : p.dstPort = 0xBB01) :
    Relates (SysTwin k) (processSynPacket env port p s) (processSynPacket env port (p.shift k.seq) s') := by
  have hsearch : searchTcpConnection (p.shift k.seq) s' = searchTcpConnection p s :=
    searchTcpConnection_twin hs rfl
  unfold processSynPacket
  rw [hsearch]
  refine .bind_same_of fun found hfound => ?_
  cases found with
  | none =>
    refine .bind (insertTcpConnection_twin hs hport hp) ?_
    rintro ⟨c, u⟩ ⟨_, u'⟩ ⟨rfl, hu, hconn⟩
    have hcookie : (u'.conns c).tcp.cookie = (u.conns c).tcp.cookie := by
      obtain ⟨v, -, he⟩ := hconn
      dsimp only at he
      rw [he]
      rfl
    dsimp only
    rw [hcookie]
    exact .ok (sendSynackPacket_twin hu hport hp _)
  | some c =>
    have hlive := searchTcpConnection_live hfound
    obtain ⟨v, hv, he⟩ := hs.conns c hlive
    have hhttps : (s.conns c).tcp.serverPort = 0xBB01 := by
      have haddr := searchTcpConnection_addr hfound
      simp only [Tcp.addr, Packet.addr, Prod.mk.injEq] at haddr
      exact haddr.2.2.2.trans hp
    have hsame : (p.shift k.seq).seq + 1 = (s'.conns c).tcp.lastRecvSeq
        ↔ p.seq + 1 = (s.conns c).tcp.lastRecvSeq := by
      have hseq : (s'.conns c).tcp.lastRecvSeq = (s.conns c).tcp.lastRecvSeq + k.seq := by
        rw [he, ← k.shift_https hhttps]
        exact hv.lastRecvSeq
      have hnext : (p.shift k.seq).seq + 1 = p.seq + 1 + k.seq := by
        show p.seq + k.seq + 1 = _
        grind
      rw [hseq, hnext, UInt32.add_left_inj]
    have hcookie : (s'.conns c).tcp.cookie = (s.conns c).tcp.cookie := by
      rw [he]
      rfl
    dsimp only
    by_cases hagain : p.seq + 1 = (s.conns c).tcp.lastRecvSeq
    · rw [if_pos hagain, if_pos (hsame.mpr hagain), hcookie]
      exact .ok (sendSynackPacket_twin hs hport hp _)
    · rw [if_neg hagain, if_neg fun h => hagain (hsame.mp h)]
      refine .bind (Sys.on_twin hs hlive fun _ h => removeSession_twin h) ?_
      rintro u u' ⟨hu, hconn⟩
      have hold : (u'.conns c).tcp.cookie = (u.conns c).tcp.cookie := by
        obtain ⟨v, -, he⟩ := hconn
        rw [he]
        rfl
      rw [hold]
      refine .bind (insertTcpConnection_twin (sendSynackPacket_twin hu hport hp _) hport hp) ?_
      rintro ⟨d, x⟩ ⟨_, x'⟩ ⟨rfl, hx, -⟩
      exact .ok hx

/- FIN and RST of an onloaded connection go to the host as they are. -/
theorem forwardEnd_twin (hs : SysTwin k s s') (p : Packet) :
    Relates (SysTwin k)
      (if (s.conns c).tcp.onload then pure (s.emit (.frame (port + 1) p.frame)) else pure s : Except Halt Sys)
      (if (s'.conns c).tcp.onload then pure (s'.emit (.frame (port + 1) (p.shift k.seq).frame)) else pure s') := by
  have honload := (hs.left c).read (·.tcp.onload) fun _ _ _ _ _ => rfl
  have hframe : FrameTwin k.seq p.frame (p.shift k.seq).frame := by
    refine ⟨p.frame, p.frame.length, (slice_self _).symm, ?_⟩
    rw [← shiftFrame_length k.seq p.frame]
    exact (slice_self _).symm
  rw [honload]
  exact .ite (fun _ => .ok (Sys.emit_twin hs (.frame _ hframe))) fun _ => .ok hs

theorem processFinPacket_twin (hs : SysTwin k s s') (hport : port % 2 = 0) (hp : p.dstPort = 0xBB01) :
    Relates (SysTwin k) (processFinPacket port p s) (processFinPacket port (p.shift k.seq) s') := by
  have hsearch : searchTcpConnection (p.shift k.seq) s' = searchTcpConnection p s :=
    searchTcpConnection_twin hs rfl
  unfold processFinPacket
  rw [hsearch]
  refine .bind_same fun found => ?_
  cases found with
  | none =>
    let pkt (ack : UInt32) : OutTcp :=
      { srcMac := p.dstMac, dstMac := p.srcMac, srcIp := p.dstIp, dstIp := p.srcIp
        srcPort := p.dstPort, dstPort := p.srcPort, packetId := 0xffff
        flags := TCP_FLAG_RST ||| TCP_FLAG_ACK, sentSeq := p.ack, recvAck := ack, rxWin := 8192 }
    have hout := OutTwin.tcp (k := k) port (pkt (p.seq + p.payloadLen.toUInt32))
    have hskew : (pkt (p.seq + p.payloadLen.toUInt32)).skew k port
        = pkt (p.seq + k.seq + p.payloadLen.toUInt32) := by
      have hack : p.seq + p.payloadLen.toUInt32 + k.seq = p.seq + k.seq + p.payloadLen.toUInt32 := by grind
      unfold OutTcp.skew
      rw [if_neg (by rw [hport]; decide), k.shift_https hp]
      exact congrArg pkt hack
    rw [hskew] at hout
    exact .ok (Sys.emit_twin hs hout)
  | some c => exact forwardEnd_twin hs p

theorem processRstPacket_twin (hs : SysTwin k s s') (p : Packet) :
    Relates (SysTwin k) (processRstPacket port p s) (processRstPacket port (p.shift k.seq) s') := by
  have hsearch : searchTcpConnection (p.shift k.seq) s' = searchTcpConnection p s :=
    searchTcpConnection_twin hs rfl
  unfold processRstPacket
  rw [hsearch]
  refine .bind_same fun found => ?_
  cases found with
  | none => exact .ok hs
  | some c => exact forwardEnd_twin hs p

theorem onConnection_twin (hs : SysTwin k s s') (haddr : p'.addr = p.addr) {f g : St → Except Halt St}
    (hf : ∀ c, searchTcpConnection p s = .ok (some c) → ∀ t', Twin k ⟨s.conns c, s.ctx⟩ t' →
      Relates (Twin k) (f ⟨s.conns c, s.ctx⟩) (g t')) :
    Relates (SysTwin k) (onConnection p f s) (onConnection p' g s') := by
  unfold onConnection
  rw [searchTcpConnection_twin hs haddr]
  refine .bind_same_of fun found hfound => ?_
  cases found with
  | none => exact .ok hs
  | some c =>
    exact (Sys.on_twin hs (searchTcpConnection_live hfound) (hf c hfound)).mono fun _ _ h => h.1

/-! ### Steps -/

theorem validatePacketType_even (hport : port % 2 = 0) {m : PacketType}
    (h : validatePacketType port p = some m) : p.dstPort = 0xBB01 ∧ m ≠ .hostMigFin ∧ m ≠ .hostClose := by
  simp only [validatePacketType, hport, if_true] at h
  split at h
  · cases h
  · split at h
    · split at h
      · cases h
      · split at h
        · cases h
        · rename_i hdst
          refine ⟨by simpa using hdst, ?_⟩
          unfold validateTcpType at h
          constructor
          all_goals
            rintro rfl
            repeat
              split at h
              · cases h
            cases h
    · cases h

theorem validatePacketType_odd (hport : port % 2 = 1) (p : Packet) : validatePacketType port p
    = if p.etherType ≠ 0x0800 ∨ p.tos = 0 then none
      else if p.tos = 0xfd then some .hostMigFin else if p.tos = 0xfc then some .hostClose else none := by
  have heven : ¬ port % 2 = 0 := by
    rw [hport]
    decide
  unfold validatePacketType
  rw [if_neg heven, if_pos hport]
  by_cases htype : p.etherType ≠ 0x0800
  · rw [if_pos htype, if_pos (.inl htype)]
  · rw [if_neg htype]
    by_cases htos : p.tos = 0
    · rw [if_pos htos, ite_self, if_pos (.inr htos)]
    · rw [if_neg htos, if_neg (not_or.mpr ⟨htype, htos⟩)]

theorem processPacket_client (hs : SysTwin k s s') (hport : port % 2 = 0) (p : Packet) :
    Relates (SysTwin k) (processPacket env port p s) (processPacket env port (p.shift k.seq) s') := by
  have htype : validatePacketType port (p.shift k.seq) = validatePacketType port p := rfl
  unfold processPacket
  rw [htype]
  cases hm : validatePacketType port p with
  | none => exact .ok hs
  | some m =>
    obtain ⟨hp, hmig, hclose⟩ := validatePacketType_even hport hm
    cases m with
    | sslHandshake =>
      refine onConnection_twin hs rfl fun c hfound t' h => processHandshakePacket_twin h ?_ p
      have haddr := searchTcpConnection_addr hfound
      simp only [Tcp.addr, Packet.addr, Prod.mk.injEq] at haddr
      exact haddr.2.2.2.trans hp
    | tcpSyn => exact processSynPacket_twin hs hport hp
    | tcpAck => exact onConnection_twin hs rfl fun c _ t' h => processAckPacket_twin h p
    | hostMigFin => exact absurd rfl hmig
    | hostClose => exact absurd rfl hclose
    | tcpFin => exact processFinPacket_twin hs hport hp
    | tcpRst => exact processRstPacket_twin hs p
    | tcpSynack => exact .ok hs

theorem shift_known (hport : port % 2 = 1) (hknows : k.seq = 0 ∨ HostKnows (.packet port p) s)
    (hfound : searchTcpConnection p s = .ok (some c)) :
    k.shift (s.conns c).sess.metaHdr.serverPort = k.seq ∧ k.shift (s.conns c).tcp.serverPort = k.seq := by
  rcases hknows with hzero | hknows
  · unfold Skew.shift
    rw [hzero, ite_self, ite_self]
    exact ⟨rfl, rfl⟩
  · have hknown := hknows hport
    rw [hfound] at hknown
    obtain ⟨hdst, hmeta⟩ := hknown
    have haddr := searchTcpConnection_addr hfound
    simp only [Tcp.addr, Packet.addr, Prod.mk.injEq] at haddr
    exact ⟨k.shift_https hmeta, k.shift_https (haddr.2.2.2.trans hdst)⟩

theorem processPacket_host (hs : SysTwin k s s') (hport : port % 2 = 1) (hp : HostTwin k.seq p p')
    (hknows : k.seq = 0 ∨ HostKnows (.packet port p) s) :
    Relates (SysTwin k) (processPacket env port p s) (processPacket env port p' s') := by
  have htype : validatePacketType port p' = validatePacketType port p := by
    rw [validatePacketType_odd hport, validatePacketType_odd hport, hp.etherType, hp.tos]
  have hshift : ∀ c, searchTcpConnection p s = .ok (some c) →
      k.shift (s.conns c).sess.metaHdr.serverPort = k.seq ∧ k.shift (s.conns c).tcp.serverPort = k.seq :=
    fun c hfound => shift_known hport hknows hfound
  have hmig : Relates (SysTwin k) (onConnection p (fun t => .ok (processHostMigFin p t)) s)
      (onConnection p' (fun t => .ok (processHostMigFin p' t)) s') :=
    onConnection_twin hs hp.addr fun c hfound t' h =>
      .ok (processHostMigFin_twin h hp (hshift c hfound).1 (hshift c hfound).2)
  have hclose : Relates (SysTwin k) (onConnection p (fun t => .ok (processHostClose p t)) s)
      (onConnection p' (fun t => .ok (processHostClose p' t)) s') :=
    onConnection_twin hs hp.addr fun c hfound t' h => .ok (processHostClose_twin h hp (hshift c hfound).1)
  unfold processPacket
  rw [htype, validatePacketType_odd hport]
  by_cases hnone : p.etherType ≠ 0x0800 ∨ p.tos = 0
  · rw [if_pos hnone]
    exact .ok hs
  · rw [if_neg hnone]
    by_cases hfd : p.tos = 0xfd
    · rw [if_pos hfd]
      exact hmig
    · rw [if_neg hfd]
      by_cases hfc : p.tos = 0xfc
      · rw [if_pos hfc]
        exact hclose
      · rw [if_neg hfc]
        exact .ok hs

/- The PKA core writes to a session also if its connection is free. -/
theorem SysTwin.setConn (hs : SysTwin k s s') {f : Session → Session}
    (hf : ∀ (x : Conn) (v : ConnWild), ConnFits k x v → ∃ v', ConnFits k { x with sess := f x.sess } v'
      ∧ x.tcp.twin v' = x.tcp.twin v ∧ (f x.sess).twin v' = f (x.sess.twin v)) :
    SysTwin k (s.setConn c f) (s'.setConn c f) where
  conns i hi := by
    unfold Sys.setConn at hi ⊢
    dsimp only at hi ⊢
    split
    · rename_i hic
      rw [if_pos hic] at hi
      obtain ⟨v, hv, he⟩ := hs.conns i hi
      obtain ⟨v', hv', htcp, hsess⟩ := hf _ v hv
      refine ⟨v', hv', ?_⟩
      rw [he]
      show Conn.mk _ _ (f ((s.conns i).sess.twin v)) = Conn.mk _ ((s.conns i).tcp.twin v') _
      rw [htcp, ← hsess]
      rfl
    · rename_i hic
      rw [if_neg hic] at hi
      exact hs.conns i hi
  left i := by
    unfold Sys.setConn
    dsimp only
    split
    · obtain ⟨v, m, m', cookie, hv, he⟩ := hs.left i
      obtain ⟨v', hv', htcp, hsess⟩ := hf _ v hv
      refine ⟨v', m, m', cookie, hv', ?_⟩
      rw [he]
      show Conn.mk _ _ (f ((s.conns i).sess.twin v))
        = Conn.mk _ { (s.conns i).tcp.twin v' with clientMac := m, serverMac := m', cookie := cookie } _
      rw [htcp, ← hsess]
      rfl
    · exact hs.left i
  ctx := hs.ctx

theorem SysTwin.setCtx (hs : SysTwin k s s') {x x' : Ctx} (hx : CtxTwin k x x') :
    SysTwin k { s with ctx := x } { s' with ctx := x' } := ⟨hs.conns, hs.left, hx⟩

theorem OpTwin.read {a b : Op} (h : OpTwin k a b) :
    b.sess = a.sess ∧ b.pkaFlag = a.pkaFlag ∧ b.data.isNone = a.data.isNone := by
  obtain ⟨_, _, _, data, rfl, hdata⟩ := h
  refine ⟨rfl, rfl, ?_⟩
  dsimp only
  generalize a.data = x at hdata
  cases hdata <;> rfl

theorem OpTwin.setPkaFlag {a b : Op} (h : OpTwin k a b) :
    OpTwin k { a with pkaFlag := true } { b with pkaFlag := true } := by
  obtain ⟨x, y, z, data, rfl, hdata⟩ := h
  exact ⟨x, y, z, data, rfl, hdata⟩

theorem handleSubmittedPka_twin (hs : SysTwin k s s') (priv : Operand) :
    Relates (SysTwin k) (handleSubmittedPka priv s) (handleSubmittedPka priv s') := by
  obtain ⟨conns', ctx'⟩ := s'
  obtain ⟨w, hw, rfl⟩ := id hs.ctx
  unfold handleSubmittedPka
  refine .ite (fun _ => .ok hs) fun _ => ?_
  have hring : (s.ctx.twin w).submitPkaRing = s.ctx.submitPkaRing := rfl
  dsimp only
  rw [hring]
  split
  · exact .ok hs
  · rename_i o ring _
    obtain ⟨a, b, d, data, hop, hdata⟩ := hw.ops o
    have hop : (s.ctx.twin w).ops o = _ := hop
    have hctx := (hs.ctx.idle.mapCtx
      (fun x => { x with
        submitPkaRing := ring, engine := x.engine ++ [o], curCryptoCnt := x.curCryptoCnt + 1 })
      fun _ _ => ⟨rfl, rfl⟩).setOp (o := o) (OpTwin.setPkaFlag ⟨a, b, d, data, rfl, hdata⟩)
    rw [hop]
    dsimp only
    refine .ite (fun _ => .error _) fun _ => ?_
    split
    · exact .error _
    · refine .ok ((hs.setCtx hctx.ctx).setConn fun x v hv => ?_)
      exact ⟨{ v with ecdhePrivKey := if (s.ctx.ops o).opcode = .ecdheKeyGeneration then priv else v.ecdhePrivKey },
        { hv with }, rfl, rfl⟩

theorem handleCompletedPka_twin (hs : SysTwin k s s') (o : OpId) (results : List Bytes) :
    Relates (SysTwin k) (handleCompletedPka o results s) (handleCompletedPka o results s') := by
  obtain ⟨conns', ctx'⟩ := s'
  obtain ⟨w, hw, rfl⟩ := id hs.ctx
  obtain ⟨hsess, hflag, hnone⟩ := (hw.ops o).read
  have hdone := hs.ctx.idle.mapCtx (fun x => { x with engine := x.engine.erase o }) fun _ _ => ⟨rfl, rfl⟩
  have hop : (s.ctx.twin w).ops o = w.ops o := rfl
  unfold handleCompletedPka
  refine .ite (fun _ => .ok hs) fun _ => ?_
  dsimp only
  rw [hop, hsess, hflag, hnone]
  split
  · exact .error _
  · rename_i c _
    have hstate := (hs.left c).read (·.sess.handshakeState) fun _ _ _ _ _ => rfl
    dsimp only at hstate
    rw [hstate]
    refine .ite (fun _ => .ok ((hs.setCtx hdone.ctx).setConn fun x v hv => ?_)) fun _ =>
      .ite (fun _ => .error _) fun _ => ?_
    · exact ⟨{ v with pkaOp := some o }, { hv with pkaOp := fun _ => rfl }, rfl, rfl⟩
    · have hctx := hdone.mapCtx
        (fun x => { x with
          curCryptoCnt := x.curCryptoCnt - 1, completedCryptoCnt := x.completedCryptoCnt + 1 })
        fun _ _ => ⟨rfl, rfl⟩
      refine .ok ((hs.setCtx hctx.ctx).setConn fun x v hv => ?_)
      exact ⟨{ v with pkaOp := some o }, { hv with pkaOp := fun _ => rfl }, rfl, rfl⟩

theorem step_twin {x x' : Input} (hs : SysTwin k s s') (hplaced : Placed s) (hx : InputTwin k x x')
    (hknows : k.seq = 0 ∨ HostKnows x s) : Relates (SysTwin k) (step env x s) (step env x' s') := by
  cases hx with
  | client hport p => exact processPacket_client hs hport p
  | host hport hp => exact processPacket_host hs hport hp hknows
  | serve c =>
    have hbucket : c ∈ s'.ctx.htTable (calculateHash (s'.conns c).tcp)
        ↔ c ∈ s.ctx.htTable (calculateHash (s.conns c).tcp) := by
      obtain ⟨w, -, hctx⟩ := hs.ctx
      have hhash := (hs.left c).read (fun x => calculateHash x.tcp) fun _ _ _ _ _ => rfl
      rw [hhash, hctx]
      rfl
    simp only [step, hbucket]
    refine .ite (fun hmem => ?_) fun _ => .ok hs
    exact (Sys.on_twin hs (hplaced.placed _ c hmem).2 fun _ h => serveConnection_twin h).mono fun _ _ h => h.1
  | pkaSubmit priv => exact handleSubmittedPka_twin hs priv
  | pkaComplete o results => exact handleCompletedPka_twin hs o results
  | outside o ho =>
    refine .ok (hs.setCtx ?_)
    obtain ⟨w, hw, hctx⟩ := hs.ctx
    rw [hctx]
    exact ⟨w, { hw with outside := ho }, rfl⟩

theorem step_paired {x x' : Input} (hx : InputTwin k x x') (hknows : k.seq = 0 ∨ HostKnows x s)
    (h : Paired k s s') : Relates (Paired k) (step env x s) (step env x' s') :=
  ((step_twin h.twin h.placed hx hknows).and_left fun t ht => step_placed x s t ht ⟨h.opFacts, h.placed⟩).mono
    fun _ _ ht => ⟨ht.1.1, ht.1.2, ht.2⟩

end

end Xtls.Nic
