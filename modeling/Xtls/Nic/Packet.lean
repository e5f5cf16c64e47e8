import Xtls.Nic.Handle

/-!
# Packets of a worker core

Classification and handling of packets (`tcp.c` 2261-2382, 2458-3130) and the body of the main
loop over the active connections (`tcp.c` 3703-3841).  Ports and addresses are kept as they lie in
memory, sequence numbers in host order.
-/

namespace Xtls.Nic

/-- What `process_packet` reads from a frame.  `payload_len` is a `uint16_t`. -/
structure Packet where
  etherType : UInt16 := 0x0800
  tos : Byte := 0
  proto : Byte := 6
  srcMac : Bytes := zeros 6
  dstMac : Bytes := zeros 6
  srcIp : UInt32 := 0
  dstIp : UInt32 := 0
  srcPort : UInt16 := 0
  dstPort : UInt16 := 0xBB01
  seq : UInt32 := 0
  ack : UInt32 := 0
  flags : Byte := TCP_FLAG_ACK
  rxWin : UInt16 := 0
  dataOff : Byte := 0x50
  options : Bytes := []
  payload : Bytes := []
  frame : Bytes := []
  payloadLt : payload.length < 65536 := by decide
  deriving DecidableEq

def Tcp.addr (t : Tcp) : UInt32 × UInt16 × UInt32 × UInt16 :=
  (t.clientIp, t.clientPort, t.serverIp, t.serverPort)

def Packet.addr (p : Packet) : UInt32 × UInt16 × UInt32 × UInt16 :=
  (p.srcIp, p.srcPort, p.dstIp, p.dstPort)

def Packet.payloadLen (p : Packet) : UInt16 := UInt16.ofNat p.payload.length

/-- `enum recv_packet_type`. -/
inductive PacketType where
  | sslHandshake | tcpSyn | tcpAck | hostMigFin | hostClose | tcpFin | tcpRst | tcpSynack
  deriving DecidableEq, Repr

def flagSet (flags f : Byte) : Bool := flags &&& f != 0

def validateTcpType (p : Packet) : Option PacketType :=
  if 0 < p.payload.length ∧ p.payload.length < maxHandshakeLength then some .sslHandshake
  else if flagSet p.flags TCP_FLAG_SYN ∧ ¬ flagSet p.flags TCP_FLAG_ACK then some .tcpSyn
  else if flagSet p.flags TCP_FLAG_FIN then some .tcpFin
  else if flagSet p.flags TCP_FLAG_RST then some .tcpRst
  else if flagSet p.flags TCP_FLAG_SYN then some .tcpSynack
  else if flagSet p.flags TCP_FLAG_ACK then some .tcpAck
  else none

def validatePacketType (port : UInt16) (p : Packet) : Option PacketType :=
  if p.etherType ≠ 0x0800 then none
  else if p.tos = 0 then
    if p.proto ≠ 6 then none
    else if port % 2 = 0 then
      if p.dstPort ≠ 0xBB01 then none else validateTcpType p
    else none
  else if port % 2 = 1 then
    if p.tos = 0xfd then some .hostMigFin
    else if p.tos = 0xfc then some .hostClose
    else none
  else none

/-! ### Sequence numbers -/

inductive SeqCase where
  | ok | under | over | weird
  deriving DecidableEq, Repr

/- `SEQ_LT` and `SEQ_GT`: the sign of the 32-bit difference. -/
def seqLt (a b : UInt32) : Bool := (a - b).toNat ≥ 2147483648
def seqGt (a b : UInt32) : Bool := (a - b).toNat < 2147483648 ∧ a ≠ b

def validateSequence (t : Tcp) (seq ack : UInt32) (payloadLen : UInt16) : SeqCase :=
  if seq = t.lastRecvSeq ∧ ack = t.lastRecvAck ∧ payloadLen.toUInt32 = t.lastRecvLen then .ok
  else if t.lastSentAck = seq ∨ t.lastRecvSeq + t.lastRecvLen = seq then .ok
  else if seqLt seq t.lastRecvSeq ∨ seqLt ack t.lastRecvAck then .under
  else if seqGt seq t.lastSentAck ∧ seqGt seq (t.lastRecvSeq + t.lastRecvLen) then .over
  else .weird

def Tcp.storeNumbers (p : Packet) (t : Tcp) : Tcp :=
  { t with
    lastRecvAck := p.ack, lastRecvSeq := p.seq, lastRecvLen := p.payloadLen.toUInt32
    state := .received }

def storeNumbers (p : Packet) (s : St) : St := s.mapTcp (Tcp.storeNumbers p)

/-- `process_normal_seq_case`. -/
def processNormalSeqCase (env : Env) (p : Packet) (s : St) : Except Halt St := do
  let (ret, s) ← processSslPacket env p.payload (storeNumbers p s)
  if ret < 0 then return sendTcpPacket TCP_FLAG_ACK [] s else return s

/- The headers and the payload without what follows them in the frame; `len` is a `uint16_t`. -/
def Packet.storedLen (p : Packet) : UInt16 :=
  let tcpHdrLen := (p.dataOff >>> 4).toNat * 4
  UInt16.ofNat (14 + 20 + tcpHdrLen + p.payload.length)

def Packet.stored (p : Packet) : Bytes := slice p.frame 0 p.storedLen.toNat

def keepAppData (p : Packet) (s : St) : Except Halt St := do
  let data ← bounded maxAppDataSize p.stored
  return s.mapTcp fun t => { t with pendingAppData := data }

/-- `process_handshake_packet` on the connection that was found. -/
def processHandshakePacket (env : Env) (p : Packet) (s : St) : Except Halt St :=
  if s.conn.tcp.onload then keepAppData p s
  else
    match validateSequence s.conn.tcp p.seq p.ack p.payloadLen with
    | .ok => processNormalSeqCase env p s
    | .under => .ok s
    | .over => .ok (sendTcpPacket TCP_FLAG_ACK [] s)
    | .weird => .ok s

/-- `process_ack_packet` on the connection that was found. -/
def processAckPacket (p : Packet) (s : St) : Except Halt St :=
  if p.ack = s.conn.tcp.cookie + 1 ∧ p.payload = [] then .ok s
  else if s.conn.tcp.onload then keepAppData p s
  else .ok s

/-- A bare RST|ACK (`send_raw_reset`). -/
def sendRawReset (port : UInt16) (pkt : OutTcp) (s : St) : St :=
  emit (.tcp port { pkt with packetId := 0xffff, rxWin := 8192
                             flags := TCP_FLAG_RST ||| TCP_FLAG_ACK }) s

def matchesMeta (p : Packet) (e : Session) : Bool :=
  p.seq = e.metaHdr.serverSeqNum ∧ p.ack = e.metaHdr.serverAckNum

/-- `process_host_mig_fin` on the connection that was found. -/
def processHostMigFin (p : Packet) (s : St) : St :=
  let t := s.conn.tcp
  if matchesMeta p s.conn.sess then s.mapTcp fun t => { t with recvMigFin := true }
  else
    let s := sendRawReset (t.portid + 1)
      { srcMac := t.clientMac, dstMac := t.serverMac, srcIp := t.clientIp, dstIp := t.serverIp
        srcPort := t.clientPort, dstPort := t.serverPort
        sentSeq := be32 ((slice p.frame 48 4).reverse) 0, recvAck := 0
        packetId := 0, flags := 0, rxWin := 0 } s
    (sendRstConnMeta (t.portid + 1) s).mapTcp fun t => { t with needToSendRstMeta := true }

/-- `process_host_close` on the connection that was found. -/
def processHostClose (p : Packet) (s : St) : St :=
  if matchesMeta p s.conn.sess then s.mapTcp fun t => { t with hwsReadyToDel := true } else s

/-- The body of the main loop for one active connection. -/
def serveConnection (env : Env) (s : St) : Except Halt St := do
  let s ← processSessionRead env s
  let s ← getProcessedCrypto env s
  let s ← removeHws (applyHws s)
  sendRemainServerRecords env (forwardAppData s)

end Xtls.Nic
