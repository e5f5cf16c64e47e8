import Xtls.Nic.Pool
import Xtls.Nic.Crypto

/-!
# Sending, the connection table, and removal

`send_tcp_packet`, `build_connection_meta`, `send_key_meta`, `send_rst_conn_meta`, the hash table
of `fhash.c`, `clear_tcp_connection`, `clear_ssl_session`, `remove_session`, `abort_session`
and the flow-rule functions (`tcp.c` 571-740, 1474-1543, 1772-1930, 2101-2259, 3438-3536).
-/

namespace Xtls.Nic

def TCP_FLAG_FIN : Byte := 0x01
def TCP_FLAG_SYN : Byte := 0x02
def TCP_FLAG_RST : Byte := 0x04
def TCP_FLAG_ACK : Byte := 0x10

def maxSegment : Nat := 1500 - 20 - 20

def emit (o : Out) (s : St) : St := s.mapCtx fun c => { c with out := c.out ++ [o] }

def recvAckOf (c : Conn) : UInt32 :=
  let ack := c.tcp.lastRecvSeq + c.tcp.lastRecvLen
  if c.sess.state = .active ∧ c.tcp.lastRecvLen > 126 then ack - 126 else ack

def sendTcpSegment (flags : Byte) (payload : Bytes) (already : UInt32) (s : St) : St :=
  let t := s.conn.tcp
  let pkt : OutTcp :=
    { dstMac := t.clientMac, srcMac := t.serverMac, srcIp := t.serverIp, dstIp := t.clientIp
      srcPort := t.serverPort, dstPort := t.clientPort, packetId := t.ipId, flags := flags
      sentSeq := t.lastRecvAck + already, recvAck := recvAckOf s.conn, rxWin := 8192
      payload := payload }
  (emit (.tcp t.portid pkt) s).mapTcp fun t =>
    { t with
      ipId := t.ipId + 1
      lastSentSeq := pkt.sentSeq
      lastSentAck := pkt.recvAck
      lastSentLen := UInt32.ofNat payload.length
      totalSent := t.totalSent + UInt32.ofNat payload.length
      state := .sent }

def sendTcpLoop (flags : Byte) : Nat → Bytes → UInt32 → St → St
  | 0, _, _, s => s
  | fuel + 1, left, already, s =>
    let s := sendTcpSegment flags (left.take maxSegment) already s
    if left.length ≤ maxSegment then s
    else sendTcpLoop flags fuel (left.drop maxSegment) (already + UInt32.ofNat maxSegment) s

def sendTcpPacket (flags : Byte) (payload : Bytes) (s : St) : St :=
  sendTcpLoop flags (payload.length + 1) payload 0 s

def buildConnectionMeta (c : Conn) : ConnMeta :=
  let sp := c.sess.writeSp
  let k := c.sess.tls13Ctx
  { sessionId := c.tcp.sessionId
    version := { c.sess.version with minor := 0x04 }
    bulkCipherAlgorithm := sp.bulkCipherAlgorithm
    cipherType := sp.cipherType
    encKeySize := sp.encKeySize
    clientWriteKey := overwrite (zeros maxKeySize) (k.clientApplicationKey.take sp.encKeySize)
    serverWriteKey := overwrite (zeros maxKeySize) (k.serverApplicationKey.take sp.encKeySize)
    fixedIvLength := sp.fixedIvLength
    clientWriteIv := overwrite (zeros maxKeySize) (k.clientApplicationIv.take sp.fixedIvLength)
    serverWriteIv := overwrite (zeros maxKeySize) (k.serverApplicationIv.take sp.fixedIvLength) }

def sendBufferOffset (e : Session) : UInt32 := UInt32.ofNat e.sendBuffer.length

/- The host receives from the first byte behind an 80-byte second flight. -/
def sendKeyMeta (env : Env) (port : UInt16) (s : St) : St :=
  let c := s.conn
  let hdr : MetaHdr :=
    { clientIp := c.tcp.clientIp, serverIp := c.tcp.serverIp
      clientPort := c.tcp.clientPort, serverPort := c.tcp.serverPort
      serverSeqNum := c.tcp.lastRecvAck + sendBufferOffset c.sess
      serverAckNum := c.tcp.lastRecvSeq + c.tcp.lastRecvLen + 80
      customEthType := 0x0801 + c.tcp.clientPort % env.hostThreadsNum
      connMeta := buildConnectionMeta c }
  emit (.keyMeta port hdr) (s.mapSess fun e => { e with metaHdr := hdr })

/- Leaves `server_ip` and `server_port` of an earlier meta packet in place. -/
def sendRstConnMeta (port : UInt16) (s : St) : St :=
  let c := s.conn
  let hdr : MetaHdr :=
    { c.sess.metaHdr with
      clientIp := c.tcp.clientIp
      clientPort := c.tcp.clientPort
      serverSeqNum := c.tcp.lastRecvAck + sendBufferOffset c.sess
      serverAckNum := c.tcp.lastRecvSeq + c.tcp.lastRecvLen
      customEthType := 0x08FF
      connMeta := buildConnectionMeta c }
  emit (.keyMeta port hdr) (s.mapSess fun e => { e with metaHdr := hdr })

/-! ### Hash table of active connections -/

def numBins : Nat := 1024

/- `conn` as twelve key bytes in memory order (little-endian fields). -/
def hashKey (t : Tcp) : Bytes :=
  (put32 t.clientIp).reverse ++ (put32 t.serverIp).reverse
    ++ (put16 t.clientPort).reverse ++ (put16 t.serverPort).reverse

def hashStep (hash : UInt32) (b : Byte) : UInt32 :=
  let h := hash + UInt32.ofNat b.toNat
  let h := h + (h <<< 10)
  h ^^^ (h >>> 6)

def calculateHash (t : Tcp) : Nat :=
  let h := (hashKey t).foldl hashStep 0
  let h := h + (h <<< 3)
  let h := h ^^^ (h >>> 11)
  let h := h + (h <<< 15)
  (h &&& 1023).toNat

def htInsert (t : Tcp) (id : ConnId) (c : Ctx) : Ctx :=
  { c with
    htTable := fun i => if i = calculateHash t then c.htTable i ++ [id] else c.htTable i
    htCount := c.htCount + 1 }

def htRemove (t : Tcp) (id : ConnId) (c : Ctx) : Ctx :=
  { c with
    htTable := fun i => if i = calculateHash t then (c.htTable i).erase id else c.htTable i
    htCount := c.htCount - 1 }

/-! ### Clearing -/

def clearTcpConnection (t : Tcp) : Tcp :=
  { t with
    state := .idle, portid := 0, ipId := 0, clientIp := 0, clientPort := 0, onload := false
    serverIp := 0, serverPort := 0, window := 0, totalSent := 0
    lastRecvSeq := 0, lastRecvAck := 0, lastRecvLen := 0
    lastSentSeq := 0, lastSentAck := 0, lastSentLen := 0
    recvMigFin := false, hwsInserted := false, hwsApplied := false, hwsReadyToDel := false
    needToSendRstMeta := false, pendingAppData := [] }

def lcg (seed : UInt64) : UInt64 := seed * 1103515245 + 12345

def randomWords : Nat → UInt64 → Bytes
  | 0, _ => []
  | n + 1, seed =>
    let seed := lcg seed
    (put32 (UInt32.ofNat (seed.toNat / (4294967295 * 21) % 4294967295))).reverse
      ++ randomWords n seed

/- Every caller of `init_random` asks for a multiple of four bytes. -/
def initRandom (seed : UInt64) (size : Nat) : Bytes := randomWords (size / 4) (lcg seed)

/- The fields that `clear_ssl_session` resets before it touches pending operations; `meta_hdr` is
cleared for the size of a pointer only, which is its `server_seq_num`. -/
def clearSessionFields (rand : UInt64) (e : Session) : Session :=
  { e with
    state := .init, handshakeState := .helloRequest, currentReadRecord := none, version := {}
    recvSeqNum := 0, sendSeqNum := 0, handshakeMsgs := []
    clientWriteIvSeqNum := 0, serverWriteIvSeqNum := 0, tls13Ctx := {}
    metaHdr := { e.metaHdr with serverSeqNum := 0 }
    randSeed := rand, sendBuffer := [], readSp := {}, writeSp := {}, pendingSp := {}
    pkaResults := [{}, {}], waitingCrypto := false, completedCrypto := false }

def freeRecords : List Record → Ctx → Ctx
  | [], c => c
  | r :: rs, c => freeRecords rs (freeRecord r c)

def clearSslSession (s : St) : St :=
  let rand := s.ctx.outside.rand
  let s := removePendingPkaOp (s.mapSess (clearSessionFields rand))
  (s.mapCtx (freeRecords s.conn.sess.recvQ)).mapSess fun e =>
    { e with
      recvQ := [], numCurrentRecords := 0, waitingCrypto := false
      id_ := initRandom rand 32, numOfRetransmittedCh := 0, numOfRetransmittedMetaPkt := 0 }

def outstanding (c : Ctx) (id : ConnId) : List OpId :=
  (c.submitPkaRing ++ c.engine).filter fun o => (c.ops o).sess = some id

def removeSession (s : St) : Except Halt St :=
  if s.ctx.activeCnt ≤ 0 then .error .assertion
  else
    let id := s.conn.id
    let events := [Event.remove id (outstanding s.ctx id), .clear s.conn]
    let s := s.mapCtx (htRemove s.conn.tcp id)
    let s := s.mapCtx fun c => { c with activeCnt := c.activeCnt - 1 }
    let s := (clearSslSession s).mapTcp clearTcpConnection
    .ok (s.mapCtx fun c =>
      { c with
        freeSessionQ := c.freeSessionQ ++ [id]
        freeCnt := c.freeCnt + 1
        trace := events ++ c.trace })

def abortSession (s : St) : Except Halt St :=
  removeSession (sendTcpPacket (TCP_FLAG_RST ||| TCP_FLAG_ACK) [] s)

/-! ### Flow rules of an onloaded connection -/

def applyHws (s : St) : St :=
  if s.conn.sess.state = .active ∧ s.conn.tcp.recvMigFin ∧ ¬ s.conn.tcp.hwsInserted then
    s.mapTcp fun t => { t with hwsInserted := true, hwsApplied := true }
  else s

def removeHws (s : St) : Except Halt St :=
  if s.conn.tcp.hwsApplied ∧ s.conn.tcp.hwsReadyToDel then removeSession s else .ok s

def forwardAppData (s : St) : St :=
  if s.conn.tcp.hwsApplied ∧ s.conn.tcp.pendingAppData ≠ [] then
    (emit (.frame (s.conn.tcp.portid + 1) s.conn.tcp.pendingAppData) s).mapTcp fun t =>
      { t with pendingAppData := [] }
  else s

end Xtls.Nic
