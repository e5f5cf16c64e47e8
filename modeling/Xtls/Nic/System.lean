import Xtls.Lib.Run
import Xtls.Nic.Packet

/-!
# A worker core and the PKA core

All connections of a worker, the packets that create, find and remove them, and the two loops of
the PKA core (`ssl.c` 1267-1435), one round at a time.  A run is a list of inputs.
-/

namespace Xtls.Nic

structure Sys where
  conns : ConnId → Conn
  ctx : Ctx

def Sys.put (s : Sys) (c : ConnId) (t : St) : Sys :=
  { conns := fun i => if i = c then t.conn else s.conns i, ctx := t.ctx }

def Sys.on (s : Sys) (c : ConnId) (f : St → Except Halt St) : Except Halt Sys := do
  let t ← f ⟨s.conns c, s.ctx⟩
  return s.put c t

/-- `ht_search`: the first match in the bucket; every entry passed must be in use. -/
def htSearch (conns : ConnId → Conn) (key : Tcp) : List ConnId → Except Halt (Option ConnId)
  | [] => .ok none
  | c :: cs =>
    let t := (conns c).tcp
    if t.state = .idle then .error .assertion
    else if t.clientIp = key.clientIp ∧ t.clientPort = key.clientPort
        ∧ t.serverIp = key.serverIp ∧ t.serverPort = key.serverPort then .ok (some c)
    else htSearch conns key cs

def searchTcpConnection (p : Packet) (s : Sys) : Except Halt (Option ConnId) :=
  let key : Tcp :=
    { clientIp := p.srcIp, clientPort := p.srcPort, serverIp := p.dstIp, serverPort := p.dstPort }
  htSearch s.conns key (s.ctx.htTable (calculateHash key))

def getCookie (env : Env) (tMajor : UInt8) (p : Packet) : UInt32 :=
  let input := (put32 p.srcIp).reverse ++ (put32 p.dstIp).reverse
    ++ (put16 p.srcPort).reverse ++ (put16 p.dstPort).reverse
  let hash := (env.crypto.sha1 input).val
  UInt32.ofNat ((tMajor.toNat * 8 + 3) * 16777216 + (byteAt hash 0).toNat * 65536
    + (byteAt hash 1).toNat * 256 + (byteAt hash 2).toNat)

def insertedTcp (port : UInt16) (cookie : UInt32) (p : Packet) (t : Tcp) : Tcp :=
  { t with
    clientMac := p.srcMac, serverMac := p.dstMac, state := .received, portid := port
    clientIp := p.srcIp, clientPort := p.srcPort, serverIp := p.dstIp, serverPort := p.dstPort
    cookie := cookie
    lastRecvAck := cookie + 1, lastRecvSeq := p.seq + 1, lastRecvLen := p.payloadLen.toUInt32
    lastSentAck := p.seq + 1, lastSentSeq := cookie, lastSentLen := 0
    window := p.rxWin, ipId := 1 }

/-- `insert_tcp_connection` with `pop_free_connection`. -/
def insertTcpConnection (env : Env) (port : UInt16) (p : Packet) (s : Sys) :
    Except Halt (ConnId × Sys) :=
  match s.ctx.freeSessionQ with
  | [] => .error .notEnoughSession
  | c :: q =>
    if (s.conns c).tcp.state ≠ .idle then .error .assertion
    else
      let conn := s.conns c
      let tcp := insertedTcp port (getCookie env s.ctx.outside.tMajor p) p conn.tcp
      let ctx := { s.ctx with freeSessionQ := q, freeCnt := s.ctx.freeCnt - 1 }
      let ctx := htInsert tcp c ctx
      let ctx := { ctx with activeCnt := ctx.activeCnt + 1, trace := .insert c :: ctx.trace }
      .ok (c, { conns := fun i => if i = c then { conn with tcp := tcp } else s.conns i, ctx := ctx })

def Sys.emit (o : Out) (s : Sys) : Sys := { s with ctx := { s.ctx with out := s.ctx.out ++ [o] } }

def sendSynackPacket (port : UInt16) (p : Packet) (cookie : UInt32) (s : Sys) : Sys :=
  s.emit (.tcp port
    { dstMac := p.srcMac, srcMac := p.dstMac, srcIp := p.dstIp, dstIp := p.srcIp
      srcPort := p.dstPort, dstPort := p.srcPort
      packetId := UInt16.ofNat s.ctx.outside.rand.toNat
      flags := TCP_FLAG_SYN ||| TCP_FLAG_ACK, sentSeq := cookie, recvAck := p.seq + 1
      rxWin := p.rxWin, options := p.options })

/-- `process_syn_packet`.  The reply to a new SYN on an old connection is sent with the cookie of
the connection that has just been removed. -/
def processSynPacket (env : Env) (port : UInt16) (p : Packet) (s : Sys) : Except Halt Sys := do
  match ← searchTcpConnection p s with
  | some c =>
    if p.seq + 1 = (s.conns c).tcp.lastRecvSeq then
      return sendSynackPacket port p (s.conns c).tcp.cookie s
    let s ← s.on c removeSession
    let (_, s') ← insertTcpConnection env port p (sendSynackPacket port p (s.conns c).tcp.cookie s)
    return s'
  | none =>
    let (c, s) ← insertTcpConnection env port p s
    return sendSynackPacket port p (s.conns c).tcp.cookie s

/-- `process_fin_packet` and `process_rst_packet` forward to the host once the connection is
onloaded; only the FIN of an unknown connection is answered. -/
def processFinPacket (port : UInt16) (p : Packet) (s : Sys) : Except Halt Sys := do
  match ← searchTcpConnection p s with
  | some c =>
    if (s.conns c).tcp.onload then return s.emit (.frame (port + 1) p.frame) else return s
  | none =>
    return s.emit (.tcp port
      { srcMac := p.dstMac, dstMac := p.srcMac, srcIp := p.dstIp, dstIp := p.srcIp
        srcPort := p.dstPort, dstPort := p.srcPort, packetId := 0xffff
        flags := TCP_FLAG_RST ||| TCP_FLAG_ACK, sentSeq := p.ack
        recvAck := p.seq + p.payloadLen.toUInt32, rxWin := 8192 })

def processRstPacket (port : UInt16) (p : Packet) (s : Sys) : Except Halt Sys := do
  match ← searchTcpConnection p s with
  | some c =>
    if (s.conns c).tcp.onload then return s.emit (.frame (port + 1) p.frame) else return s
  | none => return s

def onConnection (p : Packet) (f : St → Except Halt St) (s : Sys) : Except Halt Sys := do
  match ← searchTcpConnection p s with
  | some c => s.on c f
  | none => return s

/-- `process_packet`. -/
def processPacket (env : Env) (port : UInt16) (p : Packet) (s : Sys) : Except Halt Sys :=
  match validatePacketType port p with
  | some .sslHandshake => onConnection p (processHandshakePacket env p) s
  | some .tcpSyn => processSynPacket env port p s
  | some .tcpAck => onConnection p (processAckPacket p) s
  | some .hostMigFin => onConnection p (fun t => .ok (processHostMigFin p t)) s
  | some .hostClose => onConnection p (fun t => .ok (processHostClose p t)) s
  | some .tcpFin => processFinPacket port p s
  | some .tcpRst => processRstPacket port p s
  | some .tcpSynack => .ok s
  | none => .ok s

/-! ### The PKA core -/

def Sys.setConn (s : Sys) (c : ConnId) (f : Session → Session) : Sys :=
  { s with conns := fun i =>
      if i = c then { s.conns i with sess := f (s.conns i).sess } else s.conns i }

/-- One round of `handle_submitted_pka`; key generation draws `priv` for the session. -/
def handleSubmittedPka (priv : Operand) (s : Sys) : Except Halt Sys :=
  if maxOutstandingPkaReq ≤ s.ctx.curCryptoCnt.toNat then .ok s
  else
    match s.ctx.submitPkaRing with
    | [] => .ok s
    | o :: ring =>
      let op := s.ctx.ops o
      if ¬ op.opcode.isPka then .error .unsupportedPkaOpcode
      else
        match op.sess with
        | none => .error .nullPointer
        | some c =>
          let ctx : Ctx :=
            { s.ctx with
              submitPkaRing := ring, engine := s.ctx.engine ++ [o]
              curCryptoCnt := s.ctx.curCryptoCnt + 1 }
          let s : Sys := { s with ctx := ctx.setOp o { op with pkaFlag := true } }
          .ok (s.setConn c fun e =>
            { e with
              pendingPkaOp := some o
              ecdhePrivKey :=
                if op.opcode = .ecdheKeyGeneration then priv else e.ecdhePrivKey })

/-- One round of `handle_completed_pka`, for a result of operation `o` that the engine returns.
The results keep the little-endian flag they were allocated with. -/
def handleCompletedPka (o : OpId) (results : List Bytes) (s : Sys) : Except Halt Sys :=
  if s.ctx.curCryptoCnt = 0 ∨ o ∉ s.ctx.engine then .ok s
  else
    let ctx := { s.ctx with engine := s.ctx.engine.erase o }
    let op := s.ctx.ops o
    match op.sess with
    | none => .error .nullPointer
    | some c =>
      if op.pkaFlag = false then
        let s : Sys := { s with ctx := ctx }
        .ok (s.setConn c fun e => { e with pkaOp := some o })
      else if (s.conns c).sess.handshakeState = .helloRequest ∧ op.data.isNone then
        .error .recordIsNull
      else
        let ctx : Ctx :=
          { ctx with
            curCryptoCnt := ctx.curCryptoCnt - 1
            completedCryptoCnt := ctx.completedCryptoCnt + 1 }
        let s : Sys := { s with ctx := ctx }
        .ok (s.setConn c fun e =>
          { e with
            pkaOp := some o
            pkaResults := results.map (fun b => { buf := b }) ++ e.pkaResults.drop results.length
            completedCrypto := true })

/-- Inputs of the two cores. -/
inductive Input where
  | packet (port : UInt16) (p : Packet)
  | serve (c : ConnId)
  | pkaSubmit (priv : Operand)
  | pkaComplete (o : OpId) (results : List Bytes)
  | outside (o : Outside)

def step (env : Env) : Input → Sys → Except Halt Sys
  | .packet port p, s => processPacket env port p s
  | .serve c, s =>
    if c ∈ s.ctx.htTable (calculateHash (s.conns c).tcp) then s.on c (serveConnection env)
    else .ok s
  | .pkaSubmit priv, s => handleSubmittedPka priv s
  | .pkaComplete o results, s => handleCompletedPka o results s
  | .outside o, s => .ok { s with ctx := { s.ctx with outside := o } }

/-- `thread_local_init` for `n` connections: all connections free, three operations and three
records per connection. -/
def initial (n ringCnt : Nat) : Sys where
  conns c := { id := c, tcp := { sessionId := c }, sess := { pkaResults := [{}, {}] } }
  ctx :=
    { opPool := List.range (3 * n), freeOpCnt := 3 * n
      recordPool := List.range (3 * n), freeRecordCnt := 3 * n
      freeSessionQ := List.range n, freeCnt := n, ringCnt := ringCnt }

/-! ### Sample inputs

Hashes that are constant and a cipher that is the identity are enough to run the machine; the
records are those of one client that connects from port 7 of address 1. -/

def sampleCrypto : Crypto where
  sha1 _ := .zero 20
  sha256 _ := .zero 32
  sha384 _ := .zero 48
  hmacSha384 _ _ := .zero 48
  gcmEncrypt _ _ _ pt := (.of pt, .zero 16)
  gcmDecrypt _ _ _ ct _ := some (.of ct)

def sampleEnv : Env :=
  { crypto := sampleCrypto, certificate := [1, 2, 3], privKey := {}, hostThreadsNum := 4 }

def sampleSyn : Packet := { flags := TCP_FLAG_SYN, seq := 100, srcIp := 1, srcPort := 7 }

def sampleSegment (seq ack : UInt32) (b : Bytes) (h : b.length < 65536) : Packet :=
  { payload := b, seq := seq, ack := ack, srcIp := 1, srcPort := 7, payloadLt := h }

/- A ClientHello with the given session id and list of cipher suites, group X25519, ECDSA and a key share. -/
def sampleNamedHello (id suites : Bytes) : Bytes :=
  let exts := [0, 0x0a, 0, 4, 0, 2, 0, 0x1d] ++ [0, 0x0d, 0, 4, 0, 2, 4, 3]
    ++ [0, 0x33, 0, 0x26, 0, 0x24, 0, 0x1d, 0, 0x20] ++ zeros 32
  let body := [3, 3] ++ zeros 32 ++ UInt8.ofNat id.length :: id ++ put16 (UInt16.ofNat suites.length) ++ suites
    ++ [1, 0] ++ put16 (UInt16.ofNat exts.length) ++ exts
  [0x16, 3, 1] ++ put16 (UInt16.ofNat (body.length + 4)) ++ [1] ++ put24 body.length ++ body

def sampleHello (suites : Bytes) : Bytes := sampleNamedHello [] suites

theorem sampleHello_lt : (sampleHello [0x13, 2]).length < 65536 := by decide

def sampleCipherSpec : Bytes := [0x14, 3, 3, 0, 1, 1]

theorem sampleCipherSpec_lt : sampleCipherSpec.length < 65536 := by decide

def samplePlainFinished : Bytes := [0x17, 3, 3, 0, 0x35, 0x14, 0, 0, 0x30] ++ zeros 48 ++ [0x16]

def sampleFinished : Bytes :=
  [0x17, 3, 3, 0, 0x45, 0x14, 0, 0, 0x30] ++ zeros 48 ++ [0x16] ++ zeros 16

def sampleServerFlight : List Input :=
  [.packet 0 sampleSyn, .packet 0 (sampleSegment 101 5 (sampleHello [0x13, 2]) sampleHello_lt),
    .pkaSubmit {}, .pkaComplete 0 [zeros 32], .serve 0,
    .pkaSubmit {}, .pkaComplete 1 [zeros 32], .serve 0,
    .pkaSubmit {}, .pkaComplete 4 [zeros 32, zeros 32], .serve 0]

def sampleMigrated : List Input :=
  sampleServerFlight ++
    [.packet 1 { tos := 0xfd, seq := 308, ack := 291, srcIp := 1, srcPort := 7 }, .serve 0]

/- The whole handshake, with ChangeCipherSpec and Finished in one segment. -/
def sampleHandshake : List Input :=
  sampleMigrated ++
    [.packet 0 (sampleSegment 211 5 (sampleCipherSpec ++ sampleFinished) (by decide))]

def sampleRequest (b : Byte) : Packet :=
  { sampleSegment 286 5 [0x17, 3, 3, 0, 1, 0] (by decide) with frame := List.replicate 60 b }

end Xtls.Nic
