import Xtls.Nic.Types

/-!
# State of a worker core

`ssl_session_t`, `tcp_connection_t`, `thread_context_t` (`ssloff.h`), `ssl_crypto_op_t`
(`ssl_crypto.h`) and the key meta packet (`host.h`).  Structure defaults are the zeroes of
`calloc`/`memset`.  Connections and crypto operations are named by their index.  The counters that
feed only the statistics output are left out.

`Ctx.trace` is a history variable: no function of the model reads it.
-/

namespace Xtls.Nic

abbrev ConnId := Nat
abbrev OpId := Nat

/-- Why the process stopped. -/
inductive Halt where
  | notEnoughOp            -- `new_ssl_crypto_op`: exit
  | notEnoughRecord        -- `new_recv_record`, `new_send_record`: exit
  | notEnoughSession       -- `pop_free_connection`: exit
  | unsupportedPkaOpcode   -- `handle_submitted_pka`: exit
  | unsupportedPkaState    -- `get_processed_crypto`: exit
  | recordIsNull           -- `handle_completed_pka`: exit
  | sendFailed             -- `send_handshake for ... failed`: exit
  | unsupportedPacket      -- `process_packet` and callees: exit
  | assertion              -- a failed `assert`
  | nullPointer            -- a dereferenced NULL pointer
  | overflow               -- a write behind the end of an array
  | endless                -- a loop that does not end
  deriving DecidableEq, Repr

/-- `pka_operand_t`: `buf` holds `actual_len` bytes. -/
structure Operand where
  buf : Bytes := []
  bigEndian : Bool := false
  deriving DecidableEq

/-- `opcode.u32`; `unset` is the zero that `delete_op` leaves. -/
inductive Opcode where
  | unset | ecdheKeyGeneration | ecdheSharedSecretCalc | ecdsaSignature
  | aesGcm256Encrypt | aesGcm256Decrypt
  deriving DecidableEq, Repr

def Opcode.isPka : Opcode → Bool
  | .ecdheKeyGeneration | .ecdheSharedSecretCalc | .ecdsaSignature => true
  | _ => false

/-- `ssl_crypto_op_t`. -/
structure Op where
  opcode : Opcode := .unset
  pkaIn : Option Operand := none
  pkaIn1 : Option Operand := none
  pkaIn2 : Option Operand := none
  sess : Option ConnId := none
  data : Option Record := none
  pkaFlag : Bool := false

structure Tls13Ctx where
  handshakeKeyCalculated : Bool := false
  certSignatured : Bool := false
  handshakeSecret : Bytes := zeros maxKeySize
  clientSecret : Bytes := zeros maxKeySize
  serverSecret : Bytes := zeros maxKeySize
  clientHandshakeKey : Bytes := zeros maxKeySize
  serverHandshakeKey : Bytes := zeros maxKeySize
  clientHandshakeIv : Bytes := zeros maxKeySize
  serverHandshakeIv : Bytes := zeros maxKeySize
  clientApplicationKey : Bytes := zeros maxKeySize
  serverApplicationKey : Bytes := zeros maxKeySize
  clientApplicationIv : Bytes := zeros maxKeySize
  serverApplicationIv : Bytes := zeros maxKeySize
  certSignature : Bytes := []
  calculatedVd : Bytes := zeros 48

/-- `conn_meta_t`; the MAC fields stay zero because `mac_key_size` is never assigned. -/
structure ConnMeta where
  sessionId : Nat := 0
  version : ProtocolVersion := {}
  bulkCipherAlgorithm : BulkCipher := .noCipher
  cipherType : CipherType := .unset
  encKeySize : Nat := 0
  clientWriteKey : Bytes := zeros maxKeySize
  serverWriteKey : Bytes := zeros maxKeySize
  fixedIvLength : Nat := 0
  clientWriteIv : Bytes := zeros maxKeySize
  serverWriteIv : Bytes := zeros maxKeySize
  deriving DecidableEq

/-- `meta_hdr_t`, numbers in host order. -/
structure MetaHdr where
  serverSeqNum : UInt32 := 0
  serverAckNum : UInt32 := 0
  customEthType : UInt16 := 0
  clientIp : UInt32 := 0
  serverIp : UInt32 := 0
  clientPort : UInt16 := 0
  serverPort : UInt16 := 0
  connMeta : ConnMeta := {}
  deriving DecidableEq

/-- `ssl_session_t`.  `handshakeMsgs` and `sendBuffer` are cut at `handshake_msgs_len` and
`send_buffer_offset`. -/
structure Session where
  state : SessionState := .init
  handshakeState : HandshakeType := .helloRequest
  numCurrentRecords : UInt16 := 0
  nextRecordId : Nat := 0
  currentReadRecord : Option Record := none
  version : ProtocolVersion := {}
  id_ : Bytes := zeros 32
  sendSeqNum : UInt64 := 0
  recvSeqNum : UInt64 := 0
  handshakeMsgs : Bytes := []
  sendBuffer : Bytes := []
  clientWriteIvSeqNum : UInt64 := 0
  serverWriteIvSeqNum : UInt64 := 0
  tls13Ctx : Tls13Ctx := {}
  metaHdr : MetaHdr := {}
  randSeed : UInt64 := 0
  pkaResults : List Operand := []
  pkaOp : Option OpId := none
  waitingCrypto : Bool := false
  completedCrypto : Bool := false
  sharedSecretOperand : Operand := {}
  ecdsaTranscriptHash : Operand := {}
  ecdsaK : Operand := {}
  ecdhePrivKey : Operand := {}
  ecdhePubKey : Operand := {}
  pendingSp : SecurityParams := {}
  readSp : SecurityParams := {}
  writeSp : SecurityParams := {}
  serverRecords : Bytes := []
  recvQ : List Record := []
  pendingPkaOp : Option OpId := none
  numOfRetransmittedCh : Nat := 0
  numOfRetransmittedMetaPkt : Nat := 0

/-- `tcp_connection_t`. -/
structure Tcp where
  state : TcpState := .idle
  onload : Bool := false
  portid : UInt16 := 0
  sessionId : Nat := 0
  ipId : UInt16 := 0
  clientMac : Bytes := zeros 6
  serverMac : Bytes := zeros 6
  clientIp : UInt32 := 0
  serverIp : UInt32 := 0
  clientPort : UInt16 := 0
  serverPort : UInt16 := 0
  cookie : UInt32 := 0
  lastRecvSeq : UInt32 := 0
  lastRecvAck : UInt32 := 0
  lastRecvLen : UInt32 := 0
  lastSentSeq : UInt32 := 0
  lastSentAck : UInt32 := 0
  lastSentLen : UInt32 := 0
  needToSendRstMeta : Bool := false
  totalSent : UInt32 := 0
  window : UInt16 := 0
  recvMigFin : Bool := false
  hwsInserted : Bool := false
  hwsApplied : Bool := false
  hwsReadyToDel : Bool := false
  pendingAppData : Bytes := []

/-- A connection together with the session that hangs off it. -/
structure Conn where
  id : ConnId
  tcp : Tcp := {}
  sess : Session := {}

/-- A TCP packet the NIC puts on a port. -/
structure OutTcp where
  dstMac : Bytes
  srcMac : Bytes
  srcIp : UInt32
  dstIp : UInt32
  srcPort : UInt16
  dstPort : UInt16
  packetId : UInt16
  flags : Byte
  sentSeq : UInt32
  recvAck : UInt32
  rxWin : UInt16
  options : Bytes := []
  payload : Bytes := []

inductive Out where
  | tcp (port : UInt16) (pkt : OutTcp)
  | keyMeta (port : UInt16) (hdr : MetaHdr)
  | frame (port : UInt16) (bytes : Bytes)

/-- What the history variable records.  `complete` is a record that `process_new_record` has received
in full; `read` is a call of `process_read_record` with the connection and record it is called on and
the number of payload bytes still to be looked at, and tells whether the submission ring has room;
`remove` names the operations of the session that the PKA core still holds, and `clear` is the
connection as `clear_ssl_session` finds it. -/
inductive Event where
  | insert (id : ConnId)
  | remove (id : ConnId) (outstanding : List OpId)
  | clear (conn : Conn)
  | complete (id : ConnId) (record : Record)
  | read (conn : Conn) (record : Record) (rest : Nat) (room : Bool)
  | verifyData (id : ConnId) (transcript vd : Bytes)

/-- What the code takes from outside: `time(NULL)`, the cookie clock `t_major`, `rand()`,
uninitialised stack bytes, and the value returned by a function that ends without a `return`. -/
structure Outside where
  now : UInt32 := 0
  tMajor : UInt8 := 0
  rand : UInt64 := 0
  stack : Nat → Byte := fun _ => 0
  missingReturn : Record → Int := fun _ => 0

/-- `thread_context_t` of one worker, with the PKA engine's outstanding operations. -/
structure Ctx where
  ops : OpId → Op := fun _ => {}
  opPool : List OpId := []
  freeOpCnt : Int := 0
  usingOpCnt : Int := 0
  recordPool : List Nat := []
  freeRecordCnt : Int := 0
  usingRecordCnt : Int := 0
  submitPkaRing : List OpId := []
  ringCnt : Nat := 0
  engine : List OpId := []
  curCryptoCnt : UInt32 := 0
  completedCryptoCnt : UInt32 := 0
  htTable : Nat → List ConnId := fun _ => []
  htCount : Int := 0
  activeCnt : Int := 0
  freeSessionQ : List ConnId := []
  freeCnt : Int := 0
  out : List Out := []
  outside : Outside := {}
  trace : List Event := []

/- One slot of the submission ring stays empty. -/
def Ctx.ringRoom (c : Ctx) : Bool := c.submitPkaRing.length + 1 < c.ringCnt

/-- What a function of `ssl.c` works on: one connection with its session, and the core. -/
structure St where
  conn : Conn
  ctx : Ctx

def St.mapSess (f : Session → Session) (s : St) : St :=
  { s with conn := { s.conn with sess := f s.conn.sess } }

def St.mapTcp (f : Tcp → Tcp) (s : St) : St :=
  { s with conn := { s.conn with tcp := f s.conn.tcp } }

def St.mapCtx (f : Ctx → Ctx) (s : St) : St := { s with ctx := f s.ctx }

@[simp] theorem St.mapSess_sess (f) (s : St) : (s.mapSess f).conn.sess = f s.conn.sess := rfl
@[simp] theorem St.mapSess_tcp (f) (s : St) : (s.mapSess f).conn.tcp = s.conn.tcp := rfl
@[simp] theorem St.mapSess_id (f) (s : St) : (s.mapSess f).conn.id = s.conn.id := rfl
@[simp] theorem St.mapSess_ctx (f) (s : St) : (s.mapSess f).ctx = s.ctx := rfl
@[simp] theorem St.mapTcp_sess (f) (s : St) : (s.mapTcp f).conn.sess = s.conn.sess := rfl
@[simp] theorem St.mapTcp_tcp (f) (s : St) : (s.mapTcp f).conn.tcp = f s.conn.tcp := rfl
@[simp] theorem St.mapTcp_id (f) (s : St) : (s.mapTcp f).conn.id = s.conn.id := rfl
@[simp] theorem St.mapTcp_ctx (f) (s : St) : (s.mapTcp f).ctx = s.ctx := rfl
@[simp] theorem St.mapCtx_conn (f) (s : St) : (s.mapCtx f).conn = s.conn := rfl
@[simp] theorem St.mapCtx_ctx (f) (s : St) : (s.mapCtx f).ctx = f s.ctx := rfl

end Xtls.Nic
