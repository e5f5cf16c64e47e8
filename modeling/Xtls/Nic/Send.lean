import Xtls.Nic.Tcp

/-!
# Server flight

Packing, encryption and buffering of server records, the key schedule, the three PKA requests
and `send_remain_server_records` (`ssl.c` 659-697, 998-1265, 2611-3515, 3740-4367).
-/

namespace Xtls.Nic

/- A fixed-size array that is written behind its end. -/
def bounded (n : Nat) (b : Bytes) : Except Halt Bytes :=
  if n < b.length then .error .overflow else .ok b

/-- `store_handshake`: messages up to the current state are not stored again.  `frag` is the
handshake message without the inner content type. -/
def storeHandshake (msgType : Byte) (frag : Bytes) (s : St) : Except Halt St :=
  if msgType ≤ s.conn.sess.handshakeState.code then .ok s
  else do
    let msgs ← bounded maxHandshakeLength (s.conn.sess.handshakeMsgs ++ frag)
    if msgs.length = maxHandshakeLength then throw .assertion
    return s.mapSess fun e => { e with handshakeMsgs := msgs }

def recordHeader (type : ContentType) (version : ProtocolVersion) (len : Nat) : Bytes :=
  [type.code, version.major, version.minor] ++ put16 (UInt16.ofNat len)

/- The sequence number is xored into the last eight bytes of the 12-byte iv. -/
def makeNonce (iv : Bytes) (seq : UInt64) : Bytes :=
  slice iv 0 4 ++ xorBytes (slice iv 4 8) (put64 seq)

/-- `encrypt_record`; `none` when the sequence numbers disagree or nothing was encrypted. -/
def encryptRecord (env : Env) (r : Record) (type : ContentType) (version : ProtocolVersion)
    (frag : Bytes) (s : St) : Except Halt (Option Bytes × St) := do
  let (o, s) ← newSslCryptoOp s
  if s.conn.sess.serverWriteIvSeqNum ≠ r.seqNum then return (none, s)
  let header := recordHeader type version (frag.length + gcmTagSize)
  let nonce := makeNonce s.conn.sess.tls13Ctx.serverHandshakeIv s.conn.sess.sendSeqNum
  let key := slice s.conn.sess.tls13Ctx.serverHandshakeKey 0 32
  if frag = [] then return (none, deleteOp o s)
  let (ct, tag) := env.crypto.gcmEncrypt key nonce header frag
  let s := s.mapSess fun e =>
    { e with sendSeqNum := e.sendSeqNum + 1, serverWriteIvSeqNum := r.seqNum + 1 }
  return (some (header ++ ct.val ++ tag.val), deleteOp o s)

/- The bytes of a record: in clear before `write_sp` is set, encrypted afterwards.  `attach_mac` is
reached only with a non-AEAD `pending_sp`, whose `mac_key_size` is 0; its HMAC then fails the
assertion on the output length. -/
def sealRecord (env : Env) (r : Record) (type : ContentType) (frag : Bytes) (s : St) :
    Except Halt (Bytes × St) :=
  let version := s.conn.sess.version
  if s.conn.sess.writeSp.bulkCipherAlgorithm = .noCipher then
    .ok (recordHeader type version frag.length ++ frag, s)
  else if s.conn.sess.pendingSp.cipherType ≠ .aead then .error .assertion
  else do
    match ← encryptRecord env r type version frag s with
    | (some data, s) => return (data, s)
    | (none, _) => throw .sendFailed

/-- `send_record` for a handshake message: packed, stored, sealed and appended to `send_buffer`.  In
an application-data record the content type follows the message. -/
def sendRecord (env : Env) (r : Record) (type : ContentType) (msgType : HandshakeType)
    (body : Bytes) (s : St) : Except Halt St := do
  let msg := [msgType.code] ++ put24 body.length ++ body
  let frag := if type = .applicationData then msg ++ [ContentType.handshake.code] else msg
  let s ← storeHandshake msgType.code msg s
  let (data, s) ← sealRecord env r type frag s
  let buffer ← bounded maxRecordSize (s.conn.sess.sendBuffer ++ data)
  return deleteRecord r (s.mapSess fun e => { e with sendBuffer := buffer })

/- `n` bytes of a stack array of which `b` has been written. -/
def onStack (s : St) (b : Bytes) (n : Nat) : Bytes :=
  b ++ (List.range (n - b.length)).map fun i => s.ctx.outside.stack (b.length + i)

def serverHelloBody (s : St) : Bytes :=
  let e := s.conn.sess
  let pub := onStack s (operandToString e.ecdhePubKey x25519KeyLen) x25519KeyLen
  [e.version.major, e.version.minor] ++ e.pendingSp.serverRandom ++ [32] ++ e.id_
    ++ [e.pendingSp.cipher.c0, e.pendingSp.cipher.c1] ++ [0] ++ put16 46
    ++ put16 0x002b ++ put16 2 ++ [0x03, 0x04]
    ++ put16 0x0033 ++ put16 0x0024 ++ put16 0x001d ++ put16 0x0020
    ++ byteSwapCopy pub x25519KeyLen

def sendServerHello (env : Env) (s : St) : Except Halt St := do
  let (r, s) ← newSendRecord s
  sendRecord env r .handshake .serverHello (serverHelloBody s) s

def sendEncryptedExtensions (env : Env) (s : St) : Except Halt St := do
  let (r, s) ← newSendRecord s
  sendRecord env r .applicationData .encryptedExtensions (put16 0) s

def certificateBody (env : Env) : Bytes :=
  let entry := put24 env.certificate.length ++ env.certificate ++ put16 0
  [0] ++ put24 entry.length ++ entry

def sendCertificate (env : Env) (s : St) : Except Halt St := do
  let (r, s) ← newSendRecord s
  sendRecord env r .applicationData .certificate (certificateBody env) s

def certificateVerifyBody (e : Session) : Bytes :=
  [e.writeSp.signatureAlgorithm.c0, e.writeSp.signatureAlgorithm.c1]
    ++ put16 (UInt16.ofNat e.tls13Ctx.certSignature.length) ++ e.tls13Ctx.certSignature

def sendCertificateVerify (env : Env) (s : St) : Except Halt St := do
  let (r, s) ← newSendRecord s
  sendRecord env r .applicationData .certificateVerify (certificateVerifyBody s.conn.sess) s

def finishedMac (c : Crypto) (secret msgs : Bytes) : Bytes :=
  (c.hmacSha384 (hkdfExpandLabel c 48 (slice secret 0 48) (ascii "finished") [])
    (c.sha384 msgs).val).val

def sendServerFinished (env : Env) (s : St) : Except Halt St := do
  let (r, s) ← newSendRecord s
  sendRecord env r .applicationData .finished
    (finishedMac env.crypto s.conn.sess.tls13Ctx.serverSecret s.conn.sess.handshakeMsgs) s

/-- `send_pending_records`. -/
def sendPendingRecords (s : St) : Except Halt St := do
  let buffer := s.conn.sess.sendBuffer
  let s := sendTcpPacket TCP_FLAG_ACK buffer s
  let records ← bounded 1024 buffer
  return s.mapSess fun e => { e with serverRecords := records, sendBuffer := [] }

/-! ### PKA requests -/

/- `sj_ring_enqueue`: one slot of the ring stays empty. -/
def submitPkaRequest (o : OpId) (s : St) : Int × St :=
  if s.ctx.ringCnt ≤ s.ctx.submitPkaRing.length + 1 then (-1, deleteOp o s)
  else (0, s.mapCtx fun c => { c with submitPkaRing := c.submitPkaRing ++ [o] })

/- The common body of the three requests: take an operation, fill it, submit it, and only then
set the flags. -/
def requestPka (fill : Op) (s : St) : Except Halt (Int × St) := do
  let (o, s) ← newSslCryptoOp s
  let s := s.mapCtx (·.setOp o { fill with sess := some s.conn.id })
  match submitPkaRequest o s with
  | (0, s) =>
    let s := s.mapSess fun e => { e with waitingCrypto := true, pendingPkaOp := some o }
    return (0, s.mapCtx fun c => c.setOp o { c.ops o with pkaFlag := true })
  | (_, s) => return (-1, s)

def generateEcdheKeyPair (r : Record) (s : St) : Except Halt (Int × St) :=
  requestPka { opcode := .ecdheKeyGeneration, data := some r } s

def calculateSharedSecret (clientPubKey : Bytes) (s : St) : Except Halt (Int × St) :=
  let operand := stringToOperand clientPubKey true
  let s := s.mapSess fun e => { e with sharedSecretOperand := operand }
  requestPka { opcode := .ecdheSharedSecretCalc
               pkaIn := some operand
               pkaIn1 := some s.conn.sess.ecdhePrivKey } s

/- What is signed: 64 spaces, the context string, a zero byte and the transcript hash. -/
def certificateHash (c : Crypto) (msgs : Bytes) : Bytes :=
  List.replicate 64 0x20 ++ ascii "TLS 1.3, server CertificateVerify" ++ [0x00]
    ++ (c.sha384 msgs).val

def transcriptHash (c : Crypto) (msgs : Bytes) : Bytes := (c.sha256 (certificateHash c msgs)).val

/- `ecdsa_k` is filled from the same 32 bytes as `ecdsa_transcript_hash`. -/
def signatureCertificate (env : Env) (s : St) : Except Halt (Int × St) :=
  let hash := transcriptHash env.crypto s.conn.sess.handshakeMsgs
  let s := s.mapSess fun e =>
    { e with
      ecdsaTranscriptHash := stringToOperand hash false
      ecdsaK := stringToOperand hash false }
  requestPka { opcode := .ecdsaSignature
               pkaIn := some env.privKey
               pkaIn1 := some s.conn.sess.ecdsaTranscriptHash
               pkaIn2 := some s.conn.sess.ecdsaK } s

end Xtls.Nic
