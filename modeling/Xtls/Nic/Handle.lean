import Xtls.Nic.Keys
import Xtls.Nic.Unpack

/-!
# Record handlers and reassembly

`handle_handshake` to `handle_application_data` (`ssl.c` 2279-2609), `process_read_record`,
`process_session_read` (`ssl.c` 2087-2237), `get_processed_crypto` (`ssl.c` 1437-1557) and
`process_new_record` (`ssl.c` 733-858).
-/

namespace Xtls.Nic

/- The selections of a ClientHello.  A suite other than the TLS 1.3 one is recorded as `cipher`
and otherwise only reported on the console. -/
def setPendingSp (r : Record) (ch : ClientHello) (pub : Bytes) (s : St) : St :=
  let cipher := selectCipher (codeList r.pf ch.cipherSuites ch.cipherSuiteLength)
  let curve := selectSupportedGroup (codeList r.pf ch.curvesList ch.curvesListLength)
  let sigAlg := selectSignatureAlgorithm
    (codeList r.pf ch.signatureAlgorithmList ch.signatureAlgorithmListLength)
  let random := (put32 s.ctx.outside.now).reverse ++ initRandom s.conn.sess.randSeed 28
  s.mapSess fun e =>
    let sp := { e.pendingSp with
      cipher := cipher, curve := curve, signatureAlgorithm := sigAlg, clientPubKey := pub }
    let sp := if cipher = TLS_AES_256_GCM_SHA384 then
        { sp with
          prfAlgorithm := .sha384, bulkCipherAlgorithm := .aes, cipherType := .aead
          encKeySize := 32, fixedIvLength := 12, clientRandom := ch.random, serverRandom := random }
      else sp
    { e with
      state := .handshake, handshakeState := .clientHello, pendingSp := sp, version := ch.version }

/- The ClientHello case up to the request for the shared secret, and what follows it. -/
def answerClientHello (env : Env) (r : Record) (ch : ClientHello) (s : St) : Except Halt St := do
  match ch.clientPubKey with
  | none => throw .nullPointer
  | some off =>
    let pub := slice r.pf off x25519KeyLen
    let s ← sendServerHello env (setPendingSp r ch pub s)
    let (_, s) ← calculateSharedSecret pub (setHandshakeState .serverHello s)
    return s.mapSess fun e => { e with writeSp := e.pendingSp, sendSeqNum := 0 }

/-- `handle_handshake`.  Any other message is deleted first and the session then looked up in the
zeroed record (`abort_session(record->sess)`). -/
def handleHandshake (env : Env) (r : Record) (s : St) : Except Halt (Int × St) := do
  let s ← storeHandshake r.fragment.msgType (slice r.pf 0 r.plainText.length.toNat) s
  match r.fragment with
  | .clientHello ch =>
    if .clientHello ≤ s.conn.sess.handshakeState then return (0, deleteRecord r s)
    let s ← answerClientHello env r ch s
    return (0, deleteRecord r s)
  | _ => throw .nullPointer

def handleChangeCipherSpec (r : Record) (s : St) : Int × St :=
  let h := s.conn.sess.handshakeState
  if h ≠ .finished ∧ .clientCipherSpec ≤ h then (0, deleteRecord r s)
  else
    (0, deleteRecord r (s.mapSess fun e =>
      { e with
        handshakeState := .clientCipherSpec, recvSeqNum := 0, clientWriteIvSeqNum := 0
        readSp := e.pendingSp }))

def handleAlert (r : Record) (s : St) : Except Halt (Int × St) := do
  let s := deleteRecord r s
  match r.fragment with
  | .alert level description =>
    if level = 2 ∨ description = 0 then
      let s ← abortSession s
      return (0, s)
    else return (0, s)
  | _ => throw .assertion

/- The Finished case: the session is onloaded before the verify data is compared. -/
def finishHandshake (s : St) : St :=
  (s.mapSess fun e => { e with handshakeState := .finished, state := .active }).mapTcp fun t =>
    { t with onload := true }

def receivedVerifyData (r : Record) : Bytes :=
  match r.fragment with
  | .finished vd => vd
  | _ => zeros 48

def handleApplicationData (r : Record) (s : St) : Except Halt (Int × St) := do
  if innerType r = ContentType.applicationData.code then return (0, deleteRecord r s)
  else if innerType r = ContentType.handshake.code then
    if .finished ≤ s.conn.sess.handshakeState then return (0, deleteRecord r s)
    let s := finishHandshake s
    if s.conn.sess.tls13Ctx.calculatedVd ≠ receivedVerifyData r then
      let s ← removeHws s
      let s ← abortSession s
      return (-1, s)
    else return (0, deleteRecord r (sendTcpPacket TCP_FLAG_ACK [] s))
  else return (-1, deleteRecord r s)

def handleReadRecord (env : Env) (r : Record) (s : St) : Except Halt (Int × St) :=
  match r.plainText.recordType with
  | some .handshake => handleHandshake env r s
  | some .changeCipherSpec => .ok (handleChangeCipherSpec r s)
  | some .alert => handleAlert r s
  | some .applicationData => handleApplicationData r s
  | none => .ok (-1, s)

def retransmittedHello (env : Env) (r : Record) (s : St) : St :=
  let h := s.conn.sess.handshakeState
  let signed := s.conn.sess.tls13Ctx.certSignatured
  let s := if h = .certificateVerify ∧ signed then
      (sendKeyMeta env (s.conn.tcp.portid + 1) s).mapSess fun e =>
        { e with numOfRetransmittedMetaPkt := e.numOfRetransmittedMetaPkt + 1 }
    else s
  let s := if h = .finished ∧ signed then
      sendTcpPacket TCP_FLAG_ACK s.conn.sess.serverRecords s
    else s
  deleteRecord r (s.mapSess fun e => { e with numOfRetransmittedCh := e.numOfRetransmittedCh + 1 })

/- Decryption as `process_read_record` does it; `none` when the record was dropped.  A failed
decryption deletes the record a second time.  `verify_mac` fails its assertion on the length of
the HMAC, because `mac_key_size` is 0. -/
def openRecord (env : Env) (r : Record) (s : St) : Except Halt (Option Record × St) := do
  if s.conn.sess.readSp.bulkCipherAlgorithm = .noCipher then
    return (some { r with inPlace := true }, s)
  let (r', s) ←
    if s.conn.sess.state = .active then pure (some r, s) else decryptRecord env r s
  match r' with
  | none => return (none, deleteRecord r s)
  | some r =>
    if s.conn.sess.readSp.cipherType ≠ .aead then throw .assertion
    return (some r, s)

def readRecord (env : Env) (r : Record) (s : St) : Except Halt (Int × St) := do
  match ← openRecord env (unpackHeader r) s with
  | (none, s) => return (-1, s)
  | (some r, s) =>
    let (ret, r, s) ← unpackRecord r s
    if ret < 0 then return (-1, s)
    if r.plainText.recordType = some .handshake
        ∧ r.fragment.msgType = HandshakeType.clientHello.code then return (0, s)
    handleReadRecord env r s

/-- `process_read_record`; `rest` bytes of the payload are still to be looked at. -/
def processReadRecord (env : Env) (rest : Nat) (r : Record) (s : St) : Except Halt (Int × St) :=
  let s := s.mapCtx fun c => { c with trace := .read s.conn r rest c.ringRoom :: c.trace }
  if .clientHello ≤ s.conn.sess.handshakeState
      ∧ byteAt r.data 0 = ContentType.handshake.code then
    .ok (0, retransmittedHello env r s)
  else readRecord env r s

/-- `process_session_read`; each round takes one record from the queue. -/
def processSessionReadLoop (env : Env) : Nat → St → Except Halt St
  | 0, s => .ok s
  | fuel + 1, s =>
    if s.conn.sess.waitingCrypto then .ok s
    else
      match s.conn.sess.recvQ with
      | [] => .ok s
      | r :: q => do
        let (_, s) ← processReadRecord env 0 r (s.mapSess fun e => { e with recvQ := q })
        processSessionReadLoop env fuel s

def processSessionRead (env : Env) (s : St) : Except Halt St :=
  processSessionReadLoop env s.conn.sess.recvQ.length s

/-! ### PKA results -/

/- The tail of `get_processed_crypto`: the flags are cleared, the operation is released. -/
def finishCrypto (o : OpId) (s : St) : St :=
  deleteOp o (s.mapSess fun e => { e with waitingCrypto := false, completedCrypto := false })

def clearPending (s : St) : St := s.mapSess fun e => { e with pendingPkaOp := none }

/-- `get_processed_crypto`. -/
def getProcessedCrypto (env : Env) (s : St) : Except Halt St :=
  if ¬ s.conn.sess.completedCrypto then .ok s
  else
    match s.conn.sess.pkaOp with
    | none => .error .nullPointer
    | some o =>
      match s.conn.sess.handshakeState with
      | .helloRequest => do
        let s' := handleAfterEcdheKeyGen (clearPending s)
        match (s.ctx.ops o).data with
        | none => throw .assertion
        | some r =>
          let (ret, s') ← handleReadRecord env r s'
          if ret < 0 then return s' else return finishCrypto o s'
      | .serverHello => .ok (finishCrypto o (handleAfterEcdheSharedSecretCalc env (clearPending s)))
      | .certificate => .ok (finishCrypto o (handleAfterEcdsaSignature (clearPending s)))
      | _ => .error .unsupportedPkaState

/-! ### Reassembly -/

def pushReadRecord (r : Record) (s : St) : St := s.mapSess fun e => { e with recvQ := e.recvQ ++ [r] }

/- A complete record is queued while a PKA result is awaited, and read at once otherwise. -/
def takeRecord (env : Env) (rest : Nat) (r : Record) (s : St) : Except Halt St :=
  if s.conn.sess.waitingCrypto then .ok (pushReadRecord r s)
  else do
    let (_, s) ← processReadRecord env rest r s
    return s

def completing (r : Record) (s : St) : St :=
  s.mapCtx fun c => { c with trace := .complete s.conn.id r :: c.trace }

def handOn (env : Env) (rest : Nat) (r : Record) (s : St) : Except Halt St := do
  let s ← takeRecord env rest r (completing r s)
  return s.mapSess fun e => { e with currentReadRecord := none }

def currentRecord (pkt : Bytes) (s : St) : Except Halt (Record × St) :=
  match s.conn.sess.currentReadRecord with
  | some r => .ok (r, s)
  | none => do
    let (r, s) ← newRecvRecord s
    let recordLen := (be16 pkt 3).toNat
    if maxRecordSize ≤ recordLen then throw .assertion
    return ({ r with length := recordLen + recordHeaderSize }, s)

def newRecordRound (env : Env) (pkt : Bytes) (s : St) : Except Halt (Bytes × St) := do
  let (r, s) ← currentRecord pkt s
  let n := min (r.length - r.data.length) pkt.length
  let r := { r with data := r.data ++ pkt.take n }
  let s := s.mapSess fun e => { e with currentReadRecord := some r }
  let s ← (if r.data.length = r.length then handOn env (pkt.length - n) r s else .ok s)
  return (pkt.drop n, s)

def processNewRecordLoop (env : Env) : Nat → Bytes → St → Except Halt St
  | 0, _, _ => .error .endless
  | fuel + 1, pkt, s =>
    if pkt = [] then .ok s
    else if s.conn.sess.currentReadRecord.isNone ∧ pkt.length < recordHeaderSize then .ok s
    else do
      let (pkt, s) ← newRecordRound env pkt s
      processNewRecordLoop env fuel pkt s

/-- `process_new_record`: -1 when the next packet is needed. -/
def processNewRecord (env : Env) (pkt : Bytes) (s : St) : Except Halt (Int × St) := do
  let s ← processNewRecordLoop env (pkt.length + 1) pkt s
  return (if s.conn.sess.currentReadRecord.isSome then -1 else 0, s)

def processSslPacket (env : Env) (payload : Bytes) (s : St) : Except Halt (Int × St) :=
  if payload = [] then .ok (-1, s) else processNewRecord env payload s

end Xtls.Nic
