import Xtls.Nic.Send

/-!
# Key schedule and the rest of the server flight

What follows each PKA result (`handle_after_*`, `ssl.c` 3740-4127), the application keys and the
expected client Finished (`ssl.c` 4129-4367), and `send_remain_server_records` (`ssl.c` 2842-2878).
-/

namespace Xtls.Nic

/-- `handle_after_ecdhe_key_gen`: the public key is copied from the first result. -/
def handleAfterEcdheKeyGen (s : St) : St :=
  s.mapSess fun e => { e with ecdhePubKey := e.pkaResults.headD {} }

def handshakeKeys (c : Crypto) (msgs shared : Bytes) (k : Tls13Ctx) : Tls13Ctx :=
  let helloHash := (c.sha384 msgs).val
  let early := hkdfExtract c (zeros 48) (zeros 48)
  let derived := hkdfExpandLabel c 48 early (ascii "derived") (c.sha384 []).val
  let hs := hkdfExtract c derived shared
  let cs := hkdfExpandLabel c 48 hs (ascii "c hs traffic") helloHash
  let ss := hkdfExpandLabel c 48 hs (ascii "s hs traffic") helloHash
  { k with
    handshakeSecret := overwrite k.handshakeSecret hs
    clientSecret := overwrite k.clientSecret cs
    serverSecret := overwrite k.serverSecret ss
    clientHandshakeKey := overwrite k.clientHandshakeKey (hkdfExpandLabel c 32 cs (ascii "key") [])
    serverHandshakeKey := overwrite k.serverHandshakeKey (hkdfExpandLabel c 32 ss (ascii "key") [])
    clientHandshakeIv := overwrite k.clientHandshakeIv (hkdfExpandLabel c 12 cs (ascii "iv") [])
    serverHandshakeIv := overwrite k.serverHandshakeIv (hkdfExpandLabel c 12 ss (ascii "iv") []) }

/-- `handle_after_ecdhe_shared_secret_calc`.  The keys are derived for one cipher suite only, the
flag is set in any case. -/
def handleAfterEcdheSharedSecretCalc (env : Env) (s : St) : St :=
  let be := onStack s (operandToString (s.conn.sess.pkaResults.headD {}) x25519KeyLen) x25519KeyLen
  let shared := byteSwapCopy be x25519KeyLen
  s.mapSess fun e =>
    let k :=
      if e.pendingSp.cipher = TLS_AES_256_GCM_SHA384 then
        handshakeKeys env.crypto e.handshakeMsgs shared e.tls13Ctx
      else e.tls13Ctx
    { e with pendingPkaOp := none, tls13Ctx := { k with handshakeKeyCalculated := true } }

/- A DER INTEGER: leading zeros removed, a zero put before a set top bit. -/
def derInteger (b : Bytes) : Bytes :=
  let v := b.dropWhile (· == 0)
  let v := if byteAt v 0 &&& 0x80 ≠ 0 then 0 :: v else v
  [0x02, UInt8.ofNat v.length] ++ v

def operandBytes (op : Operand) : Bytes := operandToString op op.buf.length

/-- `handle_after_ecdsa_signature`. -/
def handleAfterEcdsaSignature (s : St) : St :=
  s.mapSess fun e =>
    let rs := derInteger (operandBytes (e.pkaResults.getD 0 {}))
      ++ derInteger (operandBytes (e.pkaResults.getD 1 {}))
    { e with
      tls13Ctx := { e.tls13Ctx with
        certSignature := [0x30, UInt8.ofNat rs.length] ++ rs
        certSignatured := true } }

def applicationKeys (c : Crypto) (msgs : Bytes) (k : Tls13Ctx) : Tls13Ctx :=
  let hash := (c.sha384 msgs).val
  let derived := hkdfExpandLabel c 48 (slice k.handshakeSecret 0 48) (ascii "derived")
    (c.sha384 []).val
  let master := hkdfExtract c derived (zeros 48)
  let cs := hkdfExpandLabel c 48 master (ascii "c ap traffic") hash
  let ss := hkdfExpandLabel c 48 master (ascii "s ap traffic") hash
  { k with
    clientApplicationKey :=
      overwrite k.clientApplicationKey (hkdfExpandLabel c 32 cs (ascii "key") [])
    serverApplicationKey :=
      overwrite k.serverApplicationKey (hkdfExpandLabel c 32 ss (ascii "key") [])
    clientApplicationIv :=
      overwrite k.clientApplicationIv (hkdfExpandLabel c 12 cs (ascii "iv") [])
    serverApplicationIv :=
      overwrite k.serverApplicationIv (hkdfExpandLabel c 12 ss (ascii "iv") []) }

def handleAppKeysCalculation (env : Env) (s : St) : St :=
  s.mapSess fun e =>
    if e.pendingSp.cipher = TLS_AES_256_GCM_SHA384 then
      { e with tls13Ctx := applicationKeys env.crypto e.handshakeMsgs e.tls13Ctx }
    else e

def handleVerifyDataCalculation (env : Env) (s : St) : St :=
  let e := s.conn.sess
  let vd := finishedMac env.crypto e.tls13Ctx.clientSecret e.handshakeMsgs
  (s.mapSess fun e => { e with tls13Ctx := { e.tls13Ctx with calculatedVd := vd } }).mapCtx fun c =>
    { c with trace := .verifyData s.conn.id e.handshakeMsgs vd :: c.trace }

def setHandshakeState (h : HandshakeType) (s : St) : St :=
  s.mapSess fun e => { e with handshakeState := h }

def sendCertificateFlight (env : Env) (s : St) : Except Halt St := do
  let s ← sendEncryptedExtensions env s
  let s ← sendCertificate env (setHandshakeState .encryptedExtensions s)
  let (_, s) ← signatureCertificate env (setHandshakeState .certificate s)
  return s

def sendFinishedFlight (env : Env) (s : St) : Except Halt St := do
  let s ← sendCertificateVerify env s
  let s ← sendServerFinished env (setHandshakeState .certificateVerify s)
  let s := handleVerifyDataCalculation env (handleAppKeysCalculation env s)
  return sendKeyMeta env (s.conn.tcp.portid + 1) s

def sendRemainServerRecords (env : Env) (s : St) : Except Halt St :=
  let e := s.conn.sess
  if e.handshakeState = .serverHello ∧ e.tls13Ctx.handshakeKeyCalculated then
    sendCertificateFlight env s
  else if e.handshakeState = .certificate ∧ e.tls13Ctx.certSignatured then
    sendFinishedFlight env s
  else if e.handshakeState = .certificateVerify ∧ s.conn.tcp.recvMigFin then do
    let s ← sendPendingRecords s
    return setHandshakeState .finished s
  else .ok s

end Xtls.Nic
