import Xtls.Nic.Send

/-!
# Reading a record

`unpack_header`, `decrypt_record`, `unpack_record` and its four parsers (`ssl.c` 860-996 and
1645-2085), and the selection functions of the ClientHello (`ssl.c` 514-561).  A byte behind the
received part of a record reads as zero: the record buffers are zeroed when they go back to the
pool.
-/

namespace Xtls.Nic

/-! ### Selection -/

def codeList (pf : Bytes) (off : Option Nat) (len : UInt16) : List Code2 :=
  (List.range (len.toNat / 2)).map fun i =>
    ⟨byteAt pf (off.getD 0 + 2 * i), byteAt pf (off.getD 0 + 2 * i + 1)⟩

def selectCipher : List Code2 → Code2
  | [] => TLS_NULL_WITH_NULL_NULL
  | c :: cs =>
    if c = TLS_AES_256_GCM_SHA384 then TLS_AES_256_GCM_SHA384
    else if c = TLS_RSA_WITH_AES_256_GCM_SHA384 then TLS_RSA_WITH_AES_256_GCM_SHA384
    else if c = TLS_RSA_WITH_AES_256_CBC_SHA then TLS_RSA_WITH_AES_256_CBC_SHA
    else selectCipher cs

def selectCode (wanted unknown : Code2) : List Code2 → Code2
  | [] => unknown
  | c :: cs => if c = wanted then wanted else selectCode wanted unknown cs

def selectSupportedGroup : List Code2 → Code2 := selectCode X25519 SUPPORTED_GROUP_UNKNOWN

def selectSignatureAlgorithm : List Code2 → Code2 :=
  selectCode ECDSA_SECP256r1_SHA256 SIGNATURE_UNKNOWN

/-! ### Header and decryption -/

def unpackHeader (r : Record) : Record :=
  match ContentType.ofByte (byteAt r.data 0) with
  | some type =>
    { r with
      plainText :=
        { recordType := some type
          version := ⟨byteAt r.data 1, byteAt r.data 2⟩
          length := be16 r.data 3 }
      cipherTextLength := be16 r.data 3 }
  | none =>
    { r with
      plainText :=
        { recordType := some .handshake
          version := ⟨0x02, 0x00⟩
          length := UInt16.ofNat (r.length - 2) } }

/- The AEAD call of `decrypt_record`: the tag is cut off in 16-bit arithmetic. -/
def aeadOpen (env : Env) (e : Session) (r : Record) : Option Bytes :=
  let inLen := (r.cipherTextLength - 16).toNat
  let content := slice r.data recordHeaderSize inLen
  let tag := slice r.data (recordHeaderSize + inLen) gcmTagSize
  let nonce := makeNonce e.tls13Ctx.clientHandshakeIv e.recvSeqNum
  let key := slice e.tls13Ctx.clientHandshakeKey 0 32
  (env.crypto.gcmDecrypt key nonce (slice r.data 0 recordHeaderSize) content tag).map (·.val)

/- The record with its plaintext behind a header of the plaintext's length; an empty plaintext counts
as a failure. -/
def decrypted (env : Env) (e : Session) (r : Record) : Option Record :=
  match aeadOpen env e r with
  | none | some [] => none
  | some pt =>
    let len := r.cipherTextLength - 16
    some { r with
      seqNum := e.recvSeqNum, isEncrypted := true, cipherTextLength := len
      macIn := slice r.data 0 3 ++ put16 len ++ pt }

/-- `decrypt_record`; on failure the record is already deleted. -/
def decryptRecord (env : Env) (r : Record) (s : St) : Except Halt (Option Record × St) := do
  let (o, s) ← newSslCryptoOp s
  match decrypted env s.conn.sess r with
  | none => return (none, deleteRecord r (deleteOp o s))
  | some r =>
    let s := s.mapSess fun e => { e with clientWriteIvSeqNum := e.recvSeqNum + 1 }
    return (some r, deleteOp o s)

/-! ### ClientHello -/

/- One round of the loop of `unpack_extensions`: the new offset and what was found. -/
def extensionStep (pf : Bytes) (offset : UInt16) (ch : ClientHello) : UInt16 × ClientHello :=
  let type := be16 pf offset.toNat
  let extensionLength := be16 pf (offset + 2).toNat
  let offset := offset + 4
  if type = 0x000b ∨ type = 0x0023 ∨ type = 0x0010 ∨ type = 0x0016 ∨ type = 0x0017
      ∨ type = 0x002d then
    (offset + extensionLength, ch)
  else if type = 0x000a then
    let len := be16 pf offset.toNat
    let offset := offset + 2
    (offset + len, { ch with curvesListLength := len, curvesList := some offset.toNat })
  else if type = 0x000d then
    let len := be16 pf offset.toNat
    let offset := offset + 2
    (offset + len,
      { ch with signatureAlgorithmListLength := len, signatureAlgorithmList := some offset.toNat })
  else if type = 0x002b then
    let len := byteAt pf offset.toNat
    let offset := offset + 1
    (offset + UInt16.ofNat len.toNat,
      { ch with versionsLength := len, versions := some offset.toNat })
  else if type = 0x0033 then
    let ch :=
      { ch with
        keyShareLength := be16 pf offset.toNat
        curveType := be16 pf (offset + 2).toNat
        pubKeyLength := be16 pf (offset + 4).toNat
        clientPubKey := some (offset + 6).toNat }
    (offset + 6 + ch.pubKeyLength, ch)
  else (offset, ch)

def unpackExtensionsLoop (pf : Bytes) (fin : UInt16) :
    Nat → UInt16 → ClientHello → Option ClientHello
  | 0, _, _ => none
  | fuel + 1, offset, ch =>
    if offset < fin then
      let (offset, ch) := extensionStep pf offset ch
      unpackExtensionsLoop pf fin fuel offset ch
    else some ch

/- A 16-bit offset takes at most 65536 values, so a loop that runs longer never ends. -/
def unpackExtensions (pf : Bytes) (offset fin : UInt16) (ch : ClientHello) : Option ClientHello :=
  if ch.extensionsLength = 0 then some ch else unpackExtensionsLoop pf fin 65537 offset ch

def unpackHelloFixed (pf : Bytes) : Except Halt (Nat × ClientHello) := do
  let sidLen := byteAt pf 38
  if sidLen.toNat > 32 then throw .overflow
  let offset := 39 + sidLen.toNat
  let csLen := be16 pf offset
  let offset := offset + 2
  let cs := if csLen = 0 then none else some offset
  let offset := offset + csLen.toNat
  let cmLen := byteAt pf offset
  let offset := offset + 1 + cmLen.toNat
  return (offset,
    { version := ⟨byteAt pf 4, byteAt pf 5⟩
      random := slice pf 6 32
      sessionIdLength := sidLen
      sessionId := overwrite (zeros 32) (slice pf 39 sidLen.toNat)
      cipherSuiteLength := csLen
      cipherSuites := cs
      compressionMethodLength := cmLen })

/- `none` when the hello ends before its extensions. -/
def unpackClientHello (pf : Bytes) (fin : Nat) : Except Halt (Option ClientHello) := do
  let (offset, ch) ← unpackHelloFixed pf
  if fin ≤ offset then return none
  let ch := { ch with extensionsLength := be16 pf offset }
  match unpackExtensions pf (UInt16.ofNat (offset + 2)) (UInt16.ofNat fin) ch with
  | none => throw .endless
  | some ch => return some ch

/- Message types that `unpack_handshake` leaves without a `return`. -/
def fallsThrough (msgType : Byte) : Bool :=
  [HandshakeType.clientKeyExchange, .finished, .helloRequest, .certificate, .serverHello,
    .serverKeyExchange, .certificateRequest, .serverHelloDone, .certificateVerify].any
    (·.code == msgType)

/-- `unpack_handshake`. -/
def unpackHandshake (r : Record) (s : St) : Except Halt (Int × Record × St) := do
  let pf := r.pf
  let msgType := byteAt pf 0
  let r := { r with fragment := .handshake msgType }
  if msgType = HandshakeType.clientHello.code then
    if r.plainText.version ≠ ⟨0x03, 0x01⟩ then return (s.ctx.outside.missingReturn r, r, s)
    match ← unpackClientHello pf r.plainText.length.toNat with
    | none => return (s.ctx.outside.missingReturn r, r, s)
    | some ch =>
      let r := { r with fragment := .clientHello ch }
      let s := s.mapSess fun e => { e with id_ := ch.sessionId }
      let (ret, s) ← generateEcdheKeyPair r s
      return (ret, r, s)
  else if fallsThrough msgType then return (s.ctx.outside.missingReturn r, r, s)
  else return (-1, r, s)

/-! ### The other record types -/

/- `pf[end - 1]`, the inner content type of an application-data record. -/
def innerType (r : Record) : Byte := byteAt r.decrypted (4 + r.plainText.length.toNat)

def unpackApplicationData (r : Record) : Int × Record :=
  if innerType r = ContentType.handshake.code then
    (0, { r with fragment := .finished (slice r.pf handshakeHeaderSize 48) })
  else (-1, r)

def unpackAlert (r : Record) : Record :=
  { r with fragment := .alert (byteAt r.pf 0) (byteAt r.pf 1) }

/- A record that is not read in place takes the length of its ciphertext without the tag. -/
def takeLength (r : Record) : Record :=
  if r.inPlace then r else { r with plainText := { r.plainText with length := r.cipherTextLength } }

/-- `unpack_record`. -/
def unpackRecord (r : Record) (s : St) : Except Halt (Int × Record × St) :=
  if r.plainText.version.major ≠ 0x03 then .ok (-1, r, s)
  else
    let r := takeLength r
    match r.plainText.recordType with
    | some .handshake => unpackHandshake r s
    | some .changeCipherSpec => .ok (0, r, s)
    | some .alert => .ok (0, unpackAlert r, s)
    | some .applicationData => let (ret, r) := unpackApplicationData r; .ok (ret, r, s)
    | none => .error .assertion

end Xtls.Nic
