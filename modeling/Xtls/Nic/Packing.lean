import Xtls.Nic.Handshake

/-!
# The lengths and the bytes of the server flight

The `send_*` functions add up the length of a message from the sizes of its fields, `pack_handshake` and
`pack_application_data` write the bytes, and `send_record` and `encrypt_record` cut as many bytes out of the
buffers as the lengths say (`ssl.c` 2611-2840, 2882-3341, 3411-3517).  Here the two are kept apart, over memory
with arbitrary contents behind what was written.
-/

namespace Xtls.Nic

open Tls

/-! ### The bodies and their lengths -/

/- `server_hello_t`; `random`, `session_id` and `server_pub_key` are arrays of 32 bytes. -/
structure ServerHelloBody where
  version : ProtocolVersion
  random : Bytes
  sessionIdLength : Byte
  sessionId : Bytes
  cipherSuite : Code2
  compressionMethod : Byte
  extensionsLength : UInt16
  supportedVersions : UInt16 × UInt16 × ProtocolVersion
  keyShare : UInt16 × UInt16 × UInt16 × UInt16 × Bytes

/- `certificate_t`: a length of 24 bits and the memory that the pointer leads to. -/
structure CertificateBody where
  length : Bytes
  certificate : Bytes

/- `certificate_list_tls13_t`; of the array only the first element is ever written. -/
structure CertificateListBody where
  requestContextLength : Byte
  certificatesLength : Bytes
  certificates : Nat → CertificateBody
  certExtensionsLength : UInt16

/- `cert_verify_tls13_t`, with the length that the packing function takes from the session. -/
structure CertVerifyBody where
  signatureAlgorithm : Code2
  signatureLength : UInt16
  certSignature : Bytes
  certSignatureLen : UInt8

inductive Body
  | serverHello (b : ServerHelloBody)
  | encryptedExtensions (extensionsLength : UInt16)
  | certificate (b : CertificateListBody)
  | certificateVerify (b : CertVerifyBody)
  | finished (verifyData : Bytes)

def Body.msgType : Body → HandshakeType
  | .serverHello _ => .serverHello
  | .encryptedExtensions _ => .encryptedExtensions
  | .certificate _ => .certificate
  | .certificateVerify _ => .certificateVerify
  | .finished _ => .finished

def Body.type : Body → ContentType
  | .serverHello _ => .handshake
  | _ => .applicationData

/-- The body that `send_server_hello` fills in, and the length it adds up. -/
def fillServerHello (s : St) : Body × Nat :=
  let e := s.conn.sess
  let pub := onStack s (operandToString e.ecdhePubKey x25519KeyLen) x25519KeyLen
  (.serverHello
    { version := e.version
      random := slice e.pendingSp.serverRandom 0 32
      sessionIdLength := 32
      sessionId := slice e.id_ 0 32
      cipherSuite := e.pendingSp.cipher
      compressionMethod := 0
      extensionsLength := 2 + 2 + 2 + 2 + 2 + 36
      supportedVersions := (0x002b, 0x0002, ⟨0x03, 0x04⟩)
      keyShare := (0x0033, 0x0024, 0x001d, 0x0020, byteSwapCopy pub x25519KeyLen) },
    2 + 32 + 1 + 32 + 2 + 1 + 2 + (2 + 2 + 2) + (2 + 2 + 2 + 2 + x25519KeyLen))

def fillEncryptedExtensions : Body × Nat := (.encryptedExtensions 0, 2)

/- What lies behind the first element of `certificates` is `behind`. -/
def fillCertificate (env : Env) (behind : Nat → CertificateBody) : Body × Nat :=
  let length := env.certificate.length
  let first : CertificateBody := { length := put24 length, certificate := env.certificate }
  let length := length + 3
  let length := length + 2
  let certificatesLength := put24 length
  let length := length + 3
  let length := length + 1
  (.certificate
    { requestContextLength := 0
      certificatesLength := certificatesLength
      certificates := fun i => if i = 0 then first else behind i
      certExtensionsLength := 0 },
    length)

/- `cert_signature_len` is a `uint8_t`. -/
def fillCertificateVerify (e : Session) : Body × Nat :=
  let signatureLen := UInt8.ofNat e.tls13Ctx.certSignature.length
  (.certificateVerify
    { signatureAlgorithm := e.writeSp.signatureAlgorithm
      signatureLength := UInt16.ofNat signatureLen.toNat
      certSignature := e.tls13Ctx.certSignature
      certSignatureLen := signatureLen },
    2 + 2 + signatureLen.toNat)

def fillServerFinished (mac : Bytes) : Body × Nat := (.finished mac, 48)

/-! ### The bytes -/

/-- The loop of `pack_application_data` over the certificates: `remain` is `remain_cert_len`. -/
def packCertificates (b : CertificateListBody) (i : Nat) (remain : Int) : Bytes :=
  if 0 < remain then
    let cert := b.certificates i
    let len := beValue cert.length
    cert.length ++ slice cert.certificate 0 len ++ leBytes 2 b.certExtensionsLength.toNat
      ++ packCertificates b (i + 1) (remain - 3 - len - 2)
  else []
termination_by remain.toNat

/-- What `pack_handshake` and `pack_application_data` write behind the header of the message.  The
fields that are stored with `htons` or have no byte order are copied. -/
def Body.pack : Body → Bytes
  | .serverHello b =>
    [b.version.major, b.version.minor] ++ b.random ++ [b.sessionIdLength] ++ b.sessionId
      ++ [b.cipherSuite.c0, b.cipherSuite.c1] ++ [b.compressionMethod] ++ put16 b.extensionsLength
      ++ put16 b.supportedVersions.1 ++ put16 b.supportedVersions.2.1
      ++ [b.supportedVersions.2.2.major, b.supportedVersions.2.2.minor]
      ++ put16 b.keyShare.1 ++ put16 b.keyShare.2.1 ++ put16 b.keyShare.2.2.1 ++ put16 b.keyShare.2.2.2.1
      ++ b.keyShare.2.2.2.2
  | .encryptedExtensions extensionsLength => put16 extensionsLength
  | .certificate b => [b.requestContextLength] ++ b.certificatesLength
      ++ packCertificates b 0 (beValue b.certificatesLength)
  | .certificateVerify b => [b.signatureAlgorithm.c0, b.signatureAlgorithm.c1] ++ put16 b.signatureLength
      ++ slice b.certSignature 0 b.certSignatureLen.toNat
  | .finished verifyData => slice verifyData 0 48

/- The record: what has been written to `decrypted`, `plain_text.length` and `length`. -/
structure OutRecord where
  decrypted : Bytes
  plainLength : UInt16
  length : Nat

/-- `send_handshake`, the first part of `send_record`, and `pack_record`.  In an application-data record
the content type is written behind the message, and the length in the header once more. -/
def packRecord (version : ProtocolVersion) (b : Body) (length : Nat) : OutRecord :=
  let message := [b.msgType.code] ++ put24 length ++ b.pack
  let length := length + 3 + 1
  let plainLength := UInt16.ofNat length
  let length := length + 2 + 1 + 2
  let header := [b.type.code, version.major, version.minor]
  if b.type = .applicationData then
    { decrypted := header ++ put16 (plainLength + 1) ++ (message ++ [ContentType.handshake.code])
      plainLength := plainLength + 1
      length := length + 1 }
  else { decrypted := header ++ put16 plainLength ++ message, plainLength := plainLength, length := length }

/-- The bytes that `send_record` appends to `send_buffer` and the value it returns; `decrypted` and `data`
are the contents of the two buffers behind what is written. -/
def copyRecord (env : Env) (e : Session) (seq : UInt64) (decrypted data : Bytes) (r : OutRecord) : Bytes × Nat :=
  let plain := r.decrypted ++ decrypted
  if e.writeSp.bulkCipherAlgorithm = .noCipher then (slice plain 0 r.length, r.length)
  else
    let cipherLength := r.plainLength + UInt16.ofNat gcmTagSize
    let header := slice plain 0 3 ++ put16 cipherLength
    let (ct, tag) := env.crypto.gcmEncrypt (slice e.tls13Ctx.serverHandshakeKey 0 32)
      (makeNonce e.tls13Ctx.serverHandshakeIv seq) header (slice plain recordHeaderSize r.plainLength.toNat)
    let length := cipherLength.toNat + recordHeaderSize
    (slice (header ++ ct.val ++ tag.val ++ data) 0 length, length)

section

variable {env : Env} {e : Session} {b : Body} {length : Nat} {seq : UInt64}

/-! ### One record -/

theorem innerText_length (b : Body) :
    (innerText b.type b.msgType b.pack).length = b.pack.length + 4 + if b.type = .applicationData then 1 else 0 := by
  rw [innerText, List.length_append, message, List.length_cons, vector_length]
  split <;> simp only [List.length_cons, List.length_nil] <;> omega

theorem packRecord_eq (version : ProtocolVersion) (hlen : length = b.pack.length) :
    packRecord version b length
      = { decrypted := recordHeader b.type version (innerText b.type b.msgType b.pack).length
            ++ innerText b.type b.msgType b.pack
          plainLength := UInt16.ofNat (innerText b.type b.msgType b.pack).length
          length := (innerText b.type b.msgType b.pack).length + 5 } := by
  have hmsg : [b.msgType.code] ++ put24 length ++ b.pack = message b.msgType.code b.pack := by
    rw [hlen, put24_eq]
    rfl
  have hinner := innerText_length b
  unfold packRecord recordHeader
  dsimp only
  rw [hmsg]
  split
  · rename_i ht
    rw [if_pos ht, ← hlen] at hinner
    have hplain : UInt16.ofNat (length + 4) + 1 = UInt16.ofNat (length + 4 + 1) := (UInt16.ofNat_add _ _).symm
    rw [hinner, innerText, if_pos ht, ← hplain]
  · rename_i ht
    rw [if_neg ht, ← hlen] at hinner
    rw [hinner, innerText, if_neg ht, List.append_nil]

theorem slice_front (a b : Bytes) {n : Nat} (h : a.length = n) : slice (a ++ b) 0 n = a := by
  rw [← h, slice_append_left _ _ _ _ (by omega), slice_self]

theorem copyRecord_clear {type : ContentType} {inner : Bytes} (decrypted data : Bytes)
    (hclear : e.writeSp.bulkCipherAlgorithm = .noCipher) :
    copyRecord env e seq decrypted data
        ⟨recordHeader type e.version inner.length ++ inner, UInt16.ofNat inner.length, inner.length + 5⟩
      = (recordHeader type e.version inner.length ++ inner, inner.length + 5) := by
  have hall : (recordHeader type e.version inner.length ++ inner).length = inner.length + 5 := by
    rw [List.length_append, recordHeader_length]
    omega
  rw [copyRecord, if_pos hclear, slice_front _ _ hall]

/- `in_len` bytes behind the header are encrypted, and the tag is part of the length. -/
theorem copyRecord_sealed {type : ContentType} {inner : Bytes} (decrypted data : Bytes)
    (hsealed : e.writeSp.bulkCipherAlgorithm ≠ .noCipher) (hshort : inner.length + gcmTagSize < 65536) :
    copyRecord env e seq decrypted data
        ⟨recordHeader type e.version inner.length ++ inner, UInt16.ofNat inner.length, inner.length + 5⟩
      = (recordHeader type e.version (inner.length + gcmTagSize) ++ protect env e seq type inner,
          inner.length + gcmTagSize + 5) := by
  have hsize : gcmTagSize = 16 := rfl
  have hfront : slice (recordHeader type e.version inner.length ++ inner ++ decrypted) 0 3
      = [type.code, e.version.major, e.version.minor] := by
    rw [recordHeader, List.append_assoc, List.append_assoc]
    exact slice_front _ _ rfl
  have hlength : UInt16.ofNat inner.length + UInt16.ofNat gcmTagSize = UInt16.ofNat (inner.length + gcmTagSize) :=
    (UInt16.ofNat_add _ _).symm
  have hin : (UInt16.ofNat inner.length).toNat = inner.length :=
    UInt16.toNat_ofNat_of_lt' (Nat.lt_of_le_of_lt (Nat.le_add_right _ _) hshort)
  have hout : (UInt16.ofNat (inner.length + gcmTagSize)).toNat = inner.length + gcmTagSize :=
    UInt16.toNat_ofNat_of_lt' hshort
  have hplain : slice (recordHeader type e.version inner.length ++ inner ++ decrypted) recordHeaderSize inner.length
      = inner := by
    have hskip := slice_append_right (recordHeader type e.version inner.length) (inner ++ decrypted) 0 inner.length
    rw [List.append_assoc]
    exact hskip.trans (slice_front _ _ rfl)
  unfold copyRecord protect
  dsimp only
  rw [if_neg hsealed, if_neg hsealed, hlength, hin, hout, hplain, hfront]
  have hheader : [type.code, e.version.major, e.version.minor] ++ put16 (UInt16.ofNat (inner.length + gcmTagSize))
    = recordHeader type e.version (inner.length + gcmTagSize) := rfl
  rw [hheader, slice_front, List.append_assoc]
  · rfl
  · rw [List.length_append, List.length_append, recordHeader_length, (env.crypto.gcmEncrypt _ _ _ inner).1.property,
      (env.crypto.gcmEncrypt _ _ _ inner).2.property, hsize]
    show 5 + inner.length + 16 = inner.length + 16 + 5
    omega

theorem copyRecord_packRecord (decrypted data : Bytes) (hlen : length = b.pack.length)
    (hshort : (sentRecord env e seq b.type b.msgType b.pack).fragment.length < 65536) :
    copyRecord env e seq decrypted data (packRecord e.version b length)
      = ((sentRecord env e seq b.type b.msgType b.pack).encode,
          (sentRecord env e seq b.type b.msgType b.pack).encode.length) := by
  have hfragment : (sentRecord env e seq b.type b.msgType b.pack).fragment.length
      = (innerText b.type b.msgType b.pack).length + sealOverhead e := protect_length ..
  have hsize : (sentRecord env e seq b.type b.msgType b.pack).encode.length
      = (innerText b.type b.msgType b.pack).length + sealOverhead e + 5 := by
    rw [Record.encode, List.length_append, vector_length, hfragment]
    show 3 + (2 + _) = _
    omega
  rw [packRecord_eq e.version hlen, hsize, ← sentRecord_encode hshort]
  rw [hfragment] at hshort
  by_cases hclear : e.writeSp.bulkCipherAlgorithm = .noCipher
  · have hover : sealOverhead e = 0 := if_pos hclear
    rw [copyRecord_clear decrypted data hclear, hover, protect, if_pos hclear]
    rfl
  · have hover : sealOverhead e = gcmTagSize := if_neg hclear
    rw [hover] at hshort ⊢
    exact copyRecord_sealed decrypted data hclear hshort

/-! ### The five bodies -/

theorem fillServerHello_pack {t : St} (hr : t.conn.sess.pendingSp.serverRandom.length = 32)
    (hid : t.conn.sess.id_.length = 32) :
    (fillServerHello t).1.pack = serverHelloBody t ∧ (fillServerHello t).2 = (fillServerHello t).1.pack.length := by
  have hpack : (fillServerHello t).1.pack = serverHelloBody t := by
    have hrandom : slice t.conn.sess.pendingSp.serverRandom 0 32 = t.conn.sess.pendingSp.serverRandom := by
      rw [← hr, slice_self]
    have hname : slice t.conn.sess.id_ 0 32 = t.conn.sess.id_ := by
      rw [← hid, slice_self]
    simp only [fillServerHello, Body.pack, serverHelloBody, hrandom, hname]
    rfl
  refine ⟨hpack, ?_⟩
  rw [hpack, serverHelloBody_length hr hid]
  rfl

theorem fillCertificate_pack (behind : Nat → CertificateBody) (h : env.certificate.length + 5 < 256 ^ 3) :
    (fillCertificate env behind).1.pack = certificateBody env
      ∧ (fillCertificate env behind).2 = (fillCertificate env behind).1.pack.length := by
  have hlist : beValue (put24 (env.certificate.length + 3 + 2)) = env.certificate.length + 5 := by
    rw [put24_eq]
    exact beValue_beBytes h
  have hcert : beValue (put24 env.certificate.length) = env.certificate.length := by
    rw [put24_eq]
    exact beValue_beBytes (by omega)
  have hone (b : CertificateListBody) (hlen : (b.certificates 0).length = put24 env.certificate.length)
      (hdata : (b.certificates 0).certificate = env.certificate) (hext : b.certExtensionsLength = 0) :
      packCertificates b 0 (env.certificate.length + 5 : Nat)
        = put24 env.certificate.length ++ env.certificate ++ put16 0 := by
    have hend : ¬ (0 : Int) < (env.certificate.length + 5 : Nat) - 3 - env.certificate.length - 2 := by omega
    rw [packCertificates, if_pos (by omega)]
    dsimp only
    rw [hlen, hcert, hdata, hext, slice_self, packCertificates, if_neg hend, List.append_nil]
    rfl
  have hpack : (fillCertificate env behind).1.pack = certificateBody env := by
    simp only [fillCertificate, Body.pack, hlist]
    rw [hone _ rfl rfl rfl, certificateBody]
    simp only [List.length_append, put24_length, put16_length]
    rw [Nat.add_comm 3]
  refine ⟨hpack, ?_⟩
  rw [hpack, certificateBody_length]
  rfl

theorem fillCertificateVerify_pack (h : e.tls13Ctx.certSignature.length ≤ 128) :
    (fillCertificateVerify e).1.pack = certificateVerifyBody e
      ∧ (fillCertificateVerify e).2 = (fillCertificateVerify e).1.pack.length := by
  have hlen : (UInt8.ofNat e.tls13Ctx.certSignature.length).toNat = e.tls13Ctx.certSignature.length :=
    UInt8.toNat_ofNat_of_lt' (Nat.lt_of_le_of_lt h (by decide))
  have hpack : (fillCertificateVerify e).1.pack = certificateVerifyBody e := by
    simp only [fillCertificateVerify, Body.pack, hlen, slice_self]
    rfl
  refine ⟨hpack, ?_⟩
  rw [hpack, certificateVerifyBody_length, fillCertificateVerify, hlen]
  dsimp only
  omega

theorem fillServerFinished_pack {mac : Bytes} (h : mac.length = 48) :
    (fillServerFinished mac).1.pack = mac ∧ (fillServerFinished mac).2 = (fillServerFinished mac).1.pack.length := by
  have hpack : (fillServerFinished mac).1.pack = mac := by
    show slice mac 0 48 = mac
    rw [← h, slice_self]
  exact ⟨hpack, by rw [hpack, h]; rfl⟩

theorem certificateBody_reads (h : env.certificate.length + 5 < 256 ^ 3) :
    readCertificate (certificateBody env) = some ([], [{ data := env.certificate, extensions := [] }]) := by
  have hentry : put24 env.certificate.length ++ env.certificate ++ put16 0
      = CertificateEntry.encode { data := env.certificate, extensions := [] } := by
    rw [put24_eq]
    rfl
  have hlen : (CertificateEntry.encode { data := env.certificate, extensions := [] }).length
      = env.certificate.length + 5 := by
    rw [← hentry]
    simp only [List.length_append, put24_length, put16_length]
    omega
  have hread := readCertificate_encode [] [{ data := env.certificate, extensions := [] }] (by decide)
    (fun x hx => ?_) (by rw [List.flatMap_singleton, hlen]; exact h)
  · rw [List.flatMap_singleton] at hread
    rw [certificateBody, hentry, put24_eq]
    exact hread
  · rw [List.mem_singleton.mp hx]
    exact ⟨Nat.lt_of_le_of_lt (Nat.le_add_right _ 5) h, by simp, (by decide : 0 < 65536)⟩

theorem certificateVerifyBody_reads (h : e.tls13Ctx.certSignature.length < 65536) :
    readCertificateVerify (certificateVerifyBody e)
      = some ([e.writeSp.signatureAlgorithm.c0, e.writeSp.signatureAlgorithm.c1], e.tls13Ctx.certSignature) := by
  rw [certificateVerifyBody, put16_eq h, List.append_assoc]
  exact readCertificateVerify_encode rfl h

/-! ### The whole flight -/

/- One call; `mem` is what lies in the two buffers behind what is written. -/
def sendCopy (env : Env) (mem : HandshakeType → Bytes × Bytes) (e : Session) (seq : UInt64) (p : Body × Nat) :
    Bytes × Nat :=
  copyRecord env e seq (mem p.1.msgType).1 (mem p.1.msgType).2 (packRecord e.version p.1 p.2)

/-- The calls of `send_record`: what each appends to `send_buffer` and what it returns.  The ServerHello is
sent in state `t`. -/
def sentCopies (env : Env) (e : Session) (t : St) (mac : Bytes) (behind : Nat → CertificateBody)
    (mem : HandshakeType → Bytes × Bytes) : List (Bytes × Nat) :=
  [sendCopy env mem t.conn.sess 0 (fillServerHello t), sendCopy env mem e 0 fillEncryptedExtensions,
    sendCopy env mem e 1 (fillCertificate env behind), sendCopy env mem e 2 (fillCertificateVerify e),
    sendCopy env mem e 3 (fillServerFinished mac)]

def protectedMessages (env : Env) (e : Session) (mac : Bytes) : List (HandshakeType × Bytes) :=
  [(.encryptedExtensions, put16 0), (.certificate, certificateBody env),
    (.certificateVerify, certificateVerifyBody e), (.finished, mac)]

/-- `send_buffer` is the five records, each of which is what one call of `send_record` has appended and
counted, and every message in them is well formed. -/
structure FlightParses (env : Env) (e : Session) (t : St) (mac : Bytes) : Prop where
  records : readRecords e.sendBuffer = some (flight env e (serverHelloBody t) mac)
  appended : ∀ behind mem, e.sendBuffer = (sentCopies env e t mac behind mem).flatMap Prod.fst
  returned : ∀ behind mem, ∀ p ∈ sentCopies env e t mac behind mem, p.2 = p.1.length
  hello : readMessage (message HandshakeType.serverHello.code (serverHelloBody t))
      = some (HandshakeType.serverHello.code, serverHelloBody t)
    ∧ (readServerHello (serverHelloBody t)).isSome
  messages : ∀ m ∈ protectedMessages env e mac, readMessage (message m.1.code m.2) = some (m.1.code, m.2)
  extensions : readExtensions (put16 0) = some ([], [])
  certificate : readCertificate (certificateBody env) = some ([], [{ data := env.certificate, extensions := [] }])
  certificateVerify : readCertificateVerify (certificateVerifyBody e)
    = some ([e.writeSp.signatureAlgorithm.c0, e.writeSp.signatureAlgorithm.c1], e.tls13Ctx.certSignature)
  finished : mac.length = 48

theorem sentRecord_body_lt {type : ContentType} {msgType : HandshakeType} {body : Bytes}
    (h : (sentRecord env e seq type msgType body).fragment.length < 65536) : body.length < 65536 := by
  have hlen : (sentRecord env e seq type msgType body).fragment.length
      = (innerText type msgType body).length + sealOverhead e := protect_length ..
  rw [hlen, innerText, List.length_append, message, List.length_cons, vector_length] at h
  omega

theorem sendCopy_eq {p : Body × Nat} {r : Tls.Record} (mem : HandshakeType → Bytes × Bytes)
    (hlen : p.2 = p.1.pack.length) (hr : sentRecord env e seq p.1.type p.1.msgType p.1.pack = r)
    (hshort : r.fragment.length < 65536) : sendCopy env mem e seq p = (r.encode, r.encode.length) := by
  subst hr
  exact copyRecord_packRecord _ _ hlen hshort

theorem Buffered.copies {t : St} {client mac : Bytes} (hb : Buffered env e 5 (serverHelloBody t) mac)
    (ha : Answers e.version client (serverHelloBody t) t) (hmac : mac.length = 48)
    (hsig : e.tls13Ctx.certSignature.length ≤ 128) (behind : Nat → CertificateBody)
    (mem : HandshakeType → Bytes × Bytes) :
    sentCopies env e t mac behind mem
      = (flight env e (serverHelloBody t) mac).map fun r => (r.encode, r.encode.length) := by
  have hshort : ∀ r ∈ flight env e (serverHelloBody t) mac, r.fragment.length < 65536 := hb.short
  simp only [flight, List.forall_mem_cons] at hshort
  obtain ⟨hs0, hs1, hs2, hs3, hs4, -⟩ := hshort
  have hcert := sentRecord_body_lt hs2
  rw [certificateBody_length] at hcert
  obtain ⟨hpack0, hlen0⟩ := fillServerHello_pack ha.random ha.sessionId
  obtain ⟨hpack2, hlen2⟩ := fillCertificate_pack behind (by omega : env.certificate.length + 5 < 256 ^ 3)
  obtain ⟨hpack3, hlen3⟩ := fillCertificateVerify_pack hsig
  obtain ⟨hpack4, hlen4⟩ := fillServerFinished_pack hmac
  have hhello : sentRecord env t.conn.sess 0 .handshake .serverHello (fillServerHello t).1.pack
      = { type := ContentType.handshake.code, version := (e.version.major, e.version.minor)
          fragment := message HandshakeType.serverHello.code (serverHelloBody t) } := by
    rw [sentRecord_clear 0 .serverHello _ ha.clear, ha.version, hpack0]
  rw [sentCopies, sendCopy_eq mem hlen0 hhello hs0, sendCopy_eq mem rfl rfl hs1,
    sendCopy_eq mem hlen2 (by rw [hpack2]; rfl) hs2, sendCopy_eq mem hlen3 (by rw [hpack3]; rfl) hs3,
    sendCopy_eq mem hlen4 (by rw [hpack4]; rfl) hs4]
  rfl

theorem Buffered.parses {t : St} {client mac : Bytes} (hb : Buffered env e 5 (serverHelloBody t) mac)
    (ha : Answers e.version client (serverHelloBody t) t) (hmac : mac.length = 48)
    (hsig : e.tls13Ctx.certSignature.length ≤ 128) : FlightParses env e t mac := by
  have hshort : ∀ r ∈ flight env e (serverHelloBody t) mac, r.fragment.length < 65536 := hb.short
  have hbuffer : e.sendBuffer = (flight env e (serverHelloBody t) mac).flatMap Record.encode := hb.buffer
  have hread : readRecords e.sendBuffer = some (flight env e (serverHelloBody t) mac) := by
    rw [hbuffer, readRecords_encode _ hshort]
  simp only [flight, List.forall_mem_cons] at hshort
  obtain ⟨-, hs1, hs2, hs3, hs4, -⟩ := hshort
  have hcert := sentRecord_body_lt hs2
  have hmessage : ∀ {msgType : HandshakeType} {body : Bytes}, body.length < 65536 →
      readMessage (message msgType.code body) = some (msgType.code, body) :=
    fun h => readMessage_message _ (Nat.lt_trans h (by decide))
  refine ⟨hread, fun behind mem => ?_, fun behind mem p hp => ?_, ⟨hmessage ?_, ?_⟩, fun m hm => ?_, by decide,
    certificateBody_reads ?_, certificateVerifyBody_reads (by omega), hmac⟩
  · rw [hb.copies ha hmac hsig, hbuffer, List.flatMap_map]
  · rw [hb.copies ha hmac hsig] at hp
    obtain ⟨r, -, rfl⟩ := List.mem_map.mp hp
    rfl
  · rw [serverHelloBody_length ha.random ha.sessionId]
    decide
  · rw [serverHelloBody_reads ha.random ha.sessionId]
    rfl
  · simp only [protectedMessages, List.mem_cons, List.not_mem_nil, or_false] at hm
    rcases hm with rfl | rfl | rfl | rfl
    · exact hmessage (sentRecord_body_lt hs1)
    · exact hmessage hcert
    · exact hmessage (sentRecord_body_lt hs3)
    · exact hmessage (sentRecord_body_lt hs4)
  · rw [certificateBody_length] at hcert
    omega

end

/-- In every run the flight that is ready to be sent parses as the five records, if the signature has its
place. -/
theorem flight_parses {env : Env} {s : Sys} {c : ConnId} {n ringCnt : Nat} {inputs : List Input}
    (h : run (step env) inputs (initial n ringCnt) = .ok s)
    (hst : (s.conns c).sess.handshakeState = .certificateVerify)
    (hsig : (s.conns c).sess.tls13Ctx.certSignature.length ≤ 128) :
    ∃ t mac, FlightParses env (s.conns c).sess t mac := by
  obtain ⟨client, hello, mac, htold, hmac, -⟩ := (run_flown h c).complete hst
  obtain ⟨t, ha⟩ := htold.answers
  cases ha.body
  exact ⟨t, mac, htold.flight.parses ha hmac hsig⟩

/- The sample connection up to its key meta packet, with a signature of two zeros. -/
theorem flight_parses_sample : ∃ s,
    run (step sampleEnv) sampleServerFlight (initial 2 8) = .ok s
    ∧ (s.conns 0).sess.handshakeState = .certificateVerify
    ∧ (s.conns 0).sess.tls13Ctx.certSignature.length = 6
    ∧ ∃ t mac, FlightParses sampleEnv (s.conns 0).sess t mac := by
  obtain ⟨s, hs, hst, hsig⟩ := endsIn_ok (fun s => (s.conns 0).sess.handshakeState = .certificateVerify
      ∧ (s.conns 0).sess.tls13Ctx.certSignature.length = 6)
    (run (step sampleEnv) sampleServerFlight (initial 2 8)) (by decide +kernel)
  exact ⟨s, hs, hst, hsig, flight_parses hs hst (by rw [hsig]; decide)⟩

end Xtls.Nic
