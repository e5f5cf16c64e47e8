import Xtls.Lib.Octets

/-!
# Protocol constants and records

Enumerations and record layout of `smartnic/offload_ssl/include/ssl.h`.  Pointers into a record's
fragment (`cipher_suites`, `curves_list`, `client_pub_key`, ...) are offsets into that fragment;
a NULL pointer is `none`.
-/

namespace Xtls.Nic

def recordHeaderSize : Nat := 5
def handshakeHeaderSize : Nat := 4
def maxRecordSize : Nat := recordHeaderSize + 2048 + 14000 + 8
def maxHandshakeLength : Nat := 4096
def maxKeySize : Nat := 128
def gcmTagSize : Nat := 16
def x25519KeyLen : Nat := 32
def maxAppDataSize : Nat := 1024
def maxOutstandingPkaReq : Nat := 64

/-- `enum content_type`. -/
inductive ContentType where
  | changeCipherSpec | alert | handshake | applicationData
  deriving DecidableEq, Repr

def ContentType.code : ContentType → Byte
  | .changeCipherSpec => 0x14
  | .alert => 0x15
  | .handshake => 0x16
  | .applicationData => 0x17

def ContentType.ofByte (b : Byte) : Option ContentType :=
  if b = 0x14 then some .changeCipherSpec
  else if b = 0x15 then some .alert
  else if b = 0x16 then some .handshake
  else if b = 0x17 then some .applicationData
  else none

/-- `enum handshake_type`; `CLIENT_FINISHED` and `FINISHED` are one value. -/
inductive HandshakeType where
  | helloRequest | clientHello | serverHello | encryptedExtensions | certificate
  | serverKeyExchange | certificateRequest | serverHelloDone | certificateVerify
  | clientKeyExchange | clientCipherSpec | finished | serverCipherSpec | serverFinished
  deriving DecidableEq, Repr

/- The order of `handshake_state` in the source is the order of these codes. -/
def HandshakeType.code : HandshakeType → Byte
  | .helloRequest => 0
  | .clientHello => 1
  | .serverHello => 2
  | .encryptedExtensions => 8
  | .certificate => 11
  | .serverKeyExchange => 12
  | .certificateRequest => 13
  | .serverHelloDone => 14
  | .certificateVerify => 15
  | .clientKeyExchange => 16
  | .clientCipherSpec => 17
  | .finished => 20
  | .serverCipherSpec => 21
  | .serverFinished => 22

instance : LE HandshakeType := ⟨fun a b => a.code ≤ b.code⟩
instance : LT HandshakeType := ⟨fun a b => a.code < b.code⟩
instance (a b : HandshakeType) : Decidable (a ≤ b) := inferInstanceAs (Decidable (a.code ≤ b.code))
instance (a b : HandshakeType) : Decidable (a < b) := inferInstanceAs (Decidable (a.code < b.code))

/-- `enum ssl_session_state`. -/
inductive SessionState where
  | init | handshake | active
  deriving DecidableEq, Repr

/-- `enum tcp_connection_state`. -/
inductive TcpState where
  | idle | received | sent
  deriving DecidableEq, Repr

structure ProtocolVersion where
  major : Byte := 0
  minor : Byte := 0
  deriving DecidableEq, Repr

/- `cipher_suite_t`, `supported_group_t` and `signature_algorithm_t` are all two raw bytes. -/
structure Code2 where
  c0 : Byte := 0
  c1 : Byte := 0
  deriving DecidableEq, Repr

def TLS_AES_256_GCM_SHA384 : Code2 := ⟨0x13, 0x02⟩
def TLS_RSA_WITH_AES_256_GCM_SHA384 : Code2 := ⟨0x00, 0x9d⟩
def TLS_RSA_WITH_AES_256_CBC_SHA : Code2 := ⟨0x00, 0x35⟩
def TLS_NULL_WITH_NULL_NULL : Code2 := ⟨0x00, 0x00⟩
def X25519 : Code2 := ⟨0x00, 0x1d⟩
def SUPPORTED_GROUP_UNKNOWN : Code2 := ⟨0x00, 0x00⟩
def ECDSA_SECP256r1_SHA256 : Code2 := ⟨0x04, 0x03⟩
def SIGNATURE_UNKNOWN : Code2 := ⟨0x00, 0x00⟩

/-- `bulk_cipher_algorithm_t`, `cipher_type_t`, `prf_algorithm_t`: only the values the NIC ever
assigns, and the zero that `memset` leaves behind. -/
inductive BulkCipher where
  | noCipher | aes
  deriving DecidableEq, Repr

inductive CipherType where
  | unset | aead
  deriving DecidableEq, Repr

inductive PrfAlgorithm where
  | noPrf | sha384
  deriving DecidableEq, Repr

structure SecurityParams where
  cipher : Code2 := {}
  prfAlgorithm : PrfAlgorithm := .noPrf
  bulkCipherAlgorithm : BulkCipher := .noCipher
  cipherType : CipherType := .unset
  encKeySize : Nat := 0
  fixedIvLength : Nat := 0
  recordIvLength : Nat := 0
  macKeySize : Nat := 0
  clientRandom : Bytes := zeros 32
  serverRandom : Bytes := zeros 32
  curve : Code2 := {}
  signatureAlgorithm : Code2 := {}
  clientPubKey : Bytes := zeros 32
  deriving DecidableEq, Repr

/-- `client_hello_t`, with the extensions the NIC reads. -/
structure ClientHello where
  version : ProtocolVersion := {}
  random : Bytes := zeros 32
  sessionIdLength : Byte := 0
  sessionId : Bytes := zeros 32
  cipherSuiteLength : UInt16 := 0
  cipherSuites : Option Nat := none
  compressionMethodLength : Byte := 0
  extensionsLength : UInt16 := 0
  curvesListLength : UInt16 := 0
  curvesList : Option Nat := none
  signatureAlgorithmListLength : UInt16 := 0
  signatureAlgorithmList : Option Nat := none
  versionsLength : Byte := 0
  versions : Option Nat := none
  keyShareLength : UInt16 := 0
  curveType : UInt16 := 0
  pubKeyLength : UInt16 := 0
  clientPubKey : Option Nat := none
  deriving DecidableEq, Repr

/-- The `fragment` union: which member was written last. -/
inductive Fragment where
  | unset
  | handshake (msgType : Byte)
  | clientHello (hello : ClientHello)
  | alert (level description : Byte)
  | finished (verifyData : Bytes)
  deriving DecidableEq, Repr

def Fragment.msgType : Fragment → Byte
  | .handshake t => t
  | .clientHello _ => HandshakeType.clientHello.code
  | _ => 0

structure PlainText where
  recordType : Option ContentType := none
  version : ProtocolVersion := {}
  length : UInt16 := 0
  deriving DecidableEq, Repr

/-- `record_t`.  `slot` is the place of the record in memory, `id` the running number of the
session; `data` holds the bytes received so far (`current_len` of them) and `macIn` what
`decrypted` points to as long as it has not been redirected to `data` (`inPlace`). -/
structure Record where
  slot : Nat
  id : Nat := 0
  length : Nat := 0
  data : Bytes := []
  macIn : Bytes := []
  inPlace : Bool := false
  seqNum : UInt64 := 0
  isEncrypted : Bool := false
  plainText : PlainText := {}
  cipherTextLength : UInt16 := 0
  fragment : Fragment := .unset
  deriving DecidableEq, Repr

def Record.decrypted (r : Record) : Bytes := if r.inPlace then r.data else r.macIn

def Record.pf (r : Record) : Bytes := r.decrypted.drop recordHeaderSize

end Xtls.Nic
