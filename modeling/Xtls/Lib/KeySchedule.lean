import Xtls.Lib.Hkdf

/-!
# The key schedule of TLS 1.3

RFC 8446, sections 7.1 and 4.4.4, over an arbitrary hash and message authentication code: a handshake with a
certificate of the server, without pre-shared keys and without authentication of the client.
-/

namespace Xtls

/-- The hash of a cipher suite and its HMAC. -/
structure Digest extends Mac where
  hash : Bytes → Bytes

def labelText (s : String) : Bytes := s.toList.map fun c => UInt8.ofNat c.toNat

/-- The handshake messages in the order in which they are hashed. -/
structure Transcript where
  clientHello : Bytes
  serverHello : Bytes
  encryptedExtensions : Bytes
  certificate : Bytes
  certificateVerify : Bytes
  serverFinished : Bytes

structure TrafficKeys where
  key : Bytes
  iv : Bytes

namespace Transcript

def messages (t : Transcript) : List Bytes :=
  [t.clientHello, t.serverHello, t.encryptedExtensions, t.certificate, t.certificateVerify, t.serverFinished]

/-- The first `k` messages as one string. -/
def upTo (t : Transcript) (k : Nat) : Bytes := (t.messages.take k).flatten

end Transcript

namespace Digest

variable (d : Digest)

/-- `HKDF-Expand-Label`. -/
def expandLabel (secret : Bytes) (label : String) (context : Bytes) (len : Nat) : Bytes :=
  d.expand secret (put16 (UInt16.ofNat len) ++ vector8 (labelText ("tls13 " ++ label)) ++ vector8 context) len

/-- `Derive-Secret`. -/
def deriveSecret (secret : Bytes) (label : String) (messages : Bytes) : Bytes :=
  d.expandLabel secret label (d.hash messages) d.size

def earlySecret : Bytes := d.tag (zeros d.size) (zeros d.size)

def handshakeSecret (shared : Bytes) : Bytes := d.tag (d.deriveSecret d.earlySecret "derived" []) shared

def masterSecret (shared : Bytes) : Bytes :=
  d.tag (d.deriveSecret (d.handshakeSecret shared) "derived" []) (zeros d.size)

def trafficKeys (secret : Bytes) (keyLen ivLen : Nat) : TrafficKeys where
  key := d.expandLabel secret "key" [] keyLen
  iv := d.expandLabel secret "iv" [] ivLen

/-- `verify_data` of a Finished message. -/
def finished (secret messages : Bytes) : Bytes := d.tag (d.expandLabel secret "finished" [] d.size) (d.hash messages)

/-- What a server signs in its CertificateVerify. -/
def serverSigned (messages : Bytes) : Bytes :=
  List.replicate 64 0x20 ++ labelText "TLS 1.3, server CertificateVerify" ++ [0x00] ++ d.hash messages

/-! ### The secrets of a handshake -/

variable (shared : Bytes) (t : Transcript)

def clientHandshakeSecret : Bytes := d.deriveSecret (d.handshakeSecret shared) "c hs traffic" (t.upTo 2)

def serverHandshakeSecret : Bytes := d.deriveSecret (d.handshakeSecret shared) "s hs traffic" (t.upTo 2)

def clientApplicationSecret : Bytes := d.deriveSecret (d.masterSecret shared) "c ap traffic" (t.upTo 6)

def serverApplicationSecret : Bytes := d.deriveSecret (d.masterSecret shared) "s ap traffic" (t.upTo 6)

def serverVerifyData : Bytes := d.finished (d.serverHandshakeSecret shared t) (t.upTo 5)

def clientVerifyData : Bytes := d.finished (d.clientHandshakeSecret shared t) (t.upTo 6)

variable {d}

theorem expandLabel_length (h : 0 < d.size) (secret : Bytes) (label : String) (context : Bytes) (len : Nat) :
    (d.expandLabel secret label context len).length = len :=
  Mac.expand_length h len

end Digest

end Xtls
