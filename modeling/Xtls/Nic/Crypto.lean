import Xtls.Nic.State

/-!
# Cryptographic primitives and the HKDF

OpenSSL's hashes, HMAC and AES-256-GCM are parameters: arbitrary functions with the output lengths
of their documentation.  On top of them, `hkdf_extract`, `hkdf_expand_internal` and
`hkdf_expand_label` of `ssl_crypto.c` (453-534), and the operand conversions of
`third_party/pka/pka_helper.c`.
-/

namespace Xtls.Nic

/-- Byte strings of a fixed length. -/
def Octets (n : Nat) : Type := { b : Bytes // b.length = n }

def Octets.of (b : Bytes) : Octets b.length := ⟨b, rfl⟩

def Octets.zero (n : Nat) : Octets n := ⟨zeros n, zeros_length n⟩

structure Crypto where
  sha1 : Bytes → Octets 20
  sha256 : Bytes → Octets 32
  sha384 : Bytes → Octets 48
  /-- key, message -/
  hmacSha384 : Bytes → Bytes → Octets 48
  /-- key, iv, additional data, plaintext -/
  gcmEncrypt : Bytes → Bytes → Bytes → (pt : Bytes) → Octets pt.length × Octets 16
  /-- key, iv, additional data, ciphertext, tag; `none` when the tag does not verify -/
  gcmDecrypt : Bytes → Bytes → Bytes → (ct : Bytes) → Bytes → Option (Octets ct.length)

/-- The primitives and the configuration: server certificate, its private key (the PKA operand
`ecdsa.priv_key`) and the number of host threads. -/
structure Env where
  crypto : Crypto
  certificate : Bytes
  privKey : Operand
  hostThreadsNum : UInt16

def ascii (s : String) : Bytes := s.toList.map fun c => UInt8.ofNat c.toNat

def hkdfExtract (c : Crypto) (salt key : Bytes) : Bytes := (c.hmacSha384 salt key).val

/- The loop counter is a `uint8_t`; the loop is cut off after `fuel` rounds. -/
def hkdfExpandLoop (c : Crypto) (prk info : Bytes) (n outLen : Nat) :
    Nat → UInt8 → Bytes → Bytes → Option Bytes
  | 0, _, _, _ => none
  | fuel + 1, i, t, out =>
    if i.toNat ≤ n then
      let t' := (c.hmacSha384 prk (t ++ info ++ [i])).val
      let copy := if out.length + t'.length > outLen then outLen - out.length else t'.length
      hkdfExpandLoop c prk info n outLen fuel (i + 1) t' (out ++ t'.take copy)
    else some out

/- `none` for the error return 0 and for a loop that does not end. -/
def hkdfExpandInternal (c : Crypto) (outLen : Nat) (prk info : Bytes) : Option Bytes :=
  let n := (outLen + 48 - 1) / 48
  if n > 255 then none else hkdfExpandLoop c prk info n outLen 256 1 [] []

def hkdfLabel (outLen : Nat) (label ctx : Bytes) : Bytes :=
  [UInt8.ofNat (outLen / 256), UInt8.ofNat outLen, UInt8.ofNat (6 + label.length)]
    ++ ascii "tls13 " ++ label ++ [UInt8.ofNat ctx.length] ++ ctx

/- Every caller asks for at most 48 bytes, where the expansion does not fail
(`hkdfExpandLabel_sha384`). -/
def hkdfExpandLabel (c : Crypto) (outLen : Nat) (key label ctx : Bytes) : Bytes :=
  (hkdfExpandInternal c outLen key (hkdfLabel outLen label ctx)).getD []

/-- `string_to_operand`: a little-endian operand holds the bytes in reverse. -/
def stringToOperand (str : Bytes) (endian : Bool) : Operand :=
  { buf := if endian then str else str.reverse, bigEndian := endian }

/-- `operand_to_string`: at most `maxLen` bytes, most significant first. -/
def operandToString (op : Operand) (maxLen : Nat) : Bytes :=
  if op.bigEndian then op.buf.take maxLen else (op.buf.take maxLen).reverse

def byteSwapCopy (src : Bytes) (len : Nat) : Bytes := (slice src 0 len).reverse

end Xtls.Nic
