import Xtls.Lib.Tls
import Xtls.Nic.Keys

/-!
# The ServerHello and the results of X25519

The body that `send_server_hello` and `pack_handshake` make (`ssl.c` 2611-2699, 3127-3163) as a client
reads it, and the two 32-byte numbers that come from the engine: the key share and the shared secret
(`ssl.c` 3740-3800).
-/

namespace Xtls.Nic

open Tls

def serverExtensions (key : Bytes) : List Extension :=
  [⟨0x002b, [0x03, 0x04]⟩, ⟨0x0033, beBytes 2 0x001d ++ vector 2 key⟩]

def serverPubKey (s : St) : Bytes :=
  byteSwapCopy (onStack s (operandToString s.conn.sess.ecdhePubKey x25519KeyLen) x25519KeyLen) x25519KeyLen

/-- What is fed to HKDF as the shared secret. -/
def sharedSecret (s : St) : Bytes :=
  byteSwapCopy (onStack s (operandToString (s.conn.sess.pkaResults.headD {}) x25519KeyLen) x25519KeyLen) x25519KeyLen

/-- The key in the `key_share` extension of a ServerHello. -/
def keyShareOf (body : Bytes) : Option Bytes := do
  let hello ← readServerHello body
  let share ← hello.extensions.find? (·.type = 0x0033)
  let (_, key) ← readKeyShare share.data
  return key

section

variable {s : St} {key : Bytes} {n len : Nat}

theorem serverExtensions_length (h : key.length = 32) :
    ((serverExtensions key).flatMap Extension.encode).length = 46 := by
  simp only [serverExtensions, List.flatMap_cons, List.flatMap_nil, Extension.encode, List.length_append,
    beBytes_length, vector_length, List.length_cons, List.length_nil, h]

theorem readServerHello_parts {version random sessionId suite : Bytes} (compression : Byte) (hv : version.length = 2)
    (hr : random.length = 32) (hid : sessionId.length < 256) (hs : suite.length = 2) (h : key.length = 32) :
    readServerHello (version ++ (random ++ (vector 1 sessionId ++ (suite ++ ([compression]
        ++ (vector 2 ((serverExtensions key).flatMap Extension.encode) ++ []))))))
      = some ⟨version, random, sessionId, suite, [compression], serverExtensions key⟩ := by
  have hid : sessionId.length < 256 ^ 1 := hid
  have hdata : (beBytes 2 0x001d ++ vector 2 key).length < 65536 := by
    rw [List.length_append, beBytes_length, vector_length, h]
    decide
  have hexts : ∀ x ∈ serverExtensions key, x.type < 65536 ∧ x.data.length < 65536 := by
    intro x hx
    simp only [serverExtensions, List.mem_cons, List.not_mem_nil, or_false] at hx
    rcases hx with rfl | rfl
    · exact ⟨by decide, by decide⟩
    · exact ⟨(by decide : 0x0033 < 65536), hdata⟩
  have hlen := serverExtensions_length h
  have hc : [compression].length = 1 := rfl
  have hread := readExtensions_encode (serverExtensions key) [] hexts (by omega)
  unfold readServerHello
  simp only [takeBytes_append _ hv, takeBytes_append _ hr, readVector_vector _ hid, takeBytes_append _ hs,
    takeBytes_append _ hc, hread, Option.bind_eq_bind, Option.bind_some]
  rfl

theorem serverPubKey_length (s : St) : (serverPubKey s).length = 32 := by
  rw [serverPubKey, byteSwapCopy, List.length_reverse, slice_length]
  rfl

theorem serverHelloBody_reads (hr : s.conn.sess.pendingSp.serverRandom.length = 32)
    (hid : s.conn.sess.id_.length = 32) :
    readServerHello (serverHelloBody s) = some
      { version := [s.conn.sess.version.major, s.conn.sess.version.minor]
        random := s.conn.sess.pendingSp.serverRandom
        sessionId := s.conn.sess.id_
        cipherSuite := [s.conn.sess.pendingSp.cipher.c0, s.conn.sess.pendingSp.cipher.c1]
        compression := [0]
        extensions := serverExtensions (serverPubKey s) } := by
  have hkey := serverPubKey_length s
  have hlen := serverExtensions_length hkey
  rw [← readServerHello_parts 0 rfl hr (by rw [hid]; decide) rfl hkey]
  apply congrArg readServerHello
  have hdata : (beBytes 2 0x001d ++ vector 2 (serverPubKey s)).length = 36 := by
    rw [List.length_append, beBytes_length, vector_length, hkey]
  rw [vector, vector, hlen, hid]
  simp only [serverExtensions, List.flatMap_cons, List.flatMap_nil, Extension.encode]
  rw [vector, vector, hdata, vector, hkey]
  simp only [serverHelloBody, List.append_assoc, List.append_nil]
  rfl

theorem keyShareOf_body (hr : s.conn.sess.pendingSp.serverRandom.length = 32) (hid : s.conn.sess.id_.length = 32) :
    keyShareOf (serverHelloBody s) = some (serverPubKey s) := by
  have hkey : (serverPubKey s).length < 256 ^ 2 := by
    rw [serverPubKey_length]
    decide
  have hv := readVector_vector [] hkey
  rw [List.append_nil] at hv
  rw [keyShareOf, serverHelloBody_reads hr hid]
  show (readKeyShare (beBytes 2 0x001d ++ vector 2 (serverPubKey s))).bind _ = _
  rw [readKeyShare, takeBytes_append _ (beBytes_length 2 _)]
  show ((whole (readVector 2 (vector 2 (serverPubKey s)))).bind _).bind _ = _
  rw [hv]
  rfl

theorem handleAfterEcdheSharedSecretCalc_keys (env : Env) (s : St)
    (h : s.conn.sess.pendingSp.cipher = TLS_AES_256_GCM_SHA384) :
    (handleAfterEcdheSharedSecretCalc env s).conn.sess.tls13Ctx
      = { handshakeKeys env.crypto s.conn.sess.handshakeMsgs (sharedSecret s) s.conn.sess.tls13Ctx with
          handshakeKeyCalculated := true } := by
  simp only [handleAfterEcdheSharedSecretCalc, St.mapSess_sess, if_pos h]
  rfl

/-! ### Numbers of 32 bytes -/

def littleOperand (len n : Nat) : Operand := { buf := leBytes len n }

theorem byteSwapCopy_onStack (s : St) (hlen : len ≤ 32) :
    byteSwapCopy (onStack s (operandToString (littleOperand len n) x25519KeyLen) x25519KeyLen) x25519KeyLen
      = ((List.range (32 - len)).map fun i => s.ctx.outside.stack (len + i)).reverse ++ leBytes len n := by
  have hstr : operandToString (littleOperand len n) x25519KeyLen = (leBytes len n).reverse := by
    have htake : (leBytes len n).take x25519KeyLen = leBytes len n :=
      List.take_of_length_le (by rw [leBytes_length]; exact hlen)
    show ((leBytes len n).take x25519KeyLen).reverse = _
    rw [htake]
  have hrev : (leBytes len n).reverse.length = len := by rw [List.length_reverse, leBytes_length]
  have hwhole : (onStack s (leBytes len n).reverse x25519KeyLen).length = x25519KeyLen := by
    rw [onStack, List.length_append, List.length_map, List.length_range, hrev]
    exact Nat.add_sub_cancel' hlen
  rw [hstr, byteSwapCopy, slice_of_le _ _ _ (by omega), List.drop_zero, List.take_of_length_le (by omega), onStack,
    List.reverse_append, List.reverse_reverse, hrev]
  rfl

theorem byteSwapCopy_exact (hlen : len ≤ 32)
    (h : ∀ s : St, byteSwapCopy (onStack s (operandToString (littleOperand len n) x25519KeyLen) x25519KeyLen)
      x25519KeyLen = leBytes 32 n) : len = 32 := by
  by_contra hne
  have hother := h ⟨{ id := 0 }, { outside := { stack := fun _ => UInt8.ofNat n + 1 } }⟩
  rw [byteSwapCopy_onStack _ hlen] at hother
  obtain ⟨k, hk⟩ : ∃ k, 32 - len = k + 1 := ⟨31 - len, by omega⟩
  rw [hk, List.range_succ, List.map_append, List.reverse_append] at hother
  have hhead : UInt8.ofNat n + 1 = UInt8.ofNat n := congrArg (fun b => b.headD 0) hother
  have hall : ∀ i : Fin 256, UInt8.ofFin i + 1 ≠ UInt8.ofFin i := by decide +kernel
  exact hall (UInt8.ofNat n).toFin hhead

/-- The shared secret and the key share are the 32 bytes of the result's value, the lowest first, whatever
is on the stack, exactly when the engine returns all 32 bytes. -/
theorem x25519_results (buf : Bytes) (hlen : buf.length ≤ 32) :
    (∀ s : St, s.conn.sess.pendingSp.serverRandom.length = 32 → s.conn.sess.id_.length = 32 →
      s.conn.sess.pkaResults.headD {} = { buf := buf } →
      sharedSecret s = leBytes 32 (leValue buf)
        ∧ keyShareOf (serverHelloBody (handleAfterEcdheKeyGen s)) = some (leBytes 32 (leValue buf)))
      ↔ buf.length = 32 := by
  have hop : ({ buf := buf } : Operand) = littleOperand buf.length (leValue buf) := by
    rw [littleOperand, leBytes_leValue]
  constructor
  · intro h
    refine byteSwapCopy_exact (n := leValue buf) hlen fun s => ?_
    rw [← hop]
    exact (h ⟨{ id := 0, sess := { pkaResults := [{ buf := buf }] } }, s.ctx⟩ rfl rfl rfl).1
  · intro hfull s hr hid hres
    have hcopy : byteSwapCopy (onStack s (operandToString { buf := buf } x25519KeyLen) x25519KeyLen) x25519KeyLen
        = leBytes 32 (leValue buf) := by
      rw [hop, byteSwapCopy_onStack s hlen, hfull]
      rfl
    refine ⟨by rw [sharedSecret, hres, hcopy], ?_⟩
    rw [keyShareOf_body (s := handleAfterEcdheKeyGen s) hr hid]
    show some (byteSwapCopy (onStack s (operandToString (s.conn.sess.pkaResults.headD {}) x25519KeyLen) x25519KeyLen)
      x25519KeyLen) = _
    rw [hres, hcopy]

theorem x25519_results_full : (List.replicate 32 0xff : Bytes).length ≤ 32
    ∧ ∀ s : St, s.conn.sess.pendingSp.serverRandom.length = 32 → s.conn.sess.id_.length = 32 →
      s.conn.sess.pkaResults.headD {} = { buf := List.replicate 32 0xff } →
      sharedSecret s = leBytes 32 (leValue (List.replicate 32 0xff))
        ∧ keyShareOf (serverHelloBody (handleAfterEcdheKeyGen s))
          = some (leBytes 32 (leValue (List.replicate 32 0xff))) :=
  ⟨by decide, (x25519_results (List.replicate 32 0xff) (by decide)).mpr (by decide)⟩

def sampleShortResult : St :=
  ⟨{ id := 0, sess := { pkaResults := [{ buf := List.replicate 31 1 }] } }, {}⟩

theorem x25519_shortResult :
    sampleShortResult.conn.sess.pkaResults.headD {} = { buf := List.replicate 31 1 }
      ∧ leBytes 32 (leValue (List.replicate 31 1)) = List.replicate 31 1 ++ [0]
      ∧ sharedSecret sampleShortResult = 0 :: List.replicate 31 1
      ∧ keyShareOf (serverHelloBody (handleAfterEcdheKeyGen sampleShortResult)) = some (0 :: List.replicate 31 1) := by
  decide +kernel

end

end Xtls.Nic
