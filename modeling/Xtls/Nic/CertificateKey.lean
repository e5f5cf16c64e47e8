import Xtls.Lib.Ecdsa
import Xtls.Nic.Frame

/-!
# Secrecy of the certificate key

`signature_certificate` (`ssl.c` 1109-1265) hands the PKA engine the private key, the hash to be
signed and the nonce; `execute_ecdsa_signature` (`ssl_crypto.c` 372-392) passes them on in this
order.  The engine is assumed to compute ECDSA over a group of order `n`.
-/

namespace Xtls.Nic

/- The number in an operand, most significant byte first in a big-endian one. -/
def operandValue (op : Operand) : ℕ :=
  (operandToString op op.buf.length).foldl (fun v b => 256 * v + b.toNat) 0

section

variable {n : ℕ} (rOf : ZMod n → ZMod n)

/-- `execute_ecdsa_signature`, with the signature the engine returns. -/
def executeEcdsaSignature (op : Op) : Option (ZMod n × ZMod n) :=
  match op.pkaIn, op.pkaIn1, op.pkaIn2 with
  | some d, some h, some k => some (ecdsaSign rOf (operandValue d) (operandValue h) (operandValue k))
  | _, _, _ => none

/-- `f` computes the private key from the transcript and the signature that the request of
`signature_certificate` leads to, whatever the key and the session. -/
def Recovers (c : Crypto) (f : Bytes → ZMod n → ZMod n → ZMod n) : Prop :=
  ∀ (env : Env) (s s' : St) (o : OpId) (k : Operand) (r σ : ZMod n), env.crypto = c →
    signatureCertificate env s = .ok (0, s') → s'.conn.sess.pendingPkaOp = some o →
    (s'.ctx.ops o).pkaIn2 = some k → IsUnit (operandValue k : ZMod n) → IsUnit r →
    executeEcdsaSignature rOf (s'.ctx.ops o) = some (r, σ) →
    f s.conn.sess.handshakeMsgs r σ = operandValue env.privKey

/-- No function of what a client sees yields the private key. -/
def KeyHidden (c : Crypto) : Prop := ¬ ∃ f, Recovers rOf c f

/- What a client computes: the hash of the transcript is also the nonce. -/
def recoverKey (c : Crypto) (n : ℕ) (transcript : Bytes) (r σ : ZMod n) : ZMod n :=
  let h : ZMod n := operandValue (stringToOperand (transcriptHash c transcript) false)
  ecdsaKey h h r σ

theorem signatureCertificate_op {env : Env} {s s' : St} {o : OpId}
    (h : signatureCertificate env s = .ok (0, s')) (ho : s'.conn.sess.pendingPkaOp = some o) :
    let hash := stringToOperand (transcriptHash env.crypto s.conn.sess.handshakeMsgs) false
    (s'.ctx.ops o).pkaIn = some env.privKey ∧ (s'.ctx.ops o).pkaIn1 = some hash
      ∧ (s'.ctx.ops o).pkaIn2 = some hash := by
  rcases requestPka_cases h with ⟨hret, -⟩ | ⟨-, i, hsub⟩
  · cases hret
  · rw [hsub.sess] at ho
    cases ho
    rw [hsub.op]
    exact ⟨rfl, rfl, rfl⟩

theorem recoverKey_recovers (c : Crypto) : Recovers rOf c (recoverKey c n) := by
  rintro env s s' o k r σ rfl hsign ho hk hunit hr hsig
  obtain ⟨h0, h1, h2⟩ := signatureCertificate_op hsign ho
  rw [h2] at hk
  cases hk
  simp only [executeEcdsaSignature, h0, h1, h2] at hsig
  cases hsig
  exact ecdsaKey_sign rOf _ _ _ hunit hr

/-- For every choice of primitives, group order and `r`, the certificate key is a function of the
transcript and one signature. -/
theorem certificateKey_not_hidden (c : Crypto) : ¬ KeyHidden rOf c :=
  fun h => h ⟨recoverKey c n, recoverKey_recovers rOf c⟩

end

/- A hash of value 3 and a private key of value 5. -/
def keyEnv : Env where
  crypto :=
    { sha1 := fun _ => .zero 20
      sha256 := fun _ => ⟨zeros 31 ++ [3], rfl⟩
      sha384 := fun _ => .zero 48
      hmacSha384 := fun _ _ => .zero 48
      gcmEncrypt := fun _ _ _ pt => (.of pt, .zero 16)
      gcmDecrypt := fun _ _ _ ct _ => some (.of ct) }
  certificate := []
  privKey := { buf := [5] }
  hostThreadsNum := 1

def keySt : St := ⟨{ id := 0 }, { opPool := [0], ringCnt := 8 }⟩

/-- Over a group of order 11 with `r = k + 1`, the signature is (4, 4), and the key 5 is computed
from it. -/
theorem keyEnv_key_recovered :
    (∃ s', signatureCertificate keyEnv keySt = .ok (0, s')
      ∧ s'.conn.sess.pendingPkaOp = some 0
      ∧ executeEcdsaSignature (fun k : ZMod 11 => k + 1) (s'.ctx.ops 0) = some (4, 4)
      ∧ recoverKey keyEnv.crypto 11 keySt.conn.sess.handshakeMsgs 4 4 = operandValue keyEnv.privKey)
    ∧ ¬ KeyHidden (fun k : ZMod 11 => k + 1) keyEnv.crypto := by
  refine ⟨⟨_, rfl, rfl, by decide +kernel, by decide +kernel⟩, fun h => h ⟨recoverKey keyEnv.crypto 11, ?_⟩⟩
  exact recoverKey_recovers _ keyEnv.crypto

end Xtls.Nic
