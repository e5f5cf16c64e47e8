import Xtls.Nic.Halts
import Xtls.Nic.Placement

/-!
# The server flight and its buffers

`store_handshake` appends each message to `handshake_msgs`, `send_record` each record to `send_buffer`,
and `send_pending_records` copies the flight to `server_records` (`ssl.c` 659-697, 2912-3045).  Of the
three only the first is checked, and only after the copy.
-/

namespace Xtls.Nic

abbrev InBuffers : Halt → Prop := (· ≠ .overflow)

section

variable {env : Env} {s s' t : St} {r : Record}

/-! ### The sizes of the messages -/

theorem randomWords_length (n : Nat) (seed : UInt64) : (randomWords n seed).length = 4 * n := by
  induction n generalizing seed with
  | zero => rfl
  | succ n ih =>
    unfold randomWords
    rw [List.length_append, List.length_reverse, put32_length, ih]
    omega

theorem initRandom_length (seed : UInt64) (n : Nat) : (initRandom seed n).length = 4 * (n / 4) :=
  randomWords_length _ _

theorem put24_length (n : Nat) : (put24 n).length = 3 := rfl

theorem serverHelloBody_length (hrandom : s.conn.sess.pendingSp.serverRandom.length = 32)
    (hid : s.conn.sess.id_.length = 32) : (serverHelloBody s).length = 118 := by
  simp only [serverHelloBody, byteSwapCopy, x25519KeyLen, List.length_append, List.length_cons, List.length_nil,
    put16_length, List.length_reverse, slice_length, hrandom, hid]

theorem certificateBody_length (env : Env) : (certificateBody env).length = env.certificate.length + 9 := by
  simp only [certificateBody, List.length_append, List.length_cons, List.length_nil, put24_length, put16_length]
  omega

theorem certificateVerifyBody_length (e : Session) :
    (certificateVerifyBody e).length = e.tls13Ctx.certSignature.length + 4 := by
  simp only [certificateVerifyBody, List.length_append, List.length_cons, List.length_nil, put16_length]
  omega

theorem finishedMac_length (c : Crypto) (secret msgs : Bytes) : (finishedMac c secret msgs).length = 48 :=
  (c.hmacSha384 _ _).property

def sealOverhead (e : Session) : Nat := if e.writeSp.bulkCipherAlgorithm = .noCipher then 0 else gcmTagSize

theorem sealOverhead_le (e : Session) : sealOverhead e ≤ 16 := by
  unfold sealOverhead
  split
  · exact Nat.zero_le _
  · exact Nat.le_refl _

theorem sealOverhead_core {e e' : Session} (h : e'.core = e.core) : sealOverhead e' = sealOverhead e := by
  have hw : e'.writeSp = e.writeSp := (congrArg Session.writeSp h :)
  rw [sealOverhead, sealOverhead, hw]

/-! ### One message -/

/-- What is sent adds at most `m` bytes to the transcript and at most `b` bytes to the flight. -/
structure Adds (m b : Nat) (s s' : St) : Prop where
  frame : SendFrame s s'
  msgs : s'.conn.sess.handshakeMsgs.length ≤ s.conn.sess.handshakeMsgs.length + m
  buffer : s'.conn.sess.sendBuffer.length ≤ s.conn.sess.sendBuffer.length + b

theorem Frame.adds (h : Frame s s') : Adds 0 0 s s' :=
  ⟨h.toSendFrame, by rw [h.msgs]; exact Nat.le_refl _, by rw [h.buffer]; exact Nat.le_refl _⟩

theorem Adds.trans {m b m' b' : Nat} (h : Adds m b s t) (h' : Adds m' b' t s') : Adds (m + m') (b + b') s s' := by
  have hm := h.msgs
  have hm' := h'.msgs
  have hb := h.buffer
  have hb' := h'.buffer
  exact ⟨h.frame.trans h'.frame, by omega, by omega⟩

theorem Adds.mono {m b m' b' : Nat} (h : Adds m b s s') (hm : m ≤ m') (hb : b ≤ b') : Adds m' b' s s' :=
  ⟨h.frame, h.msgs.trans (Nat.add_le_add_left hm _), h.buffer.trans (Nat.add_le_add_left hb _)⟩

theorem bounded_yields {n : Nat} {b : Bytes} (h : b.length ≤ n) : Yields InBuffers (· = b) (bounded n b) := by
  unfold bounded
  rw [if_neg (Nat.not_lt.mpr h)]
  exact .ok rfl

theorem newSendRecord_yields (s : St) : Yields InBuffers (fun p => Adds 0 0 s p.2) (newSendRecord s) := by
  refine ⟨?_, fun p hp => (newRecord_frame hp).adds⟩
  unfold newSendRecord newRecord
  split
  · exact .error nofun
  · exact .ok _

theorem newSslCryptoOp_inBuffers (s : St) : Throws InBuffers (newSslCryptoOp s) := by
  unfold newSslCryptoOp
  split
  · exact .error nofun
  · exact .ok _

theorem storeHandshake_yields {m : Byte} {frag : Bytes}
    (h : s.conn.sess.handshakeMsgs.length + frag.length ≤ maxHandshakeLength) :
    Yields InBuffers (Adds frag.length 0 s) (storeHandshake m frag s) := by
  refine ⟨?_, fun s' hs' => ⟨storeHandshake_frame hs', ?_, ?_⟩⟩
  · refine .ite (fun _ => .ok _) fun _ => .bind ?_ fun msgs _ => ?_
    · exact (bounded_yields (by rw [List.length_append]; exact h)).throws
    · exact .ite (fun _ => .error nofun) fun _ => .ok _
  · rcases storeHandshake_cases hs' with ⟨-, rfl⟩ | ⟨-, rfl⟩
    · exact Nat.le_add_right _ _
    · exact Nat.le_of_eq List.length_append
  · rcases storeHandshake_cases hs' with ⟨-, rfl⟩ | ⟨-, rfl⟩ <;> exact Nat.le_refl _

theorem encryptRecord_inBuffers (env : Env) (r : Record) (type : ContentType) (version : ProtocolVersion)
    (frag : Bytes) (s : St) : Throws InBuffers (encryptRecord env r type version frag s) := by
  refine .bind (newSslCryptoOp_inBuffers s) fun _ _ => .ite (fun _ => .ok _) fun _ => ?_
  exact .ite (fun _ => .ok _) fun _ => .ok _

theorem recordHeader_length (type : ContentType) (version : ProtocolVersion) (n : Nat) :
    (recordHeader type version n).length = 5 := rfl

theorem sealRecord_yields (env : Env) (r : Record) (type : ContentType) (frag : Bytes) (s : St) :
    Yields InBuffers (fun p => Adds 0 0 s p.2 ∧ p.1.length = frag.length + 5 + sealOverhead s.conn.sess)
      (sealRecord env r type frag s) := by
  refine ⟨?_, fun ⟨data, s'⟩ h => ?_⟩
  · refine .ite (fun _ => .ok _) fun _ => .ite (fun _ => .error nofun) fun _ => ?_
    refine .bind (encryptRecord_inBuffers _ _ _ _ _ _) fun a _ => ?_
    split
    · exact .ok _
    · exact .error nofun
  · have hframe := sealRecord_frame h
    rcases sealRecord_cases h with ⟨hclear, rfl, rfl⟩ | ⟨hw, -, o, t, ho, rfl, rfl⟩
    · refine ⟨(Frame.refl _).adds, ?_⟩
      rw [List.length_append, recordHeader_length, sealOverhead, if_pos hclear]
      omega
    · obtain ⟨pool, -, rfl⟩ := newSslCryptoOp_cases ho
      refine ⟨⟨hframe, Nat.le_refl _, Nat.le_refl _⟩, ?_⟩
      rw [sealOverhead, if_neg hw, List.length_append, List.length_append, recordHeader_length,
        (env.crypto.gcmEncrypt _ _ _ frag).1.property, (env.crypto.gcmEncrypt _ _ _ frag).2.property]
      show 5 + (frag.length + 16) = frag.length + 5 + 16
      omega

def recordSize (type : ContentType) (n : Nat) (e : Session) : Nat :=
  n + 9 + (if type = .applicationData then 1 else 0) + sealOverhead e

theorem recordSize_le (type : ContentType) (n : Nat) (e : Session) : recordSize type n e ≤ n + 26 := by
  have h := sealOverhead_le e
  unfold recordSize
  split <;> omega

theorem sendRecord_yields {type : ContentType} {msgType : HandshakeType} {body : Bytes}
    (hm : s.conn.sess.handshakeMsgs.length + (body.length + 4) ≤ maxHandshakeLength)
    (hb : s.conn.sess.sendBuffer.length + recordSize type body.length s.conn.sess ≤ maxRecordSize) :
    Yields InBuffers (Adds (body.length + 4) (recordSize type body.length s.conn.sess) s)
      (sendRecord env r type msgType body s) := by
  have hmsg : ([msgType.code] ++ put24 body.length ++ body).length = body.length + 4 := by
    simp only [List.length_append, List.length_cons, List.length_nil, put24_length]
    omega
  refine .bind (storeHandshake_yields (by rw [hmsg]; exact hm)) fun s1 h1 => ?_
  refine .bind (sealRecord_yields env r type _ s1) fun ⟨data, s2⟩ ⟨h2, hdata⟩ => ?_
  have hlen : data.length = recordSize type body.length s.conn.sess := by
    rw [hdata, sealOverhead_core h1.frame.sess, recordSize]
    split
    · rw [List.length_append, hmsg]
      rfl
    · rw [hmsg]
  have h12 : Adds _ 0 s s2 := h1.trans h2
  have hbuffer : s2.conn.sess.sendBuffer.length + data.length
      ≤ s.conn.sess.sendBuffer.length + recordSize type body.length s.conn.sess := by
    have := h12.buffer
    omega
  refine .bind (bounded_yields (by rw [List.length_append]; exact hbuffer.trans hb)) fun buffer hbuf => .ok ?_
  subst hbuf
  refine ⟨h12.frame.trans ?_, ?_, ?_⟩
  · exact (SendFrame.mapSess rfl rfl rfl).trans (deleteRecord_frame _ _).toSendFrame
  · rw [← hmsg]
    exact h12.msgs
  · show (s2.conn.sess.sendBuffer ++ data).length ≤ _
    rw [List.length_append]
    exact hbuffer

theorem sendMessage_yields (env : Env) (type : ContentType) (msgType : HandshakeType) {b : St → Bytes} {n m : Nat}
    (hn : ∀ t, SendFrame s t → (b t).length ≤ n) (hsize : recordSize type n s.conn.sess ≤ m)
    (hm : s.conn.sess.handshakeMsgs.length + (n + 4) ≤ maxHandshakeLength)
    (hb : s.conn.sess.sendBuffer.length + m ≤ maxRecordSize) :
    Yields InBuffers (Adds (n + 4) m s) (do
      let (r, t) ← newSendRecord s
      sendRecord env r type msgType (b t) t) := by
  refine .bind (newSendRecord_yields s) fun ⟨r, t⟩ ht => ?_
  have ht : Adds 0 0 s t := ht
  have hbody := hn t ht.frame
  have hmsgs := ht.msgs
  have hbuffer := ht.buffer
  have hrecord : recordSize type (b t).length t.conn.sess ≤ m := by
    refine Nat.le_trans ?_ hsize
    rw [recordSize, recordSize, sealOverhead_core ht.frame.sess]
    omega
  refine (sendRecord_yields (by omega) (by omega)).imp fun s' hs' => ?_
  exact (ht.trans hs').mono (by omega) (by omega)

/-! ### The stages of the flight -/

/- The DER encoding that `handle_after_ecdsa_signature` makes of the results. -/
def derSignature (results : List Operand) : Bytes :=
  let rs := derInteger (operandBytes (results.getD 0 {})) ++ derInteger (operandBytes (results.getD 1 {}))
  [0x30, UInt8.ofNat rs.length] ++ rs

structure SizedParts (e : Session) : Prop where
  sessionId : e.id_.length = 32
  random : e.pendingSp.serverRandom.length = 32
  signature : e.tls13Ctx.certSignature.length ≤ 72

/-- The transcript and the flight in the states between two PKA results: what is still to come has its
place. -/
structure Sized (env : Env) (e : Session) : Prop extends SizedParts e where
  fresh : e.handshakeState = .helloRequest →
    e.handshakeMsgs = [] ∧ e.sendBuffer = [] ∧ e.writeSp.bulkCipherAlgorithm = .noCipher
  hello : e.handshakeState = .serverHello →
    e.handshakeMsgs.length + env.certificate.length + 151 ≤ maxHandshakeLength ∧ e.sendBuffer.length ≤ 127
  certified : e.handshakeState = .certificate →
    e.handshakeMsgs.length + 132 ≤ maxHandshakeLength ∧ e.sendBuffer.length ≤ env.certificate.length + 190
  complete : e.handshakeState = .certificateVerify → e.sendBuffer.length ≤ env.certificate.length + 366

def Session.flightPart (e : Session) : HandshakeType × Bytes × Bytes × Bytes × BulkCipher × Bytes × Bytes :=
  (e.handshakeState, e.id_, e.pendingSp.serverRandom, e.tls13Ctx.certSignature,
    e.writeSp.bulkCipherAlgorithm, e.handshakeMsgs, e.sendBuffer)

theorem Sized.same {e e' : Session} (h : Sized env e) (heq : e'.flightPart = e.flightPart) : Sized env e' := by
  simp only [Session.flightPart, Prod.mk.injEq] at heq
  obtain ⟨h1, h2, h3, h4, h5, h6, h7⟩ := heq
  obtain ⟨⟨hid, hrandom, hsig⟩, hfresh, hhello, hcert, hcomplete⟩ := h
  refine ⟨⟨by rw [h2]; exact hid, by rw [h3]; exact hrandom, by rw [h4]; exact hsig⟩, ?_, ?_, ?_, ?_⟩
  · rw [h1, h5, h6, h7]
    exact hfresh
  · rw [h1, h6, h7]
    exact hhello
  · rw [h1, h6, h7]
    exact hcert
  · rw [h1, h7]
    exact hcomplete

theorem SizedParts.send (h : SizedParts s.conn.sess) (hf : SendFrame s s') : SizedParts s'.conn.sess := by
  exact ⟨hf.id_length h.sessionId, by rw [hf.pendingSp]; exact h.random, by rw [hf.tls13Ctx]; exact h.signature⟩

theorem Sized.frame (h : Sized env s.conn.sess) (hf : Frame s s') : Sized env s'.conn.sess := by
  have hst := hf.handshakeState
  have hw := hf.writeSp
  refine ⟨h.toSizedParts.send hf.toSendFrame, ?_, ?_, ?_, ?_⟩
  · rw [hst, hf.msgs, hf.buffer, hw]
    exact h.fresh
  · rw [hst, hf.msgs, hf.buffer]
    exact h.hello
  · rw [hst, hf.msgs, hf.buffer]
    exact h.certified
  · rw [hst, hf.buffer]
    exact h.complete

theorem SizedParts.sized {e : Session} (h : SizedParts e)
    (hst : e.handshakeState = .clientCipherSpec ∨ e.handshakeState = .finished) : Sized env e := by
  refine ⟨h, ?_, ?_, ?_, ?_⟩ <;> intro hs <;> rw [hs] at hst <;> exact absurd hst (by decide)

theorem requestPka_yields (env : Env) (fill : Op) (s : St) :
    Yields InBuffers (fun p => p.2.conn.sess.handshakeState = s.conn.sess.handshakeState
      ∧ (Sized env s.conn.sess → Sized env p.2.conn.sess)) (requestPka fill s) := by
  refine ⟨?_, fun ⟨ret, s'⟩ h => ?_⟩
  · refine .bind (newSslCryptoOp_inBuffers s) fun _ _ => ?_
    dsimp only
    split <;> exact .ok _
  · rcases requestPka_cases h with ⟨-, o, hrej⟩ | ⟨-, o, hsub⟩
    · exact ⟨hrej.frame.handshakeState, fun hs => hs.frame hrej.frame⟩
    · exact ⟨(congrArg Session.handshakeState hsub.sess :), fun hs =>
        hs.same (congrArg Session.flightPart hsub.sess :)⟩

theorem setPendingSp_random (r : Record) (ch : ClientHello) (pub : Bytes)
    (h : s.conn.sess.pendingSp.serverRandom.length = 32) :
    (setPendingSp r ch pub s).conn.sess.pendingSp.serverRandom.length = 32 := by
  simp only [setPendingSp, St.mapSess_sess]
  split
  · rw [List.length_append, List.length_reverse, put32_length, initRandom_length]
  · exact h

theorem setPendingSp_parts (r : Record) (ch : ClientHello) (pub : Bytes) (h : SizedParts s.conn.sess) :
    SizedParts (setPendingSp r ch pub s).conn.sess := ⟨h.sessionId, setPendingSp_random r ch pub h.random, h.signature⟩

theorem answerClientHello_yields (ch : ClientHello) (hparts : SizedParts s.conn.sess)
    (hclear : s.conn.sess.writeSp.bulkCipherAlgorithm = .noCipher) (hempty : s.conn.sess.sendBuffer.length = 0)
    (hmsgs : s.conn.sess.handshakeMsgs.length + env.certificate.length + 273 ≤ maxHandshakeLength) :
    Yields InBuffers (fun s' => Sized env s'.conn.sess) (answerClientHello env r ch s) := by
  have hmax : maxRecordSize = 16061 := rfl
  unfold answerClientHello
  split
  · exact .error nofun
  · rename_i off hoff
    have hparts0 := setPendingSp_parts r ch (slice r.pf off x25519KeyLen) hparts
    have hsize : recordSize .handshake 118 (setPendingSp r ch (slice r.pf off x25519KeyLen) s).conn.sess ≤ 127 := by
      have hover : sealOverhead (setPendingSp r ch (slice r.pf off x25519KeyLen) s).conn.sess = 0 :=
        if_pos hclear
      rw [recordSize, hover]
      decide
    have hsend := sendMessage_yields env .handshake .serverHello
      (b := serverHelloBody) (s := setPendingSp r ch (slice r.pf off x25519KeyLen) s) (n := 118) (m := 127)
      (fun t ht => Nat.le_of_eq (serverHelloBody_length (hparts0.send ht).random (hparts0.send ht).sessionId))
      hsize (show s.conn.sess.handshakeMsgs.length + 122 ≤ _ by omega)
      (show s.conn.sess.sendBuffer.length + 127 ≤ _ by omega)
    refine .bind hsend fun s1 h1 => .bind (requestPka_yields env _ _) fun ⟨_, s2⟩ h2 => .ok ?_
    have hm1 : s1.conn.sess.handshakeMsgs.length ≤ s.conn.sess.handshakeMsgs.length + 122 := h1.msgs
    have hb1 : s1.conn.sess.sendBuffer.length ≤ s.conn.sess.sendBuffer.length + 127 := h1.buffer
    have hparts1 := hparts0.send h1.frame
    have hs2 : Sized env s2.conn.sess := h2.2 ⟨⟨hparts1.sessionId, hparts1.random, hparts1.signature⟩,
      nofun, fun _ => ⟨show s1.conn.sess.handshakeMsgs.length + _ + _ ≤ _ by omega,
        show s1.conn.sess.sendBuffer.length ≤ _ by omega⟩, nofun, nofun⟩
    have hst2 : s2.conn.sess.handshakeState = .serverHello := h2.1
    obtain ⟨⟨hid, hrandom, hsig⟩, -, hhello, -, -⟩ := hs2
    refine ⟨⟨hid, hrandom, hsig⟩, ?_, hhello, ?_, ?_⟩ <;> intro hs <;> exact absurd (hst2.symm.trans hs) nofun

theorem handleReadRecord_yields {ch : ClientHello} (hr : r.IsHello ch) (hs : Sized env s.conn.sess)
    (hst : s.conn.sess.handshakeState = .helloRequest)
    (hlen : r.plainText.length.toNat + env.certificate.length + 273 ≤ maxHandshakeLength) :
    Yields InBuffers (fun p => Sized env p.2.conn.sess) (handleReadRecord env r s) := by
  obtain ⟨hm, hb, hclear⟩ := hs.fresh hst
  have hfrag : (slice r.pf 0 r.plainText.length.toNat).length = r.plainText.length.toNat := slice_length ..
  simp only [handleReadRecord, hr.1]
  refine .bind (storeHandshake_yields (by rw [hm, hfrag, List.length_nil]; omega)) fun t ht => ?_
  have hst' : t.conn.sess.handshakeState = .helloRequest :=
    ht.frame.handshakeState.trans hst
  have hw := ht.frame.writeSp
  have hmsgs := ht.msgs
  have hbuffer := ht.buffer
  rw [hm, hfrag, List.length_nil] at hmsgs
  rw [hb, List.length_nil] at hbuffer
  simp only [hr.2, hst']
  rw [if_neg (by decide)]
  refine .bind (answerClientHello_yields ch (hs.toSizedParts.send ht.frame) (hw ▸ hclear) (by omega) (by omega))
    fun u hu => .ok ?_
  exact hu.frame (deleteRecord_frame r u)

theorem handleAfterEcdheSharedSecretCalc_part (env : Env) (s : St) :
    (handleAfterEcdheSharedSecretCalc env s).conn.sess.flightPart = s.conn.sess.flightPart := by
  by_cases hc : s.conn.sess.pendingSp.cipher = TLS_AES_256_GCM_SHA384
  · simp only [handleAfterEcdheSharedSecretCalc, St.mapSess_sess, if_pos hc]
    rfl
  · simp only [handleAfterEcdheSharedSecretCalc, St.mapSess_sess, if_neg hc]
    rfl

theorem handleAppKeysCalculation_part (env : Env) (s : St) :
    (handleVerifyDataCalculation env (handleAppKeysCalculation env s)).conn.sess.flightPart
      = s.conn.sess.flightPart := by
  obtain ⟨k, hk, -, -, hsig, -⟩ := handleAppKeysCalculation_eq env s
  rw [hk]
  show (_, _, _, k.certSignature, _, _, _) = _
  rw [hsig]
  rfl

theorem handleAfterEcdsaSignature_sized (h : Sized env s.conn.sess)
    (hsig : (derSignature s.conn.sess.pkaResults).length ≤ 72) :
    Sized env (handleAfterEcdsaSignature s).conn.sess :=
  ⟨⟨h.sessionId, h.random, hsig⟩, h.fresh, h.hello, h.certified, h.complete⟩

def heldHelloLength (s : St) : Nat :=
  match s.conn.sess.pkaOp.bind fun o => (s.ctx.ops o).data with
  | some r => r.plainText.length.toNat
  | none => 0

/-- What `get_processed_crypto` is about to use: a certificate of at most 658 bytes, a ClientHello that
leaves room in the transcript, and a signature of at most 72 bytes. -/
structure FlightFits (env : Env) (s : St) : Prop where
  certificate : env.certificate.length ≤ 658
  hello : s.conn.sess.completedCrypto = true → s.conn.sess.handshakeState = .helloRequest →
    heldHelloLength s + env.certificate.length ≤ 3823
  signature : s.conn.sess.completedCrypto = true → s.conn.sess.handshakeState = .certificate →
    (derSignature s.conn.sess.pkaResults).length ≤ 72

instance (env : Env) (s : St) : Decidable (FlightFits env s) :=
  decidable_of_iff
    (env.certificate.length ≤ 658
      ∧ (s.conn.sess.completedCrypto = true → s.conn.sess.handshakeState = .helloRequest →
          heldHelloLength s + env.certificate.length ≤ 3823)
      ∧ (s.conn.sess.completedCrypto = true → s.conn.sess.handshakeState = .certificate →
          (derSignature s.conn.sess.pkaResults).length ≤ 72))
    ⟨fun h => ⟨h.1, h.2.1, h.2.2⟩, fun h => ⟨h.certificate, h.hello, h.signature⟩⟩

theorem getProcessedCrypto_yields (hdata : ∀ o r, (s.ctx.ops o).data = some r → ∃ ch, r.IsHello ch)
    (hs : Sized env s.conn.sess) (hf : FlightFits env s) :
    Yields InBuffers (fun s' => Sized env s'.conn.sess) (getProcessedCrypto env s) := by
  have hmax : maxHandshakeLength = 4096 := rfl
  unfold getProcessedCrypto
  split
  · exact .ok hs
  · rename_i hc
    have hc : s.conn.sess.completedCrypto = true := by simpa using hc
    split
    · exact .error nofun
    · rename_i o ho
      split
      · rename_i hst
        split
        · exact .error nofun
        · rename_i r hr
          obtain ⟨ch, hch⟩ := hdata o r hr
          have hlen := hf.hello hc hst
          simp only [heldHelloLength, ho, Option.bind_some, hr] at hlen
          have hs0 : Sized env (handleAfterEcdheKeyGen (clearPending s)).conn.sess := hs.same rfl
          refine .bind (handleReadRecord_yields hch hs0 hst (by omega)) fun ⟨ret, t⟩ ht => ?_
          have ht : Sized env t.conn.sess := ht
          dsimp only
          split
          · exact .ok ht
          · exact .ok (ht.same rfl)
      · exact .ok (hs.same (handleAfterEcdheSharedSecretCalc_part env (clearPending s)))
      · rename_i hst
        have hs0 : Sized env (clearPending s).conn.sess := hs.same rfl
        exact .ok ((handleAfterEcdsaSignature_sized hs0 (hf.signature hc hst)).same rfl)
      · exact .error nofun

theorem SizedParts.setState (h : SizedParts s.conn.sess) (hs : HandshakeType) :
    SizedParts (setHandshakeState hs s).conn.sess := ⟨h.sessionId, h.random, h.signature⟩

theorem sendCertificateFlight_yields (hs : Sized env s.conn.sess) (hst : s.conn.sess.handshakeState = .serverHello)
    (hcert : env.certificate.length ≤ 658) :
    Yields InBuffers (fun s' => Sized env s'.conn.sess) (sendCertificateFlight env s) := by
  have hmax : maxRecordSize = 16061 := rfl
  obtain ⟨hm, hb⟩ := hs.hello hst
  refine .bind (sendMessage_yields env _ _ (b := fun _ => put16 0) (n := 2) (m := 28) (fun _ _ => Nat.le_refl _)
    (recordSize_le _ _ _) (by omega) (by omega)) fun s1 h1 => ?_
  have hm1 : (setHandshakeState .encryptedExtensions s1).conn.sess.handshakeMsgs.length ≤ _ := h1.msgs
  have hb1 : (setHandshakeState .encryptedExtensions s1).conn.sess.sendBuffer.length ≤ _ := h1.buffer
  refine .bind (sendMessage_yields env _ _ (b := fun _ => certificateBody env) (n := env.certificate.length + 9)
    (m := env.certificate.length + 35) (fun _ _ => Nat.le_of_eq (certificateBody_length env))
    (recordSize_le _ _ _) (by omega) (by omega)) fun s2 h2 => ?_
  have hm2 := h2.msgs
  have hb2 := h2.buffer
  have hparts2 := ((hs.toSizedParts.send h1.frame).setState .encryptedExtensions).send h2.frame
  refine .bind (requestPka_yields env _ _) fun ⟨_, s3⟩ h3 => .ok (h3.2 ?_)
  exact ⟨⟨hparts2.sessionId, hparts2.random, hparts2.signature⟩, nofun, nofun,
    fun _ => ⟨show s2.conn.sess.handshakeMsgs.length + _ ≤ _ by omega,
      show s2.conn.sess.sendBuffer.length ≤ _ by omega⟩, nofun⟩

theorem sendFinishedFlight_yields (hs : Sized env s.conn.sess) (hst : s.conn.sess.handshakeState = .certificate)
    (hcert : env.certificate.length ≤ 658) :
    Yields InBuffers (fun s' => Sized env s'.conn.sess) (sendFinishedFlight env s) := by
  have hmax : maxRecordSize = 16061 := rfl
  obtain ⟨hm, hb⟩ := hs.certified hst
  have hbody : ∀ t, SendFrame s t → (certificateVerifyBody t.conn.sess).length ≤ 76 := by
    intro t ht
    have hsig := (hs.toSizedParts.send ht).signature
    rw [certificateVerifyBody_length]
    omega
  refine .bind (sendMessage_yields env _ _ (b := fun t => certificateVerifyBody t.conn.sess) (n := 76) (m := 102)
    hbody (recordSize_le _ _ _) (by omega) (by omega)) fun s1 h1 => ?_
  have hm1 : (setHandshakeState .certificateVerify s1).conn.sess.handshakeMsgs.length ≤ _ := h1.msgs
  have hb1 : (setHandshakeState .certificateVerify s1).conn.sess.sendBuffer.length ≤ _ := h1.buffer
  refine .bind (sendMessage_yields env _ _ (b := fun t => finishedMac env.crypto t.conn.sess.tls13Ctx.serverSecret
    t.conn.sess.handshakeMsgs) (n := 48) (m := 74) (fun _ _ => Nat.le_of_eq (finishedMac_length _ _ _))
    (recordSize_le _ _ _) (by omega) (by omega)) fun s2 h2 => .ok ?_
  have hb2 := h2.buffer
  have hparts2 := ((hs.toSizedParts.send h1.frame).setState .certificateVerify).send h2.frame
  have hst2 : s2.conn.sess.handshakeState = .certificateVerify :=
    h2.frame.handshakeState
  have hs2 : Sized env s2.conn.sess := by
    refine ⟨hparts2, ?_, ?_, ?_, fun _ => by omega⟩ <;> intro h <;> exact absurd (hst2.symm.trans h) nofun
  have hs3 : Sized env (handleVerifyDataCalculation env (handleAppKeysCalculation env s2)).conn.sess :=
    hs2.same (handleAppKeysCalculation_part env s2)
  exact hs3.frame (sendKeyMeta_frame env _ _)

theorem sendRemainServerRecords_yields (hs : Sized env s.conn.sess) (hcert : env.certificate.length ≤ 658) :
    Yields InBuffers (fun s' => Sized env s'.conn.sess) (sendRemainServerRecords env s) := by
  unfold sendRemainServerRecords
  dsimp only
  split
  · rename_i hst
    exact sendCertificateFlight_yields hs hst.1 hcert
  · split
    · rename_i hst
      exact sendFinishedFlight_yields hs hst.1 hcert
    · split
      · rename_i hst
        have hb := hs.complete hst.1
        have hpending : Yields InBuffers (fun t => SizedParts t.conn.sess) (sendPendingRecords s) := by
          refine ⟨.bind (bounded_yields (by omega)).throws fun _ _ => .ok _, fun t ht => ?_⟩
          exact hs.toSizedParts.send (sendPendingRecords_frame ht).toSendFrame
        exact .bind hpending fun t ht => .ok ((ht.setState .finished).sized (.inr rfl))
      · exact .ok hs

/-! ### The other steps -/

abbrev KeepsSizes (env : Env) (s s' : St) : Prop := Sized env s.conn.sess → Sized env s'.conn.sess

theorem Removed.sized (h : Removed s s') : Sized env s'.conn.sess := by
  have hid : (clearedSession s.ctx.outside.rand s.conn.sess).id_.length = 32 := initRandom_length _ 32
  rw [h.sess]
  exact ⟨⟨hid, zeros_length 32, Nat.zero_le 72⟩, fun _ => ⟨rfl, rfl, rfl⟩, nofun, nofun, nofun⟩

theorem readRule_sized (env : Env) : ReadRule (KeepsSizes env) where
  refl _ h := h
  trans h h' := fun hs => h' (h hs)
  frame _ _ hf h := h.frame hf
  hello _ _ _ _ _ _ _ _ _ hsub h := h.same (congrArg Session.flightPart hsub.sess :)
  spec _ _ h := SizedParts.sized ⟨h.sessionId, h.random, h.signature⟩ (.inl rfl)
  finish _ _ h := SizedParts.sized ⟨h.sessionId, h.random, h.signature⟩ (.inr rfl)
  removed _ _ hr _ := hr.sized
  call _ _ _ h := h.same rfl
  complete _ _ h := h.same rfl
  queues _ _ _ h := h.same rfl

theorem processSessionRead_sized (h : processSessionRead env s = .ok t) : KeepsSizes env s t :=
  processSessionReadLoop_rule (readRule_sized env).refl (readRule_sized env).trans
    (fun _ _ _ _ _ hw _ hr => (readRule_sized env).queued hw hr) h

theorem removeHws_yields (hs : Sized env s.conn.sess) :
    Yields InBuffers (fun s' => Sized env s'.conn.sess) (removeHws s) := by
  refine ⟨.ite (fun _ => .ite (fun _ => .error nofun) fun _ => .ok _) fun _ => .ok _, fun s' h => ?_⟩
  rcases removeHws_cases h with ⟨-, rfl⟩ | ⟨-, hr⟩
  · exact hs
  · exact hr.sized

theorem serveConnection_yields (hread : processSessionRead env s = .ok t) (hs : Sized env s.conn.sess)
    (hdata : ∀ o r, (t.ctx.ops o).data = some r → ∃ ch, r.IsHello ch) (hf : FlightFits env t) :
    Yields InBuffers (fun s' => Sized env s'.conn.sess) (serveConnection env s) := by
  have hcrypto := getProcessedCrypto_yields hdata (processSessionRead_sized hread hs) hf
  unfold serveConnection
  rw [hread]
  refine hcrypto.bind fun u hu => ?_
  refine (removeHws_yields ((readRule_sized env).moves.applies u hu)).bind fun v hv => ?_
  exact sendRemainServerRecords_yields ((readRule_sized env).moves.forward v hv) hf.certificate

end

/-! ### The whole worker -/

/- Records are read before a connection is served; what is then at hand has to fit. -/
def FitsAfter (env : Env) : Except Halt St → Prop
  | .ok t => FlightFits env t
  | .error _ => True

instance (env : Env) : (r : Except Halt St) → Decidable (FitsAfter env r)
  | .ok t => inferInstanceAs (Decidable (FlightFits env t))
  | .error _ => inferInstanceAs (Decidable True)

def FlightReady (env : Env) : Input → Sys → Prop
  | .serve c, s => FitsAfter env (processSessionRead env ⟨s.conns c, s.ctx⟩)
  | _, _ => True

instance (env : Env) : (x : Input) → (s : Sys) → Decidable (FlightReady env x s)
  | .serve c, s => inferInstanceAs (Decidable (FitsAfter env (processSessionRead env ⟨s.conns c, s.ctx⟩)))
  | .packet .., _ | .pkaSubmit .., _ | .pkaComplete .., _ | .outside .., _ => inferInstanceAs (Decidable True)

section

variable {env : Env} {s s' : Sys} {t : St} {c : ConnId} {x : Input}

theorem OpFacts.read (hs : OpFacts s) (h : processSessionRead env ⟨s.conns c, s.ctx⟩ = .ok t) : OpCtx t.ctx := by
  have hrule := processSessionReadLoop_rule (closed_opFacts env).refl (closed_opFacts env).trans
    (closed_opFacts env).queued h
  have hself : OpFacts ((⟨s.conns c, s.ctx⟩ : St).among s.conns) := by
    rw [s.among_put (hs.ids c)]
    exact hs
  exact (hrule.carries (fun _ _ => trivial) s.conns hself).2.core

theorem step_sized (x : Input) (s s' : Sys) (hready : FlightReady env x s) (h : step env x s = .ok s')
    (hs : OpFacts s ∧ ∀ i, Sized env (s.conns i).sess) : OpFacts s' ∧ ∀ i, Sized env (s'.conns i).sess := by
  obtain ⟨hfacts, hsizes⟩ := hs
  refine ⟨((kept_opFacts env).keeps x s s' h).keeps (fun _ _ => trivial) hfacts, ?_⟩
  refine step_sessions (readRule_sized env) (fun _ _ _ _ _ _ he => he.same rfl) (fun c t hx ht => ?_) h hsizes
  obtain ⟨u, hu, -⟩ := bind_ok ht
  have hfit : FlightFits env u := by
    rw [hx] at hready
    simp only [FlightReady, FitsAfter, hu] at hready
    exact hready
  exact (serveConnection_yields hu (hsizes c) (hfacts.read hu).hello hfit).returns t ht

theorem initial_sized (n ringCnt : Nat) (i : ConnId) : Sized env ((initial n ringCnt).conns i).sess :=
  ⟨⟨zeros_length 32, zeros_length 32, Nat.zero_le 72⟩, fun _ => ⟨rfl, rfl, rfl⟩, nofun, nofun, nofun⟩

/-- As long as what is at hand fits, serving a connection writes behind none of the three buffers. -/
theorem flight_inBuffers {n ringCnt : Nat} {inputs : List Input}
    (h : run (step env) inputs (initial n ringCnt) = .ok s)
    (hfits : Along (step env) (FlightReady env) inputs (initial n ringCnt))
    (hnext : FlightReady env (.serve c) s) (hread : processSessionRead env ⟨s.conns c, s.ctx⟩ = .ok t) :
    serveConnection env ⟨s.conns c, s.ctx⟩ ≠ .error .overflow := by
  obtain ⟨hfacts, hsizes⟩ := run_along step_sized inputs _ s hfits h
    ⟨initial_opFacts n ringCnt, initial_sized n ringCnt⟩
  have hfit : FlightFits env t := by
    simp only [FlightReady, FitsAfter, hread] at hnext
    exact hnext
  intro hover
  exact (serveConnection_yields hread (hsizes c) (hfacts.read hread).hello hfit).throws _ hover rfl

/- The sample connection up to its server flight: the next call sends the flight. -/
theorem flight_inBuffers_sample : ∃ s t,
    run (step sampleEnv) (sampleMigrated.take 12) (initial 2 8) = .ok s
    ∧ processSessionRead sampleEnv ⟨s.conns 0, s.ctx⟩ = .ok t
    ∧ serveConnection sampleEnv ⟨s.conns 0, s.ctx⟩ ≠ .error .overflow := by
  obtain ⟨s, hs, hnext, hread⟩ := endsIn_ok
    (fun s => FlightReady sampleEnv (.serve 0) s
      ∧ endsIn (fun _ => True) (processSessionRead sampleEnv ⟨s.conns 0, s.ctx⟩) = true)
    (run (step sampleEnv) (sampleMigrated.take 12) (initial 2 8)) (by decide +kernel)
  obtain ⟨t, ht, -⟩ := endsIn_ok _ _ hread
  have hfits : Along (step sampleEnv) (FlightReady sampleEnv) (sampleMigrated.take 12) (initial 2 8) := by
    decide +kernel
  exact ⟨s, t, hs, ht, flight_inBuffers hs hfits hnext ht⟩

/- A certificate of 659 bytes and a signature of 72 bytes: the flight has 1025 bytes. -/
def sampleLongEnv : Env := { sampleEnv with certificate := zeros 659 }

def sampleLongFlight : List Input :=
  sampleServerFlight.take 9 ++
    [.pkaComplete 4 [List.replicate 32 0xff, List.replicate 32 0xff], .serve 0,
      .packet 1 { sampleSyn with tos := 0xfd, seq := 1030, ack := 291, flags := TCP_FLAG_ACK }]

theorem longFlight_outside : ∃ s t,
    run (step sampleLongEnv) sampleLongFlight (initial 2 8) = .ok s
    ∧ processSessionRead sampleLongEnv ⟨s.conns 0, s.ctx⟩ = .ok t
    ∧ sampleLongEnv.certificate.length = 659 ∧ t.conn.sess.tls13Ctx.certSignature.length = 72
    ∧ serveConnection sampleLongEnv ⟨s.conns 0, s.ctx⟩ = .error .overflow := by
  obtain ⟨s, hs, hread, hserve⟩ := endsIn_ok
    (fun s => endsIn (fun t => t.conn.sess.tls13Ctx.certSignature.length = 72)
        (processSessionRead sampleLongEnv ⟨s.conns 0, s.ctx⟩) = true
      ∧ stopsFor .overflow (serveConnection sampleLongEnv ⟨s.conns 0, s.ctx⟩) = true)
    (run (step sampleLongEnv) sampleLongFlight (initial 2 8)) (by decide +kernel)
  obtain ⟨t, ht, hsig⟩ := endsIn_ok _ _ hread
  have hcert : sampleLongEnv.certificate.length = 659 := zeros_length 659
  have hover := stopsFor_error _ _ hserve
  exact ⟨s, t, hs, ht, hcert, hsig, hover⟩

end

end Xtls.Nic
