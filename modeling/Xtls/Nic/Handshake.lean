import Xtls.Nic.KeySchedule

/-!
# The handshake of a session

Flight, transcript and keys of a session between its ClientHello and `send_pending_records`, in every run
(`ssl.c` 1110-1265, 2611-2944, 3769-4367).
-/

namespace Xtls.Nic

open Tls

/- What `unpack_handshake` takes for a ClientHello: the message without the record header. -/
def IsClientHello (client : Bytes) : Prop :=
  ∃ pf len ch, unpackClientHello pf len = .ok (some ch) ∧ client = slice pf 0 len

/- The one suite for which keys are derived. -/
def Suited (e : Session) : Prop := e.pendingSp.cipher = TLS_AES_256_GCM_SHA384

/-- The first `k` messages are in `handshake_msgs`, and those of the server in the flight; the first one is one
of `P`. -/
structure Told (env : Env) (P : Bytes → Prop) (e : Session) (client hello mac : Bytes) (k : Nat) : Prop where
  greeting : P client
  answers : ∃ t, Answers e.version client hello t
  flight : Buffered env e (k - 1) hello mac
  seq : e.writeSp.bulkCipherAlgorithm ≠ .noCipher → e.sendSeqNum = UInt64.ofNat (k - 2)
  msgs : e.handshakeMsgs = (transcriptOf env e client hello mac).upTo k

/- What `signature_certificate` has signed. -/
def SignsCertificate (env : Env) (e : Session) (t : Transcript) : Prop :=
  e.ecdsaTranscriptHash
    = stringToOperand (env.crypto.sha256 ((sha384Digest env.crypto).serverSigned (t.upTo 4))).val false

def Keyed (env : Env) (Q : Bytes → Prop) (e : Session) (t : Transcript) : Prop :=
  Suited e → ∃ shared, Q shared ∧ HandshakeKeys (sha384Digest env.crypto) shared t e.tls13Ctx

/-- All keys and both verify data. -/
structure Concludes (d : Digest) (shared mac : Bytes) (t : Transcript) (k : Tls13Ctx) : Prop where
  handshake : HandshakeKeys d shared t k
  application : ApplicationKeys d shared t k
  server : mac = d.serverVerifyData shared t
  client : k.calculatedVd = d.clientVerifyData shared t

/-- A session in the states between two PKA results; the ClientHello is one of `P` and the shared secret one
of `Q`. -/
structure Flown (env : Env) (P Q : Bytes → Prop) (e : Session) : Prop where
  sessionId : e.id_.length = 32
  random : e.pendingSp.serverRandom.length = 32
  fresh : e.handshakeState = .helloRequest → e.handshakeMsgs = [] ∧ e.sendBuffer = []
    ∧ e.writeSp.bulkCipherAlgorithm = .noCipher ∧ e.tls13Ctx.handshakeKeyCalculated = false
  hello : e.handshakeState = .serverHello → ∃ client hello, Told env P e client hello [] 2
    ∧ (e.tls13Ctx.handshakeKeyCalculated = true → Keyed env Q e (transcriptOf env e client hello []))
  certified : e.handshakeState = .certificate → ∃ client hello, Told env P e client hello [] 4
    ∧ SignsCertificate env e (transcriptOf env e client hello [])
    ∧ Keyed env Q e (transcriptOf env e client hello [])
  complete : e.handshakeState = .certificateVerify → ∃ client hello mac, Told env P e client hello mac 6
    ∧ mac.length = 48 ∧ SignsCertificate env e (transcriptOf env e client hello mac)
    ∧ (Suited e → ∃ shared, Q shared
      ∧ Concludes (sha384Digest env.crypto) shared mac (transcriptOf env e client hello mac) e.tls13Ctx)

section

variable {env : Env} {P Q : Bytes → Prop} {s s' t : St} {e e' : Session} {r : Record}
  {client hello mac shared : Bytes} {k : Nat}

/-! ### What leaves the handshake alone -/

/- What flight and transcript consist of. -/
structure SameFlight (e e' : Session) : Prop extends SameKeys e e' where
  signature : e'.tls13Ctx.certSignature = e.tls13Ctx.certSignature
  msgs : e'.handshakeMsgs = e.handshakeMsgs
  buffer : e'.sendBuffer = e.sendBuffer
  seq : e'.sendSeqNum = e.sendSeqNum

structure SameHandshake (e e' : Session) : Prop extends SameFlight e e' where
  state : e'.handshakeState = e.handshakeState
  ctx : e'.tls13Ctx = e.tls13Ctx
  pending : e'.pendingSp = e.pendingSp
  hash : e'.ecdsaTranscriptHash = e.ecdsaTranscriptHash
  sessionId : e.id_.length = 32 → e'.id_.length = 32

theorem SameFlight.transcript (h : SameFlight e e') (client hello mac : Bytes) :
    transcriptOf env e' client hello mac = transcriptOf env e client hello mac :=
  h.toSameKeys.transcript h.signature client hello mac

theorem Told.same (h : Told env P e client hello mac k) (hs : SameFlight e e') : Told env P e' client hello mac k where
  greeting := h.greeting
  answers := by
    rw [hs.version]
    exact h.answers
  flight := h.flight.same hs.buffer (by rw [hs.toSameKeys.flight hs.signature])
  seq := by
    rw [hs.writeSp, hs.seq]
    exact h.seq
  msgs := by rw [hs.msgs, hs.transcript, h.msgs]

theorem Flown.same (h : Flown env P Q e) (hs : SameHandshake e e') : Flown env P Q e' := by
  refine ⟨hs.sessionId h.sessionId, by rw [hs.pending]; exact h.random, ?_, ?_, ?_, ?_⟩ <;> rw [hs.state]
  · rw [hs.msgs, hs.buffer, hs.writeSp, hs.ctx]
    exact h.fresh
  · intro hst
    obtain ⟨client, hello, htold, hkeys⟩ := h.hello hst
    refine ⟨client, hello, htold.same hs.toSameFlight, ?_⟩
    rw [hs.transcript, Keyed, Suited, hs.pending, hs.ctx]
    exact hkeys
  · intro hst
    obtain ⟨client, hello, htold, hsigns, hkeys⟩ := h.certified hst
    refine ⟨client, hello, htold.same hs.toSameFlight, ?_⟩
    rw [hs.transcript, SignsCertificate, hs.hash, Keyed, Suited, hs.pending, hs.ctx]
    exact ⟨hsigns, hkeys⟩
  · intro hst
    obtain ⟨client, hello, mac, htold, hmac, hsigns, hkeys⟩ := h.complete hst
    refine ⟨client, hello, mac, htold.same hs.toSameFlight, hmac, ?_⟩
    rw [hs.transcript, SignsCertificate, hs.hash, Suited, hs.pending, hs.ctx]
    exact ⟨hsigns, hkeys⟩

theorem Frame.handshake (hf : Frame s s') : SameHandshake s.conn.sess s'.conn.sess where
  toSameKeys := hf.sameKeys
  signature := by rw [hf.tls13Ctx]
  msgs := hf.msgs
  buffer := hf.buffer
  seq := congrArg (fun p => p.2.1) hf.written
  state := hf.handshakeState
  ctx := hf.tls13Ctx
  pending := hf.pendingSp
  hash := (congrArg Session.ecdsaTranscriptHash hf.sess :)
  sessionId := hf.id_length

theorem SameHandshake.update (pending : Option OpId) (priv pub : Operand) (o : Option OpId) (results : List Operand)
    (completed waiting : Bool) : SameHandshake e { e with
      pendingPkaOp := pending, ecdhePrivKey := priv, ecdhePubKey := pub, pkaOp := o, pkaResults := results
      completedCrypto := completed, waitingCrypto := waiting } :=
  ⟨⟨⟨rfl, rfl, rfl, rfl⟩, rfl, rfl, rfl, rfl⟩, rfl, rfl, rfl, rfl, id⟩

theorem requestPka_handshake {fill : Op} {ret : Int} (h : requestPka fill s = .ok (ret, s')) :
    SameHandshake s.conn.sess s'.conn.sess := by
  rcases requestPka_cases h with ⟨-, o, hrej⟩ | ⟨-, o, hsub⟩
  · exact hrej.frame.handshake
  · rw [hsub.sess]
    exact .update ..

/- In the other states nothing is said about flight and keys. -/
theorem Flown.after (hid : e.id_.length = 32) (hr : e.pendingSp.serverRandom.length = 32)
    (hst : e.handshakeState = .clientCipherSpec ∨ e.handshakeState = .finished) : Flown env P Q e := by
  refine ⟨hid, hr, ?_, ?_, ?_, ?_⟩ <;> intro hs <;> rw [hs] at hst <;> exact absurd hst (by decide)

/- The two sources matter only in the middle of a handshake. -/
theorem Flown.mono {P' Q' : Bytes → Prop} (h : Flown env P Q e)
    (hP : ¬ e.Ended → ∀ client, P client → P' client) (hQ : ¬ e.Ended → ∀ shared, Q shared → Q' shared) :
    Flown env P' Q' e := by
  have hlive : ∀ {x : HandshakeType}, e.handshakeState = x →
      ¬ (x = .helloRequest ∨ x = .clientCipherSpec ∨ x = .finished) → ¬ e.Ended :=
    fun hst hx hend => hx (hst ▸ hend.2)
  have hkeyed : ∀ {t}, ¬ e.Ended → Keyed env Q e t → Keyed env Q' e t := fun hlive hkeys hsuite => by
    obtain ⟨shared, hq, hrest⟩ := hkeys hsuite
    exact ⟨shared, hQ hlive shared hq, hrest⟩
  refine ⟨h.sessionId, h.random, h.fresh, fun hst => ?_, fun hst => ?_, fun hst => ?_⟩
  · have hlive := hlive hst (by decide)
    obtain ⟨client, hello, htold, hkeys⟩ := h.hello hst
    exact ⟨client, hello, { htold with greeting := hP hlive _ htold.greeting }, fun hcalc => hkeyed hlive (hkeys hcalc)⟩
  · have hlive := hlive hst (by decide)
    obtain ⟨client, hello, htold, hsigns, hkeys⟩ := h.certified hst
    exact ⟨client, hello, { htold with greeting := hP hlive _ htold.greeting }, hsigns, hkeyed hlive hkeys⟩
  · have hlive := hlive hst (by decide)
    obtain ⟨client, hello, mac, htold, hmac, hsigns, hkeys⟩ := h.complete hst
    refine ⟨client, hello, mac, { htold with greeting := hP hlive _ htold.greeting }, hmac, hsigns, fun hsuite => ?_⟩
    obtain ⟨shared, hq, hrest⟩ := hkeys hsuite
    exact ⟨shared, hQ hlive shared hq, hrest⟩

/-! ### The answer to a ClientHello -/

theorem answerClientHello_flown {ch : ClientHello} (hclient : P client) (hid : s.conn.sess.id_.length = 32)
    (hr : s.conn.sess.pendingSp.serverRandom.length = 32)
    (hclear : s.conn.sess.writeSp.bulkCipherAlgorithm = .noCipher) (hempty : s.conn.sess.sendBuffer = [])
    (hmsgs : s.conn.sess.handshakeMsgs = client) (hnone : s.conn.sess.tls13Ctx.handshakeKeyCalculated = false)
    (hnamed : ∀ id, readClientSessionId client = some id → s.conn.sess.id_ = id ++ zeros (32 - id.length))
    (h : answerClientHello env r ch s = .ok s') : Flown env P Q s'.conn.sess := by
  unfold answerClientHello at h
  split at h
  · cases h
  · rename_i off hoff
    obtain ⟨s1, h1, h⟩ := bind_ok h
    obtain ⟨⟨ret, s2⟩, h2, h⟩ := bind_ok h
    cases h
    have hr0 := setPendingSp_random r ch (slice r.pf off x25519KeyLen) hr
    obtain ⟨t, hf, -, hsends⟩ := sendMessage_sends (b := serverHelloBody) h1
    have hsame := requestPka_handshake h2
    -- the session id is the one that the ClientHello has set
    have hname : t.conn.sess.id_ = s.conn.sess.id_ := hf.sessionId.resolve_right fun hu => absurd hu.1.1 nofun
    have hver : s2.conn.sess.version = ch.version := hsame.version.trans hsends.frame.sameKeys.version
    have hanswers : Answers s2.conn.sess.version client (serverHelloBody t) t := by
      refine ⟨rfl, hf.sameKeys.version.trans hver.symm, ?_, ?_, ?_, fun id hc => ?_⟩
      · rw [hf.sameKeys.writeSp]
        exact hclear
      · rw [hf.pendingSp]
        exact hr0
      · rw [hname]
        exact hid
      · exact hname.trans (hnamed id hc)
    have hst2 : s2.conn.sess.handshakeState = .serverHello := hsame.state
    have hkept : s2.conn.sess.tls13Ctx.handshakeKeyCalculated = false := by
      rw [hsame.ctx]
      show s1.conn.sess.tls13Ctx.handshakeKeyCalculated = false
      rw [hsends.frame.tls13Ctx]
      exact hnone
    have hclear0 : (setPendingSp r ch (slice r.pf off x25519KeyLen) s).conn.sess.writeSp.bulkCipherAlgorithm
      = .noCipher := hclear
    have hbuffer := hsends.buffer
    have hshort := hsends.short
    rw [sentRecord_clear _ _ _ hclear0] at hbuffer hshort
    refine ⟨hsame.sessionId (hsends.frame.id_length hid), ?_, fun hst => absurd (hst2.symm.trans hst) nofun,
      fun _ => ⟨client, serverHelloBody t, ⟨hclient, ⟨t, hanswers⟩, ⟨?_, fun r' hr' => ?_⟩, fun _ => rfl, ?_⟩,
        fun hcalc => absurd (hkept.symm.trans hcalc) nofun⟩,
      fun hst => absurd (hst2.symm.trans hst) nofun, fun hst => absurd (hst2.symm.trans hst) nofun⟩
    · show s2.conn.sess.pendingSp.serverRandom.length = 32
      rw [hsame.pending]
      show s1.conn.sess.pendingSp.serverRandom.length = 32
      rw [hsends.frame.pendingSp]
      exact hr0
    · show s2.conn.sess.sendBuffer
        = List.flatMap Record.encode [⟨_, (s2.conn.sess.version.major, s2.conn.sess.version.minor), _⟩]
      rw [hsame.buffer, hver, List.flatMap_singleton]
      show s1.conn.sess.sendBuffer = _
      rw [hbuffer]
      show s.conn.sess.sendBuffer ++ _ = _
      rw [hempty]
      rfl
    · rw [List.mem_singleton.mp hr']
      exact hshort
    · show s2.conn.sess.handshakeMsgs = client ++ (message HandshakeType.serverHello.code (serverHelloBody t) ++ [])
      rw [hsame.msgs, List.append_nil]
      show s1.conn.sess.handshakeMsgs = _
      have hnew : ¬ HandshakeType.serverHello.code ≤ HandshakeType.clientHello.code := by decide
      rw [hsends.msgs hnew]
      show s.conn.sess.handshakeMsgs ++ _ = _
      rw [hmsgs]

theorem unpackClientHello_echo {pf id : Bytes} {len : Nat} {ch : ClientHello}
    (h : unpackClientHello pf len = .ok (some ch)) (hid : readClientSessionId (slice pf 0 len) = some id) :
    ch.sessionId = id ++ zeros (32 - id.length) := by
  obtain ⟨hle, hid⟩ := readClientSessionId_some hid
  rw [slice_length] at hle
  rw [byteAt_slice _ _ _ _ (by omega), Nat.zero_add] at hle hid
  rw [slice_slice _ _ _ _ _ (by omega), Nat.zero_add] at hid
  obtain ⟨-, hch⟩ := unpackClientHello_id h
  have hlen : id.length = (byteAt pf 38).toNat := by rw [hid, slice_length]
  rw [hch, ← hid, overwrite, zeros, List.drop_replicate]
  rfl

theorem handleReadRecord_flown {ch : ClientHello} {ret : Int} (hr : r.IsHello ch) (hn : Named s.conn.sess r ch)
    (hclient : P r.message) (hs : Flown env P Q s.conn.sess) (hst : s.conn.sess.handshakeState = .helloRequest)
    (h : handleReadRecord env r s = .ok (ret, s')) : Flown env P Q s'.conn.sess := by
  obtain ⟨hm, hb, hclear, hnone⟩ := hs.fresh hst
  have hnew : ¬ HandshakeType.clientHello.code ≤ HandshakeType.helloRequest.code := by decide
  simp only [handleReadRecord, hr.1] at h
  obtain ⟨t, ht, h⟩ := bind_ok h
  simp only [hr.2] at ht h
  -- the transcript is the message as it was received
  have hstored : t.conn.sess.handshakeMsgs = r.message ∧ t.conn.sess.sendBuffer = []
      ∧ t.conn.sess.id_ = s.conn.sess.id_ ∧ t.conn.sess.pendingSp = s.conn.sess.pendingSp
      ∧ t.conn.sess.writeSp = s.conn.sess.writeSp ∧ t.conn.sess.tls13Ctx = s.conn.sess.tls13Ctx
      ∧ t.conn.sess.handshakeState = .helloRequest := by
    rcases storeHandshake_cases ht with ⟨hold, -⟩ | ⟨-, rfl⟩
    · rw [hst] at hold
      exact absurd hold hnew
    · refine ⟨?_, hb, rfl, rfl, rfl, rfl, hst⟩
      rw [St.mapSess_sess]
      show s.conn.sess.handshakeMsgs ++ _ = _
      rw [hm, List.nil_append]
      rfl
  obtain ⟨hmsgs, hbuffer, hid, hsp, hw, hctx, hst'⟩ := hstored
  rw [if_neg (by rw [hst']; decide)] at h
  obtain ⟨u, hu, h⟩ := bind_ok h
  cases h
  have hanswer : Flown env P Q u.conn.sess := by
    refine answerClientHello_flown hclient (by rw [hid]; exact hs.sessionId) (by rw [hsp]; exact hs.random)
      (by rw [hw]; exact hclear) hbuffer hmsgs (by rw [hctx]; exact hnone) (fun id hc => ?_) hu
    rw [hid, hn.sessionId]
    exact unpackClientHello_echo hn.parsed hc
  exact hanswer.same (deleteRecord_frame r u).handshake

/-! ### The shared secret and the signature -/

/- The keys are new, but the ServerHello is in clear. -/
theorem handleAfterEcdheSharedSecretCalc_flown (hs : Flown env P Q s.conn.sess)
    (hst : s.conn.sess.handshakeState = .serverHello) (hq : Q (sharedSecret s)) :
    Flown env P Q (handleAfterEcdheSharedSecretCalc env s).conn.sess := by
  obtain ⟨client, hello, htold, -⟩ := hs.hello hst
  have hkeys := handleAfterEcdheSharedSecretCalc_keys env s
  obtain ⟨k, hk⟩ : ∃ k, (handleAfterEcdheSharedSecretCalc env s).conn.sess
      = { s.conn.sess with pendingPkaOp := none, tls13Ctx := k } := ⟨_, rfl⟩
  rw [hk] at hkeys ⊢
  refine ⟨hs.sessionId, hs.random, fun h => absurd (hst.symm.trans h) nofun,
    fun _ => ⟨client, hello, ?_, fun _ hsuite => ⟨sharedSecret s, hq, ?_⟩⟩,
    fun h => absurd (hst.symm.trans h) nofun, fun h => absurd (hst.symm.trans h) nofun⟩
  · exact ⟨htold.greeting, htold.answers, htold.flight.same rfl (flight_one rfl _ _), htold.seq, htold.msgs⟩
  · rw [hkeys hsuite, htold.msgs]
    have hnew := handshakeKeys_schedule env.crypto (sharedSecret s) (transcriptOf env s.conn.sess client hello [])
      s.conn.sess.tls13Ctx
    exact hnew.congr (transcriptOf_hellos ..) rfl rfl rfl rfl rfl rfl rfl

/- The signature goes into the fifth message and the fourth record. -/
theorem Told.signed (h : Told env P e client hello mac 4) (k : Tls13Ctx)
    (hkey : k.serverHandshakeKey = e.tls13Ctx.serverHandshakeKey)
    (hiv : k.serverHandshakeIv = e.tls13Ctx.serverHandshakeIv) :
    Told env P { e with tls13Ctx := k } client hello mac 4 := by
  have hsame : SameKeys e { e with tls13Ctx := k } := ⟨rfl, rfl, hkey, hiv⟩
  exact ⟨h.greeting, h.answers, h.flight.same rfl (hsame.flight_three hello mac), h.seq, h.msgs⟩

theorem handleAfterEcdsaSignature_flown (hs : Flown env P Q s.conn.sess)
    (hst : s.conn.sess.handshakeState = .certificate) : Flown env P Q (handleAfterEcdsaSignature s).conn.sess := by
  obtain ⟨client, hello, htold, hsigns, hkeys⟩ := hs.certified hst
  obtain ⟨signature, hk⟩ : ∃ signature, (handleAfterEcdsaSignature s).conn.sess
      = { s.conn.sess with
          tls13Ctx := { s.conn.sess.tls13Ctx with certSignature := signature, certSignatured := true } } := ⟨_, rfl⟩
  rw [hk]
  refine ⟨hs.sessionId, hs.random, fun h => absurd (hst.symm.trans h) nofun, fun h => absurd (hst.symm.trans h) nofun,
    fun _ => ⟨client, hello, htold.signed _ rfl rfl, hsigns, fun hsuite => ?_⟩,
    fun h => absurd (hst.symm.trans h) nofun⟩
  obtain ⟨shared, hq, hkeys⟩ := hkeys hsuite
  exact ⟨shared, hq, hkeys.congr (transcriptOf_hellos ..) rfl rfl rfl rfl rfl rfl rfl⟩

/-! ### The other four messages -/

/- The next message of the flight is sent. -/
theorem Sends.told {msgType : HandshakeType} {body : Bytes} (hs : Sends env .applicationData msgType body s s')
    (h : Told env P s.conn.sess client hello mac (k + 2)) (hnew : ¬ msgType.code ≤ s.conn.sess.handshakeState.code)
    (hrecord : (flight env s.conn.sess hello mac)[k + 1]?
      = some (sentRecord env s.conn.sess (UInt64.ofNat k) .applicationData msgType body))
    (hmessage : (transcriptOf env s.conn.sess client hello mac).messages[k + 2]? = some (message msgType.code body)) :
    Told env P s'.conn.sess client hello mac (k + 3) where
  greeting := h.greeting
  answers := by
    rw [hs.frame.sameKeys.version]
    exact h.answers
  flight := hs.buffered h.flight h.seq hrecord
  seq hw := by
    rw [hs.seq_next h.seq hw]
    exact (UInt64.ofNat_add k 1).symm
  msgs := by
    rw [hs.frame.sameKeys.transcript (by rw [hs.frame.tls13Ctx])]
    exact hs.msgs_next hnew h.msgs hmessage

theorem Told.setState (h : Told env P s.conn.sess client hello mac k) (x : HandshakeType) :
    Told env P (setHandshakeState x s).conn.sess client hello mac k :=
  h.same ⟨⟨rfl, rfl, rfl, rfl⟩, rfl, rfl, rfl, rfl⟩

theorem sendCertificateFlight_flown (hs : Flown env P Q s.conn.sess)
    (hst : s.conn.sess.handshakeState = .serverHello) (hcalc : s.conn.sess.tls13Ctx.handshakeKeyCalculated = true)
    (h : sendCertificateFlight env s = .ok s') : Flown env P Q s'.conn.sess := by
  obtain ⟨client, hello, htold, hkeys⟩ := hs.hello hst
  obtain ⟨s1, h1, h⟩ := bind_ok h
  obtain ⟨s2, h2, h⟩ := bind_ok h
  obtain ⟨⟨ret, s3⟩, h3, h⟩ := bind_ok h
  cases h
  obtain ⟨-, -, -, hsend1⟩ := sendMessage_sends (b := fun _ => put16 0) h1
  obtain ⟨-, -, -, hsend2⟩ := sendMessage_sends (b := fun _ => certificateBody env) h2
  have hsame := requestPka_handshake h3
  have hnew1 : ¬ HandshakeType.encryptedExtensions.code ≤ s.conn.sess.handshakeState.code := by
    rw [hst]
    decide
  have hnew2 : ¬ HandshakeType.certificate.code ≤ HandshakeType.encryptedExtensions.code := by decide
  have htold1 := hsend1.told htold hnew1 rfl rfl
  have htold2 := hsend2.told (htold1.setState .encryptedExtensions) hnew2 rfl rfl
  have hctx : s2.conn.sess.tls13Ctx = s.conn.sess.tls13Ctx := hsend2.frame.tls13Ctx.trans hsend1.frame.tls13Ctx
  have hsp : s2.conn.sess.pendingSp = s.conn.sess.pendingSp := hsend2.frame.pendingSp.trans hsend1.frame.pendingSp
  have hid : s2.conn.sess.id_.length = 32 := hsend2.frame.id_length (hsend1.frame.id_length hs.sessionId)
  refine Flown.same ?_ hsame
  refine ⟨hid, ?_, nofun, nofun, fun _ => ⟨client, hello, htold2.same ⟨⟨rfl, rfl, rfl, rfl⟩, rfl, rfl, rfl, rfl⟩, ?_,
    fun hsuite => ?_⟩, nofun⟩
  · show s2.conn.sess.pendingSp.serverRandom.length = 32
    rw [hsp]
    exact hs.random
  · show stringToOperand (transcriptHash env.crypto s2.conn.sess.handshakeMsgs) false = _
    rw [htold2.msgs]
    rfl
  · have hsuite : s2.conn.sess.pendingSp.cipher = TLS_AES_256_GCM_SHA384 := hsuite
    rw [hsp] at hsuite
    obtain ⟨shared, hq, hkeys⟩ := hkeys hcalc hsuite
    refine ⟨shared, hq, ?_⟩
    show HandshakeKeys _ shared _ s2.conn.sess.tls13Ctx
    rw [hctx]
    exact hkeys.congr (transcriptOf_hellos ..) rfl rfl rfl rfl rfl rfl rfl

/- The verify data matter to the last message only. -/
theorem Told.finish (h : Told env P e client hello [] 4) (mac : Bytes) : Told env P e client hello mac 4 :=
  ⟨h.greeting, h.answers, h.flight.mac, h.seq, h.msgs⟩

/- The application keys and the expected verify data are made of the whole transcript. -/
theorem keyCalculations_schedule (env : Env) (s : St) (shared : Bytes) {t : Transcript}
    (hmsgs : s.conn.sess.handshakeMsgs = t.upTo 6) (hsuite : Suited s.conn.sess)
    (hkeys : HandshakeKeys (sha384Digest env.crypto) shared t s.conn.sess.tls13Ctx) {k : Tls13Ctx}
    (hk : k = (handleVerifyDataCalculation env (handleAppKeysCalculation env s)).conn.sess.tls13Ctx) :
    HandshakeKeys (sha384Digest env.crypto) shared t k ∧ ApplicationKeys (sha384Digest env.crypto) shared t k
      ∧ k.calculatedVd = (sha384Digest env.crypto).clientVerifyData shared t := by
  have happ := applicationKeys_schedule env.crypto shared t s.conn.sess.tls13Ctx hkeys.secret
  have hctx : k = { applicationKeys env.crypto (t.upTo 6) s.conn.sess.tls13Ctx with
      calculatedVd := finishedMac env.crypto s.conn.sess.tls13Ctx.clientSecret (t.upTo 6) } := by
    have hsuite : s.conn.sess.pendingSp.cipher = TLS_AES_256_GCM_SHA384 := hsuite
    rw [hk]
    simp only [handleVerifyDataCalculation, handleAppKeysCalculation, St.mapSess_sess, St.mapCtx_conn, if_pos hsuite,
      hmsgs]
    rfl
  rw [hctx]
  refine ⟨hkeys.congr rfl rfl rfl rfl rfl rfl rfl rfl, ⟨happ.clientKeys, happ.serverKeys⟩, ?_⟩
  show finishedMac env.crypto s.conn.sess.tls13Ctx.clientSecret (t.upTo 6) = _
  rw [finishedMac_digest, hkeys.client]
  rfl

/- But for the keys nothing changes. -/
theorem keyCalculations_eq (env : Env) (s : St) : ∃ k,
    (handleVerifyDataCalculation env (handleAppKeysCalculation env s)).conn.sess = { s.conn.sess with tls13Ctx := k }
      ∧ k.serverHandshakeKey = s.conn.sess.tls13Ctx.serverHandshakeKey
      ∧ k.serverHandshakeIv = s.conn.sess.tls13Ctx.serverHandshakeIv
      ∧ k.certSignature = s.conn.sess.tls13Ctx.certSignature := by
  obtain ⟨k, hk, -, -, hsig, hkey, hiv⟩ := handleAppKeysCalculation_eq env s
  rw [hk]
  exact ⟨_, rfl, hkey, hiv, hsig⟩

theorem sendFinishedFlight_flown (hs : Flown env P Q s.conn.sess) (hst : s.conn.sess.handshakeState = .certificate)
    (h : sendFinishedFlight env s = .ok s') : Flown env P Q s'.conn.sess := by
  obtain ⟨client, hello, htold, hsigns, hkeys⟩ := hs.certified hst
  obtain ⟨s1, h1, h⟩ := bind_ok h
  obtain ⟨s2, h2, h⟩ := bind_ok h
  cases h
  obtain ⟨t1, hf1, -, hsend1⟩ := sendMessage_sends (b := fun t => certificateVerifyBody t.conn.sess) h1
  obtain ⟨t2, hf2, -, hsend2⟩ := sendMessage_sends
    (b := fun t => finishedMac env.crypto t.conn.sess.tls13Ctx.serverSecret t.conn.sess.handshakeMsgs) h2
  have hbody : certificateVerifyBody t1.conn.sess = certificateVerifyBody s.conn.sess := by
    rw [certificateVerifyBody, certificateVerifyBody, hf1.sameKeys.writeSp, hf1.tls13Ctx]
  generalize hmac : finishedMac env.crypto t2.conn.sess.tls13Ctx.serverSecret t2.conn.sess.handshakeMsgs = mac
    at hsend2
  have hnew1 : ¬ HandshakeType.certificateVerify.code ≤ s.conn.sess.handshakeState.code := by
    rw [hst]
    decide
  have hnew2 : ¬ HandshakeType.finished.code ≤ HandshakeType.certificateVerify.code := by decide
  have htold1 := hsend1.told (htold.finish mac) hnew1 (by rw [hbody]; rfl) (by rw [hbody]; rfl)
  have htold2 := hsend2.told (htold1.setState .certificateVerify) hnew2 rfl rfl
  have hctx : s2.conn.sess.tls13Ctx = s.conn.sess.tls13Ctx := hsend2.frame.tls13Ctx.trans hsend1.frame.tls13Ctx
  have hsp : s2.conn.sess.pendingSp = s.conn.sess.pendingSp := hsend2.frame.pendingSp.trans hsend1.frame.pendingSp
  have hid : s2.conn.sess.id_.length = 32 := hsend2.frame.id_length (hsend1.frame.id_length hs.sessionId)
  have hst2 : s2.conn.sess.handshakeState = .certificateVerify :=
    hsend2.frame.handshakeState
  have hhash : s2.conn.sess.ecdsaTranscriptHash = s.conn.sess.ecdsaTranscriptHash :=
    (congrArg Session.ecdsaTranscriptHash hsend2.frame.sess :).trans
      (congrArg Session.ecdsaTranscriptHash hsend1.frame.sess :)
  obtain ⟨k, hk, hkey, hiv, hsig⟩ := keyCalculations_eq env s2
  have hkeep := fun shared hsuite hkeys => keyCalculations_schedule env s2 shared htold2.msgs hsuite hkeys rfl
  refine Flown.same ?_ (sendKeyMeta_frame env _ _).handshake
  rw [hk] at hkeep ⊢
  have hsame : SameFlight s2.conn.sess { s2.conn.sess with tls13Ctx := k } :=
    ⟨⟨rfl, rfl, hkey, hiv⟩, hsig, rfl, rfl, rfl⟩
  have htr : transcriptOf env { s2.conn.sess with tls13Ctx := k } client hello mac
      = transcriptOf env s2.conn.sess client hello mac := hsame.transcript client hello mac
  refine ⟨hid, ?_, fun h => absurd (hst2.symm.trans h) (by decide), fun h => absurd (hst2.symm.trans h) (by decide),
    fun h => absurd (hst2.symm.trans h) (by decide),
    fun _ => ⟨client, hello, mac, htold2.same hsame, ?_, ?_, fun hsuite => ?_⟩⟩
  · show s2.conn.sess.pendingSp.serverRandom.length = 32
    rw [hsp]
    exact hs.random
  · rw [← hmac]
    exact finishedMac_length ..
  · show s2.conn.sess.ecdsaTranscriptHash = _
    rw [hhash]
    exact hsigns
  · have hsuite : Suited s2.conn.sess := hsuite
    obtain ⟨shared, hq, hkeys⟩ := hkeys (by rwa [Suited, hsp] at hsuite)
    have hkeys2 : HandshakeKeys (sha384Digest env.crypto) shared (transcriptOf env s2.conn.sess client hello mac)
        s2.conn.sess.tls13Ctx := by
      rw [hctx]
      exact hkeys.congr (transcriptOf_hellos ..) rfl rfl rfl rfl rfl rfl rfl
    obtain ⟨hhs, happ, hvd⟩ := hkeep shared hsuite hkeys2
    have hmsgs : t2.conn.sess.handshakeMsgs = (transcriptOf env s2.conn.sess client hello mac).upTo 5 := by
      rw [hsend2.frame.sameKeys.transcript (by rw [hsend2.frame.tls13Ctx])]
      exact hf2.msgs.trans htold1.msgs
    rw [htr]
    refine ⟨shared, hq, hhs, happ, ?_, hvd⟩
    rw [Digest.serverVerifyData, ← hkeys2.server, ← finishedMac_digest, ← hmsgs, hsend2.frame.tls13Ctx, ← hf2.tls13Ctx]
    exact hmac.symm

theorem sendRemainServerRecords_flown (hs : Flown env P Q s.conn.sess) (h : sendRemainServerRecords env s = .ok s') :
    Flown env P Q s'.conn.sess := by
  unfold sendRemainServerRecords at h
  dsimp only at h
  split at h
  · rename_i hst
    exact sendCertificateFlight_flown hs hst.1 hst.2 h
  · split at h
    · rename_i hst
      exact sendFinishedFlight_flown hs hst.1 h
    · split at h
      · obtain ⟨t, ht, h⟩ := bind_ok h
        cases h
        have hf := (sendPendingRecords_frame ht).toSendFrame
        have hrandom : t.conn.sess.pendingSp.serverRandom.length = 32 := by
          rw [hf.pendingSp]
          exact hs.random
        exact .after (hf.id_length hs.sessionId) hrandom (.inr rfl)
      · cases h
        exact hs

/-! ### A connection being served -/

theorem Flown.finishCrypto (o : OpId) (h : Flown env P Q s.conn.sess) :
    Flown env P Q (finishCrypto o s).conn.sess :=
  h.same ⟨⟨⟨rfl, rfl, rfl, rfl⟩, rfl, rfl, rfl, rfl⟩, rfl, rfl, rfl, rfl, id⟩

theorem Flown.clearPending (h : Flown env P Q s.conn.sess) : Flown env P Q (clearPending s).conn.sess :=
  h.same ⟨⟨⟨rfl, rfl, rfl, rfl⟩, rfl, rfl, rfl, rfl⟩, rfl, rfl, rfl, rfl, id⟩

theorem getProcessedCrypto_flown
    (hgreets : ∀ o r, s.conn.sess.completedCrypto = true → s.conn.sess.pkaOp = some o →
      (s.ctx.ops o).data = some r → (∃ ch, r.IsHello ch ∧ Named s.conn.sess r ch) ∧ P r.message)
    (hq : s.conn.sess.completedCrypto = true → s.conn.sess.handshakeState = .serverHello → Q (sharedSecret s))
    (hs : Flown env P Q s.conn.sess) (h : getProcessedCrypto env s = .ok s') : Flown env P Q s'.conn.sess := by
  unfold getProcessedCrypto at h
  split at h
  · cases h
    exact hs
  · rename_i hc
    have hc : s.conn.sess.completedCrypto = true := by simpa using hc
    split at h
    · cases h
    · rename_i o ho
      split at h
      · rename_i hst
        split at h
        · cases h
        · rename_i r hr
          obtain ⟨⟨ch, hch, hn⟩, hclient⟩ := hgreets o r hc ho hr
          obtain ⟨⟨ret, t⟩, ht, h⟩ := bind_ok h
          have hs0 : Flown env P Q (handleAfterEcdheKeyGen (clearPending s)).conn.sess :=
            hs.same ⟨⟨⟨rfl, rfl, rfl, rfl⟩, rfl, rfl, rfl, rfl⟩, rfl, rfl, rfl, rfl, id⟩
          have hn0 : Named (handleAfterEcdheKeyGen (clearPending s)).conn.sess r ch := ⟨hn.sessionId, hn.parsed⟩
          have ht' : Flown env P Q t.conn.sess := handleReadRecord_flown hch hn0 hclient hs0 hst ht
          dsimp only at h
          split at h
          · cases h
            exact ht'
          · cases h
            exact ht'.finishCrypto o
      · rename_i hst
        cases h
        exact (handleAfterEcdheSharedSecretCalc_flown hs.clearPending hst (hq hc hst)).finishCrypto o
      · rename_i hst
        cases h
        exact (handleAfterEcdsaSignature_flown hs.clearPending hst).finishCrypto o
      · cases h

theorem Removed.flown (h : Removed s s') : Flown env P Q s'.conn.sess := by
  have hid : (clearedSession s.ctx.outside.rand s.conn.sess).id_.length = 32 := initRandom_length _ 32
  rw [h.sess]
  exact ⟨hid, zeros_length 32, fun _ => ⟨rfl, rfl, rfl, rfl⟩, nofun, nofun, nofun⟩

theorem readRule_flown (env : Env) (P Q : Bytes → Prop) :
    ReadRule fun s s' => Flown env P Q s.conn.sess → Flown env P Q s'.conn.sess where
  refl _ h := h
  trans h h' := fun hs => h' (h hs)
  frame _ _ hf h := h.same hf.handshake
  hello _ _ _ _ _ _ _ _ _ hsub h := by
    rw [hsub.sess]
    exact h.same (.update ..)
  spec _ _ h := .after h.sessionId h.random (.inl rfl)
  finish _ _ h := .after h.sessionId h.random (.inr rfl)
  removed _ _ hr _ := hr.flown
  call _ _ _ h := h
  complete _ _ h := h
  queues _ _ _ h := h.same ⟨⟨⟨rfl, rfl, rfl, rfl⟩, rfl, rfl, rfl, rfl⟩, rfl, rfl, rfl, rfl, id⟩

theorem removeHws_flown (hs : Flown env P Q s.conn.sess) (h : removeHws s = .ok s') : Flown env P Q s'.conn.sess := by
  rcases removeHws_cases h with ⟨-, rfl⟩ | ⟨-, hr⟩
  · exact hs
  · exact hr.flown

theorem serveConnection_flown (hread : processSessionRead env s = .ok t)
    (hgreets : ∀ o r, t.conn.sess.completedCrypto = true → t.conn.sess.pkaOp = some o →
      (t.ctx.ops o).data = some r → (∃ ch, r.IsHello ch ∧ Named t.conn.sess r ch) ∧ P r.message)
    (hq : t.conn.sess.completedCrypto = true → t.conn.sess.handshakeState = .serverHello → Q (sharedSecret t))
    (hs : Flown env P Q s.conn.sess) (h : serveConnection env s = .ok s') : Flown env P Q s'.conn.sess := by
  have hrule := readRule_flown env P Q
  have ht : Flown env P Q t.conn.sess := processSessionReadLoop_rule
    (R := fun s s' => Flown env P Q s.conn.sess → Flown env P Q s'.conn.sess) hrule.refl
    hrule.trans (fun _ _ _ _ _ hw _ hr => hrule.queued hw hr) hread hs
  obtain ⟨t', hread', h⟩ := bind_ok h
  cases hread.symm.trans hread'
  obtain ⟨u, hu, h⟩ := bind_ok h
  obtain ⟨v, hv, h⟩ := bind_ok h
  have hu' := hrule.moves.applies u (getProcessedCrypto_flown hgreets hq ht hu)
  exact sendRemainServerRecords_flown (hrule.moves.forward v (removeHws_flown hu' hv)) h

end

/-! ### The whole worker -/

section

variable {env : Env} {n ringCnt : Nat} {s : Sys} {c : ConnId} {inputs : List Input}

/- The operation that a session takes up after its records are read is its own. -/
theorem Greets.read {t : St} (hs : OpFacts s ∧ Greets s) (h : processSessionRead env ⟨s.conns c, s.ctx⟩ = .ok t)
    (o : OpId) (r : Record) (hc : t.conn.sess.completedCrypto = true) (ho : t.conn.sess.pkaOp = some o)
    (hr : (t.ctx.ops o).data = some r) :
    (∃ ch, r.IsHello ch ∧ Named t.conn.sess r ch) ∧ ReadOn c t.ctx.trace r.message := by
  have hrule := processSessionReadLoop_rule (closed_greets env).refl (closed_greets env).trans
    (closed_greets env).queued h
  have hself : OpFacts ((⟨s.conns c, s.ctx⟩ : St).among s.conns)
      ∧ Greets ((⟨s.conns c, s.ctx⟩ : St).among s.conns) := by
    rw [s.among_put (hs.1.ids c)]
    exact hs
  obtain ⟨hid, hfacts, hgreets⟩ := hrule.carries (fun _ _ => trivial) s.conns hself
  have hid : t.conn.id = c := hid.trans (hs.1.ids c)
  obtain ⟨o', hp, hpend⟩ := hfacts.own.completed hc
  have hpend : t.conn.sess.pendingPkaOp = some o := by rw [hpend, ← hp, ho]
  have hself := hgreets o r t.conn.id hr ((hfacts.own.owner o).mpr hpend)
  rw [t.among_self, hid] at hself
  exact hself

/-- A shared secret that the connection takes up in the run: the first result of its session, at a point where
the session is served with a completed operation and has sent its ServerHello.  The connection is not removed
from there to `ctx`. -/
def TakesUp (env : Env) (n ringCnt : Nat) (c : ConnId) (inputs : List Input) (ctx : Ctx) (shared : Bytes) : Prop :=
  ∃ before after s t, inputs = before ++ .serve c :: after ∧ run (step env) before (initial n ringCnt) = .ok s
    ∧ processSessionRead env ⟨s.conns c, s.ctx⟩ = .ok t ∧ t.conn.sess.completedCrypto = true
    ∧ t.conn.sess.handshakeState = .serverHello ∧ shared = sharedSecret t ∧ Spares c t.ctx ctx

/-- A ClientHello that was received since the connection was last removed. -/
def Greeted (c : ConnId) (ctx : Ctx) (client : Bytes) : Prop := IsClientHello client ∧ ReadOn c ctx.trace client

/- `P` at some point of a step. -/
def Meanwhile (s s' : Sys) (P : Ctx → Bytes → Prop) (b : Bytes) : Prop :=
  ∃ ctx, s.ctx.trace <:+ ctx.trace ∧ ctx.trace <:+ s'.ctx.trace ∧ P ctx b

theorem Meanwhile.ends {s' : Sys} {P : Ctx → Bytes → Prop} {b : Bytes} (h : Meanwhile s s' P b)
    (hspares : Spares c s.ctx s'.ctx) (hP : ∀ ctx, Spares c ctx s'.ctx → P ctx b → P s'.ctx b) : P s'.ctx b := by
  obtain ⟨ctx, hearly, hlate, hp⟩ := h
  exact hP ctx (hspares.split hearly hlate).2 hp

theorem TakesUp.later {shared : Bytes} {ctx ctx' : Ctx} (hspares : Spares c ctx ctx')
    (h : TakesUp env n ringCnt c inputs ctx shared) : TakesUp env n ringCnt c inputs ctx' shared := by
  obtain ⟨before, after, s, t, hin, hrun, hread, hc, hst, hsecret, ht⟩ := h
  exact ⟨before, after, s, t, hin, hrun, hread, hc, hst, hsecret, ht.trans hspares⟩

theorem TakesUp.input {shared : Bytes} {ctx : Ctx} (x : Input) (h : TakesUp env n ringCnt c inputs ctx shared) :
    TakesUp env n ringCnt c (inputs ++ [x]) ctx shared := by
  obtain ⟨before, after, s, t, rfl, hrest⟩ := h
  exact ⟨before, after ++ [x], s, t, by simp, hrest⟩

/- In the middle of a step the sources are those of the state before it, or of the serve that the step is. -/
theorem step_flown (x : Input) (s s' : Sys) (hrun : run (step env) inputs (initial n ringCnt) = .ok s)
    (h : step env x s = .ok s')
    (hs : Flown env (Greeted c s.ctx) (TakesUp env n ringCnt c inputs s.ctx) (s.conns c).sess) :
    Flown env (Greeted c s'.ctx) (TakesUp env n ringCnt c (inputs ++ [x]) s'.ctx) (s'.conns c).sess := by
  have hgreets := (run_invariant (fun y a b hab ha => ((kept_greets env).keeps y a b hab).keeps (fun _ _ => trivial) ha)
    inputs _ s hrun ⟨initial_opFacts n ringCnt, initial_greets n ringCnt⟩)
  have hgrows : s.ctx.trace <:+ s'.ctx.trace := ((kept_opFacts env).keeps x s s' h).grows
  have hstart : Flown env (Meanwhile s s' (Greeted c)) (Meanwhile s s' (TakesUp env n ringCnt c (inputs ++ [x])))
      (s.conns c).sess :=
    hs.mono (fun _ client hp => ⟨s.ctx, List.suffix_refl _, hgrows, hp⟩)
      fun _ shared hq => ⟨s.ctx, List.suffix_refl _, hgrows, hq.input x⟩
  have hmid : Flown env (Meanwhile s s' (Greeted c)) (Meanwhile s s' (TakesUp env n ringCnt c (inputs ++ [x])))
      (s'.conns c).sess := by
    refine step_session (readRule_flown env _ _) (fun e pending priv o results completed he => ?_)
      (fun t hx ht hput => ?_) h hstart
    · exact he.same (.update ..)
    · obtain ⟨u, hu, -⟩ := bind_ok ht
      have hearly : s.ctx.trace <:+ u.ctx.trace := (processSessionReadLoop_rule (closed_opFacts env).refl
        (closed_opFacts env).trans (closed_opFacts env).queued hu).grows
      have hlate : u.ctx.trace <:+ s'.ctx.trace := by
        rw [hput]
        exact ((closed_opFacts env).toServeRule.rest hu ht).grows
      refine serveConnection_flown hu (fun o r hc ho hr => ?_) (fun hc hst => ?_) hstart ht
      · obtain ⟨⟨ch, hch, hn⟩, hreceived⟩ := Greets.read hgreets hu o r hc ho hr
        exact ⟨⟨ch, hch, hn⟩, u.ctx, hearly, hlate, ⟨r.pf, _, ch, hn.parsed, rfl⟩, hreceived⟩
      · exact ⟨u.ctx, hearly, hlate, inputs, [], s, u, by rw [hx], hrun, hu, hc, hst, rfl, .of_eq rfl⟩
  refine hmid.mono (fun hlive client hp => ?_) fun hlive shared hq => ?_
  · exact hp.ends (step_spares hgreets.1 h hlive) fun _ hspares hp => ⟨hp.1, hp.2.later hspares⟩
  · exact hq.ends (step_spares hgreets.1 h hlive) fun _ hspares hq => hq.later hspares

theorem run_flown (h : run (step env) inputs (initial n ringCnt) = .ok s) (c : ConnId) :
    Flown env (Greeted c s.ctx) (TakesUp env n ringCnt c inputs s.ctx) (s.conns c).sess := by
  refine run_history (P := fun inputs s =>
      Flown env (Greeted c s.ctx) (TakesUp env n ringCnt c inputs s.ctx) (s.conns c).sess) ?_
    (fun es x t t' ht hx hp => step_flown x t t' ht hx hp) inputs s h
  exact ⟨zeros_length 32, zeros_length 32, fun _ => ⟨rfl, rfl, rfl, rfl⟩, nofun, nofun, nofun⟩

/-! ### The key schedule -/

/-- In every run, when the key meta packet of a connection has been sent and the flight has not (in state
`CERTIFICATE_VERIFY`), the messages hashed are the content of a record read on the connection, which is a
ClientHello, and those in the flight, without record headers and inner content types.  The signed content, both
verify data and all traffic keys are those of RFC 8446 for these messages and a shared secret that the engine has
returned.  Both belong to the present lifetime of the connection. -/
theorem session_follows_schedule (env : Env) (n ringCnt : Nat) (inputs : List Input) (s : Sys) (c : ConnId)
    (h : run (step env) inputs (initial n ringCnt) = .ok s)
    (hst : (s.conns c).sess.handshakeState = .certificateVerify)
    (hsuite : (s.conns c).sess.pendingSp.cipher = TLS_AES_256_GCM_SHA384) :
    ∃ client hello mac shared t, IsClientHello client ∧ ReadOn c s.ctx.trace client
      ∧ TakesUp env n ringCnt c inputs s.ctx shared
      ∧ t = transcriptOf env (s.conns c).sess client hello mac
      ∧ (s.conns c).sess.sendBuffer = (flight env (s.conns c).sess hello mac).flatMap Record.encode
      ∧ (s.conns c).sess.handshakeMsgs = t.upTo 6
      ∧ SignsCertificate env (s.conns c).sess t
      ∧ mac = (sha384Digest env.crypto).serverVerifyData shared t
      ∧ (s.conns c).sess.tls13Ctx.calculatedVd = (sha384Digest env.crypto).clientVerifyData shared t
      ∧ HandshakeKeys (sha384Digest env.crypto) shared t (s.conns c).sess.tls13Ctx
      ∧ ApplicationKeys (sha384Digest env.crypto) shared t (s.conns c).sess.tls13Ctx := by
  obtain ⟨client, hello, mac, htold, -, hsigns, hkeys⟩ := (run_flown h c).complete hst
  obtain ⟨shared, hq, hhs, happ, hmac, hvd⟩ := hkeys hsuite
  exact ⟨client, hello, mac, shared, _, htold.greeting.1, htold.greeting.2, hq, rfl, htold.flight.buffer, htold.msgs,
    hsigns, hmac, hvd, hhs, happ⟩

theorem session_follows_schedule_sample : ∃ s, run (step sampleEnv) sampleServerFlight (initial 2 8) = .ok s
    ∧ (s.conns 0).sess.handshakeState = .certificateVerify
    ∧ ∃ shared t, ReadOn 0 s.ctx.trace t.clientHello ∧ TakesUp sampleEnv 2 8 0 sampleServerFlight s.ctx shared
      ∧ (s.conns 0).sess.handshakeMsgs = t.upTo 6
      ∧ ApplicationKeys (sha384Digest sampleEnv.crypto) shared t (s.conns 0).sess.tls13Ctx := by
  obtain ⟨s, hs, hst, hsuite⟩ := endsIn_ok
    (fun s => (s.conns 0).sess.handshakeState = .certificateVerify
      ∧ (s.conns 0).sess.pendingSp.cipher = TLS_AES_256_GCM_SHA384)
    (run (step sampleEnv) sampleServerFlight (initial 2 8)) (by decide +kernel)
  obtain ⟨client, hello, mac, shared, t, -, hreceived, hq, ht, -, hmsgs, -, -, -, -, happ⟩ :=
    session_follows_schedule sampleEnv 2 8 sampleServerFlight s 0 hs hst hsuite
  exact ⟨s, hs, hst, shared, t, by rw [ht]; exact hreceived, hq, hmsgs, happ⟩

/-! ### The session id -/

/-- The session id of the ServerHello is the one of the ClientHello exactly if that one has 32 bytes. -/
theorem serverHello_sessionId
    (h : run (step env) inputs (initial n ringCnt) = .ok s)
    (hst : (s.conns c).sess.handshakeState = .serverHello) :
    ∃ client hello sh,
      (s.conns c).sess.handshakeMsgs = client ++ message HandshakeType.serverHello.code hello
      ∧ (s.conns c).sess.sendBuffer = Tls.Record.encode
          { type := ContentType.handshake.code
            version := ((s.conns c).sess.version.major, (s.conns c).sess.version.minor)
            fragment := message HandshakeType.serverHello.code hello }
      ∧ readServerHello hello = some sh
      ∧ ∀ id, readClientSessionId client = some id → (sh.sessionId = id ↔ id.length = 32) := by
  obtain ⟨client, hello, htold, -⟩ := (run_flown h c).hello hst
  obtain ⟨t, ha⟩ := htold.answers
  have hread := serverHelloBody_reads ha.random ha.sessionId
  rw [← ha.body] at hread
  refine ⟨client, hello, _, htold.msgs.trans (congrArg _ (List.append_nil _)), ?_, hread,
    fun id hc => ⟨fun heq => ?_, fun hlen => ?_⟩⟩
  · exact htold.flight.buffer.trans (List.flatMap_singleton ..)
  · rw [← heq]
    exact ha.sessionId
  · rw [ha.echo id hc, hlen]
    exact List.append_nil id

def sampleId : Bytes := (List.range 32).map UInt8.ofNat

theorem sampleNamedHello_lt : (sampleNamedHello sampleId [0x13, 2]).length < 65536 := by decide +kernel

/- The ClientHello has a session id of 32 bytes, and so has the ServerHello. -/
theorem serverHello_sessionId_sample : ∃ s,
    run (step sampleEnv) [.packet 0 sampleSyn,
      .packet 0 (sampleSegment 101 5 (sampleNamedHello sampleId [0x13, 2]) sampleNamedHello_lt),
      .pkaSubmit {}, .pkaComplete 0 [zeros 32], .serve 0] (initial 2 8) = .ok s
    ∧ readClientSessionId (s.conns 0).sess.handshakeMsgs = some sampleId
    ∧ (readServerHello ((s.conns 0).sess.sendBuffer.drop 9)).map ServerHello.sessionId = some sampleId
    ∧ ∃ client hello sh,
      (s.conns 0).sess.handshakeMsgs = client ++ message HandshakeType.serverHello.code hello
      ∧ (s.conns 0).sess.sendBuffer = Tls.Record.encode
          { type := ContentType.handshake.code
            version := ((s.conns 0).sess.version.major, (s.conns 0).sess.version.minor)
            fragment := message HandshakeType.serverHello.code hello }
      ∧ readServerHello hello = some sh
      ∧ ∀ id, readClientSessionId client = some id → (sh.sessionId = id ↔ id.length = 32) := by
  obtain ⟨s, hs, hst, hid⟩ := endsIn_ok (fun s => (s.conns 0).sess.handshakeState = .serverHello
      ∧ readClientSessionId (s.conns 0).sess.handshakeMsgs = some sampleId
      ∧ (readServerHello ((s.conns 0).sess.sendBuffer.drop 9)).map ServerHello.sessionId = some sampleId)
    (run (step sampleEnv) [.packet 0 sampleSyn,
      .packet 0 (sampleSegment 101 5 (sampleNamedHello sampleId [0x13, 2]) sampleNamedHello_lt),
      .pkaSubmit {}, .pkaComplete 0 [zeros 32], .serve 0] (initial 2 8)) (by decide +kernel)
  exact ⟨s, hs, hid.1, hid.2, serverHello_sessionId hs hst⟩

/- The ClientHello has an empty session id, and the ServerHello one of 32 zeros. -/
theorem emptySessionId_filled : ∃ s,
    run (step sampleEnv) (sampleServerFlight.take 5) (initial 2 8) = .ok s
    ∧ (s.conns 0).sess.handshakeState = .serverHello
    ∧ readClientSessionId (s.conns 0).sess.handshakeMsgs = some []
    ∧ (readServerHello ((s.conns 0).sess.sendBuffer.drop 9)).map ServerHello.sessionId = some (zeros 32) :=
  endsIn_ok (fun s => (s.conns 0).sess.handshakeState = .serverHello
      ∧ readClientSessionId (s.conns 0).sess.handshakeMsgs = some []
      ∧ (readServerHello ((s.conns 0).sess.sendBuffer.drop 9)).map ServerHello.sessionId = some (zeros 32))
    (run (step sampleEnv) (sampleServerFlight.take 5) (initial 2 8)) (by decide +kernel)

end

end Xtls.Nic
