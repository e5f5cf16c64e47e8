import Xtls.Nic.Frame
import Xtls.Nic.Twin

/-!
# The server flight in two runs

The functions of `Send.lean` and `Keys.lean` keep two runs side by side.  The public key of the
ServerHello is the only field that may differ and is looked at; it has been written just before.
-/

namespace Xtls.Nic

section

variable {env : Env} {k : Skew} {s s' : St} {r r' : Record}

theorem storeHandshake_twin (h : Twin k s s') (msgType : Byte) (frag : Bytes) :
    Relates (Twin k) (storeHandshake msgType frag s) (storeHandshake msgType frag s') := by
  have hstate := h.read (·.conn.sess.handshakeState) fun _ _ _ => rfl
  have hmsgs := h.read (·.conn.sess.handshakeMsgs) fun _ _ _ => rfl
  unfold storeHandshake
  rw [hstate, hmsgs]
  refine .ite (fun _ => .ok h) fun _ => .bind_same fun msgs => ?_
  exact .ite (fun _ => .error _) fun _ => .ok (h.mapSess _ fun _ _ => ⟨rfl, id⟩)

theorem encryptRecord_twin (h : Twin k s s') (hr : RecordTwin k r r') (type : ContentType)
    (version : ProtocolVersion) (frag : Bytes) :
    Relates (Both Eq (Twin k)) (encryptRecord env r type version frag s)
      (encryptRecord env r' type version frag s') := by
  have hseq := hr.val Record.seqNum fun _ _ => rfl
  refine .bind (newSslCryptoOp_twin h) ?_
  rintro ⟨o, t⟩ ⟨_, t'⟩ ⟨rfl, ht⟩
  obtain ⟨v, w, hv, hw, rfl⟩ := id ht
  dsimp only
  rw [hseq]
  refine .ite (fun _ => .ok ⟨rfl, ht⟩) fun _ => .ite (fun _ => .ok ⟨rfl, deleteOp_twin ht⟩) fun _ => ?_
  exact .ok ⟨rfl, deleteOp_twin (ht.mapSess
    (fun e => { e with sendSeqNum := e.sendSeqNum + 1, serverWriteIvSeqNum := r.seqNum + 1 }) fun _ _ => ⟨rfl, id⟩)⟩

theorem sealRecord_twin (h : Twin k s s') (hr : RecordTwin k r r') (type : ContentType) (frag : Bytes) :
    Relates (Both Eq (Twin k)) (sealRecord env r type frag s) (sealRecord env r' type frag s') := by
  obtain ⟨v, w, hv, hw, rfl⟩ := id h
  refine .ite (fun _ => .ok ⟨rfl, h⟩) fun _ => .ite (fun _ => .error _) fun _ => ?_
  refine .bind (encryptRecord_twin h hr type _ frag) ?_
  rintro ⟨data, t⟩ ⟨_, t'⟩ ⟨rfl, ht⟩
  cases data with
  | none => exact .error _
  | some data => exact .ok ⟨rfl, ht⟩

theorem sendRecord_twin (h : Twin k s s') (hr : RecordTwin k r r') (type : ContentType)
    (msgType : HandshakeType) (body : Bytes) :
    Relates (Twin k) (sendRecord env r type msgType body s) (sendRecord env r' type msgType body s') := by
  refine .bind (storeHandshake_twin h _ _) fun t t' ht => ?_
  refine .bind (sealRecord_twin ht hr _ _) ?_
  rintro ⟨data, u⟩ ⟨_, u'⟩ ⟨rfl, hu⟩
  have hbuffer := hu.read (·.conn.sess.sendBuffer) fun _ _ _ => rfl
  dsimp only at hbuffer ⊢
  rw [hbuffer]
  exact .bind_same fun buffer => .ok (deleteRecord_twin (hu.mapSess _ fun _ _ => ⟨rfl, id⟩) hr)

theorem sendMessage_twin (h : Twin k s s') (type : ContentType) (msgType : HandshakeType)
    (body : St → Bytes)
    (hbody : ∀ r r' t t', newSendRecord s = .ok (r, t) → newSendRecord s' = .ok (r', t') → Twin k t t' →
      body t' = body t) :
    Relates (Twin k)
      (do let (r, s) ← newSendRecord s; sendRecord env r type msgType (body s) s)
      (do let (r, s) ← newSendRecord s'; sendRecord env r type msgType (body s) s) := by
  have hseq := h.read (·.conn.sess.sendSeqNum) fun _ _ _ => rfl
  have hnew : Relates (Both (RecordTwin k) (Twin k)) (newSendRecord s) (newSendRecord s') := by
    unfold newSendRecord
    rw [hseq]
    exact newRecord_twin h s.conn.sess.sendSeqNum
  refine hnew.bind_of ?_
  rintro ⟨r, t⟩ ⟨r', t'⟩ hs hs' ⟨hr, ht⟩
  have he := hbody r r' t t' hs hs' ht
  dsimp only
  rw [he]
  exact sendRecord_twin ht hr type msgType (body t)

theorem newSendRecord_pubKey {s t : St} {r : Record} (h : newSendRecord s = .ok (r, t)) :
    t.conn.sess.ecdhePubKey = s.conn.sess.ecdhePubKey := by
  unfold newSendRecord newRecord at h
  split at h
  · cases h
  · cases h
    rfl

theorem sendServerHello_twin (h : Twin k s s')
    (hpub : s'.conn.sess.ecdhePubKey = s.conn.sess.ecdhePubKey) :
    Relates (Twin k) (sendServerHello env s) (sendServerHello env s') := by
  refine sendMessage_twin h _ _ serverHelloBody fun r r' t t' ht ht' htwin => ?_
  have hkey : t'.conn.sess.ecdhePubKey = t.conn.sess.ecdhePubKey :=
    (newSendRecord_pubKey ht').trans (hpub.trans (newSendRecord_pubKey ht).symm)
  obtain ⟨v, w, -, -, rfl⟩ := htwin
  have hbody : serverHelloBody (t.twin v w)
      = serverHelloBody (t.mapSess fun e => { e with ecdhePubKey := (t.twin v w).conn.sess.ecdhePubKey }) := rfl
  rw [hbody, hkey]
  rfl

theorem sendEncryptedExtensions_twin (h : Twin k s s') :
    Relates (Twin k) (sendEncryptedExtensions env s) (sendEncryptedExtensions env s') :=
  sendMessage_twin h _ _ (fun _ => put16 0) fun _ _ _ _ _ _ _ => rfl

theorem sendCertificate_twin (h : Twin k s s') :
    Relates (Twin k) (sendCertificate env s) (sendCertificate env s') :=
  sendMessage_twin h _ _ (fun _ => certificateBody env) fun _ _ _ _ _ _ _ => rfl

theorem sendCertificateVerify_twin (h : Twin k s s') :
    Relates (Twin k) (sendCertificateVerify env s) (sendCertificateVerify env s') :=
  sendMessage_twin h _ _ (fun s => certificateVerifyBody s.conn.sess) fun _ _ _ _ _ _ ht =>
    ht.read (fun s => certificateVerifyBody s.conn.sess) fun _ _ _ => rfl

theorem sendServerFinished_twin (h : Twin k s s') :
    Relates (Twin k) (sendServerFinished env s) (sendServerFinished env s') :=
  sendMessage_twin h _ _
    (fun s => finishedMac env.crypto s.conn.sess.tls13Ctx.serverSecret s.conn.sess.handshakeMsgs)
    fun _ _ _ _ _ _ ht =>
      ht.read (fun s => finishedMac env.crypto s.conn.sess.tls13Ctx.serverSecret s.conn.sess.handshakeMsgs)
        fun _ _ _ => rfl

theorem sendPendingRecords_twin (h : Twin k s s') :
    Relates (Twin k) (sendPendingRecords s) (sendPendingRecords s') := by
  have hbuffer := h.read (·.conn.sess.sendBuffer) fun _ _ _ => rfl
  have hsent := sendTcpPacket_twin h TCP_FLAG_ACK s.conn.sess.sendBuffer
  unfold sendPendingRecords
  rw [hbuffer]
  exact .bind_same fun records => .ok (hsent.mapSess _ fun _ _ => ⟨rfl, id⟩)

/-! ### PKA requests -/

theorem submitPkaRequest_twin (h : Twin k s s') (o : OpId) :
    Both Eq (Twin k) (submitPkaRequest o s) (submitPkaRequest o s') := by
  have hfull := h.read (fun s => (s.ctx.ringCnt, s.ctx.submitPkaRing)) fun _ _ _ => rfl
  simp only [Prod.mk.injEq] at hfull
  unfold submitPkaRequest
  rw [hfull.1, hfull.2]
  split
  · exact ⟨rfl, deleteOp_twin h⟩
  · exact ⟨rfl, h.mapCtx _ fun _ _ => ⟨rfl, rfl⟩⟩

theorem Twin.setPkaFlag (h : Twin k s s') (o : OpId) :
    Twin k (s.mapCtx fun c => c.setOp o { c.ops o with pkaFlag := true })
      (s'.mapCtx fun c => c.setOp o { c.ops o with pkaFlag := true }) := by
  obtain ⟨v, w, hv, hw, rfl⟩ := id h
  have hop : OpTwin k { s.ctx.ops o with pkaFlag := true } { w.ops o with pkaFlag := true } := by
    obtain ⟨a, b, c, data, he, hdata⟩ := hw.ops o
    rw [he]
    exact ⟨a, b, c, data, rfl, hdata⟩
  exact h.setOp hop

theorem requestPka_twin (h : Twin k s s') {fill fill' : Op} (hfill : OpTwin k fill fill') :
    Relates (Both Eq (Twin k)) (requestPka fill s) (requestPka fill' s') := by
  refine .bind (newSslCryptoOp_twin h) ?_
  rintro ⟨o, t⟩ ⟨_, t'⟩ ⟨rfl, ht⟩
  have hid := ht.read (·.conn.id) fun _ _ _ => rfl
  have hset : Twin k (t.mapCtx (·.setOp o { fill with sess := some t.conn.id }))
      (t'.mapCtx (·.setOp o { fill' with sess := some t'.conn.id })) := by
    refine ht.setOp ?_
    obtain ⟨a, b, c, data, rfl, hdata⟩ := hfill
    rw [hid]
    exact ⟨a, b, c, data, rfl, hdata⟩
  have hsub := submitPkaRequest_twin hset o
  dsimp only at hsub ⊢
  generalize submitPkaRequest o (t.mapCtx (·.setOp o { fill with sess := some t.conn.id })) = x at hsub ⊢
  generalize submitPkaRequest o (t'.mapCtx (·.setOp o { fill' with sess := some t'.conn.id })) = y at hsub ⊢
  obtain ⟨n, u⟩ := x
  obtain ⟨n', u'⟩ := y
  obtain ⟨rfl, hu⟩ := hsub
  by_cases hn : n = 0
  · subst hn
    have hwait := hu.mapSess (fun e => { e with waitingCrypto := true, pendingPkaOp := some o })
      fun _ _ => ⟨rfl, id⟩
    exact .ok ⟨rfl, hwait.setPkaFlag o⟩
  · simp only
    exact .ok ⟨rfl, hu⟩

theorem generateEcdheKeyPair_twin (h : Twin k s s') (hr : RecordTwin k r r') :
    Relates (Both Eq (Twin k)) (generateEcdheKeyPair r s) (generateEcdheKeyPair r' s') :=
  requestPka_twin h ⟨none, none, none, some r', rfl, .some hr⟩

theorem calculateSharedSecret_twin (h : Twin k s s') (pub : Bytes) :
    Relates (Both Eq (Twin k)) (calculateSharedSecret pub s) (calculateSharedSecret pub s') := by
  obtain ⟨v, w, hv, hw, rfl⟩ := h
  have hset : Twin k (s.mapSess fun e => { e with sharedSecretOperand := stringToOperand pub true })
      ((s.twin v w).mapSess fun e => { e with sharedSecretOperand := stringToOperand pub true }) :=
    ⟨{ v with sharedSecretOperand := stringToOperand pub true }, w, { hv with }, hw, rfl⟩
  exact requestPka_twin hset ⟨_, _, _, none, rfl, .none⟩

theorem signatureCertificate_twin (h : Twin k s s') :
    Relates (Both Eq (Twin k)) (signatureCertificate env s) (signatureCertificate env s') := by
  obtain ⟨v, w, hv, hw, rfl⟩ := h
  let hash := transcriptHash env.crypto s.conn.sess.handshakeMsgs
  have hset : Twin k
      (s.mapSess fun e => { e with ecdsaTranscriptHash := stringToOperand hash false
                                   ecdsaK := stringToOperand hash false })
      ((s.twin v w).mapSess fun e => { e with ecdsaTranscriptHash := stringToOperand hash false
                                              ecdsaK := stringToOperand hash false }) :=
    ⟨{ v with ecdsaTranscriptHash := stringToOperand hash false, ecdsaK := stringToOperand hash false },
      w, { hv with }, hw, rfl⟩
  exact requestPka_twin hset ⟨_, _, _, none, rfl, .none⟩

/-! ### After the results -/

theorem setHandshakeState_twin (h : Twin k s s') (m : HandshakeType) :
    Twin k (setHandshakeState m s) (setHandshakeState m s') := h.mapSess _ fun _ _ => ⟨rfl, id⟩

/- From here on the public key is the same. -/
theorem handleAfterEcdheKeyGen_twin (h : Twin k s s') :
    Twin k (handleAfterEcdheKeyGen s) (handleAfterEcdheKeyGen s')
    ∧ (handleAfterEcdheKeyGen s').conn.sess.ecdhePubKey = (handleAfterEcdheKeyGen s).conn.sess.ecdhePubKey := by
  obtain ⟨v, w, hv, hw, rfl⟩ := h
  exact ⟨⟨{ v with ecdhePubKey := s.conn.sess.pkaResults.headD {} }, w, { hv with }, hw, rfl⟩, rfl⟩

theorem handleAfterEcdheSharedSecretCalc_twin (h : Twin k s s') :
    Twin k (handleAfterEcdheSharedSecretCalc env s) (handleAfterEcdheSharedSecretCalc env s') := by
  have hshared := h.read (fun s => onStack s (operandToString (s.conn.sess.pkaResults.headD {}) x25519KeyLen)
    x25519KeyLen) fun _ _ _ => rfl
  unfold handleAfterEcdheSharedSecretCalc
  rw [hshared]
  exact h.mapSess _ fun _ _ => ⟨rfl, id⟩

theorem handleAfterEcdsaSignature_twin (h : Twin k s s') :
    Twin k (handleAfterEcdsaSignature s) (handleAfterEcdsaSignature s') := h.mapSess _ fun _ _ => ⟨rfl, id⟩

theorem handleAppKeysCalculation_twin (h : Twin k s s') :
    Twin k (handleAppKeysCalculation env s) (handleAppKeysCalculation env s') := by
  refine h.mapSess _ fun e v => ⟨?_, fun he => ?_⟩
  · by_cases hc : e.pendingSp.cipher = TLS_AES_256_GCM_SHA384
    · rw [if_pos hc]
      exact if_pos hc
    · rw [if_neg hc]
      exact if_neg hc
  · split at he <;> exact he

theorem handleVerifyDataCalculation_twin (h : Twin k s s') :
    Twin k (handleVerifyDataCalculation env s) (handleVerifyDataCalculation env s') := by
  have hvd := h.read (fun s => finishedMac env.crypto s.conn.sess.tls13Ctx.clientSecret
    s.conn.sess.handshakeMsgs) fun _ _ _ => rfl
  unfold handleVerifyDataCalculation
  dsimp only at hvd ⊢
  rw [hvd]
  exact (h.mapSess (fun e => { e with tls13Ctx := { e.tls13Ctx with calculatedVd := _ } })
    fun _ _ => ⟨rfl, id⟩).note [.verifyData _ _ _] [.verifyData _ _ _] rfl

theorem sendRemainServerRecords_twin (h : Twin k s s') :
    Relates (Twin k) (sendRemainServerRecords env s) (sendRemainServerRecords env s') := by
  have hcond := h.read (fun s => (s.conn.sess.handshakeState, s.conn.sess.tls13Ctx, s.conn.tcp.recvMigFin))
    fun _ _ _ => rfl
  simp only [Prod.mk.injEq] at hcond
  unfold sendRemainServerRecords
  dsimp only
  rw [hcond.1, hcond.2.1, hcond.2.2]
  refine .ite (fun _ => ?_) fun _ => .ite (fun _ => ?_) fun _ => .ite (fun _ => ?_) fun _ => .ok h
  · refine .bind (sendEncryptedExtensions_twin h) fun t t' ht => ?_
    refine .bind (sendCertificate_twin (setHandshakeState_twin ht _)) fun u u' hu => ?_
    refine .bind (signatureCertificate_twin (setHandshakeState_twin hu _)) ?_
    rintro ⟨_, x⟩ ⟨_, x'⟩ ⟨-, hx⟩
    exact .ok hx
  · refine .bind (sendCertificateVerify_twin h) fun t t' ht => ?_
    refine .bind (sendServerFinished_twin (setHandshakeState_twin ht _)) fun u u' hu => .ok ?_
    have hkeys : Twin k (handleVerifyDataCalculation env (handleAppKeysCalculation env u))
        (handleVerifyDataCalculation env (handleAppKeysCalculation env u')) :=
      handleVerifyDataCalculation_twin (handleAppKeysCalculation_twin hu)
    have hport := hkeys.read (·.conn.tcp.portid) fun _ _ _ => rfl
    rw [hport]
    exact sendKeyMeta_twin hkeys env _
  · exact .bind (sendPendingRecords_twin h) fun t t' ht => .ok (setHandshakeState_twin ht _)

end

end Xtls.Nic
