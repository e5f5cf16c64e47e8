import Xtls.Nic.TwinSend

/-!
# Reading records in two runs

The functions of `Unpack.lean` and `Handle.lean` keep two runs side by side: they do not look at the
number of a record nor at a sequence number of TCP.
-/

namespace Xtls.Nic

section

variable {env : Env} {k : Skew} {s s' : St} {r r' : Record}

/-! ### Decryption and unpacking -/

theorem RecordTwin.unpackHeader (hr : RecordTwin k r r') : RecordTwin k (unpackHeader r) (unpackHeader r') := by
  refine hr.map Nic.unpackHeader fun r n => ?_
  have hdata : ∀ i, byteAt { r with id := n }.data i = byteAt r.data i := fun _ => rfl
  unfold Nic.unpackHeader
  rw [hdata]
  split <;> rfl

theorem decrypted_twin (hr : RecordTwin k r r') (e : Session) (v : ConnWild) :
    Option.Rel (RecordTwin k) (decrypted env e r) (decrypted env (e.twin v) r') := by
  obtain ⟨n, rfl, hn⟩ := hr
  have hopen : aeadOpen env (e.twin v) { r with id := n } = aeadOpen env e r := rfl
  unfold decrypted
  rw [hopen]
  split
  · exact .none
  · exact .none
  · exact .some ⟨n, rfl, hn⟩

theorem decryptRecord_twin (h : Twin k s s') (hr : RecordTwin k r r') :
    Relates (Both (Option.Rel (RecordTwin k)) (Twin k)) (decryptRecord env r s) (decryptRecord env r' s') := by
  refine .bind (newSslCryptoOp_twin h) ?_
  rintro ⟨o, t⟩ ⟨_, t'⟩ ⟨rfl, ht⟩
  obtain ⟨v, w, hv, hw, rfl⟩ := id ht
  have hdec : Option.Rel (RecordTwin k) (decrypted env t.conn.sess r)
      (decrypted env (t.conn.sess.twin v) r') := decrypted_twin hr t.conn.sess v
  dsimp only
  have hread : decrypted env (t.twin v w).conn.sess r' = decrypted env (t.conn.sess.twin v) r' := rfl
  rw [hread]
  generalize decrypted env t.conn.sess r = x at hdec
  generalize decrypted env (t.conn.sess.twin v) r' = y at hdec
  cases hdec with
  | none => exact .ok ⟨.none, deleteRecord_twin (deleteOp_twin ht) hr⟩
  | some hr' =>
    exact .ok ⟨.some hr', deleteOp_twin (ht.mapSess
      (fun e => { e with clientWriteIvSeqNum := e.recvSeqNum + 1 }) fun _ _ => ⟨rfl, id⟩)⟩

theorem openRecord_twin (h : Twin k s s') (hr : RecordTwin k r r') :
    Relates (Both (Option.Rel (RecordTwin k)) (Twin k)) (openRecord env r s) (openRecord env r' s') := by
  obtain ⟨v, w, hv, hw, rfl⟩ := id h
  unfold openRecord
  refine .ite (fun _ => .ok ⟨.some (hr.map (fun r => { r with inPlace := true }) fun _ _ => rfl), h⟩) fun _ => ?_
  dsimp only
  have hactive : Relates (Both (Option.Rel (RecordTwin k)) (Twin k))
      (pure (some r, s) : Except Halt (Option Record × St)) (pure (some r', s.twin v w)) :=
    .ok ⟨.some hr, h⟩
  refine .ite (fun _ => hactive.bind ?_) fun _ => (decryptRecord_twin h hr).bind ?_
  all_goals
    rintro ⟨x, t⟩ ⟨x', t'⟩ ⟨hx, ht⟩
    cases hx with
    | none => exact .ok ⟨.none, deleteRecord_twin ht hr⟩
    | some hr' =>
      obtain ⟨v, w, hv, hw, rfl⟩ := id ht
      exact .ite (fun _ => .error _) fun _ => .ok ⟨.some hr', ht⟩

theorem unpackHandshake_twin (h : Twin k s s') (hr : RecordTwin k r r') :
    Relates (Both Eq (Both (RecordTwin k) (Twin k))) (unpackHandshake r s) (unpackHandshake r' s') := by
  obtain ⟨v, w, hv, hw, rfl⟩ := id h
  have hset : ∀ f, RecordTwin k { r with fragment := f } { r' with fragment := f } := fun f =>
    hr.map (fun r => { r with fragment := f }) fun _ _ => rfl
  have hmissing := (hset (.handshake (byteAt r.pf 0))).missingReturn hw.outside
  obtain ⟨n, rfl, hn⟩ := id hr
  unfold unpackHandshake
  dsimp only
  refine .ite (fun _ => .ite (fun _ => .ok ⟨hmissing.symm, hset _, h⟩) fun _ => ?_) fun _ => ?_
  · refine .bind_same fun ch => ?_
    cases ch with
    | none => exact .ok ⟨hmissing.symm, hset _, h⟩
    | some ch =>
      refine .bind (generateEcdheKeyPair_twin (h.mapSess _ fun _ _ => ⟨rfl, id⟩) (hset (.clientHello ch))) ?_
      rintro ⟨ret, t⟩ ⟨_, t'⟩ ⟨rfl, ht⟩
      exact .ok ⟨rfl, hset _, ht⟩
  · exact .ite (fun _ => .ok ⟨hmissing.symm, hset _, h⟩) fun _ => .ok ⟨rfl, hset _, h⟩

theorem unpackRecord_twin (h : Twin k s s') (hr : RecordTwin k r r') :
    Relates (Both Eq (Both (RecordTwin k) (Twin k))) (unpackRecord r s) (unpackRecord r' s') := by
  have htake : RecordTwin k (takeLength r) (takeLength r') := by
    refine hr.map takeLength fun r n => ?_
    unfold takeLength
    split <;> rfl
  have htype := htake.val (·.plainText.recordType) fun _ _ => rfl
  have hmajor := hr.val (·.plainText.version.major) fun _ _ => rfl
  unfold unpackRecord
  dsimp only at htype hmajor ⊢
  rw [htype, hmajor]
  refine .ite (fun _ => .ok ⟨rfl, hr, h⟩) fun _ => ?_
  split
  · exact unpackHandshake_twin h htake
  · exact .ok ⟨rfl, htake, h⟩
  · exact .ok ⟨rfl, htake.map unpackAlert fun _ _ => rfl, h⟩
  · have hret := htake.val (fun r => (unpackApplicationData r).1) fun r n => by
      unfold unpackApplicationData
      have hinner : innerType { r with id := n } = innerType r := rfl
      rw [hinner]
      split <;> rfl
    have hrec : RecordTwin k (unpackApplicationData (takeLength r)).2 (unpackApplicationData (takeLength r')).2 :=
      htake.map (fun r => (unpackApplicationData r).2) fun r n => by
        unfold unpackApplicationData
        have hinner : innerType { r with id := n } = innerType r := rfl
        rw [hinner]
        split <;> rfl
    exact .ok ⟨hret.symm, hrec, h⟩
  · exact .error _

/-! ### Handlers -/

theorem setPendingSp_twin (h : Twin k s s') (hr : RecordTwin k r r') (ch : ClientHello) (pub : Bytes) :
    Twin k (setPendingSp r ch pub s) (setPendingSp r' ch pub s') := by
  obtain ⟨v, w, hv, hw, rfl⟩ := id h
  obtain ⟨n, rfl, hn⟩ := id hr
  have hsp : setPendingSp { r with id := n } ch pub (s.twin v w) = (setPendingSp r ch pub s).twin v w := rfl
  rw [hsp]
  exact ⟨v, w, { hv with }, hw, rfl⟩

theorem answerClientHello_twin (h : Twin k s s') (hr : RecordTwin k r r')
    (hpub : s'.conn.sess.ecdhePubKey = s.conn.sess.ecdhePubKey) (ch : ClientHello) :
    Relates (Twin k) (answerClientHello env r ch s) (answerClientHello env r' ch s') := by
  have hpf := hr.val Record.pf fun _ _ => rfl
  unfold answerClientHello
  rw [hpf]
  split
  · exact .error _
  · refine .bind (sendServerHello_twin (setPendingSp_twin h hr ch _) hpub) fun t t' ht => ?_
    refine .bind (calculateSharedSecret_twin (setHandshakeState_twin ht _) _) ?_
    rintro ⟨_, u⟩ ⟨_, u'⟩ ⟨-, hu⟩
    exact .ok (hu.mapSess _ fun _ _ => ⟨rfl, id⟩)

/- The public key is looked at for a ClientHello only. -/
theorem handleHandshake_twin (h : Twin k s s') (hr : RecordTwin k r r')
    (hpub : (∀ ch, r.fragment ≠ .clientHello ch) ∨ s'.conn.sess.ecdhePubKey = s.conn.sess.ecdhePubKey) :
    Relates (Both Eq (Twin k)) (handleHandshake env r s) (handleHandshake env r' s') := by
  have hstored := hr.val (fun r => (r.fragment, slice r.pf 0 r.plainText.length.toNat)) fun _ _ => rfl
  simp only [Prod.mk.injEq] at hstored
  have hkey : ∀ {s t : St} {m : Byte} {b : Bytes}, storeHandshake m b s = .ok t →
      t.conn.sess.ecdhePubKey = s.conn.sess.ecdhePubKey := by
    intro s t m b ht
    rcases storeHandshake_cases ht with ⟨-, rfl⟩ | ⟨-, rfl⟩ <;> rfl
  unfold handleHandshake
  rw [hstored.1, hstored.2]
  refine (storeHandshake_twin h _ _).bind_of fun t t' hs hs' ht => ?_
  have hstate := ht.read (·.conn.sess.handshakeState) fun _ _ _ => rfl
  cases hf : r.fragment with
  | clientHello ch =>
    have hpub := hpub.resolve_left fun hno => hno ch hf
    dsimp only at hstate ⊢
    rw [hstate]
    refine .ite (fun _ => .ok ⟨rfl, deleteRecord_twin ht hr⟩) fun _ => ?_
    have hsame := (hkey hs').trans (hpub.trans (hkey hs).symm)
    exact .bind (answerClientHello_twin ht hr hsame ch) fun u u' hu => .ok ⟨rfl, deleteRecord_twin hu hr⟩
  | _ => exact .error _

theorem handleChangeCipherSpec_twin (h : Twin k s s') (hr : RecordTwin k r r') :
    Both Eq (Twin k) (handleChangeCipherSpec r s) (handleChangeCipherSpec r' s') := by
  have hstate := h.read (·.conn.sess.handshakeState) fun _ _ _ => rfl
  unfold handleChangeCipherSpec
  rw [hstate]
  dsimp only
  split
  · exact ⟨rfl, deleteRecord_twin h hr⟩
  · exact ⟨rfl, deleteRecord_twin (h.mapSess _ fun _ _ => ⟨rfl, id⟩) hr⟩

theorem handleAlert_twin (h : Twin k s s') (hr : RecordTwin k r r') :
    Relates (Both Eq (Twin k)) (handleAlert r s) (handleAlert r' s') := by
  have hfragment := hr.val Record.fragment fun _ _ => rfl
  have hdel := deleteRecord_twin h hr
  unfold handleAlert
  rw [hfragment]
  dsimp only
  split
  · exact .ite (fun _ => .bind (abortSession_twin hdel) fun t t' ht => .ok ⟨rfl, ht⟩) fun _ => .ok ⟨rfl, hdel⟩
  · exact .error _

theorem finishHandshake_twin (h : Twin k s s') : Twin k (finishHandshake s) (finishHandshake s') :=
  (h.mapSess (fun e => { e with handshakeState := .finished, state := .active }) fun _ _ => ⟨rfl, id⟩).mapTcp
    (fun t => { t with onload := true }) fun _ _ => ⟨rfl, rfl, rfl⟩

theorem handleApplicationData_twin (h : Twin k s s') (hr : RecordTwin k r r') :
    Relates (Both Eq (Twin k)) (handleApplicationData r s) (handleApplicationData r' s') := by
  have hinner := hr.val innerType fun _ _ => rfl
  have hvd := hr.val receivedVerifyData fun _ _ => rfl
  have hdel := deleteRecord_twin h hr
  have hfin := finishHandshake_twin h
  have hstate := h.read (·.conn.sess.handshakeState) fun _ _ _ => rfl
  have hcalc := hfin.read (·.conn.sess.tls13Ctx.calculatedVd) fun _ _ _ => rfl
  unfold handleApplicationData
  dsimp only at hstate hcalc ⊢
  rw [hinner, hvd, hstate, hcalc]
  refine .ite (fun _ => .ok ⟨rfl, hdel⟩) fun _ => .ite (fun _ => ?_) fun _ => .ok ⟨rfl, hdel⟩
  refine .ite (fun _ => .ok ⟨rfl, hdel⟩) fun _ => .ite (fun _ => ?_) fun _ => ?_
  · refine .bind (removeHws_twin hfin) fun t t' ht => ?_
    exact .bind (abortSession_twin ht) fun u u' hu => .ok ⟨rfl, hu⟩
  · exact .ok ⟨rfl, deleteRecord_twin (sendTcpPacket_twin hfin _ _) hr⟩

theorem handleReadRecord_twin (h : Twin k s s') (hr : RecordTwin k r r')
    (hpub : (∀ ch, r.fragment ≠ .clientHello ch) ∨ r.plainText.recordType ≠ some .handshake
      ∨ s'.conn.sess.ecdhePubKey = s.conn.sess.ecdhePubKey) :
    Relates (Both Eq (Twin k)) (handleReadRecord env r s) (handleReadRecord env r' s') := by
  have htype := hr.val (·.plainText.recordType) fun _ _ => rfl
  unfold handleReadRecord
  rw [htype]
  split
  · rename_i ht
    refine handleHandshake_twin h hr (hpub.imp id fun hpub => hpub.resolve_left fun hne => hne ht)
  · exact .ok (handleChangeCipherSpec_twin h hr)
  · exact handleAlert_twin h hr
  · exact handleApplicationData_twin h hr
  · exact .ok ⟨rfl, h⟩

theorem retransmittedHello_twin (h : Twin k s s') (hr : RecordTwin k r r') :
    Twin k (retransmittedHello env r s) (retransmittedHello env r' s') := by
  have hcond := h.read (fun s => (s.conn.sess.handshakeState, s.conn.sess.tls13Ctx.certSignatured,
    s.conn.tcp.portid)) fun _ _ _ => rfl
  simp only [Prod.mk.injEq] at hcond
  obtain ⟨hstate, hsigned, hport⟩ := hcond
  have hagain : ∀ (p : Prop) [Decidable p], Twin k
      (if p then (sendKeyMeta env (s.conn.tcp.portid + 1) s).mapSess fun e =>
        { e with numOfRetransmittedMetaPkt := e.numOfRetransmittedMetaPkt + 1 } else s)
      (if p then (sendKeyMeta env (s.conn.tcp.portid + 1) s').mapSess fun e =>
        { e with numOfRetransmittedMetaPkt := e.numOfRetransmittedMetaPkt + 1 } else s') := by
    intro p _
    split
    · exact (sendKeyMeta_twin h env _).mapSess _ fun _ _ => ⟨rfl, id⟩
    · exact h
  unfold retransmittedHello
  dsimp only
  rw [hstate, hsigned, hport]
  refine deleteRecord_twin (Twin.mapSess ?_ _ fun _ _ => ⟨rfl, id⟩) hr
  have hrecords := (hagain (s.conn.sess.handshakeState = .certificateVerify
    ∧ s.conn.sess.tls13Ctx.certSignatured = true)).read (·.conn.sess.serverRecords) fun _ _ _ => rfl
  rw [hrecords]
  split
  · exact sendTcpPacket_twin (hagain _) _ _
  · exact hagain _

/-! ### Reading -/

theorem readRecord_twin (h : Twin k s s') (hr : RecordTwin k r r') :
    Relates (Both Eq (Twin k)) (readRecord env r s) (readRecord env r' s') := by
  refine .bind (openRecord_twin h hr.unpackHeader) ?_
  rintro ⟨x, t⟩ ⟨x', t'⟩ ⟨hx, ht⟩
  cases hx with
  | none => exact .ok ⟨rfl, ht⟩
  | some hx =>
    refine .bind (unpackRecord_twin ht hx) ?_
    rintro ⟨ret, r1, u⟩ ⟨_, r1', u'⟩ ⟨rfl, hr1, hu⟩
    have htype := hr1.val (fun r => (r.plainText.recordType, r.fragment)) fun _ _ => rfl
    simp only [Prod.mk.injEq] at htype
    obtain ⟨htype, hfragment⟩ := htype
    dsimp only at htype hfragment ⊢
    rw [htype, hfragment]
    refine .ite (fun _ => .ok ⟨rfl, hu⟩) fun _ => .ite (fun _ => .ok ⟨rfl, hu⟩) fun hnot => ?_
    refine handleReadRecord_twin hu hr1 ?_
    -- a ClientHello has been given to the PKA core and is not handled here
    by_cases ht : r1.plainText.recordType = some .handshake
    · refine .inl fun ch hch => hnot ⟨ht, ?_⟩
      rw [hch]
      rfl
    · exact .inr (.inl ht)

theorem processReadRecord_twin (h : Twin k s s') (hr : RecordTwin k r r') (rest : Nat) :
    Relates (Both Eq (Twin k)) (processReadRecord env rest r s) (processReadRecord env rest r' s') := by
  have hnote := h.note [.read s.conn r rest s.ctx.ringRoom] [.read s'.conn r' rest s'.ctx.ringRoom] rfl
  obtain ⟨v, w, hv, hw, rfl⟩ := h
  obtain ⟨n, rfl, hn⟩ := id hr
  exact .ite (fun _ => .ok ⟨rfl, retransmittedHello_twin hnote hr⟩) fun _ => readRecord_twin hnote hr

theorem Twin.recvQ (h : Twin k s s') : List.Forall₂ (RecordTwin k) s.conn.sess.recvQ s'.conn.sess.recvQ := by
  obtain ⟨v, w, hv, -, rfl⟩ := h
  exact hv.recvQ

theorem Twin.setRecvQ (h : Twin k s s') {q q' : List Record} (hq : List.Forall₂ (RecordTwin k) q q') :
    Twin k (s.mapSess fun e => { e with recvQ := q }) (s'.mapSess fun e => { e with recvQ := q' }) := by
  obtain ⟨v, w, hv, hw, rfl⟩ := h
  exact ⟨{ v with recvQ := q' }, w, { hv with recvQ := hq }, hw, rfl⟩

theorem processSessionReadLoop_twin (fuel : Nat) : ∀ {s s' : St}, Twin k s s' →
    Relates (Twin k) (processSessionReadLoop env fuel s) (processSessionReadLoop env fuel s') := by
  induction fuel with
  | zero => exact fun h => .ok h
  | succ fuel ih =>
    intro s s' h
    have hwait := h.read (·.conn.sess.waitingCrypto) fun _ _ _ => rfl
    have hq := h.recvQ
    unfold processSessionReadLoop
    rw [hwait]
    refine .ite (fun _ => .ok h) fun _ => ?_
    generalize s.conn.sess.recvQ = q at hq
    generalize s'.conn.sess.recvQ = q' at hq
    cases hq with
    | nil => exact .ok h
    | cons hr hq =>
      refine .bind (processReadRecord_twin (h.setRecvQ hq) hr 0) ?_
      rintro ⟨_, t⟩ ⟨_, t'⟩ ⟨-, ht⟩
      exact ih ht

theorem processSessionRead_twin (h : Twin k s s') :
    Relates (Twin k) (processSessionRead env s) (processSessionRead env s') := by
  unfold processSessionRead
  rw [h.recvQ.length_eq]
  exact processSessionReadLoop_twin _ h

/-! ### PKA results -/

theorem finishCrypto_twin (h : Twin k s s') (o : OpId) : Twin k (finishCrypto o s) (finishCrypto o s') :=
  deleteOp_twin (h.mapSess (fun e => { e with waitingCrypto := false, completedCrypto := false })
    fun _ _ => ⟨rfl, fun he => absurd he nofun⟩)

theorem clearPending_twin (h : Twin k s s') : Twin k (clearPending s) (clearPending s') :=
  h.mapSess _ fun _ _ => ⟨rfl, id⟩

theorem getProcessedCrypto_twin (h : Twin k s s') :
    Relates (Twin k) (getProcessedCrypto env s) (getProcessedCrypto env s') := by
  obtain ⟨v, w, hv, hw, rfl⟩ := id h
  unfold getProcessedCrypto
  refine .ite (fun _ => .ok h) fun hcomp => ?_
  have hop : (s.twin v w).conn.sess.pkaOp = s.conn.sess.pkaOp := hv.pkaOp (by simpa using hcomp)
  have hstate : (s.twin v w).conn.sess.handshakeState = s.conn.sess.handshakeState := rfl
  rw [hop, hstate]
  split
  · exact .error _
  · rename_i o ho
    have hclear := clearPending_twin h
    split
    · obtain ⟨hkey, hpub⟩ := handleAfterEcdheKeyGen_twin hclear
      obtain ⟨_, _, _, data, he, hdata⟩ := hw.ops o
      have hread : ((s.twin v w).ctx.ops o).data = data := congrArg Op.data he
      dsimp only
      rw [hread]
      generalize (s.ctx.ops o).data = x at hdata
      cases hdata with
      | none => exact .error _
      | some hr =>
        refine .bind (handleReadRecord_twin hkey hr (.inr (.inr hpub))) ?_
        rintro ⟨ret, t⟩ ⟨_, t'⟩ ⟨rfl, ht⟩
        exact .ite (fun _ => .ok ht) fun _ => .ok (finishCrypto_twin ht o)
    · exact .ok (finishCrypto_twin (handleAfterEcdheSharedSecretCalc_twin hclear) o)
    · exact .ok (finishCrypto_twin (handleAfterEcdsaSignature_twin hclear) o)
    · exact .error _

/-! ### Reassembly -/

theorem Twin.setCurrent (h : Twin k s s') {c c' : Option Record} (hc : Option.Rel (RecordTwin k) c c') :
    Twin k (s.mapSess fun e => { e with currentReadRecord := c })
      (s'.mapSess fun e => { e with currentReadRecord := c' }) := by
  obtain ⟨v, w, hv, hw, rfl⟩ := h
  exact ⟨{ v with currentReadRecord := c' }, w, { hv with currentReadRecord := hc }, hw, rfl⟩

theorem Twin.current (h : Twin k s s') :
    Option.Rel (RecordTwin k) s.conn.sess.currentReadRecord s'.conn.sess.currentReadRecord := by
  obtain ⟨v, w, hv, -, rfl⟩ := h
  exact hv.currentReadRecord

theorem takeRecord_twin (h : Twin k s s') (hr : RecordTwin k r r') (rest : Nat) :
    Relates (Twin k) (takeRecord env rest r s) (takeRecord env rest r' s') := by
  have hwait := h.read (·.conn.sess.waitingCrypto) fun _ _ _ => rfl
  unfold takeRecord
  rw [hwait]
  refine .ite (fun _ => .ok ?_) fun _ => ?_
  · exact h.setRecvQ (List.rel_append h.recvQ (.cons hr .nil))
  · refine .bind (processReadRecord_twin h hr rest) ?_
    rintro ⟨_, t⟩ ⟨_, t'⟩ ⟨-, ht⟩
    exact .ok ht

theorem handOn_twin (h : Twin k s s') (hr : RecordTwin k r r') (rest : Nat) :
    Relates (Twin k) (handOn env rest r s) (handOn env rest r' s') := by
  have hid := h.read (·.conn.id) fun _ _ _ => rfl
  have hdata := hr.val Record.data fun _ _ => rfl
  have hsame : delivered [.complete s'.conn.id r'] = delivered [.complete s.conn.id r] := by
    simp only [delivered, List.filterMap_cons, List.filterMap_nil, hid, hdata]
  have hnote := h.note [.complete s.conn.id r] [.complete s'.conn.id r'] hsame
  exact .bind (takeRecord_twin hnote hr rest) fun t t' ht => .ok (ht.setCurrent .none)

theorem currentRecord_twin (h : Twin k s s') (pkt : Bytes) :
    Relates (Both (RecordTwin k) (Twin k)) (currentRecord pkt s) (currentRecord pkt s') := by
  have hcur := h.current
  unfold currentRecord
  generalize s.conn.sess.currentReadRecord = c at hcur
  generalize s'.conn.sess.currentReadRecord = c' at hcur
  cases hcur with
  | some hr => exact .ok ⟨hr, h⟩
  | none =>
    refine .bind (newRecord_twin h 0) ?_
    rintro ⟨r, t⟩ ⟨r', t'⟩ ⟨hr, ht⟩
    exact .ite (fun _ => .error _) fun _ =>
      .ok ⟨hr.map (fun r => { r with length := (be16 pkt 3).toNat + recordHeaderSize }) fun _ _ => rfl, ht⟩

theorem newRecordRound_twin (h : Twin k s s') (pkt : Bytes) :
    Relates (Both Eq (Twin k)) (newRecordRound env pkt s) (newRecordRound env pkt s') := by
  refine .bind (currentRecord_twin h pkt) ?_
  rintro ⟨r, t⟩ ⟨r', t'⟩ ⟨hr, ht⟩
  obtain ⟨m, rfl, hm⟩ := hr
  have hmore : RecordTwin k { r with data := r.data ++ pkt.take (min (r.length - r.data.length) pkt.length) }
      { r with id := m, data := r.data ++ pkt.take (min (r.length - r.data.length) pkt.length) } := ⟨m, rfl, hm⟩
  have hset := ht.setCurrent (.some hmore)
  exact .bind (.ite (fun _ => handOn_twin hset hmore _) fun _ => .ok hset) fun u u' hu => .ok ⟨rfl, hu⟩

theorem processNewRecordLoop_twin (fuel : Nat) : ∀ {s s' : St} (pkt : Bytes), Twin k s s' →
    Relates (Twin k) (processNewRecordLoop env fuel pkt s) (processNewRecordLoop env fuel pkt s') := by
  induction fuel with
  | zero => exact fun _ _ => .error _
  | succ fuel ih =>
    intro s s' pkt h
    have hnone : s'.conn.sess.currentReadRecord.isNone = s.conn.sess.currentReadRecord.isNone := by
      have hcur := h.current
      generalize s.conn.sess.currentReadRecord = c at hcur
      generalize s'.conn.sess.currentReadRecord = c' at hcur
      cases hcur <;> rfl
    unfold processNewRecordLoop
    rw [hnone]
    refine .ite (fun _ => .ok h) fun _ => .ite (fun _ => .ok h) fun _ => ?_
    refine .bind (newRecordRound_twin h pkt) ?_
    rintro ⟨pkt, t⟩ ⟨_, t'⟩ ⟨rfl, ht⟩
    exact ih pkt ht

theorem processSslPacket_twin (h : Twin k s s') (payload : Bytes) :
    Relates (Both Eq (Twin k)) (processSslPacket env payload s) (processSslPacket env payload s') := by
  unfold processSslPacket
  refine .ite (fun _ => .ok ⟨rfl, h⟩) fun _ => ?_
  refine .bind (processNewRecordLoop_twin _ payload h) fun t t' ht => .ok ⟨?_, ht⟩
  have hcur := ht.current
  generalize t.conn.sess.currentReadRecord = c at hcur
  generalize t'.conn.sess.currentReadRecord = c' at hcur
  cases hcur <;> rfl

end

end Xtls.Nic
