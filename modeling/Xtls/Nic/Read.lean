import Xtls.Nic.Records
import Xtls.Nic.Extensions

/-!
# What reading a record can do

`process_read_record` decrypts, parses and handles one record.  `ReadOutcome` lists everything that
can come of it, with the conditions on the session and the record under which it does;
`processReadRecord_outcome` is the inversion lemma every invariant below is derived from.
-/

namespace Xtls.Nic

/- The record as `decrypt_record` and the length rule of `unpack_record` leave it. -/
def opened (env : Env) (e : Session) (r : Record) : Option Record :=
  let r := unpackHeader r
  (if e.readSp.bulkCipherAlgorithm = .noCipher then some { r with inPlace := true }
    else if e.state = .active then some r else decrypted env e r).map takeLength

/-- `r` reaches the parser for records of type `type`, as `r1`. -/
structure ReadAs (env : Env) (e : Session) (r : Record) (type : ContentType) (r1 : Record) :
    Prop where
  opened : opened env e r = some r1
  version : r1.plainText.version.major = 0x03
  recordType : r1.plainText.recordType = some type

def Record.verifyData (r : Record) : Bytes := slice r.pf handshakeHeaderSize 48

def Record.fatalAlert (r : Record) : Bool := byteAt r.pf 0 = 2 ∨ byteAt r.pf 1 = 0

def Record.content (r : Record) : Bytes := slice r.data recordHeaderSize (be16 r.data 3).toNat

def Record.message (r : Record) : Bytes := slice r.pf 0 r.plainText.length.toNat

def Record.parsesHello (r : Record) : Bool :=
  byteAt r.pf 0 == HandshakeType.clientHello.code && r.plainText.version == ⟨0x03, 0x01⟩
    && match unpackClientHello r.pf r.plainText.length.toNat with
      | .ok (some _) => true
      | _ => false

/-- `process_read_record` gets past `unpack_record` with the record. -/
def usable (env : Env) (e : Session) (r : Record) : Bool :=
  match opened env e r with
  | none => false
  | some r1 =>
    r1.plainText.version.major == 0x03 && match r1.plainText.recordType with
      | some .handshake => r1.parsesHello
      | some .applicationData => innerType r1 == ContentType.handshake.code
      | _ => true

def retransmits (e : Session) (r : Record) : Bool :=
  .clientHello ≤ e.handshakeState ∧ byteAt r.data 0 = ContentType.handshake.code

/- The two ways in which a record ends its session: a fatal alert or a close, and a Finished that
does not match. -/
def closes (env : Env) (e : Session) (r : Record) : Bool :=
  match opened env e r with
  | none => false
  | some r1 =>
    r1.plainText.version.major == 0x03 && r1.plainText.recordType == some .alert && r1.fatalAlert

def refuses (env : Env) (e : Session) (r : Record) : Bool :=
  match opened env e r with
  | none => false
  | some r1 =>
    r1.plainText.version.major == 0x03 && r1.plainText.recordType == some .applicationData
      && innerType r1 == ContentType.handshake.code && !decide (.finished ≤ e.handshakeState)
      && e.tls13Ctx.calculatedVd != r1.verifyData

/-- What becomes of a record that has no effect. -/
inductive Fate (env : Env) (r : Record) (s s' : St) : Prop
  | returned (ledger : Returns [r.slot] s.ctx s'.ctx)
  | lost (ledger : Returns [] s.ctx s'.ctx) (new : retransmits s.conn.sess r = false)
      (why : usable env s.conn.sess r = false
        ∨ byteAt r.data 0 = ContentType.handshake.code ∧ s.ctx.ringRoom = false)
  | twice (ledger : Returns [r.slot, r.slot] s.ctx s'.ctx) (new : retransmits s.conn.sess r = false)
      (why : opened env s.conn.sess r = none)

def changeSpec (s : St) : St :=
  s.mapSess fun e =>
    { e with handshakeState := .clientCipherSpec, recvSeqNum := 0, readSp := e.pendingSp }

/-- What `process_read_record` does to the connection and the core, and to the record. -/
inductive ReadOutcome (env : Env) (r : Record) (s : St) : St → Prop
  | dropped {s' : St} (frame : Frame s s') (fate : Fate env r s s') : ReadOutcome env r s s'
  | hello {s1 s' : St} {r1 : Record} {ch : ClientHello} {o : OpId}
      (read : ReadAs env s.conn.sess r .handshake r1)
      (state : s.conn.sess.handshakeState = .helloRequest)
      (parsed : unpackClientHello r1.pf r1.plainText.length.toNat = .ok (some ch))
      (frame : Frame s s1) (named : s1.conn.sess.id_ = ch.sessionId)
      (submits : Submits { opcode := .ecdheKeyGeneration
                           data := some { r1 with fragment := .clientHello ch } } o s1 s')
      (slot : r1.slot = r.slot) (ledger : Returns [] s.ctx s1.ctx)
      (ledger' : Returns [] s1.ctx s'.ctx) : ReadOutcome env r s s'
  | cipherSpec {s1 s' : St} {r1 : Record}
      (read : ReadAs env s.conn.sess r .changeCipherSpec r1)
      (state : s.conn.sess.handshakeState = .finished
        ∨ ¬ .clientCipherSpec ≤ s.conn.sess.handshakeState)
      (frame : Frame s s1) (frame' : Frame (changeSpec s1) s')
      (ledger : Returns [] s.ctx s1.ctx) (ledger' : Returns [r.slot] s1.ctx s'.ctx) :
      ReadOutcome env r s s'
  | alert {s1 s' : St} {r1 : Record}
      (read : ReadAs env s.conn.sess r .alert r1) (fatal : r1.fatalAlert)
      (frame : Frame s s1) (removed : removeSession s1 = .ok s')
      (ledger : Returns [r.slot] s.ctx s1.ctx) : ReadOutcome env r s s'
  | finished {s1 s' : St} {r1 : Record}
      (read : ReadAs env s.conn.sess r .applicationData r1)
      (inner : innerType r1 = ContentType.handshake.code)
      (state : ¬ .finished ≤ s.conn.sess.handshakeState)
      (verified : s.conn.sess.tls13Ctx.calculatedVd = r1.verifyData)
      (frame : Frame s s1) (frame' : Frame (finishHandshake s1) s')
      (ledger : Returns [] s.ctx s1.ctx) (ledger' : Returns [r.slot] s1.ctx s'.ctx) :
      ReadOutcome env r s s'
  | refused {s1 s2 s3 s' : St} {r1 : Record}
      (read : ReadAs env s.conn.sess r .applicationData r1)
      (inner : innerType r1 = ContentType.handshake.code)
      (state : ¬ .finished ≤ s.conn.sess.handshakeState)
      (verified : s.conn.sess.tls13Ctx.calculatedVd ≠ r1.verifyData)
      (frame : Frame s s1) (hws : removeHws (finishHandshake s1) = .ok s2)
      (frame' : Frame s2 s3) (removed : removeSession s3 = .ok s')
      (ledger : Returns [] s.ctx s1.ctx) (ledger' : Returns [] s2.ctx s3.ctx) : ReadOutcome env r s s'

section

variable {env : Env} {s s' : St} {r r1 : Record} {e : Session} {type : ContentType}

theorem unpackHeader_slot (r : Record) : (unpackHeader r).slot = r.slot := by
  unfold unpackHeader
  split <;> rfl

theorem takeLength_slot (r : Record) : (takeLength r).slot = r.slot := by
  unfold takeLength
  split <;> rfl

theorem decrypted_slot (h : decrypted env e r = some r1) : r1.slot = r.slot := by
  unfold decrypted at h
  split at h <;> cases h
  rfl

theorem opened_slot (h : opened env e r = some r1) : r1.slot = r.slot := by
  unfold opened at h
  obtain ⟨q, hq, rfl⟩ := Option.map_eq_some_iff.mp h
  rw [takeLength_slot, ← unpackHeader_slot r]
  split at hq
  · cases hq
    rfl
  · split at hq
    · cases hq
      rfl
    · exact decrypted_slot hq

theorem ReadAs.content (h : ReadAs env e r type r1) (hclear : e.readSp.bulkCipherAlgorithm = .noCipher) :
    r1.message = r.content := by
  obtain ⟨hopen, hversion, -⟩ := h
  simp only [Nic.opened, if_pos hclear, Option.map_some, takeLength, if_true] at hopen
  cases hopen
  unfold unpackHeader at hversion ⊢
  cases htype : ContentType.ofByte (byteAt r.data 0) with
  | none =>
    rw [htype] at hversion
    have hversion : (0x02 : Byte) = 0x03 := hversion
    exact absurd hversion (by decide)
  | some type =>
    show slice (r.data.drop recordHeaderSize) 0 (be16 r.data 3).toNat = _
    rw [slice, List.drop_zero]
    rfl

theorem decryptRecord_cases {x : Option Record} (h : decryptRecord env r s = .ok (x, s')) :
    Frame s s' ∧ x = decrypted env s.conn.sess r
      ∧ Returns (if x.isSome then [] else [r.slot]) s.ctx s'.ctx := by
  obtain ⟨⟨o, t⟩, ho, h⟩ := bind_ok h
  obtain ⟨pool, -, rfl⟩ := newSslCryptoOp_cases ho
  dsimp only at h
  split at h <;> rename_i hx <;> cases h
  · have hcycle : Frame s _ := ⟨⟨cryptoCycle_frame (f := id) ho rfl (fun _ => rfl) rfl, rfl⟩, rfl, .none rfl⟩
    exact ⟨hcycle.trans (deleteRecord_frame _ _), hx.symm, .refl _, rfl⟩
  · exact ⟨⟨⟨cryptoCycle_frame ho rfl (fun _ => rfl) rfl, rfl⟩, rfl, .none rfl⟩, hx.symm, .quiet rfl rfl⟩

/- A record that cannot be decrypted is deleted by `decrypt_record` and once more by its caller. -/
theorem openRecord_cases {x : Option Record} (h : openRecord env (unpackHeader r) s = .ok (x, s')) :
    Frame s s' ∧ opened env s.conn.sess r = x.map takeLength
      ∧ Returns (if x.isSome then [] else [r.slot, r.slot]) s.ctx s'.ctx := by
  unfold openRecord at h
  unfold opened
  dsimp only at h ⊢
  split at h
  · rename_i hplain
    cases h
    refine ⟨.refl s, ?_, .refl _⟩
    simp only [hplain, if_true]
  · rename_i hcipher
    simp only [hcipher, if_false]
    split at h <;> rename_i hactive
    · obtain ⟨⟨y, t⟩, hy, h⟩ := bind_ok h
      cases hy
      dsimp only at h
      split at h <;> cases h
      refine ⟨.refl s, ?_, .refl _⟩
      simp only [hactive, if_true]
    · obtain ⟨⟨y, t⟩, hy, h⟩ := bind_ok h
      obtain ⟨hframe, rfl, hret⟩ := decryptRecord_cases hy
      simp only [hactive, if_false]
      dsimp only at h
      split at h <;> rename_i hd
      · cases h
        rw [hd, unpackHeader_slot] at hret
        have hdel := deleteRecord_returns (unpackHeader r) t
        rw [unpackHeader_slot] at hdel
        exact ⟨hframe.trans (deleteRecord_frame _ _), by rw [hd], hret.trans hdel⟩
      · rw [hd] at hret
        split at h <;> cases h
        exact ⟨hframe, by rw [hd], hret⟩

theorem handleChangeCipherSpec_outcome {t : St}
    (hread : ReadAs env s.conn.sess r .changeCipherSpec r1) (hf : Frame s t)
    (hret : Returns [] s.ctx t.ctx) : ReadOutcome env r s (handleChangeCipherSpec r1 t).2 := by
  have hdel : Returns [r.slot] t.ctx (deleteRecord r1 t).ctx :=
    opened_slot hread.opened ▸ deleteRecord_returns r1 t
  have hh := hf.handshakeState
  unfold handleChangeCipherSpec
  dsimp only
  split
  · exact .dropped (hf.trans (deleteRecord_frame _ _)) (.returned (hret.trans hdel))
  · rename_i hstate
    rw [hh] at hstate
    have hspec : Frame (changeSpec t) _ :=
      (Frame.mapSess (f := fun e => { e with clientWriteIvSeqNum := 0 }) rfl rfl rfl rfl).trans
        (deleteRecord_frame r1 _)
    exact .cipherSpec hread (by tauto) hf hspec hret hdel

theorem handleAlert_outcome {t : St} {ret : Int}
    (hread : ReadAs env s.conn.sess r .alert r1) (hf : Frame s t) (hret : Returns [] s.ctx t.ctx)
    (h : handleAlert (unpackAlert r1) t = .ok (ret, s')) : ReadOutcome env r s s' := by
  have hdel : Returns [r.slot] s.ctx (deleteRecord r1 t).ctx :=
    opened_slot hread.opened ▸ hret.trans (deleteRecord_returns r1 t)
  unfold handleAlert unpackAlert at h
  dsimp only at h
  split at h
  · rename_i hfatal
    obtain ⟨u, hu, h⟩ := bind_ok h
    cases h
    exact .alert hread (by simp [Record.fatalAlert, hfatal])
      (hf.trans ((deleteRecord_frame _ _).trans (sendTcpEmpty_frame _ _))) hu
      (hdel.trans (sendTcpPacket_returns _ _ _))
  · cases h
    exact .dropped (hf.trans (deleteRecord_frame _ _)) (.returned hdel)

theorem handleApplicationData_outcome {t : St} {ret : Int}
    (hread : ReadAs env s.conn.sess r .applicationData r1) (hf : Frame s t)
    (hret : Returns [] s.ctx t.ctx) (hinner : innerType r1 = ContentType.handshake.code)
    (h : handleApplicationData { r1 with fragment := .finished (slice r1.pf handshakeHeaderSize 48) } t
      = .ok (ret, s')) : ReadOutcome env r s s' := by
  have hh := hf.handshakeState
  have hk := hf.tls13Ctx
  have hslot : r1.slot = r.slot := opened_slot hread.opened
  have hdel : Returns [r.slot] s.ctx (deleteRecord r1 t).ctx :=
    hslot ▸ hret.trans (deleteRecord_returns r1 t)
  have hinner' : ∀ f, innerType { r1 with fragment := f } = ContentType.handshake.code :=
    fun _ => hinner
  unfold handleApplicationData at h
  simp only [hinner'] at h
  split at h
  · rename_i hc
    exact absurd hc (by decide)
  · simp only [if_true] at h
    split at h
    · cases h
      exact .dropped (hf.trans (deleteRecord_frame _ _)) (.returned hdel)
    · rename_i hstate
      rw [hh] at hstate
      split at h <;> rename_i hvd
      · obtain ⟨u, hu, h⟩ := bind_ok h
        obtain ⟨v, hv, h⟩ := bind_ok h
        cases h
        exact .refused hread hinner hstate (hk ▸ hvd) hf hu (sendTcpEmpty_frame _ _) hv hret
          (sendTcpPacket_returns _ _ _)
      · cases h
        have hsend := sendTcpPacket_returns TCP_FLAG_ACK [] (finishHandshake t)
        exact .finished hread hinner hstate (hk ▸ not_not.mp hvd) hf
          ((sendTcpEmpty_frame _ _).trans (deleteRecord_frame _ _))
          hret (hslot ▸ hsend.trans (deleteRecord_returns _ _))

theorem unpackClientHello_id {pf : Bytes} {fin : Nat} {ch : ClientHello}
    (h : unpackClientHello pf fin = .ok (some ch)) :
    (byteAt pf 38).toNat ≤ 32 ∧ ch.sessionId = overwrite (zeros 32) (slice pf 39 (byteAt pf 38).toNat) := by
  obtain ⟨⟨offset, fixed⟩, hfixed, h⟩ := bind_ok h
  have hid : (byteAt pf 38).toNat ≤ 32
      ∧ fixed.sessionId = overwrite (zeros 32) (slice pf 39 (byteAt pf 38).toNat) := by
    unfold unpackHelloFixed at hfixed
    dsimp only at hfixed
    split at hfixed
    · cases hfixed
    · rename_i hle
      cases hfixed
      exact ⟨Nat.not_lt.mp hle, rfl⟩
  dsimp only at h
  split at h
  · cases h
  · split at h
    · cases h
    · rename_i ch' hext
      cases h
      have hsame : ch.sessionId = fixed.sessionId := (congrArg Prod.fst (unpackExtensions_fixed hext) :)
      rw [hsame]
      exact hid

theorem unpackClientHello_sessionId {pf : Bytes} {fin : Nat} {ch : ClientHello}
    (h : unpackClientHello pf fin = .ok (some ch)) : ch.sessionId.length = 32 := by
  obtain ⟨hle, hid⟩ := unpackClientHello_id h
  rw [hid, overwrite, List.length_append, List.length_drop, slice_length, zeros_length]
  omega

/- Of the messages `unpack_handshake` accepts, only a complete ClientHello has an effect. -/
theorem unpackHandshake_cases {t t' : St} {q q' : Record} {ret : Int} (hun : t.conn.sess.Unasked)
    (h : unpackHandshake q t = .ok (ret, q', t')) :
    (t' = t ∧ q'.fragment = .handshake (byteAt q.pf 0) ∧ q'.plainText = q.plainText
      ∧ q.parsesHello = false)
    ∨ ∃ ch, unpackClientHello q.pf q.plainText.length.toNat = .ok (some ch)
        ∧ q' = { q with fragment := .clientHello ch } ∧ Returns [] t.ctx t'.ctx
        ∧ ((ret = -1 ∧ Frame t t' ∧ t.ctx.ringRoom = false) ∨ ∃ u o, Frame t u ∧ u.ctx = t.ctx ∧
            u.conn.sess.id_ = ch.sessionId ∧ Submits { opcode := .ecdheKeyGeneration, data := some q' } o u t') := by
  unfold unpackHandshake at h
  dsimp only at h
  split at h
  · rename_i hmsg
    split at h
    · rename_i hver
      cases h
      exact .inl ⟨rfl, rfl, rfl, by simp [Record.parsesHello, hver]⟩
    · obtain ⟨x, hx, h⟩ := bind_ok h
      cases x with
      | none =>
        cases h
        exact .inl ⟨rfl, rfl, rfl, by simp [Record.parsesHello, hx]⟩
      | some ch =>
        obtain ⟨⟨ret', u⟩, hreq, h⟩ := bind_ok h
        cases h
        have hid : Frame t (t.mapSess fun e => { e with id_ := ch.sessionId }) :=
          ⟨⟨⟨rfl, rfl, rfl, .inl rfl, .inl rfl, fun _ => rfl, rfl, .refl _,
            .inr ⟨hun, unpackClientHello_sessionId hx⟩⟩, rfl⟩, rfl, .none rfl⟩
        have hret := requestPka_returns (s := t.mapSess fun e => { e with id_ := ch.sessionId }) hreq
        refine .inr ⟨ch, hx, rfl, hret, ?_⟩
        rcases requestPka_cases hreq with ⟨hret, _, hrej⟩ | ⟨-, o, hs⟩
        · refine .inl ⟨hret, hid.trans hrej.frame, ?_⟩
          have hfull : t.ctx.ringCnt ≤ t.ctx.submitPkaRing.length + 1 := hrej.full
          simp [Ctx.ringRoom, hfull]
        · exact .inr ⟨_, o, hid, rfl, rfl, hs⟩
  · rename_i hmsg
    have hno : q.parsesHello = false := by simp [Record.parsesHello, hmsg]
    split at h <;> cases h <;> exact .inl ⟨rfl, rfl, rfl, hno⟩

theorem handleHandshake_ok {t : St} {ret : Int} {q : Record}
    (h : handleHandshake env q t = .ok (ret, s')) : ∃ ch, q.fragment = .clientHello ch := by
  obtain ⟨u, -, h⟩ := bind_ok h
  split at h
  · rename_i ch hch
    exact ⟨ch, hch⟩
  · cases h

theorem takeLength_version (r : Record) : (takeLength r).plainText.version = r.plainText.version := by
  unfold takeLength
  split <;> rfl

theorem lt_clientHello {h : HandshakeType} (hh : ¬ .clientHello ≤ h) : h = .helloRequest := by
  cases h <;> first | rfl | exact absurd (by decide) hh

theorem takeLength_recordType (r : Record) :
    (takeLength r).plainText.recordType = r.plainText.recordType := by
  unfold takeLength
  split <;> rfl

theorem decrypted_plainText (h : decrypted env e r = some r1) : r1.plainText = r.plainText := by
  unfold decrypted at h
  split at h <;> cases h
  rfl

theorem opened_header (h : opened env e r = some r1) :
    r1.plainText.recordType = (unpackHeader r).plainText.recordType
      ∧ r1.plainText.version = (unpackHeader r).plainText.version := by
  unfold opened at h
  obtain ⟨q, hq, rfl⟩ := Option.map_eq_some_iff.mp h
  rw [takeLength_recordType, takeLength_version]
  have hp : q.plainText = (unpackHeader r).plainText := by
    split at hq
    · cases hq
      rfl
    · split at hq
      · cases hq
        rfl
      · exact decrypted_plainText hq
  rw [hp]
  exact ⟨rfl, rfl⟩

theorem ReadAs.code (h : ReadAs env e r type r1) : byteAt r.data 0 = type.code := by
  obtain ⟨hrt, hver⟩ := opened_header h.opened
  have hmajor := hver ▸ h.version
  have htype := hrt ▸ h.recordType
  unfold unpackHeader at hmajor htype
  split at htype
  · rename_i type' hb
    cases htype
    unfold ContentType.ofByte at hb
    split at hb
    · cases hb; assumption
    · split at hb
      · cases hb; assumption
      · split at hb
        · cases hb; assumption
        · split at hb
          · cases hb; assumption
          · cases hb
  · rename_i hb
    simp only [hb] at hmajor
    exact absurd hmajor (by decide)

theorem readRecord_outcome {ret : Int} (hw : s.conn.sess.waitingCrypto = false)
    (hread : readRecord env r s = .ok (ret, s')) (hnew : retransmits s.conn.sess r = false) :
    ReadOutcome env r s s' := by
  obtain ⟨⟨x, t⟩, hopen, hrest⟩ := bind_ok hread
  obtain ⟨hf, hopened, hret⟩ := openRecord_cases hopen
  cases x with
  | none =>
    cases hrest
    exact .dropped hf (.twice hret hnew hopened)
  | some q =>
    replace hret : Returns [] s.ctx t.ctx := hret
    replace hopened : opened env s.conn.sess r = some (takeLength q) := hopened
    obtain ⟨⟨ret', q', t'⟩, hun, h⟩ := bind_ok hrest
    unfold unpackRecord at hun
    dsimp only at hun h
    split at hun
    · rename_i hver
      cases hun
      cases h
      refine .dropped hf (.lost hret hnew (.inl ?_))
      simp [usable, hopened, takeLength_version, hver]
    · rename_i hver
      have has : ∀ type, (takeLength q).plainText.recordType = some type →
          ReadAs env s.conn.sess r type (takeLength q) :=
        fun type ht => ⟨hopened, by rw [takeLength_version]; exact not_not.mp hver, ht⟩
      have hslot := opened_slot hopened
      generalize takeLength q = q1 at hun has hopened hslot
      split at hun
      case h_1 ht =>
        have hrd := has _ ht
        have hstate : s.conn.sess.handshakeState = .helloRequest :=
          lt_clientHello fun hle => of_decide_eq_false hnew ⟨hle, hrd.code⟩
        have hunasked : s.conn.sess.Unasked := ⟨hstate, hw⟩
        rcases unpackHandshake_cases (hunasked.core hf.sess.symm) hun with
          ⟨rfl, hfrag, hpt, hno⟩ | ⟨ch, hparsed, rfl, hreq, hu⟩
        · have hlost : Fate env r s t' :=
            .lost hret hnew (.inl (by simp [usable, hopened, ht, hno]))
          split at h
          · cases h
            exact .dropped hf hlost
          · split at h
            · cases h
              exact .dropped hf hlost
            · -- any other message is looked up in a deleted record
              rw [handleReadRecord, hpt, ht] at h
              obtain ⟨ch, hch⟩ := handleHandshake_ok h
              rw [hch] at hfrag
              cases hfrag
        · have hout : ReadOutcome env r s t' := by
            rcases hu with ⟨-, hu, hroom⟩ | ⟨u, o, hu, hctx, hnamed, hsub⟩
            · have hctx : s.ctx.ringRoom = t.ctx.ringRoom := by
                have h1 : t.ctx.submitPkaRing = s.ctx.submitPkaRing :=
                  (congrArg Ctx.submitPkaRing hf.ctx :)
                have h2 : t.ctx.ringCnt = s.ctx.ringCnt := (congrArg Ctx.ringCnt hf.ctx :)
                rw [Ctx.ringRoom, Ctx.ringRoom, h1, h2]
              exact .dropped (hf.trans hu)
                (.lost (hret.trans hreq) hnew (.inr ⟨hrd.code, hctx.trans hroom⟩))
            · exact .hello hrd hstate hparsed (hf.trans hu) hnamed hsub hslot (hctx ▸ hret) (hctx ▸ hreq)
          have hmsg : ({ q1 with fragment := .clientHello ch } : Record).fragment.msgType
              = HandshakeType.clientHello.code := rfl
          split at h
          · cases h
            exact hout
          · simp only [ht, hmsg, and_self, if_true] at h
            cases h
            exact hout
      case h_2 ht =>
        cases hun
        simp only [ht, handleReadRecord] at h
        have hspec := handleChangeCipherSpec_outcome (has _ ht) hf hret
        rw [Except.ok.inj h] at hspec
        exact hspec
      case h_3 ht =>
        cases hun
        have ht' : (unpackAlert q1).plainText.recordType = some .alert := ht
        simp only [ht', handleReadRecord] at h
        exact handleAlert_outcome (has _ ht) hf hret h
      case h_4 ht =>
        unfold unpackApplicationData at hun
        split at hun
        · rename_i hinner
          cases hun
          simp only [ht, handleReadRecord] at h
          exact handleApplicationData_outcome (has _ ht) hf hret hinner h
        · rename_i hinner
          cases hun
          cases h
          exact .dropped hf (.lost hret hnew (.inl (by simp [usable, hopened, ht, hinner])))
      case h_5 => cases hun

/-- The state in which the record is read: the call is on record in the trace. -/
def reading (rest : Nat) (r : Record) (s : St) : St :=
  s.mapCtx fun c => { c with trace := .read s.conn r rest c.ringRoom :: c.trace }

theorem processReadRecord_outcome {rest : Nat} {ret : Int}
    (h : processReadRecord env rest r s = .ok (ret, s')) (hw : s.conn.sess.waitingCrypto = false) :
    ReadOutcome env r (reading rest r s) s' := by
  unfold processReadRecord at h
  dsimp only at h
  split at h
  · cases h
    exact .dropped (retransmittedHello_frame _ _ _) (.returned (retransmittedHello_returns _ _ _))
  · rename_i hnew
    exact readRecord_outcome hw h (decide_eq_false hnew)

end

end Xtls.Nic
