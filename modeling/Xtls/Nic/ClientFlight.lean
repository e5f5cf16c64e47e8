import Xtls.Nic.Flight

/-!
# The second flight of the client

After the server flight a client sends an optional ChangeCipherSpec and its Finished
(`ssl.c` 2417-2437, 2538-2609).  Only a ChangeCipherSpec switches the read keys, and the inner content type
of the Finished is taken from the last byte of the plaintext (`ssl.c` 2045).
-/

namespace Xtls.Nic

open Tls

/-- The read keys of a session, and what it expects of the client. -/
structure ReadKeys (e : Session) : Prop where
  fresh : e.handshakeState = .helloRequest → e.readSp.bulkCipherAlgorithm = .noCipher
  clear : e.state ≠ .active → e.handshakeState ≠ .clientCipherSpec → e.readSp.bulkCipherAlgorithm = .noCipher
  suite : e.pendingSp.cipher = TLS_AES_256_GCM_SHA384 →
    e.pendingSp.bulkCipherAlgorithm = .aes ∧ e.pendingSp.cipherType = .aead
  verifyData : e.tls13Ctx.calculatedVd.length = 48

section

variable {env : Env} {s s' t : St} {e e' : Session}

theorem ReadKeys.same (h : ReadKeys e) (hhs : e'.handshakeState = e.handshakeState) (hst : e'.state = e.state)
    (hread : e'.readSp = e.readSp) (hpend : e'.pendingSp = e.pendingSp)
    (hvd : e'.tls13Ctx.calculatedVd.length = 48) : ReadKeys e' where
  fresh := by
    rw [hhs, hread]
    exact h.fresh
  clear := by
    rw [hhs, hst, hread]
    exact h.clear
  suite := by
    rw [hpend]
    exact h.suite
  verifyData := hvd

theorem SendFrame.readKeys (hf : SendFrame s s') (h : ReadKeys s.conn.sess) : ReadKeys s'.conn.sess := by
  refine h.same hf.handshakeState hf.state
    hf.readSp hf.pendingSp ?_
  have hvd : s'.conn.sess.tls13Ctx.calculatedVd = s.conn.sess.tls13Ctx.calculatedVd :=
    (congrArg (fun e => e.tls13Ctx.calculatedVd) hf.sess :)
  rw [hvd]
  exact h.verifyData

theorem Submits.readKeys {fill : Op} {o : OpId} (hsub : Submits fill o s s') (h : ReadKeys s.conn.sess) :
    ReadKeys s'.conn.sess := by
  rw [hsub.sess]
  exact h.same rfl rfl rfl rfl h.verifyData

theorem request_readKeys {fill : Op} (hreq : (∃ o, Rejects o s s') ∨ ∃ o, Submits fill o s s')
    (h : ReadKeys s.conn.sess) : ReadKeys s'.conn.sess := by
  rcases hreq with ⟨o, hrej⟩ | ⟨o, hsub⟩
  · exact hrej.frame.readKeys h
  · exact hsub.readKeys h

theorem ReadKeys.unset (hread : e.readSp = {}) (hpend : e.pendingSp = {}) (hk : e.tls13Ctx = {}) : ReadKeys e := by
  refine ⟨fun _ => by rw [hread], fun _ _ => by rw [hread], fun h => ?_, by rw [hk]; exact zeros_length 48⟩
  rw [hpend] at h
  exact absurd h (by decide)

theorem Removed.readKeys (hr : Removed s s') : ReadKeys s'.conn.sess := by
  rw [hr.sess]
  exact .unset rfl rfl rfl

theorem ReadKeys.advance (h : ReadKeys s.conn.sess) {x : HandshakeType}
    (hclear : s.conn.sess.state ≠ .active → s.conn.sess.readSp.bulkCipherAlgorithm = .noCipher)
    (hx : x ≠ .helloRequest) : ReadKeys (setHandshakeState x s).conn.sess :=
  ⟨fun hs => absurd hs hx, fun ha _ => hclear ha, h.suite, h.verifyData⟩

theorem setPendingSp_readKeys (h : ReadKeys s.conn.sess) (hst : s.conn.sess.handshakeState = .helloRequest)
    (r : Record) (ch : ClientHello) (pub : Bytes) : ReadKeys (setPendingSp r ch pub s).conn.sess := by
  refine ⟨nofun, fun _ _ => h.fresh hst, fun hc => ?_, h.verifyData⟩
  simp only [setPendingSp, St.mapSess_sess] at hc ⊢
  split at hc
  · rename_i hsel
    simp only [if_pos hsel, and_self]
  · rename_i hsel
    exact absurd hc hsel

theorem CryptoOutcome.readKeys (ho : CryptoOutcome env s s') (h : ReadKeys s.conn.sess) :
    ReadKeys s'.conn.sess := by
  cases ho with
  | idle => exact h
  | keyGen _ _ hst _ _ hf ha =>
    obtain ⟨off, s1, s2, -, hf1, hreq, rfl⟩ := answerClientHello_cases ha
    have hkey := hf.readKeys (h.same rfl rfl rfl rfl h.verifyData)
    have hhs : _ = HandshakeType.helloRequest := hf.handshakeState.trans hst
    have hset := hf1.readKeys (setPendingSp_readKeys hkey hhs _ _ _)
    have hclear : s1.conn.sess.readSp.bulkCipherAlgorithm = .noCipher :=
      (congrArg (fun e => e.readSp.bulkCipherAlgorithm) hf1.sess :).trans (hkey.fresh hhs)
    have hnext := hset.advance (x := .serverHello) (fun _ => hclear) nofun
    have hsent := request_readKeys hreq (hnext.same rfl rfl rfl rfl hset.verifyData)
    exact hsent.same rfl rfl rfl rfl hsent.verifyData
  | sharedSecret =>
    refine h.same rfl rfl rfl rfl ?_
    show (Tls13Ctx.calculatedVd (if _ then _ else _)).length = 48
    split <;> exact h.verifyData
  | signature => exact h.same rfl rfl rfl rfl h.verifyData

theorem RemainOutcome.readKeys (ho : RemainOutcome env s s') (h : ReadKeys s.conn.sess) :
    ReadKeys s'.conn.sess := by
  have hclear : ∀ x, s.conn.sess.handshakeState = x → x ≠ .clientCipherSpec → ∀ {t}, SendFrame s t →
      t.conn.sess.state ≠ .active → t.conn.sess.readSp.bulkCipherAlgorithm = .noCipher := by
    intro x hx hne t hf
    have hstate := hf.state
    have hread := hf.readSp
    rw [hstate, hread]
    exact fun ha => h.clear ha (hx ▸ hne)
  cases ho with
  | idle => exact h
  | @certificate s1 s2 _ hst _ hf hf' hreq =>
    have h1 := (hf.readKeys h).advance (x := .encryptedExtensions) (hclear _ hst nofun hf) nofun
    have h2 := hf'.readKeys h1
    refine request_readKeys hreq ((h2.advance (x := .certificate) (fun ha => ?_) nofun).same rfl rfl rfl rfl
      h2.verifyData)
    have hhs : s2.conn.sess.handshakeState = .encryptedExtensions :=
      hf'.handshakeState
    exact h2.clear ha (by rw [hhs]; decide)
  | @finished s1 s2 port hst _ hf hf' =>
    have h1 := (hf.readKeys h).advance (x := .certificateVerify) (hclear _ hst nofun hf) nofun
    have h2 := hf'.readKeys h1
    obtain ⟨k, hk, -⟩ := handleAppKeysCalculation_eq env s2
    refine (sendKeyMeta_frame env port _).readKeys ?_
    rw [hk]
    exact h2.same rfl rfl rfl rfl (finishedMac_length ..)
  | pending hst _ hf =>
    exact (hf.readKeys h).advance (hclear _ hst nofun hf.toSendFrame) nofun

theorem readRule_readKeys : ReadRule fun s s' => ReadKeys s.conn.sess → ReadKeys s'.conn.sess where
  refl _ h := h
  trans h h' := fun hs => h' (h hs)
  frame _ _ hf h := hf.readKeys h
  hello _ _ _ _ _ _ _ _ _ hsub h := hsub.readKeys h
  spec _ _ h := ⟨nofun, fun _ hne => absurd rfl hne, h.suite, h.verifyData⟩
  finish _ _ h := ⟨nofun, fun ha _ => absurd rfl ha, h.suite, h.verifyData⟩
  removed _ _ hr _ := hr.readKeys
  call _ _ _ h := h.same rfl rfl rfl rfl h.verifyData
  complete _ _ h := h.same rfl rfl rfl rfl h.verifyData
  queues _ _ _ h := h.same rfl rfl rfl rfl h.verifyData

theorem serveConnection_readKeys {others : ConnId → Conn} (hops : OpFacts (s.among others))
    (hs : ReadKeys s.conn.sess) (h : serveConnection env s = .ok s') : ReadKeys s'.conn.sess := by
  obtain ⟨t, ht, h⟩ := bind_ok h
  obtain ⟨u, hu, h⟩ := bind_ok h
  obtain ⟨v, hv, h⟩ := bind_ok h
  have ht' : ReadKeys t.conn.sess := processSessionReadLoop_rule
    (R := fun s s' => ReadKeys s.conn.sess → ReadKeys s'.conn.sess) readRule_readKeys.refl readRule_readKeys.trans
    (fun _ _ _ _ _ hw _ hr => readRule_readKeys.queued hw hr) ht hs
  have hread : Carries (fun _ => True) OpFacts s t := processSessionReadLoop_rule readRule_opFacts.refl
    readRule_opFacts.trans (fun _ _ _ _ _ hw _ hr => readRule_opFacts.queued hw hr) ht
  obtain ⟨-, hops'⟩ := hread.carries (fun _ _ => trivial) others hops
  have hu' := (getProcessedCrypto_outcome hops'.core.hello hu).readKeys ht'
  have hv' : ReadKeys v.conn.sess := by
    rcases removeHws_cases hv with ⟨-, rfl⟩ | ⟨-, hr⟩
    · exact readRule_readKeys.moves.applies u hu'
    · exact hr.readKeys
  exact (sendRemainServerRecords_outcome h).readKeys (readRule_readKeys.moves.forward v hv')

end

/-! ### Every run -/

section

variable {env : Env} {s s' : Sys}

theorem step_readKeys (x : Input) (s s' : Sys) (h : step env x s = .ok s')
    (hs : OpFacts s ∧ ∀ c, ReadKeys (s.conns c).sess) : OpFacts s' ∧ ∀ c, ReadKeys (s'.conns c).sess := by
  obtain ⟨hops, hkeys⟩ := hs
  refine ⟨((kept_opFacts env).keeps x s s' h).keeps (fun _ _ => trivial) hops, ?_⟩
  refine step_sessions readRule_readKeys (fun _ _ _ _ _ _ he => ?_) (fun c t hx ht => ?_) h hkeys
  · exact he.same rfl rfl rfl rfl he.verifyData
  · have hself : OpFacts ((⟨s.conns c, s.ctx⟩ : St).among s.conns) := by
      rw [s.among_put (hops.ids c)]
      exact hops
    exact serveConnection_readKeys hself (hkeys c) ht

theorem run_readKeys {n ringCnt : Nat} {inputs : List Input} (h : run (step env) inputs (initial n ringCnt) = .ok s)
    (c : ConnId) : ReadKeys (s.conns c).sess := by
  refine (run_invariant step_readKeys inputs _ s h ⟨initial_opFacts n ringCnt, ?_⟩).2 c
  exact fun _ => .unset rfl rfl rfl

end

/-! ### The flight -/

/- The ChangeCipherSpec that middleboxes are used to. -/
def compatibilitySpec : Bytes := [0x14, 3, 3, 0, 1, 1]

/-- The Finished with `pad` zero bytes behind its content type. -/
def finishedText (vd : Bytes) (pad : Nat) : Bytes :=
  message HandshakeType.finished.code vd ++ [ContentType.handshake.code] ++ zeros pad

/-- The record of a Finished under the client handshake key, with sequence number 0. -/
def finishedRecord (env : Env) (e : Session) (pad : Nat) : Bytes :=
  let text := finishedText e.tls13Ctx.calculatedVd pad
  let header := recordHeader .applicationData ⟨3, 3⟩ (text.length + gcmTagSize)
  let (ct, tag) := env.crypto.gcmEncrypt (slice e.tls13Ctx.clientHandshakeKey 0 32)
    (makeNonce e.tls13Ctx.clientHandshakeIv 0) header text
  header ++ ct.val ++ tag.val

def completeRecord (place : Nat × Nat) (data : Bytes) : Record :=
  { slot := place.1, id := place.2, length := data.length, data := data }

/-- The records of the flight, with or without the ChangeCipherSpec. -/
def clientFlight (env : Env) (e : Session) (spec : Bool) (pad : Nat) (p q : Nat × Nat) : List Record :=
  (if spec then [completeRecord p compatibilitySpec] else []) ++ [completeRecord q (finishedRecord env e pad)]

def readFlight (env : Env) (rest : Nat) : List Record → St → Except Halt St
  | [], s => .ok s
  | r :: rs, s => do
    let (_, s) ← processReadRecord env rest r s
    readFlight env rest rs s

/-- AES-GCM opens what was sealed under the same key, nonce and header. -/
def Crypto.Opens (c : Crypto) : Prop :=
  ∀ key nonce aad pt, (c.gcmDecrypt key nonce aad (c.gcmEncrypt key nonce aad pt).1.val
    (c.gcmEncrypt key nonce aad pt).2.val).map (·.val) = some pt

section

variable {env : Env} {s s' : St} {e : Session} {vd : Bytes} {pad rest : Nat} {p q : Nat × Nat}

theorem message_eq (type : Byte) (body : Bytes) : message type body = ([type] ++ put24 body.length) ++ body := by
  rw [put24_eq]
  rfl

theorem message_length (type : Byte) (body : Bytes) : (message type body).length = 4 + body.length := by
  rw [message_eq, List.length_append]
  rfl

theorem finishedText_length (hvd : vd.length = 48) (pad : Nat) : (finishedText vd pad).length = 53 + pad := by
  rw [finishedText, List.length_append, List.length_append, message_length, hvd, zeros_length]
  rfl

/- The last byte of the text is the content type only if there is no padding. -/
theorem finishedText_last (hvd : vd.length = 48) (pad : Nat) :
    byteAt (finishedText vd pad) (52 + pad) = if pad = 0 then ContentType.handshake.code else 0 := by
  have hm : (message HandshakeType.finished.code vd).length = 52 := by rw [message_length, hvd]
  have htyped : (message HandshakeType.finished.code vd ++ [ContentType.handshake.code]).length = 53 := by
    rw [List.length_append, hm]
    rfl
  cases pad with
  | zero =>
    rw [finishedText, byteAt_append_left _ _ _ (by omega), byteAt_append_right _ _ _ (by omega), hm]
    rfl
  | succ pad =>
    rw [finishedText, byteAt_append_right _ _ _ (by omega), htyped, if_neg (by omega), byteAt, zeros,
      List.getD_eq_getElem?_getD, List.getElem?_replicate]
    split <;> rfl

theorem finishedText_verifyData (hvd : vd.length = 48) (pad : Nat) :
    slice (finishedText vd pad) handshakeHeaderSize 48 = vd := by
  have hsplit : finishedText vd pad = ([HandshakeType.finished.code] ++ put24 vd.length)
      ++ (vd ++ ([ContentType.handshake.code] ++ zeros pad)) := by
    rw [finishedText, message_eq, List.append_assoc, List.append_assoc]
  have hslice := slice_append_right ([HandshakeType.finished.code] ++ put24 vd.length)
    (vd ++ ([ContentType.handshake.code] ++ zeros pad)) 0 48
  rw [hsplit]
  exact hslice.trans ((slice_append_left vd _ 0 48 (by omega)).trans (hvd ▸ slice_self vd))

/-! ### Opening the Finished -/

theorem Crypto.Opens.parts {c : Crypto} (h : c.Opens) {key nonce header pt header' ct tag : Bytes}
    (hheader : header' = header) (hct : ct = (c.gcmEncrypt key nonce header pt).1.val)
    (htag : tag = (c.gcmEncrypt key nonce header pt).2.val) :
    (c.gcmDecrypt key nonce header' ct tag).map (·.val) = some pt := by
  subst hheader hct htag
  exact h key nonce header' pt

theorem finishedRecord_parts (env : Env) (hvd : e.tls13Ctx.calculatedVd.length = 48) (pad : Nat) :
    let text := finishedText e.tls13Ctx.calculatedVd pad
    let header := recordHeader .applicationData ⟨3, 3⟩ (text.length + gcmTagSize)
    let gcm := env.crypto.gcmEncrypt (slice e.tls13Ctx.clientHandshakeKey 0 32)
      (makeNonce e.tls13Ctx.clientHandshakeIv 0) header text
    slice (finishedRecord env e pad) 0 recordHeaderSize = header
      ∧ slice (finishedRecord env e pad) recordHeaderSize (53 + pad) = gcm.1.val
      ∧ slice (finishedRecord env e pad) (recordHeaderSize + (53 + pad)) gcmTagSize = gcm.2.val := by
  intro text header gcm
  have hct : gcm.1.val.length = 53 + pad := gcm.1.property.trans (finishedText_length hvd pad)
  have htag : gcm.2.val.length = gcmTagSize := gcm.2.property
  have hrec : finishedRecord env e pad = header ++ (gcm.1.val ++ gcm.2.val) := List.append_assoc ..
  rw [hrec]
  refine ⟨(slice_append_left header _ 0 5 (Nat.le_refl _)).trans (slice_self header), ?_, ?_⟩
  · refine (slice_append_right header _ 0 (53 + pad)).trans ?_
    rw [slice_append_left _ _ _ _ (by omega), ← hct, slice_self]
  · refine (slice_append_right header _ (53 + pad) gcmTagSize).trans ?_
    rw [← hct]
    refine (slice_append_right gcm.1.val gcm.2.val 0 gcmTagSize).trans ?_
    rw [← htag, slice_self]

theorem finishedRecord_starts (env : Env) (e : Session) (pad : Nat) : ∃ content, finishedRecord env e pad
    = recordHeader .applicationData ⟨3, 3⟩ ((finishedText e.tls13Ctx.calculatedVd pad).length + gcmTagSize)
      ++ content :=
  ⟨_, List.append_assoc ..⟩

theorem finishedRecord_other (env : Env) (e : Session) (pad : Nat) :
    byteAt (finishedRecord env e pad) 0 ≠ ContentType.handshake.code := by
  obtain ⟨content, hrec⟩ := finishedRecord_starts env e pad
  rw [hrec]
  exact show ContentType.applicationData.code ≠ ContentType.handshake.code by decide

theorem finishedRecord_header (hvd : e.tls13Ctx.calculatedVd.length = 48) :
    unpackHeader (completeRecord q (finishedRecord env e pad)) =
      { completeRecord q (finishedRecord env e pad) with
        plainText := { recordType := some .applicationData, version := ⟨3, 3⟩
                       length := UInt16.ofNat (53 + pad + gcmTagSize) }
        cipherTextLength := UInt16.ofNat (53 + pad + gcmTagSize) } := by
  obtain ⟨content, hrec⟩ := finishedRecord_starts env e pad
  rw [finishedText_length hvd] at hrec
  have hbyte : ∀ i, i < 5 → byteAt (finishedRecord env e pad) i
      = byteAt (recordHeader .applicationData ⟨3, 3⟩ (53 + pad + gcmTagSize)) i := fun i hi => by
    rw [hrec, byteAt_append_left _ _ _ hi]
  have h0 : byteAt (finishedRecord env e pad) 0 = 0x17 := hbyte 0 (by decide)
  have h1 : byteAt (finishedRecord env e pad) 1 = 3 := hbyte 1 (by decide)
  have h2 : byteAt (finishedRecord env e pad) 2 = 3 := hbyte 2 (by decide)
  have hlen : be16 (finishedRecord env e pad) 3 = UInt16.ofNat (53 + pad + gcmTagSize) := by
    rw [be16_slice, hrec, slice_append_left _ _ 3 2 (Nat.le_refl _)]
    exact be16_put16 (UInt16.ofNat (53 + pad + gcmTagSize))
  have htype : ContentType.ofByte 0x17 = some .applicationData := by decide
  simp only [unpackHeader, completeRecord, h0, h1, h2, hlen, htype]

def finishedPlain (e : Session) (pad : Nat) : Bytes :=
  [0x17, 3, 3] ++ put16 (UInt16.ofNat (53 + pad)) ++ finishedText e.tls13Ctx.calculatedVd pad

theorem finishedPlain_type (hvd : e.tls13Ctx.calculatedVd.length = 48) (hpad : 53 + pad ≤ 16385) :
    byteAt (finishedPlain e pad) (4 + (UInt16.ofNat (53 + pad)).toNat)
      = if pad = 0 then ContentType.handshake.code else 0 := by
  have hlen : 4 + (UInt16.ofNat (53 + pad)).toNat = 5 + (52 + pad) := by
    rw [UInt16.toNat_ofNat']
    omega
  have hright : byteAt (finishedPlain e pad) (5 + (52 + pad))
      = byteAt (finishedText e.tls13Ctx.calculatedVd pad) (5 + (52 + pad) - 5) :=
    byteAt_append_right _ _ _ (Nat.le_add_right 5 _)
  rw [hlen, hright, Nat.add_sub_cancel_left, finishedText_last hvd]

theorem finishedRecord_decrypted (hgcm : env.crypto.Opens) (hvd : e.tls13Ctx.calculatedVd.length = 48)
    (hseq : e.recvSeqNum = 0) (hpad : 53 + pad ≤ 16385) :
    decrypted env e (unpackHeader (completeRecord q (finishedRecord env e pad))) = some
      { completeRecord q (finishedRecord env e pad) with
        plainText := { recordType := some .applicationData, version := ⟨3, 3⟩
                       length := UInt16.ofNat (53 + pad + gcmTagSize) }
        seqNum := 0, isEncrypted := true
        cipherTextLength := UInt16.ofNat (53 + pad), macIn := finishedPlain e pad } := by
  have hsub : UInt16.ofNat (53 + pad + gcmTagSize) - 16 = UInt16.ofNat (53 + pad) := by
    have htag : gcmTagSize = 16 := rfl
    apply UInt16.toNat_inj.mp
    rw [UInt16.toNat_sub, UInt16.toNat_ofNat', UInt16.toNat_ofNat', htag]
    show (65536 - 16 + _) % 65536 = _
    omega
  have hlen : (UInt16.ofNat (53 + pad)).toNat = 53 + pad := by
    rw [UInt16.toNat_ofNat']
    omega
  obtain ⟨hheader, hct, htag⟩ := finishedRecord_parts env hvd pad
  have hopen : aeadOpen env e (unpackHeader (completeRecord q (finishedRecord env e pad)))
      = some (finishedText e.tls13Ctx.calculatedVd pad) := by
    rw [finishedRecord_header hvd]
    unfold aeadOpen
    dsimp only
    rw [hseq]
    refine hgcm.parts hheader ?_ ?_
    · rw [hsub, hlen]
      exact hct
    · rw [hsub, hlen]
      exact htag
  have hstart : slice (finishedRecord env e pad) 0 3 = [0x17, 3, 3] := by
    obtain ⟨content, hrec⟩ := finishedRecord_starts env e pad
    rw [hrec, slice_append_left _ _ 0 3 (by rw [recordHeader_length]; omega)]
    rfl
  unfold decrypted
  rw [hopen]
  cases htext : finishedText e.tls13Ctx.calculatedVd pad with
  | nil =>
    have hl := finishedText_length hvd pad
    rw [htext] at hl
    rw [List.length_nil] at hl
    omega
  | cons b text =>
    rw [finishedRecord_header hvd]
    simp only [completeRecord, hsub, hstart, hseq, finishedPlain, htext]

theorem finishedRecord_opens (hgcm : env.crypto.Opens) (hvd : e.tls13Ctx.calculatedVd.length = 48)
    (hseq : e.recvSeqNum = 0) (hpad : 53 + pad ≤ 16385) :
    ∃ r1, decrypted env e (unpackHeader (completeRecord q (finishedRecord env e pad))) = some r1
      ∧ r1.plainText.version.major = 3 ∧ r1.plainText.recordType = some .applicationData
      ∧ innerType (takeLength r1) = (if pad = 0 then ContentType.handshake.code else 0)
      ∧ slice (takeLength r1).pf handshakeHeaderSize 48 = e.tls13Ctx.calculatedVd :=
  ⟨_, finishedRecord_decrypted hgcm hvd hseq hpad, rfl, rfl, finishedPlain_type hvd hpad,
    finishedText_verifyData hvd pad⟩

/-! ### Reading the flight -/

theorem processReadRecord_eq {r : Record} (h : byteAt r.data 0 ≠ ContentType.handshake.code) :
    processReadRecord env rest r s = readRecord env r (reading rest r s) :=
  if_neg fun hr => h hr.2

theorem read_compatibilitySpec (hst : s.conn.sess.handshakeState = .finished)
    (hclear : s.conn.sess.readSp.bulkCipherAlgorithm = .noCipher) :
    ∃ s', processReadRecord env rest (completeRecord p compatibilitySpec) s = .ok (0, s')
      ∧ s'.conn.sess.state = s.conn.sess.state ∧ s'.conn.sess.handshakeState = .clientCipherSpec
      ∧ s'.conn.sess.recvSeqNum = 0 ∧ s'.conn.sess.readSp = s.conn.sess.pendingSp
      ∧ s'.conn.sess.tls13Ctx = s.conn.sess.tls13Ctx ∧ s'.ctx.opPool = s.ctx.opPool := by
  have hopen : openRecord env (unpackHeader (completeRecord p compatibilitySpec))
      (reading rest (completeRecord p compatibilitySpec) s)
      = .ok (some { unpackHeader (completeRecord p compatibilitySpec) with inPlace := true },
          reading rest (completeRecord p compatibilitySpec) s) := if_pos hclear
  have htype : byteAt (completeRecord p compatibilitySpec).data 0 ≠ ContentType.handshake.code :=
    show byteAt compatibilitySpec 0 ≠ ContentType.handshake.code by decide
  have hread : processReadRecord env rest (completeRecord p compatibilitySpec) s
      = .ok (handleChangeCipherSpec { unpackHeader (completeRecord p compatibilitySpec) with inPlace := true }
          (reading rest (completeRecord p compatibilitySpec) s)) := by
    rw [processReadRecord_eq htype, readRecord, hopen]
    rfl
  rw [hread]
  unfold handleChangeCipherSpec
  dsimp only
  rw [if_neg fun h => h.1 hst]
  exact ⟨_, rfl, rfl, rfl, rfl, rfl, rfl, rfl⟩

theorem readRecord_appData {r r1 : Record} {t : St} (hopen : openRecord env (unpackHeader r) s = .ok (some r1, t))
    (hversion : r1.plainText.version.major = 3) (htype : r1.plainText.recordType = some .applicationData) :
    readRecord env r s = if innerType (takeLength r1) = ContentType.handshake.code then
        handleApplicationData
          { takeLength r1 with fragment := .finished (slice (takeLength r1).pf handshakeHeaderSize 48) } t
      else .ok (-1, t) := by
  have htype' : (takeLength r1).plainText.recordType = some .applicationData := by
    rw [takeLength_recordType, htype]
  have hunpack : unpackRecord r1 t
      = .ok ((unpackApplicationData (takeLength r1)).1, (unpackApplicationData (takeLength r1)).2, t) := by
    unfold unpackRecord
    rw [if_neg (not_not.mpr hversion)]
    dsimp only
    rw [htype']
  rw [readRecord, hopen]
  change Except.bind (unpackRecord r1 t) _ = _
  rw [hunpack]
  unfold unpackApplicationData
  split
  · simp only [Except.bind, Int.lt_irrefl, if_false, htype', Option.some.injEq, reduceCtorEq, false_and,
      handleReadRecord]
  · rfl

theorem handleApplicationData_late {r : Record} (hinner : innerType r = ContentType.handshake.code)
    (hst : .finished ≤ s.conn.sess.handshakeState) : handleApplicationData r s = .ok (0, deleteRecord r s) := by
  unfold handleApplicationData
  rw [if_neg fun h => absurd (hinner.symm.trans h) (by decide), if_pos hinner, if_pos hst]
  rfl

theorem handleApplicationData_accepts {r : Record} (hinner : innerType r = ContentType.handshake.code)
    (hst : ¬ .finished ≤ s.conn.sess.handshakeState)
    (hvd : s.conn.sess.tls13Ctx.calculatedVd = receivedVerifyData r) :
    handleApplicationData r s = .ok (0, deleteRecord r (sendTcpPacket TCP_FLAG_ACK [] (finishHandshake s))) := by
  unfold handleApplicationData
  rw [if_neg fun h => absurd (hinner.symm.trans h) (by decide), if_pos hinner, if_neg hst]
  dsimp only
  exact if_neg (not_not.mpr hvd)

/- Without it the record is looked at as it came, in a session that counts as finished. -/
theorem read_finished_clear (hvd : e.tls13Ctx.calculatedVd.length = 48)
    (hst : s.conn.sess.handshakeState = .finished)
    (hclear : s.conn.sess.readSp.bulkCipherAlgorithm = .noCipher) :
    ∃ ret s', processReadRecord env rest (completeRecord q (finishedRecord env e pad)) s = .ok (ret, s')
      ∧ s'.conn.sess.state = s.conn.sess.state := by
  have hopen : openRecord env (unpackHeader (completeRecord q (finishedRecord env e pad)))
      (reading rest (completeRecord q (finishedRecord env e pad)) s)
      = .ok (some { unpackHeader (completeRecord q (finishedRecord env e pad)) with inPlace := true },
          reading rest (completeRecord q (finishedRecord env e pad)) s) := if_pos hclear
  have hheader : unpackHeader (completeRecord q (finishedRecord env e pad)) = _ := finishedRecord_header hvd
  have hother : byteAt (completeRecord q (finishedRecord env e pad)).data 0 ≠ ContentType.handshake.code :=
    finishedRecord_other env e pad
  rw [processReadRecord_eq hother, readRecord_appData hopen (by rw [hheader]) (by rw [hheader])]
  split
  · rename_i hinner
    have hlate : .finished ≤ s.conn.sess.handshakeState := by
      rw [hst]
      decide
    exact ⟨_, _, handleApplicationData_late hinner hlate, rfl⟩
  · exact ⟨_, _, rfl, rfl⟩

theorem openRecord_keyed {r r1 : Record} (hcipher : s.conn.sess.readSp.bulkCipherAlgorithm ≠ .noCipher)
    (haead : s.conn.sess.readSp.cipherType = .aead) (hstate : s.conn.sess.state ≠ .active)
    (hdec : decrypted env s.conn.sess r = some r1) :
    (∃ halt, openRecord env r s = .error halt ∧ s.ctx.opPool = [])
    ∨ ∃ t, openRecord env r s = .ok (some r1, t) ∧ s.ctx.opPool ≠ [] ∧ t.conn.sess.state = s.conn.sess.state
      ∧ t.conn.sess.handshakeState = s.conn.sess.handshakeState ∧ t.conn.sess.tls13Ctx = s.conn.sess.tls13Ctx := by
  unfold openRecord
  rw [if_neg hcipher, if_neg hstate]
  cases hpool : s.ctx.opPool with
  | nil =>
    have hnone : decryptRecord env r s = .error .notEnoughOp := by
      unfold decryptRecord newSslCryptoOp
      rw [hpool]
      rfl
    rw [hnone]
    exact .inl ⟨_, rfl, rfl⟩
  | cons o pool =>
    obtain ⟨t, hsome, ht⟩ : ∃ t, decryptRecord env r s = .ok (some r1, t)
        ∧ t.conn.sess = { s.conn.sess with clientWriteIvSeqNum := s.conn.sess.recvSeqNum + 1 } := by
      unfold decryptRecord newSslCryptoOp
      rw [hpool]
      change ∃ t, Except.bind (.ok (o, _)) _ = _ ∧ _
      dsimp only [Except.bind, St.mapCtx_conn]
      rw [hdec]
      exact ⟨_, rfl, rfl⟩
    have haead' : t.conn.sess.readSp.cipherType = .aead := by rw [ht]; exact haead
    rw [hsome]
    change _ ∨ ∃ u, (if t.conn.sess.readSp.cipherType ≠ .aead then _ else _) = _ ∧ _
    rw [if_neg (not_not.mpr haead')]
    exact .inr ⟨t, rfl, nofun, by rw [ht], by rw [ht], by rw [ht]⟩

/- With it the record is decrypted, and its last byte decides. -/
theorem read_finished_keyed (hgcm : env.crypto.Opens) (hvd : s.conn.sess.tls13Ctx.calculatedVd.length = 48)
    (hcipher : s.conn.sess.readSp.bulkCipherAlgorithm ≠ .noCipher) (haead : s.conn.sess.readSp.cipherType = .aead)
    (hstate : s.conn.sess.state ≠ .active) (hst : s.conn.sess.handshakeState = .clientCipherSpec)
    (hseq : s.conn.sess.recvSeqNum = 0) (hpad : 53 + pad ≤ 16385) :
    (∃ ret s', processReadRecord env rest (completeRecord q (finishedRecord env s.conn.sess pad)) s = .ok (ret, s')
      ∧ s'.conn.sess.state = .active ∧ s'.conn.tcp.onload = true) ↔ pad = 0 ∧ s.ctx.opPool ≠ [] := by
  have hother : byteAt (completeRecord q (finishedRecord env s.conn.sess pad)).data 0
      ≠ ContentType.handshake.code := finishedRecord_other env s.conn.sess pad
  obtain ⟨r1, hdec, hversion, htype, hinner, hslice⟩ := finishedRecord_opens (q := q) hgcm hvd hseq hpad
  rw [processReadRecord_eq hother]
  rcases openRecord_keyed (s := reading rest (completeRecord q (finishedRecord env s.conn.sess pad)) s)
    hcipher haead hstate hdec with ⟨halt, hopen, hpool⟩ | ⟨t, hopen, hpool, hts, hth, htk⟩
  · refine ⟨fun ⟨ret, s', hread, _⟩ => ?_, fun h => absurd hpool h.2⟩
    rw [readRecord, hopen] at hread
    cases hread
  · rw [readRecord_appData hopen hversion htype]
    by_cases hzero : pad = 0
    · rw [if_pos hzero] at hinner
      refine ⟨fun _ => ⟨hzero, hpool⟩, fun _ => ?_⟩
      rw [if_pos hinner]
      have hearly : ¬ .finished ≤ t.conn.sess.handshakeState := by
        have ht : t.conn.sess.handshakeState = .clientCipherSpec := hth.trans hst
        rw [ht]
        decide
      have hsame : t.conn.sess.tls13Ctx.calculatedVd = slice (takeLength r1).pf handshakeHeaderSize 48 := by
        rw [hslice, htk]
        rfl
      refine ⟨_, _, handleApplicationData_accepts hinner hearly hsame, ?_, ?_⟩
      · exact (congrArg Session.state (sendTcpEmpty_frame TCP_FLAG_ACK (finishHandshake t)).sess :)
      · exact (congrArg Tcp.onload (sendTcpEmpty_frame TCP_FLAG_ACK (finishHandshake t)).tcp :)
    · rw [if_neg hzero] at hinner
      refine ⟨fun ⟨ret, s', hread, hactive, _⟩ => ?_, fun h => absurd h.1 hzero⟩
      rw [if_neg fun h => absurd (hinner.symm.trans h) (by decide)] at hread
      cases hread
      exact absurd (hts.symm.trans hactive) hstate

theorem finishedRecord_congr {e' : Session} (h : e'.tls13Ctx = e.tls13Ctx) :
    finishedRecord env e' pad = finishedRecord env e pad := by
  unfold finishedRecord
  rw [h]

theorem readFlight_one {r : Record} {P : St → Prop} : (∃ s', readFlight env rest [r] s = .ok s' ∧ P s')
    ↔ ∃ ret s', processReadRecord env rest r s = .ok (ret, s') ∧ P s' := by
  constructor
  · rintro ⟨s', h, hp⟩
    obtain ⟨⟨ret, t⟩, ht, h⟩ := bind_ok h
    cases h
    exact ⟨ret, _, ht, hp⟩
  · rintro ⟨ret, s', h, hp⟩
    refine ⟨s', ?_, hp⟩
    rw [readFlight, h]
    rfl

theorem readFlight_accepts (hgcm : env.crypto.Opens) (hkeys : ReadKeys s.conn.sess)
    (hst : s.conn.sess.handshakeState = .finished) (hstate : s.conn.sess.state ≠ .active)
    (hsuite : s.conn.sess.pendingSp.cipher = TLS_AES_256_GCM_SHA384) (hpad : 53 + pad ≤ 16385) (spec : Bool) :
    (∃ s', readFlight env rest (clientFlight env s.conn.sess spec pad p q) s = .ok s'
      ∧ s'.conn.sess.state = .active ∧ s'.conn.tcp.onload = true) ↔ spec = true ∧ pad = 0 ∧ s.ctx.opPool ≠ [] := by
  have hclear := hkeys.clear hstate (by rw [hst]; decide)
  cases spec with
  | false =>
    refine readFlight_one.trans ⟨fun ⟨ret, s', h, hactive, _⟩ => ?_, fun h => absurd h.1 nofun⟩
    obtain ⟨ret', t, ht, hsame⟩ := read_finished_clear hkeys.verifyData hst hclear
    cases h.symm.trans ht
    exact absurd (hsame.symm.trans hactive) hstate
  | true =>
    obtain ⟨t, ht, htstate, hths, hseq, hread, hk, hpool⟩ := read_compatibilitySpec (p := p) hst hclear
    obtain ⟨hcipher, haead⟩ := hkeys.suite hsuite
    have hflight : readFlight env rest (clientFlight env s.conn.sess true pad p q) s
        = readFlight env rest [completeRecord q (finishedRecord env t.conn.sess pad)] t := by
      show readFlight env rest (completeRecord p compatibilitySpec :: _) s = _
      rw [readFlight, ht, finishedRecord_congr hk]
      rfl
    rw [hflight, readFlight_one, read_finished_keyed hgcm (by rw [hk]; exact hkeys.verifyData)
      (by rw [hread, hcipher]; decide) (by rw [hread, haead]) (htstate.trans_ne hstate) hths hseq hpad, hpool]
    exact ⟨fun h => ⟨rfl, h⟩, fun h => h.2⟩

end

/-! ### Which flights are accepted -/

section

variable {env : Env} {s : Sys} {c : ConnId}

/-- After the server flight a correct Finished makes the session active exactly if a ChangeCipherSpec comes
before it and it has no padding. -/
theorem clientFlight_accepted {n ringCnt : Nat} {inputs : List Input} (hgcm : env.crypto.Opens)
    (h : run (step env) inputs (initial n ringCnt) = .ok s)
    (hst : (s.conns c).sess.handshakeState = .finished) (hstate : (s.conns c).sess.state ≠ .active)
    (hsuite : (s.conns c).sess.pendingSp.cipher = TLS_AES_256_GCM_SHA384) (spec : Bool) (pad : Nat)
    (hpad : (finishedText (s.conns c).sess.tls13Ctx.calculatedVd pad).length ≤ 2 ^ 14 + 1) (rest : Nat)
    (p q : Nat × Nat) :
    (∃ s', readFlight env rest (clientFlight env (s.conns c).sess spec pad p q) ⟨s.conns c, s.ctx⟩ = .ok s'
      ∧ s'.conn.sess.state = .active ∧ s'.conn.tcp.onload = true) ↔ spec = true ∧ pad = 0 ∧ s.ctx.opPool ≠ [] := by
  have hkeys := run_readKeys h c
  have hfits : 53 + pad ≤ 16385 := by
    rw [finishedText_length hkeys.verifyData] at hpad
    omega
  exact readFlight_accepts (s := ⟨s.conns c, s.ctx⟩) hgcm hkeys hst hstate hsuite hfits spec

theorem sampleCrypto_opens : sampleCrypto.Opens := fun _ _ _ _ => rfl

/- The sample connection waits for the second flight. -/
theorem sampleMigrated_waits : ∃ s, run (step sampleEnv) sampleMigrated (initial 2 8) = .ok s
    ∧ (s.conns 0).sess.handshakeState = .finished ∧ (s.conns 0).sess.state ≠ .active
    ∧ (s.conns 0).sess.pendingSp.cipher = TLS_AES_256_GCM_SHA384 ∧ s.ctx.opPool ≠ [] := by
  obtain ⟨s, hs, hwaits⟩ := endsIn_ok (fun s : Sys => decide ((s.conns 0).sess.handshakeState = .finished
      ∧ (s.conns 0).sess.state ≠ .active ∧ (s.conns 0).sess.pendingSp.cipher = TLS_AES_256_GCM_SHA384
      ∧ s.ctx.opPool ≠ []))
    (run (step sampleEnv) sampleMigrated (initial 2 8)) (by decide +kernel)
  exact ⟨s, hs, of_decide_eq_true hwaits⟩

theorem clientFlight_accepted_spec : ∃ s, run (step sampleEnv) sampleMigrated (initial 2 8) = .ok s
    ∧ ∃ s', readFlight sampleEnv 0 (clientFlight sampleEnv (s.conns 0).sess true 0 (0, 0) (1, 1))
        ⟨s.conns 0, s.ctx⟩ = .ok s' ∧ s'.conn.sess.state = .active ∧ s'.conn.tcp.onload = true := by
  obtain ⟨s, hs, hst, hstate, hsuite, hpool⟩ := sampleMigrated_waits
  have hpad : (finishedText (s.conns 0).sess.tls13Ctx.calculatedVd 0).length ≤ 2 ^ 14 + 1 := by
    rw [finishedText_length (run_readKeys hs 0).verifyData]
    omega
  exact ⟨s, hs, (clientFlight_accepted sampleCrypto_opens hs hst hstate hsuite true 0 hpad 0 (0, 0) (1, 1)).mpr
    ⟨rfl, rfl, hpool⟩⟩

/-- Neither a flight without a ChangeCipherSpec nor one with a padding byte is accepted. -/
theorem clientFlight_ignored : ∃ s, run (step sampleEnv) sampleMigrated (initial 2 8) = .ok s
    ∧ (s.conns 0).sess.handshakeState = .finished ∧ (s.conns 0).sess.state ≠ .active
    ∧ (s.conns 0).sess.pendingSp.cipher = TLS_AES_256_GCM_SHA384 ∧ s.ctx.opPool ≠ []
    ∧ (¬ ∃ s', readFlight sampleEnv 0 (clientFlight sampleEnv (s.conns 0).sess false 0 (0, 0) (1, 1))
        ⟨s.conns 0, s.ctx⟩ = .ok s' ∧ s'.conn.sess.state = .active ∧ s'.conn.tcp.onload = true)
    ∧ ¬ ∃ s', readFlight sampleEnv 0 (clientFlight sampleEnv (s.conns 0).sess true 1 (0, 0) (1, 1))
        ⟨s.conns 0, s.ctx⟩ = .ok s' ∧ s'.conn.sess.state = .active ∧ s'.conn.tcp.onload = true := by
  obtain ⟨s, hs, hst, hstate, hsuite, hpool⟩ := sampleMigrated_waits
  have hkeys := run_readKeys hs 0
  refine ⟨s, hs, hst, hstate, hsuite, hpool, fun h => ?_, fun h => ?_⟩
  · have hboth := (readFlight_accepts (s := ⟨s.conns 0, s.ctx⟩) sampleCrypto_opens hkeys hst hstate hsuite
      (show 53 + 0 ≤ 16385 by omega) false).mp h
    exact absurd hboth.1 nofun
  · have hboth := (readFlight_accepts (s := ⟨s.conns 0, s.ctx⟩) sampleCrypto_opens hkeys hst hstate hsuite
      (show 53 + 1 ≤ 16385 by omega) true).mp h
    exact absurd hboth.2.1 nofun

end

end Xtls.Nic
