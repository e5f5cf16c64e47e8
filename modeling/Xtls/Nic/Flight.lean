import Xtls.Lib.KeySchedule
import Xtls.Nic.FlightSize
import Xtls.Nic.Greeting
import Xtls.Nic.ServerHello

/-!
# What the server flight consists of

A message goes to `send_buffer` in a record, and to `handshake_msgs`.  In the flight the ServerHello is in
clear; EncryptedExtensions, Certificate, CertificateVerify and Finished are application-data records
(`ssl.c` 2611-2840, 2946-3341, 3411-3517).
-/

namespace Xtls.Nic

open Tls

/-- The fragment of a record: the message in clear before a cipher is set, and its encryption with the tag
after that. -/
def protect (env : Env) (e : Session) (seq : UInt64) (type : ContentType) (frag : Bytes) : Bytes :=
  if e.writeSp.bulkCipherAlgorithm = .noCipher then frag
  else
    let (ct, tag) := env.crypto.gcmEncrypt (slice e.tls13Ctx.serverHandshakeKey 0 32)
      (makeNonce e.tls13Ctx.serverHandshakeIv seq) (recordHeader type e.version (frag.length + gcmTagSize)) frag
    ct.val ++ tag.val

/- The message, and in an application-data record the content type behind it. -/
def innerText (type : ContentType) (msgType : HandshakeType) (body : Bytes) : Bytes :=
  message msgType.code body ++ if type = .applicationData then [ContentType.handshake.code] else []

def sentRecord (env : Env) (e : Session) (seq : UInt64) (type : ContentType) (msgType : HandshakeType)
    (body : Bytes) : Tls.Record where
  type := type.code
  version := (e.version.major, e.version.minor)
  fragment := protect env e seq type (innerText type msgType body)

/- A message is sent: its record goes to the flight, and to the transcript if it is a new one. -/
structure Sends (env : Env) (type : ContentType) (msgType : HandshakeType) (body : Bytes) (s s' : St) : Prop where
  frame : SendFrame s s'
  buffer : s'.conn.sess.sendBuffer = s.conn.sess.sendBuffer
    ++ (sentRecord env s.conn.sess s.conn.sess.sendSeqNum type msgType body).encode
  short : (sentRecord env s.conn.sess s.conn.sess.sendSeqNum type msgType body).fragment.length < 65536
  seq : s.conn.sess.writeSp.bulkCipherAlgorithm ≠ .noCipher →
    s'.conn.sess.sendSeqNum = s.conn.sess.sendSeqNum + 1
  msgs : ¬ msgType.code ≤ s.conn.sess.handshakeState.code →
    s'.conn.sess.handshakeMsgs = s.conn.sess.handshakeMsgs ++ message msgType.code body

section

variable {env : Env} {s s' t : St} {r : Record} {type : ContentType} {msgType : HandshakeType} {frag body data : Bytes}

theorem protect_length (env : Env) (e : Session) (seq : UInt64) (type : ContentType) (frag : Bytes) :
    (protect env e seq type frag).length = frag.length + sealOverhead e := by
  unfold protect sealOverhead
  split
  · rfl
  · dsimp only
    rw [List.length_append, (env.crypto.gcmEncrypt _ _ _ frag).1.property,
      (env.crypto.gcmEncrypt _ _ _ frag).2.property]
    rfl

theorem sealRecord_writes (h : sealRecord env r type frag s = .ok (data, s')) :
    s'.conn.sess.handshakeMsgs = s.conn.sess.handshakeMsgs ∧ s'.conn.sess.sendBuffer = s.conn.sess.sendBuffer
      ∧ (s.conn.sess.writeSp.bulkCipherAlgorithm ≠ .noCipher →
          s'.conn.sess.sendSeqNum = s.conn.sess.sendSeqNum + 1)
      ∧ data = recordHeader type s.conn.sess.version (frag.length + sealOverhead s.conn.sess)
        ++ protect env s.conn.sess s.conn.sess.sendSeqNum type frag := by
  rw [protect, sealOverhead]
  rcases sealRecord_cases h with ⟨hclear, rfl, hdata⟩ | ⟨hw, -, o, t, ho, rfl, hdata⟩
  · rw [if_pos hclear, if_pos hclear]
    exact ⟨rfl, rfl, fun hw => absurd hclear hw, hdata⟩
  · obtain ⟨pool, -, rfl⟩ := newSslCryptoOp_cases ho
    rw [if_neg hw, if_neg hw]
    exact ⟨rfl, rfl, fun _ => rfl, hdata⟩

theorem innerText_eq (type : ContentType) (msgType : HandshakeType) (body : Bytes) :
    (if type = .applicationData then [msgType.code] ++ put24 body.length ++ body ++ [ContentType.handshake.code]
      else [msgType.code] ++ put24 body.length ++ body) = innerText type msgType body := by
  unfold innerText
  split
  · rw [put24_eq]
    rfl
  · rw [put24_eq, List.append_nil]
    rfl

theorem sentRecord_encode {e : Session} {seq : UInt64}
    (h : (sentRecord env e seq type msgType body).fragment.length < 65536) :
    recordHeader type e.version ((innerText type msgType body).length + sealOverhead e)
        ++ protect env e seq type (innerText type msgType body)
      = (sentRecord env e seq type msgType body).encode := by
  have hlen : (sentRecord env e seq type msgType body).fragment.length
      = (innerText type msgType body).length + sealOverhead e := protect_length ..
  rw [recordHeader, ← hlen, put16_eq h]
  rfl

theorem bounded_ok {n : Nat} {b b' : Bytes} (h : bounded n b = .ok b') : b' = b ∧ b.length ≤ n := by
  unfold bounded at h
  split at h
  · cases h
  · rename_i hle
    cases h
    exact ⟨rfl, Nat.not_lt.mp hle⟩

theorem sendRecord_sends (h : sendRecord env r type msgType body s = .ok s') : Sends env type msgType body s s' := by
  have hframe := sendRecord_frame h
  obtain ⟨s1, h1, h⟩ := bind_ok h
  obtain ⟨⟨data, s2⟩, h2, h⟩ := bind_ok h
  obtain ⟨buffer, hb, h⟩ := bind_ok h
  cases h
  obtain ⟨rfl, hfits⟩ := bounded_ok hb
  obtain ⟨hmsgs, hbuffer, hseq, hdata⟩ := sealRecord_writes h2
  rw [innerText_eq] at hdata
  have hmax : maxRecordSize = 16061 := rfl
  -- storing the message changes nothing that the record is made of
  have hstore : s1.conn.sess.sendBuffer = s.conn.sess.sendBuffer ∧ s1.conn.sess.writeSp = s.conn.sess.writeSp
      ∧ s1.conn.sess.sendSeqNum = s.conn.sess.sendSeqNum ∧ sealOverhead s1.conn.sess = sealOverhead s.conn.sess
      ∧ s1.conn.sess.version = s.conn.sess.version
      ∧ protect env s1.conn.sess = protect env s.conn.sess := by
    rcases storeHandshake_cases h1 with ⟨-, rfl⟩ | ⟨-, rfl⟩ <;> exact ⟨rfl, rfl, rfl, rfl, rfl, rfl⟩
  obtain ⟨hb1, hw1, hs1, ho1, hv1, hp1⟩ := hstore
  rw [hv1, ho1, hs1, hp1] at hdata
  have hshort : (sentRecord env s.conn.sess s.conn.sess.sendSeqNum type msgType body).fragment.length < 65536 := by
    have hlen : data.length = 5
        + (sentRecord env s.conn.sess s.conn.sess.sendSeqNum type msgType body).fragment.length := by
      rw [hdata, List.length_append, recordHeader_length]
      rfl
    rw [List.length_append] at hfits
    omega
  rw [sentRecord_encode hshort] at hdata
  refine ⟨hframe, ?_, hshort, fun hw => ?_, fun hnew => ?_⟩
  · show s2.conn.sess.sendBuffer ++ data = _
    rw [hbuffer, hb1, hdata]
  · show s2.conn.sess.sendSeqNum = _
    rw [hseq (hw1 ▸ hw), hs1]
  · show s2.conn.sess.handshakeMsgs = _
    rw [hmsgs]
    rcases storeHandshake_cases h1 with ⟨hold, -⟩ | ⟨-, rfl⟩
    · exact absurd hold hnew
    · rw [St.mapSess_sess, put24_eq]
      rfl

theorem sendMessage_sends {b : St → Bytes} (h : (do
      let (r, t) ← newSendRecord s
      sendRecord env r type msgType (b t) t) = .ok s') :
    ∃ t, Frame s t ∧ t.ctx.outside = s.ctx.outside ∧ Sends env type msgType (b t) s s' := by
  obtain ⟨⟨r, t⟩, hr, h⟩ := bind_ok h
  have hf : Frame s t := newRecord_frame hr
  obtain ⟨hframe, hbuffer, hshort, hseq, hmsgs⟩ := sendRecord_sends h
  unfold newSendRecord newRecord at hr
  split at hr
  · cases hr
  · cases hr
    exact ⟨_, hf, rfl, hf.toSendFrame.trans hframe, hbuffer, hshort, hseq, hmsgs⟩

/-! ### The five messages -/

/-- The records of the flight, of which the ServerHello and the verify data are given. -/
def flight (env : Env) (e : Session) (hello mac : Bytes) : List Tls.Record :=
  [{ type := ContentType.handshake.code, version := (e.version.major, e.version.minor)
     fragment := message HandshakeType.serverHello.code hello },
    sentRecord env e 0 .applicationData .encryptedExtensions (put16 0),
    sentRecord env e 1 .applicationData .certificate (certificateBody env),
    sentRecord env e 2 .applicationData .certificateVerify (certificateVerifyBody e),
    sentRecord env e 3 .applicationData .finished mac]

/- The first `k` records are in the buffer, and each has a length of 16 bits. -/
structure Buffered (env : Env) (e : Session) (k : Nat) (hello mac : Bytes) : Prop where
  buffer : e.sendBuffer = ((flight env e hello mac).take k).flatMap Record.encode
  short : ∀ r ∈ (flight env e hello mac).take k, r.fragment.length < 65536

/- The ServerHello that was made in state `t` returns the session id of the ClientHello, filled up with zeros. -/
structure Answers (v : ProtocolVersion) (client hello : Bytes) (t : St) : Prop where
  body : hello = serverHelloBody t
  version : t.conn.sess.version = v
  clear : t.conn.sess.writeSp.bulkCipherAlgorithm = .noCipher
  random : t.conn.sess.pendingSp.serverRandom.length = 32
  sessionId : t.conn.sess.id_.length = 32
  echo : ∀ id, readClientSessionId client = some id → t.conn.sess.id_ = id ++ zeros (32 - id.length)

/-- The messages of a session of which the two hellos and the verify data are given. -/
def transcriptOf (env : Env) (e : Session) (client hello mac : Bytes) : Transcript where
  clientHello := client
  serverHello := message HandshakeType.serverHello.code hello
  encryptedExtensions := message HandshakeType.encryptedExtensions.code (put16 0)
  certificate := message HandshakeType.certificate.code (certificateBody env)
  certificateVerify := message HandshakeType.certificateVerify.code (certificateVerifyBody e)
  serverFinished := message HandshakeType.finished.code mac

theorem transcriptOf_hellos (env : Env) (e : Session) (client hello mac : Bytes) :
    (transcriptOf env e client hello mac).upTo 2
      = client ++ (message HandshakeType.serverHello.code hello ++ []) := rfl

structure SameKeys (e e' : Session) : Prop where
  version : e'.version = e.version
  writeSp : e'.writeSp = e.writeSp
  key : e'.tls13Ctx.serverHandshakeKey = e.tls13Ctx.serverHandshakeKey
  iv : e'.tls13Ctx.serverHandshakeIv = e.tls13Ctx.serverHandshakeIv

theorem SameKeys.sent {e e' : Session} (h : SameKeys e e') (seq : UInt64) (type : ContentType)
    (msgType : HandshakeType) (body : Bytes) :
    sentRecord env e' seq type msgType body = sentRecord env e seq type msgType body := by
  simp only [sentRecord, protect, h.version, h.writeSp, h.key, h.iv]

theorem SameKeys.flight_three {e e' : Session} (h : SameKeys e e') (hello mac : Bytes) :
    (flight env e' hello mac).take 3 = (flight env e hello mac).take 3 := by
  simp only [flight, List.take_succ_cons, List.take_zero, h.sent, h.version]

theorem SameKeys.flight {e e' : Session} (h : SameKeys e e')
    (hsig : e'.tls13Ctx.certSignature = e.tls13Ctx.certSignature) (hello mac : Bytes) :
    flight env e' hello mac = flight env e hello mac := by
  have hbody : certificateVerifyBody e' = certificateVerifyBody e := by
    rw [certificateVerifyBody, certificateVerifyBody, h.writeSp, hsig]
  simp only [Nic.flight, h.sent, h.version, hbody]

theorem SameKeys.transcript {e e' : Session} (h : SameKeys e e')
    (hsig : e'.tls13Ctx.certSignature = e.tls13Ctx.certSignature) (client hello mac : Bytes) :
    transcriptOf env e' client hello mac = transcriptOf env e client hello mac := by
  rw [transcriptOf, certificateVerifyBody, h.writeSp, hsig]
  rfl

theorem Buffered.same {e e' : Session} {k : Nat} {hello mac : Bytes} (h : Buffered env e k hello mac)
    (hb : e'.sendBuffer = e.sendBuffer)
    (hf : (flight env e' hello mac).take k = (flight env e hello mac).take k) : Buffered env e' k hello mac :=
  ⟨by rw [hb, hf]; exact h.buffer, by rw [hf]; exact h.short⟩

theorem SendFrame.sameKeys (hf : SendFrame s s') : SameKeys s.conn.sess s'.conn.sess where
  version := (congrArg Session.version hf.sess :)
  writeSp := hf.writeSp
  key := by rw [hf.tls13Ctx]
  iv := by rw [hf.tls13Ctx]

theorem sentRecord_clear {e : Session} (seq : UInt64) (msgType : HandshakeType) (body : Bytes)
    (h : e.writeSp.bulkCipherAlgorithm = .noCipher) :
    sentRecord env e seq .handshake msgType body
      = { type := ContentType.handshake.code, version := (e.version.major, e.version.minor)
          fragment := message msgType.code body } := by
  have hinner : innerText .handshake msgType body = message msgType.code body := List.append_nil _
  rw [sentRecord, protect, if_pos h, hinner]

theorem sentRecord_seq {e : Session} {seq seq' : UInt64} (body : Bytes)
    (h : e.writeSp.bulkCipherAlgorithm ≠ .noCipher → seq = seq') :
    sentRecord env e seq type msgType body = sentRecord env e seq' type msgType body := by
  by_cases hclear : e.writeSp.bulkCipherAlgorithm = .noCipher
  · simp only [sentRecord, protect, if_pos hclear]
  · rw [h hclear]

theorem Sends.buffered {k : Nat} {seq : UInt64} {hello mac : Bytes} (hs : Sends env type msgType body s s')
    (hb : Buffered env s.conn.sess k hello mac)
    (hseq : s.conn.sess.writeSp.bulkCipherAlgorithm ≠ .noCipher → s.conn.sess.sendSeqNum = seq)
    (hnext : (flight env s.conn.sess hello mac)[k]? = some (sentRecord env s.conn.sess seq type msgType body)) :
    Buffered env s'.conn.sess (k + 1) hello mac := by
  have htake : (flight env s'.conn.sess hello mac).take (k + 1) = (flight env s.conn.sess hello mac).take k
      ++ [sentRecord env s.conn.sess s.conn.sess.sendSeqNum type msgType body] := by
    rw [hs.frame.sameKeys.flight (by rw [hs.frame.tls13Ctx]), List.take_add_one, hnext, sentRecord_seq body hseq]
    rfl
  refine ⟨?_, fun r hr => ?_⟩
  · rw [htake, hs.buffer, hb.buffer, List.flatMap_append, List.flatMap_singleton]
  · rw [htake] at hr
    rcases List.mem_append.mp hr with hr | hr
    · exact hb.short r hr
    · rw [List.mem_singleton.mp hr]
      exact hs.short

theorem Sends.seq_next {seq : UInt64} (hs : Sends env type msgType body s s')
    (hseq : s.conn.sess.writeSp.bulkCipherAlgorithm ≠ .noCipher → s.conn.sess.sendSeqNum = seq)
    (hw : s'.conn.sess.writeSp.bulkCipherAlgorithm ≠ .noCipher) : s'.conn.sess.sendSeqNum = seq + 1 := by
  rw [hs.frame.sameKeys.writeSp] at hw
  rw [hs.seq hw, hseq hw]

theorem Buffered.mac {e : Session} {hello mac : Bytes} (h : Buffered env e 3 hello []) : Buffered env e 3 hello mac :=
  ⟨h.buffer, h.short⟩

theorem flight_one {e e' : Session} (h : e'.version = e.version) (hello mac : Bytes) :
    (flight env e' hello mac).take 1 = (flight env e hello mac).take 1 := by
  simp only [flight, List.take_succ_cons, List.take_zero, h]

/- A message that is sent is the next one of the transcript. -/
theorem Sends.msgs_next {k : Nat} {t : Transcript}
    (hs : Sends env type msgType body s s') (hnew : ¬ msgType.code ≤ s.conn.sess.handshakeState.code)
    (hmsgs : s.conn.sess.handshakeMsgs = t.upTo k) (hnext : t.messages[k]? = some (message msgType.code body)) :
    s'.conn.sess.handshakeMsgs = t.upTo (k + 1) := by
  rw [hs.msgs hnew, hmsgs, Transcript.upTo, Transcript.upTo, List.take_add_one, hnext, List.flatten_append]
  simp

end

end Xtls.Nic
