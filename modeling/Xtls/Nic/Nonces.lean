import Mathlib.Data.List.Nodup
import Xtls.Lib.Layout
import Xtls.Nic.Handshake
import Xtls.Nic.Stops

/-!
# Nonces of the server flight

`send_seq_num_`, `record->seq_num` and `server_write_IV_seq_num` are written in three places
(`handle_handshake`, `new_send_record`, `handle_after_aes_gcm_encrypt`), and the nonce of a record is
made from the first of them (`encrypt_record`, `ssl.c` 3411-3517).
-/

namespace Xtls

/-! ### Exclusive or -/

theorem xorBytes_append {a b : Bytes} (c d : Bytes) (h : a.length = b.length) :
    xorBytes (a ++ c) (b ++ d) = xorBytes a b ++ xorBytes c d := List.zipWith_append h

theorem xorBytes_zeros (a : Bytes) : xorBytes a (zeros a.length) = a := by
  induction a with
  | nil => rfl
  | cons x a ih =>
    show (x ^^^ 0) :: xorBytes a (zeros a.length) = x :: a
    rw [ih, UInt8.xor_zero]

theorem xorBytes_right_inj {a b c : Bytes} (hb : b.length ≤ a.length) (hc : c.length = b.length)
    (h : xorBytes a b = xorBytes a c) : b = c := by
  induction a generalizing b c with
  | nil =>
    have hb : b = [] := List.length_eq_zero_iff.mp (Nat.le_zero.mp hb)
    subst hb
    exact (List.length_eq_zero_iff.mp hc).symm
  | cons x a ih =>
    cases b with
    | nil => exact (List.length_eq_zero_iff.mp hc).symm
    | cons y b =>
      cases c with
      | nil => cases hc
      | cons z c =>
        obtain ⟨hx, htail⟩ := List.cons.inj h
        rw [(UInt8.xor_right_inj x).mp hx, ih (Nat.le_of_succ_le_succ hb) (Nat.succ.inj hc) htail]

theorem put32_inj {m n : UInt32} (h : put32 m = put32 n) : m = n := by
  rw [← be32_put32 m, h, be32_put32]

theorem put64_inj {m n : UInt64} (h : put64 m = put64 n) : m = n := by
  obtain ⟨hhi, hlo⟩ := List.append_inj h rfl
  have h1 := congrArg UInt32.toNat (put32_inj hhi)
  have h2 := congrArg UInt32.toNat (put32_inj hlo)
  have hm := m.toNat_lt
  have hn := n.toNat_lt
  rw [UInt32.toNat_ofNat', UInt32.toNat_ofNat'] at h1 h2
  exact UInt64.toNat_inj.mp (by omega)

end Xtls

namespace Xtls.Nic

theorem makeNonce_eq (iv : Bytes) (seq : UInt64) :
    makeNonce iv seq = xorBytes (slice iv 0 12) (zeros 4 ++ put64 seq) := by
  rw [← slice_append_slice iv 0 4 8, xorBytes_append _ _ (by simp)]
  have hz : xorBytes (slice iv 0 4) (zeros 4) = slice iv 0 4 := by
    have hzeros := xorBytes_zeros (slice iv 0 4)
    rwa [slice_length] at hzeros
  rw [hz]
  rfl

theorem makeNonce_inj {iv : Bytes} {m n : UInt64} (h : makeNonce iv m = makeNonce iv n) : m = n := by
  have htail := List.append_cancel_left h
  refine put64_inj (xorBytes_right_inj ?_ rfl htail)
  rw [slice_length]
  exact Nat.le_refl 8

/-! ### The calls of a lifetime -/

def Deed.call : Deed → Option EncryptCall
  | .encrypts call => some call
  | _ => none

def callsOf (log : List Deed) : List EncryptCall := log.filterMap Deed.call

/-- The call with number `i` under one key. -/
def EncryptCall.number (key iv : Bytes) (i : Nat) : EncryptCall where
  serverWriteIvSeqNum := UInt64.ofNat i
  recordSeqNum := UInt64.ofNat i
  sendSeqNum := UInt64.ofNat i
  key := key
  iv := iv
  nonce := xorBytes (slice iv 0 12) (zeros 4 ++ put64 (UInt64.ofNat i))

def Stage.built (v : Stage) : Nat :=
  match v.handshakeState with
  | .helloRequest => 0
  | .serverHello => 0
  | _ => v.sendSeqNum.toNat

/-- The calls so far are numbered, and while there can be another one the stage has their number and
their key. -/
def Numbered (log : List Deed) (v : Stage) : Prop :=
  ∃ key iv k, callsOf log = (List.range k).map (EncryptCall.number key iv) ∧ k ≤ 4
    ∧ (v.listed → ¬ v.Late →
      k = v.built ∧ (0 < k → key = v.serverHandshakeKey ∧ iv = v.serverHandshakeIv))

section

variable {v v' : Stage} {ds log : List Deed}

theorem callsOf_append (log ds : List Deed) : callsOf (log ++ ds) = callsOf log ++ callsOf ds :=
  List.filterMap_append

theorem callsOf_loses (v : Stage) : callsOf v.loses = [] := by
  unfold Stage.loses
  split <;> rfl

theorem Numbered.silent (h : Numbered log v) (hd : callsOf ds = [])
    (hopen : v'.listed → ¬ v'.Late → v.listed ∧ ¬ v.Late ∧ v'.built = v.built
      ∧ (0 < v.built → v'.serverHandshakeKey = v.serverHandshakeKey
        ∧ v'.serverHandshakeIv = v.serverHandshakeIv)) : Numbered (log ++ ds) v' := by
  obtain ⟨key, iv, k, hcalls, hk, hkeys⟩ := h
  refine ⟨key, iv, k, by rw [callsOf_append, hd, List.append_nil, hcalls], hk, fun hl he => ?_⟩
  obtain ⟨hl, he, hb, hsame⟩ := hopen hl he
  obtain ⟨hcount, hkey⟩ := hkeys hl he
  refine ⟨hcount.trans hb.symm, fun hpos => ?_⟩
  obtain ⟨h1, h2⟩ := hsame (hcount ▸ hpos)
  rw [h1, h2]
  exact hkey hpos

theorem Numbered.sends {j : HandshakeType} (h : Numbered log v) (hl : v.listed) (he : ¬ v.Late)
    (hb : v.built = v.sendSeqNum.toNat) (hw : v.serverWriteIvSeqNum = v.sendSeqNum)
    (hlt : v.sendSeqNum.toNat < 4)
    (hj : ({ v.sends with handshakeState := j } : Stage).built = v.sends.sendSeqNum.toNat) :
    Numbered (log ++ v.calls) { v.sends with handshakeState := j } := by
  cases hc : v.clear with
  | true =>
    have hsends : v.sends = v := if_pos hc
    have hcalls : v.calls = [] := if_pos hc
    rw [hcalls]
    refine h.silent rfl fun _ _ => ⟨hl, he, ?_, fun _ => ?_⟩
    · rw [hj, hsends, hb]
    · rw [hsends]
      exact ⟨rfl, rfl⟩
  | false =>
    have hclear : ¬ v.clear = true := by rw [hc]; exact nofun
    have hcalls : v.calls = [.encrypts v.call] := if_neg hclear
    have hsends : v.sends = { v with sendSeqNum := v.sendSeqNum + 1
                                     serverWriteIvSeqNum := v.sendSeqNum + 1 } := if_neg hclear
    obtain ⟨key, iv, k, hlog, hk, hkeys⟩ := h
    obtain ⟨hcount, hkey⟩ := hkeys hl he
    have hnum : v.sendSeqNum = UInt64.ofNat k := by
      rw [hcount, hb]
      exact (UInt64.ofNat_toNat).symm
    have hcall : v.call = .number v.serverHandshakeKey v.serverHandshakeIv k := by
      simp only [Stage.call, EncryptCall.number, hw, hnum, makeNonce_eq]
    have hprev : (List.range k).map (EncryptCall.number key iv)
        = (List.range k).map (EncryptCall.number v.serverHandshakeKey v.serverHandshakeIv) := by
      cases k with
      | zero => rfl
      | succ k =>
        obtain ⟨rfl, rfl⟩ := hkey (Nat.succ_pos k)
        rfl
    refine ⟨v.serverHandshakeKey, v.serverHandshakeIv, k + 1, ?_, by omega, fun _ _ => ⟨?_, fun _ => ?_⟩⟩
    · rw [callsOf_append, hlog, hprev, hcalls, List.range_succ, List.map_append, hcall]
      rfl
    · rw [hj, hsends]
      show k + 1 = (v.sendSeqNum + 1).toNat
      rw [UInt64.toNat_add]
      simp only [UInt64.toNat_one]
      omega
    · rw [hsends]
      exact ⟨rfl, rfl⟩

theorem Stage.Step.numbered (hs : v.Step ds v') (hv : v.Sound) (h : Numbered log v) :
    Numbered (log ++ ds) v' := by
  have hcounted := hv.counted
  have hearly : ∀ {k}, v.handshakeState = k → ¬ (k = .clientCipherSpec ∨ k = .finished) → ¬ v.Late := by
    rintro k rfl hk
    exact hk
  unfold Stage.Counted at hcounted
  have hsend : ∀ {m : UInt64}, v.sendSeqNum = (if v.clear then 0 else m) → v.sendSeqNum.toNat ≤ m.toNat := by
    intro m hm
    rw [hm]
    split
    · exact Nat.zero_le _
    · exact Nat.le_refl _
  cases hs with
  | cipherSpec => exact h.silent rfl fun _ he => absurd (.inl rfl) he
  | finish => exact h.silent rfl fun _ he => absurd (.inr rfl) he
  | serverHello hl hst =>
    refine h.silent rfl fun _ _ => ⟨hl, hearly hst (by decide), ?_, fun _ => ⟨rfl, rfl⟩⟩
    simp only [Stage.built, hst]
  | keys hl hst =>
    refine h.silent rfl fun _ he => ⟨hl, he, rfl, fun hpos => ?_⟩
    simp only [Stage.built, hst] at hpos
    exact absurd hpos (Nat.lt_irrefl 0)
  | encryptedExtensions hl hst =>
    simp only [hst] at hcounted
    refine h.sends hl (hearly hst (by decide)) ?_ (hcounted.2.trans hcounted.1.symm) ?_ rfl
    · simp only [Stage.built, hst, hcounted.1]
      rfl
    · rw [hcounted.1]
      decide
  | certificate hl hst =>
    simp only [hst] at hcounted
    refine h.sends hl (hearly hst (by decide)) ?_ hcounted.1 ?_ rfl
    · simp only [Stage.built, hst]
    · exact Nat.lt_of_le_of_lt (hsend hcounted.2) (by decide)
  | certificateVerify hl hst =>
    simp only [hst] at hcounted
    refine h.sends hl (hearly hst (by decide)) ?_ hcounted.1 ?_ rfl
    · simp only [Stage.built, hst]
    · exact Nat.lt_of_le_of_lt (hsend hcounted.2) (by decide)
  | finished hl hst hn =>
    simp only [hst] at hcounted
    have hsame : ({ v.sends with handshakeState := .certificateVerify } : Stage) = v.sends := by
      rw [v.sends_eq, ← hst]
    rw [← hsame]
    refine h.sends hl (hearly hst (by decide)) ?_ hcounted.1 ?_ rfl
    · simp only [Stage.built, hst]
    · exact Nat.lt_of_le_of_lt (hsend hn) (by decide)
  | flight => exact h.silent rfl fun _ he => absurd (.inr rfl) he
  | apply => exact h.silent rfl fun hl he => ⟨hl, he, rfl, fun _ => ⟨rfl, rfl⟩⟩
  | store =>
    refine h.silent ?_ fun hl he => ⟨hl, he, rfl, fun _ => ⟨rfl, rfl⟩⟩
    rw [callsOf_append, callsOf_loses]
    rfl
  | forward => exact h.silent rfl fun hl he => ⟨hl, he, rfl, fun _ => ⟨rfl, rfl⟩⟩
  | migFin => exact h.silent rfl fun hl he => ⟨hl, he, rfl, fun _ => ⟨rfl, rfl⟩⟩
  | refuse => exact h.silent rfl fun hl he => ⟨hl, he, rfl, fun _ => ⟨rfl, rfl⟩⟩
  | clientEnds => exact h.silent rfl fun hl he => ⟨hl, he, rfl, fun _ => ⟨rfl, rfl⟩⟩
  | hostEnds => exact h.silent rfl fun hl he => ⟨hl, he, rfl, fun _ => ⟨rfl, rfl⟩⟩
  | remove => exact h.silent (callsOf_loses v) fun hl => absurd hl id

theorem lifeRule_numbered : LifeRule Numbered where
  initial := ⟨[], [], 0, rfl, Nat.zero_le 4, fun hl => absurd hl id⟩
  created p v hv hout := by
    refine ⟨[], [], 0, rfl, Nat.zero_le 4, fun _ he => ⟨?_, fun h => absurd h (Nat.lt_irrefl 0)⟩⟩
    have hst : v.handshakeState = .helloRequest := (hv.out hout).2.resolve_right he
    simp only [Stage.built, Stage.created, hst]
  step _ _ _ _ hv hs h := hs.numbered hv h

end

/-! ### The records of the calls -/

section

variable {env : Env} {e : Session} {hello mac : Bytes} {msgType : HandshakeType} {body : Bytes} {i k : Nat}

/-- The record that `encrypt_record` makes of `text` in a call. -/
def EncryptCall.record (env : Env) (version : ProtocolVersion) (call : EncryptCall) (text : Bytes) : Bytes :=
  let header := recordHeader .applicationData version (text.length + gcmTagSize)
  let (ct, tag) := env.crypto.gcmEncrypt call.key call.nonce header text
  header ++ ct.val ++ tag.val

/-- `send_buffer` holds a ServerHello in clear and behind it the record of each call. -/
def Wrote (env : Env) (calls : List EncryptCall) (e : Session) : Prop :=
  ∃ hello texts, texts.length = calls.length
    ∧ e.sendBuffer = Tls.Record.encode
        { type := ContentType.handshake.code, version := (e.version.major, e.version.minor)
          fragment := Tls.message HandshakeType.serverHello.code hello }
      ++ (List.zipWith (EncryptCall.record env e.version) calls texts).flatten

theorem sentRecord_call (hw : e.writeSp.bulkCipherAlgorithm ≠ .noCipher)
    (hshort : (sentRecord env e (UInt64.ofNat i) .applicationData msgType body).fragment.length < 65536) :
    (sentRecord env e (UInt64.ofNat i) .applicationData msgType body).encode
      = (EncryptCall.number (slice e.tls13Ctx.serverHandshakeKey 0 32) e.tls13Ctx.serverHandshakeIv i).record env
        e.version (innerText .applicationData msgType body) := by
  rw [← sentRecord_encode hshort, protect, if_neg hw, sealOverhead, if_neg hw, makeNonce_eq]
  exact (List.append_assoc ..).symm

def flightMessage (env : Env) (e : Session) (mac : Bytes) : Nat → HandshakeType × Bytes
  | 0 => (.encryptedExtensions, put16 0)
  | 1 => (.certificate, certificateBody env)
  | 2 => (.certificateVerify, certificateVerifyBody e)
  | _ => (.finished, mac)

def numberedRecord (env : Env) (e : Session) (mac : Bytes) (i : Nat) : Tls.Record :=
  sentRecord env e (UInt64.ofNat i) .applicationData (flightMessage env e mac i).1 (flightMessage env e mac i).2

theorem flight_take (hk : k ≤ 4) : (flight env e hello mac).take (k + 1) =
    { type := ContentType.handshake.code, version := (e.version.major, e.version.minor)
      fragment := Tls.message HandshakeType.serverHello.code hello }
      :: (List.range k).map (numberedRecord env e mac) := by
  have hall : flight env e hello mac =
      { type := ContentType.handshake.code, version := (e.version.major, e.version.minor)
        fragment := Tls.message HandshakeType.serverHello.code hello }
        :: (List.range 4).map (numberedRecord env e mac) := rfl
  rw [hall, List.take_succ_cons, ← List.map_take, List.take_range, Nat.min_eq_left hk]

theorem Buffered.wrote (hb : Buffered env e (k + 1) hello mac) (hw : e.writeSp.bulkCipherAlgorithm ≠ .noCipher)
    (hk : k ≤ 4) : Wrote env ((List.range k).map
      (EncryptCall.number (slice e.tls13Ctx.serverHandshakeKey 0 32) e.tls13Ctx.serverHandshakeIv)) e := by
  have hshort := hb.short
  have hbuffer := hb.buffer
  rw [flight_take hk] at hshort hbuffer
  let text := fun i => innerText .applicationData (flightMessage env e mac i).1 (flightMessage env e mac i).2
  refine ⟨hello, (List.range k).map text, by simp, ?_⟩
  rw [hbuffer, List.flatMap_cons, List.zipWith_map, List.zipWith_self, List.flatMap_map, List.flatMap]
  congr 2
  exact List.map_congr_left fun i hi => sentRecord_call hw
    (hshort _ (List.mem_cons_of_mem _ (List.mem_map_of_mem hi)))

theorem Numbered.wrote {log : List Deed} {s : Sys} {c : ConnId} (hn : Numbered log (s.stage c))
    (hl : (s.stage c).listed) (he : ¬ (s.stage c).Late)
    (hb : Buffered env (s.conns c).sess ((s.stage c).built + 1) hello mac)
    (hw : (s.conns c).sess.writeSp.bulkCipherAlgorithm ≠ .noCipher) : Wrote env (callsOf log) (s.conns c).sess := by
  obtain ⟨key, iv, k, hcalls, hk, hkeys⟩ := hn
  obtain ⟨rfl, hsame⟩ := hkeys hl he
  have hwrote := hb.wrote hw hk
  have hcalls' : callsOf log = (List.range (s.stage c).built).map (EncryptCall.number
      (slice (s.conns c).sess.tls13Ctx.serverHandshakeKey 0 32) (s.conns c).sess.tls13Ctx.serverHandshakeIv) := by
    rw [hcalls]
    refine List.map_congr_left fun i hi => ?_
    obtain ⟨rfl, rfl⟩ := hsame (Nat.zero_lt_of_lt (List.mem_range.mp hi))
    rfl
  rw [hcalls']
  exact hwrote

end

section

variable {env : Env} {inputs : List Input} {n ringCnt : Nat} {L : Observed}

theorem run_wrote (h : run (observedStep env) inputs (.initial n ringCnt) = .ok L) {c : ConnId}
    (hw : (L.state.conns c).sess.writeSp.bulkCipherAlgorithm ≠ .noCipher)
    (hst : (L.state.conns c).sess.handshakeState ∈ [.serverHello, .certificate, .certificateVerify]) :
    Wrote env (callsOf (L.log c)) (L.state.conns c).sess := by
  have hobeys := run_obeys lifeRule_numbered h
  have hflown := run_flown (run_observed h) c
  have hstate : (L.state.stage c).handshakeState = (L.state.conns c).sess.handshakeState := rfl
  have hseq : (L.state.stage c).sendSeqNum = (L.state.conns c).sess.sendSeqNum := rfl
  have hnew : ¬ (L.state.stage c).Late := by
    rintro (hlate | hlate) <;> rw [← hstate, hlate] at hst <;> exact absurd hst (by decide)
  have hl : (L.state.stage c).listed := by
    by_contra hout
    rcases ((hobeys.1.sound c).out hout).2 with hfirst | hlate
    · rw [← hstate, hfirst] at hst
      exact absurd hst (by decide)
    · exact hnew hlate
  have hwrote : ∀ {k hello mac}, (L.state.stage c).built = k → Buffered env (L.state.conns c).sess (k + 1) hello mac →
      Wrote env (callsOf (L.log c)) (L.state.conns c).sess := by
    rintro _ hello mac rfl hb
    exact (hobeys.2 c).wrote hl hnew hb hw
  simp only [List.mem_cons, List.not_mem_nil, or_false] at hst
  rcases hst with hst | hst | hst
  · obtain ⟨client, hello, htold, -⟩ := hflown.hello hst
    exact hwrote (by simp only [Stage.built, hstate, hst]) htold.flight
  · obtain ⟨client, hello, htold, -⟩ := hflown.certified hst
    exact hwrote (by simp only [Stage.built, hstate, hst, hseq, htold.seq hw]; rfl) htold.flight
  · obtain ⟨client, hello, mac, htold, -⟩ := hflown.complete hst
    exact hwrote (by simp only [Stage.built, hstate, hst, hseq, htold.seq hw]; rfl) htold.flight

/-- In every lifetime of a connection the calls of `encrypt_record` are numbered from 0 on, under one
key and iv: all three counters of a call are its number, and its nonce is the iv XOR its number, so
that no nonce is used twice.  The step `x` is the next one; it does not end in a failed send.  While the
flight is built `send_buffer` consists of the ServerHello and of the records that AES-GCM has made under
the keys and nonces of the calls. -/
theorem nonces_numbered (h : run (observedStep env) inputs (.initial n ringCnt) = .ok L) (x : Input) (c : ConnId) :
    (∃ key iv k, callsOf (L.log c ++ deeds env x L.state c)
      = (List.range k).map (EncryptCall.number key iv))
    ∧ ((callsOf (L.log c ++ deeds env x L.state c)).map EncryptCall.nonce).Nodup
    ∧ step env x L.state ≠ .error .sendFailed
    ∧ ((L.state.conns c).sess.writeSp.bulkCipherAlgorithm ≠ .noCipher →
      (L.state.conns c).sess.handshakeState ∈ [.serverHello, .certificate, .certificateVerify] →
      Wrote env (callsOf (L.log c)) (L.state.conns c).sess) := by
  obtain ⟨v, key, iv, k, hcalls, hk, -⟩ := run_deeds lifeRule_numbered h x c
  refine ⟨⟨key, iv, k, hcalls⟩, ?_, fun hfail => ?_, run_wrote h⟩
  · rw [hcalls, List.map_map]
    refine List.Nodup.map_on (fun i hi j hj hij => ?_) List.nodup_range
    have hi := List.mem_range.mp hi
    have hj := List.mem_range.mp hj
    have hsame : makeNonce iv (UInt64.ofNat i) = makeNonce iv (UInt64.ofNat j) := by
      rw [makeNonce_eq, makeNonce_eq]
      exact hij
    have hnat := congrArg UInt64.toNat (makeNonce_inj hsame)
    rw [UInt64.toNat_ofNat', UInt64.toNat_ofNat'] at hnat
    omega
  · cases step_throws env (run_obeys lifeRule_numbered h).1 x _ hfail with
    | common hc => exact hc

end

/- A flight that waits for the host: four calls. -/
theorem nonces_numbered_flight : ∃ L,
    run (observedStep sampleEnv) sampleServerFlight (.initial 2 8) = .ok L
    ∧ (callsOf (L.log 0)).length = 4
    ∧ (∃ key iv k, callsOf (L.log 0 ++ deeds sampleEnv (.serve 0) L.state 0)
      = (List.range k).map (EncryptCall.number key iv))
    ∧ ((callsOf (L.log 0 ++ deeds sampleEnv (.serve 0) L.state 0)).map EncryptCall.nonce).Nodup
    ∧ Wrote sampleEnv (callsOf (L.log 0)) (L.state.conns 0).sess := by
  obtain ⟨L, hL, hlen, hw, hst⟩ := endsIn_ok
    (fun L : Observed => (callsOf (L.log 0)).length = 4
      ∧ (L.state.conns 0).sess.writeSp.bulkCipherAlgorithm ≠ .noCipher
      ∧ (L.state.conns 0).sess.handshakeState ∈ [.serverHello, .certificate, .certificateVerify])
    (run (observedStep sampleEnv) sampleServerFlight (.initial 2 8)) (by decide +kernel)
  have hn := nonces_numbered hL (.serve 0) 0
  exact ⟨L, hL, hlen, hn.1, hn.2.1, hn.2.2.2 hw hst⟩

end Xtls.Nic
