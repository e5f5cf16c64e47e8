import Xtls.Nic.Packet
import Xtls.Nic.Read

/-!
# What serving and removing a connection can do

Inversion lemmas for `remove_session`, `get_processed_crypto` and `send_remain_server_records`, and
the rules that carry a relation through the two loops over records.
-/

namespace Xtls.Nic

/-! ### Removal -/

def clearedSession (rand : UInt64) (e : Session) : Session :=
  { clearSessionFields rand e with
    pendingPkaOp := none, recvQ := [], numCurrentRecords := 0
    id_ := initRandom rand 32, numOfRetransmittedCh := 0, numOfRetransmittedMetaPkt := 0 }

def pendingRecord (ctx : Ctx) (e : Session) : Option Record :=
  e.pendingPkaOp.bind fun o => (ctx.ops o).data

/-- Everything `remove_session` does. -/
structure Removed (s s' : St) : Prop where
  active : 0 < s.ctx.activeCnt
  id : s'.conn.id = s.conn.id
  sess : s'.conn.sess = clearedSession s.ctx.outside.rand s.conn.sess
  tcp : s'.conn.tcp = clearTcpConnection s.conn.tcp
  table : s'.ctx.htTable = (htRemove s.conn.tcp s.conn.id s.ctx).htTable
  htCount : s'.ctx.htCount = s.ctx.htCount - 1
  activeCnt : s'.ctx.activeCnt = s.ctx.activeCnt - 1
  out : s'.ctx.out = s.ctx.out
  outside : s'.ctx.outside = s.ctx.outside
  freeQ : s'.ctx.freeSessionQ = s.ctx.freeSessionQ ++ [s.conn.id]
  freeCnt : s'.ctx.freeCnt = s.ctx.freeCnt + 1
  trace : s'.ctx.trace =
    .remove s.conn.id (outstanding s.ctx s.conn.id) :: .clear s.conn :: s.ctx.trace
  ring : s'.ctx.submitPkaRing = s.ctx.submitPkaRing
  ringCnt : s'.ctx.ringCnt = s.ctx.ringCnt
  engine : s'.ctx.engine = s.ctx.engine
  pool : s'.ctx.opPool = s.ctx.opPool ++ s.conn.sess.pendingPkaOp.toList
  ops : ∀ o, s'.ctx.ops o = if s.conn.sess.pendingPkaOp = some o then {} else s.ctx.ops o
  cryptoCnt : s'.ctx.curCryptoCnt =
    if s.conn.sess.pendingPkaOp.isSome then s.ctx.curCryptoCnt - 1 else s.ctx.curCryptoCnt
  records : s'.ctx.recordPool = s.ctx.recordPool
    ++ ((pendingRecord s.ctx s.conn.sess).toList ++ s.conn.sess.recvQ).map Record.slot
  recordCnt : s'.ctx.freeRecordCnt = s.ctx.freeRecordCnt
    + ((pendingRecord s.ctx s.conn.sess).toList ++ s.conn.sess.recvQ).length

section

variable {env : Env} {s s' : St} {o : OpId}

theorem freeRecords_core (rs : List Record) (c : Ctx) :
    (freeRecords rs c).core = c.core ∧ (freeRecords rs c).ops = c.ops
      ∧ (freeRecords rs c).opPool = c.opPool ∧ (freeRecords rs c).out = c.out := by
  induction rs generalizing c with
  | nil => exact ⟨rfl, rfl, rfl, rfl⟩
  | cons r rs ih => exact ih (freeRecord r c)

theorem freeRecords_pool (rs : List Record) (c : Ctx) :
    (freeRecords rs c).recordPool = c.recordPool ++ rs.map Record.slot
      ∧ (freeRecords rs c).freeRecordCnt = c.freeRecordCnt + rs.length := by
  induction rs generalizing c with
  | nil => simp [freeRecords]
  | cons r rs ih =>
    obtain ⟨hpool, hcnt⟩ := ih (freeRecord r c)
    refine ⟨hpool.trans (by simp [freeRecord]), hcnt.trans ?_⟩
    simp only [freeRecord, List.length_cons]
    push_cast
    omega

structure Released (s s' : St) : Prop where
  id : s'.conn.id = s.conn.id
  sess : ∃ n, s'.conn.sess = { s.conn.sess with pendingPkaOp := none, numCurrentRecords := n }
  tcp : s'.conn.tcp = s.conn.tcp
  ctx : { s'.ctx.core with curCryptoCnt := 0 } = { s.ctx.core with curCryptoCnt := 0 }
  out : s'.ctx.out = s.ctx.out
  pool : s'.ctx.opPool = s.ctx.opPool ++ s.conn.sess.pendingPkaOp.toList
  ops : ∀ o, s'.ctx.ops o = if s.conn.sess.pendingPkaOp = some o then {} else s.ctx.ops o
  cryptoCnt : s'.ctx.curCryptoCnt =
    if s.conn.sess.pendingPkaOp.isSome then s.ctx.curCryptoCnt - 1 else s.ctx.curCryptoCnt
  records : s'.ctx.recordPool = s.ctx.recordPool
    ++ (pendingRecord s.ctx s.conn.sess).toList.map Record.slot
  recordCnt : s'.ctx.freeRecordCnt = s.ctx.freeRecordCnt
    + (pendingRecord s.ctx s.conn.sess).toList.length

theorem removePendingPkaOp_released (s : St) : Released s (removePendingPkaOp s) := by
  unfold removePendingPkaOp
  cases hp : s.conn.sess.pendingPkaOp with
  | none =>
    refine ⟨rfl, ⟨s.conn.sess.numCurrentRecords, ?_⟩, rfl, rfl, rfl, by simp [hp], by simp [hp], by simp [hp],
      by simp [pendingRecord, hp], by simp [pendingRecord, hp]⟩
    dsimp only
    rw [← hp]
  | some o =>
    have hops : ∀ i, (if i = o then ({} : Op) else s.ctx.ops i)
        = if some o = some i then {} else s.ctx.ops i := fun i => by
      by_cases hi : i = o
      · simp [hi]
      · simp [hi, Ne.symm hi]
    dsimp only
    split <;> rename_i hd <;>
      refine ⟨rfl, ⟨_, rfl⟩, rfl, rfl, rfl, by rw [hp]; rfl, ?_, by rw [hp]; rfl, ?_, ?_⟩
    · rw [hp]
      exact hops
    · simp only [pendingRecord, hp, Option.bind_some, hd]
      rfl
    · simp only [pendingRecord, hp, Option.bind_some, hd]
      rfl
    · rw [hp]
      exact hops
    · simp only [pendingRecord, hp, Option.bind_some, hd]
      exact (List.append_nil _).symm
    · simp only [pendingRecord, hp, Option.bind_some, hd]
      exact (Int.add_zero _).symm

theorem clearSslSession_sess (s : St) :
    (clearSslSession s).conn.sess = clearedSession s.ctx.outside.rand s.conn.sess := by
  obtain ⟨n, hn⟩ := (removePendingPkaOp_released
    (s.mapSess (clearSessionFields s.ctx.outside.rand))).sess
  simp only [clearSslSession, St.mapSess_sess, St.mapCtx_conn, hn]
  rfl

theorem clearSslSession_ctx (s : St) :
    { (clearSslSession s).ctx.core with curCryptoCnt := 0 } = { s.ctx.core with curCryptoCnt := 0 } :=
  let t := removePendingPkaOp (s.mapSess (clearSessionFields s.ctx.outside.rand))
  have hfree := (freeRecords_core t.conn.sess.recvQ t.ctx).1
  have hrel := (removePendingPkaOp_released (s.mapSess (clearSessionFields s.ctx.outside.rand))).ctx
  (congrArg (fun c : Ctx => { c with curCryptoCnt := 0 }) hfree).trans hrel

theorem clearSslSession_out (s : St) : (clearSslSession s).ctx.out = s.ctx.out :=
  let t := removePendingPkaOp (s.mapSess (clearSessionFields s.ctx.outside.rand))
  have hrel := (removePendingPkaOp_released (s.mapSess (clearSessionFields s.ctx.outside.rand))).out
  (freeRecords_core t.conn.sess.recvQ t.ctx).2.2.2.trans hrel

theorem clearSslSession_ops (s : St) :
    (clearSslSession s).ctx.opPool = s.ctx.opPool ++ s.conn.sess.pendingPkaOp.toList
    ∧ ∀ o, (clearSslSession s).ctx.ops o
        = if s.conn.sess.pendingPkaOp = some o then {} else s.ctx.ops o := by
  let t := removePendingPkaOp (s.mapSess (clearSessionFields s.ctx.outside.rand))
  obtain ⟨-, hops, hpool, -⟩ := freeRecords_core t.conn.sess.recvQ t.ctx
  have hrel := removePendingPkaOp_released (s.mapSess (clearSessionFields s.ctx.outside.rand))
  exact ⟨hpool.trans hrel.pool, fun o => (congrFun hops o).trans (hrel.ops o)⟩

theorem clearSslSession_cnt (s : St) :
    (clearSslSession s).ctx.curCryptoCnt =
      if s.conn.sess.pendingPkaOp.isSome then s.ctx.curCryptoCnt - 1 else s.ctx.curCryptoCnt :=
  let t := removePendingPkaOp (s.mapSess (clearSessionFields s.ctx.outside.rand))
  have hfree := (freeRecords_core t.conn.sess.recvQ t.ctx).1
  have hrel := removePendingPkaOp_released (s.mapSess (clearSessionFields s.ctx.outside.rand))
  (congrArg Ctx.curCryptoCnt hfree :).trans hrel.cryptoCnt

theorem clearSslSession_records (s : St) :
    (clearSslSession s).ctx.recordPool = s.ctx.recordPool
      ++ ((pendingRecord s.ctx s.conn.sess).toList ++ s.conn.sess.recvQ).map Record.slot
    ∧ (clearSslSession s).ctx.freeRecordCnt = s.ctx.freeRecordCnt
      + ((pendingRecord s.ctx s.conn.sess).toList ++ s.conn.sess.recvQ).length := by
  have hrel := removePendingPkaOp_released (s.mapSess (clearSessionFields s.ctx.outside.rand))
  have hq : (removePendingPkaOp (s.mapSess (clearSessionFields s.ctx.outside.rand))).conn.sess.recvQ
      = s.conn.sess.recvQ := by
    obtain ⟨n, hn⟩ := hrel.sess
    rw [hn]
    rfl
  obtain ⟨hpool, hcnt⟩ := freeRecords_pool s.conn.sess.recvQ
    (removePendingPkaOp (s.mapSess (clearSessionFields s.ctx.outside.rand))).ctx
  constructor
  · simp only [clearSslSession, St.mapSess_ctx, St.mapCtx_ctx, hq]
    rw [hpool, hrel.records, List.map_append, ← List.append_assoc]
    rfl
  · simp only [clearSslSession, St.mapSess_ctx, St.mapCtx_ctx, hq]
    rw [hcnt, hrel.recordCnt, List.length_append, Int.natCast_add, ← Int.add_assoc]
    rfl

theorem clearSslSession_conn (s : St) :
    (clearSslSession s).conn.id = s.conn.id ∧ (clearSslSession s).conn.tcp = s.conn.tcp :=
  have hrel := removePendingPkaOp_released (s.mapSess (clearSessionFields s.ctx.outside.rand))
  ⟨hrel.id, hrel.tcp⟩

theorem removeSession_removed (h : removeSession s = .ok s') : Removed s s' := by
  unfold removeSession at h
  split at h
  · cases h
  · rename_i hactive
    cases h
    -- the entry leaves the table, then the session and the connection are cleared
    let cut := (s.mapCtx (htRemove s.conn.tcp s.conn.id)).mapCtx fun c =>
      { c with activeCnt := c.activeCnt - 1 }
    have hsess := clearSslSession_sess cut
    have hctx := clearSslSession_ctx cut
    obtain ⟨hpool, hops⟩ := clearSslSession_ops cut
    obtain ⟨hrecords, hrecordCnt⟩ := clearSslSession_records cut
    obtain ⟨hid, htcp⟩ := clearSslSession_conn cut
    exact
      { active := by omega
        id := hid
        sess := hsess
        tcp := congrArg clearTcpConnection htcp
        table := (congrArg Ctx.htTable hctx :)
        htCount := (congrArg Ctx.htCount hctx :)
        activeCnt := (congrArg Ctx.activeCnt hctx :)
        out := (clearSslSession_out cut :)
        outside := (congrArg Ctx.outside hctx :)
        freeQ := (congrArg (fun c => c.freeSessionQ ++ [s.conn.id]) hctx :)
        freeCnt := (congrArg (fun c => c.freeCnt + 1) hctx :)
        trace := (congrArg (fun c => .remove s.conn.id (outstanding s.ctx s.conn.id)
          :: .clear s.conn :: c.trace) hctx :)
        ring := (congrArg Ctx.submitPkaRing hctx :)
        ringCnt := (congrArg Ctx.ringCnt hctx :)
        engine := (congrArg Ctx.engine hctx :)
        pool := hpool
        ops := hops
        cryptoCnt := clearSslSession_cnt cut
        records := hrecords
        recordCnt := hrecordCnt }

theorem removeHws_cases (h : removeHws s = .ok s') :
    (¬ (s.conn.tcp.hwsApplied ∧ s.conn.tcp.hwsReadyToDel) ∧ s' = s)
    ∨ (s.conn.tcp.hwsApplied ∧ s.conn.tcp.hwsReadyToDel) ∧ Removed s s' := by
  unfold removeHws at h
  split at h
  · rename_i hw
    exact .inr ⟨hw, removeSession_removed h⟩
  · rename_i hw
    cases h
    exact .inl ⟨hw, rfl⟩

theorem SendFrame.grows {a b : St} (h : SendFrame a b) : a.ctx.trace <:+ b.ctx.trace :=
  h.trace ▸ List.suffix_refl _

theorem Submits.trace {a b : St} {fill : Op} (h : Submits fill o a b) : b.ctx.trace = a.ctx.trace :=
  (congrArg Ctx.trace h.ctx :)

theorem Submits.grows {a b : St} {fill : Op} (h : Submits fill o a b) :
    a.ctx.trace <:+ b.ctx.trace :=
  h.trace ▸ List.suffix_refl _

theorem Removed.grows {a b : St} (h : Removed a b) : a.ctx.trace <:+ b.ctx.trace :=
  h.trace ▸ (List.suffix_cons _ _).trans (List.suffix_cons _ _)

theorem ReadOutcome.grows {r : Record} (h : ReadOutcome env r s s') :
    s.ctx.trace <:+ s'.ctx.trace := by
  cases h with
  | dropped hf => exact hf.grows
  | hello _ _ _ hf _ hsub => exact hf.grows.trans hsub.grows
  | cipherSpec _ _ hf hf' =>
    have h' := hf'.grows
    exact hf.grows.trans h'
  | alert _ _ hf hr => exact hf.grows.trans (removeSession_removed hr).grows
  | finished _ _ _ _ hf hf' =>
    have h' := hf'.grows
    exact hf.grows.trans h'
  | refused _ _ _ _ hf hw hf' hr =>
    have h' := hf'.grows.trans (removeSession_removed hr).grows
    rcases removeHws_cases hw with ⟨-, rfl⟩ | ⟨-, hrem⟩
    · exact hf.grows.trans h'
    · have h'' := hrem.grows.trans h'
      exact hf.grows.trans h''

/-! ### PKA results -/

def sharedSecretRequest (pub : Bytes) (s : St) : St :=
  (setHandshakeState .serverHello s).mapSess fun e =>
    { e with sharedSecretOperand := stringToOperand pub true }

theorem answerClientHello_cases {r : Record} {ch : ClientHello}
    (h : answerClientHello env r ch s = .ok s') :
    ∃ off s1 s2, ch.clientPubKey = some off ∧
      SendFrame (setPendingSp r ch (slice r.pf off x25519KeyLen) s) s1 ∧
      ((∃ o, Rejects o (sharedSecretRequest (slice r.pf off x25519KeyLen) s1) s2) ∨
        ∃ o, Submits { opcode := .ecdheSharedSecretCalc
                       pkaIn := some (stringToOperand (slice r.pf off x25519KeyLen) true)
                       pkaIn1 := some s1.conn.sess.ecdhePrivKey } o
          (sharedSecretRequest (slice r.pf off x25519KeyLen) s1) s2) ∧
      s' = s2.mapSess fun e => { e with writeSp := e.pendingSp, sendSeqNum := 0 } := by
  unfold answerClientHello at h
  split at h
  · cases h
  · rename_i off hoff
    obtain ⟨s1, h1, h⟩ := bind_ok h
    obtain ⟨⟨ret, s2⟩, h2, h⟩ := bind_ok h
    cases h
    refine ⟨off, s1, s2, hoff, sendServerHello_frame h1, ?_, rfl⟩
    rcases requestPka_cases h2 with ⟨-, hrej⟩ | ⟨-, hsub⟩
    · exact .inl hrej
    · exact .inr hsub

theorem answerClientHello_returns {r : Record} {ch : ClientHello}
    (h : answerClientHello env r ch s = .ok s') : Returns [] s.ctx s'.ctx := by
  unfold answerClientHello at h
  split at h
  · cases h
  · obtain ⟨s1, h1, h⟩ := bind_ok h
    obtain ⟨⟨ret, s2⟩, h2, h⟩ := bind_ok h
    cases h
    have hsend := sendServerHello_returns h1
    have hreq := calculateSharedSecret_returns h2
    exact hsend.trans hreq

theorem answerClientHello_trace {r : Record} {ch : ClientHello}
    (h : answerClientHello env r ch s = .ok s') : s'.ctx.trace = s.ctx.trace := by
  obtain ⟨off, s1, s2, -, hf, hreq, rfl⟩ := answerClientHello_cases h
  have h2 : s2.ctx.trace = s1.ctx.trace := by
    rcases hreq with ⟨o, hrej⟩ | ⟨o, hsub⟩
    · exact hrej.frame.trace
    · exact hsub.trace
  exact h2.trans hf.trace

theorem answerClientHello_state {r : Record} {ch : ClientHello}
    (h : answerClientHello env r ch s = .ok s') : s'.conn.sess.handshakeState = .serverHello := by
  obtain ⟨off, s1, s2, -, -, hreq, rfl⟩ := answerClientHello_cases h
  rcases hreq with ⟨o, hrej⟩ | ⟨o, hsub⟩
  · exact hrej.frame.handshakeState
  · exact (congrArg Session.handshakeState hsub.sess :)

/-- A parsed ClientHello, as `unpack_handshake` leaves it in an operation. -/
def Record.IsHello (r : Record) (ch : ClientHello) : Prop :=
  r.plainText.recordType = some .handshake ∧ r.fragment = .clientHello ch

inductive CryptoOutcome (env : Env) (s : St) : St → Prop
  | idle (completed : s.conn.sess.completedCrypto = false) : CryptoOutcome env s s
  | keyGen {o : OpId} {r : Record} {ch : ClientHello} {t u : St}
      (completed : s.conn.sess.completedCrypto = true) (op : s.conn.sess.pkaOp = some o)
      (state : s.conn.sess.handshakeState = .helloRequest)
      (data : (s.ctx.ops o).data = some r) (hello : r.IsHello ch)
      (frame : SendFrame (handleAfterEcdheKeyGen (clearPending s)) t)
      (answer : answerClientHello env r ch t = .ok u) (ledger : Returns [] s.ctx u.ctx) :
      CryptoOutcome env s (finishCrypto o (deleteRecord r u))
  | sharedSecret {o : OpId}
      (completed : s.conn.sess.completedCrypto = true) (op : s.conn.sess.pkaOp = some o)
      (state : s.conn.sess.handshakeState = .serverHello) :
      CryptoOutcome env s (finishCrypto o (handleAfterEcdheSharedSecretCalc env (clearPending s)))
  | signature {o : OpId}
      (completed : s.conn.sess.completedCrypto = true) (op : s.conn.sess.pkaOp = some o)
      (state : s.conn.sess.handshakeState = .certificate) :
      CryptoOutcome env s (finishCrypto o (handleAfterEcdsaSignature (clearPending s)))

theorem handleReadRecord_grows {r : Record} {ret : Int}
    (h : handleReadRecord env r s = .ok (ret, s')) : s.ctx.trace <:+ s'.ctx.trace := by
  unfold handleReadRecord at h
  split at h
  · obtain ⟨t, ht, h⟩ := bind_ok h
    have hf := (storeHandshake_frame ht).grows
    split at h
    · split at h
      · cases h
        exact hf
      · obtain ⟨u, hu, h⟩ := bind_ok h
        cases h
        have hu' : t.ctx.trace <:+ u.ctx.trace := answerClientHello_trace hu ▸ List.suffix_refl _
        exact hf.trans hu'
    · cases h
  · have hs := Except.ok.inj h
    unfold handleChangeCipherSpec at hs
    dsimp only at hs
    split at hs <;> cases hs <;> exact List.suffix_refl _
  · unfold handleAlert at h
    dsimp only at h
    split at h
    · split at h
      · obtain ⟨t, ht, h⟩ := bind_ok h
        cases h
        exact ((deleteRecord_frame r s).trans (sendTcpEmpty_frame _ _)).grows.trans
          (removeSession_removed ht).grows
      · cases h
        exact (deleteRecord_frame r s).grows
    · cases h
  · unfold handleApplicationData at h
    split at h
    · cases h
      exact (deleteRecord_frame r s).grows
    · split at h
      · split at h
        · cases h
          exact (deleteRecord_frame r s).grows
        · dsimp only at h
          split at h
          · obtain ⟨t, ht, h⟩ := bind_ok h
            obtain ⟨u, hu, h⟩ := bind_ok h
            cases h
            have hu' := (sendTcpEmpty_frame _ t).grows.trans (removeSession_removed hu).grows
            rcases removeHws_cases ht with ⟨-, rfl⟩ | ⟨-, hrem⟩
            · exact hu'
            · have hrem' := hrem.grows
              exact hrem'.trans hu'
          · cases h
            exact ((sendTcpEmpty_frame TCP_FLAG_ACK (finishHandshake s)).trans
              (deleteRecord_frame r _)).grows
      · cases h
        exact (deleteRecord_frame r s).grows
  · cases h
    exact List.suffix_refl _

theorem getProcessedCrypto_grows (h : getProcessedCrypto env s = .ok s') :
    s.ctx.trace <:+ s'.ctx.trace := by
  unfold getProcessedCrypto at h
  split at h
  · cases h
    exact List.suffix_refl _
  · split at h
    · cases h
    · split at h
      · split at h
        · cases h
        · obtain ⟨⟨ret, t⟩, ht, h⟩ := bind_ok h
          have hg := handleReadRecord_grows ht
          dsimp only at h
          split at h <;> cases h <;> exact hg
      · cases h
        exact List.suffix_refl _
      · cases h
        exact List.suffix_refl _
      · cases h

theorem handleReadRecord_hello {r : Record} {ch : ClientHello} {ret : Int} (hr : r.IsHello ch)
    (hs : s.conn.sess.handshakeState = .helloRequest)
    (h : handleReadRecord env r s = .ok (ret, s')) :
    ∃ t u, SendFrame s t ∧ answerClientHello env r ch t = .ok u ∧ Returns [] s.ctx u.ctx ∧ ret = 0
      ∧ s' = deleteRecord r u := by
  simp only [handleReadRecord, hr.1] at h
  obtain ⟨t, ht, h⟩ := bind_ok h
  have hf := storeHandshake_frame ht
  have hts : t.conn.sess.handshakeState = .helloRequest :=
    hf.handshakeState.trans hs
  simp only [hr.2, hts] at h
  split at h
  · rename_i hle
    exact absurd hle (by decide)
  · obtain ⟨u, hu, h⟩ := bind_ok h
    cases h
    exact ⟨t, u, hf, hu, (storeHandshake_returns ht).trans (answerClientHello_returns hu), rfl, rfl⟩

theorem getProcessedCrypto_outcome
    (hdata : ∀ o r, (s.ctx.ops o).data = some r → ∃ ch, r.IsHello ch)
    (h : getProcessedCrypto env s = .ok s') : CryptoOutcome env s s' := by
  unfold getProcessedCrypto at h
  split at h
  · rename_i hc
    cases h
    exact .idle (by simpa using hc)
  · rename_i hc
    have hc : s.conn.sess.completedCrypto = true := by simpa using hc
    split at h
    · cases h
    · rename_i o ho
      split at h
      · rename_i hs
        split at h
        · cases h
        · rename_i r hr
          obtain ⟨ch, hch⟩ := hdata o r hr
          obtain ⟨⟨ret, t⟩, ht, h⟩ := bind_ok h
          obtain ⟨v, u, hf, hu, hret, rfl, rfl⟩ :=
            handleReadRecord_hello (s := handleAfterEcdheKeyGen (clearPending s)) hch hs ht
          cases h
          exact .keyGen hc ho hs hr hch hf hu hret
      · rename_i hs
        cases h
        exact .sharedSecret hc ho hs
      · rename_i hs
        cases h
        exact .signature hc ho hs
      · cases h

/-! ### The rest of the server flight -/

theorem SendFrame.setBack {a b : St} {h1 h2 : HandshakeType}
    (hf : SendFrame (setHandshakeState h1 a) b) (ha : a.conn.sess.handshakeState = h2) (h0 : h1 ≠ .helloRequest) :
    SendFrame a (setHandshakeState h2 b) := by
  have hid := hf.sessionId.resolve_right fun h => h0 h.1.1
  refine ⟨hf.id, ?_, hf.tcp, hf.tcpState, hf.sentAck, hf.counters, hf.ctx, hf.ops, .inl hid⟩
  have hc : { b.conn.sess.core with handshakeState := h2 }
      = { a.conn.sess.core with handshakeState := h2 } :=
    congrArg (fun e : Session => { e with handshakeState := h2 }) hf.sess
  subst ha
  exact hc

theorem handleAppKeysCalculation_eq (env : Env) (s : St) :
    ∃ k, handleAppKeysCalculation env s = s.mapSess (fun e => { e with tls13Ctx := k })
      ∧ k.handshakeKeyCalculated = s.conn.sess.tls13Ctx.handshakeKeyCalculated
      ∧ k.certSignatured = s.conn.sess.tls13Ctx.certSignatured
      ∧ k.certSignature = s.conn.sess.tls13Ctx.certSignature
      ∧ k.serverHandshakeKey = s.conn.sess.tls13Ctx.serverHandshakeKey
      ∧ k.serverHandshakeIv = s.conn.sess.tls13Ctx.serverHandshakeIv := by
  by_cases hc : s.conn.sess.pendingSp.cipher = TLS_AES_256_GCM_SHA384
  · exact ⟨applicationKeys env.crypto s.conn.sess.handshakeMsgs s.conn.sess.tls13Ctx, by
      simp [handleAppKeysCalculation, St.mapSess, hc], rfl, rfl, rfl, rfl, rfl⟩
  · exact ⟨s.conn.sess.tls13Ctx, by simp [handleAppKeysCalculation, St.mapSess, hc], rfl, rfl, rfl, rfl, rfl⟩

def signatureRequest (env : Env) (s : St) : St :=
  let hash := transcriptHash env.crypto s.conn.sess.handshakeMsgs
  (setHandshakeState .certificate s).mapSess fun e =>
    { e with ecdsaTranscriptHash := stringToOperand hash false
             ecdsaK := stringToOperand hash false }

def signatureOp (env : Env) (s : St) : Op :=
  let hash := transcriptHash env.crypto s.conn.sess.handshakeMsgs
  { opcode := .ecdsaSignature, pkaIn := some env.privKey
    pkaIn1 := some (stringToOperand hash false), pkaIn2 := some (stringToOperand hash false) }

inductive RemainOutcome (env : Env) (s : St) : St → Prop
  | idle : RemainOutcome env s s
  | certificate {s1 s2 s' : St}
      (state : s.conn.sess.handshakeState = .serverHello)
      (keys : s.conn.sess.tls13Ctx.handshakeKeyCalculated = true)
      (frame : SendFrame s s1)
      (frame' : SendFrame (setHandshakeState .encryptedExtensions s1) s2)
      (request : (∃ o, Rejects o (signatureRequest env s2) s')
        ∨ ∃ o, Submits (signatureOp env s2) o (signatureRequest env s2) s')
      (ledger : Returns [] s.ctx s'.ctx) : RemainOutcome env s s'
  | finished {s1 s2 : St} {port : UInt16}
      (state : s.conn.sess.handshakeState = .certificate)
      (signed : s.conn.sess.tls13Ctx.certSignatured = true)
      (frame : SendFrame s s1)
      (frame' : SendFrame (setHandshakeState .certificateVerify s1) s2)
      (ledger : Returns [] s.ctx s2.ctx) : RemainOutcome env s (sendKeyMeta env port
        (handleVerifyDataCalculation env (handleAppKeysCalculation env s2)))
  | pending {s1 : St}
      (state : s.conn.sess.handshakeState = .certificateVerify)
      (fin : s.conn.tcp.recvMigFin = true) (frame : FlushFrame s s1) (ledger : Returns [] s.ctx s1.ctx) :
      RemainOutcome env s (setHandshakeState .finished s1)

theorem sendRemainServerRecords_outcome (h : sendRemainServerRecords env s = .ok s') :
    RemainOutcome env s s' := by
  unfold sendRemainServerRecords at h
  dsimp only at h
  split at h
  · rename_i hs
    obtain ⟨s1, h1, h⟩ := bind_ok h
    obtain ⟨s2, h2, h⟩ := bind_ok h
    obtain ⟨⟨ret, s3⟩, h3, h⟩ := bind_ok h
    cases h
    have hcert := sendCertificate_returns h2
    have hreq := signatureCertificate_returns h3
    have hret := (sendEncryptedExtensions_returns h1).trans (hcert.trans hreq)
    refine .certificate hs.1 hs.2 (sendEncryptedExtensions_frame h1) (sendCertificate_frame h2) ?_ hret
    rcases requestPka_cases h3 with ⟨-, hrej⟩ | ⟨-, hsub⟩
    · exact .inl hrej
    · exact .inr hsub
  · split at h
    · rename_i hs
      obtain ⟨s1, h1, h⟩ := bind_ok h
      obtain ⟨s2, h2, h⟩ := bind_ok h
      cases h
      have hfin := sendServerFinished_returns h2
      have hret := (sendCertificateVerify_returns h1).trans hfin
      exact .finished hs.1 hs.2 (sendCertificateVerify_frame h1) (sendServerFinished_frame h2) hret
    · split at h
      · rename_i hs
        obtain ⟨s1, h1, h⟩ := bind_ok h
        cases h
        exact .pending hs.1 hs.2 (sendPendingRecords_frame h1) (sendPendingRecords_returns h1)
      · cases h
        exact .idle

theorem RemainOutcome.grows (h : RemainOutcome env s s') : s.ctx.trace <:+ s'.ctx.trace := by
  cases h with
  | idle => exact List.suffix_refl _
  | certificate _ _ hf hf' hreq =>
    have h' := hf'.grows
    rcases hreq with ⟨o, hrej⟩ | ⟨o, hsub⟩
    · have h'' := hrej.frame.grows
      exact hf.grows.trans (h'.trans h'')
    · have h'' := hsub.grows
      exact hf.grows.trans (h'.trans h'')
  | finished _ _ hf hf' =>
    have h' := hf'.grows
    exact (hf.grows.trans h').trans (List.suffix_cons _ _)
  | pending _ _ hf => exact hf.grows

/-! ### Reassembly and the two loops over records -/

def taken (r : Record) (pkt : Bytes) : Nat := min (r.length - r.data.length) pkt.length

def filled (r : Record) (pkt : Bytes) : Record := { r with data := r.data ++ pkt.take (taken r pkt) }

structure Starts (pkt : Bytes) (s : St) : Prop where
  payload : pkt ≠ []
  header : s.conn.sess.currentReadRecord = none → recordHeaderSize ≤ pkt.length

theorem starts_of_checks {pkt : Bytes} (hne : pkt ≠ [])
    (h : ¬ (s.conn.sess.currentReadRecord.isNone ∧ pkt.length < recordHeaderSize)) : Starts pkt s := by
  refine ⟨hne, fun hnone => ?_⟩
  by_contra hlt
  exact h ⟨by rw [hnone]; rfl, Nat.lt_of_not_le hlt⟩

def setCurrent (r : Option Record) (s : St) : St :=
  s.mapSess fun e => { e with currentReadRecord := r }

theorem currentRecord_cases {pkt : Bytes} {r : Record} (h : currentRecord pkt s = .ok (r, s')) :
    (s.conn.sess.currentReadRecord = some r ∧ s' = s)
    ∨ (s.conn.sess.currentReadRecord = none ∧ (be16 pkt 3).toNat < maxRecordSize ∧ Frame s s'
      ∧ s.ctx.recordPool = r.slot :: s'.ctx.recordPool
      ∧ s.ctx.freeRecordCnt = s'.ctx.freeRecordCnt + 1
      ∧ ∃ slot id, r = { slot := slot, id := id
                         length := (be16 pkt 3).toNat + recordHeaderSize }) := by
  unfold currentRecord at h
  split at h
  · rename_i r' hr'
    cases h
    exact .inl ⟨hr', rfl⟩
  · rename_i hnone
    obtain ⟨⟨r', t⟩, hr', h⟩ := bind_ok h
    have hf := newRecord_frame hr'
    obtain ⟨hpool, hcnt⟩ := newRecord_pool hr'
    unfold newRecvRecord newRecord at hr'
    split at hr'
    · cases hr'
    · cases hr'
      dsimp only at h
      split at h
      · cases h
      · rename_i hlen
        cases h
        exact .inr ⟨hnone, by omega, hf, hpool, hcnt, _, _, rfl⟩

theorem newRecordRound_cases {pkt pkt' : Bytes} (h : newRecordRound env pkt s = .ok (pkt', s')) :
    ∃ r s1, currentRecord pkt s = .ok (r, s1) ∧ pkt' = pkt.drop (taken r pkt)
      ∧ (((filled r pkt).data.length ≠ r.length ∧ s' = setCurrent (some (filled r pkt)) s1)
        ∨ ((filled r pkt).data.length = r.length ∧ ∃ s2,
            takeRecord env (pkt.length - taken r pkt) (filled r pkt)
              (completing (filled r pkt) (setCurrent (some (filled r pkt)) s1)) = .ok s2
            ∧ s' = setCurrent none s2)) := by
  obtain ⟨⟨r, s1⟩, hr, h⟩ := bind_ok h
  refine ⟨r, s1, hr, ?_⟩
  dsimp only at h
  obtain ⟨s2, h2, h⟩ := bind_ok h
  cases h
  refine ⟨rfl, ?_⟩
  split at h2
  · rename_i hfull
    obtain ⟨s3, h3, h2⟩ := bind_ok h2
    cases h2
    exact .inr ⟨hfull, s3, h3, rfl⟩
  · rename_i hfull
    cases h2
    exact .inl ⟨hfull, rfl⟩

theorem takeRecord_cases {rest : Nat} {r : Record} (h : takeRecord env rest r s = .ok s') :
    (s.conn.sess.waitingCrypto = true
      ∧ s' = s.mapSess fun e => { e with recvQ := e.recvQ ++ [r] })
    ∨ (s.conn.sess.waitingCrypto = false ∧ ∃ ret, processReadRecord env rest r s = .ok (ret, s')) := by
  unfold takeRecord at h
  split at h
  · rename_i hw
    cases h
    exact .inl ⟨hw, rfl⟩
  · rename_i hw
    obtain ⟨⟨ret, t⟩, ht, h⟩ := bind_ok h
    cases h
    exact .inr ⟨by simpa using hw, ret, ht⟩

theorem processReadRecord_grows {rest : Nat} {r : Record} {ret : Int}
    (h : processReadRecord env rest r s = .ok (ret, s')) (hw : s.conn.sess.waitingCrypto = false) :
    .read s.conn r rest s.ctx.ringRoom :: s.ctx.trace <:+ s'.ctx.trace :=
  (processReadRecord_outcome h hw).grows

theorem takeRecord_grows {rest : Nat} {r : Record} (h : takeRecord env rest r s = .ok s') :
    s.ctx.trace <:+ s'.ctx.trace := by
  rcases takeRecord_cases h with ⟨-, rfl⟩ | ⟨hw, ret, hread⟩
  · exact List.suffix_refl _
  · exact (List.suffix_cons _ _).trans (processReadRecord_grows hread hw)

theorem newRecordRound_grows {pkt pkt' : Bytes} (h : newRecordRound env pkt s = .ok (pkt', s')) :
    s.ctx.trace <:+ s'.ctx.trace := by
  obtain ⟨r, s1, hr, -, hs⟩ := newRecordRound_cases h
  have h1 : s.ctx.trace <:+ s1.ctx.trace := by
    rcases currentRecord_cases hr with ⟨-, rfl⟩ | ⟨-, -, hf, -⟩
    · exact List.suffix_refl _
    · exact hf.grows
  rcases hs with ⟨-, rfl⟩ | ⟨-, s2, h2, rfl⟩
  · exact h1
  · have h2' := takeRecord_grows h2
    exact h1.trans ((List.suffix_cons _ _).trans h2')

section

variable {R : St → St → Prop} (hrefl : ∀ s, R s s) (htrans : ∀ {a b c}, R a b → R b c → R a c)

include hrefl htrans

theorem processSessionReadLoop_rule
    (hround : ∀ s s' r q ret, s.conn.sess.waitingCrypto = false → s.conn.sess.recvQ = r :: q →
      processReadRecord env 0 r (s.mapSess fun e => { e with recvQ := q }) = .ok (ret, s') → R s s')
    {fuel : Nat} (h : processSessionReadLoop env fuel s = .ok s') : R s s' := by
  induction fuel generalizing s with
  | zero => cases h; exact hrefl _
  | succ fuel ih =>
    unfold processSessionReadLoop at h
    split at h
    · cases h; exact hrefl _
    · rename_i hw
      split at h
      · cases h; exact hrefl _
      · rename_i r q hq
        obtain ⟨⟨ret, t⟩, ht, h⟩ := bind_ok h
        exact htrans (hround s t r q ret (by simpa using hw) hq ht) (ih h)

theorem processNewRecordLoop_rule
    (hround : ∀ pkt pkt' s s', Starts pkt s → newRecordRound env pkt s = .ok (pkt', s') → R s s')
    {fuel : Nat} {pkt : Bytes} (h : processNewRecordLoop env fuel pkt s = .ok s') : R s s' := by
  induction fuel generalizing s pkt with
  | zero => cases h
  | succ fuel ih =>
    unfold processNewRecordLoop at h
    split at h
    · cases h; exact hrefl _
    · rename_i hne
      split at h
      · cases h; exact hrefl _
      · rename_i hshort
        obtain ⟨⟨pkt', t⟩, ht, h⟩ := bind_ok h
        exact htrans (hround pkt pkt' s t (starts_of_checks hne hshort) ht) (ih h)

end

end

end Xtls.Nic
