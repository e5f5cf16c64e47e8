import Xtls.Nic.CoreSim

/-!
# Runs are schedules

Every run of the system is a schedule of the two cores, so that what holds along all schedules holds
along all runs.  In particular `get_processed_crypto` finds the session in the state that belongs to
the result, unless a record has moved the state while the operation was pending.
-/

namespace Xtls.Nic

section

variable {env : Env} {n ringCnt : Nat} {s s' : St} {b b' : Cores} {others : ConnId → Conn}
  {o : OpId} {fill : Op}

/-! ### PKA results -/

theorem Sim.done {u : St} {q : Request} (h : Sim env (s.among others) b) (hid : u.conn.id = s.conn.id)
    (hctx : CtxSim u.ctx b') (hothers : ∀ i, i ≠ s.conn.id → b'.sess i = b.sess i)
    (hsess : SessSim u.conn.sess (b'.sess s.conn.id)) (hp : b'.pka = .idle)
    (hhello : ∀ o r, (u.ctx.ops o).data = some r → ∃ ch, r.IsHello ch)
    (hset : (∀ e ∈ u.ctx.trace, e.Settled env) → ∀ e ∈ b'.trace, e.Settled) :
    Sim env ((finishCrypto q.op u).among others) (b'.done s.conn.id q) := by
  refine h.on hid ⟨fun i => ?_, ?_, hctx.ring, hctx.ringCnt, hctx.engine⟩ (fun i hi => ?_) ?_ rfl hp
    (fun i r hr => ?_) hset
  · by_cases hi : i = q.op
    · exact .inr ⟨by simp [finishCrypto, deleteOp, Ctx.setOp, hi],
        by simp [finishCrypto, deleteOp, Ctx.setOp, hi]⟩
    · simp only [Cores.done, Cores.deleteOp, Cores.setOp, Cores.setSess, hi, if_false, finishCrypto,
        deleteOp, Ctx.setOp, St.mapCtx_ctx, St.mapSess_ctx]
      exact (hctx.ops i).imp_right fun hz => ⟨List.mem_append_left _ hz.1, hz.2⟩
  · show b'.pool ++ [q.op] = u.ctx.opPool ++ [q.op]
    rw [hctx.pool]
  · simpa [Cores.done, Cores.deleteOp, Cores.setOp, Cores.setSess, hi] using hothers i hi
  · obtain ⟨h1, h2, h3, -, -, h6, h7⟩ := hsess
    simp only [Cores.done, Cores.deleteOp, Cores.setOp, Cores.setSess, if_true]
    exact ⟨h1, h2, h3, rfl, rfl, h6, h7⟩
  · by_cases hi : i = q.op
    · simp [finishCrypto, deleteOp, Ctx.setOp, hi] at hr
    · simp only [finishCrypto, deleteOp, Ctx.setOp, St.mapCtx_ctx, St.mapSess_ctx, hi, if_false] at hr
      exact hhello i r hr

theorem handled_follows {f : CoreSession → CoreSession} {u : St} (hid : u.conn.id = s.conn.id)
    (hctx : u.ctx = s.ctx) (hc : s.conn.sess.completedCrypto = true)
    (hop : s.conn.sess.pkaOp = some o)
    (hsess : ∀ x, SessSim s.conn.sess x → SessSim u.conn.sess (f { x with pendingPkaOp := none }))
    (hans : ∀ (b : Cores) (q : Request), b.worker = .answering s.conn.id q →
      (b.sess s.conn.id).handshakeState = s.conn.sess.handshakeState →
      b.act .work = .ok { (b.setSess s.conn.id f).record (.consume s.conn.id q) with
        worker := .handled s.conn.id q }) :
    Follows env s (finishCrypto o u) := by
  intro n ringCnt others b _ h
  obtain ⟨q, hq, rfl⟩ := Option.map_eq_some_iff.mp (h.own.pkaOp.trans hop)
  have hask := Cores.asking_reaches h.worker (h.own.completedCrypto.trans hc) hq
  have hwork := hans (b.asking s.conn.id q) q rfl
    (by simpa [Cores.asking, Cores.setSess] using h.own.handshakeState)
  refine ⟨hid, _, hask.trans (.head hwork (Cores.done_reaches rfl)), h.done hid
    (hctx ▸ ⟨h.ctx.ops, h.ctx.pool, h.ctx.ring, h.ctx.ringCnt, h.ctx.engine⟩) (fun i hi => ?_) ?_
      h.pka (hctx ▸ h.hello) (hctx ▸ fun hg e he => ?_)⟩
  · simp [Cores.asking, Cores.record, Cores.setSess, hi]
  · simpa [Cores.asking, Cores.record, Cores.setSess] using hsess _ h.own
  · rcases List.mem_cons.mp he with rfl | he
    · trivial
    · exact h.settled hg e he

theorem CtxSim.requests {u : St} {x : CoreSession} (hctx : CtxSim s.ctx b)
    (hsess : SessSim s.conn.sess x) (hhello : ∀ o r, (s.ctx.ops o).data = some r → ∃ ch, r.IsHello ch)
    (hfill : fill.data = none) (q : Request)
    (hreq : (∃ o, Rejects o s u) ∨ ∃ o, Submits fill o s u) :
    u.conn.id = s.conn.id ∧ u.ctx.trace = s.ctx.trace
    ∧ (∀ o r, (u.ctx.ops o).data = some r → ∃ ch, r.IsHello ch)
    ∧ ∃ b' f, CtxSim u.ctx b' ∧ SessSim u.conn.sess (f x)
      ∧ Requested s.conn.id fill.opcode false (some q) f b b' := by
  rcases hreq with ⟨o, hrej⟩ | ⟨o, hsub⟩
  · obtain ⟨b', hctx', hreq⟩ := hctx.rejects hrej fill.opcode false (some q)
    exact ⟨hrej.frame.id, hrej.frame.trace, fun o r hr => hhello o r (hrej.frame.ops.data o r hr),
      b', _, hctx', hsess.core hrej.frame.sess, hreq⟩
  · obtain ⟨b', hctx', hreq⟩ := hctx.submits hsub (some q)
    rw [hfill] at hreq
    refine ⟨hsub.id, hsub.trace, fun i r hr => ?_, b', _, hctx', ?_, hreq⟩
    · by_cases hi : i = o
      · rw [hi, hsub.op] at hr
        exact absurd (hfill.symm.trans hr) nofun
      · rw [hsub.ops i hi] at hr
        exact hhello i r hr
    · obtain ⟨h1, h2, h3, -, h5, h6, -⟩ := hsess
      rw [hsub.sess]
      exact ⟨h1, h2, h3, rfl, h5, h6, rfl⟩

theorem answered_sess {r : Record} {ch : ClientHello} {pub : Bytes} {t s1 : St} {x : CoreSession}
    (hf : SendFrame (handleAfterEcdheKeyGen (clearPending s)) t)
    (hf' : SendFrame (setPendingSp r ch pub t) s1) (h : SessSim s.conn.sess x) :
    SessSim (sharedSecretRequest pub s1).conn.sess
      { x with pendingPkaOp := none, handshakeState := .serverHello } := by
  obtain ⟨h1, h2, h3, h4, h5, h6, -⟩ := h
  have ht : SessSim t.conn.sess { x with pendingPkaOp := none } :=
    SessSim.core (e := (handleAfterEcdheKeyGen (clearPending s)).conn.sess)
      ⟨h1, h2, h3, h4, h5, h6, rfl⟩ hf.sess
  have hs1 : SessSim s1.conn.sess { x with pendingPkaOp := none, handshakeState := .clientHello } :=
    SessSim.core (e := (setPendingSp r ch pub t).conn.sess)
      ⟨rfl, ht.2, ht.3, ht.4, ht.5, ht.6, ht.7⟩ hf'.sess
  exact ⟨rfl, hs1.2, hs1.3, hs1.4, hs1.5, hs1.6, hs1.7⟩

theorem keyGen_follows {r : Record} {ch : ClientHello} {t u : St}
    (hc : s.conn.sess.completedCrypto = true) (hop : s.conn.sess.pkaOp = some o)
    (hst : s.conn.sess.handshakeState = .helloRequest) (hd : (s.ctx.ops o).data = some r)
    (hf : SendFrame (handleAfterEcdheKeyGen (clearPending s)) t)
    (ha : answerClientHello env r ch t = .ok u) :
    Follows env s (finishCrypto o (deleteRecord r u)) := by
  intro n ringCnt others b _ h
  obtain ⟨q, hq, rfl⟩ := Option.map_eq_some_iff.mp (h.own.pkaOp.trans hop)
  have hask := Cores.asking_reaches h.worker (h.own.completedCrypto.trans hc) hq
  obtain ⟨off, s1, s2, -, hf', hreq, rfl⟩ := answerClientHello_cases ha
  -- up to the request nothing but the pool changes on the other side
  have hcore : s1.ctx.core = s.ctx.core := hf'.ctx.trans hf.ctx
  have hkept : OpsKept s.ctx s1.ctx := OpsKept.trans hf.ops hf'.ops
  have hctx0 : CtxSim s.ctx (b.asking s.conn.id q) :=
    ⟨h.ctx.ops, h.ctx.pool, h.ctx.ring, h.ctx.ringCnt, h.ctx.engine⟩
  obtain ⟨hcipher, hctx1⟩ := hctx0.kept hcore hkept
  have hid : s1.conn.id = s.conn.id := hf'.id.trans hf.id
  have htrace : s1.ctx.trace = s.ctx.trace := hf'.trace.trans hf.trace
  let x := { b.sess s.conn.id with pendingPkaOp := none, handshakeState := .serverHello }
  let b2 : Cores := { b.asking s.conn.id q with pool := s1.ctx.opPool }
  let b3 := (b2.setSess s.conn.id fun e => { e with handshakeState := .serverHello }).record
    (.consume s.conn.id q)
  have hctx3 : CtxSim (sharedSecretRequest (slice r.pf off x25519KeyLen) s1).ctx b3 :=
    ⟨hctx1.ops, hctx1.pool, hctx1.ring, hctx1.ringCnt, hctx1.engine⟩
  have hhello : ∀ o r, (s1.ctx.ops o).data = some r → ∃ ch, r.IsHello ch :=
    fun o r hr => h.hello o r (hkept.data o r hr)
  obtain ⟨hid', htrace', hhello', b4, f, hctx4, hsess4, ⟨b', htake, hreach⟩, hs4, hw4, hp4, ht4⟩ :=
    hctx3.requests (answered_sess hf hf' h.own) hhello rfl q hreq
  have hidr : (sharedSecretRequest (slice r.pf off x25519KeyLen) s1).conn.id = s.conn.id := hid
  rw [hidr] at htake hs4 hw4 hid'
  have hwork : b2.act .work = .ok b' := by
    have hrec : (b2.ops q.op).record = true := by
      have hne : s.ctx.ops q.op ≠ {} := fun he => by rw [he] at hd; cases hd
      have hb : b2.ops q.op = (s.ctx.ops q.op).shared := h.ctx.shared hne
      simp [hb, Op.shared, hd]
    have hhs : (b2.sess s.conn.id).handshakeState = .helloRequest := by
      have := h.own.handshakeState.trans hst
      simpa [b2, Cores.asking, Cores.setSess] using this
    show b2.answer s.conn.id q = .ok b'
    simp only [Cores.answer, hhs, hrec, if_true]
    exact htake
  have hself : b3.sess s.conn.id = x := by
    simp [b3, b2, x, Cores.asking, Cores.record, Cores.setSess]
  refine ⟨hid', _, hask.trans (hcipher.trans (.head hwork (hreach.trans (Cores.done_reaches hw4)))),
    h.done (u := deleteRecord r (s2.mapSess fun e => { e with writeSp := e.pendingSp, sendSeqNum := 0 }))
      hid' ⟨hctx4.ops, hctx4.pool, hctx4.ring, hctx4.ringCnt, hctx4.engine⟩
      (fun i hi => ?_) ?_ (hp4.trans h.pka) hhello' fun hg e he => ?_⟩
  · rw [hs4, Cores.setSess_ne _ _ _ hi]
    simp [b3, b2, Cores.asking, Cores.record, Cores.setSess, hi]
  · rw [hs4, Cores.setSess_self, hself]
    exact ⟨hsess4.1, hsess4.2, hsess4.3, hsess4.4, hsess4.5, hsess4.6, hsess4.7⟩
  · have hg : ∀ e ∈ s.ctx.trace, e.Settled env := by
      rw [← htrace]
      exact fun e he => hg e (htrace'.symm ▸ he)
    rw [ht4] at he
    rcases List.mem_cons.mp he with rfl | he
    · trivial
    · exact h.settled hg e he

theorem crypto_follows (h : getProcessedCrypto env s = .ok s') : Follows env s s' := by
  intro n ringCnt others b hreach hsim
  have hfollows : Follows env s s' := by
    cases getProcessedCrypto_outcome hsim.hello h with
    | idle => exact .refl s
    | keyGen hc hop hst hd _ hf ha => exact keyGen_follows hc hop hst hd hf ha
    | sharedSecret hc hop hst =>
      refine handled_follows (f := fun e => { e with handshakeKeyCalculated := true }) rfl rfl hc hop
        (fun x hx => ?_) fun b q hw hs => ?_
      · refine ⟨hx.1, rfl, hx.3.trans ?_, hx.4, hx.5, hx.6, rfl⟩
        show _ = (if _ then _ else _ : Tls13Ctx).certSignatured
        split <;> rfl
      · simp only [Cores.act, Cores.work, hw, Cores.answer, hs, hst]
    | signature hc hop hst =>
      refine handled_follows (f := fun e => { e with certSignatured := true }) rfl rfl hc hop
        (fun x hx => ?_) fun b q hw hs => ?_
      · exact ⟨hx.1, hx.2, rfl, hx.4, hx.5, hx.6, rfl⟩
      · simp only [Cores.act, Cores.work, hw, Cores.answer, hs, hst]
  exact hfollows n ringCnt others b hreach hsim

/-! ### The rest of the server flight -/

theorem remain_follows {t : HandshakeType} (hid : s'.conn.id = s.conn.id)
    (hsess : ∀ x, SessSim s.conn.sess x → SessSim s'.conn.sess { x with handshakeState := t })
    (hctx : { s'.ctx with trace := [], out := [] } = { s.ctx with trace := [], out := [] })
    (htrace : s.ctx.trace <:+ s'.ctx.trace)
    (hact : ∀ b : Cores, b.worker = .idle → SessSim s.conn.sess (b.sess s.conn.id) →
      b.act (.sendRemain s.conn.id)
        = .ok (b.setSess s.conn.id fun e => { e with handshakeState := t })) :
    Follows env s s' := by
  intro n ringCnt others b _ h
  have hsim : Sim env ((setHandshakeState t s).among others)
      (b.setSess s.conn.id fun e => { e with handshakeState := t }) := by
    obtain ⟨-, h2, h3, h4, h5, h6, h7⟩ := h.own
    refine h.on rfl ⟨h.ctx.ops, h.ctx.pool, h.ctx.ring, h.ctx.ringCnt, h.ctx.engine⟩
      (fun i hi => Cores.setSess_ne _ _ _ hi) ?_ h.worker h.pka h.hello h.settled
    rw [Cores.setSess_self]
    exact ⟨rfl, h2, h3, h4, h5, h6, h7⟩
  refine ⟨hid, _, .one (hact b h.worker h.own), hsim.quiet hid ?_ hctx htrace⟩
  have hown := hsess _ h.own
  simpa [setHandshakeState, Cores.setSess] using hown

theorem signature_follows (hst : s.conn.sess.handshakeState = .serverHello)
    (hk : s.conn.sess.tls13Ctx.handshakeKeyCalculated = true)
    (hreq : (∃ o, Rejects o (signatureRequest env s) s')
      ∨ ∃ o, Submits (signatureOp env s) o (signatureRequest env s) s') : Follows env s s' := by
  intro n ringCnt others b _ h
  let b0 := b.setSess s.conn.id fun e => { e with handshakeState := .certificate }
  have hsim : Sim env ((signatureRequest env s).among others) b0 := by
    obtain ⟨-, h2, h3, h4, h5, h6, h7⟩ := h.own
    refine h.on rfl ⟨h.ctx.ops, h.ctx.pool, h.ctx.ring, h.ctx.ringCnt, h.ctx.engine⟩
      (fun i hi => Cores.setSess_ne _ _ _ hi) ?_ h.worker h.pka h.hello h.settled
    rw [Cores.setSess_self]
    exact ⟨rfl, h2, h3, h4, h5, h6, h7⟩
  have hact : ∀ b1, b0.take s.conn.id .ecdsaSignature false none = .ok b1 →
      b.act (.sendRemain s.conn.id) = .ok b1 := by
    intro b1 ht
    simp only [Cores.act, h.worker, if_true, Cores.sendRemain, h.own.handshakeState, hst,
      h.own.keyCalculated, hk, and_self]
    exact ht
  rcases hreq with ⟨o, hrej⟩ | ⟨o, hsub⟩
  · obtain ⟨b', ⟨⟨b1, ht, hreach⟩, -, -, -, -⟩, hs⟩ := hrej.sim hsim .ecdsaSignature false
    exact ⟨hrej.frame.id, b', .head (hact b1 ht) hreach, hs⟩
  · obtain ⟨b', ⟨⟨b1, ht, hreach⟩, -, -, -, -⟩, hs⟩ := hsub.sim hsim fun r hr => by cases hr
    exact ⟨hsub.id, b', .head (hact b1 ht) hreach, hs⟩

theorem RemainOutcome.follows (h : RemainOutcome env s s') : Follows env s s' := by
  cases h with
  | idle => exact .refl s
  | @certificate s1 s2 s' hst hk hf hf' hreq =>
    have hst1 : s1.conn.sess.handshakeState = .serverHello := hf.handshakeState.trans hst
    have hback := hf'.setBack hst1 nofun
    have hk1 : s2.conn.sess.tls13Ctx.handshakeKeyCalculated = true :=
      ((congrArg (fun e => e.tls13Ctx.handshakeKeyCalculated) hf'.sess :).trans
        (congrArg (fun e => e.tls13Ctx.handshakeKeyCalculated) hf.sess :)).trans hk
    refine hf.follows.trans (hback.follows.trans ?_)
    exact signature_follows (s := setHandshakeState .serverHello s2) rfl hk1 hreq
  | @finished s1 s2 port hst hsig hf hf' =>
    have hst1 : s1.conn.sess.handshakeState = .certificate := hf.handshakeState.trans hst
    have hback := hf'.setBack hst1 nofun
    have hsig2 : s2.conn.sess.tls13Ctx.certSignatured = true :=
      ((congrArg (fun e => e.tls13Ctx.certSignatured) hf'.sess :).trans
        (congrArg (fun e => e.tls13Ctx.certSignatured) hf.sess :)).trans hsig
    have hst2 : s2.conn.sess.handshakeState = .certificateVerify :=
      hf'.handshakeState
    refine hf.follows.trans (hback.follows.trans (.trans ?_ (sendKeyMeta_frame env port _).follows))
    refine remain_follows (t := .certificateVerify) rfl (fun x hx => ?_) rfl (List.suffix_cons _ _)
      fun b hb hx => ?_
    · obtain ⟨k, hk, hkey, hsigk, -⟩ := handleAppKeysCalculation_eq env s2
      rw [hk]
      exact ⟨hst2.symm, hx.2.trans hkey.symm, hx.3.trans hsigk.symm, hx.4, hx.5, hx.6, hx.7⟩
    · have hs : (b.sess s2.conn.id).certSignatured = true := hx.certSignatured.trans hsig2
      have hc : (b.sess s2.conn.id).handshakeState = .certificate := hx.handshakeState
      show b.act (.sendRemain s2.conn.id) = _
      simp [Cores.act, hb, Cores.sendRemain, hc, hs]
      rfl
  | @pending s1 hst hfin hf =>
    have hst1 : s1.conn.sess.handshakeState = .certificateVerify := hf.handshakeState.trans hst
    refine hf.follows.trans (remain_follows (t := .finished) rfl (fun x hx => ?_) rfl
      (List.suffix_refl _) fun b hb hx => ?_)
    · exact ⟨rfl, hx.2, hx.3, hx.4, hx.5, hx.6, hx.7⟩
    · simp only [Cores.act, hb, if_true, Cores.sendRemain, hx.handshakeState, hst1]
      simp

theorem closed_follows (env : Env) : Closed env (Follows env) where
  refl := .refl
  trans := .trans
  tcp _ _ _ := .quiet rfl (fun _ hx => hx) rfl (List.suffix_refl _)
  host _ _ _ := .quiet rfl (fun _ hx => hx) rfl (List.suffix_refl _)
  emits _ _ := .quiet rfl (fun _ hx => hx) rfl (List.suffix_refl _)
  frame _ _ hf := hf.follows
  round _ _ _ _ h := round_follows h
  queued s _ _ q _ hw _ h := (queues_follows s.conn.sess.currentReadRecord q s).trans (read_follows hw h)
  crypto _ _ h := crypto_follows h
  removed _ _ _ hr := removed_follows hr
  remain _ _ h := h.follows

end

/-! ### The whole system -/

section

variable {env : Env} {n ringCnt : Nat} {s s' : Sys} {b b' : Cores} {c : ConnId} {o : OpId} {t : St}

theorem Sim.same (h : Sim env s b) (hids : ∀ c, (s'.conns c).id = (s.conns c).id)
    (hsess : ∀ c, (s'.conns c).sess = (s.conns c).sess)
    (hops : s'.ctx.ops = s.ctx.ops) (hpool : s'.ctx.opPool = s.ctx.opPool)
    (hring : s'.ctx.submitPkaRing = s.ctx.submitPkaRing) (hcnt : s'.ctx.ringCnt = s.ctx.ringCnt)
    (heng : s'.ctx.engine = s.ctx.engine) (htrace : s.ctx.trace <:+ s'.ctx.trace) :
    Sim env s' b where
  ids c := (hids c).trans (h.ids c)
  ctx := ⟨by rw [hops, hpool]; exact h.ctx.ops, h.ctx.pool.trans hpool.symm, h.ctx.ring.trans hring.symm,
    h.ctx.ringCnt.trans hcnt.symm, h.ctx.engine.trans heng.symm⟩
  sess c := by rw [hsess]; exact h.sess c
  worker := h.worker
  pka := h.pka
  hello := by rw [hops]; exact h.hello
  settled hg := h.settled fun e he => hg e (htrace.subset he)

theorem SysQuiet.simulated (hq : SysQuiet s s') (h : Simulated env n ringCnt s) :
    Simulated env n ringCnt s' := by
  obtain ⟨hconns, out, outside, hctx⟩ := hq
  obtain ⟨b, hb, hsim⟩ := h
  have htrace : s.ctx.trace <:+ s'.ctx.trace := hctx ▸ List.suffix_refl _
  refine ⟨b, hb, hsim.same (fun c => by rw [hconns]) (fun c => by rw [hconns]) ?_ ?_ ?_ ?_ ?_ htrace⟩ <;>
    rw [hctx]

theorem Inserted.simulated (hi : Inserted c s s') (h : Simulated env n ringCnt s) :
    Simulated env n ringCnt s' := by
  obtain ⟨port, cookie, p, hc⟩ := hi.conn
  have hkept : ∀ i, (s'.conns i).id = (s.conns i).id ∧ (s'.conns i).sess = (s.conns i).sess := by
    intro i
    by_cases hic : i = c
    · rw [hic, hc]
      exact ⟨rfl, rfl⟩
    · rw [hi.others i hic]
      exact ⟨rfl, rfl⟩
  obtain ⟨b, hb, hsim⟩ := h
  refine ⟨b, hb, hsim.same (fun i => (hkept i).1) (fun i => (hkept i).2) ?_ ?_ ?_ ?_ ?_ ?_⟩ <;>
    rw [hi.ctx]
  exact List.suffix_cons _ _

theorem Follows.simulated (hf : Follows env ⟨s.conns c, s.ctx⟩ t) (h : Simulated env n ringCnt s) :
    Simulated env n ringCnt (s.put c t) := by
  obtain ⟨b, hb, hsim⟩ := h
  have hin : (⟨s.conns c, s.ctx⟩ : St).among s.conns = s := by
    simp [St.among, hsim.ids c]
  obtain ⟨hid, b', hb', hsim'⟩ := hf _ _ s.conns b hb (by rw [hin]; exact hsim)
  have hout : t.among s.conns = s.put c t := by
    have hid : t.conn.id = c := hid.trans (hsim.ids c)
    simp only [St.among, Sys.put, hid]
    congr 1
    funext i
    simp [Function.update_apply]
  exact ⟨b', hb.trans hb', hout ▸ hsim'⟩

theorem Sim.pkaOn (h : Sim env s b) {f : Session → Session} (hconns : s'.conns = (s.setConn c f).conns)
    (hctx : CtxSim s'.ctx b') (hothers : ∀ i, i ≠ c → b'.sess i = b.sess i)
    (hsess : SessSim (f (s.conns c).sess) (b'.sess c)) (hw : b'.worker = .idle)
    (hp : b'.pka = .idle) (hdata : ∀ o, (s'.ctx.ops o).data = (s.ctx.ops o).data)
    (hset : (∀ e ∈ s'.ctx.trace, e.Settled env) → ∀ e ∈ b'.trace, e.Settled) : Sim env s' b' := by
  refine ⟨fun i => ?_, hctx, fun i => ?_, hw, hp, fun o r hr => h.hello o r (hdata o ▸ hr), hset⟩ <;>
    rw [hconns] <;> by_cases hi : i = c
  · simpa [Sys.setConn, hi] using h.ids c
  · simpa [Sys.setConn, hi] using h.ids i
  · simpa [Sys.setConn, hi] using hsess
  · rw [hothers i hi]
    simpa [Sys.setConn, hi] using h.sess i

theorem submits_simulated {priv : Operand} (hstep : handleSubmittedPka priv s = .ok s')
    (h : Simulated env n ringCnt s) : Simulated env n ringCnt s' := by
  rcases handleSubmittedPka_cases hstep with rfl | ⟨o, ring, c, -, hring, hop, hc, hconns, hctx⟩
  · exact h
  obtain ⟨b, hb, hsim⟩ := h
  obtain ⟨q, qs, hbring, rfl, rfl⟩ := List.map_eq_cons_iff.mp (hsim.ctx.ring.trans hring)
  have hshared : b.ops q.op = (s.ctx.ops q.op).shared :=
    hsim.ctx.shared fun he => by rw [he] at hc; cases hc
  have hreach := Cores.accepted_reaches (c := c) hsim.pka hbring (by rw [hshared]; exact hop)
    (by rw [hshared]; exact hc)
  refine ⟨_, hb.trans hreach, hsim.pkaOn hconns ?_ (fun i hi => ?_) ?_ hsim.worker rfl ?_ ?_⟩
  · rw [hctx]
    refine ⟨fun i => ?_, hsim.ctx.pool, rfl, hsim.ctx.ringCnt, ?_⟩
    · by_cases hi : i = q.op
      · exact .inl (by simp [Cores.accepted, Cores.setOp, Cores.setSess, Ctx.setOp, hi, hshared, Op.shared])
      · simpa [Cores.accepted, Cores.setOp, Cores.setSess, Ctx.setOp, hi] using hsim.ctx.ops i
    · simp [Cores.accepted, Cores.setOp, Cores.setSess, hsim.ctx.engine]
  · simp [Cores.accepted, Cores.setOp, Cores.setSess, hi]
  · obtain ⟨h1, h2, h3, h4, h5, h6, -⟩ := hsim.sess c
    simp only [Cores.accepted, Cores.setOp, Cores.setSess, if_true]
    exact ⟨h1, h2, h3, h4, h5, h6, rfl⟩
  · intro i
    rw [hctx]
    by_cases hi : i = q.op <;> simp [Ctx.setOp, hi]
  · rw [hctx]
    exact hsim.settled

/- The engine's results are taken by operation on one side and by place on the other. -/
theorem CtxSim.place {ctx : Ctx} (h : CtxSim ctx b) (ho : o ∈ ctx.engine) :
    ∃ i q, b.engine[i]? = some q ∧ q.op = o
      ∧ (b.engine.eraseIdx i).map Request.op = ctx.engine.erase o := by
  have hget : (b.engine.map Request.op)[ctx.engine.idxOf o]? = some o := by
    rw [h.engine]
    exact List.getElem?_idxOf ho
  rw [List.getElem?_map] at hget
  obtain ⟨q, hq, hop⟩ := Option.map_eq_some_iff.mp hget
  refine ⟨_, q, hq, hop, ?_⟩
  rw [← List.eraseIdx_map, h.engine, List.erase_eq_eraseIdx_of_idxOf rfl]

theorem completes_simulated {results : List Bytes} (hstep : handleCompletedPka o results s = .ok s')
    (h : Simulated env n ringCnt s) : Simulated env n ringCnt s' := by
  rcases handleCompletedPka_cases hstep with rfl | ⟨c, hmem, hc, hcases⟩
  · exact h
  obtain ⟨b, hb, hsim⟩ := h
  obtain ⟨i, q, hi, rfl, herase⟩ := hsim.ctx.place hmem
  have hshared : b.ops q.op = (s.ctx.ops q.op).shared :=
    hsim.ctx.shared fun he => by rw [he] at hc; cases hc
  have hfetch := Cores.fetched_reaches (c := c) hsim.pka hi (by rw [hshared]; exact hc)
  have hctx' : ∀ ctx' b', ctx'.ops = s.ctx.ops → ctx'.opPool = s.ctx.opPool →
      ctx'.submitPkaRing = s.ctx.submitPkaRing → ctx'.ringCnt = s.ctx.ringCnt →
      ctx'.engine = s.ctx.engine.erase q.op → b'.ops = b.ops → b'.pool = b.pool →
      b'.ring = b.ring → b'.ringCnt = b.ringCnt → b'.engine = b.engine.eraseIdx i →
      CtxSim ctx' b' := by
    intro ctx' b' h1 h2 h3 h4 h5 g1 g2 g3 g4 g5
    refine ⟨?_, ?_, ?_, ?_, ?_⟩
    · rw [h1, h2, g1]
      exact hsim.ctx.ops
    · rw [h2, g2, hsim.ctx.pool]
    · rw [h3, g3, hsim.ctx.ring]
    · rw [h4, g4, hsim.ctx.ringCnt]
    · rw [h5, g5, herase]
  obtain ⟨h1, h2, h3, h4, h5, -, h7⟩ := hsim.sess c
  rcases hcases with ⟨hflag, hconns, hctx⟩ | ⟨hflag, hdata, hconns, hctx⟩
  · have hrot := Cores.rotten_reaches (s := b.fetched q i c) rfl
      (by show (b.ops q.op).pkaFlag = false; rw [hshared]; exact hflag)
    refine ⟨_, hb.trans (hfetch.trans hrot), hsim.pkaOn hconns ?_ (fun i hi => ?_) ?_ hsim.worker rfl
      ?_ ?_⟩
    · rw [hctx]
      exact hctx' _ _ rfl rfl rfl rfl rfl rfl rfl rfl rfl rfl
    · simp [Cores.fetched, Cores.setSess, hi]
    · simp only [Cores.fetched, Cores.setSess, if_true]
      exact ⟨h1, h2, h3, h4, h5, rfl, h7⟩
    · rw [hctx]
      exact fun _ => rfl
    · rw [hctx]
      exact hsim.settled
  · have hpub := Cores.published_reaches (s := b.fetched q i c) rfl
      (by show (b.ops q.op).pkaFlag = true; rw [hshared]; exact hflag) (by
        have hhs : ((b.fetched q i c).sess c).handshakeState = (s.conns c).sess.handshakeState := by
          simpa [Cores.fetched, Cores.setSess] using h1
        show ¬ (_ ∧ (b.ops q.op).record = false)
        rw [hhs, hshared]
        simpa [Op.shared] using hdata)
    refine ⟨_, hb.trans (hfetch.trans hpub), hsim.pkaOn hconns ?_ (fun i hi => ?_) ?_ hsim.worker rfl
      ?_ ?_⟩
    · rw [hctx]
      exact hctx' _ _ rfl rfl rfl rfl rfl rfl rfl rfl rfl rfl
    · simp [Cores.published, Cores.record, Cores.fetched, Cores.setSess, hi]
    · simp only [Cores.published, Cores.record, Cores.fetched, Cores.setSess, if_true]
      exact ⟨h1, h2, h3, h4, rfl, rfl, h7⟩
    · rw [hctx]
      exact fun _ => rfl
    · rw [hctx]
      intro hg e he
      rcases List.mem_cons.mp he with rfl | he
      · trivial
      · exact hsim.settled hg e he

theorem initial_sim (env : Env) (n ringCnt : Nat) :
    Sim env (initial n ringCnt) (Cores.initial (3 * n) ringCnt) where
  ids _ := rfl
  ctx := ⟨fun _ => .inl rfl, rfl, rfl, rfl, rfl⟩
  sess _ := ⟨rfl, rfl, rfl, rfl, rfl, rfl, rfl⟩
  worker := rfl
  pka := rfl
  hello _ _ hr := absurd hr nofun
  settled _ _ he := absurd he List.not_mem_nil

theorem initial_simulated (env : Env) (n ringCnt : Nat) :
    Simulated env n ringCnt (initial n ringCnt) :=
  ⟨Cores.initial (3 * n) ringCnt, .refl _, initial_sim env n ringCnt⟩

theorem step_simulated {x : Input} (hstep : step env x s = .ok s') (h : Simulated env n ringCnt s) :
    Simulated env n ringCnt s' := by
  cases step_outcome hstep with
  | quiet hq => exact hq.simulated h
  | acts _ _ ha => exact ((closed_follows env).acts ha).simulated h
  | serves _ _ hs => exact ((closed_follows env).serve hs).simulated h
  | inserts hi hq => exact hq.simulated (hi.simulated h)
  | replaces _ hr hq hi =>
    exact hi.simulated (hq.simulated ((removed_follows (removeSession_removed hr)).simulated h))
  | submits hs => exact submits_simulated hs h
  | completes hc => exact completes_simulated hc h

/-- Every run is a schedule of the two cores. -/
theorem run_simulated {xs : List Input} (hrun : run (step env) xs (initial n ringCnt) = .ok s) :
    Simulated env n ringCnt s :=
  run_invariant (fun _ _ _ => step_simulated) xs _ s hrun (initial_simulated env n ringCnt)

/-! ### The result `get_processed_crypto` finds -/

/-- `handshake_state` is the one in which the operation behind `sess->pka_op`, one of this session, is
answered. -/
def St.Matches (s : St) : Prop :=
  ∃ o, s.conn.sess.pkaOp = some o ∧ (s.ctx.ops o).sess = some s.conn.id
    ∧ (s.ctx.ops o).opcode.answeredIn = some s.conn.sess.handshakeState

theorem Sim.matches {others : ConnId → Conn} (h : Sim env (t.among others) b)
    (hreach : Reaches Cores.act (Cores.initial n ringCnt) b)
    (hg : ∀ e ∈ t.ctx.trace, e.Settled env) (hc : t.conn.sess.completedCrypto = true) : t.Matches := by
  obtain ⟨actions, hrun⟩ := hreach
  have hinv := run_matched hrun (h.settled hg)
  obtain ⟨q, hq, hsess, hop⟩ := hinv.matches (c := t.conn.id) (by rw [h.worker]; rfl)
    (by rw [h.worker]; exact nofun) (h.own.completedCrypto.trans hc)
  -- an operation that names a session is not one that lies zeroed in the pool
  have hshared : b.ops q.op = (t.ctx.ops q.op).shared := by
    obtain ⟨own, hown⟩ := hinv.inv
    rcases h.ctx.ops q.op with hs | ⟨hpool, -⟩
    · exact hs
    · have hb : q.op ∈ b.pool := h.ctx.pool ▸ hpool
      have hfree := (hown.custody.pool.mem q.op).mp hb
      obtain ⟨-, x, hx, hdone, -⟩ := (hown.session t.conn.id).completed
        (by rw [h.worker]; rfl) (h.own.completedCrypto.trans hc)
      obtain rfl : x = q := Option.some.inj (hx.symm.trans hq)
      rw [hdone] at hfree
      cases hfree
  rw [hshared] at hsess hop
  refine ⟨q.op, ?_, hsess, ?_⟩
  · rw [← h.own.pkaOp, hq]
    rfl
  · rw [← h.own.handshakeState]
    exact hop

theorem processSessionRead_matches {xs : List Input} {c : ConnId}
    (hrun : run (step env) xs (initial n ringCnt) = .ok s)
    (hread : processSessionRead env ⟨s.conns c, s.ctx⟩ = .ok t)
    (hg : ∀ e ∈ t.ctx.trace, e.Settled env) (hc : t.conn.sess.completedCrypto = true) :
    t.Matches := by
  obtain ⟨b, hb, hsim⟩ := run_simulated hrun
  have hin : (⟨s.conns c, s.ctx⟩ : St).among s.conns = s := by
    simp [St.among, hsim.ids c]
  have hfollows : Follows env ⟨s.conns c, s.ctx⟩ t :=
    processSessionReadLoop_rule .refl .trans (closed_follows env).queued hread
  obtain ⟨-, b', hb', hsim'⟩ := hfollows _ _ s.conns b hb (by rw [hin]; exact hsim)
  exact hsim'.matches (hb.trans hb') hg hc

end

/-- Unless a record moves `handshake_state` while an operation of the session is pending, or a session
is removed with an operation outstanding, `get_processed_crypto` finds the session in the state that
belongs to the result: between the steps of a run, and wherever the PKA core has got to meanwhile. -/
theorem result_matches_state (env : Env) (n ringCnt : Nat) :
    (∀ inputs s c t, run (step env) inputs (initial n ringCnt) = .ok s →
      processSessionRead env ⟨s.conns c, s.ctx⟩ = .ok t → (∀ e ∈ t.ctx.trace, e.Settled env) →
      t.conn.sess.completedCrypto = true → t.Matches)
    ∧ ∀ actions b, run Cores.act actions (Cores.initial (3 * n) ringCnt) = .ok b →
      (∀ e ∈ b.trace, e.Settled) →
      (∀ c, b.worker.serving c → b.Matches c) ∧ ∀ a, b.act a ≠ .error .unsupportedPkaState := by
  refine ⟨fun inputs s c t hrun hread hg hc => processSessionRead_matches hrun hread hg hc,
    fun actions b hrun hg => ?_⟩
  have hinv := run_matched hrun hg
  exact ⟨fun _ hw => hinv.serving hw, hinv.supported⟩

/- The result of the key generation has arrived; the flight read so far is settled. -/
def sampleKeyGenerated : List Input := sampleServerFlight.take 4

theorem result_matches_state_keyGenerated :
    (∃ s t, run (step sampleEnv) sampleKeyGenerated (initial 2 8) = .ok s
      ∧ processSessionRead sampleEnv ⟨s.conns 0, s.ctx⟩ = .ok t
      ∧ t.conn.sess.completedCrypto = true ∧ t.Matches)
    ∧ ∃ b, run Cores.act (sampleSubmission 0 ++ sampleDelivery ++ [.serve 0])
        (Cores.initial (3 * 2) 8) = .ok b ∧ b.worker = .fetching 0 ∧ b.Matches 0 := by
  constructor
  · obtain ⟨s, hs, hpoint⟩ := endsIn_ok
      (fun s : Sys => endsIn (fun t : St => (∀ e ∈ t.ctx.trace, e.Settled sampleEnv)
        ∧ t.conn.sess.completedCrypto = true) (processSessionRead sampleEnv ⟨s.conns 0, s.ctx⟩) = true)
      (run (step sampleEnv) sampleKeyGenerated (initial 2 8)) (by decide +kernel)
    obtain ⟨t, ht, hg, hc⟩ := endsIn_ok _ _ hpoint
    exact ⟨s, t, hs, ht, hc, (result_matches_state sampleEnv 2 8).1 _ s 0 t hs ht hg hc⟩
  · obtain ⟨b, hb, hg, hw⟩ := endsIn_ok
      (fun b : Cores => (∀ e ∈ b.trace, e.Settled) ∧ b.worker = .fetching 0)
      (run Cores.act (sampleSubmission 0 ++ sampleDelivery ++ [.serve 0]) (Cores.initial (3 * 2) 8))
      (by decide +kernel)
    exact ⟨b, hb, hw, ((result_matches_state sampleEnv 2 8).2 _ b hb hg).1 0 (.inl hw)⟩

/- A ChangeCipherSpec arrives while the shared secret is computed: `get_processed_crypto` has cleared
`waiting_crypto` after it asked for the secret. -/
def sampleEarlyCipherSpec : List Input :=
  sampleServerFlight.take 5 ++
    [.packet 0 (sampleSegment (101 + (sampleHello [0x13, 2]).length.toUInt32) 5 sampleCipherSpec
      sampleCipherSpec_lt),
      .pkaSubmit {}, .pkaComplete 1 [zeros 32], .serve 0]

theorem earlyCipherSpec_unsupported :
    run (step sampleEnv) sampleEarlyCipherSpec (initial 2 8) = .error .unsupportedPkaState :=
  stopsFor_error _ _ (by decide +kernel)

end Xtls.Nic
