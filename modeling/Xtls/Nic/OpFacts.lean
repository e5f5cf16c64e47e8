import Xtls.Nic.Among

/-!
# Sessions and their operations

`op->sess` and `sess->pending_pka_op` point at each other, in every run: an operation that names a
session is the pending one of that session, and an operation that names none is zeroed.  What the PKA
core has flagged as completed is the pending operation.
-/

namespace Xtls.Nic

structure OpCtx (ctx : Ctx) : Prop where
  nodup : ctx.opPool.Nodup
  pool : ∀ o ∈ ctx.opPool, (ctx.ops o).sess = none
  unowned : ∀ o, (ctx.ops o).sess = none → ctx.ops o = {}
  hello : ∀ o r, (ctx.ops o).data = some r → ∃ ch, r.IsHello ch

/-- A session without a submitted operation has none at all: before the ClientHello is taken, and
between the handshake keys and the signature.  Until the ClientHello is taken it reads without a cipher. -/
structure OpConn (ctx : Ctx) (c : Conn) : Prop where
  owner : ∀ o, (ctx.ops o).sess = some c.id ↔ c.sess.pendingPkaOp = some o
  completed : c.sess.completedCrypto = true →
    ∃ o, c.sess.pkaOp = some o ∧ c.sess.pendingPkaOp = some o
  idle : c.sess.handshakeState = .helloRequest → c.sess.waitingCrypto = false →
    c.sess.pendingPkaOp = none
  fresh : c.sess.handshakeState = .helloRequest → c.sess.tls13Ctx.handshakeKeyCalculated = false
  keyed : c.sess.handshakeState = .serverHello → c.sess.tls13Ctx.handshakeKeyCalculated = true →
    c.sess.pendingPkaOp = none
  plain : c.sess.handshakeState = .helloRequest → c.sess.readSp.bulkCipherAlgorithm = .noCipher

structure OpFacts (s : Sys) : Prop where
  ids : ∀ c, (s.conns c).id = c
  conn : ∀ c, OpConn s.ctx (s.conns c)
  core : OpCtx s.ctx

section

variable {env : Env} {s s' : St} {others : ConnId → Conn} {ctx ctx' : Ctx} {c c' : Conn} {o : OpId}
  {fill : Op}

/-! ### The pool -/

/- What lies in the pool is zeroed, so that an operation used for a cipher comes back as it was. -/
theorem OpCtx.same (h : OpCtx ctx) (hk : OpsKept ctx ctx') : ctx'.ops = ctx.ops := by
  funext o
  rcases hk.ops o with ho | ⟨hm, ho⟩
  · exact ho
  · rw [ho, h.unowned o (h.pool o hm)]

theorem OpCtx.kept (h : OpCtx ctx) (hk : OpsKept ctx ctx') : OpCtx ctx' := by
  have hops := h.same hk
  refine ⟨hk.pool.nodup_iff.mpr h.nodup, fun o ho => ?_, ?_, ?_⟩
  · rw [hops]
    exact h.pool o (hk.pool.subset ho)
  · rw [hops]
    exact h.unowned
  · rw [hops]
    exact h.hello

theorem OpCtx.submits (h : OpCtx s.ctx) (hsub : Submits fill o s s')
    (hfill : ∀ r, fill.data = some r → ∃ ch, r.IsHello ch) : OpCtx s'.ctx := by
  have hnd := h.nodup
  rw [hsub.pool] at hnd
  obtain ⟨ho, hnd⟩ := List.nodup_cons.mp hnd
  refine ⟨hnd, fun i hi => ?_, fun i hi => ?_, fun i r hr => ?_⟩
  · have hne : i ≠ o := fun he => ho (he ▸ hi)
    rw [hsub.ops i hne]
    exact h.pool i (by rw [hsub.pool]; exact List.mem_cons_of_mem o hi)
  · by_cases hio : i = o
    · rw [hio, hsub.op] at hi
      cases hi
    · rw [hsub.ops i hio] at hi ⊢
      exact h.unowned i hi
  · by_cases hio : i = o
    · rw [hio, hsub.op] at hr
      exact hfill r hr
    · rw [hsub.ops i hio] at hr
      exact h.hello i r hr

theorem OpCtx.deleted (h : OpCtx ctx) (ho : (ctx.ops o).sess ≠ none)
    (hpool : ctx'.opPool = ctx.opPool ++ [o])
    (hops : ∀ i, ctx'.ops i = if i = o then {} else ctx.ops i) : OpCtx ctx' := by
  have hnot : o ∉ ctx.opPool := fun hm => ho (h.pool o hm)
  refine ⟨?_, fun i hi => ?_, fun i hi => ?_, fun i r hr => ?_⟩
  · rw [hpool, (List.perm_append_singleton o ctx.opPool).nodup_iff]
    exact List.nodup_cons.mpr ⟨hnot, h.nodup⟩
  · rw [hops]
    split
    · rfl
    · rename_i hio
      rw [hpool, List.mem_append, List.mem_singleton] at hi
      exact h.pool i (hi.resolve_right hio)
  · rw [hops] at hi ⊢
    split
    · rfl
    · rename_i hio
      rw [if_neg hio] at hi
      exact h.unowned i hi
  · rw [hops] at hr
    split at hr
    · cases hr
    · exact h.hello i r hr

/-! ### One connection -/

theorem OpFacts.own (h : OpFacts (s.among others)) : OpConn s.ctx s.conn := by
  have hc := h.conn s.conn.id
  rwa [St.among_self] at hc

theorem OpFacts.on (h : OpFacts (s.among others)) (hid : s'.conn.id = s.conn.id)
    (hconn : OpConn s'.ctx s'.conn) (hcore : OpCtx s'.ctx)
    (hothers : ∀ o d, d ≠ s.conn.id →
      ((s'.ctx.ops o).sess = some d ↔ (s.ctx.ops o).sess = some d)) :
    OpFacts (s'.among others) := by
  have hne : ∀ c, c ≠ s.conn.id → (s'.among others).conns c = (s.among others).conns c := by
    intro c hc
    rw [s'.among_ne (hid ▸ hc), s.among_ne hc]
  have heq : (s'.among others).conns s.conn.id = s'.conn := hid ▸ s'.among_self
  refine ⟨fun c => ?_, fun c => ?_, hcore⟩
  · by_cases hc : c = s.conn.id
    · rw [hc, heq, hid]
    · rw [hne c hc]
      exact h.ids c
  · by_cases hc : c = s.conn.id
    · rw [hc, heq]
      exact hconn
    · rw [hne c hc]
      obtain ⟨h1, h2, h3, h4, h5, h6⟩ := h.conn c
      have hidc := h.ids c
      refine ⟨fun o => ?_, h2, h3, h4, h5, h6⟩
      rw [← h1 o, hidc]
      exact hothers o c hc

structure OpView (e e' : Session) : Prop where
  handshakeState : e'.handshakeState = e.handshakeState
  waitingCrypto : e'.waitingCrypto = e.waitingCrypto
  completedCrypto : e'.completedCrypto = e.completedCrypto
  pkaOp : e'.pkaOp = e.pkaOp
  pendingPkaOp : e'.pendingPkaOp = e.pendingPkaOp
  keyCalculated : e'.tls13Ctx.handshakeKeyCalculated = e.tls13Ctx.handshakeKeyCalculated
  readSp : e'.readSp = e.readSp

theorem OpView.of_core {e e' : Session} (h : e'.core = e.core) : OpView e e' where
  handshakeState := (congrArg Session.handshakeState h :)
  waitingCrypto := (congrArg Session.waitingCrypto h :)
  completedCrypto := (congrArg Session.completedCrypto h :)
  pkaOp := (congrArg Session.pkaOp h :)
  pendingPkaOp := (congrArg Session.pendingPkaOp h :)
  keyCalculated := (congrArg (fun e => e.tls13Ctx.handshakeKeyCalculated) h :)
  readSp := (congrArg Session.readSp h :)

theorem OpConn.view (h : OpConn ctx c) (hv : OpView c.sess c'.sess) (hid : c'.id = c.id)
    (hops : ∀ o, (ctx'.ops o).sess = (ctx.ops o).sess) : OpConn ctx' c' := by
  obtain ⟨h1, h2, h3, h4, h5, h6⟩ := h
  obtain ⟨v1, v2, v3, v4, v5, v6, v7⟩ := hv
  refine ⟨fun o => ?_, ?_, ?_, ?_, ?_, ?_⟩
  · rw [hops, hid, v5]
    exact h1 o
  · rw [v3, v4, v5]
    exact h2
  · rw [v1, v2, v5]
    exact h3
  · rw [v1, v6]
    exact h4
  · rw [v1, v6, v5]
    exact h5
  · rw [v1, v7]
    exact h6

theorem OpConn.moved (h : OpConn ctx c) (hid : c'.id = c.id) (hops : ctx'.ops = ctx.ops)
    (hpend : c'.sess.pendingPkaOp = c.sess.pendingPkaOp)
    (hc : c'.sess.completedCrypto = c.sess.completedCrypto) (hp : c'.sess.pkaOp = c.sess.pkaOp)
    (hs : c'.sess.handshakeState ≠ .helloRequest ∧ c'.sess.handshakeState ≠ .serverHello) :
    OpConn ctx' c' := by
  refine ⟨?_, ?_, fun hh => absurd hh hs.1, fun hh => absurd hh hs.1, fun hh => absurd hh hs.2,
    fun hh => absurd hh hs.1⟩
  · rw [hops, hid, hpend]
    exact h.owner
  · rw [hc, hp, hpend]
    exact h.completed

theorem OpFacts.same (h : OpFacts (s.among others)) (hv : OpView s.conn.sess s'.conn.sess)
    (hid : s'.conn.id = s.conn.id) (hk : OpsKept s.ctx s'.ctx) : OpFacts (s'.among others) := by
  have hops : s'.ctx.ops = s.ctx.ops := h.core.same hk
  exact h.on hid (h.own.view hv hid fun o => by rw [hops]) (h.core.kept hk) fun o d _ => by rw [hops]

theorem OpFacts.frame (h : OpFacts (s.among others)) (hf : SendFrame s s') :
    OpFacts (s'.among others) :=
  h.same (.of_core hf.sess) hf.id hf.ops

theorem OpFacts.moved (h : OpFacts (s.among others)) (hid : s'.conn.id = s.conn.id)
    (hctx : s'.ctx = s.ctx) (hpend : s'.conn.sess.pendingPkaOp = s.conn.sess.pendingPkaOp)
    (hc : s'.conn.sess.completedCrypto = s.conn.sess.completedCrypto)
    (hp : s'.conn.sess.pkaOp = s.conn.sess.pkaOp)
    (hs : s'.conn.sess.handshakeState ≠ .helloRequest ∧ s'.conn.sess.handshakeState ≠ .serverHello) :
    OpFacts (s'.among others) :=
  h.on hid (h.own.moved hid (congrArg Ctx.ops hctx) hpend hc hp hs) (hctx ▸ h.core)
    fun o d _ => by rw [hctx]

theorem OpConn.not_completed (h : OpConn ctx c) (hp : c.sess.pendingPkaOp = none) :
    c.sess.completedCrypto = false := by
  cases hc : c.sess.completedCrypto with
  | false => rfl
  | true =>
    obtain ⟨o, -, ho⟩ := h.completed hc
    rw [hp] at ho
    cases ho

/-! ### Requests and removal -/

theorem OpFacts.submits (h : OpFacts (s.among others)) (hsub : Submits fill o s s')
    (hpend : s.conn.sess.pendingPkaOp = none)
    (hkeyed : s.conn.sess.handshakeState = .serverHello →
      s.conn.sess.tls13Ctx.handshakeKeyCalculated = false)
    (hfill : ∀ r, fill.data = some r → ∃ ch, r.IsHello ch) : OpFacts (s'.among others) := by
  have hown := h.own
  have hnone : ∀ i, (s.ctx.ops i).sess ≠ some s.conn.id := fun i hi => by
    rw [hown.owner i, hpend] at hi
    cases hi
  refine h.on hsub.id ⟨fun i => ?_, ?_, ?_, ?_, ?_, ?_⟩ (h.core.submits hsub hfill) fun i d hd => ?_
  · rw [hsub.id, hsub.sess]
    by_cases hi : i = o
    · rw [hi, hsub.op]
      exact iff_of_true rfl rfl
    · rw [hsub.ops i hi]
      exact iff_of_false (hnone i) fun he => hi (Option.some.inj he).symm
  · rw [hsub.sess]
    intro hc
    exact absurd (hown.not_completed hpend) (by simpa using hc)
  · rw [hsub.sess]
    exact fun _ hw => absurd hw (by simp)
  · rw [hsub.sess]
    exact hown.fresh
  · rw [hsub.sess]
    exact fun hs hk => absurd (hkeyed hs) (by simpa using hk)
  · rw [hsub.sess]
    exact hown.plain
  · by_cases hi : i = o
    · have hmem : o ∈ s.ctx.opPool := by rw [hsub.pool]; exact List.mem_cons_self
      have hfree : (s.ctx.ops o).sess = none := h.core.pool o hmem
      rw [hi, hsub.op, hfree]
      exact iff_of_false (fun he => hd (Option.some.inj he).symm) nofun
    · rw [hsub.ops i hi]

theorem OpFacts.removed (h : OpFacts (s.among others)) (hr : Removed s s') :
    OpFacts (s'.among others) := by
  have hown := h.own
  have hcleared : ∀ ctx, (∀ i, (ctx.ops i).sess ≠ some s.conn.id) → OpConn ctx s'.conn := by
    intro ctx hnone
    refine ⟨fun i => ?_, ?_, ?_, ?_, ?_, ?_⟩ <;> rw [hr.sess]
    · rw [hr.id]
      exact iff_of_false (hnone i) nofun
    · exact nofun
    · exact fun _ _ => rfl
    · exact fun _ => rfl
    · exact nofun
    · exact fun _ => rfl
  have hops : ∀ i, (s'.ctx.ops i).sess = some s.conn.id → False := by
    intro i hi
    rw [hr.ops] at hi
    split at hi
    · cases hi
    · rename_i hne
      exact hne ((hown.owner i).mp hi)
  cases hp : s.conn.sess.pendingPkaOp with
  | none =>
    have hsame : s'.ctx.ops = s.ctx.ops := by
      funext i
      rw [hr.ops, hp]
      rfl
    have hpool : s'.ctx.opPool = s.ctx.opPool := by rw [hr.pool, hp]; exact List.append_nil _
    refine h.on hr.id (hcleared _ hops) ⟨?_, ?_, ?_, ?_⟩ fun i d _ => by rw [hsame]
    · rw [hpool]
      exact h.core.nodup
    · rw [hpool, hsame]
      exact h.core.pool
    · rw [hsame]
      exact h.core.unowned
    · rw [hsame]
      exact h.core.hello
  | some o =>
    have hop := (hown.owner o).mpr hp
    have hdel : ∀ i, s'.ctx.ops i = if i = o then {} else s.ctx.ops i := by
      intro i
      rw [hr.ops, hp]
      by_cases hi : i = o
      · simp [hi]
      · simp [hi, Ne.symm hi]
    have hcore : OpCtx s.ctx := h.core
    refine h.on hr.id (hcleared _ hops) (hcore.deleted (by rw [hop]; exact nofun) ?_ hdel)
      fun i d hd => ?_
    · rw [hr.pool, hp]
      rfl
    · rw [hdel]
      split
      · rename_i hi
        rw [hi, hop]
        exact iff_of_false nofun fun he => hd (Option.some.inj he).symm
      · rfl

/-! ### Results and the server flight -/

/- The pending operation is answered and released; `p` is the one submitted meanwhile, if any. -/
theorem OpFacts.answered (h : OpFacts (s.among others)) {p : Option OpId} {u : St}
    (hpend : s.conn.sess.pendingPkaOp = some o) (hid : u.conn.id = s.conn.id) (hcore : OpCtx u.ctx)
    (hop : u.ctx.ops o = s.ctx.ops o) (hp : u.conn.sess.pendingPkaOp = p)
    (howner : ∀ i, i ≠ o → ((u.ctx.ops i).sess = some s.conn.id ↔ p = some i))
    (hpo : p ≠ some o)
    (hothers : ∀ i d, d ≠ s.conn.id → ((u.ctx.ops i).sess = some d ↔ (s.ctx.ops i).sess = some d))
    (hhs : u.conn.sess.handshakeState ≠ .helloRequest)
    (hkeyed : u.conn.sess.handshakeState = .serverHello →
      u.conn.sess.tls13Ctx.handshakeKeyCalculated = true → p = none) :
    OpFacts ((finishCrypto o u).among others) := by
  have hsess := (h.own.owner o).mpr hpend
  have hops : ∀ i, (finishCrypto o u).ctx.ops i = if i = o then {} else u.ctx.ops i := fun _ => rfl
  refine h.on hid ⟨fun i => ?_, nofun, fun hh => absurd hh hhs, fun hh => absurd hh hhs,
    fun hs hk => hp.trans (hkeyed hs hk), fun hh => absurd hh hhs⟩
    (hcore.deleted (by rw [hop, hsess]; exact nofun) rfl hops) fun i d hd => ?_
  · show _ = some u.conn.id ↔ u.conn.sess.pendingPkaOp = some i
    rw [hid, hp, hops]
    split
    · rename_i hi
      rw [hi]
      exact iff_of_false nofun hpo
    · rename_i hi
      exact howner i hi
  · rw [hops]
    split
    · rename_i hi
      rw [hi, hsess]
      exact iff_of_false nofun fun he => hd (Option.some.inj he).symm
    · exact hothers i d hd

theorem OpFacts.keyGen (h : OpFacts (s.among others)) {r : Record} {ch : ClientHello} {t u : St}
    (hpend : s.conn.sess.pendingPkaOp = some o) (hst : s.conn.sess.handshakeState = .helloRequest)
    (hf : SendFrame (handleAfterEcdheKeyGen (clearPending s)) t)
    (ha : answerClientHello env r ch t = .ok u) :
    (finishCrypto o (deleteRecord r u)).conn.id = s.conn.id
      ∧ OpFacts ((finishCrypto o (deleteRecord r u)).among others) := by
  obtain ⟨off, s1, s2, -, hf', hreq, rfl⟩ := answerClientHello_cases ha
  have hcore : OpCtx s.ctx := h.core
  have hkept : OpsKept s.ctx s1.ctx := OpsKept.trans hf.ops hf'.ops
  have hops1 : s1.ctx.ops = s.ctx.ops := hcore.same hkept
  have hcore1 : OpCtx s1.ctx := hcore.kept hkept
  have hid1 : s1.conn.id = s.conn.id := hf'.id.trans hf.id
  have hpend1 : s1.conn.sess.pendingPkaOp = none :=
    hf'.pendingPkaOp.trans hf.pendingPkaOp
  have hkey1 : s1.conn.sess.tls13Ctx.handshakeKeyCalculated = false :=
    ((congrArg (fun e => e.tls13Ctx.handshakeKeyCalculated) hf'.sess :).trans
      (congrArg (fun e => e.tls13Ctx.handshakeKeyCalculated) hf.sess :)).trans (h.own.fresh hst)
  have hnone : ∀ i, i ≠ o → (s.ctx.ops i).sess ≠ some s.conn.id := by
    intro i hi he
    rw [h.own.owner i, hpend] at he
    exact hi (Option.some.inj he).symm
  -- the tail of `handle_handshake` and the accounting do not matter here
  have htail : s2.conn.id = s.conn.id → OpFacts ((finishCrypto o s2).among others) →
      (finishCrypto o (deleteRecord r (s2.mapSess fun e =>
        { e with writeSp := e.pendingSp, sendSeqNum := 0 }))).conn.id = s.conn.id
      ∧ OpFacts ((finishCrypto o (deleteRecord r (s2.mapSess fun e =>
        { e with writeSp := e.pendingSp, sendSeqNum := 0 }))).among others) := fun hid hfacts =>
    ⟨hid, hfacts.same ⟨rfl, rfl, rfl, rfl, rfl, rfl, rfl⟩ rfl ⟨.refl _, fun _ => .inl rfl⟩⟩
  rcases hreq with ⟨o', hrej⟩ | ⟨o', hsub⟩
  · have hv := OpView.of_core hrej.frame.sess
    have hid2 : s2.conn.id = s.conn.id := hrej.frame.id.trans hid1
    have hops2 : s2.ctx.ops = s.ctx.ops := (hcore1.same hrej.frame.ops).trans hops1
    have hk2 : s2.conn.sess.tls13Ctx.handshakeKeyCalculated = false := hv.keyCalculated.trans hkey1
    refine htail hid2 (h.answered (p := none) hpend hid2 (hcore1.kept hrej.frame.ops)
      (congrFun hops2 o) (hv.pendingPkaOp.trans hpend1) (fun i hi => ?_) nofun (fun i d _ => ?_) ?_
      fun _ hk => ?_)
    · rw [hops2]
      exact iff_of_false (hnone i hi) nofun
    · rw [hops2]
    · rw [hv.handshakeState]
      exact fun he => absurd he nofun
    · exact absurd (hk2.symm.trans hk) nofun
  · have hmem : o' ∈ s1.ctx.opPool := hsub.pool ▸ List.mem_cons_self
    have hfree : (s.ctx.ops o').sess = none := by
      rw [← hops1]
      exact hcore1.pool o' hmem
    have hne : o ≠ o' := by
      rintro rfl
      rw [(h.own.owner o).mpr hpend] at hfree
      cases hfree
    have hops2 : ∀ i, i ≠ o' → s2.ctx.ops i = s.ctx.ops i := fun i hi =>
      (hsub.ops i hi).trans (congrFun hops1 i)
    have hop2 : (s2.ctx.ops o').sess = some s.conn.id := by
      rw [hsub.op]
      exact congrArg some hid1
    have hid2 : s2.conn.id = s.conn.id := hsub.id.trans hid1
    have hcore2 : OpCtx s2.ctx :=
      OpCtx.submits (s := sharedSecretRequest (slice r.pf off x25519KeyLen) s1) hcore1 hsub
        fun _ hr => absurd hr (by simp)
    have hk2 : s2.conn.sess.tls13Ctx.handshakeKeyCalculated = false := by
      rw [hsub.sess]
      exact hkey1
    refine htail hid2 (h.answered (p := some o') hpend hid2
      hcore2 (hops2 o hne) (by rw [hsub.sess])
      (fun i hi => ?_) (fun he => hne (Option.some.inj he).symm) (fun i d hd => ?_) ?_ fun _ hk => ?_)
    · by_cases hio : i = o'
      · rw [hio, hop2]
        exact iff_of_true rfl rfl
      · rw [hops2 i hio]
        exact iff_of_false (hnone i hi) fun he => hio (Option.some.inj he).symm
    · by_cases hio : i = o'
      · rw [hio, hop2, hfree]
        exact iff_of_false (fun he => hd (Option.some.inj he).symm) nofun
      · rw [hops2 i hio]
    · rw [hsub.sess]
      exact nofun
    · exact absurd (hk2.symm.trans hk) nofun

theorem OpFacts.crypto (h : OpFacts (s.among others)) (hs : getProcessedCrypto env s = .ok s') :
    s'.conn.id = s.conn.id ∧ OpFacts (s'.among others) := by
  have hown := h.own
  have hpending : ∀ {o}, s.conn.sess.completedCrypto = true → s.conn.sess.pkaOp = some o →
      s.conn.sess.pendingPkaOp = some o := by
    intro o hc hop
    obtain ⟨o', hp, hpend⟩ := hown.completed hc
    rw [hop] at hp
    rw [hpend, hp]
  -- with the pending operation gone, no operation names the session
  have hnone : ∀ {o}, s.conn.sess.pendingPkaOp = some o → ∀ i, i ≠ o →
      (s.ctx.ops i).sess ≠ some s.conn.id := by
    intro o hpend i hi he
    rw [hown.owner i, hpend] at he
    exact hi (Option.some.inj he).symm
  cases getProcessedCrypto_outcome h.core.hello hs with
  | idle => exact ⟨rfl, h⟩
  | keyGen hc hop hst _ _ hf ha => exact h.keyGen (hpending hc hop) hst hf ha
  | sharedSecret hc hop hst =>
    have hpend := hpending hc hop
    exact ⟨rfl, h.answered (p := none) hpend rfl h.core rfl rfl
      (fun i hi => iff_of_false (hnone hpend i hi) nofun) nofun (fun _ _ _ => Iff.rfl)
      (by show s.conn.sess.handshakeState ≠ _; rw [hst]; exact nofun) fun _ _ => rfl⟩
  | signature hc hop hst =>
    have hpend := hpending hc hop
    exact ⟨rfl, h.answered (p := none) hpend rfl h.core rfl rfl
      (fun i hi => iff_of_false (hnone hpend i hi) nofun) nofun (fun _ _ _ => Iff.rfl)
      (by show s.conn.sess.handshakeState ≠ _; rw [hst]; exact nofun) fun _ _ => rfl⟩

theorem OpFacts.remain (h : OpFacts (s.among others)) (ho : RemainOutcome env s s') :
    s'.conn.id = s.conn.id ∧ OpFacts (s'.among others) := by
  cases ho with
  | idle => exact ⟨rfl, h⟩
  | @certificate s1 s2 s' hst hk hf hf' hreq =>
    have hback := hf'.setBack (hf.handshakeState.trans hst) nofun
    have h2 := (h.frame hf).frame hback
    have hpend : s2.conn.sess.pendingPkaOp = none :=
      (congrArg Session.pendingPkaOp (hf.trans hback).sess :).trans (h.own.keyed hst hk)
    have h3 : OpFacts ((signatureRequest env s2).among others) :=
      h2.moved rfl rfl rfl rfl rfl ⟨nofun, nofun⟩
    rcases hreq with ⟨o, hrej⟩ | ⟨o, hsub⟩
    · exact ⟨hrej.frame.id.trans (hf'.id.trans hf.id), h3.frame hrej.frame.toSendFrame⟩
    · exact ⟨hsub.id.trans (hf'.id.trans hf.id), h3.submits hsub hpend nofun fun _ hr => absurd hr nofun⟩
  | @finished s1 s2 port hst hsig hf hf' =>
    have hback := hf'.setBack (hf.handshakeState.trans hst) nofun
    have h2 := (h.frame hf).frame hback
    obtain ⟨k, hk, -⟩ := handleAppKeysCalculation_eq env s2
    refine ⟨hf'.id.trans hf.id, OpFacts.frame (s := handleVerifyDataCalculation env
      (handleAppKeysCalculation env s2)) ?_ (sendKeyMeta_frame env port _).toSendFrame⟩
    have hst2 : s2.conn.sess.handshakeState = .certificateVerify :=
      hf'.handshakeState
    have h3 : OpFacts (s2.among others) :=
      h2.moved rfl rfl rfl rfl rfl (by rw [hst2]; exact ⟨nofun, nofun⟩)
    rw [hk]
    refine h3.on rfl (h3.own.moved rfl rfl rfl rfl rfl ?_)
      ⟨h3.core.nodup, h3.core.pool, h3.core.unowned, h3.core.hello⟩ fun _ _ _ => Iff.rfl
    show s2.conn.sess.handshakeState ≠ _ ∧ s2.conn.sess.handshakeState ≠ _
    rw [hst2]
    exact ⟨nofun, nofun⟩
  | @pending s1 hst hfin hf =>
    exact ⟨hf.id, (h.frame hf.toSendFrame).moved rfl rfl rfl rfl rfl ⟨nofun, nofun⟩⟩

/-! ### The whole worker -/

theorem OpFacts.queues (h : OpFacts (s.among others)) (cur : Option Record) (q : List Record) :
    OpFacts ((s.mapSess fun e => { e with currentReadRecord := cur, recvQ := q }).among others) :=
  h.same ⟨rfl, rfl, rfl, rfl, rfl, rfl, rfl⟩ rfl ⟨.refl _, fun _ => .inl rfl⟩

theorem readRule_opFacts : ReadRule (Carries (fun _ => True) OpFacts) where
  refl := .refl
  trans := .trans
  call rest r s := by
    refine ⟨List.suffix_cons _ _, fun _ _ h => ⟨rfl, ?_⟩⟩
    show OpFacts ((reading rest r s).among _)
    exact h.same ⟨rfl, rfl, rfl, rfl, rfl, rfl, rfl⟩ rfl ⟨.refl _, fun _ => .inl rfl⟩
  complete r s := by
    refine ⟨List.suffix_cons _ _, fun _ _ h => ⟨rfl, ?_⟩⟩
    show OpFacts ((completing r s).among _)
    exact h.same ⟨rfl, rfl, rfl, rfl, rfl, rfl, rfl⟩ rfl ⟨.refl _, fun _ => .inl rfl⟩
  queues s cur q := ⟨List.suffix_refl _, fun _ _ h => ⟨rfl, h.queues cur q⟩⟩
  frame _ _ hf := ⟨hf.grows, fun _ _ h => ⟨hf.id, h.frame hf.toSendFrame⟩⟩
  hello s s' r ch o hw hst hr _ hsub := by
    refine ⟨hsub.grows, fun _ _ h => ⟨hsub.id, h.submits hsub (h.own.idle hst hw) ?_ ?_⟩⟩
    · rw [hst]
      exact nofun
    · rintro r' hr'
      cases hr'
      exact ⟨ch, hr⟩
  spec s _ := by
    refine ⟨List.suffix_refl _, fun _ _ h => ⟨rfl, ?_⟩⟩
    show OpFacts ((changeSpec s).among _)
    exact h.moved rfl rfl rfl rfl rfl ⟨nofun, nofun⟩
  finish s _ := by
    refine ⟨List.suffix_refl _, fun _ _ h => ⟨rfl, ?_⟩⟩
    show OpFacts ((finishHandshake s).among _)
    exact h.moved rfl rfl rfl rfl rfl ⟨nofun, nofun⟩
  removed _ _ hr := ⟨hr.grows, fun _ _ h => ⟨hr.id, h.removed hr⟩⟩

theorem mapTcp_opFacts (s : St) (f : Tcp → Tcp) :
    Carries (fun _ => True) OpFacts s (s.mapTcp f) := by
  refine ⟨List.suffix_refl _, fun _ _ h => ⟨rfl, ?_⟩⟩
  show OpFacts ((s.mapTcp f).among _)
  exact h.same (.of_core rfl) rfl (.refl _)

theorem emit_opFacts (s : St) (x : Out) : Carries (fun _ => True) OpFacts s (emit x s) := by
  refine ⟨List.suffix_refl _, fun _ _ h => ⟨rfl, ?_⟩⟩
  show OpFacts ((emit x s).among _)
  exact h.same (.of_core rfl) rfl ⟨.refl _, fun _ => .inl rfl⟩

theorem closed_opFacts (env : Env) : Closed env (Carries (fun _ => True) OpFacts) :=
  readRule_opFacts.closed emit_opFacts (fun s f _ => mapTcp_opFacts s f)
    (fun _ _ hc => ⟨getProcessedCrypto_grows hc, fun _ _ h => h.crypto hc⟩)
    fun _ _ ho => ⟨ho.grows, fun _ _ h => h.remain ho⟩

end

section

variable {env : Env} {s s' : Sys} {c : ConnId} {o : OpId}

theorem OpFacts.keep (h : OpFacts s) (hids : ∀ c, (s'.conns c).id = (s.conns c).id)
    (hv : ∀ c, OpView (s.conns c).sess (s'.conns c).sess) (hops : s'.ctx.ops = s.ctx.ops)
    (hpool : s'.ctx.opPool = s.ctx.opPool) : OpFacts s' where
  ids c := (hids c).trans (h.ids c)
  conn c := (h.conn c).view (hv c) (hids c) fun o => by rw [hops]
  core := h.core.kept ⟨.of_eq hpool, fun o => .inl (congrFun hops o)⟩

theorem OpFacts.quiet (h : OpFacts s) (hq : SysQuiet s s') : OpFacts s' := by
  obtain ⟨hconns, out, outside, hctx⟩ := hq
  refine h.keep (fun c => by rw [hconns]) (fun c => ?_) (by rw [hctx]) (by rw [hctx])
  rw [hconns]
  exact .of_core rfl

theorem OpFacts.inserted (h : OpFacts s) (hi : Inserted c s s') : OpFacts s' := by
  refine h.keep (fun i => (hi.sess i).1) (fun i => ?_) (by rw [hi.ctx]) (by rw [hi.ctx])
  rw [(hi.sess i).2]
  exact .of_core rfl

/- A write of the PKA core to the session of operation `o`, which is pending there. -/
theorem OpFacts.pka (h : OpFacts s) (hc : (s.ctx.ops o).sess = some c) {f : Session → Session}
    (hconns : s'.conns = (s.setConn c f).conns)
    (hf : ∀ e, e.pendingPkaOp = some o → (f e).pendingPkaOp = some o
      ∧ (f e).handshakeState = e.handshakeState ∧ (f e).waitingCrypto = e.waitingCrypto
      ∧ (f e).tls13Ctx = e.tls13Ctx ∧ (f e).readSp = e.readSp
      ∧ ((f e).completedCrypto = true → e.completedCrypto = true ∧ (f e).pkaOp = e.pkaOp
        ∨ (f e).pkaOp = some o))
    (hsess : ∀ i, (s'.ctx.ops i).sess = (s.ctx.ops i).sess) (hcore : OpCtx s'.ctx) : OpFacts s' := by
  have hpend : (s.conns c).sess.pendingPkaOp = some o := by
    rw [← (h.conn c).owner o, h.ids c]
    exact hc
  obtain ⟨f1, f2, f3, f4, f6, f5⟩ := hf _ hpend
  refine ⟨fun i => ?_, fun i => ?_, hcore⟩ <;> rw [hconns] <;> by_cases hi : i = c
  · simpa [Sys.setConn, hi] using h.ids c
  · simpa [Sys.setConn, hi] using h.ids i
  · obtain ⟨h1, h2, h3, h4, h5, h6⟩ := h.conn c
    simp only [Sys.setConn, hi, if_true]
    refine ⟨fun x => ?_, fun hcompl => ?_, ?_, ?_, ?_, ?_⟩
    · rw [hsess, h1 x, hpend]
      exact (by rw [f1])
    · rcases f5 hcompl with ⟨hold, hp⟩ | hp
      · obtain ⟨x, hx, hx'⟩ := h2 hold
        exact ⟨x, hp.trans hx, f1.trans (hpend.symm.trans hx')⟩
      · exact ⟨o, hp, f1⟩
    · intro hs hw
      exact absurd (h3 (f2 ▸ hs) (f3 ▸ hw)) (by rw [hpend]; exact nofun)
    · intro hs
      rw [f4]
      exact h4 (f2 ▸ hs)
    · intro hs hk
      exact absurd (h5 (f2 ▸ hs) (f4 ▸ hk)) (by rw [hpend]; exact nofun)
    · intro hs
      rw [f6]
      exact h6 (f2 ▸ hs)
  · simp only [Sys.setConn, hi, if_false]
    exact (h.conn i).view (.of_core rfl) rfl hsess

theorem OpFacts.submitted {priv : Operand} (h : OpFacts s)
    (hs : handleSubmittedPka priv s = .ok s') : OpFacts s' := by
  rcases handleSubmittedPka_cases hs with rfl | ⟨o, ring, c, -, -, -, hc, hconns, hctx⟩
  · exact h
  have hops : ∀ i, s'.ctx.ops i = if i = o then { s.ctx.ops o with pkaFlag := true }
      else s.ctx.ops i := by
    intro i
    rw [hctx]
    rfl
  have hsess : ∀ i, (s'.ctx.ops i).sess = (s.ctx.ops i).sess := by
    intro i
    by_cases hi : i = o <;> simp [hops, hi]
  have hpool : s'.ctx.opPool = s.ctx.opPool := by rw [hctx]; rfl
  refine h.pka hc hconns (fun e he => ⟨rfl, rfl, rfl, rfl, rfl, fun hcompl => .inl ⟨hcompl, rfl⟩⟩) hsess
    ⟨hpool ▸ h.core.nodup, fun i hi => ?_, fun i hi => ?_, fun i r hr => ?_⟩
  · rw [hsess]
    exact h.core.pool i (hpool ▸ hi)
  · rw [hsess] at hi
    have hio : i ≠ o := fun he => by
      rw [he, hc] at hi
      cases hi
    rw [hops, if_neg hio]
    exact h.core.unowned i hi
  · refine h.core.hello i r ?_
    by_cases hi : i = o
    · rw [hops, if_pos hi] at hr
      exact hi ▸ hr
    · rw [hops, if_neg hi] at hr
      exact hr

theorem OpFacts.completes {results : List Bytes} (h : OpFacts s)
    (hs : handleCompletedPka o results s = .ok s') : OpFacts s' := by
  rcases handleCompletedPka_cases hs with rfl | ⟨c, -, hc, ⟨-, hconns, hctx⟩ | ⟨-, -, hconns, hctx⟩⟩
  · exact h
  · refine h.pka hc hconns (fun e he => ⟨he, rfl, rfl, rfl, rfl, fun _ => .inr rfl⟩)
      (fun i => by rw [hctx]) ?_
    rw [hctx]
    exact ⟨h.core.nodup, h.core.pool, h.core.unowned, h.core.hello⟩
  · refine h.pka hc hconns (fun e he => ⟨he, rfl, rfl, rfl, rfl, fun _ => .inr rfl⟩)
      (fun i => by rw [hctx]) ?_
    rw [hctx]
    exact ⟨h.core.nodup, h.core.pool, h.core.unowned, h.core.hello⟩

theorem kept_opFacts (env : Env) : Kept env (fun _ => True) OpFacts where
  ids _ h := h.ids
  quiet _ _ hq h := h.quiet hq
  inserted _ _ _ hi h := h.inserted hi
  closed := closed_opFacts env
  removed _ _ hr := ⟨hr.grows, fun _ _ h => ⟨hr.id, h.removed hr⟩⟩
  submits _ _ _ hs h := h.submitted hs
  completes _ _ _ _ hs h := h.completes hs

theorem initial_opFacts (n ringCnt : Nat) : OpFacts (initial n ringCnt) where
  ids _ := rfl
  conn _ :=
    { owner := fun _ => iff_of_false (fun h => absurd h nofun) fun h => absurd h nofun
      completed := fun h => absurd h Bool.false_ne_true
      idle := fun _ _ => rfl
      fresh := fun _ => rfl
      keyed := fun h _ => absurd h nofun
      plain := fun _ => rfl }
  core :=
    { nodup := List.nodup_range
      pool := fun _ _ => rfl
      unowned := fun _ _ => rfl
      hello := fun _ _ h => absurd h nofun }

end

end Xtls.Nic
