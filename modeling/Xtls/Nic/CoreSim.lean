import Xtls.Nic.Among
import Xtls.Nic.CoreRuns
import Xtls.Nic.StateMatch

/-!
# Connections on the two cores

In the system of `Xtls.Nic.System` a packet, a round of the main loop or of the PKA core is one step;
on the machine of `Xtls.Nic.Cores` the cores work access by access.  `Sim` relates their states, and
`Follows` says that what is done to one connection can be done on the machine.
-/

namespace Xtls.Nic

def Op.shared (v : Op) : CoreOp :=
  { opcode := v.opcode, sess := v.sess, record := v.data.isSome, pkaFlag := v.pkaFlag }

/-- Pool, ring, engine and operations are the same.  What lies zeroed in the pool of the worker is
not looked at before it is filled. -/
structure CtxSim (ctx : Ctx) (b : Cores) : Prop where
  ops : ∀ o, b.ops o = (ctx.ops o).shared ∨ (o ∈ ctx.opPool ∧ ctx.ops o = {})
  pool : b.pool = ctx.opPool
  ring : b.ring.map Request.op = ctx.submitPkaRing
  ringCnt : b.ringCnt = ctx.ringCnt
  engine : b.engine.map Request.op = ctx.engine

structure SessSim (e : Session) (x : CoreSession) : Prop where
  handshakeState : x.handshakeState = e.handshakeState
  keyCalculated : x.handshakeKeyCalculated = e.tls13Ctx.handshakeKeyCalculated
  certSignatured : x.certSignatured = e.tls13Ctx.certSignatured
  waitingCrypto : x.waitingCrypto = e.waitingCrypto
  completedCrypto : x.completedCrypto = e.completedCrypto
  pkaOp : x.pkaOp.map Request.op = e.pkaOp
  pendingPkaOp : x.pendingPkaOp = e.pendingPkaOp

/- The record moves `handshake_state` on: a ChangeCipherSpec or a Finished that is not ignored. -/
def Advances (env : Env) (e : Session) (r : Record) : Prop :=
  ∃ r1 ∈ opened env e r, r1.plainText.version.major = 0x03
    ∧ ((r1.plainText.recordType = some .changeCipherSpec
        ∧ (e.handshakeState = .finished ∨ ¬ .clientCipherSpec ≤ e.handshakeState))
      ∨ (r1.plainText.recordType = some .applicationData
        ∧ innerType r1 = ContentType.handshake.code ∧ ¬ .finished ≤ e.handshakeState))

/-- No record moves `handshake_state` while an operation of the session is pending, and no session is
removed while one of its operations is queued or running. -/
def Event.Settled (env : Env) : Event → Prop
  | .read conn r _ _ => Advances env conn.sess r → conn.sess.pendingPkaOp = none
  | .remove _ outstanding => outstanding = []
  | _ => True

instance (env : Env) (e : Session) (r : Record) : Decidable (Advances env e r) := by
  unfold Advances
  infer_instance

instance (env : Env) : DecidablePred (Event.Settled env)
  | .read conn r _ _ => inferInstanceAs (Decidable (Advances env conn.sess r → conn.sess.pendingPkaOp = none))
  | .remove _ outstanding => inferInstanceAs (Decidable (outstanding = []))
  | .insert _ | .clear _ | .complete .. | .verifyData .. => .isTrue trivial

structure Sim (env : Env) (s : Sys) (b : Cores) : Prop where
  ids : ∀ c, (s.conns c).id = c
  ctx : CtxSim s.ctx b
  sess : ∀ c, SessSim (s.conns c).sess (b.sess c)
  worker : b.worker = .idle
  pka : b.pka = .idle
  hello : ∀ o r, (s.ctx.ops o).data = some r → ∃ ch, r.IsHello ch
  settled : (∀ e ∈ s.ctx.trace, e.Settled env) → ∀ e ∈ b.trace, e.Settled

def Simulated (env : Env) (n ringCnt : Nat) (s : Sys) : Prop :=
  ∃ b, Reaches Cores.act (Cores.initial (3 * n) ringCnt) b ∧ Sim env s b

section

variable {env : Env} {n ringCnt : Nat} {s s' : St} {b b' : Cores} {others : ConnId → Conn}
  {ctx ctx' : Ctx} {o : OpId} {fill : Op} {back : Option Request}

/-! ### Pool, ring and engine -/

theorem CtxSim.shared (h : CtxSim ctx b) (ho : ctx.ops o ≠ {}) : b.ops o = (ctx.ops o).shared :=
  (h.ops o).resolve_right fun hz => ho hz.2

/- Operations are used for a cipher. -/
theorem CtxSim.kept (h : CtxSim ctx b) (hcore : ctx'.core = ctx.core) (hk : OpsKept ctx ctx') :
    Reaches Cores.act b { b with pool := ctx'.opPool }
      ∧ CtxSim ctx' { b with pool := ctx'.opPool } := by
  refine ⟨.one (e := .cipher ctx'.opPool []) ?_, ⟨fun o => ?_, rfl, ?_, ?_, ?_⟩⟩
  · have hperm : ctx'.opPool.isPerm b.pool = true := List.isPerm_iff.mpr (h.pool ▸ hk.pool)
    simp [Cores.act, hperm]
  · rcases hk.ops o with ho | ⟨hm, ho⟩
    · rw [ho]
      exact (h.ops o).imp_right fun hz => ⟨hk.pool.symm.subset hz.1, hz.2⟩
    · exact .inr ⟨hk.pool.symm.subset hm, ho⟩
  · exact h.ring.trans (congrArg Ctx.submitPkaRing hcore :).symm
  · exact h.ringCnt.trans (congrArg Ctx.ringCnt hcore :).symm
  · exact h.engine.trans (congrArg Ctx.engine hcore :).symm

/-- What becomes of a request made in state `b`: the worker goes on in `b'`. -/
structure Requested (c : ConnId) (opcode : Opcode) (r : Bool) (back : Option Request)
    (f : CoreSession → CoreSession) (b b' : Cores) : Prop where
  reaches : ∃ b1, b.take c opcode r back = .ok b1 ∧ Reaches Cores.act b1 b'
  sess : b'.sess = (b.setSess c f).sess
  worker : b'.worker = Cores.resume c back
  pka : b'.pka = b.pka
  trace : b'.trace = b.trace

theorem CtxSim.submits (h : CtxSim s.ctx b) (hsub : Submits fill o s s') (back : Option Request) :
    ∃ b', CtxSim s'.ctx b' ∧ Requested s.conn.id fill.opcode fill.data.isSome back
      (fun e => { e with waitingCrypto := true, pendingPkaOp := some o }) b b' := by
  have hpool : b.pool = o :: s'.ctx.opPool := h.pool.trans hsub.pool
  have hlen : b.ring.length = s.ctx.submitPkaRing.length := by rw [← h.ring, List.length_map]
  let q : Request := ⟨o, fill.opcode, s.conn.id, b.tickets⟩
  let b1 := b.allocated s.conn.id fill.opcode fill.data.isSome back o s'.ctx.opPool
  have htake : b.take s.conn.id fill.opcode fill.data.isSome back = .ok b1 := by
    simp only [Cores.take, hpool, b1]
  have hroom : ¬ b1.ringCnt ≤ b1.ring.length + 1 := by
    show ¬ b.ringCnt ≤ b.ring.length + 1
    rw [h.ringCnt, hlen]
    exact hsub.room
  refine ⟨b1.queued q back, ⟨fun i => ?_, rfl, ?_, ?_, ?_⟩,
    ⟨b1, htake, Cores.queued_reaches rfl hroom⟩, ?_, rfl, rfl, rfl⟩
  · by_cases hi : i = o
    · subst hi
      rw [hsub.op]
      exact .inl (by simp [b1, q, Cores.queued, Cores.allocated, Cores.setOp, Cores.setSess, Op.shared])
    · have hb : (b1.queued q back).ops i = b.ops i := by
        simp [b1, q, Cores.queued, Cores.allocated, Cores.setOp, Cores.setSess, hi]
      rw [hb, hsub.ops i hi]
      refine (h.ops i).imp_right fun hz => ⟨?_, hz.2⟩
      rw [hsub.pool] at hz
      exact (List.mem_cons.mp hz.1).resolve_left hi
  · show (b.ring ++ [q]).map Request.op = _
    rw [List.map_append, h.ring, hsub.ring]
    rfl
  · exact h.ringCnt.trans (congrArg Ctx.ringCnt hsub.ctx :).symm
  · exact h.engine.trans (congrArg Ctx.engine hsub.ctx :).symm
  · funext i
    by_cases hi : i = s.conn.id
    · simp [b1, q, Cores.queued, Cores.allocated, Cores.setOp, Cores.setSess, hi]
    · simp [b1, q, Cores.queued, Cores.allocated, Cores.setOp, Cores.setSess, hi]

theorem CtxSim.rejects (h : CtxSim s.ctx b) (hrej : Rejects o s s') (opcode : Opcode) (r : Bool)
    (back : Option Request) :
    ∃ b', CtxSim s'.ctx b' ∧ Requested s.conn.id opcode r back (fun e => e) b b' := by
  obtain ⟨pool, hp, hp'⟩ := hrej.pool
  have hpool : b.pool = o :: pool := h.pool.trans hp
  have hlen : b.ring.length = s.ctx.submitPkaRing.length := by rw [← h.ring, List.length_map]
  have hcore := hrej.frame.ctx
  let b1 := b.allocated s.conn.id opcode r back o pool
  have htake : b.take s.conn.id opcode r back = .ok b1 := by
    simp only [Cores.take, hpool, b1]
  have hfull : b1.ringCnt ≤ b1.ring.length + 1 := by
    show b.ringCnt ≤ b.ring.length + 1
    rw [h.ringCnt, hlen]
    exact hrej.full
  refine ⟨_, ⟨fun i => ?_, hp'.symm, ?_, ?_, ?_⟩,
    ⟨b1, htake, Cores.rejected_reaches (b := back) rfl hfull⟩, ?_, rfl, rfl, rfl⟩
  · by_cases hi : i = o
    · subst hi
      exact .inr ⟨by rw [hp']; simp, hrej.op⟩
    · rw [hrej.ops i hi]
      have hb : (b1.deleteOp o).ops i = b.ops i := by
        simp [b1, Cores.allocated, Cores.setOp, Cores.deleteOp, hi]
      refine (h.ops i).imp hb.trans fun hz => ⟨?_, hz.2⟩
      rw [hp']
      rw [hp] at hz
      exact List.mem_append_left _ ((List.mem_cons.mp hz.1).resolve_left hi)
  · exact h.ring.trans (congrArg Ctx.submitPkaRing hcore :).symm
  · exact h.ringCnt.trans (congrArg Ctx.ringCnt hcore :).symm
  · exact h.engine.trans (congrArg Ctx.engine hcore :).symm
  · funext i
    simp [b1, Cores.allocated, Cores.setOp, Cores.deleteOp, Cores.setSess]

/-! ### One connection -/

theorem Sim.own (h : Sim env (s.among others) b) : SessSim s.conn.sess (b.sess s.conn.id) := by
  have hs := h.sess s.conn.id
  simpa [St.among] using hs

theorem Sim.on (h : Sim env (s.among others) b) (hid : s'.conn.id = s.conn.id)
    (hctx : CtxSim s'.ctx b') (hothers : ∀ i, i ≠ s.conn.id → b'.sess i = b.sess i)
    (hsess : SessSim s'.conn.sess (b'.sess s.conn.id)) (hw : b'.worker = .idle)
    (hp : b'.pka = .idle) (hhello : ∀ o r, (s'.ctx.ops o).data = some r → ∃ ch, r.IsHello ch)
    (hset : (∀ e ∈ s'.ctx.trace, e.Settled env) → ∀ e ∈ b'.trace, e.Settled) :
    Sim env (s'.among others) b' := by
  have hne : ∀ c, c ≠ s.conn.id → (s'.among others).conns c = (s.among others).conns c := by
    intro c hc
    simp only [St.among, hid, Function.update_of_ne hc]
  have heq : (s'.among others).conns s.conn.id = s'.conn := by
    rw [← hid]
    exact Function.update_self ..
  refine ⟨fun c => ?_, hctx, fun c => ?_, hw, hp, hhello, hset⟩
  · by_cases hc : c = s.conn.id
    · rw [hc, heq, hid]
    · rw [hne c hc]
      exact h.ids c
  · by_cases hc : c = s.conn.id
    · rw [hc, heq]
      exact hsess
    · rw [hne c hc, hothers c hc]
      exact h.sess c

theorem Sim.quiet (h : Sim env (s.among others) b) (hid : s'.conn.id = s.conn.id)
    (hsess : SessSim s'.conn.sess (b.sess s.conn.id))
    (hctx : { s'.ctx with trace := [], out := [] } = { s.ctx with trace := [], out := [] })
    (htrace : s.ctx.trace <:+ s'.ctx.trace) : Sim env (s'.among others) b := by
  have hops : s'.ctx.ops = s.ctx.ops := (congrArg Ctx.ops hctx :)
  have hpool : s'.ctx.opPool = s.ctx.opPool := (congrArg Ctx.opPool hctx :)
  refine h.on hid ⟨?_, ?_, ?_, ?_, ?_⟩ (fun _ _ => rfl) hsess h.worker h.pka ?_ fun hg => ?_
  · rw [hops, hpool]
    exact h.ctx.ops
  · exact h.ctx.pool.trans hpool.symm
  · exact h.ctx.ring.trans (congrArg Ctx.submitPkaRing hctx :).symm
  · exact h.ctx.ringCnt.trans (congrArg Ctx.ringCnt hctx :).symm
  · exact h.ctx.engine.trans (congrArg Ctx.engine hctx :).symm
  · rw [hops]
    exact h.hello
  · exact h.settled fun e he => hg e (htrace.subset he)

theorem SessSim.core {e e' : Session} {x : CoreSession} (h : SessSim e x) (hc : e'.core = e.core) :
    SessSim e' x where
  handshakeState := h.handshakeState.trans (congrArg Session.handshakeState hc :).symm
  keyCalculated := h.keyCalculated.trans
    (congrArg (fun e => e.tls13Ctx.handshakeKeyCalculated) hc :).symm
  certSignatured := h.certSignatured.trans (congrArg (fun e => e.tls13Ctx.certSignatured) hc :).symm
  waitingCrypto := h.waitingCrypto.trans (congrArg Session.waitingCrypto hc :).symm
  completedCrypto := h.completedCrypto.trans (congrArg Session.completedCrypto hc :).symm
  pkaOp := h.pkaOp.trans (congrArg Session.pkaOp hc :).symm
  pendingPkaOp := h.pendingPkaOp.trans (congrArg Session.pendingPkaOp hc :).symm

/-- From `s` the connection comes to `s'`, and the other machine can follow. -/
def Follows (env : Env) (s s' : St) : Prop :=
  ∀ n ringCnt others b, Reaches Cores.act (Cores.initial n ringCnt) b →
    Sim env (s.among others) b →
      s'.conn.id = s.conn.id ∧ ∃ b', Reaches Cores.act b b' ∧ Sim env (s'.among others) b'

theorem Follows.refl (s : St) : Follows env s s := fun _ _ _ b _ h => ⟨rfl, b, .refl b, h⟩

theorem Follows.trans {a b c : St} (h1 : Follows env a b) (h2 : Follows env b c) :
    Follows env a c := by
  intro n ringCnt others x hx hs
  obtain ⟨hid, y, hy, hs⟩ := h1 n ringCnt others x hx hs
  obtain ⟨hid', z, hz, hs⟩ := h2 n ringCnt others y (hx.trans hy) hs
  exact ⟨hid'.trans hid, z, hy.trans hz, hs⟩

theorem Follows.quiet (hid : s'.conn.id = s.conn.id)
    (hsess : ∀ x, SessSim s.conn.sess x → SessSim s'.conn.sess x)
    (hctx : { s'.ctx with trace := [], out := [] } = { s.ctx with trace := [], out := [] })
    (htrace : s.ctx.trace <:+ s'.ctx.trace) : Follows env s s' :=
  fun _ _ _ b _ h => ⟨hid, b, .refl b, h.quiet hid (hsess _ h.own) hctx htrace⟩

theorem SendFrame.follows (hf : SendFrame s s') : Follows env s s' := by
  intro n ringCnt others b _ h
  obtain ⟨hreach, hctx⟩ := h.ctx.kept hf.ctx hf.ops
  refine ⟨hf.id, _, hreach, h.on hf.id hctx (fun _ _ => rfl) (h.own.core hf.sess) h.worker h.pka ?_ ?_⟩
  · exact fun o r hr => h.hello o r (hf.ops.data o r hr)
  · rw [hf.trace]
    exact h.settled

/-! ### Requests -/

theorem Submits.sim (hsub : Submits fill o s s') (h : Sim env (s.among others) b)
    (hfill : ∀ r, fill.data = some r → ∃ ch, r.IsHello ch) :
    ∃ b', Requested s.conn.id fill.opcode fill.data.isSome none
      (fun e => { e with waitingCrypto := true, pendingPkaOp := some o }) b b'
      ∧ Sim env (s'.among others) b' := by
  obtain ⟨b', hctx, hreq⟩ := h.ctx.submits hsub none
  obtain ⟨h1, h2, h3, -, h5, h6, -⟩ := h.own
  refine ⟨b', hreq, h.on hsub.id hctx (fun i hi => ?_) ?_ hreq.worker (hreq.pka.trans h.pka) ?_ ?_⟩
  · rw [hreq.sess]
    exact Cores.setSess_ne _ _ _ hi
  · rw [hreq.sess, Cores.setSess_self, hsub.sess]
    exact ⟨h1, h2, h3, rfl, h5, h6, rfl⟩
  · intro i r hr
    by_cases hi : i = o
    · rw [hi, hsub.op] at hr
      exact hfill r hr
    · rw [hsub.ops i hi] at hr
      exact h.hello i r hr
  · rw [hsub.trace, hreq.trace]
    exact h.settled

theorem Rejects.sim (hrej : Rejects o s s') (h : Sim env (s.among others) b) (opcode : Opcode)
    (r : Bool) : ∃ b', Requested s.conn.id opcode r none (fun e => e) b b'
      ∧ Sim env (s'.among others) b' := by
  obtain ⟨b', hctx, hreq⟩ := h.ctx.rejects hrej opcode r none
  have hsame : b'.sess = b.sess := hreq.sess.trans (by funext i; simp [Cores.setSess])
  refine ⟨b', hreq, h.on hrej.frame.id hctx (fun i _ => by rw [hsame]) ?_ hreq.worker
    (hreq.pka.trans h.pka) ?_ ?_⟩
  · rw [hsame]
    exact h.own.core hrej.frame.sess
  · exact fun o r hr => h.hello o r (hrej.frame.ops.data o r hr)
  · rw [hrej.frame.trace, hreq.trace]
    exact h.settled

theorem hello_follows {r : Record} {ch : ClientHello}
    (hsub : Submits { opcode := .ecdheKeyGeneration, data := some r } o s s')
    (hw : s.conn.sess.waitingCrypto = false) (hs : s.conn.sess.handshakeState = .helloRequest)
    (hch : r.IsHello ch) : Follows env s s' := by
  intro n ringCnt others b _ h
  obtain ⟨b', ⟨⟨b1, htake, hreach⟩, -, -, -, -⟩, hsim⟩ := hsub.sim h fun r' hr' => by
    cases hr'
    exact ⟨ch, hch⟩
  refine ⟨hsub.id, b', .head (e := .hello s.conn.id) ?_ hreach, hsim⟩
  simp only [Cores.act, h.worker, if_true, Cores.hello, h.own.waitingCrypto, hw,
    h.own.handshakeState, hs, and_self]
  exact htake

/-! ### Records that move the state -/

theorem advance_follows {t : HandshakeType} (hid : s'.conn.id = s.conn.id)
    (hsess : ∀ x, SessSim s.conn.sess x → SessSim s'.conn.sess { x with handshakeState := t })
    (hctx : s'.ctx = s.ctx)
    (hpend : (∀ e ∈ s.ctx.trace, e.Settled env) → s.conn.sess.pendingPkaOp = none)
    (hact : ∀ b : Cores, b.worker = .idle → SessSim s.conn.sess (b.sess s.conn.id) →
      ∃ a, b.act a = .ok (b.advance s.conn.id t)) : Follows env s s' := by
  intro n ringCnt others b _ h
  obtain ⟨a, ha⟩ := hact b h.worker h.own
  refine ⟨hid, _, .one ha, h.on hid ?_ (fun i hi => ?_) ?_ h.worker h.pka ?_ ?_⟩
  · rw [hctx]
    exact ⟨h.ctx.ops, h.ctx.pool, h.ctx.ring, h.ctx.ringCnt, h.ctx.engine⟩
  · simp [Cores.advance, Cores.record, Cores.setSess, hi]
  · have hown := hsess _ h.own
    simpa [Cores.advance, Cores.record, Cores.setSess] using hown
  · rw [hctx]
    exact h.hello
  · rw [hctx]
    intro hg e he
    rcases List.mem_cons.mp he with rfl | he
    · exact h.own.pendingPkaOp.trans (hpend hg)
    · exact h.settled hg e he

theorem changeSpec_follows (hw : s.conn.sess.waitingCrypto = false)
    (hs : s.conn.sess.handshakeState = .finished
      ∨ ¬ .clientCipherSpec ≤ s.conn.sess.handshakeState)
    (hpend : (∀ e ∈ s.ctx.trace, e.Settled env) → s.conn.sess.pendingPkaOp = none) :
    Follows env s (changeSpec s) := by
  refine advance_follows (t := .clientCipherSpec) rfl (fun x hx => ?_) rfl hpend fun b hb hx =>
    ⟨.changeCipherSpec s.conn.id, ?_⟩
  · exact ⟨rfl, hx.keyCalculated, hx.certSignatured, hx.waitingCrypto, hx.completedCrypto, hx.pkaOp,
      hx.pendingPkaOp⟩
  · have hskip : ¬ ((b.sess s.conn.id).waitingCrypto ∨ (b.sess s.conn.id).handshakeState ≠ .finished
        ∧ .clientCipherSpec ≤ (b.sess s.conn.id).handshakeState) := by
      rw [hx.waitingCrypto, hx.handshakeState, hw]
      simpa [or_iff_not_imp_left] using hs
    simp only [Cores.act, hb, if_true, Cores.changeCipherSpec, hskip, if_false]

theorem finishHandshake_follows (hw : s.conn.sess.waitingCrypto = false)
    (hs : ¬ .finished ≤ s.conn.sess.handshakeState)
    (hpend : (∀ e ∈ s.ctx.trace, e.Settled env) → s.conn.sess.pendingPkaOp = none) :
    Follows env s (finishHandshake s) := by
  refine advance_follows (t := .finished) rfl (fun x hx => ?_) rfl hpend fun b hb hx =>
    ⟨.finished s.conn.id, ?_⟩
  · exact ⟨rfl, hx.keyCalculated, hx.certSignatured, hx.waitingCrypto, hx.completedCrypto, hx.pkaOp,
      hx.pendingPkaOp⟩
  · have hskip : ¬ ((b.sess s.conn.id).waitingCrypto
        ∨ .finished ≤ (b.sess s.conn.id).handshakeState) := by
      rw [hx.waitingCrypto, hx.handshakeState, hw]
      simpa using hs
    simp only [Cores.act, hb, if_true, Cores.finished, hskip, if_false]

/-! ### Removal -/

/- The requests of the session with the PKA core are its outstanding operations. -/
theorem Sim.outstanding (h : Sim env (s.among others) b)
    (hreach : Reaches Cores.act (Cores.initial n ringCnt) b)
    (hg : ∀ e ∈ s.ctx.trace, e.Settled env) (hout : outstanding s.ctx s.conn.id = []) :
    b.held.filter (·.sess = s.conn.id) = [] := by
  obtain ⟨actions, hrun⟩ := hreach
  obtain ⟨own, hinv⟩ := (run_matched hrun (h.settled hg)).inv
  refine List.filter_eq_nil_iff.mpr fun q hq hc => ?_
  have hc : q.sess = s.conn.id := by simpa using hc
  obtain ⟨-, hsess⟩ := held_sess hinv.custody hq
  have hmem : q.op ∈ s.ctx.submitPkaRing ++ s.ctx.engine := by
    rw [← show b.ring.map Request.op = s.ctx.submitPkaRing from h.ctx.ring,
      ← show b.engine.map Request.op = s.ctx.engine from h.ctx.engine, ← List.map_append]
    refine List.mem_map_of_mem ?_
    simpa [Cores.held, h.pka, PkaCore.hand] using hq
  have hnot : q.op ∉ s.ctx.opPool := fun hp => by
    have hq' := (hinv.custody.held.mem q).mp hq
    rw [← show b.pool = s.ctx.opPool from h.ctx.pool] at hp
    rw [(hinv.custody.pool.mem q.op).mp hp] at hq'
    cases hq'
  have hshared : b.ops q.op = (s.ctx.ops q.op).shared :=
    (h.ctx.ops q.op).resolve_right fun hz => hnot hz.1
  have hop : (s.ctx.ops q.op).sess = some s.conn.id := by
    rw [hshared] at hsess
    exact hsess.trans (congrArg some hc)
  exact List.filter_eq_nil_iff.mp hout q.op hmem (by simpa using hop)

theorem removed_ctx (h : CtxSim s.ctx b) (hp : (b.sess s.conn.id).pendingPkaOp
    = s.conn.sess.pendingPkaOp) (hr : Removed s s') : CtxSim s'.ctx (b.removed s.conn.id) := by
  have hring : (b.removed s.conn.id).ring = b.ring := by unfold Cores.removed; split <;> rfl
  have hcnt : (b.removed s.conn.id).ringCnt = b.ringCnt := by unfold Cores.removed; split <;> rfl
  have heng : (b.removed s.conn.id).engine = b.engine := by unfold Cores.removed; split <;> rfl
  refine ⟨fun o => ?_, ?_, ?_, ?_, ?_⟩
  · rw [hr.ops, hr.pool]
    split
    · rename_i ho
      exact .inr ⟨by simp [ho], rfl⟩
    · rename_i ho
      have hb : (b.removed s.conn.id).ops o = b.ops o := by
        unfold Cores.removed
        split
        · rfl
        · rename_i x hx
          have hne : o ≠ x := fun he => ho (he ▸ hp.symm.trans hx)
          simp [Cores.deleteOp, Cores.setOp, Cores.setSess, Cores.remove, Cores.record, hne]
      rw [hb]
      exact (h.ops o).imp_right fun hz => ⟨List.mem_append_left _ hz.1, hz.2⟩
  · rw [hr.pool, ← hp, ← h.pool]
    unfold Cores.removed
    split <;> rename_i hx
    · simp [hx, Cores.setSess, Cores.remove, Cores.record]
    · simp [hx, Cores.deleteOp, Cores.setOp, Cores.setSess, Cores.remove, Cores.record]
  · rw [hring, h.ring, hr.ring]
  · rw [hcnt, h.ringCnt, hr.ringCnt]
  · rw [heng, h.engine, hr.engine]

theorem removed_sess (b : Cores) (c : ConnId) :
    (b.removed c).sess c = { (b.sess c) with
      handshakeState := .helloRequest, handshakeKeyCalculated := false, certSignatured := false
      waitingCrypto := false, completedCrypto := false, pendingPkaOp := none } := by
  unfold Cores.removed
  split <;> rename_i hx <;>
    simp [Cores.deleteOp, Cores.setOp, Cores.setSess, Cores.remove, Cores.record, hx]

theorem removed_sess_ne (b : Cores) {c i : ConnId} (hi : i ≠ c) : (b.removed c).sess i = b.sess i := by
  unfold Cores.removed
  split <;> simp [Cores.deleteOp, Cores.setOp, Cores.setSess, Cores.remove, Cores.record, hi]

theorem removed_trace (b : Cores) (c : ConnId) :
    (b.removed c).trace = .remove c (b.held.filter (·.sess = c)) :: b.trace := by
  unfold Cores.removed
  split <;> rfl

theorem removed_follows (hr : Removed s s') : Follows env s s' := by
  intro n ringCnt others b hreach h
  have hw : (b.removed s.conn.id).worker = .idle := by unfold Cores.removed; split <;> rfl
  have hp : (b.removed s.conn.id).pka = b.pka := by unfold Cores.removed; split <;> rfl
  refine ⟨hr.id, _, Cores.removed_reaches h.worker, h.on hr.id (removed_ctx h.ctx h.own.pendingPkaOp hr)
    (fun i hi => removed_sess_ne b hi) ?_ hw (hp.trans h.pka) ?_ ?_⟩
  · rw [removed_sess, hr.sess]
    exact ⟨rfl, rfl, rfl, rfl, rfl, h.own.pkaOp, rfl⟩
  · intro o r hd
    rw [hr.ops] at hd
    split at hd
    · cases hd
    · exact h.hello o r hd
  · rw [hr.trace, removed_trace]
    intro hg e he
    have hold : ∀ e ∈ s.ctx.trace, e.Settled env := fun e he =>
      hg e (List.mem_cons_of_mem _ (List.mem_cons_of_mem _ he))
    rcases List.mem_cons.mp he with rfl | he
    · exact h.outstanding hreach hold (hg _ List.mem_cons_self)
    · exact h.settled hold e he

/-! ### Reading records -/

theorem read_follows {rest : Nat} {r : Record} {ret : Int} (hw : s.conn.sess.waitingCrypto = false)
    (h : processReadRecord env rest r s = .ok (ret, s')) : Follows env s s' := by
  have hcall : Follows env s (reading rest r s) :=
    .quiet rfl (fun _ hx => hx) rfl (List.suffix_cons _ _)
  -- what the call on record says once it is known to move the state
  have hpend : ∀ {s1 : St}, Frame (reading rest r s) s1 → Advances env s.conn.sess r →
      (∀ e ∈ s1.ctx.trace, e.Settled env) → s1.conn.sess.pendingPkaOp = none := by
    intro s1 hf hadv hg
    have hp := hf.pendingPkaOp
    rw [hp]
    refine hg (.read s.conn r rest s.ctx.ringRoom) ?_ hadv
    rw [hf.trace]
    exact List.mem_cons_self
  refine hcall.trans ?_
  cases processReadRecord_outcome h hw with
  | dropped hf => exact hf.follows
  | hello hrd hst _ hf _ hsub =>
    exact hf.follows.trans (hello_follows hsub (hf.waitingCrypto.trans hw) (hf.handshakeState.trans hst)
      ⟨hrd.recordType, rfl⟩)
  | @cipherSpec s1 s' r1 hrd hst hf hf' =>
    have hadv : Advances env s.conn.sess r :=
      ⟨r1, hrd.opened, hrd.version, .inl ⟨hrd.recordType, hst⟩⟩
    exact hf.follows.trans ((changeSpec_follows (hf.waitingCrypto.trans hw)
      (by rw [hf.handshakeState]; exact hst) (hpend hf hadv)).trans hf'.follows)
  | alert _ _ hf hr => exact hf.follows.trans (removed_follows (removeSession_removed hr))
  | @finished s1 s' r1 hrd hin hst _ hf hf' =>
    have hadv : Advances env s.conn.sess r :=
      ⟨r1, hrd.opened, hrd.version, .inr ⟨hrd.recordType, hin, hst⟩⟩
    exact hf.follows.trans ((finishHandshake_follows (hf.waitingCrypto.trans hw)
      (by rw [hf.handshakeState]; exact hst) (hpend hf hadv)).trans hf'.follows)
  | @refused s1 s2 s3 s' r1 hrd hin hst _ hf hws hf' hr =>
    have hadv : Advances env s.conn.sess r :=
      ⟨r1, hrd.opened, hrd.version, .inr ⟨hrd.recordType, hin, hst⟩⟩
    have hfinish := hf.follows.trans (finishHandshake_follows (hf.waitingCrypto.trans hw)
      (by rw [hf.handshakeState]; exact hst) (hpend hf hadv))
    have hend : Follows env s2 s' := hf'.follows.trans (removed_follows (removeSession_removed hr))
    rcases removeHws_cases hws with ⟨-, rfl⟩ | ⟨-, hw'⟩
    · exact hfinish.trans hend
    · exact hfinish.trans ((removed_follows hw').trans hend)

theorem queues_follows (cur : Option Record) (q : List Record) (s : St) :
    Follows env s (s.mapSess fun e => { e with currentReadRecord := cur, recvQ := q }) :=
  .quiet rfl (fun _ hx => ⟨hx.1, hx.2, hx.3, hx.4, hx.5, hx.6, hx.7⟩) rfl (List.suffix_refl _)

theorem complete_follows (r : Record) (s : St) : Follows env s (completing r s) :=
  .quiet rfl (fun _ hx => hx) rfl (List.suffix_cons _ _)

theorem round_follows {pkt pkt' : Bytes} (h : newRecordRound env pkt s = .ok (pkt', s')) :
    Follows env s s' := by
  obtain ⟨r, s1, hr, -, h⟩ := newRecordRound_cases h
  have h1 : Follows env s s1 := by
    rcases currentRecord_cases hr with ⟨-, rfl⟩ | ⟨-, -, hf, -⟩
    · exact .refl _
    · exact hf.follows
  have h2 : Follows env s (setCurrent (some (filled r pkt)) s1) :=
    h1.trans (queues_follows _ s1.conn.sess.recvQ s1)
  rcases h with ⟨-, rfl⟩ | ⟨-, s2, hs2, rfl⟩
  · exact h2
  · have hcomplete : Follows env _ _ := complete_follows (filled r pkt) (setCurrent (some (filled r pkt)) s1)
    have h3 : Follows env (completing (filled r pkt) (setCurrent (some (filled r pkt)) s1)) s2 := by
      rcases takeRecord_cases hs2 with ⟨-, rfl⟩ | ⟨hw, ret, hread⟩
      · exact queues_follows _ _ _
      · exact read_follows hw hread
    exact h2.trans (hcomplete.trans (h3.trans (queues_follows none s2.conn.sess.recvQ s2)))

end

end Xtls.Nic
