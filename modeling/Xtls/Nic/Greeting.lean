import Xtls.Nic.Lifetime

/-!
# The ClientHello a session waits with

While the key pair is generated, the operation holds the record with the ClientHello and the session has
taken the session id from it (`unpack_handshake`, `ssl.c` 1902-1935).  Nothing sets the id of a session
whose operation is under way, and removing the session takes the operation with it.
-/

namespace Xtls.Nic

/-- The content of a record that was read on connection `c` since it was last removed. -/
def ReadOn (c : ConnId) (trace : List Event) (b : Bytes) : Prop :=
  ∃ conn r rest room, .read conn r rest room ∈ lifeOf c trace ∧ conn.id = c ∧ b = r.content

/-- The ClientHello an operation holds was received on the connection of the operation, and has named its
session. -/
def Greets (s : Sys) : Prop :=
  ∀ o r c, (s.ctx.ops o).data = some r → (s.ctx.ops o).sess = some c →
    (∃ ch, r.IsHello ch ∧ Named (s.conns c).sess r ch) ∧ ReadOn c s.ctx.trace r.message

/-- An operation with a record is an old one, with the id as it was, or a new one of this connection. -/
structure Retains (s s' : St) : Prop where
  ops : ∀ o r, (s'.ctx.ops o).data = some r →
    (s'.ctx.ops o = s.ctx.ops o ∧ ((s.ctx.ops o).sess = some s.conn.id →
      s'.conn.sess.id_ = s.conn.sess.id_ ∧ Spares s.conn.id s.ctx s'.ctx))
    ∨ ((s'.ctx.ops o).sess = some s.conn.id ∧ (∃ ch, r.IsHello ch ∧ Named s'.conn.sess r ch)
      ∧ ReadOn s.conn.id s'.ctx.trace r.message)
  others : ∀ i, i ≠ s.conn.id → Spares i s.ctx s'.ctx

section

variable {env : Env} {s s' : St} {others : ConnId → Conn} {o : OpId} {fill : Op}

theorem ReadOn.later {ctx ctx' : Ctx} {c : ConnId} {b : Bytes} (h : ReadOn c ctx.trace b)
    (hs : Spares c ctx ctx') : ReadOn c ctx'.trace b := by
  obtain ⟨conn, r, rest, room, hm, hrest⟩ := h
  exact ⟨conn, r, rest, room, hs.lifeOf hm, hrest⟩

theorem Introduced.received {r : Record} {ch : ClientHello} (h : Introduced s r ch)
    (hclear : s.conn.sess.readSp.bulkCipherAlgorithm = .noCipher) : ReadOn s.conn.id s.ctx.trace r.message := by
  obtain ⟨conn, r0, rest, room, old, htrace, hid, hmessage⟩ := h.call
  refine ⟨conn, r0, rest, room, ?_, hid, hmessage hclear⟩
  rw [htrace]
  exact List.mem_cons_self

theorem Named.same {e e' : Session} {r : Record} {ch : ClientHello} (h : Named e r ch) (hid : e'.id_ = e.id_) :
    Named e' r ch := ⟨hid.trans h.sessionId, h.parsed⟩

theorem Greets.retains (h : Greets (s.among others)) (hid : s'.conn.id = s.conn.id) (hh : Retains s s') :
    Greets (s'.among others) := by
  have heq : (s'.among others).conns s.conn.id = s'.conn := hid ▸ s'.among_self
  intro o r c hd hc
  rcases hh.ops o r hd with ⟨hop, hkept⟩ | ⟨hown, hnew⟩
  · have hop : (s'.among others).ctx.ops o = (s.among others).ctx.ops o := hop
    rw [hop] at hd hc
    obtain ⟨⟨ch, hch, hnamed⟩, hreceived⟩ := h o r c hd hc
    by_cases hi : c = s.conn.id
    · subst hi
      obtain ⟨hname, hspares⟩ := hkept hc
      rw [s.among_self] at hnamed
      rw [heq]
      exact ⟨⟨ch, hch, hnamed.same hname⟩, hreceived.later hspares⟩
    · rw [s'.among_ne (hid ▸ hi)]
      rw [s.among_ne hi] at hnamed
      exact ⟨⟨ch, hch, hnamed⟩, hreceived.later (hh.others c hi)⟩
  · have hi : c = s.conn.id := Option.some.inj (hc.symm.trans hown)
    rw [hi, heq]
    exact hnew

theorem Retains.same (hops : s'.ctx.ops = s.ctx.ops) (hid : s'.conn.sess.id_ = s.conn.sess.id_)
    (hspares : ∀ i, Spares i s.ctx s'.ctx) : Retains s s' :=
  ⟨fun o _ _ => .inl ⟨congrFun hops o, fun _ => ⟨hid, hspares _⟩⟩, fun i _ => hspares i⟩

theorem Retains.congr {t : St} (h : Retains s t) (hops : s'.ctx.ops = t.ctx.ops)
    (hid : s'.conn.sess.id_ = t.conn.sess.id_) (hspares : ∀ i, Spares i t.ctx s'.ctx) : Retains s s' := by
  refine ⟨fun o r hd => ?_, fun i hi => (h.others i hi).trans (hspares i)⟩
  rw [hops] at hd ⊢
  rw [hid]
  rcases h.ops o r hd with ⟨hold, hkept⟩ | ⟨hs, ⟨ch, hch, hnamed⟩, hreceived⟩
  · exact .inl ⟨hold, fun hs => ⟨(hkept hs).1, (hkept hs).2.trans (hspares _)⟩⟩
  · exact .inr ⟨hs, ⟨ch, hch, hnamed.same hid⟩, hreceived.later (hspares _)⟩

theorem Retains.quiet (h : ∀ o r, (s'.ctx.ops o).data = some r →
      s'.ctx.ops o = s.ctx.ops o ∧ (s.ctx.ops o).sess ≠ some s.conn.id)
    (hothers : ∀ i, i ≠ s.conn.id → Spares i s.ctx s'.ctx) : Retains s s' :=
  ⟨fun o r hd => .inl ⟨(h o r hd).1, fun hs => absurd hs (h o r hd).2⟩, hothers⟩

theorem SendFrame.retains (hf : SendFrame s s') (hop : OpFacts (s.among others)) : Retains s s' := by
  have hcore : OpCtx s.ctx := hop.core
  refine ⟨fun o r _ => .inl ⟨congrFun (hcore.same hf.ops) o, fun hs => ⟨?_, .of_eq hf.trace⟩⟩,
    fun _ _ => .of_eq hf.trace⟩
  rcases hf.sessionId with hid | ⟨⟨hst, hw⟩, -⟩
  · exact hid
  · rw [hop.own.owner o, hop.own.idle hst hw] at hs
    cases hs

theorem Submits.retains (hsub : Submits fill o s s') (hfill : fill.data = none
    ∨ ∃ r ch, fill.data = some r ∧ r.IsHello ch ∧ Named s.conn.sess r ch
      ∧ ReadOn s.conn.id s.ctx.trace r.message) : Retains s s' := by
  have hid : s'.conn.sess.id_ = s.conn.sess.id_ := by rw [hsub.sess]
  refine ⟨fun i r hd => ?_, fun _ _ => .of_eq hsub.trace⟩
  by_cases hi : i = o
  · rw [hi, hsub.op] at hd
    rcases hfill with hnone | ⟨r', ch, hr, hch, hnamed, hreceived⟩
    · exact absurd (hnone.symm.trans hd) nofun
    · cases hr.symm.trans hd
      refine .inr ⟨?_, ⟨ch, hch, hnamed.same hid⟩, hreceived.later (.of_eq hsub.trace)⟩
      rw [hi, hsub.op]
  · exact .inl ⟨hsub.ops i hi, fun _ => ⟨hid, .of_eq hsub.trace⟩⟩

theorem Removed.retains (hr : Removed s s') (hop : OpFacts (s.among others)) : Retains s s' := by
  refine Retains.quiet (fun o r hd => ?_) fun i hi =>
    (readRule_lasting.removed s s' hr).apart hop hi fun _ => Event.removes_subject
  rw [hr.ops] at hd ⊢
  split at hd
  · cases hd
  · rename_i hp
    rw [if_neg hp]
    exact ⟨rfl, fun hs => hp ((hop.own.owner o).mp hs)⟩

/- The pending operation is released; meanwhile one without a record may have been submitted. -/
theorem finishCrypto_retains {u : St} (hop : OpFacts (s.among others)) (hp : s.conn.sess.pendingPkaOp = some o)
    (hops : ∀ i r, (u.ctx.ops i).data = some r → u.ctx.ops i = s.ctx.ops i)
    (htrace : (finishCrypto o u).ctx.trace = s.ctx.trace) : Retains s (finishCrypto o u) := by
  have hdel : ∀ i, (finishCrypto o u).ctx.ops i = if i = o then {} else u.ctx.ops i := fun _ => rfl
  refine Retains.quiet (fun i r hd => ?_) fun _ _ => .of_eq htrace
  rw [hdel] at hd ⊢
  split at hd
  · cases hd
  · rename_i hi
    rw [if_neg hi]
    refine ⟨hops i r hd, fun hs => hi ?_⟩
    rw [hop.own.owner i, hp] at hs
    exact (Option.some.inj hs).symm

theorem request_ops {t : St} (hcore : OpCtx t.ctx) (hfill : fill.data = none)
    (hreq : (∃ o, Rejects o t s') ∨ ∃ o, Submits fill o t s') (i : OpId) (r : Record)
    (hd : (s'.ctx.ops i).data = some r) : s'.ctx.ops i = t.ctx.ops i := by
  rcases hreq with ⟨o, hrej⟩ | ⟨o, hsub⟩
  · exact congrFun (hcore.same hrej.frame.ops) i
  · by_cases hi : i = o
    · rw [hi, hsub.op] at hd
      exact absurd (hfill.symm.trans hd) nofun
    · exact hsub.ops i hi

theorem getProcessedCrypto_retains (hop : OpFacts (s.among others)) (h : getProcessedCrypto env s = .ok s') :
    Retains s s' := by
  have hpending : ∀ {o}, s.conn.sess.completedCrypto = true → s.conn.sess.pkaOp = some o →
      s.conn.sess.pendingPkaOp = some o := by
    intro o hc ho
    obtain ⟨o', hp, hpend⟩ := hop.own.completed hc
    rw [hpend, ← hp, ho]
  have hout := getProcessedCrypto_outcome hop.core.hello h
  have htrace := hout.trace
  cases hout with
  | idle => exact .same rfl rfl fun _ => .of_eq rfl
  | @keyGen o r ch t u hc ho _ _ _ hf ha =>
    obtain ⟨off, s1, s2, -, hf', hreq, rfl⟩ := answerClientHello_cases ha
    have hcore : OpCtx s.ctx := hop.core
    have hkept : OpsKept s.ctx s1.ctx := OpsKept.trans hf.ops hf'.ops
    have hcore1 : OpCtx s1.ctx := hcore.kept hkept
    refine finishCrypto_retains hop (hpending hc ho) (fun i r' hd => ?_) htrace
    have hnew := request_ops (t := sharedSecretRequest (slice r.pf off x25519KeyLen) s1) hcore1 rfl hreq i r' hd
    exact hnew.trans (congrFun (hcore.same hkept) i)
  | sharedSecret hc ho _ => exact finishCrypto_retains hop (hpending hc ho) (fun _ _ _ => rfl) htrace
  | signature hc ho _ => exact finishCrypto_retains hop (hpending hc ho) (fun _ _ _ => rfl) htrace

theorem RemainOutcome.retains (ho : RemainOutcome env s s') (hop : OpFacts (s.among others)) : Retains s s' := by
  have hcore : OpCtx s.ctx := hop.core
  have hspares : ∀ i, Spares i s.ctx s'.ctx := fun _ => ho.omits fun _ _ => rfl
  cases ho with
  | idle => exact .same rfl rfl hspares
  | @certificate s1 s2 _ hst hk hf hf' hreq =>
    have hkept : OpsKept s.ctx s2.ctx := OpsKept.trans hf.ops hf'.ops
    refine Retains.quiet (fun i r hd => ?_) fun i _ => hspares i
    have hnew := request_ops (t := signatureRequest env s2) (hcore.kept hkept) rfl hreq i r hd
    refine ⟨hnew.trans (congrFun (hcore.same hkept) i), fun hs => ?_⟩
    rw [hop.own.owner i, hop.own.keyed hst hk] at hs
    cases hs
  | @finished s1 s2 port hst _ hf hf' =>
    have hback := hf.trans (hf'.setBack (hf.handshakeState.trans hst) nofun)
    obtain ⟨k, hk, -⟩ := handleAppKeysCalculation_eq env s2
    rw [hk]
    exact (hback.retains hop).congr rfl rfl fun _ => .event rfl rfl
  | pending _ _ hf => exact (hf.retains hop).congr rfl rfl fun _ => .of_eq rfl

theorem readRule_greets : ReadRule (Carries (fun _ => True) fun s => OpFacts s ∧ Greets s) where
  refl := .refl
  trans := .trans
  call rest r s := (readRule_opFacts.call rest r s).and fun _ _ hid _ _ h =>
    h.retains hid (.same rfl rfl fun _ => .event rfl rfl)
  complete r s := (readRule_opFacts.complete r s).and fun _ _ hid _ _ h =>
    h.retains hid (.same rfl rfl fun _ => .event rfl rfl)
  queues s cur q := (readRule_opFacts.queues s cur q).and fun _ _ hid _ _ h =>
    h.retains hid (.same rfl rfl fun _ => .of_eq rfl)
  frame s s' hf := (readRule_opFacts.frame s s' hf).and fun _ _ hid hop _ h =>
    h.retains hid (hf.retains hop)
  hello s s' r ch o hw hst hr hn hsub := (readRule_opFacts.hello s s' r ch o hw hst hr hn hsub).and
    fun _ _ hid hop _ h => h.retains hid (hsub.retains
      (.inr ⟨r, ch, rfl, hr, hn.toNamed, hn.received (hop.own.plain hst)⟩))
  spec s hs := (readRule_opFacts.spec s hs).and fun _ _ hid _ _ h =>
    h.retains hid (.same rfl rfl fun _ => .of_eq rfl)
  finish s hs := (readRule_opFacts.finish s hs).and fun _ _ hid _ _ h =>
    h.retains hid (.same rfl rfl fun _ => .of_eq rfl)
  removed s s' hr := (readRule_opFacts.removed s s' hr).and fun _ _ hid hop _ h => h.retains hid (hr.retains hop)

theorem closed_greets (env : Env) : Closed env (Carries (fun _ => True) fun s => OpFacts s ∧ Greets s) :=
  readRule_greets.closed
    (fun s x => (emit_opFacts s x).and fun _ _ hid _ _ h => h.retains hid (.same rfl rfl fun _ => .of_eq rfl))
    (fun s f _ => (mapTcp_opFacts s f).and fun _ _ hid _ _ h => h.retains hid (.same rfl rfl fun _ => .of_eq rfl))
    (fun s s' hc => ((closed_opFacts env).crypto s s' hc).and fun _ _ hid hop _ h =>
      h.retains hid (getProcessedCrypto_retains hop hc))
    (fun s s' ho => ((closed_opFacts env).remain s s' ho).and fun _ _ hid hop _ h =>
      h.retains hid (ho.retains hop))

end

section

variable {s s' : Sys}

theorem Greets.keep (h : Greets s) (hid : ∀ c, (s'.conns c).sess.id_ = (s.conns c).sess.id_)
    (hops : ∀ o, (s'.ctx.ops o).data = (s.ctx.ops o).data ∧ (s'.ctx.ops o).sess = (s.ctx.ops o).sess)
    (hspares : ∀ c, Spares c s.ctx s'.ctx) : Greets s' := by
  intro o r c hd hc
  rw [(hops o).1] at hd
  rw [(hops o).2] at hc
  obtain ⟨⟨ch, hch, hnamed⟩, hreceived⟩ := h o r c hd hc
  exact ⟨⟨ch, hch, hnamed.same (hid c)⟩, hreceived.later (hspares c)⟩

theorem kept_greets (env : Env) : Kept env (fun _ => True) fun s => OpFacts s ∧ Greets s where
  ids _ h := h.1.ids
  quiet s s' hq h := by
    refine ⟨h.1.quiet hq, h.2.keep (fun c => by rw [hq.1]) (fun o => ?_) hq.spares⟩
    obtain ⟨-, out, outside, hctx⟩ := hq
    rw [hctx]
    exact ⟨rfl, rfl⟩
  inserted c s s' hi h := by
    refine ⟨h.1.inserted hi, h.2.keep (fun c => by rw [(hi.sess c).2]) (fun o => ?_) hi.spares⟩
    rw [hi.ctx]
    exact ⟨rfl, rfl⟩
  closed := closed_greets env
  removed s s' hr := readRule_greets.removed s s' hr
  submits priv s s' hs h := by
    refine ⟨h.1.submitted hs, ?_⟩
    have htrace := handleSubmittedPka_trace hs
    rcases handleSubmittedPka_cases hs with rfl | ⟨o, ring, c, -, -, -, -, hconns, hctx⟩
    · exact h.2
    refine h.2.keep (setConn_sess (R := fun e e' => e'.id_ = e.id_) (fun _ => rfl) hconns fun _ => rfl)
      (fun i => ?_) fun _ => .of_eq htrace
    have hops : s'.ctx.ops i = if i = o then { s.ctx.ops o with pkaFlag := true } else s.ctx.ops i := by
      rw [hctx]
      rfl
    rw [hops]
    split
    · rename_i hi
      rw [hi]
      exact ⟨rfl, rfl⟩
    · exact ⟨rfl, rfl⟩
  completes o results s s' hs h := by
    refine ⟨h.1.completes hs, ?_⟩
    have htrace := handleCompletedPka_trace hs
    rcases handleCompletedPka_cases hs with rfl | ⟨c, -, -, ⟨-, hconns, hctx⟩ | ⟨-, -, hconns, hctx⟩⟩
    · exact h.2
    all_goals
      refine h.2.keep (setConn_sess (R := fun e e' => e'.id_ = e.id_) (fun _ => rfl) hconns fun _ => rfl)
        (fun i => ?_) fun _ => .of_eq htrace
      rw [hctx]
      exact ⟨rfl, rfl⟩

theorem initial_greets (n ringCnt : Nat) : Greets (initial n ringCnt) := fun _ _ _ hd _ => absurd hd nofun

end

end Xtls.Nic
