import Xtls.Nic.OpFacts

/-!
# Lifetimes

`remove_session` (`tcp.c` 1474-1523) clears a session and returns its slot to the free queue, from where the
next SYN takes it.  The rest of a segment may still be read into a cleared session, but it does not start a
handshake before the next serve.
-/

namespace Xtls.Nic

/-- The connection that an event is about. -/
def Event.subject : Event → ConnId
  | .insert i | .remove i _ | .complete i _ | .verifyData i _ _ => i
  | .clear conn | .read conn _ _ _ => conn.id

def Event.removes (c : ConnId) : Event → Bool
  | .remove i _ => i == c
  | _ => false

/-- What is on record since the connection in slot `c` was last removed. -/
def lifeOf (c : ConnId) (trace : List Event) : List Event := trace.takeWhile fun e => !e.removes c

/-- Nothing that `q` picks is put on record between the two. -/
def Omits (q : Event → Bool) (ctx ctx' : Ctx) : Prop :=
  ∃ new, ctx'.trace = new ++ ctx.trace ∧ ∀ e ∈ new, q e = false

/-- The connection in slot `i` is not removed between the two. -/
abbrev Spares (i : ConnId) : Ctx → Ctx → Prop := Omits (Event.removes i)

/- What a session is like after its removal, whatever else is read into it. -/
def Session.Ended (e : Session) : Prop :=
  e.completedCrypto = false
    ∧ (e.handshakeState = .helloRequest ∨ e.handshakeState = .clientCipherSpec ∨ e.handshakeState = .finished)

/-- A move puts on record what is about its own connection; if that is removed, it has ended then. -/
structure Lasting (s s' : St) : Prop where
  carries : Carries (fun _ => True) OpFacts s s'
  ended : ∀ others, OpFacts (s.among others) → s.conn.sess.Ended → s'.conn.sess.Ended
  own : ∀ others, OpFacts (s.among others) → Omits (fun e => e.subject != s.conn.id) s.ctx s'.ctx
  spares : ∀ others, OpFacts (s.among others) → ¬ s'.conn.sess.Ended → Spares s.conn.id s.ctx s'.ctx

section

variable {env : Env} {s s' t : St} {ctx ctx' ctx'' : Ctx} {i : ConnId} {e : Event} {q : Event → Bool} {fill : Op}

theorem Omits.of_eq (h : ctx'.trace = ctx.trace) : Omits q ctx ctx' :=
  ⟨[], h, fun _ he => absurd he List.not_mem_nil⟩

theorem Omits.event (h : ctx'.trace = e :: ctx.trace) (he : q e = false) : Omits q ctx ctx' :=
  ⟨[e], h, fun _ hm => List.mem_singleton.mp hm ▸ he⟩

theorem Omits.trans (h : Omits q ctx ctx') (h' : Omits q ctx' ctx'') : Omits q ctx ctx'' := by
  obtain ⟨new, htrace, hnew⟩ := h
  obtain ⟨new', htrace', hnew'⟩ := h'
  refine ⟨new' ++ new, by rw [htrace', htrace, List.append_assoc], fun e he => ?_⟩
  exact (List.mem_append.mp he).elim (hnew' e) (hnew e)

theorem Omits.mono {q' : Event → Bool} (h : Omits q ctx ctx') (hq : ∀ e, q e = false → q' e = false) :
    Omits q' ctx ctx' := by
  obtain ⟨new, htrace, hnew⟩ := h
  exact ⟨new, htrace, fun e he => hq e (hnew e he)⟩

theorem Omits.grows (h : Omits q ctx ctx') : ctx.trace <:+ ctx'.trace := by
  obtain ⟨new, htrace, -⟩ := h
  exact ⟨new, htrace.symm⟩

theorem Omits.split (h : Omits q ctx ctx'') (h1 : ctx.trace <:+ ctx'.trace) (h2 : ctx'.trace <:+ ctx''.trace) :
    Omits q ctx ctx' ∧ Omits q ctx' ctx'' := by
  obtain ⟨new, htrace, hnew⟩ := h
  obtain ⟨early, hearly⟩ := h1
  obtain ⟨late, hlate⟩ := h2
  have hall : (late ++ early) ++ ctx.trace = new ++ ctx.trace := by
    rw [← htrace, ← hlate, ← hearly, List.append_assoc]
  obtain rfl := List.append_cancel_right hall
  exact ⟨⟨early, hearly.symm, fun e he => hnew e (List.mem_append_right late he)⟩,
    late, hlate.symm, fun e he => hnew e (List.mem_append_left early he)⟩

theorem Omits.lifeOf (h : Spares i ctx ctx') (he : e ∈ lifeOf i ctx.trace) : e ∈ lifeOf i ctx'.trace := by
  obtain ⟨new, htrace, hnew⟩ := h
  rw [htrace, Nic.lifeOf, List.takeWhile_append_of_pos fun a ha => by rw [hnew a ha]; rfl]
  exact List.mem_append_right new he

/-! ### One move -/

theorem request_trace (h : (∃ o, Rejects o s s') ∨ ∃ o, Submits fill o s s') : s'.ctx.trace = s.ctx.trace := by
  rcases h with ⟨o, hrej⟩ | ⟨o, hsub⟩
  · exact hrej.frame.trace
  · exact hsub.trace

theorem CryptoOutcome.trace (h : CryptoOutcome env s s') : s'.ctx.trace = s.ctx.trace := by
  cases h with
  | idle => rfl
  | @keyGen o r ch t u _ _ _ _ _ hf ha =>
    obtain ⟨off, s1, s2, -, hf', hreq, rfl⟩ := answerClientHello_cases ha
    exact (request_trace hreq).trans (hf'.trace.trans hf.trace)
  | sharedSecret => rfl
  | signature => rfl

theorem RemainOutcome.omits (h : RemainOutcome env s s')
    (hq : ∀ transcript vd, q (.verifyData s.conn.id transcript vd) = false) : Omits q s.ctx s'.ctx := by
  cases h with
  | idle => exact .of_eq rfl
  | certificate _ _ hf hf' hreq => exact .of_eq ((request_trace hreq).trans (hf'.trace.trans hf.trace))
  | @finished s1 s2 port _ _ hf hf' =>
    have hsent : Omits q s.ctx s2.ctx := .of_eq (hf'.trace.trans hf.trace)
    have hid : s2.conn.id = s.conn.id := hf'.id.trans hf.id
    have hkeys : Omits q s2.ctx (handleVerifyDataCalculation env (handleAppKeysCalculation env s2)).ctx := by
      refine .event rfl ?_
      show q (.verifyData s2.conn.id _ _) = false
      rw [hid]
      exact hq _ _
    exact hsent.trans (hkeys.trans (.of_eq (sendKeyMeta_frame env port _).trace))
  | pending _ _ hf => exact .of_eq hf.trace

theorem Removed.not_spares (hr : Removed s s') : ¬ Spares s.conn.id s.ctx s'.ctx := by
  rintro ⟨new, htrace, hnew⟩
  have hall : [.remove s.conn.id (outstanding s.ctx s.conn.id), .clear s.conn] ++ s.ctx.trace = new ++ s.ctx.trace :=
    hr.trace.symm.trans htrace
  obtain rfl := List.append_cancel_right hall
  have hnot := hnew _ List.mem_cons_self
  simp [Event.removes] at hnot

theorem Session.Ended.same {e e' : Session} (h : e.Ended) (hc : e'.completedCrypto = e.completedCrypto)
    (hst : e'.handshakeState = e.handshakeState) : e'.Ended := by
  rw [Session.Ended, hc, hst]
  exact h

theorem Lasting.still (hc : Carries (fun _ => True) OpFacts s s') (hend : s.conn.sess.Ended → s'.conn.sess.Ended)
    (hown : Omits (fun e => e.subject != s.conn.id) s.ctx s'.ctx) (hspares : Spares s.conn.id s.ctx s'.ctx) :
    Lasting s s' :=
  ⟨hc, fun _ _ => hend, fun _ _ => hown, fun _ _ _ => hspares⟩

theorem Lasting.silent (hc : Carries (fun _ => True) OpFacts s s') (hend : s.conn.sess.Ended → s'.conn.sess.Ended)
    (htrace : s'.ctx.trace = s.ctx.trace) : Lasting s s' :=
  .still hc hend (.of_eq htrace) (.of_eq htrace)

theorem Lasting.trans (h : Lasting s t) (h' : Lasting t s') : Lasting s s' := by
  refine ⟨h.carries.trans h'.carries, fun others hs hend => ?_, fun others hs => ?_, fun others hs hlive => ?_⟩
  all_goals obtain ⟨hid, ht⟩ := h.carries.carries (fun _ _ => trivial) others hs
  · exact h'.ended others ht (h.ended others hs hend)
  · have hlater := h'.own others ht
    rw [hid] at hlater
    exact (h.own others hs).trans hlater
  · have hlater := h'.spares others ht hlive
    rw [hid] at hlater
    exact (h.spares others hs (mt (h'.ended others ht) hlive)).trans hlater

theorem Lasting.apart {others : ConnId → Conn} (h : Lasting s s') (hs : OpFacts (s.among others))
    (hi : i ≠ s.conn.id) (hq : ∀ e, q e = true → e.subject = i) : Omits q s.ctx s'.ctx := by
  refine (h.own others hs).mono fun e he => ?_
  cases hqe : q e with
  | false => rfl
  | true =>
    rw [hq e hqe] at he
    exact absurd he (by simpa using hi)

theorem Event.removes_subject (h : e.removes i = true) : e.subject = i := by
  cases e with
  | remove j _ => exact eq_of_beq h
  | _ => cases h

theorem readRule_lasting : ReadRule Lasting where
  refl s := .silent (readRule_opFacts.refl s) id rfl
  trans := .trans
  frame s s' hf := .silent (readRule_opFacts.frame s s' hf)
    (·.same hf.completedCrypto hf.handshakeState)
    hf.trace
  hello s s' r ch o hw hst hr hn hsub := .silent (readRule_opFacts.hello s s' r ch o hw hst hr hn hsub)
    (·.same (by rw [hsub.sess]) (by rw [hsub.sess])) hsub.trace
  spec s hst := .silent (readRule_opFacts.spec s hst) (fun hend => ⟨hend.1, .inr (.inl rfl)⟩) rfl
  finish s hst := .silent (readRule_opFacts.finish s hst) (fun hend => ⟨hend.1, .inr (.inr rfl)⟩) rfl
  removed s s' hr := by
    have hend : s'.conn.sess.Ended := by
      rw [hr.sess]
      exact ⟨rfl, .inl rfl⟩
    refine ⟨readRule_opFacts.removed s s' hr, fun _ _ _ => hend, fun _ _ => ?_, fun _ _ hlive => absurd hend hlive⟩
    refine ⟨[_, _], hr.trace, fun e he => ?_⟩
    rcases List.mem_pair.mp he with rfl | rfl
    · exact bne_self_eq_false _
    · exact bne_self_eq_false _
  call rest r s := .still (readRule_opFacts.call rest r s) id (.event rfl (bne_self_eq_false _)) (.event rfl rfl)
  complete r s := .still (readRule_opFacts.complete r s) id (.event rfl (bne_self_eq_false _)) (.event rfl rfl)
  queues s cur q := .silent (readRule_opFacts.queues s cur q) id rfl

theorem getProcessedCrypto_lasting (h : getProcessedCrypto env s = .ok s') : Lasting s s' := by
  have hcarries := (closed_opFacts env).crypto s s' h
  have htrace : ∀ others, OpFacts (s.among others) → s'.ctx.trace = s.ctx.trace :=
    fun _ hs => (getProcessedCrypto_outcome hs.core.hello h).trace
  refine ⟨hcarries, fun others hs hend => ?_, fun others hs => .of_eq (htrace others hs),
    fun others hs _ => .of_eq (htrace others hs)⟩
  cases getProcessedCrypto_outcome hs.core.hello h with
  | idle => exact hend
  | keyGen hc => exact absurd (hend.1.symm.trans hc) (by decide)
  | sharedSecret hc => exact absurd (hend.1.symm.trans hc) (by decide)
  | signature hc => exact absurd (hend.1.symm.trans hc) (by decide)

theorem RemainOutcome.lasting (h : RemainOutcome env s s') : Lasting s s' := by
  refine .still ((closed_opFacts env).remain s s' h) (fun hend => ?_)
    (h.omits fun _ _ => bne_self_eq_false _) (h.omits fun _ _ => rfl)
  have hnot : ∀ {x : HandshakeType}, s.conn.sess.handshakeState = x →
      x = .helloRequest ∨ x = .clientCipherSpec ∨ x = .finished := fun hx => hx ▸ hend.2
  cases h with
  | idle => exact hend
  | certificate hst => exact absurd (hnot hst) (by decide)
  | finished hst => exact absurd (hnot hst) (by decide)
  | pending hst => exact absurd (hnot hst) (by decide)

theorem closed_lasting (env : Env) : Closed env Lasting :=
  readRule_lasting.closed (fun s x => .silent (emit_opFacts s x) id rfl)
    (fun s f _ => .silent (mapTcp_opFacts s f) id rfl) (fun _ _ h => getProcessedCrypto_lasting h)
    fun _ _ h => h.lasting

end

/-! ### One step -/

section

variable {env : Env} {x : Input} {s s' : Sys} {c d : ConnId}

theorem Lasting.put {t : St} (hs : OpFacts s) (h : Lasting ⟨s.conns d, s.ctx⟩ t)
    (hc : ¬ ((s.put d t).conns c).sess.Ended) : Spares c s.ctx t.ctx := by
  have hself : OpFacts ((⟨s.conns d, s.ctx⟩ : St).among s.conns) := by
    rw [s.among_put (hs.ids d)]
    exact hs
  by_cases hcd : c = d
  · subst hcd
    rw [s.put_self] at hc
    have hspares := h.spares s.conns hself hc
    rw [hs.ids c] at hspares
    exact hspares
  · exact h.apart hself (by rw [hs.ids d]; exact hcd) fun _ => Event.removes_subject

theorem Inserted.spares (h : Inserted d s s') (c : ConnId) : Spares c s.ctx s'.ctx :=
  .event h.trace rfl

theorem SysQuiet.spares (h : SysQuiet s s') (c : ConnId) : Spares c s.ctx s'.ctx := by
  obtain ⟨-, out, outside, hctx⟩ := h
  exact .of_eq (by rw [hctx])

/-- A connection that has not ended at the end of a step was not removed in it. -/
theorem step_spares (hs : OpFacts s) (h : step env x s = .ok s') (hc : ¬ (s'.conns c).sess.Ended) :
    Spares c s.ctx s'.ctx := by
  cases step_outcome h with
  | quiet hq => exact hq.spares c
  | acts _ _ ha => exact ((closed_lasting env).acts ha).put hs hc
  | serves _ _ ht => exact ((closed_lasting env).serve ht).put hs hc
  | inserts hi hq => exact (hi.spares c).trans (hq.spares c)
  | replaces _ hr hq hi =>
    rw [(hi.sess c).2, hq.1] at hc
    have hremove := (readRule_lasting.removed _ _ (removeSession_removed hr)).put hs hc
    exact Omits.trans hremove ((hq.spares c).trans (hi.spares c))
  | submits hsub => exact .of_eq (handleSubmittedPka_trace hsub)
  | completes hcomp => exact .of_eq (handleCompletedPka_trace hcomp)

end

end Xtls.Nic
