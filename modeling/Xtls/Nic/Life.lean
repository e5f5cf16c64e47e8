import Xtls.Nic.OpFacts

/-!
# The life of a connection

While a packet or a round of the main loop is worked on, the connection stays in the hash table (`Lives`), up
to the point where `remove_session` takes it out (`Removes`) (`ssl.c` 733-858, 2087-2237, `tcp.c` 2618-2760,
3703-3841).
-/

namespace Xtls.Nic

/-- A record that ends its session is the last one of its packet. -/
def Event.EndsLast (env : Env) : Event → Prop
  | .read conn r rest _ =>
    closes env conn.sess r = true ∨ refuses env conn.sess r = true → rest < recordHeaderSize
  | _ => True

instance (env : Env) : DecidablePred (Event.EndsLast env)
  | .read conn r rest _ =>
    inferInstanceAs (Decidable
      (closes env conn.sess r = true ∨ refuses env conn.sess r = true → rest < recordHeaderSize))
  | .insert _ | .remove .. | .clear _ | .complete .. | .verifyData .. => .isTrue trivial

/- What an event says about connection `c`: it goes into use or out of it, or its session is cleared. -/
def Event.usage (c : ConnId) : Event → Option Bool
  | .insert d => if d = c then some true else none
  | .remove d _ => if d = c then some false else none
  | _ => none

def Event.cleared (c : ConnId) : Event → Option Conn
  | .clear conn => if conn.id = c then some conn else none
  | _ => none

/- A session that is onloaded awaits no result, and one with flow rules has nothing left to read. -/
structure Steady (c : Conn) : Prop where
  active : c.sess.state = .active → c.tcp.onload = true ∧ c.sess.waitingCrypto = false
    ∧ (c.sess.handshakeState = .clientCipherSpec ∨ c.sess.handshakeState = .finished)
  applied : c.tcp.hwsApplied = true → c.tcp.onload = true ∧ c.sess.recvQ = []

def Event.Inner (e : Event) : Prop := ∀ c, e.usage c = none ∧ e.cleared c = none

theorem inner_nil : ∀ e ∈ ([] : List Event), e.Inner := fun _ h => absurd h List.not_mem_nil

theorem inner_singleton {e : Event} (h : e.Inner) : ∀ x ∈ [e], x.Inner := fun _ hx =>
  List.mem_singleton.mp hx ▸ h

def Ctx.registry (c : Ctx) : (Nat → List ConnId) × Int × Int × List ConnId × Int :=
  (c.htTable, c.htCount, c.activeCnt, c.freeSessionQ, c.freeCnt)

/-- The connection stays in the table. -/
structure Lives (s s' : St) : Prop where
  id : s'.conn.id = s.conn.id
  hash : calculateHash s'.conn.tcp = calculateHash s.conn.tcp
  live : s.conn.tcp.state ≠ .idle → s'.conn.tcp.state ≠ .idle
  registry : s'.ctx.registry = s.ctx.registry
  trace : ∃ l, s'.ctx.trace = l ++ s.ctx.trace ∧ ∀ e ∈ l, e.Inner
  steady : Steady s.conn → Steady s'.conn

structure Reads (s s' : St) : Prop extends Lives s s' where
  hws : s'.conn.tcp.hwsApplied = s.conn.tcp.hwsApplied

/-- It is taken out at the end. -/
def Removes (s s' : St) : Prop := ∃ t, Lives s t ∧ Removed t s'

section

variable {env : Env} {s s' t : St} {o : OpId} {fill : Op} {r : Record}

theorem Lives.refl (s : St) : Lives s s :=
  ⟨rfl, rfl, fun h => h, rfl, ⟨[], rfl, inner_nil⟩, fun h => h⟩

theorem Lives.trans (h1 : Lives s t) (h2 : Lives t s') : Lives s s' where
  id := h2.id.trans h1.id
  hash := h2.hash.trans h1.hash
  live h := h2.live (h1.live h)
  registry := h2.registry.trans h1.registry
  trace := by
    obtain ⟨l1, ht1, hl1⟩ := h1.trace
    obtain ⟨l2, ht2, hl2⟩ := h2.trace
    refine ⟨l2 ++ l1, by rw [ht2, ht1, List.append_assoc], fun e he => ?_⟩
    exact (List.mem_append.mp he).elim (hl2 e) (hl1 e)
  steady h := h2.steady (h1.steady h)

theorem Lives.grows (h : Lives s s') : s.ctx.trace <:+ s'.ctx.trace := by
  obtain ⟨l, hl, -⟩ := h.trace
  exact ⟨l, hl.symm⟩

theorem Reads.refl (s : St) : Reads s s := ⟨.refl s, rfl⟩

theorem Reads.trans (h1 : Reads s t) (h2 : Reads t s') : Reads s s' :=
  ⟨h1.toLives.trans h2.toLives, h2.hws.trans h1.hws⟩

theorem Lives.removes (h : Lives s t) (hr : Removes t s') : Removes s s' := by
  obtain ⟨u, hu, hr⟩ := hr
  exact ⟨u, h.trans hu, hr⟩

/-! ### Elementary moves -/

theorem Reads.same (hid : s'.conn.id = s.conn.id) (htcp : s'.conn.tcp = s.conn.tcp)
    (hreg : s'.ctx.registry = s.ctx.registry)
    (htrace : ∃ l, s'.ctx.trace = l ++ s.ctx.trace ∧ ∀ e ∈ l, e.Inner)
    (hsteady : Steady s.conn → Steady s'.conn) : Reads s s' :=
  ⟨⟨hid, by rw [htcp], by rw [htcp]; exact fun h => h, hreg, htrace, hsteady⟩, by rw [htcp]⟩

theorem SendFrame.reads (hf : SendFrame s s') : Reads s s' where
  id := hf.id
  hash := (congrArg calculateHash hf.tcp :)
  live h := by
    rcases hf.tcpState with hst | hst <;> rw [hst]
    · exact h
    · exact nofun
  registry := (congrArg Ctx.registry hf.ctx :)
  trace := ⟨[], hf.trace, inner_nil⟩
  steady h := by
    have h1 : s'.conn.sess.state = _ := hf.state
    have h2 : s'.conn.sess.waitingCrypto = _ := hf.waitingCrypto
    have h3 : s'.conn.sess.handshakeState = _ := hf.handshakeState
    have h4 : s'.conn.sess.recvQ = _ := hf.recvQ
    have h5 : s'.conn.tcp.onload = _ := (congrArg Tcp.onload hf.tcp :)
    have h6 : s'.conn.tcp.hwsApplied = _ := (congrArg Tcp.hwsApplied hf.tcp :)
    constructor
    · rw [h1, h2, h3, h5]
      exact h.active
    · rw [h4, h5, h6]
      exact h.applied
  hws := (congrArg Tcp.hwsApplied hf.tcp :)

theorem Submits.reads (hsub : Submits fill o s s')
    (hst : Steady s.conn → s.conn.sess.state ≠ .active) : Reads s s' := by
  have hreg : s'.ctx.registry = s.ctx.registry := (congrArg Ctx.registry hsub.ctx :)
  have htrace := hsub.trace
  refine .same hsub.id hsub.tcp hreg ⟨[], htrace, inner_nil⟩ fun h => ⟨fun ha => ?_, fun ha => ?_⟩
  · rw [hsub.sess] at ha
    exact absurd ha (hst h)
  · rw [hsub.tcp, hsub.sess]
    exact h.applied (hsub.tcp ▸ ha)

theorem changeSpec_reads (s : St) : Reads s (changeSpec s) := by
  refine .same rfl rfl rfl ⟨[], rfl, inner_nil⟩ fun h => ⟨fun ha => ?_, h.applied⟩
  obtain ⟨h1, h2, -⟩ := h.active ha
  exact ⟨h1, h2, .inl rfl⟩

theorem finishHandshake_reads (s : St) (hw : s.conn.sess.waitingCrypto = false) :
    Reads s (finishHandshake s) where
  id := rfl
  hash := rfl
  live h := h
  registry := rfl
  trace := ⟨[], rfl, inner_nil⟩
  steady h := ⟨fun _ => ⟨rfl, hw, .inr rfl⟩, fun ha => ⟨rfl, (h.applied ha).2⟩⟩
  hws := rfl

theorem reading_reads (rest : Nat) (r : Record) (s : St) : Reads s (reading rest r s) :=
  .same rfl rfl rfl ⟨[.read s.conn r rest s.ctx.ringRoom], rfl, inner_singleton fun _ => ⟨rfl, rfl⟩⟩
    fun h => ⟨h.active, h.applied⟩

theorem completing_reads (r : Record) (s : St) : Reads s (completing r s) :=
  .same rfl rfl rfl ⟨[.complete s.conn.id r], rfl, inner_singleton fun _ => ⟨rfl, rfl⟩⟩ fun h => ⟨h.active, h.applied⟩

/- Records are queued before the flow rules are there. -/
theorem queues_reads (s : St) (cur : Option Record) (q : List Record)
    (hws : s.conn.tcp.hwsApplied = false) :
    Reads s (s.mapSess fun e => { e with currentReadRecord := cur, recvQ := q }) :=
  .same rfl rfl rfl ⟨[], rfl, inner_nil⟩ fun h =>
    ⟨h.active, fun ha => absurd (hws.symm.trans ha) nofun⟩

/-! ### Reading records -/

theorem Steady.not_active {c : Conn} {k : HandshakeType} (h : Steady c)
    (hk : c.sess.handshakeState = k) (h1 : k ≠ .clientCipherSpec) (h2 : k ≠ .finished) :
    c.sess.state ≠ .active := fun ha =>
  (h.active ha).2.2.elim (hk ▸ h1) (hk ▸ h2)

theorem ReadOutcome.lives (ho : ReadOutcome env r s s') (hw : s.conn.sess.waitingCrypto = false)
    (hws : s.conn.tcp.hwsApplied = false) :
    Reads s s' ∨ Removes s s' ∧ (closes env s.conn.sess r = true ∨ refuses env s.conn.sess r = true) := by
  cases ho with
  | dropped hf => exact .inl hf.reads
  | hello _ hst _ hf _ hsub =>
    have hst1 := hf.handshakeState.trans hst
    have hsub' := hsub.reads fun h => h.not_active hst1 nofun nofun
    exact .inl (hf.reads.trans hsub')
  | cipherSpec _ _ hf hf' => exact .inl (hf.reads.trans ((changeSpec_reads _).trans hf'.reads))
  | alert hrd hfatal hf hr =>
    refine .inr ⟨⟨_, hf.reads.toLives, removeSession_removed hr⟩, .inl ?_⟩
    simp [closes, hrd.opened, hrd.version, hrd.recordType, hfatal]
  | finished _ _ _ _ hf hf' =>
    have hw1 := hf.waitingCrypto.trans hw
    exact .inl (hf.reads.trans ((finishHandshake_reads _ hw1).trans hf'.reads))
  | @refused s1 _ _ _ _ hrd hin hst hvd hf hrem hf' hr =>
    have hw1 := hf.waitingCrypto.trans hw
    have hws1 : s1.conn.tcp.hwsApplied = false := hf.reads.hws.trans hws
    -- the flow rules are not there yet, so that the session is removed once
    rcases removeHws_cases hrem with ⟨-, rfl⟩ | ⟨hdel, -⟩
    · refine .inr ⟨⟨_, ?_, removeSession_removed hr⟩, .inr ?_⟩
      · exact (hf.reads.trans ((finishHandshake_reads _ hw1).trans hf'.reads)).toLives
      · simp [refuses, hrd.opened, hrd.version, hrd.recordType, hin, hst, hvd]
    · exact absurd (hws1.symm.trans hdel.1) nofun

theorem processReadRecord_lives {rest : Nat} {ret : Int}
    (h : processReadRecord env rest r s = .ok (ret, s')) (hw : s.conn.sess.waitingCrypto = false)
    (hws : s.conn.tcp.hwsApplied = false) (hends : ∀ e ∈ s'.ctx.trace, e.EndsLast env) :
    Reads s s' ∨ Removes s s' ∧ rest < recordHeaderSize := by
  have hcall := reading_reads rest r s
  rcases (processReadRecord_outcome h hw).lives hw hws with hl | ⟨hr, hend⟩
  · exact .inl (hcall.trans hl)
  · have hmem := (processReadRecord_grows h hw).subset List.mem_cons_self
    exact .inr ⟨hcall.toLives.removes hr, hends _ hmem hend⟩

structure Gone (c : Conn) : Prop where
  completedCrypto : c.sess.completedCrypto = false
  state : c.sess.state = .init
  handshakeState : c.sess.handshakeState = .helloRequest
  currentReadRecord : c.sess.currentReadRecord = none
  recvQ : c.sess.recvQ = []
  hwsApplied : c.tcp.hwsApplied = false

theorem Removed.gone (h : Removed s s') : Gone s'.conn := by
  constructor <;> first | rw [h.sess]; rfl | rw [h.tcp]; rfl

theorem Removes.gone (h : Removes s s') : Gone s'.conn := by
  obtain ⟨t, -, hr⟩ := h
  exact hr.gone

theorem setCurrent_self {cur : Option Record} (h : s.conn.sess.currentReadRecord = cur) :
    setCurrent cur s = s := by
  subst h
  rfl

theorem newRecordRound_lives {pkt pkt' : Bytes} (h : newRecordRound env pkt s = .ok (pkt', s'))
    (hws : s.conn.tcp.hwsApplied = false) (hends : ∀ e ∈ s'.ctx.trace, e.EndsLast env) :
    Reads s s' ∨ Removes s s' ∧ pkt'.length < recordHeaderSize := by
  obtain ⟨r, s1, hcur, hpkt, hcases⟩ := newRecordRound_cases h
  have h1 : Reads s s1 := by
    rcases currentRecord_cases hcur with ⟨-, rfl⟩ | ⟨-, -, hf, -⟩
    · exact .refl _
    · exact hf.reads
  have hws1 := h1.hws.trans hws
  have h2 : Reads s (setCurrent (some (filled r pkt)) s1) :=
    h1.trans (queues_reads s1 _ s1.conn.sess.recvQ hws1)
  rcases hcases with ⟨-, rfl⟩ | ⟨-, s2, hs2, rfl⟩
  · exact .inl h2
  · have h3 := h2.trans (completing_reads (filled r pkt) _)
    have hws3 := h3.hws.trans hws
    rcases takeRecord_cases hs2 with ⟨-, rfl⟩ | ⟨hw, ret, hread⟩
    · have hq := h3.trans (queues_reads _ (some (filled r pkt))
        (s1.conn.sess.recvQ ++ [filled r pkt]) hws3)
      exact .inl (hq.trans (queues_reads _ none (s1.conn.sess.recvQ ++ [filled r pkt])
        (hq.hws.trans hws)))
    · rcases processReadRecord_lives hread hw hws3 hends with hl | ⟨hr, hrest⟩
      · have hl := h3.trans hl
        exact .inl (hl.trans (queues_reads s2 none s2.conn.sess.recvQ (hl.hws.trans hws)))
      · rw [setCurrent_self hr.gone.currentReadRecord]
        refine .inr ⟨h3.toLives.removes hr, ?_⟩
        rw [hpkt, List.length_drop]
        exact hrest

theorem processNewRecordLoop_grows {fuel : Nat} {pkt : Bytes}
    (h : processNewRecordLoop env fuel pkt s = .ok s') : s.ctx.trace <:+ s'.ctx.trace :=
  processNewRecordLoop_rule (R := fun s s' => s.ctx.trace <:+ s'.ctx.trace)
    (fun s => List.suffix_refl s.ctx.trace) (fun h1 h2 => h1.trans h2)
    (fun _ _ _ _ _ hr => newRecordRound_grows hr) h

theorem processNewRecordLoop_stop {fuel : Nat} {pkt : Bytes}
    (h : processNewRecordLoop env fuel pkt s = .ok s') (hcur : s.conn.sess.currentReadRecord = none)
    (hlen : pkt.length < recordHeaderSize) : s' = s := by
  cases fuel with
  | zero => cases h
  | succ fuel =>
    have hstop : s.conn.sess.currentReadRecord.isNone ∧ pkt.length < recordHeaderSize :=
      ⟨by rw [hcur]; rfl, hlen⟩
    unfold processNewRecordLoop at h
    rw [if_pos hstop, ite_self] at h
    exact (Except.ok.inj h).symm

theorem processNewRecordLoop_lives {fuel : Nat} {pkt : Bytes}
    (h : processNewRecordLoop env fuel pkt s = .ok s') (hws : s.conn.tcp.hwsApplied = false)
    (hends : ∀ e ∈ s'.ctx.trace, e.EndsLast env) : Reads s s' ∨ Removes s s' := by
  induction fuel generalizing s pkt with
  | zero => cases h
  | succ fuel ih =>
    unfold processNewRecordLoop at h
    split at h
    · cases h
      exact .inl (.refl _)
    · split at h
      · cases h
        exact .inl (.refl _)
      · obtain ⟨⟨pkt', t⟩, ht, h⟩ := bind_ok h
        have hgrows := processNewRecordLoop_grows h
        rcases newRecordRound_lives ht hws fun e he => hends e (hgrows.subset he) with hl | ⟨hr, hlen⟩
        · exact (ih h (hl.hws.trans hws)).imp hl.trans hl.toLives.removes
        · rw [processNewRecordLoop_stop h hr.gone.currentReadRecord hlen]
          exact .inr hr

/- Reading takes nothing from the queue, and removal empties it. -/
def QueueKept (s s' : St) : Prop :=
  s'.conn.sess.recvQ = s.conn.sess.recvQ ∨ s'.conn.sess.recvQ = []

theorem outcomeRule_queueKept : OutcomeRule QueueKept where
  refl _ := .inl rfl
  trans h1 h2 := by
    rcases h2 with h | h
    · rw [QueueKept, h]
      exact h1
    · exact .inr h
  frame _ _ hf := .inl hf.recvQ
  hello _ _ _ _ _ _ _ _ _ hsub := .inl (congrArg Session.recvQ hsub.sess :)
  spec _ _ := .inl rfl
  finish _ _ := .inl rfl
  removed _ _ hr := .inr (congrArg Session.recvQ hr.sess :)

theorem processSessionReadLoop_stop {fuel : Nat} (h : processSessionReadLoop env fuel s = .ok s')
    (hq : s.conn.sess.recvQ = []) : s' = s := by
  cases fuel with
  | zero => exact (Except.ok.inj h).symm
  | succ fuel =>
    unfold processSessionReadLoop at h
    rw [hq] at h
    split at h <;> exact (Except.ok.inj h).symm

theorem processSessionReadLoop_grows {fuel : Nat} (h : processSessionReadLoop env fuel s = .ok s') :
    s.ctx.trace <:+ s'.ctx.trace := by
  refine processSessionReadLoop_rule (R := fun s s' => s.ctx.trace <:+ s'.ctx.trace)
    (fun s => List.suffix_refl s.ctx.trace) (fun h1 h2 => h1.trans h2) (fun s _ _ _ _ hw _ hr => ?_) h
  have hgrows := processReadRecord_grows hr hw
  exact (List.suffix_cons _ s.ctx.trace).trans hgrows

def Read (c : Conn) : Prop := c.sess.waitingCrypto = true ∨ c.sess.recvQ = []

theorem processSessionReadLoop_lives {fuel : Nat} (h : processSessionReadLoop env fuel s = .ok s')
    (hfuel : s.conn.sess.recvQ.length ≤ fuel) (hws : s.conn.tcp.hwsApplied = false)
    (hends : ∀ e ∈ s'.ctx.trace, e.EndsLast env) : Read s'.conn ∧ (Reads s s' ∨ Removes s s') := by
  induction fuel generalizing s with
  | zero =>
    cases h
    exact ⟨.inr (List.length_eq_zero_iff.mp (Nat.le_zero.mp hfuel)), .inl (.refl _)⟩
  | succ fuel ih =>
    unfold processSessionReadLoop at h
    split at h
    · rename_i hw
      cases h
      exact ⟨.inl hw, .inl (.refl _)⟩
    · rename_i hw
      have hw : s.conn.sess.waitingCrypto = false := by simpa using hw
      split at h
      · rename_i hq
        cases h
        exact ⟨.inr hq, .inl (.refl _)⟩
      · rename_i r q hq
        obtain ⟨⟨ret, t⟩, ht, h⟩ := bind_ok h
        have hpop := queues_reads s s.conn.sess.currentReadRecord q hws
        have hgrows := processSessionReadLoop_grows h
        have hrest : t.conn.sess.recvQ.length ≤ fuel := by
          have hlen : q.length ≤ fuel := by
            rw [hq, List.length_cons] at hfuel
            omega
          have hkept : QueueKept (reading 0 r (s.mapSess fun e => { e with recvQ := q })) t :=
            outcomeRule_queueKept.outcome hw (processReadRecord_outcome ht hw)
          rcases hkept with hsame | hnil
          · rw [hsame]
            exact hlen
          · rw [hnil]
            exact Nat.zero_le _
        rcases processReadRecord_lives ht hw hws fun e he => hends e (hgrows.subset he) with hl | ⟨hr, -⟩
        · have hl := hpop.trans hl
          obtain ⟨hread, hlives⟩ := ih h hrest (hl.hws.trans hws)
          exact ⟨hread, hlives.imp hl.trans hl.toLives.removes⟩
        · rw [processSessionReadLoop_stop h hr.gone.recvQ]
          exact ⟨.inr hr.gone.recvQ, .inr (hpop.toLives.removes hr)⟩

/-! ### Results and the server flight -/

theorem mapSess_reads {f : Session → Session} (hq : (f s.conn.sess).recvQ = s.conn.sess.recvQ)
    (hst : Steady s.conn → (f s.conn.sess).state ≠ .active) : Reads s (s.mapSess f) := by
  refine .same rfl rfl rfl ⟨[], rfl, inner_nil⟩ fun h => ⟨fun ha => absurd ha (hst h), fun ha => ?_⟩
  obtain ⟨hon, hnil⟩ := h.applied ha
  exact ⟨hon, hq.trans hnil⟩

theorem finishCrypto_reads (o : OpId) (s : St) (hst : s.conn.sess.state ≠ .active) :
    Reads s (finishCrypto o s) :=
  (mapSess_reads rfl fun _ => hst).trans
    (.same rfl rfl rfl ⟨[], rfl, inner_nil⟩ fun h => ⟨h.active, h.applied⟩)

theorem answerClientHello_reads {ch : ClientHello} (h : answerClientHello env r ch s = .ok s') :
    Reads s s' ∧ s'.conn.sess.state = .handshake := by
  obtain ⟨off, s1, s2, -, hf, hreq, rfl⟩ := answerClientHello_cases h
  have hst1 : s1.conn.sess.state = .handshake := hf.state
  have hne1 : s1.conn.sess.state ≠ .active := by rw [hst1]; exact nofun
  have hselect : Reads s (setPendingSp r ch (slice r.pf off x25519KeyLen) s) := by
    unfold setPendingSp
    exact mapSess_reads rfl fun _ => (nofun : SessionState.handshake ≠ .active)
  have hprepare : Reads s1 (sharedSecretRequest (slice r.pf off x25519KeyLen) s1) :=
    (mapSess_reads rfl fun _ => hne1).trans (mapSess_reads rfl fun _ => hne1)
  have hreq' : Reads (sharedSecretRequest (slice r.pf off x25519KeyLen) s1) s2
      ∧ s2.conn.sess.state = .handshake := by
    rcases hreq with ⟨o, hrej⟩ | ⟨o, hsub⟩
    · exact ⟨hrej.frame.reads, hrej.frame.state.trans hst1⟩
    · exact ⟨hsub.reads fun _ => hne1, (congrArg Session.state hsub.sess :).trans hst1⟩
  have htail : Reads s2 (s2.mapSess fun e => { e with writeSp := e.pendingSp, sendSeqNum := 0 }) :=
    mapSess_reads rfl fun _ ha => absurd (hreq'.2.symm.trans ha) nofun
  exact ⟨hselect.trans <| hf.reads.trans <| hprepare.trans <| hreq'.1.trans htail, hreq'.2⟩

/- Where a result is handled, the session is not onloaded. -/
theorem getProcessedCrypto_lives (h : getProcessedCrypto env s = .ok s')
    (hdata : ∀ o r, (s.ctx.ops o).data = some r → ∃ ch, r.IsHello ch) (hs : Steady s.conn) :
    s' = s ∨ Reads s s' ∧ s'.conn.sess.state ≠ .active := by
  cases getProcessedCrypto_outcome hdata h with
  | idle => exact .inl rfl
  | @keyGen o r ch t u _ _ hst _ _ hf ha =>
    obtain ⟨ha, hstate⟩ := answerClientHello_reads ha
    have hne := hs.not_active hst nofun nofun
    have hne' : u.conn.sess.state ≠ .active := by rw [hstate]; exact nofun
    have hfirst : Reads s (handleAfterEcdheKeyGen (clearPending s)) :=
      (mapSess_reads rfl fun _ => hne).trans (mapSess_reads rfl fun _ => hne)
    have hdelete := (deleteRecord_frame r u).reads
    exact .inr ⟨hfirst.trans <| hf.reads.trans <| ha.trans <| hdelete.trans
      (finishCrypto_reads o _ hne'), hne'⟩
  | @sharedSecret o _ _ hst =>
    have hne := hs.not_active hst nofun nofun
    have hclear : Reads s (clearPending s) := mapSess_reads rfl fun _ => hne
    have hkeys : Reads (clearPending s) (handleAfterEcdheSharedSecretCalc env (clearPending s)) := by
      unfold handleAfterEcdheSharedSecretCalc
      exact mapSess_reads rfl fun _ => hne
    exact .inr ⟨hclear.trans <| hkeys.trans (finishCrypto_reads o _ hne), hne⟩
  | @signature o _ _ hst =>
    have hne := hs.not_active hst nofun nofun
    have hclear : Reads s (clearPending s) := mapSess_reads rfl fun _ => hne
    have hsigned : Reads (clearPending s) (handleAfterEcdsaSignature (clearPending s)) :=
      mapSess_reads rfl fun _ => hne
    exact .inr ⟨hclear.trans <| hsigned.trans (finishCrypto_reads o _ hne), hne⟩

theorem setHandshakeState_reads (k : HandshakeType) (s : St)
    (hst : Steady s.conn → s.conn.sess.state ≠ .active) : Reads s (setHandshakeState k s) :=
  mapSess_reads rfl hst

theorem handleVerifyDataCalculation_reads (env : Env) (s : St)
    (hst : s.conn.sess.state ≠ .active) : Reads s (handleVerifyDataCalculation env s) := by
  have hmac : Reads s (s.mapSess fun e => { e with tls13Ctx := { e.tls13Ctx with
      calculatedVd := finishedMac env.crypto e.tls13Ctx.clientSecret e.handshakeMsgs } }) :=
    mapSess_reads rfl fun _ => hst
  refine hmac.trans (.same rfl rfl rfl ⟨[_], rfl, inner_singleton fun _ => ⟨rfl, rfl⟩⟩ fun h => ?_)
  exact ⟨h.active, h.applied⟩

theorem RemainOutcome.reads (ho : RemainOutcome env s s') (hs : Steady s.conn) : Reads s s' := by
  cases ho with
  | idle => exact .refl _
  | @certificate s1 s2 s' hst hk hf hf' hreq =>
    have hne := hs.not_active hst nofun nofun
    have hne1 : s1.conn.sess.state ≠ .active := fun ha => hne (hf.state.symm.trans ha)
    have hne2 : s2.conn.sess.state ≠ .active := fun ha =>
      hne1 (hf'.state.symm.trans ha)
    have h1 := hf.reads.trans (setHandshakeState_reads .encryptedExtensions s1 fun _ => hne1)
    have h2 : Reads s2 (signatureRequest env s2) := by
      unfold signatureRequest
      exact (setHandshakeState_reads .certificate s2 fun _ => hne2).trans (mapSess_reads rfl fun _ => hne2)
    have h3 : Reads (signatureRequest env s2) s' := by
      rcases hreq with ⟨o, hrej⟩ | ⟨o, hsub⟩
      · exact hrej.frame.reads
      · exact hsub.reads fun _ => hne2
    exact h1.trans <| hf'.reads.trans <| h2.trans h3
  | @finished s1 s2 port hst hsig hf hf' =>
    have hne := hs.not_active hst nofun nofun
    have hne1 : s1.conn.sess.state ≠ .active := fun ha => hne (hf.state.symm.trans ha)
    have hne2 : s2.conn.sess.state ≠ .active := fun ha =>
      hne1 (hf'.state.symm.trans ha)
    have h1 := hf.reads.trans (setHandshakeState_reads .certificateVerify s1 fun _ => hne1)
    obtain ⟨k, hk, -⟩ := handleAppKeysCalculation_eq env s2
    rw [hk]
    have h2 : Reads s2 (s2.mapSess fun e => { e with tls13Ctx := k }) := mapSess_reads rfl fun _ => hne2
    have h3 := handleVerifyDataCalculation_reads env (s2.mapSess fun e => { e with tls13Ctx := k }) hne2
    exact h1.trans <| hf'.reads.trans <| h2.trans <| h3.trans (sendKeyMeta_frame env port _).reads
  | @pending s1 hst _ hf =>
    have hne := hs.not_active hst nofun nofun
    have hne1 : s1.conn.sess.state ≠ .active := fun ha => hne (hf.state.symm.trans ha)
    exact hf.reads.trans (setHandshakeState_reads .finished s1 fun _ => hne1)

/-! ### Serving a connection, and its packets -/

theorem Gone.crypto (h : Gone s.conn) : getProcessedCrypto env s = .ok s := by
  unfold getProcessedCrypto
  rw [if_pos (by rw [h.completedCrypto]; exact nofun)]

theorem Gone.apply (h : Gone s.conn) : applyHws s = s := by
  unfold applyHws
  rw [if_neg]
  exact fun ha => absurd (h.state.symm.trans ha.1) nofun

theorem Gone.remove (h : Gone s.conn) : removeHws s = .ok s := by
  unfold removeHws
  rw [if_neg]
  exact fun ha => absurd (h.hwsApplied.symm.trans ha.1) nofun

theorem Gone.remain (h : Gone s.conn) : sendRemainServerRecords env (forwardAppData s) = .ok s := by
  have hforward : forwardAppData s = s := by
    unfold forwardAppData
    rw [if_neg]
    exact fun ha => absurd (h.hwsApplied.symm.trans ha.1) nofun
  rw [hforward]
  unfold sendRemainServerRecords
  dsimp only
  rw [if_neg, if_neg, if_neg] <;> rw [h.handshakeState] <;> exact fun ha => absurd ha.1 nofun

theorem applyHws_lives (s : St) (hread : s.conn.sess.state = .active → s.conn.sess.recvQ = []) :
    Lives s (applyHws s) := by
  unfold applyHws
  split
  · rename_i ha
    refine ⟨rfl, rfl, fun h => h, rfl, ⟨[], rfl, inner_nil⟩, fun h => ⟨h.active, fun _ => ?_⟩⟩
    exact ⟨(h.active ha.1).1, hread ha.1⟩
  · exact .refl s

theorem processSessionRead_lives (h : processSessionRead env s = .ok s') (hs : Steady s.conn)
    (hends : ∀ e ∈ s'.ctx.trace, e.EndsLast env) :
    (Lives s s' ∧ (s'.conn.sess.state = .active → s'.conn.sess.recvQ = [])) ∨ Removes s s' := by
  cases hws : s.conn.tcp.hwsApplied with
  | true =>
    have hq := (hs.applied hws).2
    obtain rfl := processSessionReadLoop_stop h hq
    exact .inl ⟨.refl _, fun _ => hq⟩
  | false =>
    obtain ⟨hread, hl | hr⟩ := processSessionReadLoop_lives h (Nat.le_refl _) hws hends
    · refine .inl ⟨hl.toLives, fun ha => hread.resolve_left fun hw => ?_⟩
      exact absurd (((hl.steady hs).active ha).2.1.symm.trans hw) nofun
    · exact .inr hr

theorem mapTcp_reads {f : Tcp → Tcp} (hmove : TcpMove s.conn.tcp (f s.conn.tcp))
    (hws : (f s.conn.tcp).hwsApplied = s.conn.tcp.hwsApplied) : Reads s (s.mapTcp f) where
  id := rfl
  hash := hmove.hash
  live h := by
    rcases hmove.state with hst | hst <;> rw [St.mapTcp_tcp, hst]
    · exact h
    · exact nofun
  registry := rfl
  trace := ⟨[], rfl, inner_nil⟩
  steady h := by
    constructor
    · rw [St.mapTcp_tcp, hmove.onload]
      exact h.active
    · rw [St.mapTcp_tcp, hmove.onload, hws]
      exact h.applied
  hws := hws

theorem emit_reads (x : Out) (s : St) : Reads s (emit x s) :=
  .same rfl rfl rfl ⟨[], rfl, inner_nil⟩ fun h => h

theorem forwardAppData_lives (s : St) : Lives s (forwardAppData s) := by
  unfold forwardAppData
  split
  · exact Reads.toLives ((emit_reads _ s).trans (mapTcp_reads ⟨rfl, .inl rfl, rfl⟩ rfl))
  · exact .refl s

theorem serveConnection_lives {others : ConnId → Conn} (h : serveConnection env s = .ok s')
    (hop : OpFacts (s.among others)) (hs : Steady s.conn)
    (hends : ∀ e ∈ s'.ctx.trace, e.EndsLast env) : Lives s s' ∨ Removes s s' := by
  obtain ⟨s1, h1, h⟩ := bind_ok h
  obtain ⟨s2, h2, h⟩ := bind_ok h
  obtain ⟨s3, h3, h4⟩ := bind_ok h
  have hgrows : s1.ctx.trace <:+ s'.ctx.trace := by
    have happly : (applyHws s2).ctx = s2.ctx := by unfold applyHws; split <;> rfl
    have hremove : (applyHws s2).ctx.trace <:+ s3.ctx.trace := by
      rcases removeHws_cases h3 with ⟨-, rfl⟩ | ⟨-, hr⟩
      · exact List.suffix_refl _
      · exact hr.grows
    exact (getProcessedCrypto_grows h2).trans <| (happly ▸ hremove).trans <|
      (forwardAppData_lives s3).grows.trans (sendRemainServerRecords_outcome h4).grows
  rcases processSessionRead_lives h1 hs fun e he => hends e (hgrows.subset he) with ⟨hl, hread⟩ | hr
  · have hs1 := hl.steady hs
    have hcl := closed_opFacts env
    have hop1 : OpFacts (s1.among others) :=
      ((processSessionReadLoop_rule hcl.refl hcl.trans hcl.queued h1).carries (fun _ _ => trivial)
        others hop).2
    have hcrypto : Lives s1 s2 ∧ (s2.conn.sess.state = .active → s2.conn.sess.recvQ = []) := by
      rcases getProcessedCrypto_lives h2 hop1.core.hello hs1 with rfl | ⟨hl2, hne⟩
      · exact ⟨.refl _, hread⟩
      · exact ⟨hl2.toLives, fun ha => absurd ha hne⟩
    have happly := hl.trans (hcrypto.1.trans (applyHws_lives s2 hcrypto.2))
    rcases removeHws_cases h3 with ⟨-, rfl⟩ | ⟨-, hr⟩
    · have hforward := happly.trans (forwardAppData_lives (applyHws s2))
      have hremain := (sendRemainServerRecords_outcome h4).reads (hforward.steady hs)
      exact .inl (hforward.trans hremain.toLives)
    · rw [hr.gone.remain] at h4
      obtain rfl := Except.ok.inj h4
      exact .inr ⟨_, happly, hr⟩
  · -- removed while its queue was read
    have hgone := hr.gone
    rw [hgone.crypto] at h2
    obtain rfl := Except.ok.inj h2
    rw [hgone.apply, hgone.remove] at h3
    obtain rfl := Except.ok.inj h3
    rw [hgone.remain] at h4
    obtain rfl := Except.ok.inj h4
    exact .inr hr

theorem processSslPacket_lives {payload : Bytes} {ret : Int}
    (h : processSslPacket env payload s = .ok (ret, s')) (hws : s.conn.tcp.hwsApplied = false)
    (hends : ∀ e ∈ s'.ctx.trace, e.EndsLast env) : Reads s s' ∨ Removes s s' ∧ ret = 0 := by
  unfold processSslPacket at h
  split at h
  · cases h
    exact .inl (.refl _)
  · obtain ⟨u, hu, h⟩ := bind_ok h
    cases h
    rcases processNewRecordLoop_lives hu hws hends with hl | hr
    · exact .inl hl
    · exact .inr ⟨hr, by rw [hr.gone.currentReadRecord]; rfl⟩

/- A packet in sequence.  No acknowledgement is sent for a connection that was removed. -/
theorem processNormalSeqCase_lives {p : Packet} (h : processNormalSeqCase env p s = .ok s')
    (hws : s.conn.tcp.hwsApplied = false) (hends : ∀ e ∈ s'.ctx.trace, e.EndsLast env) :
    Lives s s' ∨ Removes s s' := by
  obtain ⟨⟨ret, u⟩, hu, h⟩ := bind_ok h
  have hnumbers : Reads s (storeNumbers p s) := mapTcp_reads ⟨rfl, .inr rfl, rfl⟩ rfl
  have hack : (ret < 0 ∧ s' = sendTcpPacket TCP_FLAG_ACK [] u) ∨ s' = u := by
    dsimp only at h
    split at h <;> cases h
    · exact .inl ⟨‹_›, rfl⟩
    · exact .inr rfl
  have hframe : Reads u s' := by
    rcases hack with ⟨-, rfl⟩ | rfl
    · exact (sendTcpEmpty_frame _ u).reads
    · exact .refl _
  rcases processSslPacket_lives hu hws fun e he => hends e (hframe.toLives.grows.subset he) with hl | ⟨hr, hret⟩
  · exact .inl (hnumbers.trans (hl.trans hframe)).toLives
  · rcases hack with ⟨hlt, -⟩ | rfl
    · omega
    · exact .inr (hnumbers.toLives.removes hr)

theorem keepAppData_lives {p : Packet} (h : keepAppData p s = .ok s') : Lives s s' := by
  obtain ⟨data, -, h⟩ := bind_ok h
  cases h
  exact Reads.toLives (mapTcp_reads ⟨rfl, .inl rfl, rfl⟩ rfl)

theorem Acts.lives {p : Packet} (h : Acts env p s s') (hs : Steady s.conn)
    (hends : ∀ e ∈ s'.ctx.trace, e.EndsLast env) : Lives s s' ∨ Removes s s' := by
  cases h with
  | handshake h =>
    unfold processHandshakePacket at h
    split at h
    · exact .inl (keepAppData_lives h)
    · rename_i hload
      have hws : s.conn.tcp.hwsApplied = false := by
        cases hws : s.conn.tcp.hwsApplied with
        | false => rfl
        | true => exact absurd (hs.applied hws).1 hload
      split at h
      · exact processNormalSeqCase_lives h hws hends
      · cases h
        exact .inl (.refl _)
      · cases h
        exact .inl (sendTcpEmpty_frame _ s).reads.toLives
      · cases h
        exact .inl (.refl _)
  | ack h =>
    unfold processAckPacket at h
    split at h
    · cases h
      exact .inl (.refl _)
    · split at h
      · exact .inl (keepAppData_lives h)
      · cases h
        exact .inl (.refl _)
  | migFin =>
    unfold processHostMigFin
    dsimp only
    split
    · exact .inl (Reads.toLives (mapTcp_reads ⟨rfl, .inl rfl, rfl⟩ rfl))
    · refine .inl (Lives.trans (Reads.toLives (SendFrame.reads ?_))
        (Reads.toLives (mapTcp_reads ⟨rfl, .inl rfl, rfl⟩ rfl)))
      exact ((emitTcp_frame _ rfl s).trans (sendRstConnMeta_frame _ _)).toSendFrame
  | close =>
    unfold processHostClose
    split
    · exact .inl (Reads.toLives (mapTcp_reads ⟨rfl, .inl rfl, rfl⟩ rfl))
    · exact .inl (.refl s)

end

end Xtls.Nic
