import Xtls.Nic.OpFacts

/-!
# The order in which records are read

`process_new_record` reads a complete record at once, or queues it while `waiting_crypto` is set;
`process_session_read` reads what is queued (`ssl.c` 748-858, 2087-2106).  The history tells which
records of a connection were completed and which were read since it was last cleared.
-/

namespace Xtls.Nic

def Event.clears (c : ConnId) : Event → Bool
  | .clear conn => conn.id = c
  | _ => false

def Event.completed (c : ConnId) : Event → Option Record
  | .complete i r => if i = c then some r else none
  | _ => none

def Event.reads (c : ConnId) : Event → Option Record
  | .read conn r _ _ => if conn.id = c then some r else none
  | _ => none

/- The records that `pick` finds since connection `c` was last cleared, oldest first. -/
def sinceClear (c : ConnId) (pick : Event → Option Record) : List Event → List Record
  | [] => []
  | e :: t => if e.clears c then [] else sinceClear c pick t ++ (pick e).toList

/-- The records of `c` that `process_new_record` has completed. -/
def completedOf (c : ConnId) (t : List Event) : List Record := sinceClear c (Event.completed c) t

/-- The records of `c` that `process_read_record` was called on. -/
def readOf (c : ConnId) (t : List Event) : List Record := sinceClear c (Event.reads c) t

/-- Each call of `process_read_record` finds no operation of its session outstanding and is for the
first record that was completed and not yet read; what is in `recv_q` was completed later. -/
def InOrder (t : List Event) : Prop :=
  ∀ conn r rest room t', .read conn r rest room :: t' <:+ t → conn.sess.pendingPkaOp = none
    ∧ completedOf conn.id t' = readOf conn.id t' ++ r :: conn.sess.recvQ

structure Ordered (s : Sys) : Prop where
  fifo : ∀ c, completedOf c s.ctx.trace = readOf c s.ctx.trace ++ (s.conns c).sess.recvQ
  log : InOrder s.ctx.trace

section

variable {env : Env} {s s' : St} {others : ConnId → Conn} {c : ConnId} {t : List Event} {r : Record}
  {e : Event} {o : OpId} {fill : Op}

/-! ### The history -/

theorem sinceClear_skip {pick : Event → Option Record} (hc : e.clears c = false)
    (hp : pick e = none) : sinceClear c pick (e :: t) = sinceClear c pick t := by
  simp [sinceClear, hc, hp]

theorem InOrder.cons (h : InOrder t)
    (he : ∀ conn r rest room, e = .read conn r rest room → conn.sess.pendingPkaOp = none
      ∧ completedOf conn.id t = readOf conn.id t ++ r :: conn.sess.recvQ) : InOrder (e :: t) := by
  intro conn r rest room t' hs
  rcases List.suffix_cons_iff.mp hs with heq | hs
  · cases heq
    exact he conn r rest room rfl
  · exact h conn r rest room t' hs

theorem InOrder.skip (h : InOrder t) (he : ∀ c, e.reads c = none) : InOrder (e :: t) := by
  refine h.cons ?_
  rintro conn r rest room rfl
  have hr := he conn.id
  simp [Event.reads] at hr

theorem Ordered.note {a a' : Sys} (h : Ordered a) (ht : a'.ctx.trace = e :: a.ctx.trace)
    (hc : ∀ c, e.clears c = false ∧ e.completed c = none ∧ e.reads c = none)
    (hq : ∀ c, (a'.conns c).sess.recvQ = (a.conns c).sess.recvQ) : Ordered a' := by
  constructor
  · intro c
    obtain ⟨h1, h2, h3⟩ := hc c
    rw [ht, hq, completedOf, readOf, sinceClear_skip h1 h2, sinceClear_skip h1 h3]
    exact h.fifo c
  · rw [ht]
    exact h.log.skip fun c => (hc c).2.2

theorem Ordered.keep {a a' : Sys} (h : Ordered a) (ht : a'.ctx.trace = a.ctx.trace)
    (hq : ∀ c, (a'.conns c).sess.recvQ = (a.conns c).sess.recvQ) : Ordered a' :=
  ⟨fun c => by rw [ht, hq]; exact h.fifo c, ht ▸ h.log⟩

/-! ### One connection -/

theorem Ordered.own (h : Ordered (s.among others)) :
    completedOf s.conn.id s.ctx.trace = readOf s.conn.id s.ctx.trace ++ s.conn.sess.recvQ := by
  have hc := h.fifo s.conn.id
  rwa [St.among_self] at hc

theorem Ordered.on (h : Ordered (s.among others)) (hid : s'.conn.id = s.conn.id)
    (hothers : ∀ d, d ≠ s.conn.id → completedOf d s'.ctx.trace = completedOf d s.ctx.trace
      ∧ readOf d s'.ctx.trace = readOf d s.ctx.trace)
    (hown : completedOf s.conn.id s'.ctx.trace
      = readOf s.conn.id s'.ctx.trace ++ s'.conn.sess.recvQ)
    (hlog : InOrder s'.ctx.trace) : Ordered (s'.among others) := by
  refine ⟨fun c => ?_, hlog⟩
  by_cases hc : c = s.conn.id
  · subst hc
    have heq : (s'.among others).conns s.conn.id = s'.conn := hid ▸ s'.among_self
    rw [heq]
    exact hown
  · have hold := h.fifo c
    obtain ⟨h1, h2⟩ := hothers c hc
    rw [s.among_ne hc] at hold
    rw [s'.among_ne (hid ▸ hc)]
    show completedOf c s'.ctx.trace = readOf c s'.ctx.trace ++ _
    rw [h1, h2]
    exact hold

theorem among_recvQ (hid : s'.conn.id = s.conn.id) (hq : s'.conn.sess.recvQ = s.conn.sess.recvQ)
    (c : ConnId) :
    ((s'.among others).conns c).sess.recvQ = ((s.among others).conns c).sess.recvQ := by
  by_cases hc : c = s.conn.id
  · have heq : (s'.among others).conns s.conn.id = s'.conn := hid ▸ s'.among_self
    rw [hc, heq, s.among_self]
    exact hq
  · rw [s'.among_ne (hid ▸ hc), s.among_ne hc]

theorem Ordered.same (h : Ordered (s.among others)) (hid : s'.conn.id = s.conn.id)
    (ht : s'.ctx.trace = s.ctx.trace) (hq : s'.conn.sess.recvQ = s.conn.sess.recvQ) :
    Ordered (s'.among others) :=
  h.keep ht (among_recvQ hid hq)

theorem Ordered.frame (h : Ordered (s.among others)) (hf : SendFrame s s') :
    Ordered (s'.among others) :=
  h.same hf.id hf.trace hf.recvQ

theorem Ordered.removed (h : Ordered (s.among others)) (hr : Removed s s') :
    Ordered (s'.among others) := by
  refine h.on hr.id (fun d hd => ?_) ?_ ?_
  · simp [hr.trace, completedOf, readOf, sinceClear, Event.clears, Event.completed, Event.reads,
      Ne.symm hd]
  · have hq : s'.conn.sess.recvQ = [] := by rw [hr.sess]; rfl
    simp [hr.trace, hq, completedOf, readOf, sinceClear, Event.clears, Event.completed, Event.reads]
  · rw [hr.trace]
    exact (h.log.skip fun _ => rfl).skip fun _ => rfl

theorem Ordered.pushed (h : Ordered (s.among others)) (r : Record) :
    Ordered (((completing r s).mapSess fun e => { e with recvQ := e.recvQ ++ [r] }).among others) := by
  refine h.on rfl (fun d hd => ?_) ?_ (h.log.skip fun _ => rfl)
  · simp [completing, completedOf, readOf, sinceClear, Event.clears, Event.completed, Event.reads,
      Ne.symm hd]
  · have := h.own
    simp only [completedOf, readOf] at this
    simp [completing, completedOf, readOf, sinceClear, Event.clears, Event.completed, Event.reads, this]

/- `process_read_record` is called on the record that is next in turn. -/
theorem Ordered.called {u : St} (h : Ordered (s.among others)) (hid : u.conn.id = s.conn.id)
    (hothers : ∀ d, d ≠ s.conn.id → completedOf d u.ctx.trace = completedOf d s.ctx.trace
      ∧ readOf d u.ctx.trace = readOf d s.ctx.trace)
    (hlog : InOrder u.ctx.trace) (hpend : u.conn.sess.pendingPkaOp = none)
    (hdue : completedOf u.conn.id u.ctx.trace
      = readOf u.conn.id u.ctx.trace ++ r :: u.conn.sess.recvQ) (rest : Nat) :
    Ordered ((reading rest r u).among others) := by
  refine h.on hid (fun d hd => ?_) ?_ (hlog.cons ?_)
  · obtain ⟨h1, h2⟩ := hothers d hd
    have hne : u.conn.id ≠ d := fun he => hd (he.symm.trans hid)
    refine ⟨h1 ▸ sinceClear_skip rfl rfl, h2 ▸ sinceClear_skip rfl ?_⟩
    simp [Event.reads, hne]
  · rw [hid] at hdue
    show sinceClear _ _ (_ :: u.ctx.trace) = sinceClear _ _ (_ :: u.ctx.trace) ++ u.conn.sess.recvQ
    rw [sinceClear_skip rfl rfl]
    refine Eq.trans hdue ?_
    simp [readOf, sinceClear, Event.clears, Event.reads, hid]
  · rintro conn r' rest' room he
    cases he
    exact ⟨hpend, hdue⟩

theorem Ordered.read_at_once (h : Ordered (s.among others)) (hpend : s.conn.sess.pendingPkaOp = none)
    (hq : s.conn.sess.recvQ = []) (r : Record) (rest : Nat) :
    Ordered ((reading rest r (completing r s)).among others) := by
  have hown := h.own
  simp only [completedOf, readOf] at hown
  refine h.called (u := completing r s) rfl (fun d hd => ?_) (h.log.skip fun _ => rfl) hpend ?_ rest
  · simp [completing, completedOf, readOf, sinceClear, Event.clears, Event.completed, Event.reads,
      Ne.symm hd]
  · simp [completing, completedOf, readOf, sinceClear, Event.clears, Event.completed, Event.reads, hown,
      hq]

theorem Ordered.read_queued {q : List Record} (h : Ordered (s.among others))
    (hpend : s.conn.sess.pendingPkaOp = none) (hq : s.conn.sess.recvQ = r :: q) (rest : Nat) :
    Ordered ((reading rest r (s.mapSess fun e => { e with recvQ := q })).among others) :=
  h.called (u := s.mapSess fun e => { e with recvQ := q }) rfl (fun _ _ => ⟨rfl, rfl⟩) h.log hpend
    (hq ▸ h.own) rest

/-! ### What is awaited while records are read -/

def RecordReady (s : St) : Prop :=
  s.conn.sess.waitingCrypto = true ∨ s.conn.sess.recvQ = [] ∧ s.conn.sess.pendingPkaOp = none

def Settles (s s' : St) : Prop :=
  (s'.conn.sess.waitingCrypto = s.conn.sess.waitingCrypto ∧ s'.conn.sess.recvQ = s.conn.sess.recvQ
    ∧ s'.conn.sess.pendingPkaOp = s.conn.sess.pendingPkaOp) ∨ RecordReady s'

theorem Settles.trans {a b c : St} (h1 : Settles a b) (h2 : Settles b c) : Settles a c := by
  rcases h2 with ⟨hw, hq, hp⟩ | h2
  · rcases h1 with ⟨hw', hq', hp'⟩ | h1
    · exact .inl ⟨hw.trans hw', hq.trans hq', hp.trans hp'⟩
    · refine .inr ?_
      unfold RecordReady
      rw [hw, hq, hp]
      exact h1
  · exact .inr h2

theorem SendFrame.settles (h : SendFrame s s') : Settles s s' :=
  .inl ⟨h.waitingCrypto, h.recvQ,
    h.pendingPkaOp⟩

theorem Settles.ready (h : Settles s s') (hr : RecordReady s) : RecordReady s' := by
  rcases h with ⟨hw, hq, hp⟩ | h
  · unfold RecordReady
    rw [hw, hq, hp]
    exact hr
  · exact h

theorem Settles.free (h : Settles s s')
    (hf : s.conn.sess.waitingCrypto = true ∨ s.conn.sess.pendingPkaOp = none) :
    s'.conn.sess.waitingCrypto = true ∨ s'.conn.sess.pendingPkaOp = none := by
  rcases h with ⟨hw, -, hp⟩ | h
  · rw [hw, hp]
    exact hf
  · exact h.imp_right And.right

abbrev Tidy : St → St → Prop := Carries (fun _ => True) fun s => OpFacts s ∧ Ordered s

theorem outcomeRule_tidy : OutcomeRule fun s s' => Tidy s s' ∧ Settles s s' where
  refl s := ⟨.refl s, .inl ⟨rfl, rfl, rfl⟩⟩
  trans h1 h2 := ⟨h1.1.trans h2.1, h1.2.trans h2.2⟩
  frame s s' hf := ⟨(readRule_opFacts.frame s s' hf).and fun _ _ _ _ _ h => h.frame hf.toSendFrame,
    hf.settles⟩
  hello s s' r ch o hw hst hr hn hsub := by
    refine ⟨(readRule_opFacts.hello s s' r ch o hw hst hr hn hsub).and fun _ _ hid _ _ h => ?_, .inr ?_⟩
    · exact h.same hid hsub.trace (by rw [hsub.sess])
    · exact .inl (by rw [hsub.sess])
  spec s hst := ⟨(readRule_opFacts.spec s hst).and fun _ _ hid _ _ h => h.same hid rfl rfl,
    .inl ⟨rfl, rfl, rfl⟩⟩
  finish s hst :=
    ⟨(readRule_opFacts.finish s hst).and fun _ _ hid _ _ h => h.same hid rfl rfl, .inl ⟨rfl, rfl, rfl⟩⟩
  removed s s' hr := by
    refine ⟨(readRule_opFacts.removed s s' hr).and fun _ _ _ _ _ h => h.removed hr, .inr (.inr ?_)⟩
    rw [hr.sess]
    exact ⟨rfl, rfl⟩

/-! ### A round of reassembly, and the queue -/

theorem Tidy.read {u : St} {rest : Nat} {ret : Int}
    (hcall : Tidy s (reading rest r u)) (hw : u.conn.sess.waitingCrypto = false)
    (h : processReadRecord env rest r u = .ok (ret, s')) : Tidy s s' ∧ Settles u s' := by
  have hout := outcomeRule_tidy.outcome (t := u) hw (processReadRecord_outcome h hw)
  exact ⟨hcall.trans hout.1, hout.2⟩

theorem tidy_queues (cur : Option Record) (s : St) :
    Tidy s (s.mapSess fun e => { e with currentReadRecord := cur }) :=
  (readRule_opFacts.queues s cur s.conn.sess.recvQ).and fun _ _ hid _ _ h => h.same hid rfl rfl

theorem tidy_round {pkt pkt' : Bytes} (hr : newRecordRound env pkt s = .ok (pkt', s'))
    (hready : RecordReady s) : RecordReady s' ∧ Tidy s s' := by
  obtain ⟨r, s1, hcur, -, hcases⟩ := newRecordRound_cases hr
  have h1 : Tidy s s1 ∧ Settles s s1 := by
    rcases currentRecord_cases hcur with ⟨-, rfl⟩ | ⟨-, -, hf, -⟩
    · exact outcomeRule_tidy.refl _
    · exact outcomeRule_tidy.frame _ _ hf
  generalize hu : setCurrent (some (filled r pkt)) s1 = u at hcases
  have h2 : Tidy s u := hu ▸ h1.1.trans (tidy_queues _ s1)
  have hready2 : RecordReady u := hu ▸ h1.2.ready hready
  rcases hcases with ⟨-, rfl⟩ | ⟨-, s2, hs2, rfl⟩
  · exact ⟨hready2, h2⟩
  · have h3 : RecordReady s2 ∧ Tidy u s2 := by
      rcases takeRecord_cases hs2 with ⟨hw, rfl⟩ | ⟨hw, ret, hread⟩
      · have hop := (readRule_opFacts.complete (filled r pkt) u).trans
          (readRule_opFacts.queues (completing (filled r pkt) u) u.conn.sess.currentReadRecord
            (u.conn.sess.recvQ ++ [filled r pkt]))
        exact ⟨.inl hw, hop.and fun _ _ _ _ _ h => h.pushed (filled r pkt)⟩
      · have hw' : u.conn.sess.waitingCrypto = false := hw
        obtain ⟨hq, hp⟩ : u.conn.sess.recvQ = [] ∧ u.conn.sess.pendingPkaOp = none :=
          hready2.resolve_left (by rw [hw']; exact nofun)
        have hop := (readRule_opFacts.complete (filled r pkt) u).trans
          (readRule_opFacts.call (pkt.length - taken r pkt) (filled r pkt) (completing (filled r pkt) u))
        have hread := Tidy.read (hop.and fun _ _ _ _ _ h => h.read_at_once hp hq _ _) hw hread
        exact ⟨hread.2.ready hready2, hread.1⟩
    exact ⟨h3.1, h2.trans (h3.2.trans (tidy_queues none s2))⟩

theorem tidy_sessionRead (h : processSessionRead env s = .ok s')
    (hcalm : s.conn.sess.waitingCrypto = true ∨ s.conn.sess.recvQ = []
      ∨ s.conn.sess.pendingPkaOp = none) : Tidy s s' := by
  by_cases hq : s.conn.sess.recvQ = []
  · rw [processSessionRead, hq] at h
    cases h
    exact .refl _
  have hfree : s.conn.sess.waitingCrypto = true ∨ s.conn.sess.pendingPkaOp = none :=
    hcalm.imp_right fun h => h.resolve_left hq
  refine (processSessionReadLoop_rule (R := fun s s' =>
    (s.conn.sess.waitingCrypto = true ∨ s.conn.sess.pendingPkaOp = none) →
      (s'.conn.sess.waitingCrypto = true ∨ s'.conn.sess.pendingPkaOp = none) ∧ Tidy s s')
    (fun s hs => ⟨hs, .refl s⟩) (fun h1 h2 hs => ?_) ?_ h hfree).2
  · obtain ⟨hb, h1⟩ := h1 hs
    obtain ⟨hc, h2⟩ := h2 hb
    exact ⟨hc, h1.trans h2⟩
  · intro u u' r q ret hw hq hread hu
    have hp : u.conn.sess.pendingPkaOp = none := hu.resolve_left (by rw [hw]; exact nofun)
    have hop := (readRule_opFacts.queues u u.conn.sess.currentReadRecord q).trans
      (readRule_opFacts.call 0 r (u.mapSess fun e => { e with recvQ := q }))
    have hread := Tidy.read (hop.and fun _ _ _ _ _ h => h.read_queued hp hq 0) hw hread
    exact ⟨hread.2.free hu, hread.1⟩

/-! ### Results and the server flight -/

theorem getProcessedCrypto_queue (hdata : ∀ o r, (s.ctx.ops o).data = some r → ∃ ch, r.IsHello ch)
    (h : getProcessedCrypto env s = .ok s') :
    s'.ctx.trace = s.ctx.trace ∧ s'.conn.sess.recvQ = s.conn.sess.recvQ := by
  cases getProcessedCrypto_outcome hdata h with
  | idle => exact ⟨rfl, rfl⟩
  | sharedSecret | signature => exact ⟨rfl, rfl⟩
  | @keyGen o r ch t u _ _ _ _ _ hf ha =>
    refine ⟨(answerClientHello_trace ha).trans hf.trace, ?_⟩
    have hq := hf.recvQ
    obtain ⟨off, s1, s2, -, hf', hreq, rfl⟩ := answerClientHello_cases ha
    have hq1 := hf'.recvQ
    have hq2 : s2.conn.sess.recvQ = s1.conn.sess.recvQ := by
      rcases hreq with ⟨o', hrej⟩ | ⟨o', hsub⟩
      · exact hrej.frame.recvQ
      · rw [hsub.sess]
        rfl
    exact hq2.trans (hq1.trans hq)

theorem Ordered.remain (h : Ordered (s.among others)) (ho : RemainOutcome env s s') :
    Ordered (s'.among others) := by
  cases ho with
  | idle => exact h
  | @certificate s1 s2 s' _ _ hf hf' hreq =>
    have h1 : Ordered ((setHandshakeState .encryptedExtensions s1).among others) :=
      (h.frame hf).same rfl rfl rfl
    have h2 : Ordered (s2.among others) := h1.frame hf'
    have h3 : Ordered ((signatureRequest env s2).among others) := h2.same rfl rfl rfl
    rcases hreq with ⟨o, hrej⟩ | ⟨o, hsub⟩
    · exact h3.frame hrej.frame.toSendFrame
    · exact h3.same hsub.id hsub.trace (by rw [hsub.sess])
  | @finished s1 s2 port _ _ hf hf' =>
    have h1 : Ordered ((setHandshakeState .certificateVerify s1).among others) :=
      (h.frame hf).same rfl rfl rfl
    have h2 : Ordered (s2.among others) := h1.frame hf'
    obtain ⟨k, hk, -⟩ := handleAppKeysCalculation_eq env s2
    have h3 : Ordered ((handleVerifyDataCalculation env (handleAppKeysCalculation env s2)).among
        others) := by
      rw [hk]
      exact h2.note rfl (fun _ => ⟨rfl, rfl, rfl⟩) (among_recvQ rfl rfl)
    exact h3.frame (sendKeyMeta_frame env port _).toSendFrame
  | @pending s1 _ _ hf => exact (h.frame hf.toSendFrame).same rfl rfl rfl

theorem mapTcp_tidy (s : St) (f : Tcp → Tcp) : Tidy s (s.mapTcp f) :=
  (mapTcp_opFacts s f).and fun _ _ hid _ _ h => h.same hid rfl rfl

theorem moveRule_tidy : MoveRule Tidy where
  refl := .refl
  trans := .trans
  tcp s f _ := mapTcp_tidy s f
  emits s x := (emit_opFacts s x).and fun _ _ hid _ _ h => h.same hid rfl rfl
  frame s s' hf := (outcomeRule_tidy.frame s s' hf.toFrame).1

theorem serveRule_tidy (env : Env) : ServeRule env Tidy where
  toMoveRule := moveRule_tidy
  crypto s s' hc := by
    refine ((closed_opFacts env).crypto s s' hc).and fun _ _ hid ho _ h => ?_
    obtain ⟨ht, hq⟩ := getProcessedCrypto_queue ho.core.hello hc
    exact h.same hid ht hq
  removed s s' _ hr := (outcomeRule_tidy.removed s s' hr).1
  remain s s' hr := ((closed_opFacts env).remain s s' hr).and fun _ _ _ _ _ h => h.remain hr

end

/-! ### The whole worker -/

instance (s : St) : Decidable (RecordReady s) := inferInstanceAs (Decidable (_ ∨ _ ∧ _))

def Packet.FindsReady (p : Packet) (s : Sys) : Prop :=
  match searchTcpConnection p s with
  | .ok (some c) => RecordReady ⟨s.conns c, s.ctx⟩
  | _ => True

instance (p : Packet) (s : Sys) : Decidable (p.FindsReady s) := by
  unfold Packet.FindsReady
  split <;> infer_instance

/-- Payload of a connection is taken while the connection waits for a PKA result, or with nothing
queued and nothing outstanding; a connection is served while it waits, or with one of the two. -/
def Input.Calm : Input → Sys → Prop
  | .packet _ p, s => p.payload ≠ [] → p.FindsReady s
  | .serve c, s => (s.conns c).sess.waitingCrypto = true ∨ (s.conns c).sess.recvQ = []
      ∨ (s.conns c).sess.pendingPkaOp = none
  | _, _ => True

instance (x : Input) (s : Sys) : Decidable (x.Calm s) :=
  match x with
  | .packet _ p => inferInstanceAs (Decidable (p.payload ≠ [] → p.FindsReady s))
  | .serve _ => inferInstanceAs (Decidable (_ ∨ _ ∨ _))
  | .pkaSubmit _ | .pkaComplete _ _ | .outside _ => inferInstanceAs (Decidable True)

section

variable {env : Env} {s s' : Sys} {c : ConnId} {x : Input}

theorem Ordered.inserted (h : Ordered s) (hi : Inserted c s s') : Ordered s' :=
  h.note hi.trace (fun _ => ⟨rfl, rfl, rfl⟩) fun i => by rw [(hi.sess i).2]

theorem Ordered.quiet (h : Ordered s) (hq : SysQuiet s s') : Ordered s' := by
  obtain ⟨hconns, out, outside, hctx⟩ := hq
  exact h.keep (by rw [hctx]) fun c => by rw [hconns]

theorem Ordered.submitted {priv : Operand} (h : Ordered s)
    (hs : handleSubmittedPka priv s = .ok s') : Ordered s' := by
  rcases handleSubmittedPka_cases hs with rfl | ⟨o, ring, d, -, -, -, -, hconns, hctx⟩
  · exact h
  · exact h.keep (by rw [hctx]; rfl) (setConn_sess (R := fun e e' => e'.recvQ = e.recvQ) (fun _ => rfl) hconns
      fun _ => rfl)

theorem Ordered.completes {o : OpId} {results : List Bytes} (h : Ordered s)
    (hs : handleCompletedPka o results s = .ok s') : Ordered s' := by
  rcases handleCompletedPka_cases hs with rfl | ⟨d, -, -, ⟨-, hconns, hctx⟩ | ⟨-, -, hconns, hctx⟩⟩
  · exact h
  all_goals exact h.keep (by rw [hctx]) (setConn_sess (R := fun e e' => e'.recvQ = e.recvQ) (fun _ => rfl) hconns
    fun _ => rfl)

theorem Tidy.put {t : St} (h : Tidy ⟨s.conns c, s.ctx⟩ t) (hs : OpFacts s ∧ Ordered s) :
    OpFacts (s.put c t) ∧ Ordered (s.put c t) :=
  (Carries.put (fun h => h.1.ids) h).keeps (fun _ _ => trivial) hs

theorem step_ordered (hcalm : x.Calm s) (h : step env x s = .ok s') (hs : OpFacts s ∧ Ordered s) :
    OpFacts s' ∧ Ordered s' := by
  cases step_outcome h with
  | quiet hq => exact ⟨hs.1.quiet hq, hs.2.quiet hq⟩
  | @acts port p c t hx hfound ha =>
    subst hx
    simp only [Input.Calm, Packet.FindsReady, hfound] at hcalm
    by_cases hp : p.payload = []
    · exact Tidy.put (moveRule_tidy.acts (fun s f _ => mapTcp_tidy s f) (fun hne => absurd hp hne) ha) hs
    · have hrule : MoveRule fun s s' => RecordReady s → RecordReady s' ∧ Tidy s s' :=
        { refl := fun s hr => ⟨hr, .refl s⟩
          trans := fun h1 h2 hr => by
            obtain ⟨hb, h1⟩ := h1 hr
            obtain ⟨hc, h2⟩ := h2 hb
            exact ⟨hc, h1.trans h2⟩
          tcp := fun s f _ hr => ⟨hr, mapTcp_tidy s f⟩
          emits := fun s x hr => ⟨hr, moveRule_tidy.emits s x⟩
          frame := fun s s' hf hr => ⟨hf.settles.ready hr, moveRule_tidy.frame s s' hf⟩ }
      exact Tidy.put (hrule.acts (fun s f _ hr => ⟨hr, mapTcp_tidy s f⟩)
        (fun _ _ _ _ _ _ hr => tidy_round hr) ha (hcalm hp)).2 hs
  | @serves c t hx _ hserve =>
    subst hx
    exact Tidy.put ((serveRule_tidy env).serve (fun _ hr => tidy_sessionRead hr hcalm) hserve) hs
  | inserts hi hq => exact ⟨(hs.1.inserted hi).quiet hq, (hs.2.inserted hi).quiet hq⟩
  | replaces _ hr hq hi =>
    have hput := Tidy.put (outcomeRule_tidy.removed _ _ (removeSession_removed hr)).1 hs
    exact ⟨(hput.1.quiet hq).inserted hi, (hput.2.quiet hq).inserted hi⟩
  | submits hsub => exact ⟨hs.1.submitted hsub, hs.2.submitted hsub⟩
  | completes hcomp => exact ⟨hs.1.completes hcomp, hs.2.completes hcomp⟩

end

/-- In a run in which records come and are taken up in calm states, `process_read_record` is called on
the records of a session in the order in which they were completed, never with one of them still in
`recv_q` or an operation of the session outstanding. -/
theorem records_read_in_order (env : Env) (n ringCnt : Nat) (inputs : List Input) (s : Sys)
    (hcalm : Along (step env) Input.Calm inputs (initial n ringCnt))
    (hrun : run (step env) inputs (initial n ringCnt) = .ok s) :
    InOrder s.ctx.trace
      ∧ (∀ c, completedOf c s.ctx.trace = readOf c s.ctx.trace ++ (s.conns c).sess.recvQ)
      ∧ ∀ c o, (s.ctx.ops o).sess = some c ↔ (s.conns c).sess.pendingPkaOp = some o := by
  have hinit : Ordered (initial n ringCnt) :=
    ⟨fun _ => rfl, fun _ _ _ _ _ h => absurd (List.suffix_nil.mp h) (List.cons_ne_nil _ _)⟩
  obtain ⟨hops, hord⟩ : OpFacts s ∧ Ordered s :=
    run_along (fun _ _ _ hc hs => step_ordered hc hs) inputs _ s hcalm hrun
      ⟨initial_opFacts n ringCnt, hinit⟩
  refine ⟨hord.log, hord.fifo, fun c o => ?_⟩
  have howner := (hops.conn c).owner o
  rwa [hops.ids c] at howner

theorem records_read_in_order_handshake :
    ∃ s, run (step sampleEnv) sampleHandshake (initial 2 8) = .ok s
      ∧ (readOf 0 s.ctx.trace).length = 3 ∧ InOrder s.ctx.trace := by
  obtain ⟨s, hs, hlen⟩ := endsIn_ok (fun s : Sys => (readOf 0 s.ctx.trace).length = 3)
    (run (step sampleEnv) sampleHandshake (initial 2 8)) (by decide +kernel)
  exact ⟨s, hs, hlen, (records_read_in_order sampleEnv 2 8 _ s (by decide +kernel) hs).1⟩

/- A ChangeCipherSpec is queued during the key generation; a second one comes when its result has been
served and the shared secret is being computed. -/
def sampleOvertaking : List Input :=
  sampleServerFlight.take 2 ++ [.packet 0 (sampleSegment 211 5 sampleCipherSpec sampleCipherSpec_lt)] ++
    (sampleServerFlight.drop 2).take 3 ++
    [.packet 0 (sampleSegment 217 5 sampleCipherSpec sampleCipherSpec_lt)]

def lastOvertakes : List Event → Bool
  | .read conn r _ _ :: _ =>
    conn.sess.pendingPkaOp.isSome ∧ ∃ q ∈ conn.sess.recvQ, q.id < r.id
  | _ => false

/-- The second record is read while the first is in `recv_q` and an operation is outstanding. -/
theorem secondRecord_overtakes :
    ∃ s conn r rest room t, run (step sampleEnv) sampleOvertaking (initial 2 8) = .ok s
      ∧ s.ctx.trace = .read conn r rest room :: t ∧ conn.sess.pendingPkaOp.isSome = true
      ∧ (∃ q ∈ conn.sess.recvQ, q.id < r.id) ∧ ¬ InOrder s.ctx.trace := by
  obtain ⟨s, hs, hlast⟩ := endsIn_ok (fun s : Sys => lastOvertakes s.ctx.trace = true)
    (run (step sampleEnv) sampleOvertaking (initial 2 8)) (by decide +kernel)
  unfold lastOvertakes at hlast
  split at hlast
  · rename_i conn r rest room t ht
    obtain ⟨hpend, hq⟩ := of_decide_eq_true hlast
    refine ⟨s, conn, r, rest, room, t, hs, ht, hpend, hq, fun hord => ?_⟩
    rw [(hord conn r rest room t (ht ▸ List.suffix_refl _)).1] at hpend
    cases hpend
  · cases hlast

end Xtls.Nic
