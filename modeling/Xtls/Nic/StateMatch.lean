import Xtls.Nic.CoresSound

/-!
# The handler called is the one for the result

`get_processed_crypto` (`ssl.c` 1437-1557) chooses the handler of a result by `handshake_state` alone.
The state is moved on by results and by client records; it belongs to the operation that is
outstanding as long as no record moves it while an operation is pending.
-/

namespace Xtls.Nic

/-- The `handshake_state` in which `get_processed_crypto` handles the result of an operation. -/
def Opcode.answeredIn : Opcode → Option HandshakeType
  | .ecdheKeyGeneration => some .helloRequest
  | .ecdheSharedSecretCalc => some .serverHello
  | .ecdsaSignature => some .certificate
  | _ => none

/-- The worker has handled the result of session `c` and not yet cleared `completed_crypto`. -/
def Worker.past : Worker → ConnId → Bool
  | .submitting q back, c => back.isSome ∧ q.sess = c
  | w, c => w.within c

/- A request of session `c` is queued and `pending_pka_op` not yet set. -/
def Worker.settling : Worker → ConnId → Bool
  | .enqueued q _, c | .waiting q _, c | .flagged q _, c => q.sess = c
  | _, _ => false

/- The worker is about to handle the result of session `c`, or to clear the session. -/
def Worker.taking : Worker → ConnId → Bool
  | .answering d _, c | .clearing d, c => d = c
  | _, _ => false

/-- The session waits in the state in which its outstanding operation is to be answered, and knows
the operation as pending. -/
structure MatchOn (held : List Request) (w : Worker) (e : CoreSession) (c : ConnId) : Prop where
  requests : ∀ q ∈ held, q.sess = c → q.opcode.answeredIn = some e.handshakeState
  result : w.past c = false → w ≠ .clearing c → e.completedCrypto = true →
    ∀ q, e.pkaOp = some q → q.opcode.answeredIn = some e.handshakeState
  pending : w.settling c = false → ∀ q ∈ held, q.sess = c → e.pendingPkaOp = some q.op
  delivered : w.settling c = false → w.past c = false → w.taking c = false →
    e.completedCrypto = true → ∀ q, e.pkaOp = some q → e.pendingPkaOp = some q.op
  signed : e.handshakeState = .certificate ∧ e.certSignatured = true
      ∨ e.handshakeState = .certificateVerify →
    (∀ q ∈ held, q.sess ≠ c) ∧ (w.past c = false → e.completedCrypto = false)
  unsigned : e.handshakeState = .helloRequest ∨ e.handshakeState = .serverHello →
    e.certSignatured = false

def WorkerMatch (s : Cores) : Prop :=
  match s.worker with
  | .submitting q _ => q.opcode.answeredIn = some (s.sess q.sess).handshakeState
    ∧ (s.sess q.sess).certSignatured = false
  | .enqueued q b | .waiting q b | .flagged q b =>
    (∀ x ∈ s.held, x.sess = q.sess → x = q)
    ∧ (b = none → (s.sess q.sess).completedCrypto = true → (s.sess q.sess).pkaOp = some q)
  | _ => True

structure MatchInv (s : Cores) : Prop where
  session : ∀ c, MatchOn s.held s.worker (s.sess c) c
  worker : WorkerMatch s

attribute [grind] Worker.past Worker.settling Worker.taking

section

variable {own : OpId → Owner} {s s' : Cores} {c : ConnId} {q : Request} {b : Option Request}

theorem Worker.past_on {w : Worker} (h : w.on ≠ some c) : w.past c = false := by
  unfold Worker.past
  split
  · simp_all [Worker.on]
  · exact Worker.within_on h

theorem Worker.within_past {w : Worker} (h : w.past c = false) : w.within c = false := by
  unfold Worker.past at h
  split at h
  · rfl
  · exact h

/- While the PKA core holds a request of a session, no result waits for the session. -/
theorem not_waiting (hinv : CoresInv own s) (hq : q ∈ s.held)
    (hc : (s.sess q.sess).completedCrypto = true) : s.worker.past q.sess = true := by
  by_contra hp
  obtain ⟨hn, -⟩ := (hinv.session q.sess).completed (Worker.within_past (by simpa using hp)) hc
  exact hn q.op q (held_sess hinv.custody hq).1 rfl

theorem Worker.settling_on {w : Worker} (h : w.on ≠ some c) : w.settling c = false := by
  unfold Worker.settling
  split <;> simp_all [Worker.on]

theorem Worker.taking_on {w : Worker} (h : w.on ≠ some c) : w.taking c = false := by
  unfold Worker.taking
  split <;> simp_all [Worker.on]

theorem MatchOn.elsewhere {held held' : List Request} {w w' : Worker} {e : CoreSession}
    (h : MatchOn held w e c) (hw : w.on ≠ some c) (hheld : ∀ q ∈ held', q.sess = c → q ∈ held) :
    MatchOn held' w' e c := by
  have h1 := Worker.past_on hw
  have h2 := Worker.settling_on hw
  have h3 := Worker.taking_on hw
  have h4 : w ≠ .clearing c := by rintro rfl; exact hw rfl
  obtain ⟨m1, m2, m3, m4, m5, m6⟩ := h
  constructor <;> grind

theorem MatchOn.fewer {held held' : List Request} {w : Worker} {e : CoreSession}
    (h : MatchOn held w e c) (hheld : ∀ q ∈ held', q ∈ held) : MatchOn held' w e c := by
  obtain ⟨m1, m2, m3, m4, m5, m6⟩ := h
  constructor <;> grind

theorem MatchInv.worksOn (h : MatchInv s) (hon : WorksOn c s s')
    (hheld : ∀ q ∈ s'.held, q.sess ≠ c → q ∈ s.held)
    (hsess : MatchOn s'.held s'.worker (s'.sess c) c) (hworker : WorkerMatch s') : MatchInv s' where
  session i := by
    by_cases hi : i = c
    · exact hi ▸ hsess
    · have hne : s.worker.on ≠ some i := by
        rcases hon.before with hw | hw <;> rw [hw]
        · exact nofun
        · exact fun he => hi (Option.some.inj he).symm
      rw [hon.sess i hi]
      exact (h.session i).elsewhere hne fun q hq hqi => hheld q hq (hqi ▸ hi)
  worker := hworker

theorem write_match (h : MatchInv s) (hon : s.worker.on = none ∨ s.worker.on = some c)
    (f : CoreSession → CoreSession) (hop : (f (s.sess c)).pkaOp = (s.sess c).pkaOp)
    (hs' : s' = { s.setSess c f with worker := s'.worker, trace := s'.trace })
    (hsess : MatchOn s.held s'.worker (f (s.sess c)) c) (hworker : WorkerMatch s') : MatchInv s' := by
  have hsame : s'.sess c = f (s.sess c) := by rw [hs']; simp [Cores.setSess]
  have hheld : s'.held = s.held := by rw [hs']; rfl
  refine h.worksOn (c := c) ⟨hon, fun i hi => ?_, ?_, ?_, ?_⟩ (fun q hq _ => hheld ▸ hq) ?_ hworker
  · rw [hs']; simp [Cores.setSess, hi]
  · rw [hsame]; exact hop
  · rw [hs']; rfl
  · rw [hs']; rfl
  · rw [hsame, hheld]; exact hsess

/-! ### Submission -/

theorem take_match {opcode : Opcode} {r : Bool} (h : MatchInv s)
    (hon : s.worker.on = none ∨ s.worker.on = some c)
    (hsess : ∀ o t, MatchOn s.held (.submitting ⟨o, opcode, c, t⟩ b) (s.sess c) c)
    (hop : opcode.answeredIn = some (s.sess c).handshakeState ∧ (s.sess c).certSignatured = false)
    (ht : s.take c opcode r b = .ok s') : MatchInv s' := by
  unfold Cores.take at ht
  split at ht <;> cases ht
  exact h.worksOn (c := c) ⟨hon, fun _ _ => rfl, rfl, rfl, rfl⟩ (fun _ hq _ => hq) (hsess _ _) hop

theorem mem_held_queued {x : Request} :
    x ∈ s.ring ++ [q] ++ s.engine ++ s.pka.hand ↔ x ∈ s.held ∨ x = q := by
  simp only [Cores.held, List.mem_append, List.mem_singleton]
  tauto

theorem submit_match (h : MatchInv s) (hinv : CoresInv own s) (hw : s.worker = .submitting q b) :
    MatchInv (s.submit q b) := by
  have hwork := hinv.worker
  have hwm := h.worker
  simp only [WorkerInv, hw] at hwork
  simp only [WorkerMatch, hw] at hwm
  obtain ⟨-, -, hr⟩ := hwork
  obtain ⟨m1, m2, m3, m4, m5, m6⟩ := h.session q.sess
  have hon : s.worker.on = none ∨ s.worker.on = some q.sess := .inr (by rw [hw]; rfl)
  have hnone : ∀ x ∈ s.held, x.sess ≠ q.sess := fun x hx =>
    hr.none x.op x (held_sess hinv.custody hx).1
  unfold Cores.submit
  split
  · refine h.worksOn (c := q.sess) ⟨hon, fun _ _ => rfl, rfl, rfl, rfl⟩ (fun _ hx _ => hx) ?_ ?_
    · show MatchOn s.held (Cores.resume q.sess b) (s.sess q.sess) q.sess
      rcases b with _ | x <;> constructor <;> grind [Cores.resume]
    · rcases b with _ | x <;> trivial
  · have hheld := fun x => mem_held_queued (s := s) (q := q) (x := x)
    refine h.worksOn (c := q.sess) ⟨hon, fun _ _ => rfl, rfl, rfl, rfl⟩ (fun x hx hne => ?_) ?_ ?_
    · exact ((hheld x).mp hx).resolve_right fun he => hne (he ▸ rfl)
    · show MatchOn (s.ring ++ [q] ++ s.engine ++ s.pka.hand) (.enqueued q b) (s.sess q.sess) q.sess
      have hidle := hr.idle
      have hsub : q.opcode.answeredIn ≠ some .certificateVerify := by cases q.opcode <;> decide
      rcases b with _ | x <;> constructor <;> grind
    · refine ⟨fun x hx hxs => ?_, fun hb hc => ?_⟩
      · exact ((hheld x).mp hx).resolve_left fun hm => hnone x hm hxs
      · rw [show (s.sess q.sess).completedCrypto = false from hr.idle hb] at hc
        cases hc

theorem enqueued_match (h : MatchInv s) (hw : s.worker = .enqueued q b) :
    MatchInv { s.setSess q.sess fun e => { e with waitingCrypto := true } with
      worker := .waiting q b } := by
  have hwm := h.worker
  simp only [WorkerMatch, hw] at hwm
  obtain ⟨m1, m2, m3, m4, m5, m6⟩ := h.session q.sess
  refine write_match h (.inr (by rw [hw]; rfl)) _ rfl rfl ?_ ?_
  · constructor <;> grind
  · exact ⟨hwm.1, by simpa [Cores.setSess] using hwm.2⟩

theorem waiting_match (h : MatchInv s) (hw : s.worker = .waiting q b) :
    MatchInv { s.setOp q.op fun v => { v with pkaFlag := true } with worker := .flagged q b } := by
  have hwm := h.worker
  simp only [WorkerMatch, hw] at hwm
  obtain ⟨m1, m2, m3, m4, m5, m6⟩ := h.session q.sess
  refine h.worksOn (c := q.sess) ⟨.inr (by rw [hw]; rfl), fun _ _ => rfl, rfl, rfl, rfl⟩
    (fun _ hx _ => hx) ?_ hwm
  show MatchOn s.held (.flagged q b) (s.sess q.sess) q.sess
  constructor <;> grind

theorem flagged_match (h : MatchInv s) (hw : s.worker = .flagged q b) :
    MatchInv { s.setSess q.sess fun e => { e with pendingPkaOp := some q.op } with
      worker := Cores.resume q.sess b } := by
  have hwm := h.worker
  simp only [WorkerMatch, hw] at hwm
  obtain ⟨m1, m2, m3, m4, m5, m6⟩ := h.session q.sess
  refine write_match h (.inr (by rw [hw]; rfl)) _ rfl rfl ?_ ?_
  · rcases b with _ | x <;> constructor <;> grind [Cores.resume]
  · rcases b with _ | x <;> trivial

theorem hello_match (h : MatchInv s) (hw : s.worker = .idle) (hs' : s.hello c = .ok s') :
    MatchInv s' := by
  unfold Cores.hello at hs'
  split at hs'
  · rename_i hc
    obtain ⟨m1, m2, m3, m4, m5, m6⟩ := h.session c
    refine take_match h (.inl (by rw [hw]; rfl)) (fun o t => ?_) ⟨by rw [hc.2]; rfl, m6 (.inl hc.2)⟩ hs'
    constructor <;> grind
  · cases hs'
    exact h

/-! ### Results -/

theorem fetching_match (h : MatchInv s) (hw : s.worker = .fetching c) :
    MatchInv { s with worker := .handling c q } := by
  obtain ⟨m1, m2, m3, m4, m5, m6⟩ := h.session c
  refine write_match (c := c) h (.inr (by rw [hw]; rfl)) (fun e => e) rfl (by simp [Cores.setSess]) ?_
    trivial
  constructor <;> grind

theorem handling_match (h : MatchInv s) (hinv : CoresInv own s) (hw : s.worker = .handling c q) :
    MatchInv { s.setSess c fun e => { e with pendingPkaOp := none } with
      worker := .answering c q } := by
  have hwork := hinv.worker
  simp only [WorkerInv, hw] at hwork
  obtain ⟨hnone, -⟩ := (hinv.session c).completed (by rw [hw]; rfl) hwork.1
  have hheld : ∀ x ∈ s.held, x.sess ≠ c := fun x hx => hnone x.op x (held_sess hinv.custody hx).1
  obtain ⟨m1, m2, m3, m4, m5, m6⟩ := h.session c
  refine write_match h (.inr (by rw [hw]; rfl)) _ rfl rfl ?_ trivial
  constructor <;> grind

theorem answer_match (h : MatchInv s) (hinv : CoresInv own s) (hw : s.worker = .answering c q)
    (hs' : s.answer c q = .ok s') : MatchInv s' := by
  have hwork := hinv.worker
  simp only [WorkerInv, hw] at hwork
  obtain ⟨w1, w2, w3⟩ := hwork
  obtain ⟨hnone, -⟩ := (hinv.session c).completed (by rw [hw]; rfl) w1
  have hheld : ∀ x ∈ s.held, x.sess ≠ c := fun x hx => hnone x.op x (held_sess hinv.custody hx).1
  obtain ⟨m1, m2, m3, m4, m5, m6⟩ := h.session c
  have hon : s.worker.on = none ∨ s.worker.on = some c := .inr (by rw [hw]; rfl)
  unfold Cores.answer at hs'
  split at hs' <;> rename_i hh
  · split at hs'
    · unfold Cores.take at hs'
      split at hs' <;> cases hs'
      refine h.worksOn (c := c) ⟨hon, fun i hi => ?_, ?_, rfl, rfl⟩ (fun _ hx _ => hx) ?_ ?_
      · simp [Cores.allocated, Cores.setOp, Cores.record, Cores.setSess, hi]
      · simp [Cores.allocated, Cores.setOp, Cores.record, Cores.setSess]
      · simp only [Cores.allocated, Cores.setOp, Cores.record, Cores.setSess, if_true]
        show MatchOn s.held _ _ c
        constructor <;> grind
      · simp [WorkerMatch, Cores.allocated, Cores.setOp, Cores.record, Cores.setSess,
          Opcode.answeredIn, m6 (.inl hh)]
    · cases hs'
  · cases hs'
    refine write_match h hon (fun e => { e with handshakeKeyCalculated := true }) rfl rfl ?_ trivial
    constructor <;> grind
  · cases hs'
    refine write_match h hon (fun e => { e with certSignatured := true }) rfl rfl ?_ trivial
    constructor <;> grind
  · cases hs'

theorem handled_match (h : MatchInv s) (hw : s.worker = .handled c q) :
    MatchInv { s.setSess c fun e => { e with waitingCrypto := false } with
      worker := .unwaited c q } := by
  obtain ⟨m1, m2, m3, m4, m5, m6⟩ := h.session c
  refine write_match h (.inr (by rw [hw]; rfl)) _ rfl rfl ?_ trivial
  constructor <;> grind

theorem unwaited_match (h : MatchInv s) (hw : s.worker = .unwaited c q) :
    MatchInv { s.setSess c fun e => { e with completedCrypto := false } with
      worker := .releasing c q } := by
  obtain ⟨m1, m2, m3, m4, m5, m6⟩ := h.session c
  refine write_match h (.inr (by rw [hw]; rfl)) _ rfl rfl ?_ trivial
  constructor <;> grind

theorem release_match (h : MatchInv s)
    (hw : (∃ q, s.worker = .releasing c q) ∨ s.worker = .detaching c ∨ ∃ o, s.worker = .rotting c o)
    (hs' : s' = { s with ops := s'.ops, pool := s'.pool, worker := s'.worker })
    (hworker : WorkerMatch s') : MatchInv s' := by
  have hsess : s'.sess = s.sess := by rw [hs']
  have hheld : s'.held = s.held := by rw [hs']; rfl
  have hon : s.worker.on = some c := by
    rcases hw with ⟨q, hw⟩ | hw | ⟨o, hw⟩ <;> rw [hw] <;> rfl
  refine h.worksOn (c := c) ⟨.inr hon, fun _ _ => by rw [hsess], by rw [hsess], ?_, ?_⟩
    (fun _ hx _ => hheld ▸ hx) ?_ hworker
  · rw [hs']
  · rw [hs']
  · have hplain : s.worker.past c = false ∧ s.worker.settling c = false
        ∧ s.worker.taking c = false ∧ s.worker ≠ .clearing c := by
      rcases hw with ⟨q, hw⟩ | hw | ⟨o, hw⟩ <;> rw [hw] <;> exact ⟨rfl, rfl, rfl, nofun⟩
    obtain ⟨p1, p2, p3, p4⟩ := hplain
    obtain ⟨m1, m2, m3, m4, m5, m6⟩ := h.session c
    rw [hsess, hheld]
    exact ⟨m1, fun _ _ => m2 p1 p4, fun _ => m3 p2, fun _ _ _ => m4 p2 p1 p3,
      fun hs => ⟨(m5 hs).1, fun _ => (m5 hs).2 p1⟩, m6⟩

/-! ### The rest of the handshake -/

theorem move_match {t : HandshakeType} {tr : List CoreEvent} (h : MatchInv s)
    (hw : s.worker = .idle) (hheld : ∀ q ∈ s.held, q.sess ≠ c)
    (hc : (s.sess c).completedCrypto = false) (ht : t ≠ .helloRequest ∧ t ≠ .serverHello) :
    MatchInv { s.setSess c fun e => { e with handshakeState := t } with trace := tr } := by
  obtain ⟨m1, m2, m3, m4, m5, m6⟩ := h.session c
  refine write_match h (.inl (by rw [hw]; rfl)) (fun e => { e with handshakeState := t }) rfl rfl ?_ ?_
  · constructor <;> grind
  · simp [WorkerMatch, Cores.setSess, hw]

theorem advance_match {t : HandshakeType} (h : MatchInv s) (hinv : CoresInv own s)
    (hw : s.worker = .idle) (ht : t ≠ .helloRequest ∧ t ≠ .serverHello)
    (hp : (s.sess c).pendingPkaOp = none) : MatchInv (s.advance c t) := by
  obtain ⟨m1, m2, m3, m4, m5, m6⟩ := h.session c
  refine move_match h hw (fun q hq hqc => ?_) ?_ ht
  · have := m3 (by rw [hw]; rfl) q hq hqc
    rw [hp] at this
    cases this
  · by_contra hc
    have hc : (s.sess c).completedCrypto = true := by simpa using hc
    obtain ⟨-, q, hq, -⟩ := (hinv.session c).completed (by rw [hw]; rfl) hc
    have := m4 (by rw [hw]; rfl) (by rw [hw]; rfl) (by rw [hw]; rfl) hc q hq
    rw [hp] at this
    cases this

theorem sendRemain_match (h : MatchInv s) (hinv : CoresInv own s) (hw : s.worker = .idle)
    (hs' : s.sendRemain c = .ok s') : MatchInv s' := by
  have hsession := h.session c
  have hpast : s.worker.past c = false := by rw [hw]; rfl
  unfold Cores.sendRemain at hs'
  dsimp only at hs'
  split at hs'
  · rename_i hc
    obtain ⟨hnone, hcomp⟩ := (hinv.session c).keyed hc.1 hc.2
    have hheld : ∀ x ∈ s.held, x.sess ≠ c := fun x hx => hnone x.op x (held_sess hinv.custody hx).1
    have hcomp := hcomp (by rw [hw]; rfl)
    have hmove : MatchInv (s.setSess c fun e => { e with handshakeState := .certificate }) :=
      move_match h hw hheld hcomp (by decide)
    obtain ⟨m1, m2, m3, m4, m5, m6⟩ := hmove.session c
    have hunsigned := hsession.unsigned (.inr hc.1)
    refine take_match hmove (.inl (by rw [Cores.setSess_worker, hw]; rfl)) (fun o t => ?_) ?_ hs'
    · simp only [Cores.setSess_self, Cores.setSess_held, Cores.setSess_worker] at *
      constructor <;> grind
    · simpa [Opcode.answeredIn] using hunsigned
  · split at hs'
    · rename_i hc
      cases hs'
      obtain ⟨hheld, hcomp⟩ := hsession.signed (.inl hc)
      exact move_match h hw hheld (hcomp hpast) (by decide)
    · split at hs' <;> cases hs'
      · rename_i hc
        obtain ⟨hheld, hcomp⟩ := hsession.signed (.inr hc)
        exact move_match h hw hheld (hcomp hpast) (by decide)
      · exact h

/-! ### Removal -/

theorem remove_match (h : MatchInv s) (hw : s.worker = .idle)
    (hheld : s.held.filter (·.sess = c) = []) : MatchInv (s.remove c) := by
  obtain ⟨m1, m2, m3, m4, m5, m6⟩ := h.session c
  have hnone : ∀ x ∈ s.held, x.sess ≠ c := fun x hx hc =>
    List.filter_eq_nil_iff.mp hheld x hx (by simpa using hc)
  refine write_match h (.inl (by rw [hw]; rfl)) (fun e =>
      { e with
        handshakeState := .helloRequest, handshakeKeyCalculated := false, certSignatured := false
        waitingCrypto := false }) rfl rfl ?_ trivial
  show MatchOn s.held (.clearing c) _ c
  constructor <;> grind

theorem clearing_match (h : MatchInv s) (hw : s.worker = .clearing c) :
    MatchInv { s.setSess c fun e => { e with completedCrypto := false } with
      worker := .detaching c } := by
  obtain ⟨m1, m2, m3, m4, m5, m6⟩ := h.session c
  refine write_match h (.inr (by rw [hw]; rfl)) _ rfl rfl ?_ trivial
  constructor <;> grind

theorem detached_match (h : MatchInv s) (hinv : CoresInv own s) (hw : s.worker = .detached c) :
    MatchInv { s.setSess c fun e => { e with pendingPkaOp := none } with worker := .idle } := by
  have hwork := hinv.worker
  simp only [WorkerInv, hw] at hwork
  have hheld : ∀ x ∈ s.held, x.sess ≠ c := fun x hx => hwork.1 x.op x (held_sess hinv.custody hx).1
  obtain ⟨m1, m2, m3, m4, m5, m6⟩ := h.session c
  refine write_match h (.inr (by rw [hw]; rfl)) _ rfl rfl ?_ trivial
  constructor <;> grind

theorem work_match (h : MatchInv s) (hinv : CoresInv own s) (hs' : s.work = .ok s') :
    MatchInv s' := by
  unfold Cores.work at hs'
  split at hs' <;> rename_i hw
  · cases hs'; exact h
  · cases hs'; exact submit_match h hinv hw
  · cases hs'; exact enqueued_match h hw
  · cases hs'; exact waiting_match h hw
  · cases hs'; exact flagged_match h hw
  · split at hs' <;> cases hs'
    exact fetching_match h hw
  · cases hs'; exact handling_match h hinv hw
  · exact answer_match h hinv hw hs'
  · cases hs'; exact handled_match h hw
  · cases hs'; exact unwaited_match h hw
  · cases hs'; exact release_match h (.inl ⟨_, hw⟩) rfl trivial
  · cases hs'; exact clearing_match h hw
  · split at hs' <;> cases hs' <;> exact release_match h (.inr (.inl hw)) rfl trivial
  · cases hs'; exact release_match h (.inr (.inr ⟨_, hw⟩)) rfl trivial
  · cases hs'; exact detached_match h hinv hw

/-! ### The PKA core -/

theorem MatchInv.pkaOn (h : MatchInv s) (hworker : s'.worker = s.worker)
    (hheld : ∀ x ∈ s'.held, x ∈ s.held) (hothers : ∀ i, i ≠ c → s'.sess i = s.sess i)
    (hsess : MatchOn s'.held s.worker (s'.sess c) c)
    (hstate : (s'.sess c).handshakeState = (s.sess c).handshakeState
      ∧ (s'.sess c).certSignatured = (s.sess c).certSignatured)
    (hdone : (s'.sess c).completedCrypto = true →
      (∃ x ∈ s.held, x.sess = c ∧ (s'.sess c).pkaOp = some x)
      ∨ ((s.sess c).completedCrypto = true ∧ (s'.sess c).pkaOp = (s.sess c).pkaOp)) :
    MatchInv s' where
  session i := by
    rw [hworker]
    by_cases hi : i = c
    · exact hi ▸ hsess
    · exact hothers i hi ▸ (h.session i).fewer hheld
  worker := by
    have hwm := h.worker
    unfold WorkerMatch at hwm ⊢
    rw [hworker]
    split
    · rename_i q b hw
      simp only [hw] at hwm
      by_cases hq : q.sess = c
      · rw [hq, hstate.1, hstate.2, ← hq]
        exact hwm
      · rw [hothers _ hq]
        exact hwm
    iterate 3
      rename_i q b hw
      simp only [hw] at hwm
      refine ⟨fun x hx => hwm.1 x (hheld x hx), fun hb hc => ?_⟩
      by_cases hq : q.sess = c
      · rw [hq] at hc hwm ⊢
        rcases hdone hc with ⟨x, hx, hxc, hop⟩ | ⟨hc, hop⟩
        · rw [hop, hwm.1 x hx hxc]
        · rw [hop]
          exact hwm.2 hb hc
      · rw [hothers _ hq] at hc ⊢
        exact hwm.2 hb hc
    · trivial

theorem carry_match (h : MatchInv s) (hsess : s'.sess = s.sess) (hworker : s'.worker = s.worker)
    (hheld : ∀ x ∈ s'.held, x ∈ s.held) : MatchInv s' :=
  h.pkaOn (c := 0) hworker hheld (fun _ _ => by rw [hsess]) (hsess ▸ (h.session 0).fewer hheld)
    (hsess ▸ ⟨rfl, rfl⟩) (hsess ▸ fun hc => .inr ⟨hc, rfl⟩)

theorem pending_match (h : MatchInv s) (hinv : CoresInv own s) (hp : s.pka = .flagged q)
    (hs : (s.ops q.op).sess = some c) :
    MatchInv { s.setSess c fun e => { e with pendingPkaOp := some q.op } with pka := .idle } := by
  have hpka := hinv.pka
  simp only [PkaInv, hp] at hpka
  have hmem : q ∈ s.held := by simp [Cores.held, hpka]
  obtain ⟨-, hsome⟩ := held_sess hinv.custody hmem
  obtain rfl : q.sess = c := Option.some.inj (hsome.symm.trans hs)
  have hwait := not_waiting hinv hmem
  have hheld : ({ s.setSess q.sess fun e => { e with pendingPkaOp := some q.op } with
      pka := .idle } : Cores).held = s.held := by simp [Cores.held, hp, PkaCore.hand, Cores.setSess]
  obtain ⟨m1, m2, m3, m4, m5, m6⟩ := h.session q.sess
  refine h.pkaOn (c := q.sess) rfl (fun x hx => hheld ▸ hx) (fun i hi => by simp [Cores.setSess, hi]) ?_
    (by simp [Cores.setSess]) (fun hc => .inr (by simpa [Cores.setSess] using hc))
  rw [hheld]
  simp only [Cores.setSess, if_true]
  constructor <;> grind

theorem returned_match (h : MatchInv s) (hinv : CoresInv own s) (hp : s.pka = .returned q)
    (hs : (s.ops q.op).sess = some c) :
    MatchInv { s.setSess c fun e => { e with pkaOp := some q } with pka := .delivering q c } := by
  have hmem : q ∈ s.held := by simp [Cores.held, hp, PkaCore.hand]
  obtain ⟨-, hsome⟩ := held_sess hinv.custody hmem
  obtain rfl : q.sess = c := Option.some.inj (hsome.symm.trans hs)
  have hwait := not_waiting hinv hmem
  have hheld : ({ s.setSess q.sess fun e => { e with pkaOp := some q } with
      pka := .delivering q q.sess } : Cores).held = s.held := by
    simp [Cores.held, hp, PkaCore.hand, Cores.setSess]
  obtain ⟨m1, m2, m3, m4, m5, m6⟩ := h.session q.sess
  refine h.pkaOn (c := q.sess) rfl (fun x hx => hheld ▸ hx) (fun i hi => by simp [Cores.setSess, hi]) ?_
    (by simp [Cores.setSess]) (fun hc => .inl ⟨q, hmem, rfl, by simp [Cores.setSess]⟩)
  rw [hheld]
  simp only [Cores.setSess, if_true]
  constructor <;> grind

theorem publish_match (h : MatchInv s) (hinv : CoresInv own s) (hp : s.pka = .copying q c) :
    MatchInv { (s.setSess c fun e => { e with completedCrypto := true }).record
      (.publish c q (s.worker.within c)) with pka := .idle } := by
  have hpka := hinv.pka
  simp only [PkaInv, hp] at hpka
  obtain ⟨rfl, hop⟩ := hpka
  have hmem : q ∈ s.held := by simp [Cores.held, hp, PkaCore.hand]
  have hsub : ∀ x, x ∈ s.ring ++ s.engine ++ [] → x ∈ s.held := fun x hx => by
    simp only [Cores.held, hp, List.append_nil, List.mem_append] at hx ⊢
    exact .inl hx
  obtain ⟨m1, m2, m3, m4, m5, m6⟩ := h.session q.sess
  refine h.pkaOn (c := q.sess) rfl hsub (fun i hi => by simp [Cores.setSess, Cores.record, hi]) ?_
    (by simp [Cores.setSess, Cores.record])
    (fun _ => .inl ⟨q, hmem, rfl, by simpa [Cores.setSess, Cores.record] using hop⟩)
  simp only [Cores.setSess, Cores.record, if_true]
  show MatchOn (s.ring ++ s.engine ++ []) _ _ _
  constructor <;> grind

theorem pkaStep_match (h : MatchInv s) (hinv : CoresInv own s) (hs' : s.pkaStep = .ok s') :
    MatchInv s' := by
  have hheld := pkaStep_held hs'
  unfold Cores.pkaStep at hs'
  split at hs' <;> rename_i hp
  · cases hs'; exact h
  · split at hs' <;> cases hs'
    exact carry_match h rfl rfl hheld
  · cases hs'
    exact carry_match h rfl rfl hheld
  · split at hs' <;> cases hs'
    rename_i hs
    exact pending_match h hinv hp hs
  · split at hs' <;> cases hs'
    rename_i hs
    exact returned_match h hinv hp hs
  · split at hs'
    · cases hs'
      exact carry_match h rfl rfl hheld
    · split at hs' <;> cases hs'
      exact carry_match h rfl rfl hheld
  · cases hs'
    exact publish_match h hinv hp

/-! ### Schedules -/

/-- No record moves `handshake_state` while an operation of the session is pending, and no session is
removed while the PKA core holds a request of it. -/
def CoreEvent.Settled : CoreEvent → Prop
  | .record _ pending => pending = none
  | .remove _ held => held = []
  | _ => True

instance : DecidablePred CoreEvent.Settled
  | .record _ pending => inferInstanceAs (Decidable (pending = none))
  | .remove _ held => inferInstanceAs (Decidable (held = []))
  | .publish .. | .consume .. => .isTrue trivial

theorem act_match {a : Action} (h : MatchInv s) (hinv : CoresInv own s) (hs' : s.act a = .ok s')
    (hgood : ∀ e ∈ s'.trace, e.Settled) : MatchInv s' := by
  cases a with
  | work => exact work_match h hinv hs'
  | pka => exact pkaStep_match h hinv hs'
  | cipher pool used =>
    cases hs'
    split
    · exact carry_match h rfl rfl fun _ hx => hx
    · exact h
  | dequeue =>
    have hheld := dequeue_held hs'
    simp only [Cores.act] at hs'
    split at hs' <;> cases hs'
    · exact carry_match h rfl rfl hheld
    · exact h
  | fetch i =>
    have hheld := fetch_held hs'
    simp only [Cores.act] at hs'
    split at hs' <;> cases hs'
    · exact carry_match h rfl rfl hheld
    · exact h
  | hello c =>
    simp only [Cores.act] at hs'
    split at hs'
    · rename_i hw
      exact hello_match h hw hs'
    · cases hs'; exact h
  | sendRemain c =>
    simp only [Cores.act] at hs'
    split at hs'
    · rename_i hw
      exact sendRemain_match h hinv hw hs'
    · cases hs'; exact h
  | changeCipherSpec c =>
    cases hs'
    split at hgood <;> rename_i hw
    · simp only [hw, if_true]
      unfold Cores.changeCipherSpec at hgood ⊢
      dsimp only at hgood ⊢
      split at hgood <;> rename_i hc
      · simpa only [hc, if_true] using h
      · simp only [hc, if_false]
        exact advance_match h hinv hw (by decide) (hgood _ List.mem_cons_self)
    · simpa only [hw, if_false] using h
  | finished c =>
    cases hs'
    split at hgood <;> rename_i hw
    · simp only [hw, if_true]
      unfold Cores.finished at hgood ⊢
      split at hgood <;> rename_i hc
      · simpa only [hc, if_true] using h
      · simp only [hc, if_false]
        exact advance_match h hinv hw (by decide) (hgood _ List.mem_cons_self)
    · simpa only [hw, if_false] using h
  | serve c =>
    cases hs'
    split
    · rename_i hc
      refine write_match (c := c) h (.inl (by rw [hc.1]; rfl)) (fun e => e) rfl
        (by simp [Cores.setSess]) ?_ trivial
      exact (h.session c).elsewhere (by rw [hc.1]; simp [Worker.on]) fun _ hq _ => hq
    · exact h
  | remove c =>
    simp only [Cores.act] at hs'
    split at hs' <;> cases hs'
    · rename_i hw
      exact remove_match h hw (hgood _ List.mem_cons_self)
    · exact h

/-- `handshake_state` is the one in which the operation behind `sess->pka_op` is answered. -/
def Cores.Matches (s : Cores) (c : ConnId) : Prop :=
  ∃ q, (s.sess c).pkaOp = some q ∧ (s.ops q.op).sess = some c
    ∧ (s.ops q.op).opcode.answeredIn = some (s.sess c).handshakeState

/- The worker runs `get_processed_crypto` for session `c` and has not yet looked at the state. -/
def Worker.serving (w : Worker) (c : ConnId) : Prop :=
  w = .fetching c ∨ (∃ q, w = .handling c q) ∨ ∃ q, w = .answering c q

structure MatchedInv (s : Cores) : Prop where
  inv : ∃ own, CoresInv own s
  matched : MatchInv s

theorem act_matched (a : Action) (s s' : Cores) (h : s.act a = .ok s') :
    Keeps Cores.trace CoreEvent.Settled MatchedInv s s' := by
  refine ⟨act_grows h, fun hg hs => ?_⟩
  obtain ⟨⟨own, hinv⟩, hm⟩ := hs
  exact ⟨act_inv hinv h fun c held hr => hg _ hr, act_match hm hinv h hg⟩

theorem initial_matchedInv (n ringCnt : Nat) : MatchedInv (Cores.initial n ringCnt) where
  inv := (initial_soundInv n ringCnt).inv
  matched := ⟨fun _ => ⟨nofun, nofun, nofun, nofun, nofun, fun _ => rfl⟩, trivial⟩

theorem run_matched {n ringCnt : Nat} {actions : List Action}
    (hrun : run Cores.act actions (Cores.initial n ringCnt) = .ok s)
    (hsettled : ∀ e ∈ s.trace, e.Settled) : MatchedInv s :=
  (run_keeps act_matched actions _ s hrun).keeps hsettled (initial_matchedInv n ringCnt)

theorem MatchedInv.matches (h : MatchedInv s) (hpast : s.worker.past c = false)
    (hcl : s.worker ≠ .clearing c) (hc : (s.sess c).completedCrypto = true) : s.Matches c := by
  obtain ⟨own, hinv⟩ := h.inv
  obtain ⟨-, q, hq, hdone, rfl⟩ := (hinv.session c).completed (Worker.within_past hpast) hc
  obtain ⟨-, hop, hsess, -⟩ := hinv.custody.owned q.op q (.inr hdone)
  exact ⟨q, hq, hsess, hop ▸ (h.matched.session q.sess).result hpast hcl hc q hq⟩

theorem MatchedInv.serving (h : MatchedInv s) (hw : s.worker.serving c) : s.Matches c := by
  obtain ⟨own, hinv⟩ := h.inv
  have hwork := hinv.worker
  rcases hw with hw | ⟨q, hw⟩ | ⟨q, hw⟩ <;> simp only [WorkerInv, hw] at hwork
  · exact h.matches (by rw [hw]; rfl) (by rw [hw]; simp) hwork
  · exact h.matches (by rw [hw]; rfl) (by rw [hw]; simp) hwork.1
  · exact h.matches (by rw [hw]; rfl) (by rw [hw]; simp) hwork.1

theorem answeredIn_cases {o : Opcode} {t : HandshakeType} (h : o.answeredIn = some t) :
    t = .helloRequest ∨ t = .serverHello ∨ t = .certificate := by
  cases o <;> cases h
  · exact .inl rfl
  · exact .inr (.inl rfl)
  · exact .inr (.inr rfl)

theorem MatchedInv.supported (h : MatchedInv s) (a : Action) :
    s.act a ≠ .error .unsupportedPkaState := by
  intro he
  cases act_stops he with
  | @state _ q hw hs =>
    obtain ⟨x, -, -, hx⟩ := h.serving (.inr (.inr ⟨q, hw⟩))
    rcases answeredIn_cases hx with hx | hx | hx
    · exact hs.1 hx
    · exact hs.2.1 hx
    · exact hs.2.2 hx

end

end Xtls.Nic
