import Xtls.Nic.Cores

/-!
# Functions of the two cores run to their end

A core that is not interrupted takes a function of `Xtls.Nic.Cores` from its first step to its last.
The lemmas give the state it leaves behind.
-/

namespace Xtls.Nic.Cores

section

variable {s : Cores} {c : ConnId} {q : Request} {b : Option Request} {o : OpId}

/- `submit_pka_request` with its caller, when the ring has room. -/
def queued (q : Request) (b : Option Request) (s : Cores) : Cores :=
  let s := ({ s with ring := s.ring ++ [q] } : Cores).setSess q.sess fun e =>
    { e with waitingCrypto := true }
  { (s.setOp q.op fun v => { v with pkaFlag := true }).setSess q.sess fun e =>
      { e with pendingPkaOp := some q.op } with
    worker := resume q.sess b }

theorem queued_reaches (hw : s.worker = .submitting q b)
    (hroom : ¬ s.ringCnt ≤ s.ring.length + 1) : Reaches act s (s.queued q b) := by
  have h1 : s.act .work = .ok { s with ring := s.ring ++ [q], worker := .enqueued q b } := by
    simp only [act, work, hw, submit, hroom, if_false]
  exact .head h1 ⟨[.work, .work, .work], rfl⟩

theorem rejected_reaches (hw : s.worker = .submitting q b)
    (hfull : s.ringCnt ≤ s.ring.length + 1) :
    Reaches act s { s.deleteOp q.op with worker := resume q.sess b } := by
  refine .one (e := .work) ?_
  simp only [act, work, hw, submit, hfull, if_true]

/- `get_processed_crypto` up to the choice of the handler. -/
def asking (c : ConnId) (q : Request) (s : Cores) : Cores :=
  { s.setSess c fun e => { e with pendingPkaOp := none } with worker := .answering c q }

theorem asking_reaches (hw : s.worker = .idle) (hc : (s.sess c).completedCrypto = true)
    (hq : (s.sess c).pkaOp = some q) : Reaches act s (s.asking c q) := by
  have h1 : s.act (.serve c) = .ok { s with worker := .fetching c } := by
    simp only [act, hw, hc, and_self, if_true]
  have h2 : ({ s with worker := .fetching c } : Cores).act .work
      = .ok { s with worker := .handling c q } := by
    simp only [act, work, hq]
  exact .head h1 (.head h2 ⟨[.work], rfl⟩)

/- The end of `get_processed_crypto`. -/
def done (c : ConnId) (q : Request) (s : Cores) : Cores :=
  let s := (s.setSess c fun e => { e with waitingCrypto := false }).setSess c fun e =>
    { e with completedCrypto := false }
  { s.deleteOp q.op with worker := .idle }

theorem done_reaches (hw : s.worker = .handled c q) : Reaches act s (s.done c q) := by
  have h1 : s.act .work = .ok { s.setSess c fun e => { e with waitingCrypto := false } with
      worker := .unwaited c q } := by
    simp only [act, work, hw]
  exact .head h1 ⟨[.work, .work], rfl⟩

/- `clear_ssl_session`. -/
def removed (c : ConnId) (s : Cores) : Cores :=
  let t := (s.remove c).setSess c fun e => { e with completedCrypto := false }
  match (s.sess c).pendingPkaOp with
  | none => { t with worker := .idle }
  | some o =>
    { ((t.setOp o fun v => { v with pkaFlag := false }).deleteOp o).setSess c fun e =>
        { e with pendingPkaOp := none } with
      worker := .idle }

theorem detached_reaches (hw : s.worker = .detaching c) :
    Reaches act s (match (s.sess c).pendingPkaOp with
      | none => { s with worker := .idle }
      | some o =>
        { ((s.setOp o fun v => { v with pkaFlag := false }).deleteOp o).setSess c fun e =>
            { e with pendingPkaOp := none } with
          worker := .idle }) := by
  cases ho : (s.sess c).pendingPkaOp with
  | none =>
    refine .one (e := .work) ?_
    simp only [act, work, hw, ho]
  | some o =>
    have h1 : s.act .work = .ok { s.setOp o fun v => { v with pkaFlag := false } with
        worker := .rotting c o } := by
      simp only [act, work, hw, ho]
    exact .head h1 ⟨[.work, .work], rfl⟩

theorem removed_reaches (hw : s.worker = .idle) : Reaches act s (s.removed c) := by
  have h1 : s.act (.remove c) = .ok (s.remove c) := by simp only [act, hw, if_true]
  let t : Cores := { (s.remove c).setSess c fun e => { e with completedCrypto := false } with
    worker := .detaching c }
  have hp : (t.sess c).pendingPkaOp = (s.sess c).pendingPkaOp := by
    simp [t, remove, record, setSess]
  have hd := detached_reaches (s := t) (c := c) rfl
  rw [hp] at hd
  exact .head h1 (.head (e := .work) (b := t) rfl hd)

/- One round of `handle_submitted_pka` for the first request of the ring. -/
def accepted (q : Request) (ring : List Request) (c : ConnId) (s : Cores) : Cores :=
  { (({ s with ring := ring, engine := s.engine ++ [q] } : Cores).setOp q.op fun v =>
      { v with pkaFlag := true }).setSess c fun e => { e with pendingPkaOp := some q.op } with
    pka := .idle }

theorem accepted_reaches {ring : List Request} (hp : s.pka = .idle) (hr : s.ring = q :: ring)
    (hop : (s.ops q.op).opcode.isPka = true) (hs : (s.ops q.op).sess = some c) :
    Reaches act s (s.accepted q ring c) := by
  let t : Cores := ({ s with ring := ring, engine := s.engine ++ [q] } : Cores).setOp q.op fun v =>
    { v with pkaFlag := true }
  have h1 : s.act .dequeue = .ok { s with ring := ring, pka := .dequeued q } := by
    simp only [act, hp, hr]
  have h2 : ({ s with ring := ring, pka := .dequeued q } : Cores).act .pka
      = .ok { s with ring := ring, engine := s.engine ++ [q], pka := .executed q } := by
    simp only [act, pkaStep, hop, if_true]
  have h3 : ({ t with pka := .flagged q } : Cores).act .pka = .ok (s.accepted q ring c) := by
    have ht : (t.ops q.op).sess = some c := by simpa [t, setOp] using hs
    simp only [act, pkaStep, ht]
    rfl
  exact .head h1 (.head h2 (.head (e := .pka) rfl (.one h3)))

/- One round of `handle_completed_pka` for the result at place `i`, up to the look at `pka_flag`. -/
def fetched (q : Request) (i : Nat) (c : ConnId) (s : Cores) : Cores :=
  { ({ s with engine := s.engine.eraseIdx i } : Cores).setSess c fun e =>
      { e with pkaOp := some q } with
    pka := .delivering q c }

theorem fetched_reaches {i : Nat} (hp : s.pka = .idle) (hi : s.engine[i]? = some q)
    (hs : (s.ops q.op).sess = some c) : Reaches act s (s.fetched q i c) := by
  have h1 : s.act (.fetch i) = .ok { s with engine := s.engine.eraseIdx i, pka := .returned q } := by
    simp only [act, hp, hi]
  refine .head h1 (.one (e := .pka) ?_)
  simp only [act, pkaStep, hs]
  rfl

theorem rotten_reaches (hp : s.pka = .delivering q c) (hf : (s.ops q.op).pkaFlag = false) :
    Reaches act s { s with pka := .idle } := by
  refine .one (e := .pka) ?_
  simp only [act, pkaStep, hp, hf, if_true]

def published (q : Request) (c : ConnId) (s : Cores) : Cores :=
  { (s.setSess c fun e => { e with completedCrypto := true }).record
      (.publish c q (s.worker.within c)) with
    pka := .idle }

theorem published_reaches (hp : s.pka = .delivering q c) (hf : (s.ops q.op).pkaFlag = true)
    (hr : ¬ ((s.sess c).handshakeState = .helloRequest ∧ (s.ops q.op).record = false)) :
    Reaches act s (s.published q c) := by
  have h1 : s.act .pka = .ok { s with pka := .copying q c } := by
    simp only [act, pkaStep, hp, hf, hr, Bool.true_eq_false, if_false]
  exact .head h1 ⟨[.pka], rfl⟩

end

end Xtls.Nic.Cores
