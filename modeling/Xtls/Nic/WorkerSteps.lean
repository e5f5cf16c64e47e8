import Xtls.Nic.Custody

/-!
# The worker keeps custody

One lemma for each step of the worker (`Cores.work` and the functions it begins): the invariant of
`Xtls.Nic.Custody` survives, `clear_ssl_session` only for a session of which the PKA core holds no
request.
-/

namespace Xtls.Nic

section

variable {own own' : OpId → Owner} {s s' : Cores} {c : ConnId} {q : Request} {o : OpId}
  {b : Option Request}

theorem Worker.within_on {w : Worker} (h : w.on ≠ some c) : w.within c = false := by
  unfold Worker.within
  split <;> simp_all [Worker.on]

theorem Worker.entering_on {w : Worker} (h : w.on ≠ some c) : w.entering c = false := by
  unfold Worker.entering
  split <;> simp_all [Worker.on]

theorem SessionInv.elsewhere {w w' : Worker} {e : CoreSession} (h : SessionInv own w e c)
    (hw : w.on ≠ some c) : SessionInv own w' e c where
  pending _ := h.pending (by rintro rfl; exact hw rfl)
  completed _ := h.completed (Worker.within_on hw)
  fresh hs :=
    have hf := h.fresh hs
    ⟨hf.1, fun hwait _ =>
      have hn := hf.2 hwait (Worker.entering_on hw)
      ⟨hn.1, fun _ => hn.2 (by rintro rfl; exact hw rfl)⟩⟩
  keyed hs hk :=
    have hn := h.keyed hs hk
    ⟨hn.1, fun _ => hn.2 (Worker.within_on hw)⟩

theorem PkaInv.same (h : PkaInv s) (hpka : s'.pka = s.pka) (heng : s'.engine = s.engine)
    (hop : ∀ c, (s'.sess c).pkaOp = (s.sess c).pkaOp) : PkaInv s' := by
  unfold PkaInv at h ⊢
  rw [hpka, heng]
  simpa only [hop] using h

/-- A step of the worker on session `c` leaves the other sessions and the PKA core alone. -/
structure WorksOn (c : ConnId) (s s' : Cores) : Prop where
  before : s.worker.on = none ∨ s.worker.on = some c
  sess : ∀ i, i ≠ c → s'.sess i = s.sess i
  pkaOp : (s'.sess c).pkaOp = (s.sess c).pkaOp
  pka : s'.pka = s.pka
  engine : s'.engine = s.engine

theorem CoresInv.worksOn (h : CoresInv own s) (hon : WorksOn c s s') (hcust : Custody own' s')
    (hresp : ∀ i, i ≠ c → Respects own own' i)
    (hsess : SessionInv own' s'.worker (s'.sess c) c) (hworker : WorkerInv own' s') :
    CoresInv own' s' where
  custody := hcust
  session i := by
    by_cases hi : i = c
    · exact hi ▸ hsess
    · have hne : s.worker.on ≠ some i := by
        rcases hon.before with hw | hw <;> rw [hw]
        · exact nofun
        · exact fun he => hi (Option.some.inj he).symm
      rw [hon.sess i hi]
      exact ((h.session i).respects (hresp i hi)).elsewhere hne
  worker := hworker
  pka := by
    refine h.pka.same hon.pka hon.engine fun i => ?_
    by_cases hi : i = c
    · exact hi ▸ hon.pkaOp
    · rw [hon.sess i hi]

theorem write_inv (h : CoresInv own s) (hon : s.worker.on = none ∨ s.worker.on = some c)
    (f : CoreSession → CoreSession) (hop : (f (s.sess c)).pkaOp = (s.sess c).pkaOp)
    (hs' : s' = { s.setSess c f with worker := s'.worker, trace := s'.trace })
    (hsess : SessionInv own s'.worker (f (s.sess c)) c) (hworker : WorkerInv own s') :
    CoresInv own s' := by
  have hsame : s'.sess c = f (s.sess c) := by rw [hs']; simp [Cores.setSess]
  refine h.worksOn (c := c) ⟨hon, fun i hi => ?_, ?_, ?_, ?_⟩
    (h.custody.same ?_ ?_ ?_) (fun i _ => .refl own i) ?_ hworker
  · rw [hs']; simp [Cores.setSess, hi]
  · rw [hsame]; exact hop
  · rw [hs']; rfl
  · rw [hs']; rfl
  · rw [hs']; exact .refl _
  · rw [hs']; exact .refl _
  · rw [hs']; exact fun _ => ⟨rfl, rfl⟩
  · rw [hsame]; exact hsess

theorem flag_inv (h : CoresInv own s) (hon : s.worker.on = some c) (f : CoreOp → CoreOp)
    (hf : ∀ v, (f v).opcode = v.opcode ∧ (f v).sess = v.sess)
    (hs' : s' = { s.setOp o f with worker := s'.worker })
    (hsess : SessionInv own s'.worker (s.sess c) c) (hworker : WorkerInv own s') :
    CoresInv own s' := by
  have hsame : s'.sess = s.sess := by rw [hs']; rfl
  refine h.worksOn (c := c) ⟨.inr hon, fun i _ => by rw [hsame], by rw [hsame], ?_, ?_⟩
    (h.custody.same ?_ ?_ ?_) (fun i _ => .refl own i) (hsame ▸ hsess) hworker
  · rw [hs']; rfl
  · rw [hs']; rfl
  · rw [hs']; exact .refl _
  · rw [hs']; exact .refl _
  · intro i
    rw [hs']
    simp only [Cores.setOp]
    split
    · exact hf _
    · exact ⟨rfl, rfl⟩

/-! ### Submission -/

theorem take_inv {opcode : Opcode} {record : Bool} (h : CoresInv own s)
    (hon : s.worker.on = none ∨ s.worker.on = some c) (hpend : s.worker ≠ .detached c)
    (hop : opcode.isPka = true) (hr : Ready own s c b)
    (hf : (s.sess c).handshakeState = .helloRequest →
      (s.sess c).handshakeKeyCalculated = false ∧ b = none)
    (hb : ∀ x, b = some x → (s.sess c).pkaOp = some x)
    (ht : s.take c opcode record b = .ok s') : ∃ own', CoresInv own' s' := by
  unfold Cores.take at ht
  split at ht
  · cases ht
  · rename_i o pool hp
    cases ht
    obtain ⟨ho, hcust⟩ := h.custody.take hp (show (s.allocated c opcode record b o pool).pool = _ from rfl)
      rfl (fun i hi => by simp [Cores.allocated, Cores.setOp, hi])
    have hresp : ∀ i, Respects own (Function.update own o .worker) i :=
      fun i => respects_private (.inl ho) (.inr rfl)
    refine ⟨_, h.worksOn (c := c) ⟨hon, fun _ _ => rfl, rfl, rfl, rfl⟩ hcust
      (fun i _ => hresp i) ?_ ?_⟩
    · obtain ⟨h1, h2, h3, h4⟩ := h.session c
      obtain ⟨r1, r2, r3⟩ := hresp c
      obtain ⟨n1, n2, n3, n4⟩ := hr
      simp only [Cores.allocated, Cores.setOp]
      rcases b with _ | x
      · constructor <;> grind
      · obtain ⟨⟨hb1, hb2, hb3⟩, hb4⟩ := n4 x rfl
        constructor <;> grind
    · refine ⟨Function.update_self _ _ _, by simp [Cores.Agrees, Cores.allocated, Cores.setOp, hop],
        (hresp c).none hr.none, hr.keys, hr.idle, fun x hx => ?_⟩
      obtain ⟨⟨h1, h2, h3⟩, h4⟩ := hr.holds x hx
      exact ⟨⟨(hresp c).done x h2 h1, h2, h3⟩, h4⟩

theorem submit_inv (h : CoresInv own s) (hw : s.worker = .submitting q b) :
    ∃ own', CoresInv own' (s.submit q b) := by
  have hwork := h.worker
  simp only [WorkerInv, hw] at hwork
  obtain ⟨ho, ha, hr⟩ := hwork
  obtain ⟨h1, h2, h3, h4⟩ := h.session q.sess
  have hon : s.worker.on = none ∨ s.worker.on = some q.sess := .inr (by rw [hw]; rfl)
  unfold Cores.submit
  split
  · -- the ring is full: nobody else has seen the operation
    have hresp : ∀ i, Respects own (Function.update own q.op .pool) i :=
      fun i => respects_private (.inr ho) (.inl rfl)
    refine ⟨_, h.worksOn (c := q.sess) ⟨hon, fun _ _ => rfl, rfl, rfl, rfl⟩
      (h.custody.release (.inl ho) rfl rfl fun i hi => by simp [Cores.deleteOp, Cores.setOp, hi])
      (fun i _ => hresp i) ?_ ?_⟩
    · obtain ⟨r1, r2, r3⟩ := hresp q.sess
      obtain ⟨n1, n2, n3, n4⟩ := hr
      simp only [Cores.deleteOp, Cores.setOp]
      rcases b with _ | x
      · constructor <;> grind
      · obtain ⟨⟨hb1, hb2, hb3⟩, hb4⟩ := n4 x rfl
        constructor <;> grind [Cores.resume]
    · rcases b with _ | x
      · trivial
      · obtain ⟨⟨hb1, hb2, hb3⟩, hb4⟩ := hr.holds x rfl
        exact ⟨⟨(hresp q.sess).done x hb2 hb1, hb2, hb3⟩, fun he => by cases hb4.symm.trans he⟩
  · have hresp : ∀ i, i ≠ q.sess → Respects own (Function.update own q.op (.pka q)) i :=
      fun i hi => respects_submitted ho (Ne.symm hi)
    refine ⟨_, h.worksOn (c := q.sess) ⟨hon, fun _ _ => rfl, rfl, rfl, rfl⟩
      (h.custody.enqueue ho ha hr.none rfl ?_ rfl) hresp ?_ ?_⟩
    · simp only [Cores.held, List.append_assoc]
      exact List.perm_middle.symm
    · obtain ⟨n1, n2, n3, n4⟩ := hr
      rcases b with _ | x
      · constructor <;> grind [Function.update_apply]
      · obtain ⟨⟨hb1, hb2, hb3⟩, hb4⟩ := n4 x rfl
        constructor <;> grind [Function.update_apply]
    · refine ⟨.inl (Function.update_self _ _ _), hr.keys, fun x hx => ?_⟩
      obtain ⟨⟨hb1, hb2, hb3⟩, hb4⟩ := hr.holds x hx
      have hne : x.op ≠ q.op := fun he => by rw [he, ho] at hb1; cases hb1
      exact ⟨⟨by rw [Function.update_of_ne hne]; exact hb1, hb2, hb3⟩, hne, hb4⟩

theorem enqueued_inv (h : CoresInv own s) (hw : s.worker = .enqueued q b) :
    CoresInv own { s.setSess q.sess fun e => { e with waitingCrypto := true } with
      worker := .waiting q b } := by
  have hwork := h.worker
  simp only [WorkerInv, hw] at hwork
  obtain ⟨h1, h2, h3, h4⟩ := h.session q.sess
  obtain ⟨w1, w2, w3⟩ := hwork
  refine write_inv h (.inr (by rw [hw]; rfl)) _ rfl rfl ?_ ?_
  · constructor <;> grind
  · exact ⟨w1, by simpa [Cores.setSess] using w2, by simpa [Cores.setSess, Holds] using w3⟩

theorem waiting_inv (h : CoresInv own s) (hw : s.worker = .waiting q b) :
    CoresInv own { s.setOp q.op fun v => { v with pkaFlag := true } with
      worker := .flagged q b } := by
  have hwork := h.worker
  simp only [WorkerInv, hw] at hwork
  obtain ⟨h1, h2, h3, h4⟩ := h.session q.sess
  refine flag_inv (c := q.sess) h (by rw [hw]; rfl) (fun v => { v with pkaFlag := true })
    (fun _ => ⟨rfl, rfl⟩) rfl ?_ ?_
  · constructor <;> grind
  · exact ⟨hwork.live, hwork.keys, hwork.holds⟩

theorem flagged_inv (h : CoresInv own s) (hw : s.worker = .flagged q b) :
    CoresInv own { s.setSess q.sess fun e => { e with pendingPkaOp := some q.op } with
      worker := Cores.resume q.sess b } := by
  have hwork := h.worker
  simp only [WorkerInv, hw] at hwork
  obtain ⟨h1, h2, h3, h4⟩ := h.session q.sess
  obtain ⟨w1, w2, w3⟩ := hwork
  refine write_inv h (.inr (by rw [hw]; rfl)) _ rfl rfl ?_ ?_ <;> rcases b with _ | x
  · constructor <;> grind [Cores.resume]
  · obtain ⟨⟨hb1, hb2, hb3⟩, hb4, hb5⟩ := w3 x rfl
    constructor <;> grind [Cores.resume]
  · trivial
  · obtain ⟨⟨hb1, hb2, hb3⟩, hb4, hb5⟩ := w3 x rfl
    simp [Cores.resume, WorkerInv, Holds, Cores.setSess, hb1, hb2, hb5, Ne.symm hb4]

theorem hello_inv (h : CoresInv own s) (hw : s.worker = .idle) (hs' : s.hello c = .ok s') :
    ∃ own', CoresInv own' s' := by
  unfold Cores.hello at hs'
  split at hs'
  · rename_i hc
    obtain ⟨hk, hn⟩ := (h.session c).fresh hc.2
    obtain ⟨hnone, hcomp⟩ := hn hc.1 (by rw [hw]; rfl)
    exact take_inv (b := none) h (.inl (by rw [hw]; rfl)) (by rw [hw]; exact nofun) rfl
      ⟨hnone, fun _ => hk, fun _ => hcomp (by rw [hw]; exact nofun), nofun⟩ (fun _ => ⟨hk, rfl⟩)
      nofun hs'
  · cases hs'
    exact ⟨own, h⟩

/-! ### Results -/

theorem fetching_inv (h : CoresInv own s) (hw : s.worker = .fetching c)
    (hq : (s.sess c).pkaOp = some q) : CoresInv own { s with worker := .handling c q } := by
  have hwork := h.worker
  simp only [WorkerInv, hw] at hwork
  obtain ⟨h1, h2, h3, h4⟩ := h.session c
  refine write_inv (c := c) h (.inr (by rw [hw]; rfl)) (fun e => e) rfl (by simp [Cores.setSess]) ?_
    ⟨hwork, hq⟩
  constructor <;> grind

theorem handling_inv (h : CoresInv own s) (hw : s.worker = .handling c q) :
    CoresInv own { s.setSess c fun e => { e with pendingPkaOp := none } with
      worker := .answering c q } := by
  have hwork := h.worker
  simp only [WorkerInv, hw] at hwork
  obtain ⟨h1, h2, h3, h4⟩ := h.session c
  refine write_inv h (.inr (by rw [hw]; rfl)) _ rfl rfl ?_ ?_
  · constructor <;> grind
  · simpa [WorkerInv, Cores.setSess] using hwork

theorem answer_inv (h : CoresInv own s) (hw : s.worker = .answering c q)
    (hs' : s.answer c q = .ok s') : ∃ own', CoresInv own' s' := by
  have hwork := h.worker
  simp only [WorkerInv, hw] at hwork
  obtain ⟨w1, w2, w3⟩ := hwork
  obtain ⟨h1, h2, h3, h4⟩ := h.session c
  obtain ⟨hn, q', hq', hd, hc⟩ := h2 (by rw [hw]; rfl) w1
  obtain rfl : q' = q := Option.some.inj (hq'.symm.trans w2)
  have hon : s.worker.on = none ∨ s.worker.on = some c := .inr (by rw [hw]; rfl)
  have hholds : Holds own s c q' := ⟨hd, hc, by rw [w3]; exact nofun⟩
  unfold Cores.answer at hs'
  split at hs' <;> rename_i hh
  · split at hs'
    · -- the ServerHello is out and the next operation is taken from the pool
      have hmid : CoresInv own { s.setSess c (fun e => { e with handshakeState := .serverHello }) with
          worker := s.worker, trace := .consume c q' :: s.trace } := by
        refine write_inv h hon _ rfl rfl ?_ ?_
        · constructor <;> grind
        · simpa [WorkerInv, Cores.setSess, hw] using ⟨w1, w2, w3⟩
      refine take_inv (b := some q') hmid hon (by simp [hw]) rfl
        ⟨hn, fun _ => ?_, nofun, fun x hx => ?_⟩ (by simp [Cores.setSess]) (fun x hx => ?_) hs'
      · simpa [Cores.setSess] using (h3 hh).1
      · cases hx
        simpa [Cores.setSess, Holds] using hholds
      · cases hx
        simpa [Cores.setSess] using w2
    · cases hs'
  · cases hs'
    refine ⟨own, write_inv h hon (fun e => { e with handshakeKeyCalculated := true }) rfl rfl ?_ ?_⟩
    · constructor <;> grind
    · simp [WorkerInv, Holds, Cores.setSess, Cores.record, hd, hc, w3, hh]
  · cases hs'
    refine ⟨own, write_inv h hon (fun e => { e with certSignatured := true }) rfl rfl ?_ ?_⟩
    · constructor <;> grind
    · simp [WorkerInv, Holds, Cores.setSess, Cores.record, hd, hc, w3, hh]
  · cases hs'

theorem handled_inv (h : CoresInv own s) (hw : s.worker = .handled c q) :
    CoresInv own { s.setSess c fun e => { e with waitingCrypto := false } with
      worker := .unwaited c q } := by
  have hwork := h.worker
  simp only [WorkerInv, hw] at hwork
  obtain ⟨h1, h2, h3, h4⟩ := h.session c
  refine write_inv h (.inr (by rw [hw]; rfl)) _ rfl rfl ?_ ?_
  · constructor <;> grind
  · simpa [WorkerInv, Holds, Cores.setSess] using hwork.1

theorem unwaited_inv (h : CoresInv own s) (hw : s.worker = .unwaited c q) :
    CoresInv own { s.setSess c fun e => { e with completedCrypto := false } with
      worker := .releasing c q } := by
  have hwork := h.worker
  simp only [WorkerInv, hw] at hwork
  obtain ⟨h1, h2, h3, h4⟩ := h.session c
  refine write_inv h (.inr (by rw [hw]; rfl)) _ rfl rfl ?_ ?_
  · constructor <;> grind
  · simpa [WorkerInv, Holds, Cores.setSess] using hwork

theorem releasing_inv (h : CoresInv own s) (hw : s.worker = .releasing c q) :
    CoresInv (Function.update own q.op .pool) { s.deleteOp q.op with worker := .idle } := by
  have hwork := h.worker
  simp only [WorkerInv, hw] at hwork
  obtain ⟨⟨w1, w2, w3⟩, w4⟩ := hwork
  obtain ⟨h1, h2, h3, h4⟩ := h.session c
  refine h.worksOn (c := c) ⟨.inr (by rw [hw]; rfl), fun _ _ => rfl, rfl, rfl, rfl⟩
    (h.custody.release (.inr ⟨q, w1⟩) rfl rfl fun i hi => by simp [Cores.deleteOp, Cores.setOp, hi])
    (fun i hi => respects_released w1 (by rw [w2]; exact Ne.symm hi)) ?_ trivial
  simp only [Cores.deleteOp, Cores.setOp]
  constructor <;> grind [Function.update_apply, NonePka]

/-! ### The rest of the handshake -/

theorem move_state_inv {t : HandshakeType} {tr : List CoreEvent} (h : CoresInv own s)
    (hw : s.worker = .idle) (ht : t ≠ .helloRequest ∧ t ≠ .serverHello) :
    CoresInv own { s.setSess c fun e => { e with handshakeState := t } with trace := tr } := by
  obtain ⟨h1, h2, h3, h4⟩ := h.session c
  refine write_inv h (.inl (by rw [hw]; rfl)) (fun e => { e with handshakeState := t }) rfl rfl ?_ ?_
  · constructor <;> grind [Cores.setSess]
  · simp [WorkerInv, Cores.setSess, hw]

theorem sendRemain_inv (h : CoresInv own s) (hw : s.worker = .idle)
    (hs' : s.sendRemain c = .ok s') : ∃ own', CoresInv own' s' := by
  have hmove : ∀ t : HandshakeType, t ≠ .helloRequest ∧ t ≠ .serverHello →
      CoresInv own (s.setSess c fun e => { e with handshakeState := t }) :=
    fun t ht => move_state_inv h hw ht
  unfold Cores.sendRemain at hs'
  dsimp only at hs'
  split at hs'
  · rename_i hc
    obtain ⟨hn, hcomp⟩ := (h.session c).keyed hc.1 hc.2
    refine take_inv (c := c) (b := none) (hmove .certificate (by decide)) (.inl ?_) ?_ rfl
      ⟨hn, ?_, fun _ => ?_, nofun⟩ ?_ nofun hs'
    · simp [Cores.setSess, hw, Worker.on]
    · simp [Cores.setSess, hw]
    · simp [Cores.setSess]
    · simpa [Cores.setSess] using hcomp (by rw [hw]; rfl)
    · simp [Cores.setSess]
  · split at hs'
    · cases hs'
      exact ⟨own, hmove .certificateVerify (by decide)⟩
    · split at hs' <;> cases hs'
      · exact ⟨own, hmove .finished (by decide)⟩
      · exact ⟨own, h⟩

/-! ### Removal -/

theorem remove_inv (h : CoresInv own s) (hw : s.worker = .idle)
    (hheld : s.held.filter (·.sess = c) = []) : CoresInv own (s.remove c) := by
  obtain ⟨h1, h2, h3, h4⟩ := h.session c
  have hn : NonePka own c := by
    intro o q ho hq
    obtain ⟨rfl, -⟩ := h.custody.owned o q (.inl ho)
    have hmem := (h.custody.held.mem q).mpr ho
    exact List.filter_eq_nil_iff.mp hheld q hmem (by simpa using hq)
  refine write_inv h (.inl (by rw [hw]; rfl)) (fun e =>
      { e with
        handshakeState := .helloRequest, handshakeKeyCalculated := false, certSignatured := false
        waitingCrypto := false }) rfl rfl ?_ ?_
  · constructor <;> grind [Cores.remove, Cores.record, Cores.setSess]
  · simp [WorkerInv, Cores.remove, Cores.record, Cores.setSess, hn]

theorem clearing_inv (h : CoresInv own s) (hw : s.worker = .clearing c) :
    CoresInv own { s.setSess c fun e => { e with completedCrypto := false } with
      worker := .detaching c } := by
  have hwork := h.worker
  simp only [WorkerInv, hw] at hwork
  obtain ⟨h1, h2, h3, h4⟩ := h.session c
  refine write_inv h (.inr (by rw [hw]; rfl)) _ rfl rfl ?_ ?_
  · constructor <;> grind
  · simpa [WorkerInv, Cores.setSess] using hwork.1

theorem detaching_inv (h : CoresInv own s) (hw : s.worker = .detaching c) (hs' : s.work = .ok s') :
    CoresInv own s' := by
  have hwork := h.worker
  simp only [WorkerInv, hw] at hwork
  obtain ⟨h1, h2, h3, h4⟩ := h.session c
  simp only [Cores.work, hw] at hs'
  split at hs' <;> cases hs'
  · refine write_inv (c := c) h (.inr (by rw [hw]; rfl)) (fun e => e) rfl (by simp [Cores.setSess]) ?_
      trivial
    constructor <;> grind
  · rename_i o ho
    refine flag_inv (c := c) h (by rw [hw]; rfl) (fun v => { v with pkaFlag := false })
      (fun _ => ⟨rfl, rfl⟩) rfl ?_ ⟨hwork.1, hwork.2, ho⟩
    constructor <;> grind

theorem rotting_inv (h : CoresInv own s) (hw : s.worker = .rotting c o) :
    CoresInv (Function.update own o .pool) { s.deleteOp o with worker := .detached c } := by
  have hwork := h.worker
  simp only [WorkerInv, hw] at hwork
  obtain ⟨w1, w2, w3⟩ := hwork
  obtain ⟨h1, h2, h3, h4⟩ := h.session c
  -- the pending operation is not with the PKA core, so its result has been delivered
  obtain ⟨q, hq, hlive⟩ := h1 (by rw [hw]; exact nofun) o w3
  have hdone : own o = .done q := hlive.resolve_left fun hp => w1 o q hp hq
  obtain ⟨rfl, -⟩ := h.custody.owned o q hlive
  refine h.worksOn (c := c) ⟨.inr (by rw [hw]; rfl), fun _ _ => rfl, rfl, rfl, rfl⟩
    (h.custody.release (.inr ⟨q, hdone⟩) rfl rfl fun i hi => by
      simp [Cores.deleteOp, Cores.setOp, hi])
    (fun i hi => respects_released hdone (by rw [hq]; exact Ne.symm hi)) ?_ ⟨?_, w2⟩
  · simp only [Cores.deleteOp, Cores.setOp]
    constructor <;> grind [Function.update_apply, NonePka]
  · grind [Function.update_apply, NonePka]

theorem detached_inv (h : CoresInv own s) (hw : s.worker = .detached c) :
    CoresInv own { s.setSess c fun e => { e with pendingPkaOp := none } with worker := .idle } := by
  obtain ⟨h1, h2, h3, h4⟩ := h.session c
  refine write_inv h (.inr (by rw [hw]; rfl)) _ rfl rfl ?_ trivial
  constructor <;> grind

theorem work_inv (h : CoresInv own s) (hs' : s.work = .ok s') : ∃ own', CoresInv own' s' := by
  have hwork := hs'
  unfold Cores.work at hs'
  split at hs' <;> rename_i hw
  · cases hs'; exact ⟨own, h⟩
  · cases hs'; exact submit_inv h hw
  · cases hs'; exact ⟨own, enqueued_inv h hw⟩
  · cases hs'; exact ⟨own, waiting_inv h hw⟩
  · cases hs'; exact ⟨own, flagged_inv h hw⟩
  · split at hs' <;> cases hs'
    rename_i hq
    exact ⟨own, fetching_inv h hw hq⟩
  · cases hs'; exact ⟨own, handling_inv h hw⟩
  · exact answer_inv h hw hs'
  · cases hs'; exact ⟨own, handled_inv h hw⟩
  · cases hs'; exact ⟨own, unwaited_inv h hw⟩
  · cases hs'; exact ⟨_, releasing_inv h hw⟩
  · cases hs'; exact ⟨own, clearing_inv h hw⟩
  · exact ⟨own, detaching_inv h hw hwork⟩
  · cases hs'; exact ⟨_, rotting_inv h hw⟩
  · cases hs'; exact ⟨own, detached_inv h hw⟩

end

end Xtls.Nic
