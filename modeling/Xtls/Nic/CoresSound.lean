import Xtls.Lib.History
import Xtls.Nic.System
import Xtls.Nic.WorkerSteps

/-!
# Every operation reaches the session that asked for it

The steps of the PKA core keep the invariant of `Xtls.Nic.Custody` as well, so it holds along every
schedule in which no session is removed while the PKA core holds a request of it.
-/

namespace Xtls.Nic

section

variable {own own' : OpId → Owner} {s s' : Cores} {c : ConnId} {q : Request} {o : OpId}

/-! ### Steps of the PKA core -/

/-- What the PKA core may change under a worker's hands: sessions of which it holds a request. -/
structure PkaOn (own own' : OpId → Owner) (s s' : Cores) : Prop where
  worker : s'.worker = s.worker
  respects : ∀ c, Respects own own' c
  priv : ∀ o, own o = .worker → own' o = .worker
  agrees : ∀ q, own q.op = .worker → s.Agrees q → s'.Agrees q
  state : ∀ c, (s'.sess c).handshakeState = (s.sess c).handshakeState
    ∧ (s'.sess c).handshakeKeyCalculated = (s.sess c).handshakeKeyCalculated
  sess : ∀ c, NonePka own c → s'.sess c = s.sess c
  pending : ∀ c o, (s'.sess c).pendingPkaOp = some o →
    (s.sess c).pendingPkaOp = some o ∨ ∃ q, own o = .pka q
  done : ∀ c q, (s'.sess c).completedCrypto = true → (s'.sess c).pkaOp = some q →
    ((s.sess c).completedCrypto = true ∧ (s.sess c).pkaOp = some q) ∨ ∃ q', own q.op = .pka q'

theorem Holds.pkaOn (hon : PkaOn own own' s s') (h : Holds own s c q) : Holds own' s' c q := by
  obtain ⟨h1, h2, h3⟩ := h
  refine ⟨(hon.respects c).done q h2 h1, h2, fun hp => ?_⟩
  rcases hon.pending c q.op hp with hp | ⟨q', hq'⟩
  · exact h3 hp
  · rw [h1] at hq'
    cases hq'

theorem WorkerInv.pkaOn (h : CoresInv own s) (hon : PkaOn own own' s s') : WorkerInv own' s' := by
  have hw := h.worker
  have hcomp : ∀ c, s.worker.within c = false → (s.sess c).completedCrypto = true →
      s'.sess c = s.sess c := fun c h1 h2 => hon.sess c ((h.session c).completed h1 h2).1
  unfold WorkerInv at hw ⊢
  rw [hon.worker]
  split
  · trivial
  · rename_i q back hs
    simp only [hs] at hw
    obtain ⟨w1, w2, w3⟩ := hw
    have hsame := hon.sess q.sess w3.none
    exact ⟨hon.priv _ w1, hon.agrees q w1 w2, (hon.respects _).none w3.none,
      hsame ▸ w3.keys, hsame ▸ w3.idle,
      fun b hb => ⟨(w3.holds b hb).1.pkaOn hon, hsame ▸ (w3.holds b hb).2⟩⟩
  iterate 3
    rename_i q back hs
    simp only [hs] at hw
    obtain ⟨hstate, hkeys⟩ := hon.state q.sess
    exact ⟨(hon.respects _).live _ q rfl hw.live, by rw [hstate, hkeys]; exact hw.keys,
      fun b hb => ⟨(hw.holds b hb).1.pkaOn hon, by rw [hstate]; exact (hw.holds b hb).2⟩⟩
  iterate 3
    rename_i hs
    simp only [hs] at hw
    rw [hcomp _ (by rw [hs]; rfl) (by first | exact hw | exact hw.1)]
    exact hw
  · rename_i c q hs
    simp only [hs] at hw
    rw [(hon.state c).1]
    exact ⟨hw.1.pkaOn hon, hw.2⟩
  · rename_i c q hs
    simp only [hs] at hw
    exact hw.pkaOn hon
  · rename_i c q hs
    simp only [hs] at hw
    refine ⟨hw.1.pkaOn hon, fun q' hc hq' => ?_⟩
    rcases hon.done c q' hc hq' with ⟨hc, hq'⟩ | ⟨x, hx⟩
    · exact hw.2 q' hc hq'
    · intro he
      rw [he, hw.1.1] at hx
      cases hx
  iterate 4
    rename_i hs
    simp only [hs] at hw
    rw [hon.sess _ hw.1]
    exact ⟨(hon.respects _).none hw.1, hw.2⟩

theorem move_inv (h : CoresInv own s) (hsess : s'.sess = s.sess) (hworker : s'.worker = s.worker)
    (hpool : s'.pool = s.pool) (hheld : s.held.Perm s'.held)
    (hops : ∀ o, (s'.ops o).opcode = (s.ops o).opcode ∧ (s'.ops o).sess = (s.ops o).sess)
    (hpka : PkaInv s') : CoresInv own s' where
  custody := h.custody.same (hpool ▸ .refl _) hheld hops
  session c := by rw [hsess, hworker]; exact h.session c
  worker := by
    refine WorkerInv.pkaOn h ⟨hworker, fun c => .refl own c, fun _ ho => ho, fun q _ hq => ?_, ?_, ?_, ?_, ?_⟩
    · unfold Cores.Agrees
      rw [(hops q.op).1, (hops q.op).2]
      exact hq
    · exact fun c => hsess ▸ ⟨rfl, rfl⟩
    · exact fun c _ => hsess ▸ rfl
    · exact fun c o ho => .inl (hsess ▸ ho)
    · exact fun c q hc hq => .inl (hsess ▸ ⟨hc, hq⟩)
  pka := hpka

theorem deliver_inv (h : CoresInv own s) (hon : PkaOn own own' s s') (hcust : Custody own' s')
    (hothers : ∀ i, i ≠ c → s'.sess i = s.sess i)
    (hsess : SessionInv own' s.worker (s'.sess c) c) (hpka : PkaInv s') : CoresInv own' s' where
  custody := hcust
  session i := by
    rw [hon.worker]
    by_cases hi : i = c
    · exact hi ▸ hsess
    · exact hothers i hi ▸ (h.session i).respects (hon.respects i)
  worker := WorkerInv.pkaOn h hon
  pka := hpka

theorem held_sess (h : Custody own s) (hq : q ∈ s.held) :
    own q.op = .pka q ∧ (s.ops q.op).sess = some q.sess :=
  have ho := (h.held.mem q).mp hq
  ⟨ho, (h.owned q.op q (.inl ho)).2.2.1⟩

theorem PkaOn.write (hq : own q.op = .pka q) (f : CoreSession → CoreSession)
    (hs' : s'.sess = (s.setSess q.sess f).sess) (hworker : s'.worker = s.worker)
    (hops : s'.ops = s.ops) (hresp : ∀ c, Respects own own' c)
    (hpriv : ∀ o, own o = .worker → own' o = .worker)
    (hstate : ∀ e, (f e).handshakeState = e.handshakeState
      ∧ (f e).handshakeKeyCalculated = e.handshakeKeyCalculated)
    (hpend : ∀ e o, (f e).pendingPkaOp = some o → e.pendingPkaOp = some o ∨ o = q.op)
    (hdone : ∀ x, (f (s.sess q.sess)).completedCrypto = true →
      (f (s.sess q.sess)).pkaOp = some x →
      ((s.sess q.sess).completedCrypto = true ∧ (s.sess q.sess).pkaOp = some x) ∨ x = q) :
    PkaOn own own' s s' := by
  refine ⟨hworker, hresp, hpriv, fun x _ hx => ?_, fun c => ?_, fun c hn => ?_, fun c o => ?_,
    fun c x => ?_⟩
  · unfold Cores.Agrees
    rw [hops]
    exact hx
  all_goals rw [hs']; simp only [Cores.setSess]
  · split
    · exact hstate _
    · exact ⟨rfl, rfl⟩
  · rw [if_neg (Ne.symm (hn q.op q hq))]
  · split
    · intro ho
      rcases hpend _ o ho with ho | rfl
      · exact .inl ho
      · exact .inr ⟨q, hq⟩
    · exact .inl
  · split
    · rename_i hc
      intro h1 h2
      subst hc
      rcases hdone x h1 h2 with h | rfl
      · exact .inl h
      · exact .inr ⟨x, hq⟩
    · exact fun h1 h2 => .inl ⟨h1, h2⟩

theorem pending_inv (h : CoresInv own s) (hp : s.pka = .flagged q)
    (hs : (s.ops q.op).sess = some c) :
    CoresInv own { s.setSess c fun e => { e with pendingPkaOp := some q.op } with pka := .idle } := by
  have hpka := h.pka
  simp only [PkaInv, hp] at hpka
  obtain ⟨ho, hsome⟩ := held_sess h.custody (q := q) (by simp [Cores.held, hpka])
  obtain rfl : q.sess = c := Option.some.inj (hsome.symm.trans hs)
  obtain ⟨h1, h2, h3, h4⟩ := h.session q.sess
  refine deliver_inv (c := q.sess) h (.write ho (fun e => { e with pendingPkaOp := some q.op })
    rfl rfl rfl (fun c => .refl own c) (fun _ ho => ho)
    (fun _ => ⟨rfl, rfl⟩) (fun _ _ he => .inr (Option.some.inj he).symm)
    (fun _ hc hx => .inl ⟨hc, hx⟩)) (h.custody.same (.refl _) ?_ fun _ => ⟨rfl, rfl⟩)
    (fun i hi => by simp [Cores.setSess, hi]) ?_ trivial
  · simp [Cores.held, hp, PkaCore.hand, Cores.setSess]
  · simp only [Cores.setSess, if_true]
    constructor <;> grind

theorem returned_inv (h : CoresInv own s) (hp : s.pka = .returned q)
    (hs : (s.ops q.op).sess = some c) :
    CoresInv own { s.setSess c fun e => { e with pkaOp := some q } with
      pka := .delivering q c } := by
  obtain ⟨ho, hsome⟩ := held_sess h.custody (q := q) (by simp [Cores.held, hp, PkaCore.hand])
  obtain rfl : q.sess = c := Option.some.inj (hsome.symm.trans hs)
  obtain ⟨h1, h2, h3, h4⟩ := h.session q.sess
  refine deliver_inv (c := q.sess) h (.write ho (fun e => { e with pkaOp := some q })
    rfl rfl rfl (fun c => .refl own c) (fun _ ho => ho)
    (fun _ => ⟨rfl, rfl⟩) (fun _ _ he => .inl he)
    (fun _ _ hx => .inr (Option.some.inj hx).symm)) (h.custody.same (.refl _) ?_ fun _ => ⟨rfl, rfl⟩)
    (fun i hi => by simp [Cores.setSess, hi]) ?_ (by simp [PkaInv, Cores.setSess])
  · simp [Cores.held, hp, PkaCore.hand, Cores.setSess]
  · simp only [Cores.setSess, if_true]
    constructor <;> grind [NonePka]

/- Whatever becomes of its result, the operation leaves the PKA core. -/
theorem private_delivered (ho : own q.op = .pka q) (o : OpId) (h : own o = .worker) :
    Function.update own q.op (.done q) o = .worker := by
  grind [Function.update_apply]

theorem rotten_inv (h : CoresInv own s) (hp : s.pka = .delivering q c) :
    CoresInv (Function.update own q.op (.done q)) { s with pka := .idle } := by
  obtain ⟨ho, -⟩ := held_sess h.custody (q := q) (by simp [Cores.held, hp, PkaCore.hand])
  have hr : ∀ c, Respects own (Function.update own q.op (.done q)) c :=
    fun c => respects_delivered ho
  refine deliver_inv (c := q.sess) h (.write ho (fun e => e) (by simp [Cores.setSess]) rfl rfl hr
    (private_delivered ho) (fun _ => ⟨rfl, rfl⟩) (fun _ _ he => .inl he)
    (fun _ hc hx => .inl ⟨hc, hx⟩)) (h.custody.deliver ho rfl ?_ rfl) (fun _ _ => rfl)
    ((h.session q.sess).respects (hr q.sess)) trivial
  simp only [Cores.held, hp, PkaCore.hand, List.append_nil]
  exact List.perm_append_singleton q _

theorem publish_inv (h : CoresInv own s) (hp : s.pka = .copying q c) :
    CoresInv (Function.update own q.op (.done q))
      { (s.setSess c fun e => { e with completedCrypto := true }).record
        (.publish c q (s.worker.within c)) with pka := .idle } := by
  have hpka := h.pka
  simp only [PkaInv, hp] at hpka
  obtain ⟨rfl, hop⟩ := hpka
  obtain ⟨ho, -⟩ := held_sess h.custody (q := q) (by simp [Cores.held, hp, PkaCore.hand])
  have hr : ∀ c, Respects own (Function.update own q.op (.done q)) c :=
    fun c => respects_delivered ho
  -- it was the only request of its session
  have hnone : NonePka (Function.update own q.op (.done q)) q.sess := by
    intro o x hx hs
    have hne : o ≠ q.op := by
      rintro rfl
      rw [Function.update_self] at hx
      cases hx
    rw [Function.update_of_ne hne] at hx
    exact hne (h.custody.single o q.op x q hx ho hs)
  have hsome : ¬ NonePka own q.sess := fun hn => hn q.op q ho rfl
  obtain ⟨-, -, h3, h4⟩ := h.session q.sess
  refine deliver_inv (c := q.sess) h (.write ho (fun e => { e with completedCrypto := true })
    rfl rfl rfl hr (private_delivered ho)
    (fun _ => ⟨rfl, rfl⟩) (fun _ _ he => .inl he)
    (fun x _ hx => .inr (Option.some.inj (hx.symm.trans hop))))
    (h.custody.deliver ho rfl ?_ rfl)
    (fun i hi => by simp [Cores.setSess, Cores.record, hi]) ?_ trivial
  · simp only [Cores.held, hp, PkaCore.hand, Cores.setSess, Cores.record, List.append_nil]
    exact List.perm_append_singleton q _
  · simp only [Cores.setSess, Cores.record, if_true]
    refine ⟨((h.session q.sess).respects (hr q.sess)).pending,
      fun _ _ => ⟨hnone, q, hop, Function.update_self _ _ _, rfl⟩, fun hs => ⟨(h3 hs).1, fun hw he => ?_⟩,
      fun hs hk => absurd (h4 hs hk).1 hsome⟩
    exact absurd ((h3 hs).2 hw he).1 hsome

theorem pkaStep_inv (h : CoresInv own s) (hs' : s.pkaStep = .ok s') : ∃ own', CoresInv own' s' := by
  have hpka := h.pka
  unfold Cores.pkaStep at hs'
  split at hs' <;> rename_i hp <;> simp only [PkaInv, hp] at hpka
  · cases hs'; exact ⟨own, h⟩
  · split at hs' <;> cases hs'
    refine ⟨own, move_inv h rfl rfl rfl ?_ (fun _ => ⟨rfl, rfl⟩) (by simp [PkaInv])⟩
    simp [Cores.held, hp, PkaCore.hand]
  · cases hs'
    refine ⟨own, move_inv h rfl rfl rfl ?_ (fun o => ?_) hpka⟩
    · simp [Cores.held, hp, PkaCore.hand, Cores.setOp]
    · simp only [Cores.setOp]; split <;> exact ⟨rfl, rfl⟩
  · split at hs' <;> cases hs'
    rename_i hs
    exact ⟨own, pending_inv h hp hs⟩
  · split at hs' <;> cases hs'
    rename_i hs
    exact ⟨own, returned_inv h hp hs⟩
  · split at hs'
    · cases hs'
      exact ⟨_, rotten_inv h hp⟩
    · split at hs' <;> cases hs'
      refine ⟨own, move_inv h rfl rfl rfl ?_ (fun _ => ⟨rfl, rfl⟩) hpka⟩
      simp [Cores.held, hp, PkaCore.hand]
  · cases hs'
    exact ⟨_, publish_inv h hp⟩

/-! ### Schedules -/

theorem pkaStep_held (h : s.pkaStep = .ok s') : ∀ x ∈ s'.held, x ∈ s.held := by
  intro x hx
  unfold Cores.pkaStep at h
  split at h <;> rename_i hp
  · cases h; exact hx
  · split at h <;> cases h
    simpa [Cores.held, hp, PkaCore.hand] using hx
  · cases h
    simpa [Cores.held, hp, PkaCore.hand, Cores.setOp] using hx
  · split at h <;> cases h
    simpa [Cores.held, hp, PkaCore.hand, Cores.setSess] using hx
  · split at h <;> cases h
    simpa [Cores.held, hp, PkaCore.hand, Cores.setSess] using hx
  · split at h
    · cases h
      simp only [Cores.held, hp, PkaCore.hand, List.append_nil, List.mem_append] at hx ⊢
      exact .inl hx
    · split at h <;> cases h
      simpa [Cores.held, hp, PkaCore.hand] using hx
  · cases h
    simp only [Cores.held, hp, PkaCore.hand, Cores.record, Cores.setSess, List.append_nil,
      List.mem_append] at hx ⊢
    exact .inl hx

theorem dequeue_held (h : s.act .dequeue = .ok s') : ∀ x ∈ s'.held, x ∈ s.held := by
  intro x hx
  simp only [Cores.act] at h
  split at h <;> cases h
  · rename_i q ring hp hr
    simp only [Cores.held, hr, hp, PkaCore.hand, List.mem_append, List.mem_cons] at hx ⊢
    tauto
  · exact hx

theorem fetch_held {i : Nat} (h : s.act (.fetch i) = .ok s') : ∀ x ∈ s'.held, x ∈ s.held := by
  intro x hx
  simp only [Cores.act] at h
  split at h <;> cases h
  · rename_i q hp hr
    have hq : q ∈ s.engine := List.mem_of_getElem? hr
    simp only [Cores.held, hp, PkaCore.hand, List.mem_append, List.mem_singleton] at hx ⊢
    rcases hx with (hx | hx) | rfl
    · exact .inl (.inl hx)
    · exact .inl (.inr (List.mem_of_mem_eraseIdx hx))
    · exact .inl (.inr hq)
  · exact hx

theorem cipher_inv {pool used : List OpId} (h : CoresInv own s) (hperm : pool.Perm s.pool)
    (hused : ∀ o ∈ used, o ∈ s.pool) :
    CoresInv own { s with pool := pool, ops := fun o => if o ∈ used then {} else s.ops o } := by
  refine ⟨h.custody.keep hperm.symm (.refl _) fun o ho => ?_, h.session, ?_, h.pka⟩
  · have hne : o ∉ used := fun hu => ho (hused o hu)
    simp only [hne, if_false, and_self]
  · refine WorkerInv.pkaOn h ⟨rfl, fun c => .refl own c, fun _ ho => ho, fun q hw hq => ?_,
      fun _ => ⟨rfl, rfl⟩, fun _ _ => rfl, fun _ _ ho => .inl ho, fun _ _ hc hq => .inl ⟨hc, hq⟩⟩
    have hne : q.op ∉ used := fun hu => by
      rw [(h.custody.pool.mem q.op).mp (hused _ hu)] at hw
      cases hw
    simpa only [Cores.Agrees, hne, if_false] using hq

theorem act_inv {a : Action} (h : CoresInv own s) (hs' : s.act a = .ok s')
    (hremove : ∀ c held, .remove c held ∈ s'.trace → held = []) : ∃ own', CoresInv own' s' := by
  cases a with
  | work => exact work_inv h hs'
  | pka => exact pkaStep_inv h hs'
  | cipher pool used =>
    cases hs'
    refine ⟨own, ?_⟩
    split
    · rename_i hc
      exact cipher_inv h (List.isPerm_iff.mp hc.1) hc.2
    · exact h
  | dequeue =>
    simp only [Cores.act] at hs'
    split at hs' <;> cases hs'
    · rename_i hp hr
      refine ⟨own, move_inv h rfl rfl rfl ?_ (fun _ => ⟨rfl, rfl⟩) trivial⟩
      simp only [Cores.held, hp, hr, PkaCore.hand, List.append_nil]
      exact (List.perm_append_singleton _ _).symm
    · exact ⟨own, h⟩
  | fetch i =>
    simp only [Cores.act] at hs'
    split at hs' <;> cases hs'
    · rename_i hp hr
      refine ⟨own, move_inv h rfl rfl rfl ?_ (fun _ => ⟨rfl, rfl⟩) trivial⟩
      obtain ⟨hi, rfl⟩ := List.getElem?_eq_some_iff.mp hr
      simp only [Cores.held, hp, PkaCore.hand, List.append_nil, List.append_assoc]
      exact .append_left _ ((List.getElem_cons_eraseIdx_perm hi).symm.trans
        (List.perm_append_singleton _ _).symm)
    · exact ⟨own, h⟩
  | hello c =>
    simp only [Cores.act] at hs'
    split at hs'
    · rename_i hw
      exact hello_inv h hw hs'
    · cases hs'; exact ⟨own, h⟩
  | changeCipherSpec c =>
    cases hs'
    refine ⟨own, ?_⟩
    split
    · rename_i hw
      unfold Cores.changeCipherSpec
      dsimp only
      split
      · exact h
      · exact move_state_inv h hw (by decide)
    · exact h
  | finished c =>
    cases hs'
    refine ⟨own, ?_⟩
    split
    · rename_i hw
      unfold Cores.finished
      split
      · exact h
      · exact move_state_inv h hw (by decide)
    · exact h
  | serve c =>
    cases hs'
    refine ⟨own, ?_⟩
    split
    · rename_i hc
      refine write_inv (c := c) h (.inl (by rw [hc.1]; rfl)) (fun e => e) rfl (by simp [Cores.setSess])
        ((h.session c).elsewhere (by rw [hc.1]; simp [Worker.on])) hc.2
    · exact h
  | sendRemain c =>
    simp only [Cores.act] at hs'
    split at hs'
    · rename_i hw
      exact sendRemain_inv h hw hs'
    · cases hs'; exact ⟨own, h⟩
  | remove c =>
    simp only [Cores.act] at hs'
    split at hs' <;> cases hs'
    · rename_i hw
      exact ⟨own, remove_inv h hw (hremove c _ List.mem_cons_self)⟩
    · exact ⟨own, h⟩

/-- The events a step can record. -/
inductive Emits (s : Cores) : CoreEvent → Prop
  | record (c : ConnId) (idle : s.worker = .idle) : Emits s (.record c (s.sess c).pendingPkaOp)
  | remove (c : ConnId) (idle : s.worker = .idle) :
      Emits s (.remove c (s.held.filter (·.sess = c)))
  | publish {c : ConnId} {q : Request} (copying : s.pka = .copying q c) :
      Emits s (.publish c q (s.worker.within c))
  | consume {c : ConnId} {q : Request} (answering : s.worker = .answering c q) :
      Emits s (.consume c q)

theorem take_trace {opcode : Opcode} {record : Bool} {b : Option Request}
    (h : s.take c opcode record b = .ok s') : s'.trace = s.trace := by
  unfold Cores.take at h
  split at h <;> cases h
  rfl

theorem answer_trace (h : s.answer c q = .ok s') : s'.trace = .consume c q :: s.trace := by
  unfold Cores.answer at h
  split at h
  · split at h
    · exact take_trace h
    · cases h
  · cases h; rfl
  · cases h; rfl
  · cases h

theorem work_trace (h : s.work = .ok s') :
    s'.trace = s.trace ∨ ∃ e, s'.trace = e :: s.trace ∧ Emits s e := by
  unfold Cores.work at h
  split at h <;> rename_i hw
  case h_8 => exact .inr ⟨_, answer_trace h, .consume hw⟩
  case h_2 =>
    cases h
    unfold Cores.submit
    split <;> exact .inl rfl
  all_goals first
    | (cases h; exact .inl rfl)
    | (split at h <;> cases h <;> exact .inl rfl)

theorem pkaStep_trace (h : s.pkaStep = .ok s') :
    s'.trace = s.trace ∨ ∃ e, s'.trace = e :: s.trace ∧ Emits s e := by
  unfold Cores.pkaStep at h
  split at h <;> rename_i hp
  case h_7 =>
    cases h
    exact .inr ⟨_, rfl, .publish hp⟩
  case h_6 =>
    split at h
    · cases h; exact .inl rfl
    · split at h <;> cases h
      exact .inl rfl
  all_goals first
    | (cases h; exact .inl rfl)
    | (split at h <;> cases h; all_goals exact .inl rfl)

theorem act_trace {a : Action} (h : s.act a = .ok s') :
    s'.trace = s.trace ∨ ∃ e, s'.trace = e :: s.trace ∧ Emits s e := by
  cases a with
  | work => exact work_trace h
  | pka => exact pkaStep_trace h
  | cipher pool used =>
    cases h
    split <;> exact .inl rfl
  | dequeue | fetch =>
    simp only [Cores.act] at h
    split at h <;> cases h <;> exact .inl rfl
  | hello c =>
    simp only [Cores.act, Cores.hello] at h
    split at h
    · split at h
      · exact .inl (take_trace h)
      · cases h; exact .inl rfl
    · cases h; exact .inl rfl
  | changeCipherSpec c =>
    cases h
    split
    · rename_i hw
      unfold Cores.changeCipherSpec
      dsimp only
      split
      · exact .inl rfl
      · exact .inr ⟨_, rfl, .record c hw⟩
    · exact .inl rfl
  | finished c =>
    cases h
    split
    · rename_i hw
      unfold Cores.finished
      split
      · exact .inl rfl
      · exact .inr ⟨_, rfl, .record c hw⟩
    · exact .inl rfl
  | serve c =>
    cases h
    split <;> exact .inl rfl
  | sendRemain c =>
    simp only [Cores.act, Cores.sendRemain] at h
    split at h
    · split at h
      · have ht := take_trace h
        exact .inl ht
      · split at h
        · cases h; exact .inl rfl
        · split at h <;> cases h <;> exact .inl rfl
    · cases h; exact .inl rfl
  | remove c =>
    cases h
    split
    · rename_i hw
      exact .inr ⟨_, rfl, .remove c hw⟩
    · exact .inl rfl

theorem act_grows {a : Action} (h : s.act a = .ok s') : s.trace <:+ s'.trace := by
  rcases act_trace h with ht | ⟨e, ht, -⟩
  · exact ht ▸ List.suffix_refl _
  · exact ht ▸ List.suffix_cons _ _

/-- No session is removed while the PKA core holds a request of it. -/
def CoreEvent.Orderly : CoreEvent → Prop
  | .remove _ held => held = []
  | _ => True

instance : DecidablePred CoreEvent.Orderly
  | .remove _ held => inferInstanceAs (Decidable (held = []))
  | .record .. | .publish .. | .consume .. => .isTrue trivial

/-- The requests with the PKA core own their operations, results go to the session that asked, and
the PKA core never finds an operation it does not know. -/
structure Sound (s : Cores) : Prop where
  held : ∀ q ∈ s.held, q.op ∉ s.pool ∧ (s.ops q.op).opcode = q.opcode
    ∧ (s.ops q.op).sess = some q.sess
  delivered : ∀ c q w, .publish c q w ∈ s.trace → c = q.sess
  supported : ∀ a, s.act a ≠ .error .unsupportedPkaOpcode

structure SoundInv (s : Cores) : Prop where
  inv : ∃ own, CoresInv own s
  delivered : ∀ c q w, .publish c q w ∈ s.trace → c = q.sess

theorem act_keeps (a : Action) (s s' : Cores) (h : s.act a = .ok s') :
    Keeps Cores.trace CoreEvent.Orderly SoundInv s s' := by
  have hinv : (∀ e ∈ s'.trace, e.Orderly) → SoundInv s → ∃ own, CoresInv own s' := by
    rintro hg ⟨⟨own, hs⟩, -⟩
    exact act_inv hs h fun c held hm => hg _ hm
  rcases act_trace h with ht | ⟨e, ht, he⟩
  · exact ⟨ht ▸ List.suffix_refl _, fun hg hs => ⟨hinv hg hs, ht ▸ hs.delivered⟩⟩
  · refine ⟨ht ▸ List.suffix_cons _ _, fun hg hs => ⟨hinv hg hs, fun c q w hm => ?_⟩⟩
    rw [ht] at hm
    rcases List.mem_cons.mp hm with rfl | hm
    · cases he with
      | publish hp =>
        obtain ⟨own, hown⟩ := hs.inv
        have hpka := hown.pka
        simp only [PkaInv, hp] at hpka
        exact hpka.1
    · exact hs.delivered c q w hm

def initialOwner (n : Nat) (o : OpId) : Owner := if o < n then .pool else .worker

theorem initialOwner_ne (n : Nat) (o : OpId) (q : Request) :
    initialOwner n o ≠ .pka q ∧ initialOwner n o ≠ .done q := by
  unfold initialOwner
  split <;> exact ⟨nofun, nofun⟩

theorem initial_soundInv (n ringCnt : Nat) : SoundInv (Cores.initial n ringCnt) := by
  have hnone := fun o q => (initialOwner_ne n o q).1
  refine ⟨⟨initialOwner n, ⟨⟨List.nodup_range, fun o => ?_⟩, ⟨List.nodup_nil, fun q => ?_⟩, ?_, ?_⟩,
    fun c => ⟨nofun, nofun, fun _ => ⟨rfl, fun _ _ => ⟨fun o q h => absurd h (hnone o q),
      fun _ => rfl⟩⟩, nofun⟩, trivial, trivial⟩, nofun⟩
  · simp [Cores.initial, initialOwner]
  · simpa [Cores.initial, Cores.held, PkaCore.hand] using hnone q.op q
  · rintro o q (h | h)
    · exact absurd h (hnone o q)
    · exact absurd h (initialOwner_ne n o q).2
  · exact fun o _ q _ h => absurd h (hnone o q)

/-- Why a step can stop the program, apart from an exhausted pool, an operation without its record
and a null pointer. -/
inductive Stops (s : Cores) : Halt → Prop
  | pool : Stops s .notEnoughOp
  | record : Stops s .assertion
  | null : Stops s .nullPointer
  | state {c : ConnId} {q : Request} (answering : s.worker = .answering c q)
      (state : (s.sess c).handshakeState ≠ .helloRequest ∧ (s.sess c).handshakeState ≠ .serverHello
        ∧ (s.sess c).handshakeState ≠ .certificate) : Stops s .unsupportedPkaState
  | opcode {q : Request} (dequeued : s.pka = .dequeued q)
      (opcode : (s.ops q.op).opcode.isPka = false) : Stops s .unsupportedPkaOpcode
  | data : Stops s .recordIsNull

variable {e : Halt}

theorem take_stops {s0 : Cores} {opcode : Opcode} {record : Bool} {b : Option Request}
    (h : s.take c opcode record b = .error e) : Stops s0 e := by
  unfold Cores.take at h
  split at h <;> cases h
  exact .pool

theorem work_stops (h : s.work = .error e) : Stops s e := by
  unfold Cores.work at h
  split at h <;> rename_i hw
  case h_6 => split at h <;> cases h; exact .null
  case h_8 =>
    unfold Cores.answer at h
    split at h
    · split at h
      · exact take_stops h
      · cases h; exact .record
    · cases h
    · cases h
    · rename_i h1 h2 h3
      cases h
      exact .state hw ⟨h1, h2, h3⟩
  case h_13 => split at h <;> cases h
  all_goals cases h

theorem pkaStep_stops (h : s.pkaStep = .error e) : Stops s e := by
  unfold Cores.pkaStep at h
  split at h <;> rename_i hp
  case h_2 =>
    split at h
    · cases h
    · rename_i hop
      cases h
      exact .opcode hp (by simpa using hop)
  case h_4 | h_5 =>
    split at h <;> cases h
    exact .null
  case h_6 =>
    split at h
    · cases h
    · split at h <;> cases h
      exact .data
  all_goals cases h

theorem act_stops {a : Action} (h : s.act a = .error e) : Stops s e := by
  cases a with
  | work => exact work_stops h
  | pka => exact pkaStep_stops h
  | hello c =>
    simp only [Cores.act, Cores.hello] at h
    split at h
    · split at h
      · exact take_stops h
      · cases h
    · cases h
  | sendRemain c =>
    simp only [Cores.act, Cores.sendRemain] at h
    split at h
    · split at h
      · exact take_stops h
      · split at h
        · cases h
        · split at h <;> cases h
    · cases h
  | dequeue | fetch =>
    simp only [Cores.act] at h
    split at h <;> cases h
  | cipher | changeCipherSpec | finished | serve | remove => cases h

theorem held_sound (n ringCnt : Nat) (actions : List Action) (s : Cores)
    (hrun : run Cores.act actions (Cores.initial n ringCnt) = .ok s)
    (horder : ∀ e ∈ s.trace, e.Orderly) : Sound s := by
  have hs := (run_keeps act_keeps actions _ s hrun).keeps horder (initial_soundInv n ringCnt)
  obtain ⟨own, hown⟩ := hs.inv
  refine ⟨fun q hq => ?_, hs.delivered, fun a ha => ?_⟩
  · obtain ⟨ho, hsess⟩ := held_sess hown.custody hq
    obtain ⟨-, hop, -, -⟩ := hown.custody.owned q.op q (.inl ho)
    refine ⟨fun hp => ?_, hop, hsess⟩
    rw [(hown.custody.pool.mem q.op).mp hp] at ho
    cases ho
  · cases act_stops ha with
    | @opcode q hp hop =>
      obtain ⟨ho, -⟩ := held_sess hown.custody (q := q) (by simp [Cores.held, hp, PkaCore.hand])
      obtain ⟨-, hsame, -, hpka⟩ := hown.custody.owned q.op q (.inl ho)
      rw [hsame, hpka] at hop
      cases hop

end

def sampleSubmission (c : ConnId) : List Action := [.hello c, .work, .work, .work, .work]

def sampleDelivery : List Action :=
  [.dequeue, .pka, .pka, .pka, .fetch 0, .pka, .pka, .pka]

def sampleResult (c : ConnId) : List Action :=
  [.serve c, .work, .work, .work, .work, .work, .work, .work, .work, .work, .work]

def sampleRemoval (c : ConnId) : List Action := [.remove c, .work, .work, .work, .work]

theorem held_sound_two_requests :
    ∃ s, run Cores.act (sampleSubmission 0 ++ sampleDelivery ++ sampleResult 0 ++ sampleDelivery
        ++ sampleRemoval 0 ++ sampleSubmission 0) (Cores.initial 2 8) = .ok s
      ∧ s.trace.length = 4 ∧ s.held ≠ [] ∧ Sound s := by
  obtain ⟨s, hs, hlen, hheld, horder⟩ := endsIn_ok
    (fun s : Cores => s.trace.length = 4 ∧ s.held ≠ [] ∧ ∀ e ∈ s.trace, e.Orderly)
    (run Cores.act (sampleSubmission 0 ++ sampleDelivery ++ sampleResult 0 ++ sampleDelivery
      ++ sampleRemoval 0 ++ sampleSubmission 0) (Cores.initial 2 8)) (by decide +kernel)
  exact ⟨s, hs, hlen, hheld, held_sound 2 8 _ s hs horder⟩

/- Two clients; the session of the second is removed by a new SYN while its operation is queued. -/
def sampleSynRun : List Input :=
  let hello := sampleSegment 101 5 (sampleHello [0x13, 2]) sampleHello_lt
  [.packet 0 sampleSyn, .packet 0 hello, .pkaSubmit {},
    .packet 0 { sampleSyn with srcPort := 8 }, .packet 0 { hello with srcPort := 8 },
    .packet 0 { sampleSyn with srcPort := 8, seq := 200 }, .pkaSubmit {}]

/-- A session is removed while its operation is queued: the operation is in the pool and in the
ring at once, and the PKA core finds opcode 0. -/
theorem removal_not_sound :
    (∃ s, run Cores.act (sampleSubmission 0 ++ [.dequeue, .pka, .pka, .pka] ++ sampleSubmission 1
        ++ sampleRemoval 1 ++ [.dequeue]) (Cores.initial 3 8) = .ok s ∧ ¬ Sound s)
    ∧ run (step sampleEnv) sampleSynRun (initial 3 8) = .error .unsupportedPkaOpcode :=
  ⟨⟨_, rfl, fun h => h.supported .pka rfl⟩, stopsFor_error _ _ (by decide +kernel)⟩

end Xtls.Nic
