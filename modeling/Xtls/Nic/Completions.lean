import Xtls.Nic.StateMatch

/-!
# No completion is lost

`handle_completed_pka` publishes a result with `completed_crypto = TRUE`; `get_processed_crypto`
handles it and writes FALSE.  In between it may have submitted the next operation of the session, so
the result of that one must not be published before the flag is cleared.  Nor may a record move the
state of the session before the result is handled: there is no handler for the other states.
-/

namespace Xtls.Nic

def CoreEvent.removes : CoreEvent → ConnId → Bool
  | .remove d _, c => d = c
  | _, _ => false

/-- What happened to session `c` since it was last removed, newest first. -/
def life (c : ConnId) (trace : List CoreEvent) : List CoreEvent :=
  trace.takeWhile fun e => ¬ e.removes c

structure FlowOn (l : List CoreEvent) (e : CoreSession) (past : Bool) (c : ConnId) : Prop where
  waiting : ∀ q, e.completedCrypto = true → past = false → e.pkaOp = some q → .consume c q ∉ l
  once : ∀ q w, .publish c q w ∈ l → l.count (.consume c q) = 1
    ∨ (e.completedCrypto = true ∧ e.pkaOp = some q ∧ past = false)

def Known (s : Cores) (q : Request) : Prop :=
  q ∈ s.held ∨ (∃ b, s.worker = .submitting q b) ∨ (∃ c, (s.sess c).pkaOp = some q)
    ∨ ∃ c, .consume c q ∈ s.trace

structure FlowInv (s : Cores) : Prop where
  old : ∀ q, Known s q → q.ticket < s.tickets
  unheld : ∀ c q, .consume c q ∈ s.trace → q ∉ s.held ∧ ∀ b, s.worker ≠ .submitting q b
  cleared : ∀ c, s.worker = .clearing c → ∀ q w, .publish c q w ∉ life c s.trace
  session : ∀ c, FlowOn (life c s.trace) (s.sess c) (s.worker.past c) c

section

variable {own own' : OpId → Owner} {s s' : Cores} {c : ConnId} {q : Request} {o : OpId}

theorem life_cons (e : CoreEvent) (trace : List CoreEvent) :
    life c (e :: trace) = if e.removes c then [] else e :: life c trace := by
  unfold life
  rw [List.takeWhile_cons]
  cases e.removes c <;> rfl

theorem mem_trace_of_life {e : CoreEvent} {trace : List CoreEvent} (h : e ∈ life c trace) : e ∈ trace :=
  (List.takeWhile_prefix _).subset h

theorem FlowOn.same {l : List CoreEvent} {e e' : CoreSession} {p p' : Bool} (h : FlowOn l e p c)
    (hc : e'.completedCrypto = e.completedCrypto) (hop : e'.pkaOp = e.pkaOp) (hp : p' = p) :
    FlowOn l e' p' c where
  waiting := by rw [hc, hop, hp]; exact h.waiting
  once := by rw [hc, hop, hp]; exact h.once

theorem FlowOn.cons {l : List CoreEvent} {e : CoreSession} {p : Bool} {x : CoreEvent}
    (h : FlowOn l e p c) (hp : ∀ q w, x ≠ .publish c q w) (hc : ∀ q, x ≠ .consume c q) :
    FlowOn (x :: l) e p c where
  waiting q h1 h2 h3 hm := by
    rcases List.mem_cons.mp hm with he | hm
    · exact hc q he.symm
    · exact h.waiting q h1 h2 h3 hm
  once q w hm := by
    rcases List.mem_cons.mp hm with he | hm
    · exact absurd he.symm (hp q w)
    · rw [List.count_cons_of_ne (hc q)]
      exact h.once q w hm

theorem FlowOn.nil (e : CoreSession) (p : Bool) (c : ConnId) : FlowOn [] e p c :=
  ⟨fun _ _ _ _ => nofun, nofun⟩

/-- A step that publishes and consumes nothing. -/
structure FlowQuiet (s s' : Cores) : Prop where
  tickets : s.tickets ≤ s'.tickets
  held : ∀ x ∈ s'.held, x ∈ s.held ∨ ∃ b, s.worker = .submitting x b
  next : ∀ q b, s'.worker = .submitting q b →
    s.worker = .submitting q b ∨ (q.ticket = s.tickets ∧ s.tickets < s'.tickets)
  clearing : ∀ c, s'.worker = .clearing c → s.worker = .clearing c
  session : ∀ c, (s'.sess c).completedCrypto = (s.sess c).completedCrypto
    ∧ (s'.sess c).pkaOp = (s.sess c).pkaOp ∧ s'.worker.past c = s.worker.past c

theorem FlowInv.quiet (h : FlowInv s) (hq : FlowQuiet s s') (ht : s'.trace = s.trace) :
    FlowInv s' := by
  have hknown : ∀ q, Known s' q → Known s q ∨ (q.ticket = s.tickets ∧ s.tickets < s'.tickets) := by
    rintro q (hm | ⟨b, hw⟩ | ⟨c, hop⟩ | ⟨c, hm⟩)
    · rcases hq.held q hm with hm | hw
      · exact .inl (.inl hm)
      · exact .inl (.inr (.inl hw))
    · rcases hq.next q b hw with hw | hnew
      · exact .inl (.inr (.inl ⟨b, hw⟩))
      · exact .inr hnew
    · exact .inl (.inr (.inr (.inl ⟨c, (hq.session c).2.1 ▸ hop⟩)))
    · exact .inl (.inr (.inr (.inr ⟨c, ht ▸ hm⟩)))
  refine ⟨fun q hk => ?_, fun c q hm => ⟨fun hx => ?_, fun b hw => ?_⟩, fun c hw => ?_, fun c => ?_⟩
  · have hle := hq.tickets
    rcases hknown q hk with hk | hnew
    · have hlt := h.old q hk
      omega
    · omega
  · obtain ⟨h1, h2⟩ := h.unheld c q (ht ▸ hm)
    rcases hq.held q hx with hx | ⟨b, hw⟩
    · exact h1 hx
    · exact h2 b hw
  · rw [ht] at hm
    rcases hq.next q b hw with hw | hnew
    · exact (h.unheld c q hm).2 b hw
    · have hlt := h.old q (.inr (.inr (.inr ⟨c, hm⟩)))
      omega
  · exact ht ▸ h.cleared c (hq.clearing c hw)
  · obtain ⟨h1, h2, h3⟩ := hq.session c
    exact ht ▸ (h.session c).same h1 h2 h3

theorem FlowInv.record (h : FlowInv s) (p : Option OpId) (d : ConnId) (hq : FlowQuiet s s')
    (ht : s'.trace = .record d p :: s.trace) : FlowInv s' := by
  have hmem : ∀ c q, .consume c q ∈ CoreEvent.record d p :: s.trace → .consume c q ∈ s.trace :=
    fun c q hm => by simpa using hm
  have h' : FlowInv { s with trace := .record d p :: s.trace } := by
    refine ⟨fun q hk => h.old q ?_, fun c q hm => h.unheld c q (hmem c q hm), fun c hw q w hm => ?_,
      fun c => ?_⟩
    · rcases hk with hk | hk | hk | ⟨c, hm⟩
      · exact .inl hk
      · exact .inr (.inl hk)
      · exact .inr (.inr (.inl hk))
      · exact .inr (.inr (.inr ⟨c, hmem c q hm⟩))
    · rw [life_cons] at hm
      exact h.cleared c hw q w (by simpa [CoreEvent.removes] using hm)
    · rw [life_cons]
      exact (h.session c).cons nofun nofun
  exact h'.quiet ⟨hq.tickets, hq.held, hq.next, hq.clearing, hq.session⟩ ht

theorem take_quiet {s0 : Cores} {opcode : Opcode} {r : Bool} (ht : s.take c opcode r none = .ok s')
    (hw : s0.worker = .idle) (hheld : s.held = s0.held) (htick : s.tickets = s0.tickets)
    (hs : ∀ c, (s.sess c).completedCrypto = (s0.sess c).completedCrypto
      ∧ (s.sess c).pkaOp = (s0.sess c).pkaOp) : FlowQuiet s0 s' := by
  unfold Cores.take at ht
  split at ht <;> cases ht
  refine ⟨by simp [Cores.allocated, htick], fun x hx => .inl (hheld ▸ hx), fun q b hq => .inr ?_,
    nofun, fun i => ⟨(hs i).1, (hs i).2, ?_⟩⟩
  · cases hq
    exact ⟨htick, by simp [Cores.allocated, htick]⟩
  · rw [hw]
    rfl

theorem hello_flow (h : FlowInv s) (hw : s.worker = .idle) (hs' : s.hello c = .ok s') :
    FlowInv s' := by
  unfold Cores.hello at hs'
  split at hs'
  · exact h.quiet (take_quiet hs' hw rfl rfl fun _ => ⟨rfl, rfl⟩) (take_trace hs')
  · cases hs'
    exact h

theorem FlowQuiet.of (hheld : ∀ x ∈ s'.held, x ∈ s.held ∨ ∃ b, s.worker = .submitting x b)
    (htick : s'.tickets = s.tickets)
    (hsess : ∀ c, (s'.sess c).completedCrypto = (s.sess c).completedCrypto
      ∧ (s'.sess c).pkaOp = (s.sess c).pkaOp)
    (hw : s'.worker = s.worker ∨
      ((∀ q b, s'.worker ≠ .submitting q b) ∧ (∀ c, s'.worker ≠ .clearing c)
        ∧ ∀ c, s'.worker.past c = s.worker.past c)) : FlowQuiet s s' := by
  refine ⟨Nat.le_of_eq htick.symm, hheld, fun q b h => ?_, fun c h => ?_,
    fun c => ⟨(hsess c).1, (hsess c).2, ?_⟩⟩
  · rcases hw with hw | hw
    · exact .inl (hw ▸ h)
    · exact absurd h (hw.1 q b)
  · rcases hw with hw | hw
    · exact hw ▸ h
    · exact absurd h (hw.2.1 c)
  · rcases hw with hw | hw
    · rw [hw]
    · exact hw.2.2 c

theorem FlowQuiet.pka (hheld : ∀ x ∈ s'.held, x ∈ s.held) (htick : s'.tickets = s.tickets)
    (hw : s'.worker = s.worker) (hsess : ∀ c, (s'.sess c).completedCrypto = (s.sess c).completedCrypto
      ∧ (s'.sess c).pkaOp = (s.sess c).pkaOp) : FlowQuiet s s' :=
  .of (fun x hx => .inl (hheld x hx)) htick hsess (.inl hw)

theorem submit_flow (h : FlowInv s) (b : Option Request) (hw : s.worker = .submitting q b) :
    FlowInv (s.submit q b) := by
  unfold Cores.submit
  split
  · refine h.quiet (.of (fun x hx => .inl hx) rfl (fun _ => ⟨rfl, rfl⟩) (.inr ?_)) rfl
    rw [hw]
    cases b <;> simp [Worker.past, Worker.within, Cores.resume]
  · refine h.quiet (.of (fun x hx => ?_) rfl (fun _ => ⟨rfl, rfl⟩)
      (.inr ⟨by simp, by simp, fun _ => by rw [hw]; rfl⟩)) rfl
    simp only [Cores.held, List.mem_append, List.mem_singleton] at hx ⊢
    rcases hx with ((hx | rfl) | hx) | hx
    · exact .inl (.inl (.inl hx))
    · exact .inr ⟨b, hw⟩
    · exact .inl (.inl (.inr hx))
    · exact .inl (.inr hx)

/- The result of `q` is handled: it was published and nobody had looked at it yet. -/
theorem consume_flow (h : FlowInv s) (hinv : CoresInv own s) (hw : s.worker = .answering c q)
    (ht : s'.trace = .consume c q :: s.trace) (htick : s.tickets ≤ s'.tickets)
    (hheld : s'.held = s.held)
    (hnext : ∀ x b, s'.worker = .submitting x b → x.ticket = s.tickets ∧ s.tickets < s'.tickets)
    (hcl : ∀ c, s'.worker ≠ .clearing c)
    (hsess : ∀ i, (s'.sess i).completedCrypto = (s.sess i).completedCrypto
      ∧ (s'.sess i).pkaOp = (s.sess i).pkaOp)
    (hpast : ∀ i, s'.worker.past i = decide (i = c)) : FlowInv s' := by
  have hwork := hinv.worker
  simp only [WorkerInv, hw] at hwork
  obtain ⟨hcomp, hop, -⟩ := hwork
  obtain ⟨-, q', hq', hdone, -⟩ := (hinv.session c).completed (by rw [hw]; rfl) hcomp
  obtain rfl : q' = q := Option.some.inj (hq'.symm.trans hop)
  have hunheld : q' ∉ s.held := fun hm => by
    rw [(hinv.custody.held.mem q').mp hm] at hdone
    cases hdone
  have hlt : q'.ticket < s.tickets := h.old q' (.inr (.inr (.inl ⟨c, hop⟩)))
  have hnew : .consume c q' ∉ life c s.trace :=
    (h.session c).waiting q' hcomp (by rw [hw]; rfl) hop
  refine ⟨fun x hk => ?_, fun d x hm => ⟨fun hx => ?_, fun b hx => ?_⟩,
    fun d hd => absurd hd (hcl d), fun d => ?_⟩
  · rcases hk with hm | ⟨b, hx⟩ | ⟨d, hx⟩ | ⟨d, hm⟩
    · exact Nat.lt_of_lt_of_le (h.old x (.inl (hheld ▸ hm))) htick
    · have := hnext x b hx
      omega
    · exact Nat.lt_of_lt_of_le (h.old x (.inr (.inr (.inl ⟨d, (hsess d).2 ▸ hx⟩)))) htick
    · rw [ht] at hm
      rcases List.mem_cons.mp hm with he | hm
      · cases he
        omega
      · exact Nat.lt_of_lt_of_le (h.old x (.inr (.inr (.inr ⟨d, hm⟩)))) htick
  · rw [ht] at hm
    rw [hheld] at hx
    rcases List.mem_cons.mp hm with he | hm
    · cases he
      exact hunheld hx
    · exact (h.unheld d x hm).1 hx
  · have hnew := hnext x b hx
    rw [ht] at hm
    rcases List.mem_cons.mp hm with he | hm
    · cases he
      omega
    · have hlt := h.old x (.inr (.inr (.inr ⟨d, hm⟩)))
      omega
  · rw [ht, life_cons]
    simp only [CoreEvent.removes, Bool.false_eq_true, if_false]
    by_cases hd : d = c
    · subst hd
      refine ⟨fun x _ hp => ?_, fun x w hm => .inl ?_⟩
      · rw [hpast d] at hp
        simp at hp
      · -- whatever was published before has been consumed, `q` is consumed now
        have hm : .publish d x w ∈ life d s.trace := by simpa using hm
        rcases (h.session d).once x w hm with h1 | ⟨-, h1, -⟩
        · have hne : x ≠ q' := fun he => by
            rw [he, List.count_eq_zero.mpr hnew] at h1
            omega
          rw [List.count_cons_of_ne (by simpa using Ne.symm hne)]
          exact h1
        · obtain rfl : x = q' := Option.some.inj (h1.symm.trans hop)
          rw [List.count_cons_self, List.count_eq_zero.mpr hnew]
    · refine ((h.session d).same (hsess d).1 (hsess d).2 ?_).cons (by simp) (fun x he => ?_)
      · rw [hpast d, hw]
        simp [hd, Worker.past, Worker.within]
      · cases he
        exact hd rfl

theorem answer_flow (h : FlowInv s) (hinv : CoresInv own s) (hw : s.worker = .answering c q)
    (hs' : s.answer c q = .ok s') : FlowInv s' := by
  unfold Cores.answer at hs'
  split at hs'
  · split at hs'
    · unfold Cores.take at hs'
      split at hs' <;> cases hs'
      refine consume_flow h hinv hw rfl (Nat.le_succ _) rfl (fun x b hx => ?_) (by simp [Cores.allocated]) (fun i => ?_)
        (fun i => ?_)
      · cases hx
        exact ⟨rfl, Nat.lt_succ_self _⟩
      · simp only [Cores.allocated, Cores.record, Cores.setOp, Cores.setSess]
        split <;> exact ⟨rfl, rfl⟩
      · simp [Cores.allocated, Worker.past, eq_comm]
    · cases hs'
  · cases hs'
    refine consume_flow h hinv hw rfl (Nat.le_refl _) rfl (by simp) (by simp) (fun i => ?_)
      (fun i => by simp [Worker.past, Worker.within, eq_comm])
    simp only [Cores.record, Cores.setSess]
    split <;> exact ⟨rfl, rfl⟩
  · cases hs'
    refine consume_flow h hinv hw rfl (Nat.le_refl _) rfl (by simp) (by simp) (fun i => ?_)
      (fun i => by simp [Worker.past, Worker.within, eq_comm])
    simp only [Cores.record, Cores.setSess]
    split <;> exact ⟨rfl, rfl⟩
  · cases hs'

/- `completed_crypto = FALSE`, when every published result of the session has been handled. -/
theorem clear_flow (h : FlowInv s) (hdone : ∀ q w, .publish c q w ∈ life c s.trace →
      (life c s.trace).count (.consume c q) = 1)
    (hs' : s' = { s.setSess c fun e => { e with completedCrypto := false } with worker := s'.worker })
    (hw : ∀ q b, s'.worker ≠ .submitting q b) (hcl : ∀ c, s'.worker ≠ .clearing c)
    (hpast : ∀ i, i ≠ c → s'.worker.past i = s.worker.past i) : FlowInv s' := by
  have hheld : s'.held = s.held := by rw [hs']; rfl
  have hop : ∀ i, (s'.sess i).pkaOp = (s.sess i).pkaOp := fun i => by
    rw [hs']
    simp only [Cores.setSess]
    split <;> rfl
  have htrace : s'.trace = s.trace := by rw [hs']; rfl
  have htick : s'.tickets = s.tickets := by rw [hs']; rfl
  refine ⟨fun q hk => htick ▸ h.old q ?_, fun d q hm => ⟨?_, hw q⟩, fun d hd => absurd hd (hcl d),
    fun d => ?_⟩
  · rcases hk with hk | ⟨b, hk⟩ | ⟨d, hk⟩ | ⟨d, hk⟩
    · exact .inl (hheld ▸ hk)
    · exact absurd hk (hw q b)
    · exact .inr (.inr (.inl ⟨d, hop d ▸ hk⟩))
    · exact .inr (.inr (.inr ⟨d, htrace ▸ hk⟩))
  · rw [hheld]
    exact (h.unheld d q (htrace ▸ hm)).1
  · rw [htrace]
    by_cases hd : d = c
    · subst hd
      have hclr : (s'.sess d).completedCrypto = false := by rw [hs']; simp [Cores.setSess]
      exact ⟨fun _ hc => (by rw [hclr] at hc; cases hc), fun q w hm => .inl (hdone q w hm)⟩
    · refine (h.session d).same ?_ (hop d) (hpast d hd)
      rw [hs']
      simp [Cores.setSess, hd]

theorem work_flow (h : FlowInv s) (hinv : CoresInv own s) (hs' : s.work = .ok s') : FlowInv s' := by
  unfold Cores.work at hs'
  split at hs' <;> rename_i hw
  case h_1 => cases hs'; exact h
  case h_2 => cases hs'; exact submit_flow h _ hw
  case h_8 => exact answer_flow h hinv hw hs'
  case h_10 c q =>
    cases hs'
    refine clear_flow h (fun x w hm => ?_) rfl (by simp) (by simp) (fun i hi => ?_)
    · rcases (h.session c).once x w hm with h1 | ⟨-, -, hp⟩
      · exact h1
      · rw [hw] at hp
        simp [Worker.past, Worker.within] at hp
    · rw [hw]
      simp [Worker.past, Worker.within, Ne.symm hi]
  case h_12 c =>
    cases hs'
    refine clear_flow h (fun x w hm => absurd hm (h.cleared c hw x w)) rfl (by simp) (by simp) fun i _ => ?_
    rw [hw]
    rfl
  case h_6 =>
    split at hs' <;> cases hs'
    exact h.quiet (.of (fun _ hx => .inl hx) rfl (fun _ => ⟨rfl, rfl⟩)
      (.inr ⟨by simp, by simp, fun _ => by rw [hw]; rfl⟩)) rfl
  case h_13 =>
    split at hs' <;> cases hs' <;>
    exact h.quiet (.of (fun _ hx => .inl hx) rfl (fun _ => ⟨rfl, rfl⟩)
      (.inr ⟨by simp, by simp, fun _ => by rw [hw]; rfl⟩)) rfl
  case h_5 q b =>
    cases hs'
    refine h.quiet (.of (fun _ hx => .inl hx) rfl (fun i => ?_) (.inr ?_)) rfl
    · simp only [Cores.setSess]
      split <;> exact ⟨rfl, rfl⟩
    · rw [hw]
      cases b <;> simp [Worker.past, Worker.within, Cores.resume]
  all_goals
    cases hs'
    refine h.quiet (.of (fun _ hx => .inl hx) rfl (fun i => ?_)
      (.inr ⟨by simp, by simp, fun _ => by rw [hw]; rfl⟩)) rfl
    first
      | exact ⟨rfl, rfl⟩
      | (simp only [Cores.setSess]; split <;> exact ⟨rfl, rfl⟩)

theorem returned_flow (h : FlowInv s) (hinv : CoresInv own s) (hp : s.pka = .returned q)
    (hs : (s.ops q.op).sess = some c) :
    FlowInv { s.setSess c fun e => { e with pkaOp := some q } with pka := .delivering q c } := by
  have hmem : q ∈ s.held := by simp [Cores.held, hp, PkaCore.hand]
  obtain ⟨-, hsome⟩ := held_sess hinv.custody hmem
  obtain rfl : q.sess = c := Option.some.inj (hsome.symm.trans hs)
  have hheld : ∀ x, x ∈ (s.ring ++ s.engine ++ [q]) ↔ x ∈ s.held := fun x => by
    simp [Cores.held, hp, PkaCore.hand]
  refine ⟨fun x hk => h.old x ?_, fun d x hm => ?_, h.cleared, fun d => ?_⟩
  · rcases hk with hk | hk | ⟨d, hk⟩ | hk
    · exact .inl ((hheld x).mp hk)
    · exact .inr (.inl hk)
    · simp only [Cores.setSess] at hk
      split at hk
      · cases hk
        exact .inl hmem
      · exact .inr (.inr (.inl ⟨d, hk⟩))
    · exact .inr (.inr (.inr hk))
  · exact ⟨fun hx => (h.unheld d x hm).1 ((hheld x).mp hx), (h.unheld d x hm).2⟩
  · by_cases hd : d = q.sess
    · subst hd
      refine ⟨fun x _ _ hx hm => ?_, fun x w hm => .inl ?_⟩
      · obtain rfl : q = x := by simpa [Cores.setSess] using hx
        exact (h.unheld _ q (mem_trace_of_life hm)).1 hmem
      · rcases (h.session q.sess).once x w hm with h1 | ⟨hc, -, hpast⟩
        · exact h1
        · rw [not_waiting hinv hmem hc] at hpast
          cases hpast
    · exact (h.session d).same (by simp [Cores.setSess, hd]) (by simp [Cores.setSess, hd]) rfl

theorem publish_flow (h : FlowInv s) (hinv : CoresInv own s) (hp : s.pka = .copying q c)
    (hwithin : s.worker.within c = false) :
    FlowInv { (s.setSess c fun e => { e with completedCrypto := true }).record
      (.publish c q (s.worker.within c)) with pka := .idle } := by
  have hpka := hinv.pka
  simp only [PkaInv, hp] at hpka
  obtain ⟨rfl, hop⟩ := hpka
  have hmem : q ∈ s.held := by simp [Cores.held, hp, PkaCore.hand]
  have hown := (held_sess hinv.custody hmem).1
  have hwork := hinv.worker
  have hpast : s.worker.past q.sess = false := by
    unfold Worker.past
    split
    · rename_i x b hw
      simp only [WorkerInv, hw] at hwork
      simpa using fun _ => Ne.symm (hwork.2.2.none q.op q hown)
    · exact hwithin
  have hsub : ∀ x, x ∈ s.ring ++ s.engine ++ [] → x ∈ s.held := fun x hx => by
    simp only [Cores.held, hp, List.append_nil, List.mem_append] at hx ⊢
    exact .inl hx
  have hopsame : ∀ d, ((s.setSess q.sess fun e => { e with completedCrypto := true }).sess d).pkaOp
      = (s.sess d).pkaOp := fun d => by
    simp only [Cores.setSess]
    split <;> rfl
  refine ⟨fun x hk => h.old x ?_, fun d x hm => ?_, fun d hw x w hm => ?_, fun d => ?_⟩
  · rcases hk with hk | hk | ⟨d, hk⟩ | ⟨d, hk⟩
    · exact .inl (hsub x hk)
    · exact .inr (.inl hk)
    · exact .inr (.inr (.inl ⟨d, hopsame d ▸ hk⟩))
    · exact .inr (.inr (.inr ⟨d, by simpa [Cores.record] using hk⟩))
  · have hm : .consume d x ∈ s.trace := by simpa [Cores.record] using hm
    exact ⟨fun hx => (h.unheld d x hm).1 (hsub x hx), (h.unheld d x hm).2⟩
  · have hw' : s.worker = .clearing d := hw
    simp only [WorkerInv, hw'] at hwork
    have hne : d ≠ q.sess := fun he => hwork.1 q.op q hown he.symm
    simp only [Cores.record, life_cons] at hm
    exact h.cleared d hw' x w (by simpa [CoreEvent.removes, hne] using hm)
  · simp only [Cores.record, life_cons, CoreEvent.removes, Bool.false_eq_true, if_false]
    by_cases hd : d = q.sess
    · subst hd
      refine ⟨fun x _ _ hx hm => ?_, fun x w hm => ?_⟩
      · obtain rfl : q = x := Option.some.inj (hop.symm.trans (hopsame q.sess ▸ hx))
        have hm : .consume q.sess q ∈ life q.sess s.trace := by simpa using hm
        exact (h.unheld _ q (mem_trace_of_life hm)).1 hmem
      · rcases List.mem_cons.mp hm with he | hm
        · cases he
          exact .inr ⟨by simp, (hopsame _).trans hop, hpast⟩
        · rw [List.count_cons_of_ne (by simp)]
          rcases (h.session q.sess).once x w hm with h1 | ⟨hc, -, -⟩
          · exact .inl h1
          · rw [not_waiting hinv hmem hc] at hpast
            cases hpast
    · refine ((h.session d).same ?_ (hopsame d) rfl).cons (fun x w he => ?_) (by simp)
      · simp [Cores.setSess, hd]
      · cases he
        exact hd rfl

theorem pkaStep_flow (h : FlowInv s) (hinv : CoresInv own s) (hs' : s.pkaStep = .ok s')
    (hwithin : ∀ c q w, .publish c q w ∈ s'.trace → w = false) : FlowInv s' := by
  have hheld := pkaStep_held hs'
  unfold Cores.pkaStep at hs'
  split at hs' <;> rename_i hp
  · cases hs'; exact h
  · split at hs' <;> cases hs'
    exact h.quiet (.pka hheld rfl rfl fun _ => ⟨rfl, rfl⟩) rfl
  · cases hs'
    exact h.quiet (.pka hheld rfl rfl fun _ => ⟨rfl, rfl⟩) rfl
  · split at hs' <;> cases hs'
    refine h.quiet (.pka hheld rfl rfl fun i => ?_) rfl
    simp only [Cores.setSess]
    split <;> exact ⟨rfl, rfl⟩
  · split at hs' <;> cases hs'
    rename_i hs
    exact returned_flow h hinv hp hs
  · split at hs'
    · cases hs'
      exact h.quiet (.pka hheld rfl rfl fun _ => ⟨rfl, rfl⟩) rfl
    · split at hs' <;> cases hs'
      exact h.quiet (.pka hheld rfl rfl fun _ => ⟨rfl, rfl⟩) rfl
  · cases hs'
    exact publish_flow h hinv hp (hwithin _ _ _ List.mem_cons_self)

theorem sendRemain_flow (h : FlowInv s) (hw : s.worker = .idle) (hs' : s.sendRemain c = .ok s') :
    FlowInv s' := by
  have hset : ∀ t : HandshakeType, ∀ i,
      ((s.setSess c fun e => { e with handshakeState := t }).sess i).completedCrypto
        = (s.sess i).completedCrypto
      ∧ ((s.setSess c fun e => { e with handshakeState := t }).sess i).pkaOp = (s.sess i).pkaOp := by
    intro t i
    simp only [Cores.setSess]
    split <;> exact ⟨rfl, rfl⟩
  have hmove : ∀ t : HandshakeType, FlowInv (s.setSess c fun e => { e with handshakeState := t }) :=
    fun t => h.quiet (.of (fun _ hx => .inl hx) rfl (hset t) (.inl rfl)) rfl
  unfold Cores.sendRemain at hs'
  dsimp only at hs'
  split at hs'
  · have ht := take_trace hs'
    exact h.quiet (take_quiet hs' hw rfl rfl (hset .certificate)) ht
  · split at hs'
    · cases hs'; exact hmove .certificateVerify
    · split at hs' <;> cases hs'
      · exact hmove .finished
      · exact h

theorem advance_flow {t : HandshakeType} (h : FlowInv s) : FlowInv (s.advance c t) := by
  refine h.record (s.sess c).pendingPkaOp c (.of (fun _ hx => .inl hx) rfl (fun i => ?_) (.inl rfl)) rfl
  simp only [Cores.advance, Cores.record, Cores.setSess]
  split <;> exact ⟨rfl, rfl⟩

theorem remove_flow (h : FlowInv s) (hw : s.worker = .idle) : FlowInv (s.remove c) := by
  have hop : ∀ i, ((s.remove c).sess i).completedCrypto = (s.sess i).completedCrypto
      ∧ ((s.remove c).sess i).pkaOp = (s.sess i).pkaOp := fun i => by
    simp only [Cores.remove, Cores.record, Cores.setSess]
    split <;> exact ⟨rfl, rfl⟩
  have hmem : ∀ d q, .consume d q ∈ (s.remove c).trace → .consume d q ∈ s.trace := fun d q hm => by
    simpa [Cores.remove, Cores.record] using hm
  have htrace : (s.remove c).trace = .remove c (s.held.filter (·.sess = c)) :: s.trace := rfl
  refine ⟨fun q hk => h.old q ?_,
    fun d q hm => ⟨(h.unheld d q (hmem d q hm)).1, by simp [Cores.remove, Cores.record]⟩, fun d hd => ?_, fun d => ?_⟩
  · rcases hk with hk | ⟨b, hk⟩ | ⟨d, hk⟩ | ⟨d, hk⟩
    · exact .inl hk
    · cases hk
    · exact .inr (.inr (.inl ⟨d, (hop d).2 ▸ hk⟩))
    · exact .inr (.inr (.inr ⟨d, hmem d q hk⟩))
  · cases hd
    rw [htrace, life_cons]
    simp [CoreEvent.removes]
  · rw [htrace, life_cons]
    by_cases hd : c = d
    · simp only [CoreEvent.removes, hd, decide_true, if_true]
      exact .nil _ _ d
    · simp only [CoreEvent.removes, hd, decide_false, Bool.false_eq_true, if_false]
      refine ((h.session d).same (hop d).1 (hop d).2 ?_).cons (by simp) (by simp)
      rw [hw]
      rfl

theorem act_flow {a : Action} (h : FlowInv s) (hinv : CoresInv own s) (hs' : s.act a = .ok s')
    (hwithin : ∀ c q w, .publish c q w ∈ s'.trace → w = false) : FlowInv s' := by
  cases a with
  | work => exact work_flow h hinv hs'
  | pka => exact pkaStep_flow h hinv hs' hwithin
  | cipher pool used =>
    cases hs'
    split
    · exact h.quiet (.of (fun _ hx => .inl hx) rfl (fun _ => ⟨rfl, rfl⟩) (.inl rfl)) rfl
    · exact h
  | dequeue =>
    have hheld := dequeue_held hs'
    simp only [Cores.act] at hs'
    split at hs' <;> cases hs'
    · exact h.quiet (.pka hheld rfl rfl fun _ => ⟨rfl, rfl⟩) rfl
    · exact h
  | fetch i =>
    have hheld := fetch_held hs'
    simp only [Cores.act] at hs'
    split at hs' <;> cases hs'
    · exact h.quiet (.pka hheld rfl rfl fun _ => ⟨rfl, rfl⟩) rfl
    · exact h
  | hello c =>
    simp only [Cores.act] at hs'
    split at hs'
    · rename_i hw
      exact hello_flow h hw hs'
    · cases hs'; exact h
  | sendRemain c =>
    simp only [Cores.act] at hs'
    split at hs'
    · rename_i hw
      exact sendRemain_flow h hw hs'
    · cases hs'; exact h
  | changeCipherSpec c =>
    cases hs'
    split
    · unfold Cores.changeCipherSpec
      dsimp only
      split
      · exact h
      · exact advance_flow h
    · exact h
  | finished c =>
    cases hs'
    split
    · unfold Cores.finished
      split
      · exact h
      · exact advance_flow h
    · exact h
  | serve c =>
    cases hs'
    split
    · rename_i hc
      refine h.quiet (.of (fun _ hx => .inl hx) rfl (fun _ => ⟨rfl, rfl⟩)
        (.inr ⟨by simp, by simp, fun _ => ?_⟩)) rfl
      rw [hc.1]
      rfl
    · exact h
  | remove c =>
    cases hs'
    split
    · rename_i hw
      exact remove_flow h hw
    · exact h

/-- No session is removed while the PKA core holds a request of it, no record moves `handshake_state` while an
operation of the session is pending, and no result is published while the worker is between the submission it
belongs to and the end of `get_processed_crypto`. -/
def CoreEvent.Timely : CoreEvent → Prop
  | .publish _ _ within => within = false
  | e => e.Settled

instance : DecidablePred CoreEvent.Timely
  | .publish _ _ within => inferInstanceAs (Decidable (within = false))
  | .remove c held => inferInstanceAs (Decidable (CoreEvent.Settled (.remove c held)))
  | .record c pending => inferInstanceAs (Decidable (CoreEvent.Settled (.record c pending)))
  | .consume .. => .isTrue trivial

theorem CoreEvent.Timely.settled {e : CoreEvent} (h : e.Timely) : e.Settled := by
  cases e with
  | publish => trivial
  | _ => exact h

/- The record of a key generation comes with its operation: both are filled in at once and cleared at once. -/
def Recorded (ops : OpId → CoreOp) : Prop :=
  ∀ o, (ops o).opcode = .ecdheKeyGeneration → (ops o).record = true

/-- What a schedule with these events keeps. -/
structure TimelyInv (s : Cores) : Prop where
  matched : MatchedInv s
  flow : FlowInv s
  recorded : Recorded s.ops

theorem Recorded.setOp (h : Recorded s.ops) (f : CoreOp → CoreOp)
    (hf : (f (s.ops o)).opcode = .ecdheKeyGeneration → (f (s.ops o)).record = true) : Recorded (s.setOp o f).ops := by
  intro i
  by_cases hi : i = o
  · subst hi
    simp only [Cores.setOp, if_true]
    exact hf
  · simp only [Cores.setOp, if_neg hi]
    exact h i

theorem Recorded.deleteOp (h : Recorded s.ops) (o : OpId) : Recorded (s.deleteOp o).ops :=
  h.setOp (fun _ => {}) fun hk => by cases hk

theorem Recorded.flag (h : Recorded s.ops) (o : OpId) (b : Bool) :
    Recorded (s.setOp o fun v => { v with pkaFlag := b }).ops :=
  h.setOp (fun v => { v with pkaFlag := b }) (h o)

theorem Recorded.take {opcode : Opcode} {record : Bool} {b : Option Request} (h : Recorded s.ops)
    (hr : opcode = .ecdheKeyGeneration → record = true) (ht : s.take c opcode record b = .ok s') : Recorded s'.ops := by
  unfold Cores.take at ht
  split at ht <;> cases ht
  exact h.setOp (fun v => { v with opcode := opcode, sess := some c, record := record }) hr

theorem Recorded.answer (h : Recorded s.ops) (hs' : s.answer c q = .ok s') : Recorded s'.ops := by
  unfold Cores.answer at hs'
  split at hs'
  · split at hs'
    · have hold : Recorded ((s.setSess c fun e => { e with handshakeState := .serverHello }).record
          (.consume c q)).ops := h
      exact hold.take (fun hk => by cases hk) hs'
    · cases hs'
  · cases hs'
    exact h
  · cases hs'
    exact h
  · cases hs'

theorem Recorded.work (h : Recorded s.ops) (hs' : s.work = .ok s') : Recorded s'.ops := by
  unfold Cores.work at hs'
  split at hs'
  case h_2 =>
    cases hs'
    unfold Cores.submit
    split
    · exact h.deleteOp _
    · exact h
  case h_4 =>
    cases hs'
    exact h.flag _ true
  case h_6 =>
    split at hs' <;> cases hs'
    exact h
  case h_8 => exact h.answer hs'
  case h_11 =>
    cases hs'
    exact h.deleteOp _
  case h_13 =>
    split at hs' <;> cases hs'
    · exact h
    · exact h.flag _ false
  case h_14 =>
    cases hs'
    exact h.deleteOp _
  all_goals
    cases hs'
    exact h

theorem Recorded.pkaStep (h : Recorded s.ops) (hs' : s.pkaStep = .ok s') : Recorded s'.ops := by
  unfold Cores.pkaStep at hs'
  split at hs'
  case h_2 =>
    split at hs' <;> cases hs'
    exact h
  case h_3 =>
    cases hs'
    exact h.flag _ true
  case h_4 | h_5 =>
    split at hs' <;> cases hs'
    exact h
  case h_6 =>
    split at hs'
    · cases hs'
      exact h
    · split at hs' <;> cases hs'
      exact h
  all_goals
    cases hs'
    exact h

theorem Recorded.act {a : Action} (h : Recorded s.ops) (hs' : s.act a = .ok s') : Recorded s'.ops := by
  cases a with
  | work => exact h.work hs'
  | pka => exact h.pkaStep hs'
  | cipher pool used =>
    cases hs'
    split
    · intro o
      dsimp only
      split
      · exact fun hk => by cases hk
      · exact h o
    · exact h
  | hello c =>
    simp only [Cores.act, Cores.hello] at hs'
    split at hs'
    · split at hs'
      · exact h.take (fun _ => rfl) hs'
      · cases hs'
        exact h
    · cases hs'
      exact h
  | sendRemain c =>
    simp only [Cores.act, Cores.sendRemain] at hs'
    split at hs'
    · split at hs'
      · have hold : Recorded (s.setSess c fun e => { e with handshakeState := .certificate }).ops := h
        exact hold.take (fun hk => by cases hk) hs'
      · split at hs'
        · cases hs'
          exact h
        · split at hs' <;> cases hs' <;> exact h
    · cases hs'
      exact h
  | dequeue | fetch =>
    simp only [Cores.act] at hs'
    split at hs' <;> cases hs' <;> exact h
  | changeCipherSpec c =>
    cases hs'
    unfold Cores.changeCipherSpec
    dsimp only
    split
    · split <;> exact h
    · exact h
  | finished c =>
    cases hs'
    unfold Cores.finished
    split
    · split <;> exact h
    · exact h
  | serve c | remove c =>
    cases hs'
    split <;> exact h

theorem act_timely (a : Action) (s s' : Cores) (h : s.act a = .ok s') :
    Keeps Cores.trace CoreEvent.Timely TimelyInv s s' := by
  refine ⟨act_grows h, fun hg hs => ?_⟩
  obtain ⟨own, hinv⟩ := hs.matched.inv
  exact ⟨(act_matched a s s' h).keeps (fun e he => (hg e he).settled) hs.matched,
    act_flow hs.flow hinv h fun c q w hm => hg _ hm, hs.recorded.act h⟩

theorem initial_timelyInv (n ringCnt : Nat) : TimelyInv (Cores.initial n ringCnt) :=
  ⟨initial_matchedInv n ringCnt,
    ⟨(by rintro q (h | ⟨b, h⟩ | ⟨c, h⟩ | ⟨c, h⟩) <;> cases h), nofun, nofun, fun c => .nil _ _ c⟩, nofun⟩

/-- The pool has an operation for the shared secret, which the handler of a key pair asks for. -/
def Cores.Stocked (s : Cores) (c : ConnId) : Prop := (s.sess c).handshakeState = .helloRequest → s.pool ≠ []

/-- The handler of the result returns and has handled it, wherever the PKA core has got to. -/
theorem TimelyInv.answers (h : TimelyInv s) (hw : s.worker = .answering c q) (hpool : s.Stocked c) :
    ∃ s', s.work = .ok s' ∧ s'.trace = .consume c q :: s.trace := by
  obtain ⟨own, hinv⟩ := h.matched.inv
  have hwork := hinv.worker
  simp only [WorkerInv, hw] at hwork
  obtain ⟨x, hx, -, hmatch⟩ := h.matched.serving (.inr (.inr ⟨q, hw⟩))
  obtain rfl : x = q := Option.some.inj (hx.symm.trans hwork.2.1)
  have hreturns : ∃ s', s.answer c x = .ok s' := by
    unfold Cores.answer
    rcases answeredIn_cases hmatch with hst | hst | hst
    · have hopcode : (s.ops x.op).opcode = .ecdheKeyGeneration := by
        rw [hst] at hmatch
        cases ho : (s.ops x.op).opcode <;> rw [ho] at hmatch <;> first | rfl | cases hmatch
      obtain ⟨o, pool, hcons⟩ := List.exists_cons_of_ne_nil (hpool hst)
      simp only [hst, h.recorded x.op hopcode, if_true, Cores.take, Cores.record, Cores.setSess, hcons]
      exact ⟨_, rfl⟩
    · simp only [hst]
      exact ⟨_, rfl⟩
    · simp only [hst]
      exact ⟨_, rfl⟩
  obtain ⟨s', hs'⟩ := hreturns
  refine ⟨s', ?_, answer_trace hs'⟩
  rw [Cores.work, hw]
  exact hs'

/-- A published result that is still visible is handled by the next `get_processed_crypto`, which returns. -/
theorem TimelyInv.serves (h : TimelyInv s) (htimely : ∀ e ∈ s.trace, e.Timely) (hw : s.worker = .idle)
    (hc : (s.sess c).completedCrypto = true) (hop : (s.sess c).pkaOp = some q) (hpool : s.Stocked c) :
    ∃ s', run Cores.act [.serve c, .work, .work, .work] s = .ok s' ∧ s'.trace = .consume c q :: s.trace := by
  -- the state in which the handler is called
  let t : Cores := { s.setSess c fun e => { e with pendingPkaOp := none } with worker := .answering c q }
  have hbegin : run Cores.act [.serve c, .work, .work] s = .ok t := by
    simp [run, Cores.act, Cores.work, hw, hc, hop, bind, Except.bind]
    rfl
  have ht : TimelyInv t := (run_keeps act_timely _ s t hbegin).keeps htimely h
  have hstocked : t.Stocked c := by
    simpa [Cores.Stocked, t] using hpool
  obtain ⟨s', hwork, htrace⟩ := ht.answers rfl hstocked
  refine ⟨s', ?_, htrace⟩
  have happend := run_append Cores.act [.serve c, .work, .work] [.work] s
  rw [hbegin] at happend
  refine happend.trans ?_
  show (t.work >>= run Cores.act []) = .ok s'
  rw [hwork]
  rfl

/-- Every result published in the present life of a session has been handled exactly once, or is there for
the next `get_processed_crypto`, which handles it. -/
def Accounted (s : Cores) : Prop :=
  ∀ c q w, .publish c q w ∈ life c s.trace →
    (life c s.trace).count (.consume c q) = 1
    ∨ ((life c s.trace).count (.consume c q) = 0
      ∧ (s.sess c).completedCrypto = true ∧ (s.sess c).pkaOp = some q
      ∧ (s.worker = .idle → s.Stocked c →
        ∃ s', run Cores.act [.serve c, .work, .work, .work] s = .ok s' ∧ s'.trace = .consume c q :: s.trace))

/-- In a schedule with timely events every published result is accounted for, and a `get_processed_crypto` that
has begun handles its result, whatever the PKA core does meanwhile. -/
theorem completion_accounted (n ringCnt : Nat) (actions : List Action) (s : Cores)
    (hrun : run Cores.act actions (Cores.initial n ringCnt) = .ok s)
    (htimely : ∀ e ∈ s.trace, e.Timely) :
    Accounted s ∧ ∀ c q, s.worker = .answering c q → s.Stocked c →
      ∃ s', s.work = .ok s' ∧ s'.trace = .consume c q :: s.trace := by
  have hinv := (run_keeps act_timely actions _ s hrun).keeps htimely (initial_timelyInv n ringCnt)
  refine ⟨fun c q w hm => ?_, fun c q hw hpool => hinv.answers hw hpool⟩
  rcases (hinv.flow.session c).once q w hm with h1 | ⟨hc, hop, hpast⟩
  · exact .inl h1
  · exact .inr ⟨List.count_eq_zero.mpr ((hinv.flow.session c).waiting q hc hpast hop), hc, hop,
      fun hw hpool => hinv.serves htimely hw hc hop hpool⟩

end

/- The shared secret has been published, and the next `get_processed_crypto` handles it. -/
theorem completion_accounted_two_results :
    ∃ s s', run Cores.act (sampleSubmission 0 ++ sampleDelivery ++ sampleResult 0 ++ sampleDelivery)
        (Cores.initial 2 8) = .ok s
      ∧ .publish 0 ⟨1, .ecdheSharedSecretCalc, 0, 1⟩ false ∈ life 0 s.trace ∧ Accounted s
      ∧ run Cores.act [.serve 0, .work, .work, .work] s = .ok s'
      ∧ s'.trace = .consume 0 ⟨1, .ecdheSharedSecretCalc, 0, 1⟩ :: s.trace := by
  obtain ⟨s, hs, hpub, hcount, hidle, hstocked, htimely⟩ := endsIn_ok
    (fun s : Cores => .publish 0 ⟨1, .ecdheSharedSecretCalc, 0, 1⟩ false ∈ life 0 s.trace
      ∧ (life 0 s.trace).count (.consume 0 ⟨1, .ecdheSharedSecretCalc, 0, 1⟩) = 0
      ∧ s.worker = .idle ∧ (s.sess 0).handshakeState = .serverHello ∧ ∀ e ∈ s.trace, e.Timely)
    (run Cores.act (sampleSubmission 0 ++ sampleDelivery ++ sampleResult 0 ++ sampleDelivery)
      (Cores.initial 2 8)) (by decide +kernel)
  obtain ⟨hacc, -⟩ := completion_accounted 2 8 _ s hs htimely
  rcases hacc 0 _ false hpub with h1 | ⟨-, -, -, hserve⟩
  · omega
  · obtain ⟨s', hs', htrace⟩ := hserve hidle fun hst => by
      rw [hstocked] at hst
      cases hst
    exact ⟨s, s', hs, hpub, hacc, hs', htrace⟩

/-- The shared secret is published before `get_processed_crypto`, which asked for it while handling
the key pair, has cleared the flag: its completion is gone. -/
theorem early_completion_lost :
    ∃ s, run Cores.act (sampleSubmission 0 ++ sampleDelivery ++ [.serve 0, .work, .work, .work, .work]
        ++ sampleDelivery ++ [.work, .work, .work, .work, .work, .work]) (Cores.initial 2 8) = .ok s
      ∧ ¬ Accounted s := by
  obtain ⟨s, hs, hpub, hcount, hc⟩ := endsIn_ok
    (fun s : Cores => .publish 0 ⟨1, .ecdheSharedSecretCalc, 0, 1⟩ true ∈ life 0 s.trace
      ∧ (life 0 s.trace).count (.consume 0 ⟨1, .ecdheSharedSecretCalc, 0, 1⟩) = 0
      ∧ (s.sess 0).completedCrypto = false)
    (run Cores.act (sampleSubmission 0 ++ sampleDelivery ++ [.serve 0, .work, .work, .work, .work]
      ++ sampleDelivery ++ [.work, .work, .work, .work, .work, .work]) (Cores.initial 2 8))
    (by decide +kernel)
  refine ⟨s, hs, fun h => ?_⟩
  rcases h 0 _ true hpub with h1 | ⟨-, h1, -⟩
  · omega
  · rw [hc] at h1
    cases h1

end Xtls.Nic
