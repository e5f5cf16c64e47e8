import Xtls.Lib.Ownership
import Xtls.Nic.Cores

/-!
# Who owns a crypto operation

An operation passes from the pool to the worker, from there through ring and engine to the PKA core,
and with its result to the session, until the worker releases it.  `CoresInv own s` says that `own`
names the owner of every operation in state `s` and that sessions, worker and PKA core only hold
operations they own.
-/

namespace Xtls.Nic

inductive Owner where
  | pool | worker | pka (q : Request) | done (q : Request)

/- The operation still says what was asked for. -/
def Cores.Agrees (s : Cores) (q : Request) : Prop :=
  (s.ops q.op).opcode = q.opcode ∧ (s.ops q.op).sess = some q.sess ∧ q.opcode.isPka = true

def NonePka (own : OpId → Owner) (c : ConnId) : Prop := ∀ o q, own o = .pka q → q.sess ≠ c

structure Custody (own : OpId → Owner) (s : Cores) : Prop where
  pool : Lists own (fun o => o) (fun _ => .pool) s.pool
  held : Lists own Request.op .pka s.held
  owned : ∀ o q, own o = .pka q ∨ own o = .done q → q.op = o ∧ s.Agrees q
  single : ∀ o o' q q', own o = .pka q → own o' = .pka q' → q.sess = q'.sess → o = o'

def Worker.on : Worker → Option ConnId
  | .idle => none
  | .submitting q _ | .enqueued q _ | .waiting q _ | .flagged q _ => some q.sess
  | .fetching c | .handling c _ | .answering c _ | .handled c _ | .unwaited c _ | .releasing c _
  | .clearing c | .detaching c | .rotting c _ | .detached c => some c

/- A request of session `c` is in the ring and `waiting_crypto` not yet set. -/
def Worker.entering : Worker → ConnId → Bool
  | .enqueued q _, c => q.sess = c
  | _, _ => false

/-- A session has at most one request with the PKA core, and none while a result waits for it, nor
in the two handshake states in which it submits the next one. -/
structure SessionInv (own : OpId → Owner) (w : Worker) (e : CoreSession) (c : ConnId) : Prop where
  pending : w ≠ .detached c → ∀ o, e.pendingPkaOp = some o →
    ∃ q, q.sess = c ∧ (own o = .pka q ∨ own o = .done q)
  completed : w.within c = false → e.completedCrypto = true →
    NonePka own c ∧ ∃ q, e.pkaOp = some q ∧ own q.op = .done q ∧ q.sess = c
  fresh : e.handshakeState = .helloRequest →
    e.handshakeKeyCalculated = false ∧ (e.waitingCrypto = false → w.entering c = false →
      NonePka own c ∧ (w ≠ .clearing c → e.completedCrypto = false))
  keyed : e.handshakeState = .serverHello → e.handshakeKeyCalculated = true →
    NonePka own c ∧ (w.within c = false → e.completedCrypto = false)

def Holds (own : OpId → Owner) (s : Cores) (c : ConnId) (q : Request) : Prop :=
  own q.op = .done q ∧ q.sess = c ∧ (s.sess c).pendingPkaOp ≠ some q.op

/-- A submission for session `c` may start; inside `get_processed_crypto` on behalf of `back`. -/
structure Ready (own : OpId → Owner) (s : Cores) (c : ConnId) (back : Option Request) : Prop where
  none : NonePka own c
  keys : (s.sess c).handshakeState = .serverHello → (s.sess c).handshakeKeyCalculated = false
  idle : back = .none → (s.sess c).completedCrypto = false
  holds : ∀ b, back = some b → Holds own s c b ∧ (s.sess c).handshakeState = .serverHello

structure Submitted (own : OpId → Owner) (s : Cores) (q : Request) (back : Option Request) : Prop where
  live : own q.op = .pka q ∨ own q.op = .done q
  keys : (s.sess q.sess).handshakeState = .serverHello →
    (s.sess q.sess).handshakeKeyCalculated = false
  holds : ∀ b, back = some b →
    Holds own s q.sess b ∧ b.op ≠ q.op ∧ (s.sess q.sess).handshakeState = .serverHello

def WorkerInv (own : OpId → Owner) (s : Cores) : Prop :=
  match s.worker with
  | .idle => True
  | .submitting q back => own q.op = .worker ∧ s.Agrees q ∧ Ready own s q.sess back
  | .enqueued q back | .waiting q back | .flagged q back => Submitted own s q back
  | .fetching c => (s.sess c).completedCrypto = true
  | .handling c q => (s.sess c).completedCrypto = true ∧ (s.sess c).pkaOp = some q
  | .answering c q => (s.sess c).completedCrypto = true ∧ (s.sess c).pkaOp = some q
    ∧ (s.sess c).pendingPkaOp = none
  | .handled c q => Holds own s c q ∧ (s.sess c).handshakeState ≠ .helloRequest
  | .unwaited c q => Holds own s c q
  | .releasing c q => Holds own s c q ∧
    ∀ q', (s.sess c).completedCrypto = true → (s.sess c).pkaOp = some q' → q'.op ≠ q.op
  | .clearing c => NonePka own c ∧ (s.sess c).handshakeState = .helloRequest
  | .detaching c => NonePka own c ∧ (s.sess c).completedCrypto = false
  | .rotting c o => NonePka own c ∧ (s.sess c).completedCrypto = false
    ∧ (s.sess c).pendingPkaOp = some o
  | .detached c => NonePka own c ∧ (s.sess c).completedCrypto = false

def PkaInv (s : Cores) : Prop :=
  match s.pka with
  | .executed q | .flagged q => q ∈ s.engine
  | .delivering q c | .copying q c => c = q.sess ∧ (s.sess c).pkaOp = some q
  | _ => True

structure CoresInv (own : OpId → Owner) (s : Cores) : Prop where
  custody : Custody own s
  session : ∀ c, SessionInv own s.worker (s.sess c) c
  worker : WorkerInv own s
  pka : PkaInv s

attribute [grind] Worker.within Worker.entering

section

variable {own own' : OpId → Owner} {s s' : Cores} {c : ConnId} {q : Request} {o : OpId}
  {b : Option Request}

/-! ### How the ownership changes -/

/-- What a session relies on when an operation changes hands. -/
structure Respects (own own' : OpId → Owner) (c : ConnId) : Prop where
  none : NonePka own c → NonePka own' c
  done : ∀ q, q.sess = c → own q.op = .done q → own' q.op = .done q
  live : ∀ o q, q.sess = c → own o = .pka q ∨ own o = .done q → own' o = .pka q ∨ own' o = .done q

theorem Respects.refl (own : OpId → Owner) (c : ConnId) : Respects own own c :=
  ⟨fun h => h, fun _ _ h => h, fun _ _ _ h => h⟩

theorem SessionInv.respects {w : Worker} {e : CoreSession} (h : SessionInv own w e c)
    (hr : Respects own own' c) : SessionInv own' w e c where
  pending hw o ho := by
    obtain ⟨q, hq, hlive⟩ := h.pending hw o ho
    exact ⟨q, hq, hr.live o q hq hlive⟩
  completed hw hc := by
    obtain ⟨hn, q, hp, hd, hq⟩ := h.completed hw hc
    exact ⟨hr.none hn, q, hp, hr.done q hq hd, hq⟩
  fresh hs := by
    obtain ⟨hk, hn⟩ := h.fresh hs
    exact ⟨hk, fun hw he => ⟨hr.none (hn hw he).1, (hn hw he).2⟩⟩
  keyed hs hk := ⟨hr.none (h.keyed hs hk).1, (h.keyed hs hk).2⟩

/- The worker takes an operation from the pool, or gives it back unused. -/
theorem respects_private {v : Owner} (h : own o = .pool ∨ own o = .worker)
    (hv : v = .pool ∨ v = .worker) : Respects own (Function.update own o v) c := by
  constructor <;> grind [NonePka, Function.update_apply]

theorem respects_submitted (h : own q.op = .worker) (hc : q.sess ≠ c) :
    Respects own (Function.update own q.op (.pka q)) c := by
  constructor <;> grind [NonePka, Function.update_apply]

theorem respects_delivered (h : own q.op = .pka q) :
    Respects own (Function.update own q.op (.done q)) c := by
  constructor <;> grind [NonePka, Function.update_apply]

theorem respects_released (h : own q.op = .done q) (hc : q.sess ≠ c) :
    Respects own (Function.update own q.op .pool) c := by
  constructor <;> grind [NonePka, Function.update_apply]

theorem Custody.keep (h : Custody own s) (hpool : s.pool.Perm s'.pool) (hheld : s.held.Perm s'.held)
    (hops : ∀ o, o ∉ s.pool →
      (s'.ops o).opcode = (s.ops o).opcode ∧ (s'.ops o).sess = (s.ops o).sess) :
    Custody own s' where
  pool := h.pool.perm hpool
  held := h.held.perm hheld
  owned o q ho := by
    obtain ⟨hq, ha⟩ := h.owned o q ho
    have hne : q.op ∉ s.pool := fun hp => by
      rw [hq, h.pool.mem o] at hp
      rw [hp] at ho
      rcases ho with ho | ho <;> cases ho
    refine ⟨hq, ?_⟩
    unfold Cores.Agrees
    rw [(hops q.op hne).1, (hops q.op hne).2]
    exact ha
  single := h.single

theorem Custody.same (h : Custody own s) (hpool : s.pool.Perm s'.pool) (hheld : s.held.Perm s'.held)
    (hops : ∀ o, (s'.ops o).opcode = (s.ops o).opcode ∧ (s'.ops o).sess = (s.ops o).sess) :
    Custody own s' :=
  h.keep hpool hheld fun o _ => hops o

theorem pka_inj {q q' : Request} (_ : q'.op = q.op) (h : Owner.pka q' = .pka q) : q' = q := by
  cases h
  rfl

theorem Custody.owned_private {v : Owner} (h : Custody own s) (hv : v = .pool ∨ v = .worker)
    (hops : ∀ i, i ≠ o → s'.ops i = s.ops i) (i : OpId) (q : Request)
    (hi : Function.update own o v i = .pka q ∨ Function.update own o v i = .done q) :
    q.op = i ∧ s'.Agrees q := by
  have hne : i ≠ o := by
    rintro rfl
    rw [Function.update_self] at hi
    rcases hv with rfl | rfl <;> rcases hi with hi | hi <;> cases hi
  rw [Function.update_of_ne hne] at hi
  obtain ⟨hq, ha⟩ := h.owned i q hi
  refine ⟨hq, ?_⟩
  unfold Cores.Agrees
  rw [hops q.op (hq ▸ hne)]
  exact ha

theorem Custody.single_update {v : Owner} (h : Custody own s)
    (hv : ∀ q, v = .pka q → NonePka own q.sess) : ∀ i j x y, Function.update own o v i = .pka x →
      Function.update own o v j = .pka y → x.sess = y.sess → i = j := by
  have := h.single
  grind [Function.update_apply, NonePka]

theorem Custody.take {pool : List OpId} (h : Custody own s) (hp : s.pool = o :: pool)
    (hpool : s'.pool = pool) (hheld : s'.held = s.held) (hops : ∀ i, i ≠ o → s'.ops i = s.ops i) :
    own o = .pool ∧ Custody (Function.update own o .worker) s' := by
  have ho : own o = .pool := (h.pool.mem o).mp (hp ▸ List.mem_cons_self)
  refine ⟨ho, ?_, ?_, h.owned_private (.inr rfl) hops, h.single_update nofun⟩
  · exact h.pool.drop (by rw [hp, hpool]) (fun _ _ hk => by cases hk) (fun _ hb _ => hb)
  · exact hheld ▸ h.held.skip (fun _ _ => by rw [ho]; exact nofun) (fun _ _ hk => by cases hk)

theorem Custody.enqueue (h : Custody own s) (ho : own q.op = .worker) (ha : s.Agrees q)
    (hn : NonePka own q.sess) (hpool : s'.pool = s.pool) (hheld : (q :: s.held).Perm s'.held)
    (hops : s'.ops = s.ops) : Custody (Function.update own q.op (.pka q)) s' where
  pool := hpool ▸ h.pool.skip (fun _ _ => by rw [ho]; exact nofun) (fun _ _ hk => by cases hk)
  held := h.held.add hheld (fun _ _ => by rw [ho]; exact nofun) (fun _ => pka_inj)
  owned i x hi := by
    have := h.owned i x
    simp only [Cores.Agrees, hops] at this ha ⊢
    grind [Function.update_apply]
  single := h.single_update fun x hx => by cases hx; exact hn

theorem Custody.deliver (h : Custody own s) (ho : own q.op = .pka q) (hpool : s'.pool = s.pool)
    (hheld : s.held.Perm (q :: s'.held)) (hops : s'.ops = s.ops) :
    Custody (Function.update own q.op (.done q)) s' where
  pool := hpool ▸ h.pool.skip (fun _ _ => by rw [ho]; exact nofun) (fun _ _ hk => by cases hk)
  held := h.held.drop hheld (fun _ _ hk => by cases hk) (fun _ => pka_inj)
  owned i x hi := by
    have := h.owned i x
    have := h.owned q.op q
    simp only [Cores.Agrees, hops] at *
    grind [Function.update_apply]
  single := h.single_update nofun

theorem Custody.release (h : Custody own s) (ho : own o = .worker ∨ ∃ q, own o = .done q)
    (hpool : s'.pool = s.pool ++ [o]) (hheld : s'.held = s.held)
    (hops : ∀ i, i ≠ o → s'.ops i = s.ops i) : Custody (Function.update own o .pool) s' where
  pool := hpool ▸ h.pool.add (a := o) (List.perm_append_singleton o s.pool).symm
    (fun _ _ => by rcases ho with ho | ⟨q, ho⟩ <;> rw [ho] <;> exact nofun) (fun _ hb _ => hb)
  held := hheld ▸ h.held.skip
    (fun _ _ => by rcases ho with ho | ⟨q, ho⟩ <;> rw [ho] <;> exact nofun)
    (fun _ _ hk => by cases hk)
  owned := h.owned_private (.inl rfl) hops
  single := h.single_update nofun

end

end Xtls.Nic
