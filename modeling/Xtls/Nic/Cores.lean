import Xtls.Lib.Run
import Xtls.Nic.State

/-!
# The two cores, step by step

A worker core and the PKA core share the operations, the submit ring and a few fields of each
session.  Here every ring operation and every access to such a field is a step of its own, and the
steps of the two cores interleave freely: `submit_pka_request` and its callers (`ssl.c` 998-1107,
1190-1257), `handle_submitted_pka`, `handle_completed_pka`, `get_processed_crypto` (`ssl.c`
1267-1557) and `clear_ssl_session` with `remove_pending_pka_op` (`tcp.c` 629-735, `ssl.c` 454-491).

Records and packets only appear through what they do to these fields.  `cur_crypto_cnt` and
`recv_mig_fin` can only delay a step and are left out, so that every schedule of the code is a
schedule of this machine.
-/

namespace Xtls.Nic

/-- The pointer that travels through ring and engine, with what was asked for when it was
submitted; the cores read nothing of this but `op`. -/
structure Request where
  op : OpId
  opcode : Opcode
  sess : ConnId
  ticket : Nat
  deriving DecidableEq, Repr

/-- `ssl_crypto_op_t` as far as both cores use it; `record` says whether `data` is set. -/
structure CoreOp where
  opcode : Opcode := .unset
  sess : Option ConnId := none
  record : Bool := false
  pkaFlag : Bool := false
  deriving DecidableEq, Repr

/-- The fields of `ssl_session_t` that decide about PKA operations. -/
structure CoreSession where
  handshakeState : HandshakeType := .helloRequest
  handshakeKeyCalculated : Bool := false
  certSignatured : Bool := false
  waitingCrypto : Bool := false
  completedCrypto : Bool := false
  pkaOp : Option Request := none
  pendingPkaOp : Option OpId := none
  deriving DecidableEq, Repr

/-- Where the worker is.  `back` is the operation whose result `get_processed_crypto` handles when
it submits the next one. -/
inductive Worker where
  | idle
  | submitting (q : Request) (back : Option Request)
  | enqueued (q : Request) (back : Option Request)
  | waiting (q : Request) (back : Option Request)
  | flagged (q : Request) (back : Option Request)
  | fetching (c : ConnId)
  | handling (c : ConnId) (q : Request)
  | answering (c : ConnId) (q : Request)
  | handled (c : ConnId) (q : Request)
  | unwaited (c : ConnId) (q : Request)
  | releasing (c : ConnId) (q : Request)
  | clearing (c : ConnId)
  | detaching (c : ConnId)
  | rotting (c : ConnId) (o : OpId)
  | detached (c : ConnId)
  deriving DecidableEq, Repr

/-- Where the PKA core is. -/
inductive PkaCore where
  | idle
  | dequeued (q : Request)
  | executed (q : Request)
  | flagged (q : Request)
  | returned (q : Request)
  | delivering (q : Request) (c : ConnId)
  | copying (q : Request) (c : ConnId)
  deriving DecidableEq, Repr

def PkaCore.hand : PkaCore → List Request
  | .dequeued q | .returned q | .delivering q _ | .copying q _ => [q]
  | _ => []

/-- Between the submission inside `get_processed_crypto` and `completed_crypto = FALSE`. -/
def Worker.within : Worker → ConnId → Bool
  | .enqueued q back, c | .waiting q back, c | .flagged q back, c => back.isSome ∧ q.sess = c
  | .handled d _, c | .unwaited d _, c => d = c
  | _, _ => false

/-- History.  `record` is a ChangeCipherSpec or Finished that moves `handshake_state`, with the
pending operation it finds; `remove` names the requests of the session the PKA core still holds;
`publish` is `completed_crypto = TRUE`, and says where it finds the worker. -/
inductive CoreEvent where
  | record (c : ConnId) (pending : Option OpId)
  | remove (c : ConnId) (held : List Request)
  | publish (c : ConnId) (q : Request) (within : Bool)
  | consume (c : ConnId) (q : Request)
  deriving DecidableEq, Repr

structure Cores where
  ops : OpId → CoreOp := fun _ => {}
  pool : List OpId := []
  ring : List Request := []
  ringCnt : Nat := 0
  engine : List Request := []
  sess : ConnId → CoreSession := fun _ => {}
  worker : Worker := .idle
  pka : PkaCore := .idle
  tickets : Nat := 0
  trace : List CoreEvent := []

/-- The requests the PKA core has not yet delivered. -/
def Cores.held (s : Cores) : List Request := s.ring ++ s.engine ++ s.pka.hand

namespace Cores

def setOp (o : OpId) (f : CoreOp → CoreOp) (s : Cores) : Cores :=
  { s with ops := fun i => if i = o then f (s.ops i) else s.ops i }

def setSess (c : ConnId) (f : CoreSession → CoreSession) (s : Cores) : Cores :=
  { s with sess := fun i => if i = c then f (s.sess i) else s.sess i }

def record (e : CoreEvent) (s : Cores) : Cores := { s with trace := e :: s.trace }

section

variable (o : OpId) (c : ConnId) (f : CoreSession → CoreSession) (g : CoreOp → CoreOp) (s : Cores)

@[simp] theorem setSess_ops : (s.setSess c f).ops = s.ops := rfl
@[simp] theorem setSess_pool : (s.setSess c f).pool = s.pool := rfl
@[simp] theorem setSess_held : (s.setSess c f).held = s.held := rfl
@[simp] theorem setSess_worker : (s.setSess c f).worker = s.worker := rfl
@[simp] theorem setSess_trace : (s.setSess c f).trace = s.trace := rfl
@[simp] theorem setSess_self : (s.setSess c f).sess c = f (s.sess c) := if_pos rfl

theorem setSess_ne {i : ConnId} (h : i ≠ c) : (s.setSess c f).sess i = s.sess i := if_neg h

end

/-! ### The worker -/

def deleteOp (o : OpId) (s : Cores) : Cores :=
  { s.setOp o fun _ => {} with pool := s.pool ++ [o] }

/- Operation `o` filled in and, so far, known to the worker alone. -/
def allocated (c : ConnId) (opcode : Opcode) (record : Bool) (back : Option Request) (o : OpId)
    (pool : List OpId) (s : Cores) : Cores :=
  { s.setOp o fun v => { v with opcode := opcode, sess := some c, record := record } with
    pool := pool
    tickets := s.tickets + 1
    worker := .submitting ⟨o, opcode, c, s.tickets⟩ back }

/- `new_ssl_crypto_op`. -/
def take (c : ConnId) (opcode : Opcode) (record : Bool) (back : Option Request) (s : Cores) :
    Except Halt Cores :=
  match s.pool with
  | [] => .error .notEnoughOp
  | o :: pool => .ok (s.allocated c opcode record back o pool)

def resume (c : ConnId) : Option Request → Worker
  | none => .idle
  | some q => .handled c q

/- `submit_pka_request`; a full ring gives the operation back. -/
def submit (q : Request) (back : Option Request) (s : Cores) : Cores :=
  if s.ringCnt ≤ s.ring.length + 1 then { s.deleteOp q.op with worker := resume q.sess back }
  else { s with ring := s.ring ++ [q], worker := .enqueued q back }

def answer (c : ConnId) (q : Request) (s : Cores) : Except Halt Cores :=
  match (s.sess c).handshakeState with
  | .helloRequest =>
    if (s.ops q.op).record then
      take c .ecdheSharedSecretCalc false (some q)
        ((s.setSess c fun e => { e with handshakeState := .serverHello }).record (.consume c q))
    else .error .assertion
  | .serverHello =>
    .ok { (s.setSess c fun e => { e with handshakeKeyCalculated := true }).record (.consume c q) with
      worker := .handled c q }
  | .certificate =>
    .ok { (s.setSess c fun e => { e with certSignatured := true }).record (.consume c q) with
      worker := .handled c q }
  | _ => .error .unsupportedPkaState

/-- The next step of what the worker is doing. -/
def work (s : Cores) : Except Halt Cores :=
  match s.worker with
  | .idle => .ok s
  | .submitting q back => .ok (s.submit q back)
  | .enqueued q back =>
    .ok { s.setSess q.sess fun e => { e with waitingCrypto := true } with worker := .waiting q back }
  | .waiting q back =>
    .ok { s.setOp q.op fun v => { v with pkaFlag := true } with worker := .flagged q back }
  | .flagged q back =>
    .ok { s.setSess q.sess fun e => { e with pendingPkaOp := some q.op } with
      worker := resume q.sess back }
  | .fetching c =>
    match (s.sess c).pkaOp with
    | none => .error .nullPointer
    | some q => .ok { s with worker := .handling c q }
  | .handling c q =>
    .ok { s.setSess c fun e => { e with pendingPkaOp := none } with worker := .answering c q }
  | .answering c q => s.answer c q
  | .handled c q =>
    .ok { s.setSess c fun e => { e with waitingCrypto := false } with worker := .unwaited c q }
  | .unwaited c q =>
    .ok { s.setSess c fun e => { e with completedCrypto := false } with worker := .releasing c q }
  | .releasing _ q => .ok { s.deleteOp q.op with worker := .idle }
  | .clearing c =>
    .ok { s.setSess c fun e => { e with completedCrypto := false } with worker := .detaching c }
  | .detaching c =>
    match (s.sess c).pendingPkaOp with
    | none => .ok { s with worker := .idle }
    | some o =>
      .ok { s.setOp o fun v => { v with pkaFlag := false } with worker := .rotting c o }
  | .rotting c o => .ok { s.deleteOp o with worker := .detached c }
  | .detached c =>
    .ok { s.setSess c fun e => { e with pendingPkaOp := none } with worker := .idle }

/- A ClientHello arrives: `generate_ecdhe_key_pair`. -/
def hello (c : ConnId) (s : Cores) : Except Halt Cores :=
  if (s.sess c).waitingCrypto = false ∧ (s.sess c).handshakeState = .helloRequest then
    s.take c .ecdheKeyGeneration true none
  else .ok s

/- `handshake_state` moves on with a ChangeCipherSpec or Finished record. -/
def advance (c : ConnId) (h : HandshakeType) (s : Cores) : Cores :=
  (s.setSess c fun e => { e with handshakeState := h }).record
    (.record c (s.sess c).pendingPkaOp)

def changeCipherSpec (c : ConnId) (s : Cores) : Cores :=
  let h := (s.sess c).handshakeState
  if (s.sess c).waitingCrypto ∨ h ≠ .finished ∧ .clientCipherSpec ≤ h then s
  else s.advance c .clientCipherSpec

def finished (c : ConnId) (s : Cores) : Cores :=
  if (s.sess c).waitingCrypto ∨ .finished ≤ (s.sess c).handshakeState then s
  else s.advance c .finished

/- `send_remain_server_records`. -/
def sendRemain (c : ConnId) (s : Cores) : Except Halt Cores :=
  let e := s.sess c
  if e.handshakeState = .serverHello ∧ e.handshakeKeyCalculated then
    (s.setSess c fun e => { e with handshakeState := .certificate }).take c .ecdsaSignature false none
  else if e.handshakeState = .certificate ∧ e.certSignatured then
    .ok (s.setSess c fun e => { e with handshakeState := .certificateVerify })
  else if e.handshakeState = .certificateVerify then
    .ok (s.setSess c fun e => { e with handshakeState := .finished })
  else .ok s

/- `clear_ssl_session` down to `waiting_crypto = 0`. -/
def remove (c : ConnId) (s : Cores) : Cores :=
  { (s.setSess c fun e =>
      { e with
        handshakeState := .helloRequest, handshakeKeyCalculated := false, certSignatured := false
        waitingCrypto := false }).record (.remove c (s.held.filter (·.sess = c))) with
    worker := .clearing c }

/-! ### The PKA core -/

/-- The next step of what the PKA core is doing. -/
def pkaStep (s : Cores) : Except Halt Cores :=
  match s.pka with
  | .idle => .ok s
  | .dequeued q =>
    if (s.ops q.op).opcode.isPka then .ok { s with engine := s.engine ++ [q], pka := .executed q }
    else .error .unsupportedPkaOpcode
  | .executed q =>
    .ok { s.setOp q.op fun v => { v with pkaFlag := true } with pka := .flagged q }
  | .flagged q =>
    match (s.ops q.op).sess with
    | none => .error .nullPointer
    | some c =>
      .ok { s.setSess c fun e => { e with pendingPkaOp := some q.op } with pka := .idle }
  | .returned q =>
    match (s.ops q.op).sess with
    | none => .error .nullPointer
    | some c => .ok { s.setSess c fun e => { e with pkaOp := some q } with pka := .delivering q c }
  | .delivering q c =>
    if (s.ops q.op).pkaFlag = false then .ok { s with pka := .idle }
    else if (s.sess c).handshakeState = .helloRequest ∧ (s.ops q.op).record = false then
      .error .recordIsNull
    else .ok { s with pka := .copying q c }
  | .copying q c =>
    .ok { (s.setSess c fun e => { e with completedCrypto := true }).record
      (.publish c q (s.worker.within c)) with pka := .idle }

end Cores

/-- Whose turn it is, and what a core begins when it is between two functions. -/
inductive Action where
  | work
  | hello (c : ConnId)
  | changeCipherSpec (c : ConnId)
  | finished (c : ConnId)
  | serve (c : ConnId)
  | sendRemain (c : ConnId)
  | remove (c : ConnId)
  /-- the operations `used` are taken from the pool for a cipher and given back -/
  | cipher (pool used : List OpId)
  | pka
  | dequeue
  /-- the engine returns the result at place `i` -/
  | fetch (i : Nat)
  deriving DecidableEq, Repr

namespace Cores

def act (a : Action) (s : Cores) : Except Halt Cores :=
  match a with
  | .work => s.work
  | .cipher pool used =>
    .ok (if pool.isPerm s.pool ∧ ∀ o ∈ used, o ∈ s.pool then
      { s with pool := pool, ops := fun o => if o ∈ used then {} else s.ops o } else s)
  | .pka => s.pkaStep
  | .dequeue =>
    match s.pka, s.ring with
    | .idle, q :: ring => .ok { s with ring := ring, pka := .dequeued q }
    | _, _ => .ok s
  | .fetch i =>
    match s.pka, s.engine[i]? with
    | .idle, some q => .ok { s with engine := s.engine.eraseIdx i, pka := .returned q }
    | _, _ => .ok s
  -- what follows is begun between two functions of the worker
  | .hello c => if s.worker = .idle then s.hello c else .ok s
  | .changeCipherSpec c => .ok (if s.worker = .idle then s.changeCipherSpec c else s)
  | .finished c => .ok (if s.worker = .idle then s.finished c else s)
  | .serve c =>
    .ok (if s.worker = .idle ∧ (s.sess c).completedCrypto then { s with worker := .fetching c } else s)
  | .sendRemain c => if s.worker = .idle then s.sendRemain c else .ok s
  | .remove c => .ok (if s.worker = .idle then s.remove c else s)

def initial (n ringCnt : Nat) : Cores := { pool := List.range n, ringCnt := ringCnt }

end Cores

end Xtls.Nic
