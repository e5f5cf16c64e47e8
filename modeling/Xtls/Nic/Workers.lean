import Mathlib.Logic.Function.Basic
import Xtls.Nic.CryptoCount

/-!
# Several workers and the loops of the PKA core

Core 0 serves the rings of all workers: `handle_submitted_pka` and `handle_completed_pka` (`ssl.c`
1267-1435) go through the worker cores in turn, and the engine returns the results of all of them through one
call.  The loop that takes results runs on the counter of one worker while it lowers those of others.
-/

namespace Xtls.Nic

abbrev Workers := Nat → Sys

/-- The inner loop of `handle_submitted_pka`, for one worker. -/
def submitLoop (privs : Nat → Operand) : Nat → Sys → Except Halt Sys
  | 0, _ => .error .endless
  | fuel + 1, s =>
    if s.ctx.curCryptoCnt.toNat < maxOutstandingPkaReq then
      if s.ctx.submitPkaRing = [] then .ok s
      else do
        let s ← handleSubmittedPka (privs fuel) s
        submitLoop privs fuel s
    else .ok s

/-- `handle_submitted_pka`, with the private keys it draws for each worker. -/
def handleSubmittedPkas (privs : Nat → Nat → Operand) : List Nat → Workers → Except Halt Workers
  | [], w => .ok w
  | j :: js, w => do
    let s ← submitLoop (privs j) ((w j).ctx.submitPkaRing.length + 1) (w j)
    handleSubmittedPkas privs js (Function.update w j s)

/-- What `pka_get_result` returns: the operation, which names its worker, and the result vectors. -/
structure PkaResult where
  core : Nat
  op : OpId
  results : List Bytes

/- The body of the loop of `handle_completed_pka` once there is a result. -/
def takeResult (o : OpId) (results : List Bytes) (s : Sys) : Except Halt Sys :=
  let ctx := { s.ctx with engine := s.ctx.engine.erase o }
  let op := s.ctx.ops o
  match op.sess with
  | none => .error .nullPointer
  | some c =>
    if op.pkaFlag = false then
      let s : Sys := { s with ctx := ctx }
      .ok (s.setConn c fun e => { e with pkaOp := some o })
    else if (s.conns c).sess.handshakeState = .helloRequest ∧ op.data.isNone then
      .error .recordIsNull
    else
      let ctx : Ctx :=
        { ctx with
          curCryptoCnt := ctx.curCryptoCnt - 1
          completedCryptoCnt := ctx.completedCryptoCnt + 1 }
      let s : Sys := { s with ctx := ctx }
      .ok (s.setConn c fun e =>
        { e with
          pkaOp := some o
          pkaResults := results.map (fun b => { buf := b }) ++ e.pkaResults.drop results.length
          completedCrypto := true })

/- The engine returns what was handed to it. -/
def takeResultOf (r : PkaResult) (w : Workers) : Except Halt Workers :=
  if r.op ∈ (w r.core).ctx.engine then do
    let s ← takeResult r.op r.results (w r.core)
    return Function.update w r.core s
  else .ok w

/-- The inner loop of `handle_completed_pka`, which runs on the counter of worker `j`.  With no result left
`pka_get_result` fails, and so does the call (`none`). -/
def drainLoop (j : Nat) : List PkaResult → Workers → Except Halt (Option (List PkaResult) × Workers)
  | [], w => .ok (if (w j).ctx.curCryptoCnt = 0 then some [] else none, w)
  | r :: rs, w =>
    if (w j).ctx.curCryptoCnt = 0 then .ok (some (r :: rs), w)
    else do
      let w ← takeResultOf r w
      drainLoop j rs w

/-- `handle_completed_pka`, with the results the engine has ready. -/
def handleCompletedPkas : List Nat → List PkaResult → Workers → Except Halt Workers
  | [], _, w => .ok w
  | j :: js, rs, w => do
    let (rest, w) ← drainLoop j rs w
    match rest with
    | some rs => handleCompletedPkas js rs w
    | none => return w

/-- The steps of all cores. -/
inductive CoreInput where
  | packet (j : Nat) (port : UInt16) (p : Packet)
  | serve (j : Nat) (c : ConnId)
  | outside (j : Nat) (o : Outside)
  | submitted (privs : Nat → Nat → Operand)
  | completed (ready : List PkaResult)

def onWorker (env : Env) (j : Nat) (x : Input) (w : Workers) : Except Halt Workers := do
  let s ← step env x (w j)
  return Function.update w j s

def coreStep (env : Env) (cores : List Nat) : CoreInput → Workers → Except Halt Workers
  | .packet j port p, w => onWorker env j (.packet port p) w
  | .serve j c, w => onWorker env j (.serve c) w
  | .outside j o, w => onWorker env j (.outside o) w
  | .submitted privs, w => handleSubmittedPkas privs cores w
  | .completed ready, w => handleCompletedPkas cores ready w

section

variable {env : Env} {n ringCnt : Nat} {s s' : Sys} {w w' : Workers} {j : Nat}

/-! ### The submission loop -/

theorem handleSubmittedPka_moves {priv : Operand} {o : OpId} {ring : List OpId}
    (h : handleSubmittedPka priv s = .ok s') (hcnt : s.ctx.curCryptoCnt.toNat < maxOutstandingPkaReq)
    (hring : s.ctx.submitPkaRing = o :: ring) :
    s'.ctx.submitPkaRing = ring ∧ s'.ctx.engine = s.ctx.engine ++ [o]
      ∧ s'.ctx.curCryptoCnt.toNat = s.ctx.curCryptoCnt.toNat + 1 := by
  unfold handleSubmittedPka at h
  rw [if_neg (Nat.not_le_of_lt hcnt), hring] at h
  simp only at h
  split at h
  · cases h
  · split at h
    · cases h
    · cases h
      have hsmall : s.ctx.curCryptoCnt.toNat + 1 < 2 ^ 32 := by
        have hmax : maxOutstandingPkaReq = 64 := rfl
        omega
      refine ⟨rfl, rfl, ?_⟩
      show (s.ctx.curCryptoCnt + 1).toNat = _
      rw [UInt32.toNat_add]
      exact Nat.mod_eq_of_lt hsmall

/-- The loop moves as many operations as the engine may still take, in the order of the ring. -/
theorem submitLoop_moves {privs : Nat → Operand} {fuel : Nat} (h : submitLoop privs fuel s = .ok s') {k : Nat}
    (hk : k = min (maxOutstandingPkaReq - s.ctx.curCryptoCnt.toNat) s.ctx.submitPkaRing.length) :
    s'.ctx.submitPkaRing = s.ctx.submitPkaRing.drop k
      ∧ s'.ctx.engine = s.ctx.engine ++ s.ctx.submitPkaRing.take k
      ∧ s'.ctx.curCryptoCnt.toNat = s.ctx.curCryptoCnt.toNat + k := by
  induction fuel generalizing s k with
  | zero => cases h
  | succ fuel ih =>
    rw [submitLoop] at h
    split at h
    · rename_i hcnt
      split at h
      · rename_i hring
        cases h
        have hzero : k = 0 := by
          rw [hk, hring]
          simp
        simp [hzero]
      · rename_i hring
        obtain ⟨t, ht, h⟩ := bind_ok h
        cases hr : s.ctx.submitPkaRing with
        | nil => exact absurd hr hring
        | cons o ring =>
          obtain ⟨tring, tengine, tcnt⟩ := handleSubmittedPka_moves ht hcnt hr
          obtain ⟨k', rfl⟩ : ∃ k', k = k' + 1 := by
            refine Nat.exists_eq_succ_of_ne_zero ?_
            rw [hk, hr, List.length_cons]
            omega
          have hk' : k' = min (maxOutstandingPkaReq - t.ctx.curCryptoCnt.toNat) t.ctx.submitPkaRing.length := by
            rw [hr, List.length_cons] at hk
            rw [tring, tcnt]
            omega
          obtain ⟨h1, h2, h3⟩ := ih h hk'
          rw [h1, h2, h3, tring, tengine, tcnt]
          simp only [List.drop_succ_cons, List.take_succ_cons, List.append_assoc, List.singleton_append, true_and]
          omega
    · rename_i hcnt
      cases h
      have hzero : k = 0 := by
        rw [hk]
        omega
      simp [hzero]

theorem submitLoop_ends {privs : Nat → Operand} {fuel : Nat} (hfuel : s.ctx.submitPkaRing.length < fuel) :
    submitLoop privs fuel s ≠ .error .endless := by
  induction fuel generalizing s with
  | zero => omega
  | succ fuel ih =>
    rw [submitLoop]
    split
    · rename_i hcnt
      split
      · simp
      · rename_i hring
        cases hr : s.ctx.submitPkaRing with
        | nil => exact absurd hr hring
        | cons o ring =>
          rw [hr, List.length_cons] at hfuel
          cases ht : handleSubmittedPka (privs fuel) s with
          | error e =>
            unfold handleSubmittedPka at ht
            rw [if_neg (Nat.not_le_of_lt hcnt), hr] at ht
            simp only at ht
            intro h
            cases h
            split at ht
            · cases ht
            · split at ht <;> cases ht
          | ok t =>
            have hlen : t.ctx.submitPkaRing.length < fuel := by
              rw [(handleSubmittedPka_moves ht hcnt hr).1]
              omega
            exact ih hlen
    · simp

theorem handleSubmittedPkas_ends (privs : Nat → Nat → Operand) (cores : List Nat) (w : Workers) :
    handleSubmittedPkas privs cores w ≠ .error .endless := by
  induction cores generalizing w with
  | nil => simp [handleSubmittedPkas]
  | cons j js ih =>
    rw [handleSubmittedPkas]
    have hends : submitLoop (privs j) ((w j).ctx.submitPkaRing.length + 1) (w j) ≠ .error .endless :=
      submitLoop_ends (Nat.lt_succ_self _)
    cases hs : submitLoop (privs j) ((w j).ctx.submitPkaRing.length + 1) (w j) with
    | error e =>
      intro h
      rw [Except.error.inj h] at hs
      exact hends hs
    | ok s => exact ih _

/-! ### The workers one by one -/

def Alone (env : Env) (n ringCnt : Nat) (s : Sys) : Prop :=
  ∃ inputs, run (step env) inputs (initial n ringCnt) = .ok s

theorem Alone.step {x : Input} (h : Alone env n ringCnt s) (hs : Nic.step env x s = .ok s') :
    Alone env n ringCnt s' := by
  obtain ⟨inputs, hrun⟩ := h
  refine ⟨inputs ++ [x], ?_⟩
  rw [run_append, hrun]
  show Nic.step env x s >>= run (Nic.step env) [] = .ok s'
  rw [hs]
  rfl

theorem step_alone {x : Input} (hs : step env x s = .ok s') :
    Keeps (fun s : Sys => s.ctx.trace) Event.Drained (Alone env n ringCnt) s s' :=
  ⟨((kept_opFacts env).keeps x s s' hs).grows, fun _ h => h.step hs⟩

theorem submitLoop_alone {privs : Nat → Operand} {fuel : Nat} (h : submitLoop privs fuel s = .ok s') :
    Keeps (fun s : Sys => s.ctx.trace) Event.Drained (Alone env n ringCnt) s s' := by
  induction fuel generalizing s with
  | zero => cases h
  | succ fuel ih =>
    rw [submitLoop] at h
    split at h
    · split at h
      · cases h
        exact .refl _
      · obtain ⟨t, ht, h⟩ := bind_ok h
        exact (step_alone (x := .pkaSubmit (privs fuel)) ht).trans (ih h)
    · cases h
      exact .refl _

theorem handleCompletedPka_eq (o : OpId) (results : List Bytes) (s : Sys) :
    handleCompletedPka o results s =
      if s.ctx.curCryptoCnt = 0 ∨ o ∉ s.ctx.engine then .ok s else takeResult o results s := rfl

theorem takeResult_trace {o : OpId} {results : List Bytes} (h : takeResult o results s = .ok s') :
    s'.ctx.trace = s.ctx.trace := by
  unfold takeResult at h
  simp only at h
  split at h
  · cases h
  · split at h
    · cases h
      rfl
    · split at h
      · cases h
      · cases h
        rfl

/-- With no session cleared while its operation was pending, a worker whose operation comes back has it on
its counter, whatever counter the loop runs on. -/
theorem takeResult_alone {o : OpId} {results : List Bytes} (ho : o ∈ s.ctx.engine)
    (h : takeResult o results s = .ok s') :
    Keeps (fun s : Sys => s.ctx.trace) Event.Drained (Alone env n ringCnt) s s' := by
  have htrace := takeResult_trace h
  refine ⟨by rw [htrace], fun hdrained hr => ?_⟩
  rw [htrace] at hdrained
  obtain ⟨inputs, hrun⟩ := hr
  have hcounted := ((kept_counted env).holds hrun hdrained
    ⟨initial_opFacts n ringCnt, initial_counted n ringCnt⟩).2
  have hcnt : ¬ (s.ctx.curCryptoCnt = 0 ∨ o ∉ s.ctx.engine) := by
    rintro (hzero | hno)
    · have hcount := hcounted.count
      rw [hzero] at hcount
      have hpos := List.length_pos_of_mem ho
      rw [← hcount] at hpos
      exact absurd hpos (by decide)
    · exact hno ho
  have hstep : Nic.step env (.pkaComplete o results) s = .ok s' := by
    show handleCompletedPka o results s = .ok s'
    rw [handleCompletedPka_eq, if_neg hcnt]
    exact h
  exact Alone.step ⟨inputs, hrun⟩ hstep

theorem update_keeps {hist : Sys → List Event} {good : Event → Prop} {P : Sys → Prop} {i : Nat}
    (h : Keeps hist good P (w i) s) (j : Nat) : Keeps hist good P (w j) (Function.update w i s j) := by
  by_cases hj : j = i
  · subst hj
    rw [Function.update_self]
    exact h
  · rw [Function.update_of_ne hj]
    exact .refl _

theorem handleSubmittedPkas_alone {privs : Nat → Nat → Operand} {cores : List Nat}
    (h : handleSubmittedPkas privs cores w = .ok w') (j : Nat) :
    Keeps (fun s : Sys => s.ctx.trace) Event.Drained (Alone env n ringCnt) (w j) (w' j) := by
  induction cores generalizing w with
  | nil =>
    cases h
    exact .refl _
  | cons i is ih =>
    obtain ⟨s, hs, h⟩ := bind_ok h
    exact (update_keeps (submitLoop_alone hs) j).trans (ih h)

theorem takeResultOf_alone {r : PkaResult} (h : takeResultOf r w = .ok w') (j : Nat) :
    Keeps (fun s : Sys => s.ctx.trace) Event.Drained (Alone env n ringCnt) (w j) (w' j) := by
  unfold takeResultOf at h
  split at h
  · rename_i hmem
    obtain ⟨s, hs, h⟩ := bind_ok h
    cases h
    exact update_keeps (takeResult_alone hmem hs) j
  · cases h
    exact .refl _

theorem drainLoop_alone {i : Nat} {rs : List PkaResult} {rest : Option (List PkaResult)}
    (h : drainLoop i rs w = .ok (rest, w')) (j : Nat) :
    Keeps (fun s : Sys => s.ctx.trace) Event.Drained (Alone env n ringCnt) (w j) (w' j) := by
  induction rs generalizing w with
  | nil =>
    cases h
    exact .refl _
  | cons r rs ih =>
    rw [drainLoop] at h
    split at h
    · cases h
      exact .refl _
    · obtain ⟨v, hv, h⟩ := bind_ok h
      exact (takeResultOf_alone hv j).trans (ih h)

theorem handleCompletedPkas_alone {cores : List Nat} {rs : List PkaResult}
    (h : handleCompletedPkas cores rs w = .ok w') (j : Nat) :
    Keeps (fun s : Sys => s.ctx.trace) Event.Drained (Alone env n ringCnt) (w j) (w' j) := by
  induction cores generalizing rs w with
  | nil =>
    cases h
    exact .refl _
  | cons i is ih =>
    obtain ⟨⟨rest, v⟩, hv, h⟩ := bind_ok h
    have hfirst : Keeps (fun s : Sys => s.ctx.trace) Event.Drained (Alone env n ringCnt) (w j) (v j) :=
      drainLoop_alone hv j
    cases rest with
    | none =>
      cases h
      exact hfirst
    | some rs => exact hfirst.trans (ih h)

theorem onWorker_alone {i : Nat} {x : Input} (h : onWorker env i x w = .ok w') (j : Nat) :
    Keeps (fun s : Sys => s.ctx.trace) Event.Drained (Alone env n ringCnt) (w j) (w' j) := by
  obtain ⟨s, hs, h⟩ := bind_ok h
  cases h
  exact update_keeps (step_alone hs) j

theorem coreStep_alone {cores : List Nat} {x : CoreInput} (h : coreStep env cores x w = .ok w') (j : Nat) :
    Keeps (fun s : Sys => s.ctx.trace) Event.Drained (Alone env n ringCnt) (w j) (w' j) := by
  cases x with
  | packet i port p => exact onWorker_alone h j
  | serve i c => exact onWorker_alone h j
  | outside i o => exact onWorker_alone h j
  | submitted privs => exact handleSubmittedPkas_alone h j
  | completed ready => exact handleCompletedPkas_alone h j

theorem coreRun_alone {cores : List Nat} {xs : List CoreInput} (h : run (coreStep env cores) xs w = .ok w')
    (j : Nat) : Keeps (fun s : Sys => s.ctx.trace) Event.Drained (Alone env n ringCnt) (w j) (w' j) := by
  induction xs generalizing w with
  | nil =>
    cases h
    exact .refl _
  | cons x xs ih =>
    obtain ⟨v, hv, h⟩ := bind_ok h
    exact (coreStep_alone hv j).trans (ih h)

end

/-- With any number of workers, however the cores take turns, each worker is in a state that it reaches with
a PKA core of its own, as long as none of its sessions is cleared with an operation pending. -/
theorem workers_reached (env : Env) (n ringCnt : Nat) (cores : List Nat) (xs : List CoreInput) (w : Workers) (j : Nat)
    (hrun : run (coreStep env cores) xs (fun _ => initial n ringCnt) = .ok w)
    (hdrained : ∀ e ∈ (w j).ctx.trace, e.Drained) :
    ∃ inputs, run (step env) inputs (initial n ringCnt) = .ok (w j) :=
  (coreRun_alone hrun j).keeps hdrained ⟨[], rfl⟩

/- Two workers have a client each, and the result of the second comes back while the loop runs on the counter
of the first. -/
def sampleCores : List CoreInput :=
  [1, 2].flatMap (fun j => [.packet j 0 sampleSyn,
    .packet j 0 (sampleSegment 101 5 (sampleHello [0x13, 2]) sampleHello_lt)]) ++
    [.submitted fun _ _ => {}, .completed [⟨2, 0, [zeros 32]⟩]]

theorem workers_reached_sample : ∃ w, run (coreStep sampleEnv [1, 2]) sampleCores (fun _ => initial 2 8) = .ok w
    ∧ ((w 2).conns 0).sess.completedCrypto = true ∧ (w 1).ctx.engine = [0] ∧ (w 2).ctx.engine = []
    ∧ ∃ inputs, run (step sampleEnv) inputs (initial 2 8) = .ok (w 2) := by
  obtain ⟨w, hrun, hdrained, hdone, hone, htwo⟩ := endsIn_ok
    (fun w : Workers => (∀ e ∈ (w 2).ctx.trace, e.Drained) ∧ ((w 2).conns 0).sess.completedCrypto = true
      ∧ (w 1).ctx.engine = [0] ∧ (w 2).ctx.engine = [])
    (run (coreStep sampleEnv [1, 2]) sampleCores fun _ => initial 2 8) (by decide +kernel)
  exact ⟨w, hrun, hdone, hone, htwo, workers_reached sampleEnv 2 8 [1, 2] sampleCores w 2 hrun hdrained⟩

/-- `handle_submitted_pka` ends, and afterwards the engine has all the operations a worker had queued, or the
worker's `cur_crypto_cnt` is at least 64: the first operations of the ring have been handed on in order, and no
other worker has changed. -/
theorem handleSubmittedPkas_fills (privs : Nat → Nat → Operand) (cores : List Nat) (w : Workers) (hnd : cores.Nodup) :
    handleSubmittedPkas privs cores w ≠ .error .endless
      ∧ ∀ w', handleSubmittedPkas privs cores w = .ok w' → (∀ j, j ∉ cores → w' j = w j)
        ∧ ∀ j ∈ cores, ∃ k, (w' j).ctx.submitPkaRing = (w j).ctx.submitPkaRing.drop k
          ∧ (w' j).ctx.engine = (w j).ctx.engine ++ (w j).ctx.submitPkaRing.take k
          ∧ (w' j).ctx.curCryptoCnt.toNat = (w j).ctx.curCryptoCnt.toNat + k
          ∧ ((w' j).ctx.submitPkaRing = [] ∨ maxOutstandingPkaReq ≤ (w' j).ctx.curCryptoCnt.toNat) := by
  refine ⟨handleSubmittedPkas_ends privs cores w, fun w' h => ?_⟩
  induction cores generalizing w with
  | nil =>
    cases h
    exact ⟨fun _ _ => rfl, fun j hj => absurd hj List.not_mem_nil⟩
  | cons i is ih =>
    obtain ⟨hi, hnd⟩ := List.nodup_cons.mp hnd
    obtain ⟨s, hs, h⟩ := bind_ok h
    obtain ⟨hout, hin⟩ := ih _ hnd h
    constructor
    · intro j hj
      rw [List.mem_cons, not_or] at hj
      rw [hout j hj.2, Function.update_of_ne hj.1]
    · intro j hj
      rcases List.mem_cons.mp hj with rfl | hj
      · rw [hout j hi, Function.update_self]
        obtain ⟨h1, h2, h3⟩ := submitLoop_moves hs rfl
        refine ⟨_, h1, h2, h3, ?_⟩
        rw [h1, h3, List.drop_eq_nil_iff]
        omega
      · have hji : j ≠ i := fun heq => hi (heq ▸ hj)
        have hrest := hin j hj
        rw [Function.update_of_ne hji] at hrest
        exact hrest

/- Worker 1 has seventy operations queued. -/
def crowdedWorkers : Workers := fun j =>
  if j = 1 then
    { initial 2 8 with
      ctx :=
        { (initial 2 8).ctx with
          submitPkaRing := List.range 70
          ops := fun _ => { opcode := .ecdheKeyGeneration, sess := some 0 } } }
  else initial 2 8

theorem handleSubmittedPkas_fills_sample : ∃ w, handleSubmittedPkas (fun _ _ => {}) [1, 2] crowdedWorkers = .ok w
    ∧ (w 1).ctx.submitPkaRing = [64, 65, 66, 67, 68, 69] ∧ w 3 = crowdedWorkers 3 := by
  obtain ⟨w, hw, hring⟩ := endsIn_ok (fun w : Workers => (w 1).ctx.submitPkaRing = [64, 65, 66, 67, 68, 69])
    (handleSubmittedPkas (fun _ _ => {}) [1, 2] crowdedWorkers) (by decide +kernel)
  exact ⟨w, hw, hring, ((handleSubmittedPkas_fills (fun _ _ => {}) [1, 2] crowdedWorkers (by decide)).2 w hw).1 3
    (by decide)⟩

end Xtls.Nic
