import Xtls.Nic.AuthInvariant

/-!
# Authentication of the client Finished

The invariant of `AuthInvariant` for all connections of a worker, over whole runs: packets, PKA
results and the main loop in any order.
-/

namespace Xtls.Nic

structure SysInv (env : Env) (s : Sys) : Prop where
  ids : ∀ c, (s.conns c).id = c
  conn : ∀ c, AuthInv env (s.conns c) s.ctx
  core : CtxInv s.ctx

def othersOf (s : Sys) (c : ConnId) : Set Conn := { x | ∃ d, d ≠ c ∧ x = s.conns d }

section

variable {env : Env} {s s' : Sys} {c : ConnId} {t : St}

theorem SysInv.st (h : SysInv env s) (hni : (s.conns c).tcp.state ≠ .idle) :
    StInv env c (othersOf s c) ⟨s.conns c, s.ctx⟩ where
  id := h.ids c
  conn := h.conn c
  live := .inl hni
  others := by
    rintro x ⟨d, -, rfl⟩
    exact h.conn d
  core := h.core

theorem SysInv.put (hs : SysInv env s) (h : StInv env c (othersOf s c) t) :
    SysInv env (s.put c t) where
  ids d := by
    by_cases hd : d = c
    · simp only [Sys.put, hd, if_true]
      exact h.id
    · simp only [Sys.put, hd, if_false]
      exact hs.ids d
  conn d := by
    by_cases hd : d = c
    · simp only [Sys.put, hd, if_true]
      exact h.conn
    · simp only [Sys.put, hd, if_false]
      exact h.others _ ⟨d, hd, rfl⟩
  core := h.core

theorem SysInv.same (h : SysInv env s) (hv : ∀ d, SameView (s.conns d) (s'.conns d))
    (htable : s'.ctx.htTable = s.ctx.htTable) (htrace : s'.ctx.trace = s.ctx.trace)
    (hops : ∀ o, (s'.ctx.ops o).data = (s.ctx.ops o).data) : SysInv env s' where
  ids d := (hv d).id.trans (h.ids d)
  conn d := (h.conn d).mono (l := []) (hv d) (fun b hb => htable ▸ hb) (by rw [htrace]; rfl)
  core := ⟨fun b => htable ▸ h.core.nodup b, fun o r hr => h.core.hello o r (hops o ▸ hr)⟩

theorem SysInv.quiet (h : SysInv env s) (hq : SysQuiet s s') : SysInv env s' := by
  obtain ⟨hconns, out, outside, hctx⟩ := hq
  refine h.same (fun d => hconns ▸ .refl _) ?_ ?_ (fun o => ?_) <;> rw [hctx]

theorem mem_htInsert {ctx : Ctx} {tcp : Tcp} {b : Nat} {d : ConnId}
    (h : d ∈ (htInsert tcp c ctx).htTable b) :
    d ∈ ctx.htTable b ∨ (d = c ∧ b = calculateHash tcp) := by
  simp only [htInsert] at h
  split at h
  · rename_i hb
    rcases List.mem_append.mp h with h | h
    · exact .inl h
    · exact .inr ⟨List.mem_singleton.mp h, hb⟩
  · exact .inl h

/- A connection that can be inserted is idle, hence fresh and not in the table. -/
theorem SysInv.inserted (h : SysInv env s) (hi : Inserted c s s') : SysInv env s' := by
  have htable : s'.ctx.htTable = (htInsert (s'.conns c).tcp c s.ctx).htTable :=
    (congrArg Ctx.htTable hi.ctx :)
  have htrace := hi.trace
  have hops : s'.ctx.ops = s.ctx.ops := (congrArg Ctx.ops hi.ctx :)
  have habsent : ∀ b, c ∉ s.ctx.htTable b := fun b hb =>
    ((h.conn c).placed b (by rw [h.ids c]; exact hb)).1 hi.idle
  obtain ⟨port, cookie, p, hconn⟩ := hi.conn
  obtain ⟨hfresh, hnot⟩ := (h.conn c).idle hi.idle
  have hstate : (s'.conns c).sess = (s.conns c).sess := by rw [hconn]
  have hid : ∀ d, (s'.conns d).id = d := fun d => by
    by_cases hd : d = c
    · rw [hd, hconn]
      exact h.ids c
    · rw [hi.others d hd]
      exact h.ids d
  refine ⟨hid, fun d => ?_, fun b => ?_, fun o r hr => h.core.hello o r (hops ▸ hr)⟩
  · by_cases hd : d = c
    · subst hd
      refine ⟨?_, ?_, ?_, ?_, ?_, ?_, ?_⟩
      · intro hidle
        rw [hconn] at hidle
        cases hidle
      · intro b hb
        rw [hid, htable] at hb
        rcases mem_htInsert hb with hb | ⟨-, hb⟩
        · exact absurd hb (habsent b)
        · refine ⟨?_, hb⟩
          rw [hconn]
          exact fun hc => by cases hc
      · intro hne
        rw [hstate] at hne
        exact absurd hfresh hne
      · intro hle
        rw [hstate, hfresh] at hle
        exact absurd hle (by decide)
      · intro hc
        rw [hstate, hfresh] at hc
        cases hc
      · intro ha
        rw [hstate] at ha
        exact absurd ha hnot
      · rw [hstate]
        exact (h.conn d).records
    · rw [hi.others d hd]
      refine (h.conn d).mono (l := [.insert c]) (.refl _) (fun b hb => ?_) ?_
      · rw [htable] at hb
        rcases mem_htInsert hb with hb | ⟨hb, -⟩
        · exact hb
        · exact absurd ((h.ids d).symm.trans hb) hd
      · rw [htrace, h.ids d]
        simp only [lifetime, Ne.symm hd, if_false]
        rfl
  · rw [htable]
    simp only [htInsert]
    split
    · refine List.nodup_append.mpr ⟨h.core.nodup b, by simp, ?_⟩
      rintro x hx y hy rfl
      rw [List.mem_singleton.mp hy] at hx
      exact habsent b hx
    · exact h.core.nodup b

def Session.withoutPka (e : Session) : Session :=
  { e with
    pendingPkaOp := none, ecdhePrivKey := {}, pkaOp := none, pkaResults := []
    completedCrypto := false }

theorem setConn_sameView {f : Session → Session} (hf : ∀ e, (f e).withoutPka = e.withoutPka)
    (s : Sys) (d : ConnId) :
    SameView (s.conns d) ((s.setConn c f).conns d) := by
  by_cases hd : d = c
  · have hc := hf (s.conns d).sess
    simp only [Sys.setConn, hd, if_true]
    rw [hd] at hc
    refine ⟨rfl, (congrArg Session.state hc :), (congrArg Session.handshakeState hc :),
      (congrArg Session.pendingSp hc :), (congrArg Session.readSp hc :),
      (congrArg (fun e => e.tls13Ctx.calculatedVd) hc :), (congrArg Session.handshakeMsgs hc :), rfl,
      fun hi => hi, fun r hr => ?_⟩
    have hcur : (f (s.conns c).sess).currentReadRecord = (s.conns c).sess.currentReadRecord :=
      (congrArg Session.currentReadRecord hc :)
    have hq : (f (s.conns c).sess).recvQ = (s.conns c).sess.recvQ := (congrArg Session.recvQ hc :)
    rwa [hcur, hq] at hr
  · simp only [Sys.setConn, hd, if_false]
    exact .refl _

theorem SysInv.submitted {priv : Operand} (h : SysInv env s)
    (hs : handleSubmittedPka priv s = .ok s') : SysInv env s' := by
  rcases handleSubmittedPka_cases hs with rfl | ⟨o, ring, d, -, -, -, -, hconns, hctx⟩
  · exact h
  · refine h.same (fun i => ?_) (by rw [hctx]; rfl) (by rw [hctx]; rfl) (fun i => ?_)
    · rw [hconns]
      refine setConn_sameView ?_ s i
      exact fun _ => rfl
    · rw [hctx]
      simp only [Ctx.setOp]
      split
      · rename_i hi
        rw [hi]
      · rfl

theorem SysInv.completed {o : OpId} {results : List Bytes} (h : SysInv env s)
    (hs : handleCompletedPka o results s = .ok s') : SysInv env s' := by
  rcases handleCompletedPka_cases hs with rfl | ⟨d, -, -, ⟨-, hconns, hctx⟩ | ⟨-, -, hconns, hctx⟩⟩
  · exact h
  all_goals
    refine h.same (fun i => ?_) (by rw [hctx]) (by rw [hctx]) (fun i => by rw [hctx])
    rw [hconns]
    refine setConn_sameView ?_ s i
    exact fun _ => rfl

theorem initial_sysInv (env : Env) (n ringCnt : Nat) : SysInv env (initial n ringCnt) where
  ids _ := rfl
  conn c := by
    refine ⟨fun _ => ⟨rfl, by simp [initial]⟩, fun b hb => ?_, fun hne => absurd rfl hne, fun hle => ?_,
      (fun hc => by cases hc), (fun ha => by cases ha), fun r hr => ?_⟩
    · simp [initial] at hb
    · exact absurd hle (show ¬ HandshakeType.certificateVerify ≤ .helloRequest by decide)
    · simp [initial] at hr
  core := ⟨fun b => by simp [initial], fun o r hr => by simp [initial] at hr⟩

/-! ### Runs -/

theorem step_keeps {x : Input} (h : step env x s = .ok s') :
    Keeps (fun s : Sys => s.ctx.trace) (InTurn env) (SysInv env) s s' := by
  have hquiet : ∀ {a b : Sys}, SysQuiet a b →
      Keeps (fun s : Sys => s.ctx.trace) (InTurn env) (SysInv env) a b := by
    intro a b hq
    obtain ⟨-, out, outside, hctx⟩ := id hq
    exact .quiet (by rw [hctx]) fun hs => hs.quiet hq
  have hinsert : ∀ {a b : Sys} {d : ConnId}, Inserted d a b →
      Keeps (fun s : Sys => s.ctx.trace) (InTurn env) (SysInv env) a b := fun hi =>
    .record hi.trace fun _ _ hs => hs.inserted hi
  cases step_outcome h with
  | quiet hq => exact hquiet hq
  | @acts port p c t _ hfound ha =>
    have hk : StKeeps env c (othersOf s c) ⟨s.conns c, s.ctx⟩ t := (closed_keeps _ _ _).acts ha
    exact ⟨hk.grows, fun hg hs => hs.put (hk.keeps hg (hs.st (searchTcpConnection_live hfound)))⟩
  | @serves c t _ hmem hserve =>
    have hk : StKeeps env c (othersOf s c) ⟨s.conns c, s.ctx⟩ t :=
      (closed_keeps _ _ _).serve hserve
    refine ⟨hk.grows, fun hg hs => hs.put (hk.keeps hg (hs.st ?_))⟩
    exact ((hs.conn c).placed _ (by rw [hs.ids c]; exact hmem)).1
  | inserts hi hq => exact (hinsert hi).trans (hquiet hq)
  | @replaces c d t u s' hlive hr hq hi =>
    have hr := removeSession_removed hr
    have hremove : Keeps (fun s : Sys => s.ctx.trace) (InTurn env) (SysInv env) s (s.put c t) :=
      ⟨hr.grows, fun _ hs => hs.put ((hs.st hlive).removable.removed hr)⟩
    exact hremove.trans ((hquiet hq).trans (hinsert hi))
  | submits hsub =>
    refine .quiet ?_ fun hs => hs.submitted hsub
    rcases handleSubmittedPka_cases hsub with rfl | ⟨o, ring, d, -, -, -, -, -, hctx⟩
    · rfl
    · rw [hctx]
      rfl
  | completes hcomp =>
    refine .quiet ?_ fun hs => hs.completed hcomp
    rcases handleCompletedPka_cases hcomp with rfl | ⟨d, -, -, ⟨-, -, hctx⟩ | ⟨-, -, -, hctx⟩⟩
    · rfl
    all_goals rw [hctx]

/-- In a run in which every record is read in its turn, every active session is authenticated. -/
theorem active_authenticated (env : Env) (n ringCnt : Nat) (inputs : List Input) (s : Sys)
    (hrun : run (step env) inputs (initial n ringCnt) = .ok s)
    (hturn : ∀ e ∈ s.ctx.trace, InTurn env e) (c : ConnId)
    (hactive : (s.conns c).sess.state = .active) : Authenticated env c s.ctx.trace := by
  have hinv : SysInv env s :=
    (run_keeps (fun _ _ _ => step_keeps) inputs _ s hrun).keeps hturn (initial_sysInv env n ringCnt)
  have hauth := (hinv.conn c).active hactive
  rwa [hinv.ids c] at hauth

end

theorem active_authenticated_handshake :
    ∃ s, run (step sampleEnv) sampleHandshake (initial 2 8) = .ok s
      ∧ (∀ e ∈ s.ctx.trace, InTurn sampleEnv e) ∧ (s.conns 0).sess.state = .active
      ∧ Authenticated sampleEnv 0 s.ctx.trace := by
  obtain ⟨s, hs, hturn, hactive⟩ := endsIn_ok
    (fun s : Sys => (∀ e ∈ s.ctx.trace, InTurn sampleEnv e) ∧ (s.conns 0).sess.state = .active)
    (run (step sampleEnv) sampleHandshake (initial 2 8)) (by decide +kernel)
  exact ⟨s, hs, hturn, hactive, active_authenticated sampleEnv 2 8 _ s hs hturn 0 hactive⟩

/- A new connection whose first record is an application-data record in clear. -/
def samplePlainRun : List Input :=
  [.packet 0 sampleSyn, .packet 0 (sampleSegment 101 5 samplePlainFinished (by decide))]

def readInClear : Event → Bool
  | .read conn _ _ _ => conn.sess.readSp.bulkCipherAlgorithm = .noCipher
  | _ => true

/-- Forty-eight zero bytes in clear make a new connection active and onloaded: no record was
decrypted and no verify data computed. -/
theorem plainFinished_not_authenticated :
    ∃ s, run (step sampleEnv) samplePlainRun (initial 2 8) = .ok s
      ∧ (s.conns 0).sess.state = .active ∧ (s.conns 0).tcp.onload = true
      ∧ ¬ Authenticated sampleEnv 0 s.ctx.trace := by
  obtain ⟨s, hs, hactive, honload, hplain⟩ := endsIn_ok
    (fun s : Sys => (s.conns 0).sess.state = .active ∧ (s.conns 0).tcp.onload = true
      ∧ ∀ e ∈ lifetime 0 s.ctx.trace, readInClear e = true)
    (run (step sampleEnv) samplePlainRun (initial 2 8)) (by decide +kernel)
  refine ⟨s, hs, hactive, honload, ?_⟩
  rintro ⟨newer, conn, r, rest, room, older, hlife, -, -, hcipher, -⟩
  have hmem : Event.read conn r rest room ∈ lifetime 0 s.ctx.trace := by
    rw [hlife]
    exact List.mem_append_right _ List.mem_cons_self
  exact hcipher (of_decide_eq_true (hplain _ hmem))

end Xtls.Nic
