import Xtls.Nic.Outgoing

/-!
# The order of a migration

`send_pending_records`, `apply_hws` and `forward_app_data` wait for the host: its MIG_FIN has to repeat
the two numbers of `meta_hdr` (`process_host_mig_fin`, `tcp.c` 2939-3005).
-/

namespace Xtls.Nic

def Deed.isFlight : Deed → Bool
  | .flight _ _ => true
  | _ => false

def Deed.isForwarded : Deed → Bool
  | .forwarded _ => true
  | _ => false

/-- A MIG_FIN with the numbers of `meta_hdr`. -/
def Deed.Matched : Deed → Prop
  | .migFin p hdr => p.seq = hdr.serverSeqNum ∧ p.ack = hdr.serverAckNum
  | _ => False

section

variable {v v' w : Stage} {ds log : List Deed}

structure Stage.Marks (v : Stage) (ds : List Deed) (v' : Stage) : Prop where
  flight : ∀ w b, .flight w b ∈ ds →
    ds = [.flight w b] ∧ v.listed ∧ v.handshakeState = .certificateVerify ∧ v'.Late
  waits : ∀ d ∈ ds, d.Waits → v.recvMigFin = true
  forwarded : ∀ w, .forwarded w ∈ ds → w = v ∧ v.hwsApplied = true
  fin : v'.recvMigFin = true → v.recvMigFin = true ∨ ∃ d ∈ ds, d.Matched
  listed : v'.listed → v.listed
  late : v'.listed → v.Late → v'.Late

theorem Stage.Marks.other (hd : ∀ d ∈ ds, ¬ d.Waits) (hf : v'.recvMigFin = true → v.recvMigFin = true)
    (hl : v'.listed → v.listed) (hlate : v'.listed → v.Late → v'.Late) : v.Marks ds v' where
  flight _ _ h := absurd trivial (hd _ h)
  waits d h hw := absurd hw (hd d h)
  forwarded _ h := absurd trivial (hd _ h)
  fin h := .inl (hf h)
  listed := hl
  late := hlate

theorem Stage.Step.marks (hs : v.Step ds v') (hv : v.Sound) : v.Marks ds v' := by
  have hnone : ∀ d ∈ ([] : List Deed), ¬ d.Waits := fun d h => absurd h List.not_mem_nil
  have hcalls : ∀ d ∈ v.calls, ¬ d.Waits := fun d h hw => by
    rw [Stage.mem_calls h] at hw
    exact hw
  have hloses : ∀ d ∈ v.loses, ¬ d.Waits := fun d h hw => by
    rw [Stage.mem_loses h] at hw
    exact hw
  have hearly : ∀ {k}, v.handshakeState = k → ¬ (k = .clientCipherSpec ∨ k = .finished) → ¬ v.Late := by
    rintro k rfl hk
    exact hk
  have hsends : v.sends.recvMigFin = v.recvMigFin ∧ v.sends.listed = v.listed := by
    rw [v.sends_eq]
    exact ⟨rfl, rfl⟩
  cases hs with
  | cipherSpec => exact .other hnone (fun h => h) (fun h => h) fun _ _ => .inl rfl
  | finish => exact .other hnone (fun h => h) (fun h => h) fun _ _ => .inr rfl
  | serverHello _ hst =>
    exact .other hnone (fun h => h) (fun h => h) fun _ h => absurd h (hearly hst (by decide))
  | keys => exact .other hnone (fun h => h) (fun h => h) fun _ h => h
  | encryptedExtensions _ hst =>
    exact .other hcalls (fun h => hsends.1 ▸ h) (fun h => hsends.2 ▸ h)
      fun _ h => absurd h (hearly hst (by decide))
  | certificate _ hst =>
    exact .other hcalls (fun h => hsends.1 ▸ h) (fun h => hsends.2 ▸ h)
      fun _ h => absurd h (hearly hst (by decide))
  | certificateVerify _ hst =>
    exact .other hcalls (fun h => hsends.1 ▸ h) (fun h => hsends.2 ▸ h)
      fun _ h => absurd h (hearly hst (by decide))
  | finished _ hst =>
    exact .other hcalls (fun h => hsends.1 ▸ h) (fun h => hsends.2 ▸ h)
      fun _ h => absurd h (hearly hst (by decide))
  | flight hl hst hf =>
    refine ⟨fun w b hw => ?_, fun _ _ _ => hf, fun w hw => ?_, fun h => .inl h, fun h => h,
      fun _ _ => .inr rfl⟩
    · cases List.mem_singleton.mp hw
      exact ⟨rfl, hl, hst, .inr rfl⟩
    · exact absurd (List.mem_singleton.mp hw) nofun
  | apply => exact .other hnone (fun h => h) (fun h => h) fun _ h => h
  | store hl ho frame =>
    refine .other (fun d hd => ?_) (fun h => h) (fun h => h) fun _ h => h
    rcases List.mem_append.mp hd with hd | hd
    · exact hloses d hd
    · rw [List.mem_singleton.mp hd]
      exact id
  | forward ha hp =>
    refine ⟨fun w b hw => ?_, fun _ _ _ => (hv.applied ha).2.1, fun w hw => ?_, fun h => .inl h,
      fun h => h, fun _ h => h⟩
    · exact absurd (List.mem_singleton.mp hw) nofun
    · cases List.mem_singleton.mp hw
      exact ⟨rfl, ha⟩
  | migFin hl p hdr hm =>
    refine ⟨fun w b hw => ?_, fun d hd hw => ?_, fun w hw => ?_, fun _ => .inr ⟨_, List.mem_singleton_self _, hm⟩,
      fun h => h, fun _ h => h⟩
    · exact absurd (List.mem_singleton.mp hw) nofun
    · rw [List.mem_singleton.mp hd] at hw
      exact absurd hw id
    · exact absurd (List.mem_singleton.mp hw) nofun
  | refuse p hdr =>
    refine .other (fun d hd => ?_) (fun h => h) (fun h => h) fun _ h => h
    rw [List.mem_singleton.mp hd]
    exact id
  | clientEnds =>
    refine .other (fun d hd => ?_) (fun h => h) (fun h => h) fun _ h => h
    rw [List.mem_singleton.mp hd]
    exact id
  | hostEnds =>
    refine .other (fun d hd => ?_) (fun h => h) (fun h => h) fun _ h => h
    rw [List.mem_singleton.mp hd]
    exact id
  | remove => exact .other hloses (fun h => absurd h nofun) (fun h => absurd h id) fun h => absurd h id

/-- What has been done since the insertion, and what may still be done. -/
structure Migrates (log : List Deed) (v : Stage) : Prop where
  after : EachAfter Deed.Matched Deed.Waits log
  fin : v.recvMigFin = true → ∃ d ∈ log, d.Matched
  once : log.countP Deed.isFlight ≤ 1
  spent : v.listed → 0 < log.countP Deed.isFlight → v.Late
  forwarded : ∀ w, .forwarded w ∈ log → w.hwsApplied = true ∧ w.Sound

theorem Stage.Marks.migrates (hm : v.Marks ds v') (hv : v.Sound) (h : Migrates log v) :
    Migrates (log ++ ds) v' := by
  have hcount : ds.countP Deed.isFlight = 0 ∨
      ds.countP Deed.isFlight = 1 ∧ log.countP Deed.isFlight = 0 ∧ v'.Late := by
    by_cases hf : ∃ w b, Deed.flight w b ∈ ds
    · obtain ⟨w, b, hw⟩ := hf
      obtain ⟨rfl, hl, hst, hlate⟩ := hm.flight w b hw
      refine .inr ⟨rfl, ?_, hlate⟩
      have hearly : ¬ v.Late := by
        unfold Stage.Late
        rw [hst]
        decide
      exact Nat.eq_zero_of_not_pos fun hpos => hearly (h.spent hl hpos)
    · refine .inl (List.countP_eq_zero.mpr fun d hd hfl => ?_)
      cases d with
      | flight w b => exact hf ⟨w, b, hd⟩
      | _ => cases hfl
  refine ⟨?_, ?_, ?_, ?_, ?_⟩
  · exact h.after.append fun d hd hw => h.fin (hm.waits d hd hw)
  · intro hf
    rcases hm.fin hf with hf | ⟨d, hd, hmatch⟩
    · obtain ⟨d, hd, hmatch⟩ := h.fin hf
      exact ⟨d, List.mem_append_left _ hd, hmatch⟩
    · exact ⟨d, List.mem_append_right _ hd, hmatch⟩
  · have honce := h.once
    rw [List.countP_append]
    omega
  · intro hl hpos
    rw [List.countP_append] at hpos
    rcases hcount with hzero | ⟨-, -, hlate⟩
    · exact hm.late hl (h.spent (hm.listed hl) (by omega))
    · exact hlate
  · intro w hw
    rcases List.mem_append.mp hw with hw | hw
    · exact h.forwarded w hw
    · obtain ⟨rfl, happlied⟩ := hm.forwarded w hw
      exact ⟨happlied, hv⟩

theorem lifeRule_migrates : LifeRule Migrates where
  initial := ⟨.nil, fun h => absurd h nofun, Nat.zero_le _, fun h => absurd h id,
    fun _ h => absurd h List.not_mem_nil⟩
  created p v hv hout := by
    refine ⟨?_, fun h => ?_, Nat.zero_le _, fun _ h => absurd h (Nat.lt_irrefl 0), fun w h => ?_⟩
    · have hsyn : EachAfter Deed.Matched Deed.Waits ([] ++ [.created p]) :=
        EachAfter.nil.append fun d hd hw => by
          rw [List.mem_singleton.mp hd] at hw
          exact absurd hw id
      exact hsyn
    · exact absurd ((hv.out hout).1.symm.trans h) nofun
    · exact absurd (List.mem_singleton.mp h) nofun
  step log v ds v' hv hs h := (hs.marks hv).migrates hv h

end

/-- In every lifetime of a connection the server flight is sent at most once, and it is sent, as are the
packets of the client, only after a MIG_FIN with the numbers of `meta_hdr`; a packet is sent to the
host only by an active session.  The step `x` is the next one, whether or not it ends the process.  What is
on record is what is sent: a step that returns sends no bytes to a client but segments of a flight that is on
record, once more or for the first time, and to the host nothing but a packet that is on record, a FIN
or an RST; and it sends everything that is on record. -/
theorem migration_order {env : Env} {inputs : List Input} {n ringCnt : Nat} {L : Observed}
    (h : run (observedStep env) inputs (.initial n ringCnt) = .ok L) (x : Input) (c : ConnId) :
    (L.log c ++ deeds env x L.state c).countP Deed.isFlight ≤ 1
    ∧ EachAfter Deed.Matched Deed.Waits (L.log c ++ deeds env x L.state c)
    ∧ (∀ v, .forwarded v ∈ L.log c ++ deeds env x L.state c → v.state = .active)
    ∧ ((L.state.conns c).tcp.hwsApplied = true →
      (L.state.conns c).tcp.hwsInserted = true ∧ (L.state.conns c).tcp.recvMigFin = true
      ∧ (L.state.conns c).sess.state = .active)
    ∧ ∀ s', step env x L.state = .ok s' → ∃ new, Posted env x L.state s' new := by
  obtain ⟨v, hm⟩ := run_deeds lifeRule_migrates h x c
  have hobeys := (run_obeys lifeRule_migrates h).1
  refine ⟨hm.once, hm.after, fun w hw => ?_, (hobeys.sound c).applied, fun s' hs => step_posted hobeys hs⟩
  obtain ⟨happlied, hsound⟩ := hm.forwarded w hw
  exact (hsound.applied happlied).2.2

/- The whole handshake and a packet that waits for `forward_app_data`. -/
theorem migration_order_handshake : ∃ L s' new,
    run (observedStep sampleEnv) (sampleHandshake ++ [.packet 0 (sampleRequest 1)]) (.initial 2 8) = .ok L
    ∧ (deeds sampleEnv (.serve 0) L.state 0).any Deed.isForwarded = true
    ∧ (L.log 0).any Deed.isFlight = true
    ∧ (L.log 0 ++ deeds sampleEnv (.serve 0) L.state 0).countP Deed.isFlight ≤ 1
    ∧ EachAfter Deed.Matched Deed.Waits (L.log 0 ++ deeds sampleEnv (.serve 0) L.state 0)
    ∧ (∀ v, .forwarded v ∈ L.log 0 ++ deeds sampleEnv (.serve 0) L.state 0 → v.state = .active)
    ∧ step sampleEnv (.serve 0) L.state = .ok s' ∧ Posted sampleEnv (.serve 0) L.state s' new := by
  obtain ⟨L, hL, hfwd, hflight, hstep⟩ := endsIn_ok
    (fun L : Observed => (deeds sampleEnv (.serve 0) L.state 0).any Deed.isForwarded = true
      ∧ (L.log 0).any Deed.isFlight = true ∧ (step sampleEnv (.serve 0) L.state).toBool = true)
    (run (observedStep sampleEnv) (sampleHandshake ++ [.packet 0 (sampleRequest 1)]) (.initial 2 8))
    (by decide +kernel)
  obtain ⟨honce, hafter, hactive, -, hposted⟩ := migration_order hL (.serve 0) 0
  cases hs : step sampleEnv (.serve 0) L.state with
  | error e =>
    rw [hs] at hstep
    cases hstep
  | ok s' =>
    obtain ⟨new, hnew⟩ := hposted s' hs
    exact ⟨L, s', new, hL, hfwd, hflight, honce, hafter, hactive, hs, hnew⟩

end Xtls.Nic
