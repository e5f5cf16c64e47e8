import Xtls.Nic.Course

/-!
# A SYN that arrives twice

`validate_syn_packet` (`tcp.c` 2548-2564) takes a SYN for a retransmission if the number behind it is
`last_recv_seq`, which is so after `insert_tcp_connection`; but `process_normal_seq_case` (2617-2648)
writes the number of every segment it accepts there.
-/

namespace Xtls.Nic

/-- The addresses and the sequence number of the SYN that has created the connection. -/
def createdFrom (log : List Deed) : Option ((UInt32 × UInt16 × UInt32 × UInt16) × UInt32) :=
  match log with
  | .created p :: _ => some (p.addr, p.seq)
  | _ => none

/-- A connection in the table keeps the addresses of its SYN. -/
def Born (log : List Deed) (v : Stage) : Prop :=
  v.listed → ∃ seq, createdFrom log = some (v.addr, seq)

section

variable {v v' : Stage} {ds : List Deed}

theorem createdFrom_append {log : List Deed} {a} (h : createdFrom log = some a) (ds : List Deed) :
    createdFrom (log ++ ds) = some a := by
  cases log with
  | nil => cases h
  | cons d log =>
    cases d with
    | created p => exact h
    | _ => cases h

theorem Stage.Step.addr (hs : v.Step ds v') (hl : v'.listed) : v.listed ∧ v'.addr = v.addr := by
  have hsends : v.sends.listed = v.listed ∧ v.sends.addr = v.addr := by
    rw [v.sends_eq]
    exact ⟨rfl, rfl⟩
  cases hs with
  | encryptedExtensions h => exact ⟨h, hsends.2⟩
  | certificate h => exact ⟨h, hsends.2⟩
  | certificateVerify h => exact ⟨h, hsends.2⟩
  | finished h => exact ⟨h, hsends.2⟩
  | remove => exact absurd hl id
  | cipherSpec => exact ⟨hl, rfl⟩
  | finish => exact ⟨hl, rfl⟩
  | serverHello => exact ⟨hl, rfl⟩
  | keys => exact ⟨hl, rfl⟩
  | flight => exact ⟨hl, rfl⟩
  | apply => exact ⟨hl, rfl⟩
  | store => exact ⟨hl, rfl⟩
  | forward => exact ⟨hl, rfl⟩
  | migFin => exact ⟨hl, rfl⟩
  | refuse => exact ⟨hl, rfl⟩
  | clientEnds => exact ⟨hl, rfl⟩
  | hostEnds => exact ⟨hl, rfl⟩

theorem lifeRule_born : LifeRule Born where
  initial := fun hl => absurd hl id
  created p _ _ _ := fun _ => ⟨p.seq, rfl⟩
  step log v ds v' _ hs h := by
    intro hl
    obtain ⟨hl, haddr⟩ := hs.addr hl
    obtain ⟨seq, hborn⟩ := h hl
    rw [haddr]
    exact ⟨seq, createdFrom_append hborn ds⟩

end

section

variable {env : Env} {inputs : List Input} {n ringCnt : Nat} {L : Observed} {c : ConnId} {dup : Packet}
  {port : UInt16}

theorem SynOutcome.disturbs {s s' : Sys} {p : Packet} (h : SynOutcome env port p s s')
    (hq : SysQuiet s s') (hfound : searchTcpConnection p s = .ok (some c)) :
    p.seq + 1 = (s.conns c).tcp.lastRecvSeq := by
  cases h with
  | creates hnone => exact absurd (hnone.symm.trans hfound) nofun
  | answers hsome hsame =>
    cases hsome.symm.trans hfound
    exact hsame
  | @replaces _ d t u _ _ _ hr hq' hi =>
    obtain ⟨hins, -⟩ := insertTcpConnection_inserted hi
    obtain ⟨-, out, outside, hctx⟩ := hq
    obtain ⟨-, out', outside', hctx'⟩ := hq'
    have hlen : s'.ctx.trace.length = s.ctx.trace.length := by rw [hctx]
    have hgrows : t.ctx.trace.length + 1 = s'.ctx.trace.length := by
      rw [hins.ctx, hctx']
      rfl
    have hkept : s.ctx.trace.length ≤ t.ctx.trace.length := (removeSession_removed hr).grows.length_le
    omega

/-- A duplicate of the SYN that has created a connection in the table leaves everything but the output
as it is, if and only if the last segment accepted on it is the one right behind the SYN. -/
theorem duplicateSyn_kept (h : run (observedStep env) inputs (.initial n ringCnt) = .ok L)
    (hc : Listed L.state.ctx c) (hborn : createdFrom (L.log c) = some (dup.addr, dup.seq))
    (hsyn : validatePacketType port dup = some .tcpSyn) :
    (∃ s', step env (.packet port dup) L.state = .ok s' ∧ SysQuiet L.state s')
      ↔ (L.state.conns c).tcp.lastRecvSeq = dup.seq + 1 := by
  obtain ⟨hs, hlife⟩ := run_obeys lifeRule_born h
  have haddr : (L.state.conns c).tcp.addr = dup.addr := by
    obtain ⟨seq, hb⟩ := hlife c (hs.listed.mpr hc)
    rw [hborn] at hb
    exact (Prod.mk.inj (Option.some.inj hb)).1.symm
  have hfound : searchTcpConnection dup L.state = .ok (some c) := hs.facts.2.search hc haddr
  have hstep : step env (.packet port dup) L.state = processSynPacket env port dup L.state := by
    simp only [step, processPacket, hsyn]
  rw [hstep]
  constructor
  · rintro ⟨s', hok, hq⟩
    exact ((processSynPacket_cases hok).disturbs hq hfound).symm
  · intro hlast
    refine ⟨sendSynackPacket port dup (L.state.conns c).tcp.cookie L.state, ?_, emit_quiet _ _⟩
    unfold processSynPacket
    rw [hfound]
    exact if_pos hlast.symm

/- The SYN again right after the connection is created. -/
theorem duplicateSyn_kept_early : ∃ L,
    run (observedStep sampleEnv) [.packet 0 sampleSyn] (.initial 2 8) = .ok L
    ∧ (∃ s', step sampleEnv (.packet 0 sampleSyn) L.state = .ok s' ∧ SysQuiet L.state s') := by
  obtain ⟨L, hL, hmem, hborn, hlast⟩ := endsIn_ok
    (fun L : Observed => 0 ∈ L.state.ctx.htTable (calculateHash (L.state.conns 0).tcp)
      ∧ createdFrom (L.log 0) = some (sampleSyn.addr, sampleSyn.seq)
      ∧ (L.state.conns 0).tcp.lastRecvSeq = sampleSyn.seq + 1)
    (run (observedStep sampleEnv) [.packet 0 sampleSyn] (.initial 2 8)) (by decide +kernel)
  exact ⟨L, hL, (duplicateSyn_kept hL ⟨_, hmem⟩ hborn (by decide)).mpr hlast⟩

/- The SYN again after the handshake: the connection is removed and connection 1 takes its place. -/
theorem lateSyn_replaces : ∃ L s', run (observedStep sampleEnv) sampleHandshake (.initial 2 8) = .ok L
    ∧ 0 ∈ L.state.ctx.htTable (calculateHash (L.state.conns 0).tcp)
    ∧ createdFrom (L.log 0) = some (sampleSyn.addr, sampleSyn.seq)
    ∧ step sampleEnv (.packet 0 sampleSyn) L.state = .ok s'
    ∧ (s'.conns 0).tcp.state = .idle
    ∧ s'.ctx.htTable (calculateHash (s'.conns 1).tcp) = [1] := by
  obtain ⟨L, hL, hmem, hborn, hafter⟩ := endsIn_ok
    (fun L : Observed => 0 ∈ L.state.ctx.htTable (calculateHash (L.state.conns 0).tcp)
      ∧ createdFrom (L.log 0) = some (sampleSyn.addr, sampleSyn.seq)
      ∧ endsIn (fun s : Sys => (s.conns 0).tcp.state = .idle
        ∧ s.ctx.htTable (calculateHash (s.conns 1).tcp) = [1])
        (step sampleEnv (.packet 0 sampleSyn) L.state) = true)
    (run (observedStep sampleEnv) sampleHandshake (.initial 2 8)) (by decide +kernel)
  obtain ⟨s', hs, hgone, hnew⟩ := endsIn_ok _ _ hafter
  exact ⟨L, s', hL, hmem, hborn, hs, hgone, hnew⟩

end

end Xtls.Nic
