import Xtls.Nic.TwinRun

/-!
# Where the sequence numbers of a client start

The NIC compares sequence numbers of a client with each other and adds lengths to them, modulo 2^32, and
does nothing else with them.
-/

namespace Xtls.Nic

/-- The host answers with the acknowledgement number, and the copy of it, that a key meta packet brought. -/
def Packet.shiftHost (d : UInt32) (p : Packet) : Packet :=
  { p with ack := p.ack + d, frame := slice p.frame 0 48 ++ putLe32 (le32 p.frame 48 + d) }

def Input.shift (d : UInt32) : Input → Input
  | .packet port p => .packet port (if port % 2 = 0 then p.shift d else p.shiftHost d)
  | x => x

inductive Verdict where
  | segment (seq : SeqCase)
  | syn (again : Bool)
  | host (accepted : Bool)
  | unseen
  deriving DecidableEq

/- What sequence numbers decide about a packet of a connection. -/
def verdict (type : PacketType) (p : Packet) (c : Conn) : Verdict :=
  match type with
  | .sslHandshake => .segment (validateSequence c.tcp p.seq p.ack p.payloadLen)
  | .tcpSyn => .syn (p.seq + 1 = c.tcp.lastRecvSeq)
  | .hostMigFin | .hostClose => .host (matchesMeta p c.sess)
  | _ => .unseen

/-- The type of a packet, the connection that it is found to belong to, and the verdict on it. -/
def classify (x : Input) (s : Sys) : Option (PacketType × Except Halt (Option (ConnId × Verdict))) :=
  match x with
  | .packet port p => (validatePacketType port p).map fun type =>
    (type, (searchTcpConnection p s).map fun found => found.map fun c => (c, verdict type p (s.conns c)))
  | _ => none

section

variable {env : Env} {k : Skew} {s s' : Sys} {d : UInt32}

theorem Packet.shiftHost_twin (d : UInt32) (p : Packet) : HostTwin d p (p.shiftHost d) where
  etherType := rfl
  tos := rfl
  addr := rfl
  seq := rfl
  ack := rfl
  copy := by
    have hslice : slice (p.shiftHost d).frame 48 4 = putLe32 (le32 p.frame 48 + d) := by
      have hright := slice_append_right (slice p.frame 0 48) (putLe32 (le32 p.frame 48 + d)) 0 4
      rw [slice_length] at hright
      exact hright.trans (slice_self _)
    rw [le32_slice, hslice, le32_putLe32]

theorem odd_of_not_even {n : UInt16} (h : ¬ n % 2 = 0) : n % 2 = 1 := by
  have hodd : ¬ n.toNat % 2 = 0 := fun heven => h (UInt16.toNat_inj.mp ((UInt16.toNat_mod n 2).trans heven))
  apply UInt16.toNat_inj.mp
  rw [UInt16.toNat_mod]
  show n.toNat % 2 = 1
  omega

theorem Input.shift_twin (x : Input) : InputTwin { seq := d } x (x.shift d) := by
  cases x with
  | packet port p =>
    unfold Input.shift
    dsimp only
    split
    · exact .client ‹_› p
    · exact .host (odd_of_not_even ‹_›) (p.shiftHost_twin d)
  | serve c => exact .serve c
  | pkaSubmit priv => exact .pkaSubmit priv
  | pkaComplete o results => exact .pkaComplete o results
  | outside o => exact .outside o nofun

theorem verdict_client (hs : SysTwin k s s') {p : Packet} {type : PacketType} {c : ConnId}
    (hp : p.dstPort = 0xBB01) (htype : type ≠ .hostMigFin ∧ type ≠ .hostClose)
    (hfound : searchTcpConnection p s = .ok (some c)) :
    verdict type (p.shift k.seq) (s'.conns c) = verdict type p (s.conns c) := by
  obtain ⟨v, hv, he⟩ := hs.conns c (searchTcpConnection_live hfound)
  have hport : (s.conns c).tcp.serverPort = 0xBB01 := by
    have haddr := searchTcpConnection_addr hfound
    simp only [Tcp.addr, Packet.addr, Prod.mk.injEq] at haddr
    exact haddr.2.2.2.trans hp
  rw [he]
  cases type with
  | sslHandshake => exact congrArg Verdict.segment (validateSequence_twin hv hport _ _ _)
  | tcpSyn =>
    have hlast : v.lastRecvSeq = (s.conns c).tcp.lastRecvSeq + k.seq := by
      rw [← k.shift_https hport]
      exact hv.lastRecvSeq
    have hiff : p.seq + k.seq + 1 = v.lastRecvSeq ↔ p.seq + 1 = (s.conns c).tcp.lastRecvSeq := by
      rw [hlast]
      grind
    exact congrArg Verdict.syn (decide_eq_decide.mpr hiff)
  | hostMigFin => exact absurd rfl htype.1
  | hostClose => exact absurd rfl htype.2
  | tcpAck => rfl
  | tcpFin => rfl
  | tcpRst => rfl
  | tcpSynack => rfl

theorem verdict_host (hs : SysTwin k s s') {port : UInt16} {p p' : Packet} {type : PacketType} {c : ConnId}
    (hport : port % 2 = 1) (hp : HostTwin k.seq p p') (hknows : k.seq = 0 ∨ HostKnows (.packet port p) s)
    (htype : type = .hostMigFin ∨ type = .hostClose) (hfound : searchTcpConnection p s = .ok (some c)) :
    verdict type p' (s'.conns c) = verdict type p (s.conns c) := by
  have hconn := (hs.conns c (searchTcpConnection_live hfound)).twin hs.ctx
  have hmatch := matchesMeta_twin hconn hp (shift_known hport hknows hfound).1
  rcases htype with rfl | rfl
  · exact congrArg Verdict.host hmatch
  · exact congrArg Verdict.host hmatch

theorem classify_twin {x x' : Input} (hs : SysTwin k s s') (hx : InputTwin k x x')
    (hknows : k.seq = 0 ∨ HostKnows x s) : classify x' s' = classify x s := by
  -- the type and the search agree, which leaves the verdict on the connection that is found
  have hclassify : ∀ {port : UInt16} {p p' : Packet}, validatePacketType port p' = validatePacketType port p →
      p'.addr = p.addr → (∀ type c, validatePacketType port p = some type →
        searchTcpConnection p s = .ok (some c) → verdict type p' (s'.conns c) = verdict type p (s.conns c)) →
      classify (.packet port p') s' = classify (.packet port p) s := by
    intro port p p' htype haddr hverdict
    unfold classify
    dsimp only
    rw [htype, searchTcpConnection_twin hs haddr]
    cases htype : validatePacketType port p with
    | none => rfl
    | some type =>
      cases hfound : searchTcpConnection p s with
      | error e => rfl
      | ok found =>
        cases found with
        | none => rfl
        | some c =>
          have hv := hverdict type c htype hfound
          simp only [Option.map_some, Except.map, hv]
  cases hx with
  | client hport p =>
    refine hclassify rfl rfl fun type c htype hfound => ?_
    obtain ⟨hp, hmig, hclose⟩ := validatePacketType_even hport htype
    exact verdict_client hs hp ⟨hmig, hclose⟩ hfound
  | host hport hp =>
    refine hclassify ?_ hp.addr fun type c htype hfound => verdict_host hs hport hp hknows ?_ hfound
    · rw [validatePacketType_odd hport, validatePacketType_odd hport, hp.etherType, hp.tos]
    · rw [validatePacketType_odd hport] at htype
      split at htype
      · cases htype
      · split at htype
        · cases htype; exact .inl rfl
        · split at htype
          · cases htype; exact .inr rfl
          · cases htype
  | serve c => rfl
  | pkaSubmit priv => rfl
  | pkaComplete o results => rfl
  | outside o ho => rfl

theorem RecordTwin.rel_eq {x y : Option Record} (hids : k.ids = false) (h : Option.Rel (RecordTwin k) x y) :
    y = x := by
  cases h with
  | none => rfl
  | some h =>
    obtain ⟨n, rfl, hn⟩ := h
    rw [hn hids]

theorem initial_twin (k : Skew) (hids : k.ids = false) (n ringCnt : Nat) :
    SysTwin k (initial n ringCnt) (initial n ringCnt) := by
  have hconn : ∀ i, ConnTwin k ((initial n ringCnt).conns i) ((initial n ringCnt).conns i) := fun i =>
    ⟨_, .refl _ k.shift_zero rfl k.shift_zero (.nil _), rfl⟩
  refine ⟨fun i _ => hconn i, fun i => (hconn i).left, ?_⟩
  exact ⟨(initial n ringCnt).ctx.wild, ⟨fun o => .refl k _, .nil, rfl, fun h => absurd (hids ▸ h) nofun⟩, rfl⟩

/-- However the sequence numbers of the clients are shifted, packets are classified alike, TLS receives the
same records and the same part of the next one, and what is sent differs by the shift.  Packets of the host
answer a key meta packet of the connection that they come to.  A packet that does not come from the HTTPS
port is one of a cleared connection, which has no sequence numbers any more. -/
theorem seqShift_invariant (env : Env) (d : UInt32) (n ringCnt : Nat) (inputs : List Input)
    (ha : Along (step env) HostKnows inputs (initial n ringCnt)) :
    reports (step env) classify (inputs.map (Input.shift d)) (initial n ringCnt)
        = reports (step env) classify inputs (initial n ringCnt)
      ∧ Relates (fun u u' => List.Forall₂ (OutTwin { seq := d }) u.ctx.out u'.ctx.out
          ∧ delivered u'.ctx.trace = delivered u.ctx.trace
          ∧ ∀ c, (u'.conns c).sess.currentReadRecord = (u.conns c).sess.currentReadRecord)
        (run (step env) inputs (initial n ringCnt))
        (run (step env) (inputs.map (Input.shift d)) (initial n ringCnt)) := by
  have hinputs : List.Forall₂ (InputTwin { seq := d }) inputs (inputs.map (Input.shift d)) :=
    List.forall₂_map_right_iff.mpr (List.forall₂_same.mpr fun x _ => x.shift_twin)
  have hinit : Paired { seq := d } (initial n ringCnt) (initial n ringCnt) :=
    ⟨initial_opFacts n ringCnt, initial_placed n ringCnt, initial_twin { seq := d } rfl n ringCnt⟩
  have hstep : ∀ x x' u u', InputTwin { seq := d } x x' → HostKnows x u → Paired { seq := d } u u' →
      Relates (Paired { seq := d }) (step env x u) (step env x' u') :=
    fun x x' u u' hx hknows h => step_paired hx (.inr hknows) h
  refine ⟨reports_eq hstep (fun x x' u u' hx hknows h => classify_twin h.twin hx (.inr hknows)) hinputs ha hinit,
    (run_relates hstep hinputs ha hinit).mono fun u u' h => ?_⟩
  obtain ⟨w, hw, hctx⟩ := h.twin.ctx
  rw [hctx]
  refine ⟨hw.out, hw.trace, fun c => ?_⟩
  obtain ⟨v, _, _, _, hv, hconn⟩ := h.twin.left c
  rw [hconn]
  exact RecordTwin.rel_eq rfl hv.currentReadRecord

/- The sample handshake with a client that starts at 2^32 - 28, so that its numbers wrap within the first
segment. -/
theorem seqShift_invariant_wraps : Along (step sampleEnv) HostKnows sampleHandshake (initial 2 8)
    ∧ reports (step sampleEnv) classify (sampleHandshake.map (Input.shift 0xFFFFFF80)) (initial 2 8)
      = reports (step sampleEnv) classify sampleHandshake (initial 2 8) :=
  have ha : Along (step sampleEnv) HostKnows sampleHandshake (initial 2 8) := by decide +kernel
  ⟨ha, (seqShift_invariant sampleEnv 0xFFFFFF80 2 8 sampleHandshake ha).1⟩

end

end Xtls.Nic
