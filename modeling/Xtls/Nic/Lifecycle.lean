import Xtls.Lib.Labelled
import Xtls.Nic.Packet

/-!
# The life cycle of a connection

What the offload does with one connection from its insertion to its removal.  A `Stage` has the flags the
life cycle turns on (`tcp_connection_t`, `ssl_session_t`), `Stage.Step` is what can happen to it, and a
`Deed` is what the connection does on the way.
-/

namespace Xtls.Nic

structure Stage where
  /-- the connection is in the hash table -/
  listed : Prop
  /-- the two addresses and ports -/
  addr : UInt32 × UInt16 × UInt32 × UInt16
  recvMigFin : Bool
  hwsInserted : Bool
  hwsApplied : Bool
  hwsReadyToDel : Bool
  onload : Bool
  pendingAppData : Bytes
  state : SessionState
  handshakeState : HandshakeType
  /-- `write_sp` has no cipher -/
  clear : Bool
  sendSeqNum : UInt64
  serverWriteIvSeqNum : UInt64
  serverHandshakeKey : Bytes
  serverHandshakeIv : Bytes

/-- A call of `encrypt_record`. -/
structure EncryptCall where
  serverWriteIvSeqNum : UInt64
  recordSeqNum : UInt64
  sendSeqNum : UInt64
  key : Bytes
  iv : Bytes
  nonce : Bytes
  deriving DecidableEq

/-- What a connection does: it is created by a SYN; a packet of the client is stored, sent to the host, or
lost to another one or to `remove_session`; a MIG_FIN arrives while `meta_hdr` is `hdr`; a record is
encrypted; `send_pending_records` is called and `send_buffer` is `buffer`; the client sends FIN or RST before the
onload; the host sends a close packet that matches. -/
inductive Deed where
  | created (syn : Packet)
  | stored (frame : Bytes)
  | lost (frame : Bytes)
  | forwarded (stage : Stage)
  | migFin (p : Packet) (hdr : MetaHdr)
  | encrypts (call : EncryptCall)
  | flight (stage : Stage) (buffer : Bytes)
  | clientEnds
  | hostEnds

namespace Stage

variable (v : Stage)

def call : EncryptCall where
  serverWriteIvSeqNum := v.serverWriteIvSeqNum
  recordSeqNum := v.sendSeqNum
  sendSeqNum := v.sendSeqNum
  key := v.serverHandshakeKey
  iv := v.serverHandshakeIv
  nonce := makeNonce v.serverHandshakeIv v.sendSeqNum

def calls : List Deed := if v.clear then [] else [.encrypts v.call]

def sends : Stage :=
  if v.clear then v
  else { v with sendSeqNum := v.sendSeqNum + 1, serverWriteIvSeqNum := v.sendSeqNum + 1 }

def loses : List Deed := if v.pendingAppData = [] then [] else [.lost v.pendingAppData]

def removed : Stage where
  listed := False
  addr := (0, 0, 0, 0)
  recvMigFin := false
  hwsInserted := false
  hwsApplied := false
  hwsReadyToDel := false
  onload := false
  pendingAppData := []
  state := .init
  handshakeState := .helloRequest
  clear := true
  sendSeqNum := 0
  serverWriteIvSeqNum := 0
  serverHandshakeKey := slice (zeros maxKeySize) 0 32
  serverHandshakeIv := zeros maxKeySize

end Stage

/-- What can happen to a connection. -/
inductive Stage.Step : Stage → List Deed → Stage → Prop
  | cipherSpec (v : Stage)
      (h : v.handshakeState = .finished ∨ ¬ .clientCipherSpec ≤ v.handshakeState) :
      Step v [] { v with handshakeState := .clientCipherSpec }
  | finish (v : Stage) (h : ¬ .finished ≤ v.handshakeState) :
      Step v [] { v with handshakeState := .finished, state := .active, onload := true }
  | serverHello (v : Stage) (hl : v.listed) (h : v.handshakeState = .helloRequest) (clear : Bool) :
      Step v [] { v with handshakeState := .serverHello, state := .handshake, clear := clear
                         sendSeqNum := 0 }
  | keys (v : Stage) (hl : v.listed) (h : v.handshakeState = .serverHello) (key iv : Bytes) :
      Step v [] { v with serverHandshakeKey := key, serverHandshakeIv := iv }
  | encryptedExtensions (v : Stage) (hl : v.listed) (h : v.handshakeState = .serverHello) :
      Step v v.calls { v.sends with handshakeState := .encryptedExtensions }
  | certificate (v : Stage) (hl : v.listed) (h : v.handshakeState = .encryptedExtensions) :
      Step v v.calls { v.sends with handshakeState := .certificate }
  | certificateVerify (v : Stage) (hl : v.listed) (h : v.handshakeState = .certificate) :
      Step v v.calls { v.sends with handshakeState := .certificateVerify }
  | finished (v : Stage) (hl : v.listed) (h : v.handshakeState = .certificateVerify)
      (hn : v.sendSeqNum = if v.clear then 0 else 3) : Step v v.calls v.sends
  | flight (v : Stage) (hl : v.listed) (h : v.handshakeState = .certificateVerify)
      (hf : v.recvMigFin = true) (buffer : Bytes) : Step v [.flight v buffer] { v with handshakeState := .finished }
  | apply (v : Stage) (ha : v.state = .active) (hf : v.recvMigFin = true) :
      Step v [] { v with hwsInserted := true, hwsApplied := true }
  | store (v : Stage) (hl : v.listed) (ho : v.onload = true) (frame : Bytes) :
      Step v (v.loses ++ [.stored frame]) { v with pendingAppData := frame }
  | forward (v : Stage) (ha : v.hwsApplied = true) (hp : v.pendingAppData ≠ []) :
      Step v [.forwarded v] { v with pendingAppData := [] }
  | migFin (v : Stage) (hl : v.listed) (p : Packet) (hdr : MetaHdr)
      (hm : p.seq = hdr.serverSeqNum ∧ p.ack = hdr.serverAckNum) :
      Step v [.migFin p hdr] { v with recvMigFin := true }
  | refuse (v : Stage) (p : Packet) (hdr : MetaHdr) : Step v [.migFin p hdr] v
  | clientEnds (v : Stage) (ho : v.onload = false) : Step v [.clientEnds] v
  | hostEnds (v : Stage) : Step v [.hostEnds] { v with hwsReadyToDel := true }
  | remove (v : Stage) : Step v v.loses .removed

/-! ### What holds at every stage -/

/- The counters while the server flight is built; they stay at zero if it is sent in clear. -/
def Stage.Counted (v : Stage) : Prop :=
  match v.handshakeState with
  | .helloRequest => v.clear = true ∧ v.serverWriteIvSeqNum = 0
  | .serverHello => v.sendSeqNum = 0 ∧ v.serverWriteIvSeqNum = 0
  | .encryptedExtensions =>
    v.serverWriteIvSeqNum = v.sendSeqNum ∧ v.sendSeqNum = if v.clear then 0 else 1
  | .certificate => v.serverWriteIvSeqNum = v.sendSeqNum ∧ v.sendSeqNum = if v.clear then 0 else 2
  | .certificateVerify => v.serverWriteIvSeqNum = v.sendSeqNum
    ∧ (v.sendSeqNum = (if v.clear then 0 else 3) ∨ v.sendSeqNum = if v.clear then 0 else 4)
  | _ => True

def Stage.Late (v : Stage) : Prop :=
  v.handshakeState = .clientCipherSpec ∨ v.handshakeState = .finished

structure Stage.Sound (v : Stage) : Prop where
  out : ¬ v.listed → v.recvMigFin = false ∧ (v.handshakeState = .helloRequest ∨ v.Late)
  kept : v.listed ∧ v.onload = true ∨ v.pendingAppData = []
  counted : v.Counted
  active : v.state = .active → v.Late
  applied : v.hwsApplied = true →
    v.hwsInserted = true ∧ v.recvMigFin = true ∧ v.state = .active

section

variable {v v' : Stage} {ds : List Deed}

theorem Stage.mem_calls {d : Deed} (h : d ∈ v.calls) : d = .encrypts v.call := by
  unfold Stage.calls at h
  split at h
  · exact absurd h List.not_mem_nil
  · exact List.mem_singleton.mp h

theorem Stage.mem_loses {d : Deed} (h : d ∈ v.loses) : d = .lost v.pendingAppData := by
  unfold Stage.loses at h
  split at h
  · exact absurd h List.not_mem_nil
  · exact List.mem_singleton.mp h

theorem Stage.sends_eq (v : Stage) : v.sends = { v with
    sendSeqNum := v.sends.sendSeqNum, serverWriteIvSeqNum := v.sends.serverWriteIvSeqNum } := by
  unfold Stage.sends
  split <;> rfl

theorem Stage.sends_counters (v : Stage) :
    v.sends.sendSeqNum = (if v.clear then v.sendSeqNum else v.sendSeqNum + 1)
    ∧ v.sends.serverWriteIvSeqNum = if v.clear then v.serverWriteIvSeqNum else v.sendSeqNum + 1 := by
  unfold Stage.sends
  split <;> exact ⟨rfl, rfl⟩

theorem Stage.Sound.early (h : v.Sound) (hl : ¬ v.Late) : v.state ≠ .active := fun ha => hl (h.active ha)

theorem Stage.Sound.built {k : HandshakeType} (h : v.Sound) (hk : v.handshakeState = k)
    (hn : ¬ (k = .helloRequest ∨ k = .clientCipherSpec ∨ k = .finished)) : v.listed :=
  Classical.byContradiction fun hl => hn (hk ▸ (h.out hl).2)

theorem Stage.Sound.sends (h : v.Sound) (hl : v.listed) (hlate : ¬ v.Late) (k : HandshakeType)
    (hc : ({ v with handshakeState := k, sendSeqNum := v.sends.sendSeqNum
                    serverWriteIvSeqNum := v.sends.serverWriteIvSeqNum } : Stage).Counted) :
    ({ v.sends with handshakeState := k } : Stage).Sound := by
  rw [v.sends_eq]
  exact ⟨fun hn => absurd hl hn, h.kept, hc, fun ha => absurd ha (h.early hlate), h.applied⟩

theorem Stage.Step.sound (hs : v.Step ds v') (h : v.Sound) : v'.Sound := by
  have hcounted := h.counted
  obtain ⟨hsend, hiv⟩ := v.sends_counters
  have hlate : ∀ {k}, v.handshakeState = k → ¬ (k = .clientCipherSpec ∨ k = .finished) → ¬ v.Late := by
    rintro k rfl hk
    exact hk
  unfold Stage.Counted at hcounted
  cases hs with
  | cipherSpec =>
    exact ⟨fun hn => ⟨(h.out hn).1, .inr (.inl rfl)⟩, h.kept, trivial, fun _ => .inl rfl, h.applied⟩
  | finish =>
    refine ⟨fun hn => ⟨(h.out hn).1, .inr (.inr rfl)⟩, h.kept.imp (fun hk => ⟨hk.1, rfl⟩) (fun hk => hk),
      trivial, fun _ => .inr rfl, fun ha => ?_⟩
    exact ⟨(h.applied ha).1, (h.applied ha).2.1, rfl⟩
  | serverHello hl hst clear =>
    simp only [hst] at hcounted
    refine ⟨fun hn => absurd hl hn, h.kept, ⟨rfl, hcounted.2⟩, fun ha => absurd ha nofun, fun ha => ?_⟩
    exact absurd (h.applied ha).2.2 (h.early (hlate hst (by decide)))
  | keys => exact ⟨h.out, h.kept, h.counted, h.active, h.applied⟩
  | encryptedExtensions hl hst =>
    refine h.sends hl (hlate hst (by decide)) _ ?_
    simp only [hst] at hcounted
    simp only [Stage.Counted, hsend, hiv, hcounted]
    split <;> exact ⟨trivial, rfl⟩
  | certificate hl hst =>
    refine h.sends hl (hlate hst (by decide)) _ ?_
    simp only [hst] at hcounted
    simp only [Stage.Counted, hsend, hiv, hcounted]
    split <;> exact ⟨trivial, rfl⟩
  | certificateVerify hl hst =>
    refine h.sends hl (hlate hst (by decide)) _ ?_
    simp only [hst] at hcounted
    simp only [Stage.Counted, hsend, hiv, hcounted]
    split <;> exact ⟨trivial, .inl rfl⟩
  | finished hl hst hn =>
    have hsame : ({ v.sends with handshakeState := v.handshakeState } : Stage) = v.sends := by
      unfold Stage.sends
      split <;> rfl
    rw [← hsame]
    refine h.sends hl (hlate hst (by decide)) _ ?_
    simp only [hst] at hcounted
    simp only [Stage.Counted, hst, hsend, hiv, hcounted.1, hn]
    split <;> exact ⟨trivial, .inr rfl⟩
  | flight hl => exact ⟨fun hn => absurd hl hn, h.kept, trivial, fun _ => .inr rfl, h.applied⟩
  | apply ha hf => exact ⟨h.out, h.kept, h.counted, h.active, fun _ => ⟨rfl, hf, ha⟩⟩
  | store hl ho => exact ⟨h.out, .inl ⟨hl, ho⟩, h.counted, h.active, h.applied⟩
  | forward => exact ⟨h.out, .inr rfl, h.counted, h.active, h.applied⟩
  | migFin hl =>
    exact ⟨fun hn => absurd hl hn, h.kept, h.counted, h.active,
      fun ha => ⟨(h.applied ha).1, rfl, (h.applied ha).2.2⟩⟩
  | refuse => exact h
  | clientEnds => exact h
  | hostEnds => exact ⟨h.out, h.kept, h.counted, h.active, h.applied⟩
  | remove =>
    exact ⟨fun _ => ⟨rfl, .inl rfl⟩, .inr rfl, ⟨rfl, rfl⟩, fun ha => absurd ha nofun,
      fun ha => absurd ha nofun⟩

theorem Stage.path_sound (hp : Path Stage.Step v ds v') (h : v.Sound) : v'.Sound := by
  induction hp with
  | refl => exact h
  | cons hs _ ih => exact ih (hs.sound h)

def Stage.created (v : Stage) (syn : Packet) : Stage := { v with listed := True, addr := syn.addr }

theorem Stage.Sound.created (h : v.Sound) (hn : ¬ v.listed) (syn : Packet) : (v.created syn).Sound :=
  ⟨fun hl => absurd trivial hl, .inr (h.kept.resolve_left fun hk => hn hk.1), h.counted, h.active, h.applied⟩

end

end Xtls.Nic
