import Xtls.Host.Request

/-!
# The number for the reset

`send_mig_fin_to_arm` puts `ack_num + recv_bytes` behind the TCP header (`meta_pkt.c` 425-481), and the NIC
resets a stale connection of the host with it (`tcp.c` 2969-2990).  `recv_bytes` adds up what `recvmsg`
returns on a socket that decrypts; the socket itself counts the bytes of TCP.
-/

namespace Xtls.Host

open Xtls.Nic

/-- A TLS record on the wire: `plain` bytes of content, and `overhead` bytes of header, type, padding and tag. -/
structure WireRecord where
  plain : Nat
  overhead : Nat
  overhead_ge : 22 ≤ overhead

/- The content of the records that have been received as a whole, of `n` bytes received. -/
def available : List WireRecord → Nat → Nat
  | [], _ => 0
  | r :: rs, n => if r.plain + r.overhead ≤ n then r.plain + available rs (n - (r.plain + r.overhead)) else 0

/-- A connection with what its socket has received in order, what has been read of it, and how many calls
have failed. -/
structure Socket where
  conn : ConnState
  received : Nat := 0
  read : Nat := 0
  failed : Nat := 0

inductive SockEvent where
  | segment (n : Nat)
  | recv (msg : RecvMsg)

def RecvMsg.length : RecvMsg → Nat
  | .data b _ => b.length
  | _ => 0

def RecvMsg.failures : RecvMsg → Nat
  | .data _ _ => 0
  | _ => 1

def sockStep (fcache : List FileCache) (wwwMain value : Bytes) : SockEvent → Socket → Except Halt Socket
  | .segment n, k => .ok { k with received := k.received + n }
  | .recv msg, k => .ok
    { k with
      conn := (handleReceivedPkt fcache wwwMain value msg k.conn).2
      read := k.read + msg.length, failed := k.failed + msg.failures }

/-- `recvmsg` returns what is there to read. -/
def sockReady (records : List WireRecord) : SockEvent → Socket → Prop
  | .segment _, _ => True
  | .recv msg, k => k.read + msg.length ≤ available records k.received

def Socket.rcvNxt (k : Socket) : UInt32 := k.conn.metaInfo.ackNum + UInt32.ofNat k.received

def Socket.migFin (k : Socket) : Bytes := sendMigFinToArm k.conn.metaInfo k.conn.recvBytes

/-- The NIC resets the host's connection with the number, whatever its own connection is. -/
def ResetsWith (frame : Bytes) (seq : UInt32) : Prop :=
  ∀ s : St, matchesMeta (parsePacket frame) s.conn.sess = false → ∃ port pkt rest,
    (processHostMigFin (parsePacket frame) s).ctx.out = s.ctx.out ++ .tcp port pkt :: rest ∧ pkt.sentSeq = seq

section

variable {records : List WireRecord} {fcache : List FileCache} {wwwMain value : Bytes} {k : Socket}

theorem available_le (records : List WireRecord) (n : Nat) : available records n ≤ n := by
  induction records generalizing n with
  | nil => exact Nat.zero_le n
  | cons r rs ih =>
    rw [available]
    split
    · have hrest := ih (n - (r.plain + r.overhead))
      omega
    · exact Nat.zero_le n

theorem available_mono (records : List WireRecord) {m n : Nat} (h : m ≤ n) :
    available records m ≤ available records n := by
  induction records generalizing m n with
  | nil => exact Nat.le_refl 0
  | cons r rs ih =>
    rw [available, available]
    split
    · have hrest : available rs (m - (r.plain + r.overhead)) ≤ available rs (n - (r.plain + r.overhead)) :=
        ih (by omega)
      rw [if_pos (by omega)]
      omega
    · exact Nat.zero_le _

/- `recv_bytes` is what has been read, less one for every failed call. -/
theorem handleReceivedPkt_counts (fcache : List FileCache) (wwwMain value : Bytes) (msg : RecvMsg) (c : ConnState) :
    (handleReceivedPkt fcache wwwMain value msg c).2.recvBytes = c.recvBytes + msg.length - msg.failures := by
  have hfile : ∀ c : ConnState, (lookupFile fcache wwwMain value c).recvBytes = c.recvBytes := fun c => by
    unfold lookupFile
    dsimp only
    split
    · rfl
    · split <;> rfl
  cases msg with
  | again => simp [handleReceivedPkt, RecvMsg.length, RecvMsg.failures]
  | failed => simp [handleReceivedPkt, RecvMsg.length, RecvMsg.failures]
  | data b types =>
    simp only [handleReceivedPkt, RecvMsg.length, RecvMsg.failures, Int.natCast_zero, Int.sub_zero]
    split
    · rfl
    · split
      · rfl
      · split
        · rfl
        · split
          · rfl
          · exact hfile _

structure Counted (records : List WireRecord) (k : Socket) : Prop where
  recvBytes : k.conn.recvBytes = k.read - k.failed
  read : k.read ≤ available records k.received

theorem sockStep_counted (e : SockEvent) (k k' : Socket) (hready : sockReady records e k)
    (hs : sockStep fcache wwwMain value e k = .ok k') (h : Counted records k) : Counted records k' := by
  cases e with
  | segment n =>
    cases hs
    exact ⟨h.recvBytes, h.read.trans (available_mono records (Nat.le_add_right ..))⟩
  | recv msg =>
    cases hs
    refine ⟨?_, hready⟩
    have hcount := handleReceivedPkt_counts fcache wwwMain value msg k.conn
    have hold := h.recvBytes
    show (handleReceivedPkt fcache wwwMain value msg k.conn).2.recvBytes
      = ((k.read + msg.length : Nat) : Int) - ((k.failed + msg.failures : Nat) : Int)
    omega

theorem le32_migFin (m : MetaInfo) (recvBytes : Int) :
    le32 (sendMigFinToArm m recvBytes) 48 = m.ackNum + UInt32.ofInt recvBytes := by
  have htail : slice (sendMigFinToArm m recvBytes) 48 4 = putLe32 (m.ackNum + UInt32.ofInt recvBytes) :=
    slice_field (armFrame 0xfd (putLe32 (m.ackNum + UInt32.ofInt recvBytes)) m) (i := 17) rfl
      (by simp [fieldOffset, armFrame])
  rw [le32_slice, htail, le32_putLe32]

theorem resetsWith_iff (frame : Bytes) (seq : UInt32)
    (hstale : ∃ s : St, matchesMeta (parsePacket frame) s.conn.sess = false) :
    ResetsWith frame seq ↔ le32 frame 48 = seq := by
  have hout : ∀ s : St, matchesMeta (parsePacket frame) s.conn.sess = false → ∃ port pkt rest,
      (processHostMigFin (parsePacket frame) s).ctx.out = s.ctx.out ++ .tcp port pkt :: rest
        ∧ pkt.sentSeq = le32 frame 48 := fun s hs => by
    simp only [processHostMigFin, hs]
    exact ⟨_, _, _, List.append_assoc .., rfl⟩
  constructor
  · intro h
    obtain ⟨s, hs⟩ := hstale
    obtain ⟨port, pkt, rest, hsent, hseq⟩ := h s hs
    obtain ⟨port', pkt', rest', hsent', hseq'⟩ := hout s hs
    rw [hsent'] at hsent
    cases List.append_cancel_left hsent
    exact hseq'.symm.trans hseq
  · rintro rfl s hs
    exact hout s hs

theorem ofInt_eq_ofNat (i : Int) (n : Nat) : UInt32.ofInt i = UInt32.ofNat n ↔ (2 ^ 32 : Int) ∣ n - i := by
  rw [← UInt32.toNat_inj]
  simp only [UInt32.ofInt, UInt32.toNat_ofNat']
  omega

/- Some connection of the NIC does not have the numbers of the packet. -/
theorem exists_stale (p : Packet) : ∃ s : St, matchesMeta p s.conn.sess = false := by
  have hne : ¬ p.seq = p.seq + 1 := by
    intro h
    have hnat := congrArg UInt32.toNat h
    have hone : (1 : UInt32).toNat = 1 := rfl
    have hlt := p.seq.toNat_lt
    rw [UInt32.toNat_add, hone] at hnat
    omega
  refine ⟨⟨{ id := 0, tcp := {}, sess := { metaHdr := { serverSeqNum := p.seq + 1 } } }, {}⟩, ?_⟩
  simp only [matchesMeta, hne, false_and, decide_false]

end

/-- In every history, MIG_FIN and the reset of the NIC carry the next sequence number that the socket
expects if and only if the bytes that it received and no call returned, and the calls that failed, add up
to a multiple of `2 ^ 32`. -/
theorem migFin_rcvNxt (records : List WireRecord) (fcache : List FileCache) (wwwMain value : Bytes) (conn : ConnState)
    (hnew : conn.recvBytes = 0) (events : List SockEvent) (k : Socket)
    (hready : Along (sockStep fcache wwwMain value) (sockReady records) events { conn := conn })
    (hrun : run (sockStep fcache wwwMain value) events { conn := conn } = .ok k) :
    (le32 k.migFin 48 = k.rcvNxt ∧ ResetsWith k.migFin k.rcvNxt)
      ↔ 2 ^ 32 ∣ k.received - k.read + k.failed := by
  have h : Counted records k := run_along sockStep_counted events _ k hready hrun ⟨hnew, Nat.zero_le _⟩
  have hle : k.read ≤ k.received := h.read.trans (available_le records k.received)
  have hsum : (k.received : Int) - k.conn.recvBytes = ((k.received - k.read + k.failed : Nat) : Int) := by
    rw [h.recvBytes]
    omega
  have hvalue : le32 k.migFin 48 = k.rcvNxt ↔ 2 ^ 32 ∣ k.received - k.read + k.failed := by
    rw [Socket.migFin, le32_migFin, Socket.rcvNxt, UInt32.add_right_inj, ofInt_eq_ofNat, hsum]
    exact Int.natCast_dvd_natCast (m := 2 ^ 32)
  rw [resetsWith_iff _ _ (exists_stale _), and_self, hvalue]

def sampleRecord : WireRecord := ⟨2, 22, Nat.le_refl 22⟩

def sampleReceipt : List SockEvent := [.segment 24, .recv (.data [71, 69] [0x17])]

theorem migFin_rcvNxt_receipt :
    ∃ k, run (sockStep [] [] []) sampleReceipt { conn := { metaInfo := { ackNum := 7 } } } = .ok k
      ∧ k.received = 24 ∧ k.read = 2 ∧ k.failed = 0
      ∧ ¬ (le32 k.migFin 48 = k.rcvNxt ∧ ResetsWith k.migFin k.rcvNxt) := by
  have hready : Along (sockStep [] [] []) (sockReady [sampleRecord]) sampleReceipt
      { conn := { metaInfo := { ackNum := 7 } } } := by
    refine ⟨trivial, ?_, trivial⟩
    show 0 + 2 ≤ available [sampleRecord] 24
    decide
  refine ⟨_, rfl, rfl, rfl, rfl, fun h => ?_⟩
  have hsum := (migFin_rcvNxt [sampleRecord] [] [] [] { metaInfo := { ackNum := 7 } } rfl sampleReceipt _
    hready rfl).mp h
  exact absurd hsum (by decide)

/-- A record of 24 bytes on the wire, read as 2 bytes. -/
theorem recordRead_differs :
    ∃ k, run (sockStep [] [] []) sampleReceipt { conn := { metaInfo := { ackNum := 7 } } } = .ok k
    ∧ Along (sockStep [] [] []) (sockReady [sampleRecord]) sampleReceipt { conn := { metaInfo := { ackNum := 7 } } }
    ∧ k.rcvNxt = 31 ∧ le32 k.migFin 48 = 9 := by
  refine ⟨_, rfl, ⟨trivial, ?_, trivial⟩, by decide, by decide +kernel⟩
  show 0 + 2 ≤ available [sampleRecord] 24
  decide

end Xtls.Host
