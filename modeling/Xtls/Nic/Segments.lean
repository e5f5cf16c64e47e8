import Mathlib.Algebra.Group.Nat.Defs
import Xtls.Nic.Frame

/-!
# Segments

The `do`/`while` of `send_tcp_packet` (`tcp.c` 2101-2259) with its three counters of type `int`, and what
it puts on the wire.
-/

namespace Xtls.Nic

/- `MIN` of `ssloff.h`: the difference is cast to `int32_t`. -/
def minMacro (x y : Int) : Int := if (x - y).bmod (2 ^ 32) < 0 then x else y

/-- The loop as it is written, with `left_to_send` and `already_to_send`; `none` when it has not ended
after `fuel` rounds. -/
def sendRounds (flags : Byte) (payload : Bytes) : Nat → Int → Int → St → Option St
  | 0, _, _, _ => none
  | fuel + 1, left, already, s =>
    let byteToSend := minMacro left (1500 - 20 - 20)
    let bytes := if 0 < byteToSend then slice payload already.toNat byteToSend.toNat else []
    let s := sendTcpSegment flags bytes (UInt32.ofInt already) s
    let left := left - byteToSend
    let already := already + byteToSend
    if 0 < left then sendRounds flags payload fuel left already s else some s

def sendTcpRounds (flags : Byte) (payload : Bytes) (s : St) : Option St :=
  sendRounds flags payload (payload.length + 1) payload.length 0 s

/-- The segments that carry `payload` for connection `c`, the first with offset `already`. -/
structure Segmented (c : Conn) (already : UInt32) (payload : Bytes) (segs : List OutTcp) : Prop where
  data : (segs.map OutTcp.payload).flatten = payload
  short : ∀ p ∈ segs, p.payload.length ≤ maxSegment
  seq : ∀ i (h : i < segs.length), segs[i].sentSeq
    = c.tcp.lastRecvAck + already + UInt32.ofNat ((segs.take i).map OutTcp.payload).flatten.length
  ack : ∀ p ∈ segs, p.recvAck = recvAckOf c
  empty : payload = [] → segs.length = 1

section

variable {payload : Bytes} {already : UInt32} {fuel : Nat} {c : Conn}

/-! ### The rounds on paper and in the code -/

theorem minMacro_eq {x y : Int} (hx : 0 ≤ x ∧ x < 65536) (hy : 0 ≤ y ∧ y < 65536) : minMacro x y = min x y := by
  have hcast : (x - y).bmod (2 ^ 32) = x - y := by
    refine Int.bmod_eq_of_le ?_ ?_ <;> omega
  rw [minMacro, hcast]
  omega

theorem ofInt_natCast (n : Nat) : UInt32.ofInt (n : Int) = UInt32.ofNat n := by
  rw [UInt32.ofInt, ← UInt32.toNat_inj, UInt32.toNat_ofNat', UInt32.toNat_ofNat']
  omega

theorem roundBytes_eq {n k : Nat} (hk : k = min (payload.length - n) maxSegment) :
    (if 0 < (k : Int) then slice payload (n : Int).toNat (k : Int).toNat else [])
      = (payload.drop n).take maxSegment := by
  rw [Int.toNat_natCast, Int.toNat_natCast]
  split
  · rename_i hpos
    rw [slice_of_le _ _ _ (by omega), List.take_eq_take_iff, List.length_drop, hk]
    omega
  · rename_i hzero
    have hmax : maxSegment = 1460 := rfl
    have hnil : payload.drop n = [] := List.drop_eq_nil_of_le (by omega)
    rw [hnil, List.take_nil]

theorem sendRounds_eq (flags : Byte) (h : payload.length < 65536) {n : Nat} (hn : n ≤ payload.length)
    (hfuel : payload.length - n < fuel) (s : St) :
    sendRounds flags payload fuel (payload.length - n : Int) n s
      = some (sendTcpLoop flags fuel (payload.drop n) (UInt32.ofNat n) s) := by
  have hmax : maxSegment = 1460 := rfl
  induction fuel generalizing n s with
  | zero => exact absurd hfuel (Nat.not_lt_zero _)
  | succ fuel ih =>
    have hbyte : minMacro (payload.length - n : Int) (1500 - 20 - 20)
        = ((min (payload.length - n) maxSegment : Nat) : Int) := by
      rw [minMacro_eq (by omega) (by omega)]
      omega
    rw [sendRounds, hbyte, roundBytes_eq rfl, ofInt_natCast, sendTcpLoop, List.length_drop]
    by_cases hlast : payload.length - n ≤ maxSegment
    · rw [if_neg (by omega), if_pos hlast]
    · rw [if_pos (by omega), if_neg hlast]
      have hleft : (payload.length - n : Int) - ((min (payload.length - n) maxSegment : Nat) : Int)
          = payload.length - ((n + maxSegment : Nat) : Int) := by omega
      have halready : (n : Int) + ((min (payload.length - n) maxSegment : Nat) : Int)
          = ((n + maxSegment : Nat) : Int) := by omega
      rw [hleft, halready, ih (by omega) (by omega), List.drop_drop, UInt32.ofNat_add]

/-! ### What is emitted -/

theorem Segmented.one {p : OutTcp} (hlen : p.payload.length ≤ maxSegment)
    (hseq : p.sentSeq = c.tcp.lastRecvAck + already) (hack : p.recvAck = recvAckOf c) :
    Segmented c already p.payload [p] := by
  refine ⟨by simp, fun q hq => ?_, fun i hi => ?_, fun q hq => ?_, fun _ => rfl⟩
  · rw [List.mem_singleton.mp hq]
    exact hlen
  · have hzero : i = 0 := by
      rw [List.length_singleton] at hi
      omega
    subst hzero
    simp [hseq]
  · rw [List.mem_singleton.mp hq]
    exact hack

theorem Segmented.cons {p : OutTcp} {segs : List OutTcp}
    (h : Segmented c (already + UInt32.ofNat maxSegment) payload segs) (hlen : p.payload.length = maxSegment)
    (hseq : p.sentSeq = c.tcp.lastRecvAck + already) (hack : p.recvAck = recvAckOf c) :
    Segmented c already (p.payload ++ payload) (p :: segs) := by
  refine ⟨?_, fun q hq => ?_, fun i hi => ?_, fun q hq => ?_, fun hnil => ?_⟩
  · rw [List.map_cons, List.flatten_cons, h.data]
  · rcases List.mem_cons.mp hq with rfl | hq
    · exact Nat.le_of_eq hlen
    · exact h.short q hq
  · cases i with
    | zero => simp [hseq]
    | succ i =>
      have hi' := h.seq i (Nat.lt_of_succ_lt_succ hi)
      rw [List.getElem_cons_succ, hi', List.take_succ_cons, List.map_cons, List.flatten_cons, List.length_append,
        hlen, UInt32.ofNat_add, ← UInt32.add_assoc, ← UInt32.add_assoc]
  · rcases List.mem_cons.mp hq with rfl | hq
    · exact hack
    · exact h.ack q hq
  · -- a full segment is not empty
    have hzero := congrArg List.length hnil
    rw [List.length_append, hlen, List.length_nil] at hzero
    exact absurd hzero (by unfold maxSegment; omega)

theorem sendTcpLoop_segments (flags : Byte) (left : Bytes) (already : UInt32) (hfuel : left.length < fuel) (s : St) :
    ∃ segs, (sendTcpLoop flags fuel left already s).ctx.out
        = s.ctx.out ++ segs.map (Out.tcp s.conn.tcp.portid)
      ∧ Segmented s.conn already left segs
      ∧ (sendTcpLoop flags fuel left already s).conn.tcp.totalSent
        = s.conn.tcp.totalSent + UInt32.ofNat left.length := by
  have hmax : maxSegment = 1460 := rfl
  induction fuel generalizing left already s with
  | zero => exact absurd hfuel (Nat.not_lt_zero _)
  | succ fuel ih =>
    let p : OutTcp :=
      { dstMac := s.conn.tcp.clientMac, srcMac := s.conn.tcp.serverMac, srcIp := s.conn.tcp.serverIp
        dstIp := s.conn.tcp.clientIp, srcPort := s.conn.tcp.serverPort, dstPort := s.conn.tcp.clientPort
        packetId := s.conn.tcp.ipId, flags := flags, sentSeq := s.conn.tcp.lastRecvAck + already
        recvAck := recvAckOf s.conn, rxWin := 8192, payload := left.take maxSegment }
    have hout : (sendTcpSegment flags (left.take maxSegment) already s).ctx.out
        = s.ctx.out ++ [.tcp s.conn.tcp.portid p] := rfl
    have htotal : (sendTcpSegment flags (left.take maxSegment) already s).conn.tcp.totalSent
        = s.conn.tcp.totalSent + UInt32.ofNat (left.take maxSegment).length := rfl
    rw [sendTcpLoop]
    split
    · rename_i hlast
      have hall : left.take maxSegment = left := List.take_of_length_le hlast
      have hone : Segmented s.conn already p.payload [p] :=
        .one (Nat.le_trans (Nat.le_of_eq (congrArg List.length hall)) hlast) rfl rfl
      have hp : p.payload = left := hall
      rw [hp] at hone
      exact ⟨[p], hout, hone, by rw [htotal, hall]⟩
    · rename_i hmore
      have hlen : (left.take maxSegment).length = maxSegment := by
        rw [List.length_take]
        omega
      obtain ⟨segs, hsegs, hrest, hsent⟩ := ih (left.drop maxSegment) (already + UInt32.ofNat maxSegment)
        (by rw [List.length_drop]; omega) (sendTcpSegment flags (left.take maxSegment) already s)
      refine ⟨p :: segs, ?_, ?_, ?_⟩
      · rw [hsegs, hout, List.append_assoc]
        rfl
      · have hrest : Segmented s.conn (already + UInt32.ofNat maxSegment) (left.drop maxSegment) segs :=
          ⟨hrest.data, hrest.short, hrest.seq, hrest.ack, hrest.empty⟩
        have hcons := hrest.cons (p := p) hlen rfl rfl
        have hleft : p.payload ++ left.drop maxSegment = left := List.take_append_drop _ _
        rw [hleft] at hcons
        exact hcons
      · have hsum : maxSegment + (left.length - maxSegment) = left.length := by omega
        rw [hsent, htotal, hlen, UInt32.add_assoc, ← UInt32.ofNat_add, List.length_drop, hsum]

theorem sendTcpRounds_eq (flags : Byte) (payload : Bytes) (h : payload.length < 65536) (s : St) :
    sendTcpRounds flags payload s = some (sendTcpPacket flags payload s) := by
  have hrounds := sendRounds_eq flags h (Nat.zero_le _)
    (show payload.length - 0 < payload.length + 1 by omega) s
  rw [List.drop_zero, Int.natCast_zero, Int.sub_zero] at hrounds
  exact hrounds

/-- `send_tcp_packet` ends for every payload, and the segments it emits carry the payload. -/
theorem sendTcpRounds_segments (flags : Byte) (payload : Bytes) (hlen : payload.length ≤ 65535) (s : St) :
    ∃ s' segs, sendTcpRounds flags payload s = some s'
      ∧ s'.ctx.out = s.ctx.out ++ segs.map (Out.tcp s.conn.tcp.portid)
      ∧ Segmented s.conn 0 payload segs
      ∧ s'.conn.tcp.totalSent = s.conn.tcp.totalSent + UInt32.ofNat payload.length := by
  have hrounds := sendTcpRounds_eq flags payload (by omega) s
  obtain ⟨segs, hout, hsegs, htotal⟩ := sendTcpLoop_segments flags payload 0 (Nat.lt_succ_self _) s
  exact ⟨_, segs, hrounds, hout, hsegs, htotal⟩

/- Three full segments and a last one of 620 bytes, on a fresh connection. -/
def sampleFresh : St := ⟨{ id := 0 }, {}⟩

theorem sendTcpRounds_segments_sample : (zeros 5000).length ≤ 65535
    ∧ ∃ s' segs, sendTcpRounds TCP_FLAG_ACK (zeros 5000) sampleFresh = some s'
      ∧ s'.ctx.out = [] ++ segs.map (Out.tcp 0)
      ∧ Segmented sampleFresh.conn 0 (zeros 5000) segs
      ∧ s'.conn.tcp.totalSent = 0 + UInt32.ofNat (zeros 5000).length := by
  have hlen : (zeros 5000).length ≤ 65535 := by
    rw [zeros_length]
    decide
  exact ⟨hlen, sendTcpRounds_segments TCP_FLAG_ACK (zeros 5000) hlen sampleFresh⟩

end

end Xtls.Nic
