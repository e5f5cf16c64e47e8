import Xtls.Host.KeyPacket
import Xtls.Host.Filter

/-!
# Frames of the meta socket

`handle_meta_packet` (`meta_pkt.c` 47-88) receives every frame into the same buffer and looks only at its
EtherType.  A frame that is shorter than what the handlers read is completed by the bytes of earlier frames;
the key types are not reserved, 0x0806 is ARP.
-/

namespace Xtls.Host

open Xtls.Nic

/-- `recvfrom` into `meta_buf`: behind the frame the old bytes stay. -/
def recvfrom (old : Fin recvMetaBufSize → Byte) (frame : Bytes) : Bytes :=
  frame.take recvMetaBufSize ++ (List.ofFn old).drop frame.length

def recordsOffset : Nat := 804

def keyMetaSize : Nat := 826

/-- A new connection gets the records of the meta packet. -/
def Thread.CopiesRecords (t : Thread) (buf : Bytes) : Prop :=
  validateMetaType buf = some .key ∧ t.htSearch (be32 buf 26) (be16 buf 34) = none ∧ t.pool ≠ []

/-- Whatever the state of the thread is, the frame alone decides what is done, the records that are copied lie
in the frame and fit into `sccs_sf_buf`, and a connection is added for a complete key meta only. -/
structure FrameSafe (frame : Bytes) : Prop where
  own : ∀ k sendto t old old',
    Thread.handleMetaPacket k sendto (recvfrom old frame) t = Thread.handleMetaPacket k sendto (recvfrom old' frame) t
  copied : ∀ t old, Thread.CopiesRecords t (recvfrom old frame) →
    recordsOffset + (recordLen (recvfrom old frame)).toNat ≤ frame.length
      ∧ (recordLen (recvfrom old frame)).toNat ≤ recvMetaBufSize
  added : ∀ k sendto t old ret t', Thread.handleMetaPacket k sendto (recvfrom old frame) t = .ok (ret, t') →
    t.count < t'.count → frame.length = keyMetaSize

/-! ### Bytes of the frame and old bytes -/

section

variable {frame : Bytes} {off len : Nat}

theorem slice_take (b : Bytes) (n : Nat) (h : off + len ≤ n) : slice (b.take n) off len = slice b off len := by
  refine bytes_ext (by rw [slice_length, slice_length]) fun i hi => ?_
  rw [slice_length] at hi
  rw [byteAt_slice _ _ _ _ hi, byteAt_slice _ _ _ _ hi, byteAt_take _ _ _ (by omega)]

theorem recvfrom_slice (old : Fin recvMetaBufSize → Byte) (h : off + len ≤ frame.length)
    (hbuf : off + len ≤ recvMetaBufSize) : slice (recvfrom old frame) off len = slice frame off len := by
  rw [recvfrom, slice_append_left _ _ _ _ (by rw [List.length_take]; omega), slice_take _ _ hbuf]

theorem recvfrom_stale (v : Byte) {i : Nat} (h : frame.length ≤ i) (hbuf : i < recvMetaBufSize) :
    byteAt (recvfrom (fun _ => v) frame) i = v := by
  have hlen : frame.length ≤ recvMetaBufSize := by omega
  rw [recvfrom, List.take_of_length_le hlen, byteAt_append_right _ _ _ h, byteAt_drop, byteAt,
    List.getD_eq_getElem?_getD, List.getElem?_ofFn, dif_pos (by omega), Option.getD_some]

/- Two buffers with different old bytes differ at the end of a field that the frame does not fill. -/
theorem recvfrom_field_ne (hlen : 0 < len) (h : frame.length < off + len) (hbuf : off + len ≤ recvMetaBufSize) :
    slice (recvfrom (fun _ => 0) frame) off len ≠ slice (recvfrom (fun _ => 0xff) frame) off len := fun heq => by
  have hlast : ∀ v : Byte, byteAt (slice (recvfrom (fun _ => v) frame) off len) (len - 1) = v := fun v => by
    rw [byteAt_slice _ _ _ _ (by omega), recvfrom_stale v (by omega) (by omega)]
  have hbytes := congrArg (byteAt · (len - 1)) heq
  rw [hlast, hlast] at hbytes
  exact absurd hbytes (by decide)

theorem be32_ne {a b : Bytes} (h : slice a off 4 ≠ slice b off 4) : be32 a off ≠ be32 b off := fun heq => by
  rw [be32_slice a, be32_slice b] at heq
  have hput := congrArg put32 heq
  rw [put32_be32 _ (slice_length ..), put32_be32 _ (slice_length ..)] at hput
  exact h hput

end

/-! ### Which bytes are read -/

section

variable {k : KeyCalls} {sendto : Bool} {a b : Bytes} {t : Thread}

/- All fields of a key meta lie in its first 808 bytes. -/
theorem handleMetaPacket_congr (h : ∀ off len, off + len ≤ 808 → slice a off len = slice b off len) :
    t.handleMetaPacket k sendto a = t.handleMetaPacket k sendto b ∧ recordLen a = recordLen b := by
  have h16 : ∀ off, off + 2 ≤ 808 → be16 a off = be16 b off := fun off hoff => by
    rw [be16_slice a, be16_slice b, h off 2 hoff]
  have h32 : ∀ off, off + 4 ≤ 808 → be32 a off = be32 b off := fun off hoff => by
    rw [be32_slice a, be32_slice b, h off 4 hoff]
  have hbyte : ∀ i, i + 1 ≤ 808 → byteAt a i = byteAt b i := fun i hi => by
    have hone := congrArg (byteAt · 0) (h i 1 hi)
    simp only [byteAt_slice _ _ _ _ Nat.zero_lt_one, Nat.add_zero] at hone
    exact hone
  have hrec : recordLen a = recordLen b := by
    rw [recordLen, recordLen, le32_slice a, le32_slice b, h 804 4 (by omega)]
  have hmeta : ∀ tls13, handleMetaData tls13 a = handleMetaData tls13 b := fun tls13 => by
    simp only [handleMetaData, cryptoInfoAt, h32 4 (by omega), h32 8 (by omega), h32 26 (by omega), h16 34 (by omega),
      hbyte 40 (by omega), hbyte 41 (by omega), h _ 8 (by omega : 38 + 531 + 4 + 8 ≤ 808),
      h _ 8 (by omega : 38 + 659 + 4 + 8 ≤ 808), h _ 32 (by omega : 38 + 274 + 32 ≤ 808),
      h _ 32 (by omega : 38 + 402 + 32 ≤ 808), h _ 4 (by omega : 38 + 531 + 4 ≤ 808),
      h _ 4 (by omega : 38 + 659 + 4 ≤ 808)]
  have hadd : ∀ t : Thread, t.addConnection k a = t.addConnection k b := fun t => by
    simp only [Thread.addConnection, Thread.insertConn, hrec, hmeta]
  have htcp : 14 + 4 * (byteAt b 14 &&& 0x0f).toNat ≤ 74 := by
    have hle : (byteAt b 14 &&& 0x0f).toNat ≤ 15 := by
      rw [UInt8.toNat_and]
      exact Nat.and_le_right
    omega
  refine ⟨?_, hrec⟩
  simp only [Thread.handleMetaPacket, validateMetaType, Thread.handleKeyPacket, Thread.handleRstConnPacket,
    Thread.handleUnterminatedConn, hadd, h16 12 (by omega), h32 26 (by omega), h16 34 (by omega), h32 0 (by omega),
    h16 14 (by omega), hbyte 14 (by omega), h16 _ (by omega : 14 + 4 * (byteAt b 14 &&& 0x0f).toNat + 2 ≤ 808),
    h32 _ (by omega : 14 + 4 * (byteAt b 14 &&& 0x0f).toNat + 4 + 4 ≤ 808),
    h32 _ (by omega : 14 + 4 * (byteAt b 14 &&& 0x0f).toNat + 8 + 4 ≤ 808)]

end

/-! ### Key types -/

section

variable {coreId : Fin 16} {frame : Bytes}

theorem validateMetaType_key {buf : Bytes} (h : be16 buf 12 = keyEthType coreId) :
    validateMetaType buf = some .key := by
  have hrange : ∀ coreId, 0x0801 ≤ keyEthType coreId ∧ keyEthType coreId ≤ 0x0810 := by decide
  rw [validateMetaType, h, if_pos (hrange coreId)]

theorem recvfrom_etherType (old : Fin recvMetaBufSize → Byte) (h : 14 ≤ frame.length) :
    be16 (recvfrom old frame) 12 = be16 frame 12 := by
  rw [be16_slice, recvfrom_slice old h (by decide), ← be16_slice]

theorem recvfrom_recordLen (old : Fin recvMetaBufSize → Byte) (h : 808 ≤ frame.length) :
    recordLen (recvfrom old frame) = recordLen frame := by
  rw [recordLen, recordLen, le32_slice, recvfrom_slice old h (by decide), ← le32_slice]

theorem keyFrame_safe (hlen : frame.length = keyMetaSize)
    (hrec : recordsOffset + (recordLen frame).toNat ≤ keyMetaSize) : FrameSafe frame := by
  have hlong : 808 ≤ frame.length := by
    rw [hlen]
    decide
  have hagree : ∀ old old' off len, off + len ≤ 808 →
      slice (recvfrom old frame) off len = slice (recvfrom old' frame) off len := fun old old' off len h => by
    have hbuf : off + len ≤ recvMetaBufSize := Nat.le_trans h (by decide)
    rw [recvfrom_slice old (Nat.le_trans h hlong) hbuf, recvfrom_slice old' (Nat.le_trans h hlong) hbuf]
  refine ⟨fun k sendto t old old' => (handleMetaPacket_congr (hagree old old')).1, fun t old _ => ?_,
    fun _ _ _ _ _ _ _ _ => hlen⟩
  rw [recvfrom_recordLen old hlong, hlen]
  unfold keyMetaSize recvMetaBufSize recordsOffset at *
  exact ⟨hrec, by omega⟩

/- On a thread that has just started every call succeeds. -/
theorem startThread_adds {buf : Bytes} (hkey : validateMetaType buf = some .key)
    (hrec : (recordLen buf).toNat ≤ recvMetaBufSize) :
    ∃ ret t', (startThread 1 true).handleMetaPacket { socket := some 3 } true buf = .ok (ret, t')
      ∧ (startThread 1 true).count < t'.count := by
  have hfd : KeyCalls.fd { socket := some 3 } = some 3 := if_pos fun _ => rfl
  obtain ⟨⟨ret, t'⟩, h⟩ := addConnection_total (t := startThread 1 true) (by decide) hrec hfd rfl rfl
  refine ⟨ret, t', ?_, ?_⟩
  · rw [Thread.handleMetaPacket, hkey]
    exact h
  · obtain ⟨c, u, halloc, -, hopen⟩ := addConnection_ok h
    have hins : Inserted {} buf c (startThread 1 true) (u.insertConn c buf) := insertConn_inserted halloc
    rcases openSocket_cases hopen with ⟨hno, -, -⟩ | ⟨fd, -, -, -, -, ⟨-, -, rfl⟩ | ⟨hrest, -, -⟩⟩
    · rw [hfd] at hno
      rcases hno with hno | hno <;> cases hno
    · show _ < (u.insertConn c buf).count
      rw [hins.count]
      exact Int.lt_succ _
    · cases hrest

theorem keyFrame_of_safe (hkey : IsKeyMeta frame coreId) (h : FrameSafe frame) :
    frame.length = keyMetaSize ∧ recordsOffset + (recordLen frame).toNat ≤ keyMetaSize := by
  have htype : ∀ old, validateMetaType (recvfrom old frame) = some .key := fun old =>
    validateMetaType_key ((recvfrom_etherType old hkey.1).trans hkey.2)
  obtain ⟨hsource, hfits⟩ := h.copied (startThread 1 true) (fun _ => 0) ⟨htype _, rfl, by decide⟩
  obtain ⟨ret, t', hs, hcount⟩ := startThread_adds (htype fun _ => 0) hfits
  have hlen := h.added _ _ _ _ _ _ hs hcount
  rw [recvfrom_recordLen _ (by rw [hlen]; decide), hlen] at hsource
  exact ⟨hlen, hsource⟩

end

/-! ### Frames taken for a SYN -/

section

variable {frame : Bytes}

theorem sendCloseToArm_fields (m : MetaInfo) :
    be32 (sendCloseToArm m) 26 = m.clientIp ∧ be32 (sendCloseToArm m) 42 = m.ackNum := by
  have hip : slice (armFrame 0xfc (zeros 4) m).flatten 26 4 = put32 m.clientIp :=
    slice_field (armFrame 0xfc (zeros 4) m) (i := 10) rfl (by simp [fieldOffset, armFrame])
  have hack : slice (armFrame 0xfc (zeros 4) m).flatten 42 4 = put32 m.ackNum :=
    slice_field (armFrame 0xfc (zeros 4) m) (i := 15) rfl (by simp [fieldOffset, armFrame])
  rw [sendCloseToArm, be32_slice, hip, be32_slice _ 42, hack, be32_put32, be32_put32]
  exact ⟨rfl, rfl⟩

theorem validateMetaType_ip {buf : Bytes} (h : be16 buf 12 = ethPIp) : validateMetaType buf = some .weirdSyn := by
  rw [validateMetaType, h]
  rfl

theorem tcpOffset_le (frame : Bytes) : tcpOffset frame ≤ 74 := by
  have hle : (byteAt frame 14 &&& 0x0f).toNat ≤ 15 := by
    rw [UInt8.toNat_and]
    exact Nat.and_le_right
  unfold tcpOffset
  omega

theorem recvfrom_tcpOffset (old : Fin recvMetaBufSize → Byte) (h : 15 ≤ frame.length) :
    tcpOffset (recvfrom old frame) = tcpOffset frame := by
  have hfirst : slice (recvfrom old frame) 14 1 = slice frame 14 1 := recvfrom_slice old h (by decide)
  have hone := congrArg (byteAt · 0) hfirst
  simp only [byteAt_slice _ _ _ _ Nat.zero_lt_one, Nat.add_zero] at hone
  rw [tcpOffset, tcpOffset, hone]

theorem handleMetaPacket_ip (k : KeyCalls) (sendto : Bool) (t : Thread) {buf : Bytes} (h : be16 buf 12 = ethPIp) :
    t.handleMetaPacket k sendto buf = .ok (0, t.sendClose sendto
      { clientIp := be32 buf 26, clientPort := be16 buf (tcpOffset buf)
        seqNum := be32 buf (tcpOffset buf + 4), ackNum := be32 buf (tcpOffset buf + 8) }) := by
  rw [Thread.handleMetaPacket, validateMetaType_ip h]
  rfl

theorem synFrame_safe (hip : be16 frame 12 = ethPIp) (hlen : 30 ≤ frame.length)
    (htcp : tcpOffset frame + 12 ≤ frame.length) : FrameSafe frame := by
  have hoff := tcpOffset_le frame
  have htype : ∀ old, be16 (recvfrom old frame) 12 = ethPIp := fun old =>
    (recvfrom_etherType old (by omega)).trans hip
  have h16 : ∀ old, be16 (recvfrom old frame) (tcpOffset frame) = be16 frame (tcpOffset frame) := fun old => by
    rw [be16_slice, recvfrom_slice old (by omega) (by unfold recvMetaBufSize; omega), ← be16_slice]
  have h32 : ∀ old off, off + 4 ≤ frame.length → off ≤ 100 → be32 (recvfrom old frame) off = be32 frame off :=
    fun old off hl hb => by
      rw [be32_slice, recvfrom_slice old hl (by unfold recvMetaBufSize; omega), ← be32_slice]
  have hresult : ∀ k sendto t old, Thread.handleMetaPacket k sendto (recvfrom old frame) t = .ok (0, t.sendClose sendto
      { clientIp := be32 frame 26, clientPort := be16 frame (tcpOffset frame)
        seqNum := be32 frame (tcpOffset frame + 4), ackNum := be32 frame (tcpOffset frame + 8) }) :=
    fun k sendto t old => by
      rw [handleMetaPacket_ip k sendto t (htype old), recvfrom_tcpOffset old (by omega), h16 old,
        h32 old 26 (by omega) (by omega), h32 old _ (by omega) (by omega), h32 old _ (by omega) (by omega)]
  refine ⟨fun k sendto t old old' => ?_, fun t old hcopy => ?_, fun k sendto t old ret t' hs hcount => ?_⟩
  · rw [hresult, hresult]
  · have hkey := hcopy.1
    rw [validateMetaType_ip (htype old)] at hkey
    cases hkey
  · rw [hresult] at hs
    cases hs
    unfold Thread.sendClose at hcount
    split at hcount
    · exact absurd hcount (Int.lt_irrefl _)
    · exact absurd hcount (Int.lt_irrefl _)

theorem synFrame_of_safe (hip : be16 frame 12 = ethPIp) (hlen : 28 ≤ frame.length) (h : FrameSafe frame) :
    30 ≤ frame.length ∧ tcpOffset frame + 12 ≤ frame.length := by
  have hoff := tcpOffset_le frame
  have htype : ∀ old, be16 (recvfrom old frame) 12 = ethPIp := fun old =>
    (recvfrom_etherType old (by omega)).trans hip
  -- the close frame holds the address and the acknowledgement number that were read
  have hown := h.own {} true (startThread 0 true) (fun _ => 0) (fun _ => 0xff)
  rw [handleMetaPacket_ip _ _ _ (htype _), handleMetaPacket_ip _ _ _ (htype _), recvfrom_tcpOffset _ (by omega),
    recvfrom_tcpOffset _ (by omega)] at hown
  have hsent := congrArg Thread.sent (Prod.mk.inj (Except.ok.inj hown)).2
  have hclose := Sent.close.inj (List.cons.inj hsent).1
  have hfields := congrArg (be32 · 26) hclose
  have hack := congrArg (be32 · 42) hclose
  simp only [(sendCloseToArm_fields _).1] at hfields
  simp only [(sendCloseToArm_fields _).2] at hack
  constructor
  · by_contra hshort
    exact be32_ne (recvfrom_field_ne (by decide) (by omega) (by decide)) hfields
  · by_contra hshort
    exact be32_ne (recvfrom_field_ne (by decide) (by omega) (by unfold recvMetaBufSize; omega)) hack

end

/-- A frame that passes the filter of a thread is handled from its own bytes, within the buffer and without a
connection for anything but a key meta, exactly if, being of the key type of the thread, it has the size of a key
meta and the records lie in it, and, being an IP packet, the fields of its headers lie in it. -/
theorem frame_safe_iff (coreId : Fin 16) (frame : Bytes) (h : Accepts coreId frame) :
    FrameSafe frame
      ↔ (be16 frame 12 = keyEthType coreId →
          frame.length = keyMetaSize ∧ recordsOffset + (recordLen frame).toNat ≤ keyMetaSize)
        ∧ (be16 frame 12 = ethPIp → 30 ≤ frame.length ∧ tcpOffset frame + 12 ≤ frame.length) := by
  rcases (accepts_iff coreId frame).mp h with hkey | hsyn
  · have hne : be16 frame 12 ≠ ethPIp := by
      rw [hkey.2]
      exact keyEthType_ne coreId
    constructor
    · intro hsafe
      exact ⟨fun _ => keyFrame_of_safe hkey hsafe, fun hip => absurd hip hne⟩
    · intro hcond
      obtain ⟨hlen, hrec⟩ := hcond.1 hkey.2
      exact keyFrame_safe hlen hrec
  · obtain ⟨⟨-, hip, -⟩, hlen, -, -⟩ := hsyn
    have hne : be16 frame 12 ≠ keyEthType coreId := by
      rw [hip]
      exact (keyEthType_ne coreId).symm
    constructor
    · intro hsafe
      exact ⟨fun hkey => absurd hkey hne, fun _ => synFrame_of_safe hip hlen hsafe⟩
    · intro hcond
      obtain ⟨hlen, htcp⟩ := hcond.2 hip
      exact synFrame_safe hip hlen htcp

/- A key meta of the NIC's size for thread 0 whose record length is 0. -/
def fullKeyFrame : Bytes := keyFrame ++ zeros 790

theorem frame_safe_iff_key : Accepts 0 fullKeyFrame ∧ FrameSafe fullKeyFrame := by
  have hacc : Accepts 0 fullKeyFrame := by decide +kernel
  exact ⟨hacc, (frame_safe_iff 0 fullKeyFrame hacc).mpr (by decide +kernel)⟩

/- Who has 10.0.0.2? -/
def arpFrame : Bytes :=
  List.replicate 6 0xff ++ [2, 0, 0, 0, 0, 1] ++ [0x08, 0x06] ++ [0, 1, 8, 0, 6, 4, 0, 1]
    ++ [2, 0, 0, 0, 0, 1] ++ [10, 0, 0, 7] ++ zeros 6 ++ [10, 0, 0, 2]

theorem arpFrame_adds : Accepts 5 arpFrame ∧ arpFrame.length = 42
    ∧ ∃ t', Thread.handleMetaPacket { socket := some 3 } true (recvfrom (fun _ => 0) arpFrame) (startThread 1 true)
        = .ok (0, t') ∧ t'.count = 1 := by
  obtain ⟨⟨ret, t'⟩, hs, rfl, hcount⟩ := endsIn_ok (fun r : Int × Thread => r.1 = 0 ∧ r.2.count = 1)
    (Thread.handleMetaPacket { socket := some 3 } true (recvfrom (fun _ => 0) arpFrame) (startThread 1 true))
    (by decide +kernel)
  exact ⟨by decide +kernel, rfl, t', hs, hcount⟩

end Xtls.Host
