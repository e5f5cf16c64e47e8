import Xtls.Nic.System
import Xtls.Nic.Wire

/-!
# Ranges of a received frame

`process_packet` (`tcp.c` 3256-3381) and its handlers take lengths from the IP total length and the TCP data
offset of a frame and never compare them with the length of the frame itself.  A difference of pointers that
is negative is converted to a large unsigned length.
-/

namespace Xtls.Nic

/- `(tcph->data_off & 0xf0) >> 2` and `(tcph->data_off >> 4) * 4`. -/
def tcpLen (frame : Bytes) : Nat := ((byteAt frame 46 &&& 0xf0) >>> 2).toNat
def tcpHdrLen (frame : Bytes) : Nat := (byteAt frame 46 >>> 4).toNat * 4

def ipLen (frame : Bytes) : Nat := (be16 frame 16).toNat

def toUint (w : Nat) (z : Int) : Nat := (z % 2 ^ w).toNat

/-- A range in a frame: its size as the headers give it, the length that is used, and the room where it is
copied to. -/
structure Range where
  off : Nat
  size : Int
  len : Nat
  room : Option Nat := none

/-- The size is not negative, the range lies in the frame and fits where it is copied to. -/
structure Range.Ok (r : Range) (frameLen : Nat) : Prop where
  size : 0 ≤ r.size
  inside : r.off + r.len ≤ frameLen
  fits : ∀ n ∈ r.room, r.len ≤ n

def Range.bytes (r : Range) (frame : Bytes) : Bytes := (frame.drop r.off).take r.len

section

variable (frame : Bytes)

def payloadRange : Range :=
  let size : Int := ipLen frame - (20 + tcpLen frame)
  { off := 34 + tcpLen frame, size := size, len := toUint 16 size }

/- `RTE_MBUF_DEFAULT_BUF_SIZE` without the headroom. -/
def mbufSize : Nat := 2048

/- The options that `send_synack_packet` copies behind the headers of its own packet. -/
def synackOptions : Range :=
  let size : Int := tcpLen frame - 20
  { off := 54, size := size, len := toUint 16 size, room := some (mbufSize - 54) }

/- The options that `save_new_syn` copies into `pending_syn.tcp_options`, which `remove_session` clears again right
behind the call. -/
def savedOptions : Range :=
  let size : Int := tcpHdrLen frame - 20
  { off := 54, size := size, len := toUint 64 size, room := some 40 }

def storedPacket : Range :=
  let size : Int := 14 + 20 + tcpHdrLen frame + (payloadRange frame).len
  { off := 0, size := size, len := toUint 16 size, room := some maxAppDataSize }

/-- The ranges that the handler of a packet type may use, whatever the state of the connection is. -/
def ranges : PacketType → List Range
  | .sslHandshake => [payloadRange frame, storedPacket frame]
  | .tcpAck => [payloadRange frame, storedPacket frame]
  | .tcpSyn => [payloadRange frame, synackOptions frame, savedOptions frame]
  | _ => [payloadRange frame]

theorem forall_byte {p : Byte → Prop} (h : ∀ n : Fin 256, p (UInt8.ofNat n.val)) (b : Byte) : p b := by
  have hb := h ⟨b.toNat, b.toNat_lt⟩
  rwa [UInt8.ofNat_toNat] at hb

theorem tcpHdrLen_eq : tcpHdrLen frame = tcpLen frame :=
  forall_byte (p := fun b => (b >>> 4).toNat * 4 = ((b &&& 0xf0) >>> 2).toNat) (by decide +kernel) (byteAt frame 46)

theorem tcpLen_le : tcpLen frame ≤ 60 :=
  forall_byte (p := fun b => ((b &&& 0xf0) >>> 2).toNat ≤ 60) (by decide +kernel) (byteAt frame 46)

theorem parsePacket_payload_length : (parsePacket frame).payload.length = (payloadRange frame).len := by
  have hle := tcpLen_le frame
  have hip : ipLen frame < 65536 := UInt16.toNat_lt _
  have hpay : (parsePacket frame).payload.length
      = (be16 frame 16 - (20 + UInt16.ofNat (tcpLen frame))).toNat := slice_length ..
  have hsub : (be16 frame 16 - (20 + UInt16.ofNat (tcpLen frame))).toNat
      = (65536 - (20 + tcpLen frame) + ipLen frame) % 65536 := by
    have hoff : (20 + UInt16.ofNat (tcpLen frame)).toNat = 20 + tcpLen frame := by
      rw [UInt16.toNat_add, UInt16.toNat_ofNat']
      show (20 + tcpLen frame % 65536) % 65536 = _
      omega
    rw [UInt16.toNat_sub, hoff]
    rfl
  rw [hpay, hsub]
  show _ = toUint 16 (ipLen frame - (20 + tcpLen frame))
  rw [toUint]
  omega

theorem parsePacket_storedLen : (parsePacket frame).storedLen.toNat = (storedPacket frame).len := by
  have hlen : (parsePacket frame).storedLen
      = UInt16.ofNat (14 + 20 + tcpHdrLen frame + (parsePacket frame).payload.length) := rfl
  rw [hlen, parsePacket_payload_length, UInt16.toNat_ofNat']
  show _ = toUint 16 (14 + 20 + tcpHdrLen frame + (payloadRange frame).len)
  rw [toUint]
  omega

end

section

variable {frame : Bytes}

theorem payloadRange_ok {n : Nat} :
    (payloadRange frame).Ok n ↔ 20 + tcpLen frame ≤ ipLen frame ∧ 14 + ipLen frame ≤ n := by
  have hip : ipLen frame < 65536 := UInt16.toNat_lt _
  constructor
  · rintro ⟨hsize, hin, -⟩
    unfold payloadRange toUint at *
    simp only at *
    omega
  · rintro ⟨hsize, hin⟩
    refine ⟨?_, ?_, nofun⟩
    · show (0 : Int) ≤ ipLen frame - (20 + tcpLen frame)
      omega
    · show 34 + tcpLen frame + toUint 16 (ipLen frame - (20 + tcpLen frame)) ≤ n
      rw [toUint]
      omega

theorem storedPacket_len : (storedPacket frame).len = (14 + ipLen frame) % 65536 := by
  have hle := tcpLen_le frame
  have hip : ipLen frame < 65536 := UInt16.toNat_lt _
  simp only [storedPacket, payloadRange, toUint, tcpHdrLen_eq]
  omega

theorem storedPacket_ok {n : Nat} (h : (payloadRange frame).Ok n) :
    (storedPacket frame).Ok n ↔ (14 + ipLen frame) % 65536 ≤ maxAppDataSize := by
  obtain ⟨-, hin⟩ := payloadRange_ok.mp h
  constructor
  · intro hok
    have hfits := hok.fits maxAppDataSize rfl
    rwa [storedPacket_len] at hfits
  · intro hfits
    refine ⟨?_, ?_, fun m hm => ?_⟩
    · show (0 : Int) ≤ 14 + 20 + tcpHdrLen frame + (payloadRange frame).len
      omega
    · show 0 + (storedPacket frame).len ≤ n
      rw [storedPacket_len]
      omega
    · cases hm
      rwa [storedPacket_len]

theorem synackOptions_len (h : 20 ≤ tcpLen frame) : (synackOptions frame).len = tcpLen frame - 20 := by
  have hle := tcpLen_le frame
  show toUint 16 (tcpLen frame - 20) = _
  rw [toUint]
  omega

theorem options_ok {n : Nat} (h : (payloadRange frame).Ok n) :
    ((synackOptions frame).Ok n ∧ (savedOptions frame).Ok n) ↔ 20 ≤ tcpLen frame := by
  have hle := tcpLen_le frame
  obtain ⟨hsize, hin⟩ := payloadRange_ok.mp h
  constructor
  · rintro ⟨hok, -⟩
    have hpos : (0 : Int) ≤ tcpLen frame - 20 := hok.size
    omega
  · intro h20
    have hsyn := synackOptions_len h20
    have hsaved : (savedOptions frame).len = tcpLen frame - 20 := by
      show toUint 64 (tcpHdrLen frame - 20) = _
      rw [toUint, tcpHdrLen_eq]
      omega
    refine ⟨⟨?_, ?_, fun m hm => ?_⟩, ⟨?_, ?_, fun m hm => ?_⟩⟩
    · show (0 : Int) ≤ tcpLen frame - 20
      omega
    · show 54 + (synackOptions frame).len ≤ n
      omega
    · cases hm
      rw [hsyn]
      show tcpLen frame - 20 ≤ 2048 - 54
      omega
    · show (0 : Int) ≤ tcpHdrLen frame - 20
      rw [tcpHdrLen_eq]
      omega
    · show 54 + (savedOptions frame).len ≤ n
      omega
    · cases hm
      omega

/-! ### What the handlers get -/

theorem Range.Ok.slice_eq {r : Range} (h : r.Ok frame.length) : slice frame r.off r.len = r.bytes frame :=
  slice_of_le _ _ _ h.inside

theorem parsePacket_payload (h : (payloadRange frame).Ok frame.length) :
    (parsePacket frame).payload = (payloadRange frame).bytes frame := by
  rw [← h.slice_eq, ← parsePacket_payload_length]
  show slice frame (34 + tcpLen frame) _ = slice frame (34 + tcpLen frame) (slice frame _ _).length
  rw [slice_length]

theorem keepAppData_range (h : (storedPacket frame).Ok frame.length) (s : St) :
    keepAppData (parsePacket frame) s
      = .ok (s.mapTcp fun t => { t with pendingAppData := (storedPacket frame).bytes frame }) := by
  have hstored : (parsePacket frame).stored = (storedPacket frame).bytes frame := by
    rw [← h.slice_eq, ← parsePacket_storedLen]
    rfl
  have hfits : ¬ maxAppDataSize < (parsePacket frame).stored.length := by
    have hlen : (parsePacket frame).stored.length = (storedPacket frame).len :=
      (slice_length ..).trans (parsePacket_storedLen frame)
    rw [hlen]
    exact Nat.not_lt.mpr (h.fits maxAppDataSize rfl)
  rw [keepAppData, bounded, if_neg hfits, hstored]
  rfl

theorem parsePacket_options (h : (synackOptions frame).Ok frame.length) :
    (parsePacket frame).options = (synackOptions frame).bytes frame := by
  have hsize : (0 : Int) ≤ tcpLen frame - 20 := h.size
  rw [← h.slice_eq, synackOptions_len (by omega)]
  rfl

/-- Where its ranges are right, a packet is handled with their bytes: the payload is the one that the headers
describe, the packet is kept for the host without what follows it in the frame, and its options go back in the
SYN|ACK. -/
theorem ranges_used {type : PacketType} (hok : ∀ r ∈ ranges frame type, r.Ok frame.length) :
    (parsePacket frame).payload = (payloadRange frame).bytes frame
      ∧ (type = .sslHandshake ∨ type = .tcpAck → ∀ s, keepAppData (parsePacket frame) s
        = .ok (s.mapTcp fun t => { t with pendingAppData := (storedPacket frame).bytes frame }))
      ∧ (type = .tcpSyn → ∀ port cookie s, ∃ pkt, (sendSynackPacket port (parsePacket frame) cookie s).ctx.out
        = s.ctx.out ++ [.tcp port pkt] ∧ pkt.options = (synackOptions frame).bytes frame) := by
  refine ⟨parsePacket_payload (hok _ (by cases type <;> exact List.mem_cons_self)), ?_, ?_⟩
  · rintro (rfl | rfl) s
    · exact keepAppData_range (hok _ (by simp [ranges])) s
    · exact keepAppData_range (hok _ (by simp [ranges])) s
  · rintro rfl port cookie s
    exact ⟨_, rfl, parsePacket_options (hok _ (by simp [ranges]))⟩

/-- All ranges that a packet is handled with are right exactly if the IP total length covers
the headers and lies in the frame, a SYN has a data offset of at least five words, and what may be stored has at
most 1024 bytes. -/
theorem ranges_ok_iff (port : UInt16) (frame : Bytes) :
    (∀ type, validatePacketType port (parsePacket frame) = some type →
        ∀ r ∈ ranges frame type, r.Ok frame.length)
      ↔ ∀ type, validatePacketType port (parsePacket frame) = some type →
        20 + tcpLen frame ≤ ipLen frame ∧ 14 + ipLen frame ≤ frame.length ∧ (type = .tcpSyn → 20 ≤ tcpLen frame)
          ∧ (type = .sslHandshake ∨ type = .tcpAck → (14 + ipLen frame) % 65536 ≤ maxAppDataSize) := by
  refine forall_congr' fun type => forall_congr' fun htype => ?_
  have hhead : payloadRange frame ∈ ranges frame type := by
    cases type <;> exact List.mem_cons_self
  constructor
  · intro hall
    have hpay := hall _ hhead
    obtain ⟨hsize, hin⟩ := payloadRange_ok.mp hpay
    refine ⟨hsize, hin, ?_, ?_⟩
    · rintro rfl
      exact (options_ok hpay).mp ⟨hall _ (by simp [ranges]), hall _ (by simp [ranges])⟩
    · rintro (rfl | rfl)
      · exact (storedPacket_ok hpay).mp (hall _ (by simp [ranges]))
      · exact (storedPacket_ok hpay).mp (hall _ (by simp [ranges]))
  · rintro ⟨hsize, hin, hsyn, hstored⟩
    have hpay : (payloadRange frame).Ok frame.length := payloadRange_ok.mpr ⟨hsize, hin⟩
    have hkept : type = .sslHandshake ∨ type = .tcpAck → (storedPacket frame).Ok frame.length := fun ht =>
      (storedPacket_ok hpay).mpr (hstored ht)
    cases type with
    | sslHandshake =>
      simp only [ranges, List.forall_mem_cons]
      exact ⟨hpay, hkept (.inl rfl), nofun⟩
    | tcpAck =>
      simp only [ranges, List.forall_mem_cons]
      exact ⟨hpay, hkept (.inr rfl), nofun⟩
    | tcpSyn =>
      obtain ⟨hsynack, hsaved⟩ := (options_ok hpay).mpr (hsyn rfl)
      simp only [ranges, List.forall_mem_cons]
      exact ⟨hpay, hsynack, hsaved, nofun⟩
    | _ =>
      simp only [ranges, List.forall_mem_cons]
      exact ⟨hpay, nofun⟩

end

def synWith (total offset : Byte) : Bytes :=
  zeros 12 ++ [0x08, 0x00, 0x45, 0, 0, total] ++ zeros 5 ++ [6, 0, 0, 10, 0, 0, 1, 10, 0, 0, 2, 0x1f, 0x90, 0x01, 0xbb]
    ++ zeros 8 ++ [offset, 2] ++ zeros 6

/- With a data offset of four words the length of the options wraps to 65532 and to 2 ^ 64 - 4; with a total length
of 70 a payload of 30 bytes is read behind the frame. -/
theorem synWith_ranges :
    validatePacketType 0 (parsePacket (synWith 36 0x40)) = some .tcpSyn ∧ (synackOptions (synWith 36 0x40)).size = -4
      ∧ (synackOptions (synWith 36 0x40)).len = 65532 ∧ (savedOptions (synWith 36 0x40)).len = 18446744073709551612
      ∧ validatePacketType 0 (parsePacket (synWith 70 0x50)) = some .sslHandshake
      ∧ (payloadRange (synWith 70 0x50)).off + (payloadRange (synWith 70 0x50)).len = 84
      ∧ (synWith 70 0x50).length = 54 := by
  decide

end Xtls.Nic
