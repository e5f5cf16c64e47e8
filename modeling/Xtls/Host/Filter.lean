import Xtls.Host.Meta
import Xtls.Lib.Bpf

/-!
# The filter of the meta socket

`bpf_filter_for_meta` (`helpers.c` 152-208): the frames that a thread of the host wants are the key meta
packets of its own EtherType and the SYNs for port 443.
-/

namespace Xtls.Host

open Xtls.Nic

/- `key_eth_types`. -/
def keyEthTypes : List UInt16 :=
  [0x0801, 0x0802, 0x0803, 0x0804, 0x0805, 0x0806, 0x0807, 0x0808,
    0x0809, 0x080A, 0x080B, 0x080C, 0x080D, 0x080E, 0x080F, 0x0810]

def keyEthType (coreId : Fin 16) : UInt16 := keyEthTypes.get coreId

def ethPIp : UInt16 := 0x0800
def ipHdrOffset : UInt32 := 14
def httpsPortN : UInt32 := 0xBB01
def ipprotoTcp : UInt8 := 6
def thSyn : UInt8 := 2

def bpfFilterForMeta (coreId : Fin 16) : List Bpf.Insn :=
  [.ldAbs .half 12,
    .jmp .eq (keyEthType coreId).toUInt32 11 0,
    .jmp .eq ethPIp.toUInt32 0 11,
    .ldAbs .byte ipHdrOffset,
    .alu .and 0x0f,
    .alu .mul 4,
    .st 0,
    .ldAbs .byte (ipHdrOffset + 9),
    .jmp .eq ipprotoTcp.toUInt32 0 5,
    .ldInd .half (ipHdrOffset + 2),
    .jmp .eq httpsPortN 0 3,
    .ldInd .byte (ipHdrOffset + 13),
    .jmp .set thSyn.toUInt32 0 1,
    .ret 0x0000FFFF,
    .ret 0]

def Accepts (coreId : Fin 16) (frame : Bytes) : Prop := Bpf.run (bpfFilterForMeta coreId) frame ≠ 0

instance (coreId : Fin 16) (frame : Bytes) : Decidable (Accepts coreId frame) :=
  inferInstanceAs (Decidable (_ ≠ _))

/-! ### What the thread wants -/

section

variable (frame : Bytes)

def IsKeyMeta (coreId : Fin 16) : Prop := 14 ≤ frame.length ∧ be16 frame 12 = keyEthType coreId

def IsTcp : Prop := 24 ≤ frame.length ∧ be16 frame 12 = ethPIp ∧ byteAt frame 23 = ipprotoTcp

def tcpOffset : Nat := 14 + 4 * (byteAt frame 14 &&& 0x0f).toNat

/-- A SYN for port 443 behind an IP header of any length. -/
def IsHttpsSyn : Prop :=
  IsTcp frame ∧ tcpOffset frame + 14 ≤ frame.length ∧ be16 frame (tcpOffset frame + 2) = SSL_PORT
    ∧ byteAt frame (tcpOffset frame + 13) &&& thSyn ≠ 0

/-- What the filter looks at in a TCP frame: the index register stays 0, so it takes the total length of the
IP header for the port, in the wrong byte order, and the second byte of the source address for the flags. -/
def IsMisread : Prop :=
  IsTcp frame ∧ 28 ≤ frame.length ∧ be16 frame 16 = 0xBB01 ∧ byteAt frame 27 &&& thSyn ≠ 0

end

theorem keyEthType_ne (coreId : Fin 16) : keyEthType coreId ≠ ethPIp := by
  revert coreId
  decide

section

variable {coreId : Fin 16} {frame : Bytes}

theorem test_half (frame : Bytes) (off : Nat) (v : UInt16) :
    Bpf.Test.eq.holds (Bpf.valueAt frame .half off) v.toUInt32 = decide (be16 frame off = v) := by
  simp only [Bpf.Test.holds, Bpf.valueAt, UInt16.toUInt32_inj]

theorem test_byte (frame : Bytes) (off : Nat) (v : UInt8) :
    Bpf.Test.eq.holds (Bpf.valueAt frame .byte off) v.toUInt32 = decide (byteAt frame off = v) := by
  simp only [Bpf.Test.holds, Bpf.valueAt, UInt8.toUInt32_inj]

theorem test_bits (frame : Bytes) (off : Nat) (v : UInt8) :
    Bpf.Test.set.holds (Bpf.valueAt frame .byte off) v.toUInt32 = decide (byteAt frame off &&& v ≠ 0) := by
  have hzero : (0 : UInt32) = (0 : UInt8).toUInt32 := rfl
  simp only [Bpf.Test.holds, Bpf.valueAt, ← UInt8.toUInt32_and, hzero, ne_eq, UInt8.toUInt32_inj]

theorem run_bpfFilterForMeta (coreId : Fin 16) (frame : Bytes) :
    Bpf.run (bpfFilterForMeta coreId) frame
      = if 14 ≤ frame.length then
          if be16 frame 12 = keyEthType coreId then 0xFFFF
          else if be16 frame 12 = ethPIp then
            if 15 ≤ frame.length then if 24 ≤ frame.length then
              if byteAt frame 23 = ipprotoTcp then
                if 18 ≤ frame.length then
                  if be16 frame 16 = 0xBB01 then
                    if 28 ≤ frame.length then
                      if byteAt frame 27 &&& thSyn ≠ 0 then 0xFFFF else 0
                    else 0
                  else 0
                else 0
              else 0
            else 0 else 0
          else 0
        else 0 := by
  have hport : httpsPortN = (0xBB01 : UInt16).toUInt32 := rfl
  simp only [Bpf.run, bpfFilterForMeta, List.length_cons, List.length_nil, Bpf.exec_ldAbs, Bpf.exec_ldInd,
    Bpf.exec_jmp, Bpf.exec_alu, Bpf.exec_st, Bpf.exec_ret, test_half, test_byte, test_bits, hport,
    decide_eq_true_eq, List.drop]
  rfl

theorem accepts_iff (coreId : Fin 16) (frame : Bytes) :
    Accepts coreId frame ↔ IsKeyMeta frame coreId ∨ IsMisread frame := by
  have hne := keyEthType_ne coreId
  rw [Accepts, run_bpfFilterForMeta, IsKeyMeta, IsMisread, IsTcp]
  by_cases hlen : 14 ≤ frame.length
  · rw [if_pos hlen]
    by_cases hkey : be16 frame 12 = keyEthType coreId
    · rw [if_pos hkey]
      exact ⟨fun _ => .inl ⟨hlen, hkey⟩, fun _ => by decide⟩
    · rw [if_neg hkey]
      simp only [hkey, and_false, false_or, ite_ne_right_iff]
      constructor
      · rintro ⟨hip, -, h24, htcp, -, hport, h28, hsyn, -⟩
        exact ⟨⟨h24, hip, htcp⟩, h28, hport, hsyn⟩
      · rintro ⟨⟨h24, hip, htcp⟩, h28, hport, hsyn⟩
        exact ⟨hip, by omega, h24, htcp, by omega, hport, h28, hsyn, by decide⟩
  · rw [if_neg hlen]
    constructor
    · exact fun h => absurd rfl h
    · rintro (⟨h, -⟩ | ⟨⟨h, -⟩, -⟩)
      · exact absurd h hlen
      · omega

/-- The filter accepts what the thread wants of a frame if and only if the frame is a SYN for port 443
exactly when it is misread as one. -/
theorem filter_accepts_wanted (coreId : Fin 16) (frame : Bytes) :
    (Accepts coreId frame ↔ IsKeyMeta frame coreId ∨ IsHttpsSyn frame) ↔ (IsHttpsSyn frame ↔ IsMisread frame) := by
  rw [accepts_iff]
  by_cases hkey : IsKeyMeta frame coreId
  · -- a key meta packet is no IPv4 frame
    have hip : ¬ IsTcp frame := fun h => keyEthType_ne coreId (hkey.2.symm.trans h.2.1)
    simp only [hkey, true_or, IsHttpsSyn, IsMisread, hip, false_and]
  · simp only [hkey, false_or]
    exact iff_comm

/- A SYN for port 443 behind an IP header without options, 54 bytes in all. -/
def sampleSynFrame : Bytes :=
  zeros 12 ++ [0x08, 0x00, 0x45, 0, 0, 40] ++ zeros 5 ++ [6, 0, 0, 10, 0, 0, 1, 10, 0, 0, 2, 0x1f, 0x90, 0x01, 0xbb]
    ++ zeros 8 ++ [0x50, 2] ++ zeros 6

theorem synFrame_rejected : IsHttpsSyn sampleSynFrame ∧ ¬ Accepts 0 sampleSynFrame := by
  refine ⟨⟨⟨?_, ?_, ?_⟩, ?_, ?_, ?_⟩, ?_⟩
  all_goals decide

end

/-! ### The reset meta -/

/-- A reset meta does for the host what it is sent for: it reaches the thread, `handle_rst_conn_packet` finds the
connection of the key meta, and the new connection gets the same numbers and keys. -/
structure Replaces (coreId : Fin 16) (key rst : MetaHdr) : Prop where
  passes : Accepts coreId rst.encode
  clientIp : be32 rst.encode 0 = (handleMetaData true key.encode).1.clientIp
  clientPort : be16 rst.encode 14 = (handleMetaData true key.encode).1.clientPort
  seqNum : (handleMetaData true rst.encode).1.seqNum = (handleMetaData true key.encode).1.seqNum
  ackNum : (handleMetaData true rst.encode).1.ackNum = (handleMetaData true key.encode).1.ackNum
  keys : (handleMetaData true rst.encode).2 = (handleMetaData true key.encode).2

theorem be16_encode_etherType (hdr : MetaHdr) : be16 hdr.encode 12 = hdr.customEthType := by
  rw [be16_slice, hdr.slice_customEthType, be16_put16]

/-- The reset meta passes the filter of no thread, so that it replaces no connection. -/
theorem rstConnMeta_lost (port : UInt16) (s : St) : ∃ rst,
    (sendRstConnMeta port s).ctx.out = s.ctx.out ++ [.keyMeta port rst]
      ∧ ∀ coreId, ¬ Accepts coreId rst.encode ∧ ∀ key, ¬ Replaces coreId key rst := by
  refine ⟨(sendRstConnMeta port s).conn.sess.metaHdr, rfl, fun coreId => ?_⟩
  have htype : be16 (sendRstConnMeta port s).conn.sess.metaHdr.encode 12 = 0x08FF := be16_encode_etherType _
  have hother : ∀ coreId, keyEthType coreId ≠ 0x08FF := by decide
  have hlost : ¬ Accepts coreId (sendRstConnMeta port s).conn.sess.metaHdr.encode := fun hacc => by
    rcases (accepts_iff _ _).mp hacc with hkey | hsyn
    · exact hother coreId (hkey.2.symm.trans htype)
    · exact absurd (hsyn.1.2.1.symm.trans htype) (by decide)
  exact ⟨hlost, fun _ h => hlost h.passes⟩

/- The address that `handle_rst_conn_packet` reads at offset 0 and the port at 14 are padding. -/
theorem rstConnMeta_sampleKeyed : ∃ key rst,
    (sendRstConnMeta 1 (sendKeyMeta sampleEnv 1 sampleKeyed)).ctx.out = [.keyMeta 1 key, .keyMeta 1 rst]
      ∧ ¬ Accepts 7 rst.encode ∧ (handleMetaData true key.encode).1.clientPort = 7
      ∧ be32 rst.encode 0 = 0 ∧ be16 rst.encode 14 = 0 :=
  ⟨_, _, rfl, by decide +kernel, by decide +kernel, by decide +kernel, by decide +kernel⟩

end Xtls.Host
