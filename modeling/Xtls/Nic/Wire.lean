import Xtls.Lib.Layout
import Xtls.Nic.Packet

/-!
# Frames between the NIC and the host

The meta packet as `send_key_meta` and `send_rst_conn_meta` copy it into a frame: the packed
`meta_hdr_t`, whose last field is a `conn_meta_t` in natural layout (`host.h` 7-46); and what
`process_packet` takes from a frame (`tcp.c` 3256-3297).  The padding of both structures is zero:
`meta_hdr` comes from `calloc` and nothing writes `eth_pad` or `ip_pad`.
-/

namespace Xtls.Nic

def BulkCipher.code : BulkCipher → UInt32
  | .noCipher => 0
  | .aes => 6

def CipherType.code : CipherType → UInt32
  | .unset => 0
  | .aead => 3

/-- `conn_meta_t`; the byte at the end is padding. -/
def ConnMeta.fields (m : ConnMeta) : List Bytes :=
  [putLe16 (UInt16.ofNat m.sessionId), [m.version.major, m.version.minor],
    putLe32 m.bulkCipherAlgorithm.code, putLe32 m.cipherType.code,
    zeros 4, zeros 1, zeros maxKeySize, zeros maxKeySize,   -- MAC algorithm, key size and secrets
    [UInt8.ofNat m.encKeySize], array maxKeySize m.clientWriteKey, array maxKeySize m.serverWriteKey,
    [UInt8.ofNat m.fixedIvLength], array maxKeySize m.clientWriteIv, array maxKeySize m.serverWriteIv,
    zeros 1]

/-- `meta_hdr_t`. -/
def MetaHdr.fields (h : MetaHdr) : List Bytes :=
  [zeros 4, put32 h.serverSeqNum, put32 h.serverAckNum, put16 h.customEthType, zeros 12,
    putLe32 h.clientIp, putLe32 h.serverIp, putLe16 h.clientPort, putLe16 h.serverPort,
    h.connMeta.fields.flatten]

def MetaHdr.encode (h : MetaHdr) : Bytes := h.fields.flatten

/-- The header of `process_packet`: Ethernet, an IP header of 20 bytes, TCP. -/
def parsePacket (frame : Bytes) : Packet :=
  let tcpLen := ((byteAt frame 46 &&& 0xf0) >>> 2).toNat
  let payloadLen : UInt16 := be16 frame 16 - (20 + UInt16.ofNat tcpLen)
  { etherType := be16 frame 12, tos := byteAt frame 15, proto := byteAt frame 23
    dstMac := slice frame 0 6, srcMac := slice frame 6 6
    srcIp := le32 frame 26, dstIp := le32 frame 30
    srcPort := le16 frame 34, dstPort := le16 frame 36
    seq := be32 frame 38, ack := be32 frame 42
    flags := byteAt frame 47, rxWin := be16 frame 48, dataOff := byteAt frame 46
    options := slice frame 54 (tcpLen - 20)
    payload := slice frame (34 + tcpLen) payloadLen.toNat
    frame := frame
    payloadLt := by
      rw [slice_length]
      exact UInt16.toNat_lt _ }

section

variable (h : MetaHdr) (m : ConnMeta) (off len : Nat)

theorem ConnMeta.encode_length : m.fields.flatten.length = 788 := by
  simp [ConnMeta.fields, maxKeySize]

theorem MetaHdr.encode_length : h.encode.length = 826 := by
  have hm := h.connMeta.encode_length
  rw [List.length_flatten] at hm
  simp [MetaHdr.encode, MetaHdr.fields, hm]

/-! ### Where the fields lie -/

theorem ConnMeta.fieldOffsets : fieldOffset m.fields 9 = 274 ∧ fieldOffset m.fields 10 = 402
    ∧ fieldOffset m.fields 12 = 531 ∧ fieldOffset m.fields 13 = 659 := by
  simp [fieldOffset, ConnMeta.fields, maxKeySize]

theorem MetaHdr.slice_serverSeqNum : slice h.encode 4 4 = put32 h.serverSeqNum :=
  slice_fields h.fields 1 0 4 _ rfl (by simp)

theorem MetaHdr.slice_serverAckNum : slice h.encode 8 4 = put32 h.serverAckNum :=
  slice_fields h.fields 2 0 4 _ rfl (by simp)

theorem MetaHdr.slice_customEthType : slice h.encode 12 2 = put16 h.customEthType :=
  slice_fields h.fields 3 0 2 _ rfl (by simp)

theorem MetaHdr.slice_clientIp : slice h.encode 26 4 = putLe32 h.clientIp :=
  slice_fields h.fields 5 0 4 _ rfl (by simp)

theorem MetaHdr.slice_clientPort : slice h.encode 34 2 = putLe16 h.clientPort :=
  slice_fields h.fields 7 0 2 _ rfl (by simp)

theorem MetaHdr.slice_connMeta (hle : off + len ≤ 788) :
    slice h.encode (38 + off) len = slice h.connMeta.fields.flatten off len :=
  slice_fields h.fields 9 off len _ rfl (by rw [ConnMeta.encode_length]; exact hle)

end

end Xtls.Nic
