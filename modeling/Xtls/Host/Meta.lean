import Xtls.Nic.System
import Xtls.Nic.Wire

/-!
# Meta packets on the host

What the host takes from a meta packet (`meta_pkt.c` 15-249) and the two frames it sends back
(`meta_pkt.c` 424-530).  The host reads the packet at fixed offsets; `ssl_meta_t` lies at offset 38.
Addresses and ports are kept in host order here.
-/

namespace Xtls.Host

open Xtls.Nic

/-- `enum meta_type`, without `META_TYPE_UNKNOWN`. -/
inductive MetaType where
  | key | rstConn | weirdSyn
  deriving DecidableEq, Repr

def validateMetaType (buf : Bytes) : Option MetaType :=
  let ethType := be16 buf 12
  if 0x0801 ≤ ethType ∧ ethType ≤ 0x0810 then some .key
  else if ethType = 0x08FF then some .rstConn
  else if ethType = 0x0800 then some .weirdSyn
  else none

/-- `struct meta_info`, without the pointer into the receive buffer. -/
structure MetaInfo where
  clientIp : UInt32 := 0
  clientPort : UInt16 := 0
  seqNum : UInt32 := 0
  ackNum : UInt32 := 0
  deriving DecidableEq, Repr

def TLS_CIPHER_AES_GCM_256 : UInt16 := 52

/-- `struct tls12_crypto_info_aes_gcm_256` of the kernel. -/
structure CryptoInfo where
  version : UInt16 := 0
  cipherType : UInt16 := 0
  iv : Bytes := zeros 8
  key : Bytes := zeros 32
  salt : Bytes := zeros 4
  recSeq : Bytes := zeros 8
  deriving DecidableEq, Repr

structure SslCryptoInfo where
  rx : CryptoInfo := {}
  tx : CryptoInfo := {}
  deriving DecidableEq, Repr

/-- One direction of `handle_meta_data`, from the write key and the write IV at the given offsets of
`ssl_meta_t`. -/
def cryptoInfoAt (tls13 : Bool) (buf : Bytes) (key iv : Nat) : CryptoInfo where
  version := ((byteAt buf 40).toUInt16 <<< 8) ||| (byteAt buf 41).toUInt16
  cipherType := TLS_CIPHER_AES_GCM_256
  iv := if tls13 then slice buf (38 + iv + 4) 8 else zeros 8
  key := slice buf (38 + key) 32
  salt := slice buf (38 + iv) 4
  recSeq := if tls13 then zeros 8 else zeros 7 ++ [1]

/-- `handle_meta_data`: the client's key is received with, the server's is sent with. -/
def handleMetaData (tls13 : Bool) (buf : Bytes) : MetaInfo × SslCryptoInfo :=
  ({ seqNum := be32 buf 4, ackNum := be32 buf 8
     clientIp := be32 buf 26, clientPort := be16 buf 34 },
   { rx := cryptoInfoAt tls13 buf 274 531, tx := cryptoInfoAt tls13 buf 402 659 })

/-! ### Frames to the NIC -/

def SERVER_IP : UInt32 := 0x0A000002
def SSL_PORT : UInt16 := 443

/-- The frame of `send_mig_fin_to_arm` and `send_close_to_arm`, with the bytes at offset 48. -/
def armFrame (tos : Byte) (tail : Bytes) (m : MetaInfo) : List Bytes :=
  [zeros 6, zeros 6, [0x08, 0x00],
    [0x45], [tos], [0x00, 0x28], zeros 4, [64], [6], zeros 2, put32 m.clientIp, put32 SERVER_IP,
    put16 m.clientPort, put16 SSL_PORT, put32 m.seqNum, put32 m.ackNum, zeros 2, tail, zeros 12]

/- `recv_bytes` counts a failed `recvmsg` as -1. -/
def sendMigFinToArm (m : MetaInfo) (recvBytes : Int) : Bytes :=
  (armFrame 0xfd (putLe32 (m.ackNum + UInt32.ofInt recvBytes)) m).flatten

def sendCloseToArm (m : MetaInfo) : Bytes := (armFrame 0xfc (zeros 4) m).flatten

section

variable (tos : Byte) (tail : Bytes) (m : MetaInfo)

theorem parsePacket_armFrame :
    let p := parsePacket (armFrame tos tail m).flatten
    p.etherType = 0x0800 ∧ p.tos = tos ∧ p.srcIp = le32 (put32 m.clientIp) 0
      ∧ p.dstIp = le32 (put32 SERVER_IP) 0 ∧ p.srcPort = le16 (put16 m.clientPort) 0
      ∧ p.dstPort = le16 (put16 SSL_PORT) 0 ∧ p.seq = m.seqNum ∧ p.ack = m.ackNum := by
  have htype : slice (armFrame tos tail m).flatten 12 2 = [0x08, 0x00] :=
    slice_field (armFrame tos tail m) (i := 2) rfl (by simp [fieldOffset, armFrame])
  have htos : slice (armFrame tos tail m).flatten 15 1 = [tos] :=
    slice_field (armFrame tos tail m) (i := 4) rfl (by simp [fieldOffset, armFrame])
  have hsrc : slice (armFrame tos tail m).flatten 26 4 = put32 m.clientIp :=
    slice_field (armFrame tos tail m) (i := 10) rfl (by simp [fieldOffset, armFrame])
  have hdst : slice (armFrame tos tail m).flatten 30 4 = put32 SERVER_IP :=
    slice_field (armFrame tos tail m) (i := 11) rfl (by simp [fieldOffset, armFrame])
  have hsport : slice (armFrame tos tail m).flatten 34 2 = put16 m.clientPort :=
    slice_field (armFrame tos tail m) (i := 12) rfl (by simp [fieldOffset, armFrame])
  have hdport : slice (armFrame tos tail m).flatten 36 2 = put16 SSL_PORT :=
    slice_field (armFrame tos tail m) (i := 13) rfl (by simp [fieldOffset, armFrame])
  have hseq : slice (armFrame tos tail m).flatten 38 4 = put32 m.seqNum :=
    slice_field (armFrame tos tail m) (i := 14) rfl (by simp [fieldOffset, armFrame])
  have hack : slice (armFrame tos tail m).flatten 42 4 = put32 m.ackNum :=
    slice_field (armFrame tos tail m) (i := 15) rfl (by simp [fieldOffset, armFrame])
  have htos' := byteAt_slice (armFrame tos tail m).flatten 15 1 0 (by omega)
  rw [htos] at htos'
  refine ⟨?_, htos'.symm, ?_, ?_, ?_, ?_, ?_, ?_⟩
  · exact (be16_slice _ 12).trans (congrArg (be16 · 0) htype)
  · exact (le32_slice _ 26).trans (congrArg (le32 · 0) hsrc)
  · exact (le32_slice _ 30).trans (congrArg (le32 · 0) hdst)
  · exact (le16_slice _ 34).trans (congrArg (le16 · 0) hsport)
  · exact (le16_slice _ 36).trans (congrArg (le16 · 0) hdport)
  · exact ((be32_slice _ 38).trans (congrArg (be32 · 0) hseq)).trans (be32_put32 _)
  · exact ((be32_slice _ 42).trans (congrArg (be32 · 0) hack)).trans (be32_put32 _)

end

/-! ### The key meta packet -/

/- Bytes that `build_connection_meta` copies into an array of `MAX_KEY_SIZE` zeroes. -/
theorem slice_overwrite (b : Bytes) (n off len : Nat) (hn : n ≤ maxKeySize) (h : off + len ≤ n) :
    slice (array maxKeySize (overwrite (zeros maxKeySize) (b.take n))) off len = slice b off len := by
  refine bytes_ext (by simp) fun i hi => ?_
  rw [slice_length] at hi
  rw [byteAt_slice _ _ _ _ hi, byteAt_slice _ _ _ _ hi, array, byteAt_slice _ _ _ _ (by omega),
    Nat.zero_add]
  by_cases hb : off + i < (b.take n).length
  · rw [overwrite, byteAt_append_left _ _ _ hb, byteAt_take _ _ _ (by omega)]
  · simp only [List.length_take] at hb
    have hnone : b[off + i]? = none := List.getElem?_eq_none (by omega)
    simp only [overwrite, byteAt, List.getD, zeros, List.drop_replicate]
    rw [List.getElem?_append_right (by simp only [List.length_take]; omega), hnone,
      List.getElem?_replicate]
    split <;> rfl

section

variable (h : MetaHdr) (c : Conn)

theorem handleMetaData_info (tls13 : Bool) :
    (handleMetaData tls13 h.encode).1
      = { clientIp := ntohl h.clientIp, clientPort := ntohs h.clientPort
          seqNum := h.serverSeqNum, ackNum := h.serverAckNum } := by
  simp only [handleMetaData, be32_slice h.encode, be16_slice h.encode, h.slice_serverSeqNum,
    h.slice_serverAckNum, h.slice_clientIp, h.slice_clientPort, be32_put32]
  rfl

theorem cryptoInfoAt_encode (key iv : Bytes) {i j offKey offIv : Nat}
    (hkey : h.connMeta.fields[i]? = some (array maxKeySize (overwrite (zeros maxKeySize) (key.take 32))))
    (hiv : h.connMeta.fields[j]? = some (array maxKeySize (overwrite (zeros maxKeySize) (iv.take 12))))
    (hi : fieldOffset h.connMeta.fields i = offKey) (hj : fieldOffset h.connMeta.fields j = offIv)
    (hle : offKey + 32 ≤ 788) (hle' : offIv + 12 ≤ 788) (hver : h.connMeta.version = ⟨3, 4⟩) :
    (cryptoInfoAt true h.encode offKey offIv).version = 0x0304
      ∧ (cryptoInfoAt true h.encode offKey offIv).key = slice key 0 32
      ∧ (cryptoInfoAt true h.encode offKey offIv).salt
          ++ (cryptoInfoAt true h.encode offKey offIv).iv = slice iv 0 12 := by
  have hread : ∀ off len, off + len ≤ 12 →
      slice h.encode (38 + (offIv + off)) len = slice iv off len := fun off len hlen => by
    rw [h.slice_connMeta _ _ (by omega), ← hj, slice_fields _ _ _ _ _ hiv (by simp [maxKeySize]; omega),
      slice_overwrite _ _ _ _ (by decide) hlen]
  have hver' : slice h.encode 40 2 = [3, 4] := by
    have h2 : slice h.encode (38 + 2) 2 = slice h.connMeta.fields.flatten 2 2 :=
      h.slice_connMeta 2 2 (by omega)
    rw [h2]
    have hf : h.connMeta.fields[1]? = some [3, 4] := by rw [ConnMeta.fields, hver]; rfl
    exact slice_field _ hf (by simp [fieldOffset, ConnMeta.fields])
  refine ⟨?_, ?_, ?_⟩
  · have h0 := byteAt_slice h.encode 40 2 0 (by omega)
    have h1 := byteAt_slice h.encode 40 2 1 (by omega)
    rw [hver'] at h0 h1
    simp only [cryptoInfoAt, ← h0, ← h1]
    rfl
  · show slice h.encode (38 + offKey) 32 = _
    rw [h.slice_connMeta _ _ hle, ← hi, ← Nat.add_zero (fieldOffset _ _),
      slice_fields _ _ _ _ _ hkey (by simp [maxKeySize]), slice_overwrite _ _ _ _ (by decide) (by omega)]
  · show slice h.encode (38 + offIv) 4 ++ slice h.encode (38 + offIv + 4) 8 = _
    have hsalt : slice h.encode (38 + offIv) 4 = slice iv 0 4 := hread 0 4 (by omega)
    rw [Nat.add_assoc, hread 4 8 (by omega), hsalt]
    exact slice_append_slice iv 0 4 8

/-- The host restores exactly the connection and the keys of the NIC from the key meta packet: it
receives with the client's application key and IV and sends with the server's. -/
theorem handleMetaData_sendKeyMeta (env : Env) (port : UInt16) (s : St)
    (hkey : s.conn.sess.writeSp.encKeySize = 32) (hiv : s.conn.sess.writeSp.fixedIvLength = 12)
    (hver : s.conn.sess.version.major = 3) :
    ∃ hdr, (sendKeyMeta env port s).ctx.out = s.ctx.out ++ [.keyMeta port hdr]
      ∧ (handleMetaData true hdr.encode).1
        = { clientIp := ntohl s.conn.tcp.clientIp, clientPort := ntohs s.conn.tcp.clientPort
            seqNum := s.conn.tcp.lastRecvAck + sendBufferOffset s.conn.sess
            ackNum := s.conn.tcp.lastRecvSeq + s.conn.tcp.lastRecvLen + 80 }
      ∧ (handleMetaData true hdr.encode).2.rx.version = 0x0304
      ∧ (handleMetaData true hdr.encode).2.rx.key
        = slice s.conn.sess.tls13Ctx.clientApplicationKey 0 32
      ∧ (handleMetaData true hdr.encode).2.rx.salt ++ (handleMetaData true hdr.encode).2.rx.iv
        = slice s.conn.sess.tls13Ctx.clientApplicationIv 0 12
      ∧ (handleMetaData true hdr.encode).2.tx.version = 0x0304
      ∧ (handleMetaData true hdr.encode).2.tx.key
        = slice s.conn.sess.tls13Ctx.serverApplicationKey 0 32
      ∧ (handleMetaData true hdr.encode).2.tx.salt ++ (handleMetaData true hdr.encode).2.tx.iv
        = slice s.conn.sess.tls13Ctx.serverApplicationIv 0 12 := by
  have hm : (sendKeyMeta env port s).conn.sess.metaHdr.connMeta = buildConnectionMeta s.conn := rfl
  have hver' : (sendKeyMeta env port s).conn.sess.metaHdr.connMeta.version = ⟨3, 4⟩ := by
    simp only [hm, buildConnectionMeta, hver]
  have hcopy : ∀ b : Bytes, b.take s.conn.sess.writeSp.encKeySize = b.take 32 := fun b => by rw [hkey]
  have hcopy' : ∀ b : Bytes, b.take s.conn.sess.writeSp.fixedIvLength = b.take 12 := fun b => by rw [hiv]
  obtain ⟨hck, hsk, hci, hsi⟩ := (sendKeyMeta env port s).conn.sess.metaHdr.connMeta.fieldOffsets
  obtain ⟨hv, hk, hs⟩ := cryptoInfoAt_encode (sendKeyMeta env port s).conn.sess.metaHdr
    s.conn.sess.tls13Ctx.clientApplicationKey s.conn.sess.tls13Ctx.clientApplicationIv
    (by simp [hm, ConnMeta.fields, buildConnectionMeta, hcopy])
    (by simp [hm, ConnMeta.fields, buildConnectionMeta, hcopy']) hck hci (by omega) (by omega) hver'
  obtain ⟨hv', hk', hs'⟩ := cryptoInfoAt_encode (sendKeyMeta env port s).conn.sess.metaHdr
    s.conn.sess.tls13Ctx.serverApplicationKey s.conn.sess.tls13Ctx.serverApplicationIv
    (by simp [hm, ConnMeta.fields, buildConnectionMeta, hcopy])
    (by simp [hm, ConnMeta.fields, buildConnectionMeta, hcopy']) hsk hsi (by omega) (by omega) hver'
  exact ⟨_, rfl, handleMetaData_info _ true, hv, hk, hs, hv', hk', hs'⟩

def sampleKeyed : St where
  conn :=
    { id := 0, tcp := { clientIp := 0x0100000A, clientPort := 0x0700 }
      sess :=
        { version := ⟨3, 3⟩, writeSp := { encKeySize := 32, fixedIvLength := 12 }
          tls13Ctx :=
            { clientApplicationKey := List.replicate 32 1, clientApplicationIv := List.replicate 12 2
              serverApplicationKey := List.replicate 32 3
              serverApplicationIv := List.replicate 12 4 } } }
  ctx := {}

theorem handleMetaData_sampleKeyed :
    ∃ hdr, (sendKeyMeta sampleEnv 1 sampleKeyed).ctx.out = [.keyMeta 1 hdr]
      ∧ (handleMetaData true hdr.encode).1.clientIp = 0x0A000001
      ∧ (handleMetaData true hdr.encode).1.clientPort = 7
      ∧ (handleMetaData true hdr.encode).2.rx.key = List.replicate 32 1 := by
  obtain ⟨hdr, hout, hinfo, -, hkey, -⟩ := handleMetaData_sendKeyMeta sampleEnv 1 sampleKeyed rfl rfl rfl
  exact ⟨hdr, hout, congrArg MetaInfo.clientIp hinfo, congrArg MetaInfo.clientPort hinfo, hkey⟩

end

end Xtls.Host
