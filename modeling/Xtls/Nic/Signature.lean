import Xtls.Lib.Der
import Xtls.Nic.FlightSize

/-!
# The signature of the CertificateVerify

`handle_after_ecdsa_signature` (`ssl.c` 4028-4127) with its buffers and lengths: the two results of the
engine are turned into big-endian strings, freed of leading zeros in place, given a zero before a set top
bit, and written behind each other.
-/

namespace Xtls.Nic

/-- `remove_leading_zeros`: the string is moved to the front of its buffer. -/
def removeLeadingZeros (buf : Bytes) (len : UInt16) : Bytes × UInt16 :=
  let offset := ((buf.take len.toNat).takeWhile (· == 0)).length
  if 0 < offset then
    (slice buf offset (len.toNat - offset) ++ buf.drop (len.toNat - offset), len - UInt16.ofNat offset)
  else (buf, len)

/- `r_buf` behind its first byte, which is zero, with `r_len` and `r_msb`. -/
def integerBuffer (op : Operand) : Bytes × UInt16 × Bool :=
  let (buf, len) := removeLeadingZeros (operandToString op op.buf.length) (UInt16.ofNat op.buf.length)
  if byteAt buf 0 &&& 0x80 ≠ 0 then (buf, len + 1, true) else (buf, len, false)

def integerBytes (b : Bytes × UInt16 × Bool) : Bytes :=
  if b.2.2 then slice (0 :: b.1) 0 b.2.1.toNat else slice b.1 0 b.2.1.toNat

/-- The bytes of `cert_signature`, and `cert_signature_len`. -/
def writeSignature (r s : Operand) : Bytes × Nat :=
  let r := integerBuffer r
  let s := integerBuffer s
  ([0x30, (2 + r.2.1 + 2 + s.2.1).toUInt8] ++ [0x02, r.2.1.toUInt8] ++ integerBytes r
      ++ [0x02, s.2.1.toUInt8] ++ integerBytes s,
    2 + 2 + r.2.1.toNat + 2 + s.2.1.toNat)

section

variable {op r s : Operand} {buf v : Bytes} {st : St}

theorem topBit_iff (x : Byte) : x &&& 0x80 ≠ 0 ↔ 0x80 ≤ x := by
  have hall : ∀ i : Fin 256, UInt8.ofFin i &&& 0x80 ≠ 0 ↔ 0x80 ≤ UInt8.ofFin i := by decide +kernel
  exact hall x.toFin

theorem removeLeadingZeros_eq (buf : Bytes) (h : buf.length < 65536) :
    ∃ rest, removeLeadingZeros buf (UInt16.ofNat buf.length)
      = (buf.dropWhile (· == 0) ++ rest, UInt16.ofNat (buf.dropWhile (· == 0)).length) := by
  have hlen : (UInt16.ofNat buf.length).toNat = buf.length := by
    rw [UInt16.toNat_ofNat']
    omega
  have hsplit : buf.takeWhile (· == 0) ++ buf.dropWhile (· == 0) = buf := List.takeWhile_append_dropWhile
  have hsum : (buf.takeWhile (· == 0)).length + (buf.dropWhile (· == 0)).length = buf.length := by
    rw [← List.length_append, hsplit]
  unfold removeLeadingZeros
  rw [hlen, List.take_length]
  dsimp only
  split
  · have hdrop : (buf.takeWhile (· == 0) ++ buf.dropWhile (· == 0)).drop (buf.takeWhile (· == 0)).length
        = buf.dropWhile (· == 0) := List.drop_left
    rw [hsplit] at hdrop
    refine ⟨buf.drop (buf.length - (buf.takeWhile (· == 0)).length), ?_⟩
    rw [slice_of_le _ _ _ (by omega), hdrop, List.take_of_length_le (by omega), ← UInt16.ofNat_sub (by omega)]
    congr 2
    omega
  · rename_i hzero
    have hnil : buf.takeWhile (· == 0) = [] := List.eq_nil_of_length_eq_zero (by omega)
    rw [hnil, List.nil_append] at hsplit
    exact ⟨[], by rw [hsplit, List.append_nil]⟩

theorem dropWhile_pos (h : 0 < beValue buf) : ∃ x v, buf.dropWhile (· == 0) = x :: v ∧ x ≠ 0 := by
  have hval := beValue_dropWhile buf
  cases hd : buf.dropWhile (· == 0) with
  | nil =>
    rw [hd] at hval
    exact absurd hval (Nat.ne_of_lt h)
  | cons x v =>
    refine ⟨x, v, rfl, ?_⟩
    have hne : buf.dropWhile (· == 0) ≠ [] := by
      rw [hd]
      exact List.cons_ne_nil _ _
    have hhead := List.head_dropWhile_not (· == 0) hne
    simp only [hd, List.head_cons] at hhead
    simpa using hhead

theorem operandBytes_length (op : Operand) : (operandBytes op).length = op.buf.length := by
  unfold operandBytes operandToString
  split
  · rw [List.take_length]
  · rw [List.take_length, List.length_reverse]

theorem stripped_length {x : Byte} (hlen : op.buf.length ≤ 32)
    (hv : (operandBytes op).dropWhile (· == 0) = x :: v) : (x :: v).length ≤ 32 := by
  have hsub := (List.dropWhile_sublist (l := operandBytes op) (· == 0)).length_le
  rw [hv, operandBytes_length] at hsub
  omega

theorem integerBuffer_positive {x : Byte} (hlen : op.buf.length ≤ 32)
    (hv : (operandBytes op).dropWhile (· == 0) = x :: v) :
    (integerBuffer op).2.1.toNat = (positive (x :: v)).length
      ∧ integerBytes (integerBuffer op) = positive (x :: v) := by
  have hbytes := operandBytes_length op
  obtain ⟨rest, hrest⟩ := removeLeadingZeros_eq (operandBytes op) (by omega)
  rw [hv, hbytes] at hrest
  have hle := stripped_length hlen hv
  have hto : (UInt16.ofNat (x :: v).length).toNat = (x :: v).length := by
    rw [UInt16.toNat_ofNat']
    omega
  have hslice : ∀ a b : Bytes, slice (a ++ b) 0 a.length = a := by
    intro a b
    rw [slice_of_le _ _ _ (by rw [List.length_append]; omega), List.drop_zero, List.take_left]
  have hbuffer : integerBuffer op = if x &&& 0x80 ≠ 0 then ((x :: v) ++ rest, UInt16.ofNat (x :: v).length + 1, true)
      else ((x :: v) ++ rest, UInt16.ofNat (x :: v).length, false) := by
    unfold integerBuffer
    unfold operandBytes at hrest
    rw [hrest]
    rfl
  have hpos : positive (x :: v) = if 0x80 ≤ x then 0 :: x :: v else x :: v := rfl
  rw [hbuffer, hpos]
  by_cases htop : 0x80 ≤ x
  · have hone : (1 : UInt16).toNat = 1 := rfl
    have hsucc : (UInt16.ofNat (x :: v).length + 1).toNat = (0 :: x :: v).length := by
      rw [UInt16.toNat_add, hto, hone, List.length_cons (a := 0)]
      omega
    rw [if_pos ((topBit_iff x).mpr htop), if_pos htop]
    refine ⟨hsucc, ?_⟩
    unfold integerBytes
    rw [if_pos rfl, hsucc]
    exact hslice (0 :: x :: v) rest
  · rw [if_neg (fun h => htop ((topBit_iff x).mp h)), if_neg htop]
    refine ⟨hto, ?_⟩
    unfold integerBytes
    rw [if_neg Bool.false_ne_true, hto]
    exact hslice (x :: v) rest

theorem toUInt8_eq {n : UInt16} {k : Nat} (h : n.toNat = k) : n.toUInt8 = UInt8.ofNat k := by
  rw [← UInt8.toNat_inj, UInt16.toNat_toUInt8, UInt8.toNat_ofNat', h]

theorem writeSignature_eq {x y : Byte} {w : Bytes} (hr : r.buf.length ≤ 32) (hs : s.buf.length ≤ 32)
    (hv : (operandBytes r).dropWhile (· == 0) = x :: v) (hw : (operandBytes s).dropWhile (· == 0) = y :: w) :
    writeSignature r s = (tlv 0x30 (tlv 0x02 (positive (x :: v)) ++ tlv 0x02 (positive (y :: w))),
      (tlv 0x30 (tlv 0x02 (positive (x :: v)) ++ tlv 0x02 (positive (y :: w)))).length) := by
  obtain ⟨hlenr, hbytesr⟩ := integerBuffer_positive hr hv
  obtain ⟨hlens, hbytess⟩ := integerBuffer_positive hs hw
  have hler := stripped_length hr hv
  have hles := stripped_length hs hw
  have hposr := positive_length_le (x :: v)
  have hposs := positive_length_le (y :: w)
  have htwo : (2 : UInt16).toNat = 2 := rfl
  have hsum : (2 + (integerBuffer r).2.1 + 2 + (integerBuffer s).2.1).toNat
      = (tlv 0x02 (positive (x :: v)) ++ tlv 0x02 (positive (y :: w))).length := by
    rw [UInt16.toNat_add, UInt16.toNat_add, UInt16.toNat_add, hlenr, hlens, htwo, List.length_append, tlv_length,
      tlv_length]
    omega
  unfold writeSignature
  dsimp only
  rw [hbytesr, hbytess, toUInt8_eq hsum, toUInt8_eq hlenr, toUInt8_eq hlens, hlenr, hlens]
  refine Prod.ext ?_ ?_
  · simp only [tlv, List.cons_append, List.nil_append, List.append_assoc]
  · simp only [tlv_length, List.length_append]
    omega

/- The model of the function in the handshake writes the same bytes. -/
theorem derInteger_eq {x : Byte} (hv : (operandBytes op).dropWhile (· == 0) = x :: v) :
    derInteger (operandBytes op) = tlv 0x02 (positive (x :: v)) := by
  have htop : (if byteAt (x :: v) 0 &&& 0x80 ≠ 0 then 0 :: x :: v else x :: v) = positive (x :: v) := by
    unfold positive
    by_cases h : 0x80 ≤ byteAt (x :: v) 0
    · rw [if_pos h, if_pos ((topBit_iff _).mpr h)]
    · rw [if_neg h, if_neg fun hb => h ((topBit_iff _).mp hb)]
  unfold derInteger
  rw [hv]
  dsimp only
  rw [htop]
  rfl

/-- The two results of the engine, as little-endian numbers that are not zero and have at most 32 bytes. -/
structure EcdsaResults (r s : Operand) : Prop where
  little : r.bigEndian = false ∧ s.bigEndian = false
  short : r.buf.length ≤ 32 ∧ s.buf.length ≤ 32
  pos : 0 < leValue r.buf ∧ 0 < leValue s.buf

theorem beValue_operandBytes (h : op.bigEndian = false) : beValue (operandBytes op) = leValue op.buf := by
  unfold operandBytes operandToString beValue
  rw [if_neg (by rw [h]; exact Bool.false_ne_true), List.take_length, List.reverse_reverse]

/-- `handle_after_ecdsa_signature` writes the distinguished encoding of the two numbers, of at most 72
bytes, and counts the bytes it has written. -/
theorem writeSignature_der (r s : Operand) (h : EcdsaResults r s) (st : St)
    (hst : st.conn.sess.pkaResults.getD 0 {} = r ∧ st.conn.sess.pkaResults.getD 1 {} = s) :
    readSignature (writeSignature r s).1 = some (leValue r.buf, leValue s.buf)
      ∧ (writeSignature r s).2 = (writeSignature r s).1.length
      ∧ (writeSignature r s).1.length ≤ 72
      ∧ (handleAfterEcdsaSignature st).conn.sess.tls13Ctx.certSignature = (writeSignature r s).1 := by
  have hvalr := beValue_operandBytes h.little.1
  have hvals := beValue_operandBytes h.little.2
  obtain ⟨x, v, hv, hx⟩ := dropWhile_pos (hvalr.symm ▸ h.pos.1)
  obtain ⟨y, w, hw, hy⟩ := dropWhile_pos (hvals.symm ▸ h.pos.2)
  have hler := stripped_length h.short.1 hv
  have hles := stripped_length h.short.2 hw
  rw [writeSignature_eq h.short.1 h.short.2 hv hw]
  refine ⟨?_, rfl, ?_, ?_⟩
  · rw [readSignature_positive hx hy (by omega), ← hv, ← hw, beValue_dropWhile, beValue_dropWhile, hvalr, hvals]
  · have hposr := positive_length_le (x :: v)
    have hposs := positive_length_le (y :: w)
    rw [tlv_length, List.length_append, tlv_length, tlv_length]
    omega
  · have hsig : (handleAfterEcdsaSignature st).conn.sess.tls13Ctx.certSignature
        = tlv 0x30 (derInteger (operandBytes (st.conn.sess.pkaResults.getD 0 {}))
          ++ derInteger (operandBytes (st.conn.sess.pkaResults.getD 1 {}))) := rfl
    rw [hsig, hst.1, hst.2, derInteger_eq hv, derInteger_eq hw]

/- One number of 32 bytes with its top bit set, and one of two bytes behind a zero. -/
def sampleR : Operand := { buf := List.replicate 32 0xff }

def sampleS : Operand := { buf := [0x34, 0x12, 0] }

theorem writeSignature_der_sample :
    EcdsaResults sampleR sampleS
      ∧ readSignature (writeSignature sampleR sampleS).1 = some (leValue sampleR.buf, 0x1234) :=
  have h : EcdsaResults sampleR sampleS := ⟨by decide, by decide, by decide⟩
  ⟨h, (writeSignature_der sampleR sampleS h
    (St.mapSess (fun e => { e with pkaResults := [sampleR, sampleS] }) ⟨{ id := 0 }, {}⟩) ⟨rfl, rfl⟩).1⟩

end

end Xtls.Nic
