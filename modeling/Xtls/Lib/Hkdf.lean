import Xtls.Lib.Layout

/-!
# HKDF-Expand

The blocks `T(1)`, `T(2)`, … of HKDF-Expand over an arbitrary message authentication code, their
concatenation, and the label structure that RFC 8446 expands with.
-/

namespace Xtls

/-- A keyed function with outputs of one length. -/
structure Mac where
  size : Nat
  tag : Bytes → Bytes → Bytes
  tag_length : ∀ key msg, (tag key msg).length = size

def vector8 (b : Bytes) : Bytes := UInt8.ofNat b.length :: b

/-- `HkdfLabel` of RFC 8446, section 7.1; `label` comes with its leading `tls13 `. -/
structure HkdfLabel where
  length : UInt16
  label : Bytes
  context : Bytes
  label_le : label.length ≤ 255
  context_le : context.length ≤ 255

def HkdfLabel.encode (l : HkdfLabel) : Bytes := put16 l.length ++ vector8 l.label ++ vector8 l.context

theorem vector8_length (b : Bytes) : (vector8 b).length = b.length + 1 := rfl

theorem vector8_append_inj {a b r s : Bytes} (ha : a.length ≤ 255) (hb : b.length ≤ 255)
    (h : vector8 a ++ r = vector8 b ++ s) : a = b ∧ r = s := by
  obtain ⟨hbyte, hrest⟩ := List.cons.inj h
  have hlen : a.length = b.length := by
    have hnat := congrArg UInt8.toNat hbyte
    rw [UInt8.toNat_ofNat', UInt8.toNat_ofNat'] at hnat
    omega
  exact List.append_inj hrest hlen

theorem HkdfLabel.encode_length (l : HkdfLabel) : l.encode.length = 4 + l.label.length + l.context.length := by
  rw [encode, List.length_append, List.length_append, vector8_length, vector8_length]
  show 2 + _ + _ = _
  omega

theorem HkdfLabel.encode_inj {l m : HkdfLabel} (h : l.encode = m.encode) :
    l.length = m.length ∧ l.label = m.label ∧ l.context = m.context := by
  rw [encode, encode, List.append_assoc, List.append_assoc] at h
  obtain ⟨hlength, hrest⟩ := List.append_inj h rfl
  have hcode := congrArg (be16 · 0) hlength
  rw [be16_put16, be16_put16] at hcode
  obtain ⟨hlabel, hcontext⟩ := vector8_append_inj l.label_le m.label_le hrest
  rw [← List.append_nil (vector8 l.context), ← List.append_nil (vector8 m.context)] at hcontext
  exact ⟨hcode, hlabel, (vector8_append_inj l.context_le m.context_le hcontext).1⟩

namespace Mac

variable (m : Mac) (prk info : Bytes)

/-- `T(i)`. -/
def block : Nat → Bytes
  | 0 => []
  | i + 1 => m.tag prk (block i ++ info ++ [UInt8.ofNat (i + 1)])

/-- `T(1) | T(2) | … | T(n)`. -/
def blocks : Nat → Bytes
  | 0 => []
  | n + 1 => blocks n ++ m.block prk info (n + 1)

/-- The first `len` octets of the blocks. -/
def expand (len : Nat) : Bytes := (m.blocks prk info ((len + m.size - 1) / m.size)).take len

variable {m prk info}

theorem block_length (i : Nat) : (m.block prk info (i + 1)).length = m.size := m.tag_length ..

theorem blocks_length (n : Nat) : (m.blocks prk info n).length = n * m.size := by
  induction n with
  | zero => simp [blocks]
  | succ n ih => rw [blocks, List.length_append, ih, block_length, Nat.succ_mul]

theorem take_blocks_succ (n len : Nat) :
    (m.blocks prk info (n + 1)).take len
      = (m.blocks prk info n).take len ++ (m.block prk info (n + 1)).take (len - n * m.size) := by
  rw [blocks, List.take_append, blocks_length]

theorem expand_length (h : 0 < m.size) (len : Nat) : (m.expand prk info len).length = len := by
  have hceil : len ≤ (len + m.size - 1) / m.size * m.size := by
    have hlt := Nat.lt_div_mul_add h (a := len + m.size - 1)
    omega
  rw [expand, List.length_take, blocks_length]
  exact Nat.min_eq_left hceil

end Mac

end Xtls
