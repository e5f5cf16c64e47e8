import Xtls.Lib.Endian

/-!
# DER

A reader for the signature of ECDSA, `SEQUENCE (INTEGER, INTEGER)`.  It takes the distinguished encoding
only: lengths in the short form, numbers that are not negative and as short as they can be, and nothing
behind them.
-/

namespace Xtls

/-- The contents of a value with the given tag, and what follows it. -/
def readTlv (tag : Byte) : Bytes → Option (Bytes × Bytes)
  | t :: n :: rest =>
    if t = tag ∧ n < 0x80 ∧ n.toNat ≤ rest.length then some (rest.take n.toNat, rest.drop n.toNat) else none
  | _ => none

/- The first nine bits of the contents are not all the same. -/
def IsMinimal : Bytes → Prop
  | [] => False
  | [_] => True
  | x :: y :: _ => ¬ (x = 0 ∧ y < 0x80) ∧ ¬ (x = 0xff ∧ 0x80 ≤ y)

def IsNonneg : Bytes → Prop
  | [] => False
  | x :: _ => x < 0x80

instance : (b : Bytes) → Decidable (IsMinimal b)
  | [] => inferInstanceAs (Decidable False)
  | [_] => inferInstanceAs (Decidable True)
  | x :: y :: _ => inferInstanceAs (Decidable (¬ (x = 0 ∧ y < 0x80) ∧ ¬ (x = 0xff ∧ 0x80 ≤ y)))

instance : (b : Bytes) → Decidable (IsNonneg b)
  | [] => inferInstanceAs (Decidable False)
  | x :: _ => inferInstanceAs (Decidable (x < 0x80))

def readInteger (b : Bytes) : Option (Nat × Bytes) := do
  let (c, rest) ← readTlv 0x02 b
  if IsMinimal c ∧ IsNonneg c then some (beValue c, rest) else none

def readSignature (b : Bytes) : Option (Nat × Nat) := do
  let (c, rest) ← readTlv 0x30 b
  if rest ≠ [] then none
  let (r, c) ← readInteger c
  let (s, c) ← readInteger c
  if c ≠ [] then none else some (r, s)

/-- A value with its tag and its length in the short form. -/
def tlv (tag : Byte) (contents : Bytes) : Bytes := tag :: UInt8.ofNat contents.length :: contents

section

variable {c : Bytes}

@[simp] theorem tlv_length (tag : Byte) (c : Bytes) : (tlv tag c).length = c.length + 2 := rfl

theorem readTlv_tlv (tag : Byte) (rest : Bytes) (h : c.length < 128) :
    readTlv tag (tlv tag c ++ rest) = some (c, rest) := by
  have hlen : (UInt8.ofNat c.length).toNat = c.length := by
    rw [UInt8.toNat_ofNat']
    omega
  have hshort : UInt8.ofNat c.length < 0x80 := by
    rw [UInt8.lt_iff_toNat_lt, hlen]
    exact h
  show (if tag = tag ∧ UInt8.ofNat c.length < 0x80 ∧ (UInt8.ofNat c.length).toNat ≤ (c ++ rest).length
    then some ((c ++ rest).take (UInt8.ofNat c.length).toNat, (c ++ rest).drop (UInt8.ofNat c.length).toNat)
    else none) = _
  rw [if_pos ⟨rfl, hshort, by rw [hlen, List.length_append]; omega⟩, hlen, List.take_left, List.drop_left]

/-- The contents of a positive number whose bytes do not start with a zero. -/
def positive (v : Bytes) : Bytes := if 0x80 ≤ byteAt v 0 then 0 :: v else v

theorem positive_length_le (v : Bytes) : (positive v).length ≤ v.length + 1 := by
  unfold positive
  split
  · exact Nat.le_refl _
  · exact Nat.le_succ _

theorem positive_ok {x : Byte} {v : Bytes} (hx : x ≠ 0) :
    IsMinimal (positive (x :: v)) ∧ IsNonneg (positive (x :: v)) ∧ beValue (positive (x :: v)) = beValue (x :: v) := by
  unfold positive
  split
  · rename_i htop
    have htop : 0x80 ≤ x := htop
    refine ⟨⟨fun h => absurd htop (UInt8.not_le.mpr h.2), fun h => absurd h.1 (by decide)⟩, ?_, beValue_zero_cons _⟩
    show (0 : Byte) < 0x80
    decide
  · rename_i htop
    have hlow : x < 0x80 := UInt8.not_le.mp htop
    refine ⟨?_, hlow, rfl⟩
    cases v with
    | nil => trivial
    | cons y v =>
      refine ⟨fun h => hx h.1, fun h => ?_⟩
      rw [h.1] at hlow
      exact absurd hlow (by decide)

theorem readInteger_positive (rest : Bytes) {x : Byte} {v : Bytes} (hx : x ≠ 0) (hlen : (x :: v).length < 127) :
    readInteger (tlv 0x02 (positive (x :: v)) ++ rest) = some (beValue (x :: v), rest) := by
  obtain ⟨hmin, hnn, hval⟩ := positive_ok (v := v) hx
  have hle := positive_length_le (x :: v)
  unfold readInteger
  rw [readTlv_tlv _ _ (by omega)]
  show (if _ then _ else _) = _
  rw [if_pos ⟨hmin, hnn⟩, hval]

theorem readSignature_positive {x y : Byte} {v w : Bytes} (hx : x ≠ 0) (hy : y ≠ 0)
    (hlen : (x :: v).length + (y :: w).length < 122) :
    readSignature (tlv 0x30 (tlv 0x02 (positive (x :: v)) ++ tlv 0x02 (positive (y :: w))))
      = some (beValue (x :: v), beValue (y :: w)) := by
  have hv := positive_length_le (x :: v)
  have hw := positive_length_le (y :: w)
  have hshort : (tlv 0x02 (positive (x :: v)) ++ tlv 0x02 (positive (y :: w))).length < 128 := by
    rw [List.length_append, tlv_length, tlv_length]
    omega
  have houter := readTlv_tlv 0x30 [] hshort
  have hsecond := readInteger_positive [] hy (show (y :: w).length < 127 by omega)
  rw [List.append_nil] at houter hsecond
  unfold readSignature
  rw [houter]
  show (readInteger (tlv 0x02 (positive (x :: v)) ++ tlv 0x02 (positive (y :: w))) >>= _) = _
  rw [readInteger_positive _ hx (by omega)]
  show (readInteger (tlv 0x02 (positive (y :: w))) >>= _) = _
  rw [hsecond]
  rfl

end

end Xtls
