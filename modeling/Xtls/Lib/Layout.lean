import Mathlib.Algebra.GroupWithZero.Nat
import Mathlib.Algebra.Order.Group.Nat
import Mathlib.Algebra.BigOperators.Group.List.Basic
import Xtls.Lib.Octets

/-!
# Records laid out in memory

A record is written as the concatenation of its fields and read at offsets.  `slice_fields` reads a
part of one field out of the whole; the other lemmas turn integers back from the octets they were
written as, in either byte order.
-/

namespace Xtls

/-- Where field `i` of a record starts. -/
def fieldOffset (fields : List Bytes) (i : Nat) : Nat := ((fields.take i).map List.length).sum

/- An array of `n` octets of which `b` has been written. -/
def array (n : Nat) (b : Bytes) : Bytes := slice b 0 n

/- Integers as a little-endian machine keeps them. -/
def le16 (b : Bytes) (off : Nat) : UInt16 := be16 (slice b off 2).reverse 0
def le32 (b : Bytes) (off : Nat) : UInt32 := be32 (slice b off 4).reverse 0
def putLe16 (n : UInt16) : Bytes := (put16 n).reverse
def putLe32 (n : UInt32) : Bytes := (put32 n).reverse

/- `ntohl`, `ntohs` and their inverses on such a machine. -/
def ntohs (n : UInt16) : UInt16 := be16 (putLe16 n) 0
def ntohl (n : UInt32) : UInt32 := be32 (putLe32 n) 0

@[simp] theorem array_length (n : Nat) (b : Bytes) : (array n b).length = n := slice_length b 0 n
@[simp] theorem put16_length (n : UInt16) : (put16 n).length = 2 := rfl
@[simp] theorem put32_length (n : UInt32) : (put32 n).length = 4 := rfl
@[simp] theorem putLe16_length (n : UInt16) : (putLe16 n).length = 2 := rfl
@[simp] theorem putLe32_length (n : UInt32) : (putLe32 n).length = 4 := rfl

/-! ### Reading a field -/

theorem byteAt_slice (b : Bytes) (off len i : Nat) (h : i < len) :
    byteAt (slice b off len) i = byteAt b (off + i) := by
  by_cases hi : i < ((b.drop off).take len).length
  · rw [slice, byteAt_append_left _ _ _ hi, byteAt_take _ _ _ h, byteAt_drop]
  · have hlen : b.length ≤ off + i := by
      simp only [List.length_take, List.length_drop] at hi
      omega
    have hz : ∀ k, byteAt (zeros k) (i - ((b.drop off).take len).length) = 0 := fun k => by
      simp [byteAt, zeros, List.getD, List.getElem?_replicate]
      split <;> rfl
    simp only [slice, byteAt, List.getD, List.getElem?_append_right (Nat.not_lt.mp hi)]
    rw [List.getElem?_eq_none hlen]
    exact hz _

theorem byteAt_append_right (a b : Bytes) (i : Nat) (h : a.length ≤ i) :
    byteAt (a ++ b) i = byteAt b (i - a.length) := by
  simp [byteAt, List.getD, List.getElem?_append_right h]

theorem bytes_ext {a b : Bytes} (hlen : a.length = b.length)
    (h : ∀ i, i < a.length → byteAt a i = byteAt b i) : a = b := by
  refine List.ext_getElem hlen fun i h1 h2 => ?_
  have hi := h i h1
  simpa [byteAt, List.getD, h1, h2] using hi

theorem slice_slice (b : Bytes) (off len off' len' : Nat) (h : off' + len' ≤ len) :
    slice (slice b off len) off' len' = slice b (off + off') len' := by
  refine bytes_ext (by simp) fun i hi => ?_
  rw [slice_length] at hi
  rw [byteAt_slice _ _ _ _ hi, byteAt_slice _ _ _ _ (by omega), byteAt_slice _ _ _ _ hi,
    Nat.add_assoc]

theorem slice_append_right (a b : Bytes) (off len : Nat) :
    slice (a ++ b) (a.length + off) len = slice b off len := by
  simp only [slice, List.drop_length_add_append]

theorem slice_append_left (a b : Bytes) (off len : Nat) (h : off + len ≤ a.length) :
    slice (a ++ b) off len = slice a off len := by
  refine bytes_ext (by simp) fun i hi => ?_
  rw [slice_length] at hi
  rw [byteAt_slice _ _ _ _ hi, byteAt_slice _ _ _ _ hi, byteAt_append_left _ _ _ (by omega)]

theorem slice_append_slice (b : Bytes) (off m n : Nat) :
    slice b off m ++ slice b (off + m) n = slice b off (m + n) := by
  refine bytes_ext (by simp) fun i hi => ?_
  rw [List.length_append, slice_length, slice_length] at hi
  rw [byteAt_slice _ _ _ _ hi]
  by_cases him : i < m
  · rw [byteAt_append_left _ _ _ (by rw [slice_length]; exact him), byteAt_slice _ _ _ _ him]
  · rw [byteAt_append_right _ _ _ (by rw [slice_length]; omega), slice_length,
      byteAt_slice _ _ _ _ (by omega)]
    congr 1
    omega

theorem slice_self (b : Bytes) : slice b 0 b.length = b := by
  rw [slice_of_le b 0 b.length (by omega), List.drop_zero, List.take_length]

theorem slice_fields (fields : List Bytes) (i off len : Nat) (f : Bytes) (hf : fields[i]? = some f)
    (h : off + len ≤ f.length) :
    slice fields.flatten (fieldOffset fields i + off) len = slice f off len := by
  induction fields generalizing i with
  | nil => cases hf
  | cons g fields ih =>
    cases i with
    | zero =>
      obtain rfl : g = f := by simpa using hf
      have h0 : fieldOffset (g :: fields) 0 + off = off := by simp [fieldOffset]
      rw [h0, List.flatten_cons, slice_append_left _ _ _ _ h]
    | succ i =>
      have hi : fieldOffset (g :: fields) (i + 1) + off = g.length + (fieldOffset fields i + off) := by
        simp [fieldOffset, Nat.add_assoc]
      rw [hi, List.flatten_cons, slice_append_right]
      exact ih i hf

theorem slice_field (fields : List Bytes) {i off : Nat} {f : Bytes} (hf : fields[i]? = some f)
    (hoff : fieldOffset fields i = off) : slice fields.flatten off f.length = f := by
  have h := slice_fields fields i 0 f.length f hf (by omega)
  rwa [slice_self, Nat.add_zero, hoff] at h

/-! ### Integers -/

theorem be16_slice (b : Bytes) (off : Nat) : be16 b off = be16 (slice b off 2) 0 := by
  have h0 : byteAt (slice b off 2) 0 = byteAt b off := byteAt_slice b off 2 0 (by omega)
  have h1 : byteAt (slice b off 2) 1 = byteAt b (off + 1) := byteAt_slice b off 2 1 (by omega)
  rw [be16, be16, h0, Nat.zero_add, h1]

theorem be16_append_right (a b : Bytes) (i : Nat) : be16 (a ++ b) (a.length + i) = be16 b i := by
  rw [be16_slice, slice_append_right, ← be16_slice]

theorem be32_slice (b : Bytes) (off : Nat) : be32 b off = be32 (slice b off 4) 0 := by
  have h0 := be16_slice (slice b off 4) 0
  have h2 := be16_slice (slice b off 4) 2
  rw [slice_slice _ _ _ _ _ (by omega)] at h0 h2
  rw [Nat.add_zero] at h0
  rw [be32, be32, h0, Nat.zero_add, h2, be16_slice b off, be16_slice b (off + 2)]

theorem le16_slice (b : Bytes) (off : Nat) : le16 b off = le16 (slice b off 2) 0 := by
  rw [le16, le16, slice_slice _ _ _ _ _ (by omega), Nat.add_zero]

theorem le32_slice (b : Bytes) (off : Nat) : le32 b off = le32 (slice b off 4) 0 := by
  rw [le32, le32, slice_slice _ _ _ _ _ (by omega), Nat.add_zero]

@[simp] theorem be16_put16 (n : UInt16) : be16 (put16 n) 0 = n := by
  have hn := n.toNat_lt
  apply UInt16.toNat_inj.mp
  simp only [be16, put16, byteAt, List.getD_cons_zero, Nat.zero_add, List.getD_cons_succ,
    UInt8.toNat_ofNat', UInt16.toNat_ofNat']
  omega

theorem be16_put16_append (n : UInt16) (b : Bytes) : be16 (put16 n ++ b) 0 = n := by
  rw [be16_slice, slice_append_left (put16 n) b 0 2 (Nat.le_refl _), ← be16_slice, be16_put16]

@[simp] theorem be32_put32 (n : UInt32) : be32 (put32 n) 0 = n := by
  have hn := n.toNat_lt
  have h0 : be16 (put32 n) 0 = UInt16.ofNat (n.toNat / 65536) :=
    (be16_slice (put32 n) 0).trans (be16_put16 _)
  have h2 : be16 (put32 n) 2 = UInt16.ofNat n.toNat :=
    (be16_slice (put32 n) 2).trans (be16_put16 _)
  apply UInt32.toNat_inj.mp
  rw [be32, h0, Nat.zero_add, h2]
  simp only [UInt16.toNat_ofNat', UInt32.toNat_ofNat']
  omega

theorem put16_be16 (b : Bytes) (h : b.length = 2) : put16 (be16 b 0) = b := by
  match b, h with
  | [x, y], _ =>
    have hx := x.toNat_lt
    have hy := y.toNat_lt
    have hv : (be16 [x, y] 0).toNat = 256 * x.toNat + y.toNat := by
      simp only [be16, byteAt, List.getD_cons_zero, Nat.zero_add, List.getD_cons_succ,
        UInt16.toNat_ofNat']
      omega
    rw [put16, hv]
    refine congrArg₂ (fun a b => [a, b]) ?_ ?_ <;> apply UInt8.toNat_inj.mp <;>
      rw [UInt8.toNat_ofNat'] <;> omega

theorem put32_be32 (b : Bytes) (h : b.length = 4) : put32 (be32 b 0) = b := by
  match b, h with
  | [x, y, z, w], _ =>
    have h0 : be16 [x, y, z, w] 0 = be16 [x, y] 0 := rfl
    have h2 : be16 [x, y, z, w] 2 = be16 [z, w] 0 := rfl
    have hhi := (be16 [x, y] 0).toNat_lt
    have hlo := (be16 [z, w] 0).toNat_lt
    have hv : (be32 [x, y, z, w] 0).toNat
        = 65536 * (be16 [x, y] 0).toNat + (be16 [z, w] 0).toNat := by
      rw [be32, h0, Nat.zero_add, h2, UInt32.toNat_ofNat']
      omega
    have hi : UInt16.ofNat ((be32 [x, y, z, w] 0).toNat / 65536) = be16 [x, y] 0 := by
      apply UInt16.toNat_inj.mp
      rw [UInt16.toNat_ofNat', hv]
      omega
    have lo : UInt16.ofNat (be32 [x, y, z, w] 0).toNat = be16 [z, w] 0 := by
      apply UInt16.toNat_inj.mp
      rw [UInt16.toNat_ofNat', hv]
      omega
    rw [put32, hi, lo, put16_be16 _ rfl, put16_be16 _ rfl]
    rfl

@[simp] theorem put16_ntohs (n : UInt16) : put16 (ntohs n) = putLe16 n := put16_be16 _ rfl

@[simp] theorem put32_ntohl (n : UInt32) : put32 (ntohl n) = putLe32 n := put32_be32 _ rfl

@[simp] theorem le16_putLe16 (n : UInt16) : le16 (putLe16 n) 0 = n := be16_put16 n

@[simp] theorem le32_putLe32 (n : UInt32) : le32 (putLe32 n) 0 = n := be32_put32 n

end Xtls
