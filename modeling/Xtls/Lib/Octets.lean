import Mathlib.Data.List.Basic
import Mathlib.Data.List.TakeDrop

/-!
# Octet strings

Byte lists read as zero-filled buffers, big-endian integers, and the fixed-size overwrite of a
buffer.  A buffer is given by the bytes written into it so far; whatever lies behind them reads
as zero.
-/

namespace Xtls

abbrev Byte := UInt8
abbrev Bytes := List UInt8

def zeros (n : Nat) : Bytes := List.replicate n 0

/- One byte of a zero-filled buffer of which `b` has been written. -/
def byteAt (b : Bytes) (i : Nat) : Byte := b.getD i 0

/- `len` bytes from offset `off`, zero-filled behind the written part. -/
def slice (b : Bytes) (off len : Nat) : Bytes :=
  ((b.drop off).take len) ++ zeros (len - ((b.drop off).take len).length)

/- `memcpy` of `src` to the start of `buf`. -/
def overwrite (buf src : Bytes) : Bytes := src ++ buf.drop src.length

def be16 (b : Bytes) (off : Nat) : UInt16 :=
  UInt16.ofNat (256 * (byteAt b off).toNat + (byteAt b (off + 1)).toNat)

def be32 (b : Bytes) (off : Nat) : UInt32 :=
  UInt32.ofNat (65536 * (be16 b off).toNat + (be16 b (off + 2)).toNat)

def put16 (n : UInt16) : Bytes := [UInt8.ofNat (n.toNat / 256), UInt8.ofNat n.toNat]

def put24 (n : Nat) : Bytes :=
  [UInt8.ofNat (n / 65536), UInt8.ofNat (n / 256), UInt8.ofNat n]

def put32 (n : UInt32) : Bytes :=
  put16 (UInt16.ofNat (n.toNat / 65536)) ++ put16 (UInt16.ofNat n.toNat)

def put64 (n : UInt64) : Bytes :=
  put32 (UInt32.ofNat (n.toNat / 4294967296)) ++ put32 (UInt32.ofNat n.toNat)

def xorBytes (a b : Bytes) : Bytes := List.zipWith (· ^^^ ·) a b

@[simp] theorem zeros_length (n : Nat) : (zeros n).length = n := List.length_replicate

@[simp] theorem slice_length (b : Bytes) (off len : Nat) : (slice b off len).length = len := by
  simp only [slice, List.length_append, zeros_length, List.length_take, List.length_drop]
  omega

theorem slice_of_le (b : Bytes) (off len : Nat) (h : off + len ≤ b.length) :
    slice b off len = (b.drop off).take len := by
  have hl : ((b.drop off).take len).length = len := by
    simp only [List.length_take, List.length_drop]
    omega
  simp [slice, hl, zeros]

theorem byteAt_append_left (a b : Bytes) (i : Nat) (h : i < a.length) :
    byteAt (a ++ b) i = byteAt a i := by
  simp [byteAt, List.getD, List.getElem?_append_left h]

theorem byteAt_take (a : Bytes) (n i : Nat) (h : i < n) : byteAt (a.take n) i = byteAt a i := by
  simp [byteAt, List.getD, h]

theorem byteAt_drop (a : Bytes) (n i : Nat) : byteAt (a.drop n) i = byteAt a (n + i) := by
  simp [byteAt, List.getD, List.getElem?_drop]

end Xtls
