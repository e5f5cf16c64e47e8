import Mathlib.Data.Nat.Digits.Defs
import Mathlib.Data.Nat.Digits.Lemmas
import Xtls.Lib.Octets

/-!
# Numbers as octets

The value of a byte string in either order, and the bytes of a number at a given width.
-/

namespace Xtls

def leValue (b : Bytes) : Nat := Nat.ofDigits 256 (b.map UInt8.toNat)

def beValue (b : Bytes) : Nat := leValue b.reverse

/-- The lowest `w` bytes of a number, the lowest first. -/
def leBytes : Nat → Nat → Bytes
  | 0, _ => []
  | w + 1, n => UInt8.ofNat n :: leBytes w (n / 256)

/-- The same bytes, the highest first. -/
def beBytes (w n : Nat) : Bytes := (leBytes w n).reverse

section

variable {b : Bytes}

@[simp] theorem leBytes_length (w n : Nat) : (leBytes w n).length = w := by
  induction w generalizing n with
  | zero => rfl
  | succ w ih => rw [leBytes, List.length_cons, ih]

theorem leValue_cons (x : Byte) (b : Bytes) : leValue (x :: b) = x.toNat + 256 * leValue b :=
  Nat.ofDigits_cons ..

theorem leBytes_leValue (b : Bytes) : leBytes b.length (leValue b) = b := by
  induction b with
  | nil => rfl
  | cons x b ih =>
    have hx := x.toNat_lt
    have hdiv : (x.toNat + 256 * leValue b) / 256 = leValue b := by omega
    have hlow : UInt8.ofNat (x.toNat + 256 * leValue b) = x := by
      rw [← UInt8.toNat_inj, UInt8.toNat_ofNat']
      omega
    rw [List.length_cons, leValue_cons, leBytes, hdiv, hlow, ih]

theorem leValue_leBytes {w n : Nat} (h : n < 256 ^ w) : leValue (leBytes w n) = n := by
  induction w generalizing n with
  | zero =>
    have hn : n = 0 := by
      rw [Nat.pow_zero] at h
      omega
    rw [hn]
    rfl
  | succ w ih =>
    have hdiv : n / 256 < 256 ^ w := by
      rw [Nat.pow_succ] at h
      omega
    rw [leBytes, leValue_cons, ih hdiv, UInt8.toNat_ofNat']
    omega

@[simp] theorem beBytes_length (w n : Nat) : (beBytes w n).length = w := by
  rw [beBytes, List.length_reverse, leBytes_length]

theorem beValue_beBytes {w n : Nat} (h : n < 256 ^ w) : beValue (beBytes w n) = n := by
  rw [beValue, beBytes, List.reverse_reverse, leValue_leBytes h]

theorem put16_eq {n : Nat} (h : n < 65536) : put16 (UInt16.ofNat n) = beBytes 2 n := by
  have hto : (UInt16.ofNat n).toNat = n := by
    rw [UInt16.toNat_ofNat']
    omega
  rw [put16, hto]
  rfl

theorem put24_eq (n : Nat) : put24 n = beBytes 3 n := by
  have hdiv : n / 256 / 256 = n / 65536 := Nat.div_div_eq_div_mul ..
  rw [put24, ← hdiv]
  rfl

theorem leValue_append (a b : Bytes) : leValue (a ++ b) = leValue a + 256 ^ a.length * leValue b := by
  rw [leValue, List.map_append, Nat.ofDigits_append, List.length_map]
  rfl

theorem beValue_cons (x : Byte) (b : Bytes) : beValue (x :: b) = 256 ^ b.length * x.toNat + beValue b := by
  have hone : leValue [x] = x.toNat := by simp [leValue]
  rw [beValue, List.reverse_cons, leValue_append, List.length_reverse, hone, beValue]
  omega

theorem beValue_zero_cons (b : Bytes) : beValue (0 :: b) = beValue b := by
  rw [beValue_cons]
  exact (Nat.zero_add _)

theorem beValue_dropWhile (b : Bytes) : beValue (b.dropWhile (· == 0)) = beValue b := by
  induction b with
  | nil => rfl
  | cons x b ih =>
    rw [List.dropWhile_cons]
    split
    · rename_i hx
      rw [ih, beq_iff_eq.mp hx, beValue_zero_cons]
    · rfl

end

end Xtls
