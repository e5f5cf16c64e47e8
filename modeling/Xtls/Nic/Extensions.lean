import Mathlib.Algebra.BigOperators.Intervals
import Mathlib.Data.FinEnum
import Xtls.Lib.Layout
import Xtls.Lib.Orbit
import Xtls.Nic.Unpack

/-!
# Extensions of a ClientHello

The walk of `unpack_extensions` (`ssl.c` 1700-1865): where each round reads an extension and by how much
it moves on.  The offset is a 16-bit number, so that declared lengths can take it back; the walk ends if
the lengths never add up to a multiple of 2^16 (`unpackExtensions_ends`).
-/

namespace Xtls.Nic

/-! ### The walk -/

def skippedTypes : List UInt16 := [0x000b, 0x0023, 0x0010, 0x0016, 0x0017, 0x002d]

/-- By how much a round moves on: by the length of the extension or of the list in it, and by the header
alone if the type is not known. -/
def itemSize (pf : Bytes) (offset : UInt16) : Nat :=
  let type := be16 pf offset.toNat
  if type ∈ skippedTypes then 4 + (be16 pf (offset + 2).toNat).toNat
  else if type = 0x000a ∨ type = 0x000d then 6 + (be16 pf (offset + 4).toNat).toNat
  else if type = 0x002b then 5 + (byteAt pf (offset + 4).toNat).toNat
  else if type = 0x0033 then 10 + (be16 pf (offset + 8).toNat).toNat
  else 4

def nextOffset (pf : Bytes) (offset : UInt16) : UInt16 := offset + UInt16.ofNat (itemSize pf offset)

/-- The offset at the start of round `k`. -/
def offsetAt (pf : Bytes) (offset : UInt16) (k : Nat) : UInt16 := (nextOffset pf)^[k] offset

/- What the rounds from `i` to `j` move on by, before the offset is cut to 16 bits. -/
def declared (pf : Bytes) (offset : UInt16) (i j : Nat) : Nat :=
  ∑ k ∈ Finset.Ico i j, itemSize pf (offsetAt pf offset k)

section

variable {pf : Bytes} {offset fin : UInt16} {ch : ClientHello}

theorem mem_skippedTypes (type : UInt16) : type ∈ skippedTypes ↔ (type = 0x000b ∨ type = 0x0023
    ∨ type = 0x0010 ∨ type = 0x0016 ∨ type = 0x0017 ∨ type = 0x002d) := by
  simp only [skippedTypes, List.mem_cons, List.not_mem_nil, or_false]

theorem itemSize_skipped (h : be16 pf offset.toNat ∈ skippedTypes) :
    itemSize pf offset = 4 + (be16 pf (offset + 2).toNat).toNat := if_pos h

theorem itemSize_list (h : be16 pf offset.toNat = 0x000a ∨ be16 pf offset.toNat = 0x000d) :
    itemSize pf offset = 6 + (be16 pf (offset + 4).toNat).toNat := by
  have hskip : be16 pf offset.toNat ∉ skippedTypes := by
    rcases h with h | h <;> rw [h] <;> decide
  exact (if_neg hskip).trans (if_pos h)

theorem itemSize_versions (h : be16 pf offset.toNat = 0x002b) :
    itemSize pf offset = 5 + (byteAt pf (offset + 4).toNat).toNat := by
  unfold itemSize
  simp only [h, if_true]
  rfl

theorem itemSize_keyShare (h : be16 pf offset.toNat = 0x0033) :
    itemSize pf offset = 10 + (be16 pf (offset + 8).toNat).toNat := by
  unfold itemSize
  simp only [h, if_true]
  rfl

theorem itemSize_unknown (h : be16 pf offset.toNat ∉ skippedTypes)
    (h' : be16 pf offset.toNat ∉ [0x000a, 0x000d, 0x002b, 0x0033]) : itemSize pf offset = 4 := by
  simp only [List.mem_cons, List.not_mem_nil, or_false, not_or] at h'
  unfold itemSize
  simp only [h, h', if_false, or_self]

theorem extensionStep_fst (pf : Bytes) (offset : UInt16) (ch : ClientHello) :
    (extensionStep pf offset ch).1 = nextOffset pf offset := by
  have hlen : ∀ (a b n : UInt16), a + b + n = a + UInt16.ofNat (b.toNat + n.toNat) := fun a b n => by
    rw [UInt16.ofNat_add, UInt16.ofNat_toNat, UInt16.ofNat_toNat, UInt16.add_assoc]
  unfold extensionStep nextOffset itemSize
  simp only [← mem_skippedTypes]
  generalize be16 pf offset.toNat = type
  by_cases hskip : type ∈ skippedTypes
  · rw [if_pos hskip, if_pos hskip]
    exact hlen offset 4 _
  rw [if_neg hskip, if_neg hskip]
  have hlist : offset + 4 + 2 = offset + 6 := UInt16.add_assoc offset 4 2
  by_cases hgroups : type = 0x000a
  · rw [if_pos hgroups, if_pos (.inl hgroups), hlist]
    exact hlen offset 6 _
  rw [if_neg hgroups]
  by_cases halgs : type = 0x000d
  · rw [if_pos halgs, if_pos (.inr halgs), hlist]
    exact hlen offset 6 _
  rw [if_neg halgs, if_neg (not_or.mpr ⟨hgroups, halgs⟩)]
  by_cases hversions : type = 0x002b
  · have hone : offset + 4 + 1 = offset + 5 := UInt16.add_assoc offset 4 1
    rw [if_pos hversions, if_pos hversions, hone, UInt16.ofNat_add, ← UInt16.add_assoc]
    rfl
  rw [if_neg hversions, if_neg hversions]
  by_cases hshare : type = 0x0033
  · have hkey : offset + 4 + 6 = offset + 10 := UInt16.add_assoc offset 4 6
    have hshares : offset + 4 + 4 = offset + 8 := UInt16.add_assoc offset 4 4
    rw [if_pos hshare, if_pos hshare, hkey, hshares]
    exact hlen offset 10 _
  · rw [if_neg hshare, if_neg hshare]
    rfl

/-! ### What a round notes -/

theorem extensionStep_groups (h : be16 pf offset.toNat = 0x000a) : (extensionStep pf offset ch).2
    = { ch with
        curvesListLength := be16 pf (offset + 4).toNat, curvesList := some (offset + 6).toNat } := by
  have hlist : offset + 4 + 2 = offset + 6 := UInt16.add_assoc offset 4 2
  unfold extensionStep
  simp only [h, hlist]
  rfl

theorem extensionStep_algorithms (h : be16 pf offset.toNat = 0x000d) : (extensionStep pf offset ch).2
    = { ch with
        signatureAlgorithmListLength := be16 pf (offset + 4).toNat
        signatureAlgorithmList := some (offset + 6).toNat } := by
  have hlist : offset + 4 + 2 = offset + 6 := UInt16.add_assoc offset 4 2
  unfold extensionStep
  simp only [h, hlist]
  rfl

theorem extensionStep_versions (h : be16 pf offset.toNat = 0x002b) : (extensionStep pf offset ch).2
    = { ch with versionsLength := byteAt pf (offset + 4).toNat, versions := some (offset + 5).toNat } := by
  have hone : offset + 4 + 1 = offset + 5 := UInt16.add_assoc offset 4 1
  unfold extensionStep
  simp only [h, hone]
  rfl

theorem extensionStep_keyShare (h : be16 pf offset.toNat = 0x0033) : (extensionStep pf offset ch).2
    = { ch with
        keyShareLength := be16 pf (offset + 4).toNat, curveType := be16 pf (offset + 6).toNat
        pubKeyLength := be16 pf (offset + 8).toNat, clientPubKey := some (offset + 10).toNat } := by
  have hcurve : offset + 4 + 2 = offset + 6 := UInt16.add_assoc offset 4 2
  have hlen : offset + 4 + 4 = offset + 8 := UInt16.add_assoc offset 4 4
  have hkey : offset + 4 + 6 = offset + 10 := UInt16.add_assoc offset 4 6
  unfold extensionStep
  simp only [h, hcurve, hlen, hkey]
  rfl

theorem extensionStep_nothing (h : be16 pf offset.toNat ∉ [0x000a, 0x000d, 0x002b, 0x0033]) :
    (extensionStep pf offset ch).2 = ch := by
  simp only [List.mem_cons, List.not_mem_nil, or_false, not_or] at h
  unfold extensionStep
  dsimp only
  split
  · rfl
  · rw [if_neg h.1, if_neg h.2.1, if_neg h.2.2.1, if_neg h.2.2.2]

def ClientHello.fixedPart (ch : ClientHello) : Bytes × Option Nat × UInt16 :=
  (ch.sessionId, ch.cipherSuites, ch.cipherSuiteLength)

theorem extensionStep_fixed (pf : Bytes) (offset : UInt16) (ch : ClientHello) :
    (extensionStep pf offset ch).2.fixedPart = ch.fixedPart := by
  unfold extensionStep
  dsimp only
  split
  · rfl
  split
  · rfl
  split
  · rfl
  split
  · rfl
  split
  · rfl
  · rfl

theorem unpackExtensions_fixed {ch ch' : ClientHello} (h : unpackExtensions pf offset fin ch = some ch') :
    ch'.fixedPart = ch.fixedPart := by
  have hloop : ∀ (fuel : Nat) (offset : UInt16) (ch : ClientHello),
      unpackExtensionsLoop pf fin fuel offset ch = some ch' → ch'.fixedPart = ch.fixedPart := by
    intro fuel
    induction fuel with
    | zero => exact fun _ _ h => absurd h nofun
    | succ fuel ih =>
      intro offset ch h
      unfold unpackExtensionsLoop at h
      split at h
      · exact (ih _ _ h).trans (extensionStep_fixed pf offset ch)
      · cases h
        rfl
  unfold unpackExtensions at h
  split at h
  · cases h
    rfl
  · exact hloop _ _ _ h

theorem offsetAt_succ (pf : Bytes) (offset : UInt16) (k : Nat) :
    offsetAt pf offset (k + 1) = offsetAt pf (nextOffset pf offset) k := Function.iterate_succ_apply ..

theorem unpackExtensionsLoop_isSome (fuel : Nat) (offset : UInt16) (ch : ClientHello) :
    (unpackExtensionsLoop pf fin fuel offset ch).isSome ↔ ∃ n, n < fuel ∧ ¬ offsetAt pf offset n < fin := by
  induction fuel generalizing offset ch with
  | zero =>
    simp [unpackExtensionsLoop]
  | succ fuel ih =>
    unfold unpackExtensionsLoop
    by_cases hend : offset < fin
    · rw [if_pos hend]
      dsimp only
      rw [ih, extensionStep_fst]
      constructor
      · rintro ⟨n, hn, hstop⟩
        exact ⟨n + 1, by omega, by rwa [offsetAt_succ]⟩
      · rintro ⟨n, hn, hstop⟩
        cases n with
        | zero => exact absurd hend hstop
        | succ n => exact ⟨n, by omega, by rwa [offsetAt_succ] at hstop⟩
    · rw [if_neg hend]
      exact ⟨fun _ => ⟨0, by omega, hend⟩, fun _ => rfl⟩

theorem card_uInt16 : Fintype.card UInt16 = 65536 := by
  have hequiv : UInt16 ≃ Fin 65536 := ⟨UInt16.toFin, UInt16.ofFin, fun _ => rfl, fun _ => rfl⟩
  rw [Fintype.card_congr hequiv, Fintype.card_fin]

/-! ### When the walk ends -/

theorem offsetAt_add (pf : Bytes) (offset : UInt16) {i j : Nat} (h : i ≤ j) :
    offsetAt pf offset j = offsetAt pf offset i + UInt16.ofNat (declared pf offset i j) := by
  induction j, h using Nat.le_induction with
  | base =>
    unfold declared
    rw [Finset.Ico_self, Finset.sum_empty]
    exact (UInt16.add_zero _).symm
  | succ j h ih =>
    have hstep : offsetAt pf offset (j + 1) = nextOffset pf (offsetAt pf offset j) :=
      Function.iterate_succ_apply' ..
    unfold declared at ih ⊢
    rw [hstep, Finset.sum_Ico_succ_top h, UInt16.ofNat_add, ← UInt16.add_assoc, ← ih]
    rfl

/-- The lengths declared from one extension to another take the offset back to where it was. -/
def Wraps (pf : Bytes) (offset fin : UInt16) : Prop :=
  ∃ i j, i < j ∧ (∀ k, k ≤ j → offsetAt pf offset k < fin) ∧ 65536 ∣ declared pf offset i j

theorem wraps_iff : Wraps pf offset fin ↔ Returns (nextOffset pf) (fun o => ¬ o < fin) offset := by
  have hback : ∀ i j, i < j → (65536 ∣ declared pf offset i j ↔ offsetAt pf offset j = offsetAt pf offset i) := by
    intro i j hij
    rw [offsetAt_add pf offset (Nat.le_of_lt hij)]
    constructor
    · intro hdvd
      have hzero : UInt16.ofNat (declared pf offset i j) = 0 := by
        apply UInt16.toNat_inj.mp
        rw [UInt16.toNat_ofNat']
        exact Nat.mod_eq_zero_of_dvd hdvd
      rw [hzero, UInt16.add_zero]
    · intro heq
      have hzero : UInt16.ofNat (declared pf offset i j) = 0 := by
        grind
      have hmod := congrArg UInt16.toNat hzero
      rw [UInt16.toNat_ofNat'] at hmod
      exact Nat.dvd_of_mod_eq_zero hmod
  constructor
  · rintro ⟨i, j, hij, hgo, hdvd⟩
    exact ⟨i, j, hij, fun k hk => not_not.mpr (hgo k hk), (hback i j hij).mp hdvd⟩
  · rintro ⟨i, j, hij, hgo, heq⟩
    exact ⟨i, j, hij, fun k hk => not_not.mp (hgo k hk), (hback i j hij).mpr heq⟩

/- Some number of rounds is enough. -/
def Terminates (pf : Bytes) (offset fin : UInt16) (ch : ClientHello) : Prop :=
  ch.extensionsLength = 0 ∨ ∃ fuel, (unpackExtensionsLoop pf fin fuel offset ch).isSome

theorem loop_terminates_iff : (∃ fuel, (unpackExtensionsLoop pf fin fuel offset ch).isSome)
    ↔ Ends (nextOffset pf) (fun o => ¬ o < fin) offset := by
  constructor
  · rintro ⟨fuel, h⟩
    obtain ⟨n, -, hn⟩ := (unpackExtensionsLoop_isSome fuel offset ch).mp h
    exact ⟨n, hn⟩
  · rintro ⟨n, hn⟩
    exact ⟨n + 1, (unpackExtensionsLoop_isSome (n + 1) offset ch).mpr ⟨n, by omega, hn⟩⟩

theorem unpackExtensions_isSome : (unpackExtensions pf offset fin ch).isSome ↔ Terminates pf offset fin ch := by
  unfold unpackExtensions Terminates
  by_cases hnone : ch.extensionsLength = 0
  · rw [if_pos hnone]
    exact ⟨fun _ => .inl hnone, fun _ => rfl⟩
  · rw [if_neg hnone, or_iff_right hnone]
    refine ⟨fun h => ⟨65537, h⟩, fun h => ?_⟩
    obtain ⟨n, hn, hstop⟩ := (loop_terminates_iff.mp h).within
    rw [card_uInt16] at hn
    exact (unpackExtensionsLoop_isSome 65537 offset ch).mpr ⟨n, by omega, hstop⟩

/-- `unpack_extensions` ends, for whatever bytes, unless the lengths that it is led by add up to a multiple
of 2^16 before the end is reached. -/
theorem unpackExtensions_ends (pf : Bytes) (offset fin : UInt16) (ch : ClientHello) :
    (Terminates pf offset fin ch ↔ ch.extensionsLength = 0 ∨ ¬ Wraps pf offset fin)
      ∧ ((unpackExtensions pf offset fin ch).isSome ↔ Terminates pf offset fin ch) := by
  refine ⟨?_, unpackExtensions_isSome⟩
  unfold Terminates
  rw [loop_terminates_iff, ends_iff, wraps_iff]

/- An extension of 65532 bytes and its header are 2^16 bytes. -/
theorem skippedExtension_endless : ¬ Terminates [0x00, 0x0b, 0xff, 0xfc] 0 8 { extensionsLength := 8 } := by
  have hback : ∀ k, offsetAt [0x00, 0x0b, 0xff, 0xfc] 0 k = 0 := by
    intro k
    induction k with
    | zero => rfl
    | succ k ih =>
      rw [offsetAt_succ]
      exact ih
  rintro (h | ⟨fuel, h⟩)
  · cases h
  · obtain ⟨n, -, hn⟩ := (unpackExtensionsLoop_isSome fuel 0 _).mp h
    rw [hback n] at hn
    exact hn (by decide)

end

end Xtls.Nic
