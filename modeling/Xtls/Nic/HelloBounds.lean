import Xtls.Nic.Extensions

/-!
# Where a ClientHello is read

The memory that `unpack_handshake`, `unpack_extensions` and the selections of `handle_handshake` touch
(`ssl.c` 1867-2007, 1700-1865, 514-561 and 2320-2346), as a list of accesses in the order of the source.
None of the lengths in the record is checked.
-/

namespace Xtls.Nic

/-! ### Accesses -/

/-- Bytes of the fragment that are read, a null pointer that is read, a copy into a field of `size` bytes. -/
inductive Access where
  | read (off len : Nat)
  | null
  | write (len size : Nat)

def Access.Within (fin : UInt16) : Access → Prop
  | read off len => off + len ≤ fin.toNat
  | null => False
  | write len size => len ≤ size

def sessionIdSize (pf : Bytes) : Nat := (byteAt pf 38).toNat

def cipherSuitesSize (pf : Bytes) : Nat := (be16 pf (39 + sessionIdSize pf)).toNat

def helloEnd (pf : Bytes) : Nat :=
  let methods := 41 + sessionIdSize pf + cipherSuitesSize pf
  methods + 1 + (byteAt pf methods).toNat

def firstExtension (pf : Bytes) : UInt16 := UInt16.ofNat (helloEnd pf + 2)

def fixedAccesses (pf : Bytes) : List Access :=
  [.read 0 1, .read 1 3, .read 4 2, .read 6 32, .read 38 1, .read 39 (sessionIdSize pf),
    .write (sessionIdSize pf) 32, .read (39 + sessionIdSize pf) 2,
    .read (41 + sessionIdSize pf + cipherSuitesSize pf) 1]

/- One round of `unpack_extensions`; the bodies that it skips are not read. -/
def roundAccesses (pf : Bytes) (offset : UInt16) : List Access :=
  let type := be16 pf offset.toNat
  [.read offset.toNat 2, .read (offset + 2).toNat 2]
    ++ if type = 0x000a ∨ type = 0x000d then [.read (offset + 4).toNat 2]
      else if type = 0x002b then [.read (offset + 4).toNat 1]
      else if type = 0x0033 then
        [.read (offset + 4).toNat 2, .read (offset + 6).toNat 2, .read (offset + 8).toNat 2]
      else []

def walkAccesses (pf : Bytes) (fin : UInt16) : Nat → UInt16 → List Access
  | 0, _ => []
  | fuel + 1, offset =>
    if offset < fin then roundAccesses pf offset ++ walkAccesses pf fin fuel (nextOffset pf offset) else []

def scanAccesses (pf : Bytes) (stop : Code2 → Bool) : Nat → Nat → List Access
  | _, 0 => []
  | off, n + 1 => .read off 2
    :: if stop ⟨byteAt pf off, byteAt pf (off + 1)⟩ then [] else scanAccesses pf stop (off + 2) n

def knownSuite (c : Code2) : Bool :=
  c = TLS_AES_256_GCM_SHA384 ∨ c = TLS_RSA_WITH_AES_256_GCM_SHA384 ∨ c = TLS_RSA_WITH_AES_256_CBC_SHA

def selectionAccesses (pf : Bytes) (ch : ClientHello) : List Access :=
  scanAccesses pf knownSuite (ch.cipherSuites.getD 0) (ch.cipherSuiteLength.toNat / 2)
    ++ scanAccesses pf (· = X25519) (ch.curvesList.getD 0) (ch.curvesListLength.toNat / 2)
    ++ scanAccesses pf (· = ECDSA_SECP256r1_SHA256) (ch.signatureAlgorithmList.getD 0)
      (ch.signatureAlgorithmListLength.toNat / 2)
    ++ [match ch.clientPubKey with
      | none => .null
      | some off => .read off x25519KeyLen]

/-- All accesses for a record whose fragment has `fin` bytes. -/
def helloAccesses (pf : Bytes) (fin : UInt16) : List Access :=
  fixedAccesses pf
    ++ (if fin.toNat ≤ helloEnd pf then []
      else .read (helloEnd pf) 2 :: if be16 pf (helloEnd pf) = 0 then []
        else walkAccesses pf fin 65537 (firstExtension pf))
    ++ match unpackClientHello pf fin.toNat with
      | .ok (some ch) => selectionAccesses pf ch
      | _ => []

/-! ### Lengths that fit -/

def headerSize (type : UInt16) : Nat :=
  if type = 0x000a ∨ type = 0x000d then 6 else if type = 0x002b then 5 else if type = 0x0033 then 10 else 4

/-- The codes of a list, up to the first one that is looked for, are inside. -/
def ListFits (pf : Bytes) (fin : UInt16) (stop : Code2 → Bool) (off n : Nat) : Prop :=
  ∀ i, i < n → (∀ j, j < i → ¬ stop ⟨byteAt pf (off + 2 * j), byteAt pf (off + 2 * j + 1)⟩) →
    off + 2 * i + 2 ≤ fin.toNat

structure SelectionFits (pf : Bytes) (fin : UInt16) (ch : ClientHello) : Prop where
  groups : ListFits pf fin (· = X25519) (ch.curvesList.getD 0) (ch.curvesListLength.toNat / 2)
  algorithms : ListFits pf fin (· = ECDSA_SECP256r1_SHA256) (ch.signatureAlgorithmList.getD 0)
    (ch.signatureAlgorithmListLength.toNat / 2)
  key : ∃ off, ch.clientPubKey = some off ∧ off + x25519KeyLen ≤ fin.toNat

/- The walk from `start` comes to its `k`th extension. -/
def Reached (pf : Bytes) (start fin : UInt16) (k : Nat) : Prop := ∀ i, i ≤ k → offsetAt pf start i < fin

/-- The `k`th extension is the last of its type. -/
structure LastOf (pf : Bytes) (start fin type : UInt16) (k : Nat) : Prop where
  reached : Reached pf start fin k
  isType : be16 pf (offsetAt pf start k).toNat = type
  last : ∀ m, k < m → Reached pf start fin m → be16 pf (offsetAt pf start m).toNat ≠ type

/- The list of the last extension of one type. -/
def ListOfTypeFits (pf : Bytes) (fin type : UInt16) (stop : Code2 → Bool) : Prop :=
  ∀ k, LastOf pf (firstExtension pf) fin type k →
    ListFits pf fin stop (offsetAt pf (firstExtension pf) k + 6).toNat
      ((be16 pf (offsetAt pf (firstExtension pf) k + 4).toNat).toNat / 2)

/-- There are extensions; the last groups and algorithms fit; there is a key share, and the last one fits. -/
structure ListsFit (pf : Bytes) (fin : UInt16) : Prop where
  extensions : be16 pf (helloEnd pf) ≠ 0
  groups : ListOfTypeFits pf fin 0x000a (· = X25519)
  algorithms : ListOfTypeFits pf fin 0x000d (· = ECDSA_SECP256r1_SHA256)
  key : ∃ k, LastOf pf (firstExtension pf) fin 0x0033 k
    ∧ (offsetAt pf (firstExtension pf) k + 10).toNat + x25519KeyLen ≤ fin.toNat

/-- The lengths of a ClientHello fit a fragment of `fin` bytes: the session id its field, the fixed part and
the header of every extension that the walk meets the fragment, and, if the walk ends, the lists and the key
that are selected from. -/
structure HelloFits (pf : Bytes) (fin : UInt16) : Prop where
  sessionId : sessionIdSize pf ≤ 32
  fixed : 42 + sessionIdSize pf + cipherSuitesSize pf ≤ fin.toNat
  extensions : helloEnd pf < fin.toNat → helloEnd pf + 2 ≤ fin.toNat
  headers : helloEnd pf < fin.toNat → be16 pf (helloEnd pf) ≠ 0 → ∀ k, Reached pf (firstExtension pf) fin k →
    (offsetAt pf (firstExtension pf) k).toNat + headerSize (be16 pf (offsetAt pf (firstExtension pf) k).toNat)
      ≤ fin.toNat
  lists : helloEnd pf < fin.toNat → be16 pf (helloEnd pf) = 0 ∨ ¬ Wraps pf (firstExtension pf) fin →
    ListsFit pf fin

section

variable {pf : Bytes} {fin offset : UInt16} {stop : Code2 → Bool}

def AllWithin (fin : UInt16) (accesses : List Access) : Prop := ∀ a ∈ accesses, a.Within fin

theorem allWithin_append {as bs : List Access} :
    AllWithin fin (as ++ bs) ↔ AllWithin fin as ∧ AllWithin fin bs := List.forall_mem_append

theorem allWithin_cons {a : Access} {as : List Access} :
    AllWithin fin (a :: as) ↔ a.Within fin ∧ AllWithin fin as := List.forall_mem_cons

theorem allWithin_nil : AllWithin fin [] := fun _ h => absurd h List.not_mem_nil

theorem fixedAccesses_within : AllWithin fin (fixedAccesses pf)
    ↔ sessionIdSize pf ≤ 32 ∧ 42 + sessionIdSize pf + cipherSuitesSize pf ≤ fin.toNat := by
  simp only [fixedAccesses, allWithin_cons, Access.Within, allWithin_nil, and_true]
  omega

theorem toNat_add_lit (offset n : UInt16) : (offset + n).toNat = (offset.toNat + n.toNat) % 65536 :=
  UInt16.toNat_add offset n

/- An offset that wraps has been preceded by a read behind the end. -/
theorem roundAccesses_within : AllWithin fin (roundAccesses pf offset)
    ↔ offset.toNat + headerSize (be16 pf offset.toNat) ≤ fin.toNat := by
  have hfin := fin.toNat_lt
  have htwo : (offset + 2).toNat = (offset.toNat + 2) % 65536 := toNat_add_lit offset 2
  have hfour : (offset + 4).toNat = (offset.toNat + 4) % 65536 := toNat_add_lit offset 4
  have hsix : (offset + 6).toNat = (offset.toNat + 6) % 65536 := toNat_add_lit offset 6
  have height : (offset + 8).toNat = (offset.toNat + 8) % 65536 := toNat_add_lit offset 8
  unfold roundAccesses headerSize
  dsimp only
  rw [allWithin_append]
  simp only [allWithin_cons, allWithin_nil, Access.Within, and_true]
  by_cases hlist : be16 pf offset.toNat = 0x000a ∨ be16 pf offset.toNat = 0x000d
  · simp only [if_pos hlist, allWithin_cons, allWithin_nil, Access.Within, and_true]
    omega
  rw [if_neg hlist, if_neg hlist]
  by_cases hversions : be16 pf offset.toNat = 0x002b
  · simp only [if_pos hversions, allWithin_cons, allWithin_nil, Access.Within, and_true]
    omega
  rw [if_neg hversions, if_neg hversions]
  by_cases hshare : be16 pf offset.toNat = 0x0033
  · simp only [if_pos hshare, allWithin_cons, allWithin_nil, Access.Within, and_true]
    omega
  · simp only [if_neg hshare, allWithin_nil, and_true]
    omega

theorem scanAccesses_within (off n : Nat) :
    AllWithin fin (scanAccesses pf stop off n) ↔ ListFits pf fin stop off n := by
  induction n generalizing off with
  | zero => exact ⟨fun _ i hi => absurd hi (Nat.not_lt_zero i), fun _ => allWithin_nil⟩
  | succ n ih =>
    unfold scanAccesses
    rw [allWithin_cons]
    by_cases hstop : stop ⟨byteAt pf off, byteAt pf (off + 1)⟩
    · -- the first code is the one that is looked for
      rw [if_pos hstop]
      constructor
      · rintro ⟨hfirst, -⟩ i hi hbefore
        cases i with
        | zero => exact hfirst
        | succ i => exact absurd hstop (hbefore 0 (by omega))
      · intro h
        exact ⟨h 0 (by omega) fun j hj => absurd hj (Nat.not_lt_zero j), allWithin_nil⟩
    · rw [if_neg hstop, ih]
      have hshift : ∀ j, off + 2 + 2 * j = off + 2 * (j + 1) := fun j => by omega
      constructor
      · rintro ⟨hfirst, h⟩ i hi hbefore
        cases i with
        | zero => exact hfirst
        | succ i =>
          rw [← hshift]
          refine h i (by omega) fun j hj => ?_
          rw [hshift]
          exact hbefore (j + 1) (by omega)
      · intro h
        refine ⟨h 0 (by omega) fun j hj => absurd hj (Nat.not_lt_zero j), fun i hi hbefore => ?_⟩
        rw [hshift]
        refine h (i + 1) (by omega) fun j hj => ?_
        cases j with
        | zero => exact hstop
        | succ j =>
          rw [← hshift]
          exact hbefore j (by omega)

theorem Reached.succ (hgo : offset < fin) {k : Nat} (h : Reached pf (nextOffset pf offset) fin k) :
    Reached pf offset fin (k + 1) := by
  intro i hi
  cases i with
  | zero => exact hgo
  | succ i =>
    rw [offsetAt_succ]
    exact h i (by omega)

theorem Reached.pred {k : Nat} (h : Reached pf offset fin (k + 1)) : Reached pf (nextOffset pf offset) fin k := by
  intro i hi
  rw [← offsetAt_succ]
  exact h (i + 1) (by omega)

theorem walkAccesses_within (fuel : Nat) (offset : UInt16) : AllWithin fin (walkAccesses pf fin fuel offset)
    ↔ ∀ k, k < fuel → Reached pf offset fin k →
      (offsetAt pf offset k).toNat + headerSize (be16 pf (offsetAt pf offset k).toNat) ≤ fin.toNat := by
  induction fuel generalizing offset with
  | zero => exact ⟨fun _ k hk => absurd hk (Nat.not_lt_zero k), fun _ => allWithin_nil⟩
  | succ fuel ih =>
    unfold walkAccesses
    by_cases hgo : offset < fin
    · rw [if_pos hgo, allWithin_append, roundAccesses_within, ih]
      constructor
      · rintro ⟨hfirst, h⟩ k hk hreached
        cases k with
        | zero => exact hfirst
        | succ k =>
          rw [offsetAt_succ]
          exact h k (by omega) hreached.pred
      · intro h
        refine ⟨h 0 (by omega) fun i hi => ?_, fun k hk hreached => ?_⟩
        · obtain rfl := Nat.le_zero.mp hi
          exact hgo
        · rw [← offsetAt_succ]
          exact h (k + 1) (by omega) (hreached.succ hgo)
    · rw [if_neg hgo]
      exact ⟨fun _ k _ hreached => absurd (hreached 0 (Nat.zero_le k)) hgo, fun _ => allWithin_nil⟩

theorem exists_early_offset (pf : Bytes) (offset : UInt16) (k : Nat) :
    ∃ m, m < 65536 ∧ m ≤ k ∧ offsetAt pf offset m = offsetAt pf offset k := by
  obtain ⟨m, hm, hle, heq⟩ := exists_early (nextOffset pf) offset k
  rw [card_uInt16] at hm
  exact ⟨m, hm, hle, heq⟩

/-! ### The fixed part -/

def fixedHello (pf : Bytes) : ClientHello where
  version := ⟨byteAt pf 4, byteAt pf 5⟩
  random := slice pf 6 32
  sessionIdLength := byteAt pf 38
  sessionId := overwrite (zeros 32) (slice pf 39 (sessionIdSize pf))
  cipherSuiteLength := be16 pf (39 + sessionIdSize pf)
  cipherSuites := if be16 pf (39 + sessionIdSize pf) = 0 then none else some (41 + sessionIdSize pf)
  compressionMethodLength := byteAt pf (41 + sessionIdSize pf + cipherSuitesSize pf)
  extensionsLength := be16 pf (helloEnd pf)

theorem unpackHelloFixed_ok (h : sessionIdSize pf ≤ 32) :
    unpackHelloFixed pf = .ok (helloEnd pf, { fixedHello pf with extensionsLength := 0 }) := by
  have hid : ¬ (byteAt pf 38).toNat > 32 := Nat.not_lt.mpr h
  have hsuites : 39 + (byteAt pf 38).toNat + 2 = 41 + (byteAt pf 38).toNat := by omega
  unfold unpackHelloFixed
  dsimp only
  rw [if_neg hid, hsuites]
  rfl

theorem unpackClientHello_eq (hid : sessionIdSize pf ≤ 32) (hend : helloEnd pf < fin.toNat) :
    unpackClientHello pf fin.toNat
      = match unpackExtensions pf (firstExtension pf) fin (fixedHello pf) with
        | none => .error .endless
        | some ch => .ok (some ch) := by
  unfold unpackClientHello
  rw [unpackHelloFixed_ok hid]
  show (if fin.toNat ≤ helloEnd pf then _ else _) = _
  rw [if_neg (by omega), UInt16.ofNat_toNat]
  show (match unpackExtensions pf (firstExtension pf) fin (fixedHello pf) with | none => _ | some ch => _) = _
  cases unpackExtensions pf (firstExtension pf) fin (fixedHello pf) <;> rfl

theorem unpackClientHello_short (hid : sessionIdSize pf ≤ 32) (h : fin.toNat ≤ helloEnd pf) :
    unpackClientHello pf fin.toNat = .ok none := by
  unfold unpackClientHello
  rw [unpackHelloFixed_ok hid]
  show (if fin.toNat ≤ helloEnd pf then _ else _) = _
  rw [if_pos h]
  rfl

theorem unpackClientHello_some {ch : ClientHello} (hid : sessionIdSize pf ≤ 32) :
    unpackClientHello pf fin.toNat = .ok (some ch)
      ↔ helloEnd pf < fin.toNat ∧ unpackExtensions pf (firstExtension pf) fin (fixedHello pf) = some ch := by
  by_cases hend : helloEnd pf < fin.toNat
  · rw [unpackClientHello_eq hid hend, and_iff_right hend]
    cases unpackExtensions pf (firstExtension pf) fin (fixedHello pf) with
    | none => exact ⟨fun h => absurd h nofun, fun h => absurd h nofun⟩
    | some ch' => exact ⟨fun h => congrArg some (Option.some.inj (Except.ok.inj h)), fun h => by rw [h]⟩
  · rw [unpackClientHello_short hid (Nat.not_lt.mp hend)]
    exact ⟨fun h => absurd h nofun, fun h => absurd h.1 hend⟩

theorem suites_within {ch : ClientHello} (hid : sessionIdSize pf ≤ 32)
    (hfixed : 42 + sessionIdSize pf + cipherSuitesSize pf ≤ fin.toNat)
    (h : unpackClientHello pf fin.toNat = .ok (some ch)) :
    ListFits pf fin knownSuite (ch.cipherSuites.getD 0) (ch.cipherSuiteLength.toNat / 2) := by
  obtain ⟨-, hext⟩ := (unpackClientHello_some hid).mp h
  have hfixed' := unpackExtensions_fixed hext
  have hsuites : ch.cipherSuites = (fixedHello pf).cipherSuites := (congrArg (fun x => x.2.1) hfixed' :)
  have hlen : ch.cipherSuiteLength = (fixedHello pf).cipherSuiteLength := (congrArg (fun x => x.2.2) hfixed' :)
  intro i hi _
  rw [hsuites, hlen] at *
  have hsize : (be16 pf (39 + sessionIdSize pf)).toNat = cipherSuitesSize pf := rfl
  simp only [fixedHello] at hi ⊢
  by_cases hzero : be16 pf (39 + sessionIdSize pf) = 0
  · rw [hzero] at hi
    exact absurd hi (Nat.not_lt_zero i)
  · rw [if_neg hzero, Option.getD_some]
    omega

theorem selectionAccesses_within (ch : ClientHello) : AllWithin fin (selectionAccesses pf ch)
    ↔ ListFits pf fin knownSuite (ch.cipherSuites.getD 0) (ch.cipherSuiteLength.toNat / 2)
      ∧ SelectionFits pf fin ch := by
  have hkey : AllWithin fin [match ch.clientPubKey with
      | none => Access.null
      | some off => .read off x25519KeyLen]
      ↔ ∃ off, ch.clientPubKey = some off ∧ off + x25519KeyLen ≤ fin.toNat := by
    rw [allWithin_cons]
    cases ch.clientPubKey with
    | none => simp [Access.Within, allWithin_nil]
    | some off => simp [Access.Within, allWithin_nil]
  unfold selectionAccesses
  rw [allWithin_append, allWithin_append, allWithin_append, scanAccesses_within, scanAccesses_within,
    scanAccesses_within, hkey]
  constructor
  · rintro ⟨⟨⟨hsuites, hgroups⟩, halgs⟩, hkey⟩
    exact ⟨hsuites, hgroups, halgs, hkey⟩
  · rintro ⟨hsuites, hgroups, halgs, hkey⟩
    exact ⟨⟨⟨hsuites, hgroups⟩, halgs⟩, hkey⟩

/-! ### What the walk leaves -/

theorem LastOf.succ {type : UInt16} {k : Nat} (hgo : offset < fin)
    (h : LastOf pf (nextOffset pf offset) fin type k) : LastOf pf offset fin type (k + 1) := by
  refine ⟨h.reached.succ hgo, by rw [offsetAt_succ]; exact h.isType, fun m hm hreached => ?_⟩
  cases m with
  | zero => omega
  | succ m =>
    rw [offsetAt_succ]
    exact h.last m (by omega) hreached.pred

theorem LastOf.unique {type : UInt16} {i j : Nat} (hi : LastOf pf offset fin type i)
    (hj : LastOf pf offset fin type j) : i = j := by
  rcases Nat.lt_trichotomy i j with hlt | heq | hgt
  · exact absurd hj.isType (hi.last j hlt hj.reached)
  · exact heq
  · exact absurd hi.isType (hj.last i hgt hi.reached)

theorem unpackExtensionsLoop_last {β : Type} (note : ClientHello → β) (value : UInt16 → β) {type : UInt16}
    (hset : ∀ offset ch, be16 pf offset.toNat = type → note (extensionStep pf offset ch).2 = value offset)
    (hkeep : ∀ offset ch, be16 pf offset.toNat ≠ type → note (extensionStep pf offset ch).2 = note ch)
    (fuel : Nat) {ch ch' : ClientHello} (h : unpackExtensionsLoop pf fin fuel offset ch = some ch') :
    (∃ k, LastOf pf offset fin type k ∧ note ch' = value (offsetAt pf offset k))
      ∨ (∀ k, ¬ LastOf pf offset fin type k) ∧ note ch' = note ch := by
  suffices hlast : (∃ k, LastOf pf offset fin type k ∧ note ch' = value (offsetAt pf offset k))
      ∨ (∀ k, Reached pf offset fin k → be16 pf (offsetAt pf offset k).toNat ≠ type) ∧ note ch' = note ch by
    exact hlast.imp_right fun ⟨hnone, hnote⟩ => ⟨fun k hk => hnone k hk.reached hk.isType, hnote⟩
  induction fuel generalizing offset ch with
  | zero => cases h
  | succ fuel ih =>
    unfold unpackExtensionsLoop at h
    split at h
    · rename_i hgo
      change unpackExtensionsLoop pf fin fuel (extensionStep pf offset ch).1
        (extensionStep pf offset ch).2 = _ at h
      rw [extensionStep_fst] at h
      rcases ih h with ⟨k, hk, hnote⟩ | ⟨hnone, hnote⟩
      · exact .inl ⟨k + 1, hk.succ hgo, by rw [offsetAt_succ]; exact hnote⟩
      · have hlater : ∀ m, Reached pf offset fin (m + 1) →
            be16 pf (offsetAt pf offset (m + 1)).toNat ≠ type := by
          intro m hm
          rw [offsetAt_succ]
          exact hnone m hm.pred
        by_cases htype : be16 pf offset.toNat = type
        · refine .inl ⟨0, ⟨fun i hi => ?_, htype, fun m hm hreached => ?_⟩, hnote.trans (hset offset ch htype)⟩
          · obtain rfl := Nat.le_zero.mp hi
            exact hgo
          · cases m with
            | zero => omega
            | succ m => exact hlater m hreached
        · refine .inr ⟨fun k hk => ?_, hnote.trans (hkeep offset ch htype)⟩
          cases k with
          | zero => exact htype
          | succ k => exact hlater k hk
    · rename_i hstop
      cases h
      exact .inr ⟨fun k hk => absurd (hk 0 (Nat.zero_le k)) hstop, rfl⟩

theorem extensionStep_kinds (pf : Bytes) (offset : UInt16) :
    be16 pf offset.toNat = 0x000a ∨ be16 pf offset.toNat = 0x000d ∨ be16 pf offset.toNat = 0x002b
      ∨ be16 pf offset.toNat = 0x0033 ∨ be16 pf offset.toNat ∉ [0x000a, 0x000d, 0x002b, 0x0033] := by
  simp only [List.mem_cons, List.not_mem_nil, or_false]
  tauto

theorem extensionStep_otherThanGroups (ch : ClientHello) (h : be16 pf offset.toNat ≠ 0x000a) :
    (extensionStep pf offset ch).2.curvesList = ch.curvesList
      ∧ (extensionStep pf offset ch).2.curvesListLength = ch.curvesListLength := by
  rcases extensionStep_kinds pf offset with hk | hk | hk | hk | hk
  · exact absurd hk h
  · rw [extensionStep_algorithms hk]
    exact ⟨rfl, rfl⟩
  · rw [extensionStep_versions hk]
    exact ⟨rfl, rfl⟩
  · rw [extensionStep_keyShare hk]
    exact ⟨rfl, rfl⟩
  · rw [extensionStep_nothing hk]
    exact ⟨rfl, rfl⟩

theorem extensionStep_otherThanAlgorithms (ch : ClientHello) (h : be16 pf offset.toNat ≠ 0x000d) :
    (extensionStep pf offset ch).2.signatureAlgorithmList = ch.signatureAlgorithmList
      ∧ (extensionStep pf offset ch).2.signatureAlgorithmListLength = ch.signatureAlgorithmListLength := by
  rcases extensionStep_kinds pf offset with hk | hk | hk | hk | hk
  · rw [extensionStep_groups hk]
    exact ⟨rfl, rfl⟩
  · exact absurd hk h
  · rw [extensionStep_versions hk]
    exact ⟨rfl, rfl⟩
  · rw [extensionStep_keyShare hk]
    exact ⟨rfl, rfl⟩
  · rw [extensionStep_nothing hk]
    exact ⟨rfl, rfl⟩

theorem extensionStep_otherThanKeyShare (ch : ClientHello) (h : be16 pf offset.toNat ≠ 0x0033) :
    (extensionStep pf offset ch).2.clientPubKey = ch.clientPubKey := by
  rcases extensionStep_kinds pf offset with hk | hk | hk | hk | hk
  · rw [extensionStep_groups hk]
  · rw [extensionStep_algorithms hk]
  · rw [extensionStep_versions hk]
  · exact absurd hk h
  · rw [extensionStep_nothing hk]

theorem listFits_last {type : UInt16} {list : Option Nat} {len : UInt16}
    (h : (∃ k, LastOf pf (firstExtension pf) fin type k
        ∧ (list, len) = (some (offsetAt pf (firstExtension pf) k + 6).toNat,
          be16 pf (offsetAt pf (firstExtension pf) k + 4).toNat))
      ∨ (∀ k, ¬ LastOf pf (firstExtension pf) fin type k) ∧ (list, len) = (none, 0)) :
    ListFits pf fin stop (list.getD 0) (len.toNat / 2) ↔ ListOfTypeFits pf fin type stop := by
  rcases h with ⟨k, hk, heq⟩ | ⟨hnone, heq⟩
  · obtain ⟨rfl, rfl⟩ := Prod.mk.inj heq
    constructor
    · intro hfits m hm
      obtain rfl := hk.unique hm
      exact hfits
    · exact fun hfits => hfits k hk
  · obtain ⟨rfl, rfl⟩ := Prod.mk.inj heq
    exact ⟨fun _ k hk => absurd hk (hnone k), fun _ i hi => absurd hi (Nat.not_lt_zero i)⟩

theorem selectionFits_iff {ch : ClientHello}
    (h : unpackExtensions pf (firstExtension pf) fin (fixedHello pf) = some ch) :
    SelectionFits pf fin ch ↔ ListsFit pf fin := by
  unfold unpackExtensions at h
  change (if be16 pf (helloEnd pf) = 0 then _ else _) = _ at h
  by_cases hzero : be16 pf (helloEnd pf) = 0
  · rw [if_pos hzero] at h
    cases h
    constructor
    · intro hs
      obtain ⟨off, hoff, -⟩ := hs.key
      cases hoff
    · exact fun hl => absurd hzero hl.extensions
  · rw [if_neg hzero] at h
    have hgroups := unpackExtensionsLoop_last (fun ch => (ch.curvesList, ch.curvesListLength))
      (fun offset => (some (offset + 6).toNat, be16 pf (offset + 4).toNat))
      (fun offset ch htype => by rw [extensionStep_groups htype])
      (fun offset ch htype => by
        obtain ⟨hlist, hlen⟩ := extensionStep_otherThanGroups ch htype
        rw [hlist, hlen]) 65537 h
    have halgs := unpackExtensionsLoop_last
      (fun ch => (ch.signatureAlgorithmList, ch.signatureAlgorithmListLength))
      (fun offset => (some (offset + 6).toNat, be16 pf (offset + 4).toNat))
      (fun offset ch htype => by rw [extensionStep_algorithms htype])
      (fun offset ch htype => by
        obtain ⟨hlist, hlen⟩ := extensionStep_otherThanAlgorithms ch htype
        rw [hlist, hlen]) 65537 h
    have hkey := unpackExtensionsLoop_last (fun ch => ch.clientPubKey) (fun offset => some (offset + 10).toNat)
      (fun offset ch htype => by rw [extensionStep_keyShare htype])
      (fun offset ch htype => extensionStep_otherThanKeyShare ch htype) 65537 h
    constructor
    · rintro ⟨hg, ha, off, hoff, hin⟩
      refine ⟨hzero, (listFits_last hgroups).mp hg, (listFits_last halgs).mp ha, ?_⟩
      rcases hkey with ⟨k, hk, heq⟩ | ⟨-, heq⟩
      · rw [hoff] at heq
        cases heq
        exact ⟨k, hk, hin⟩
      · rw [hoff] at heq
        cases heq
    · rintro ⟨-, hg, ha, k, hk, hin⟩
      refine ⟨(listFits_last hgroups).mpr hg, (listFits_last halgs).mpr ha, ?_⟩
      rcases hkey with ⟨m, hm, heq⟩ | ⟨hnone, -⟩
      · obtain rfl := hk.unique hm
        exact ⟨_, heq, hin⟩
      · exact absurd hk (hnone k)

theorem unpackExtensions_returns : (∃ ch, unpackExtensions pf (firstExtension pf) fin (fixedHello pf) = some ch)
    ↔ be16 pf (helloEnd pf) = 0 ∨ ¬ Wraps pf (firstExtension pf) fin := by
  rw [← Option.isSome_iff_exists, unpackExtensions_isSome]
  unfold Terminates
  rw [loop_terminates_iff, ends_iff, wraps_iff]
  rfl

theorem extensionAccesses_within : AllWithin fin (if fin.toNat ≤ helloEnd pf then []
      else .read (helloEnd pf) 2 :: if be16 pf (helloEnd pf) = 0 then []
        else walkAccesses pf fin 65537 (firstExtension pf))
    ↔ (helloEnd pf < fin.toNat → helloEnd pf + 2 ≤ fin.toNat)
      ∧ (helloEnd pf < fin.toNat → be16 pf (helloEnd pf) ≠ 0 → ∀ k, Reached pf (firstExtension pf) fin k →
        (offsetAt pf (firstExtension pf) k).toNat + headerSize (be16 pf (offsetAt pf (firstExtension pf) k).toNat)
          ≤ fin.toNat) := by
  by_cases hend : fin.toNat ≤ helloEnd pf
  · rw [if_pos hend]
    exact ⟨fun _ => ⟨fun h => absurd h (by omega), fun h => absurd h (by omega)⟩, fun _ => allWithin_nil⟩
  · have hlt : helloEnd pf < fin.toNat := Nat.lt_of_not_le hend
    simp only [if_neg hend, allWithin_cons, Access.Within, hlt, true_implies]
    refine and_congr_right fun _ => ?_
    by_cases hzero : be16 pf (helloEnd pf) = 0
    · rw [if_pos hzero]
      exact ⟨fun _ h => absurd hzero h, fun _ => allWithin_nil⟩
    · rw [if_neg hzero, walkAccesses_within]
      constructor
      · intro h _ k hreached
        obtain ⟨m, hm, hle, heq⟩ := exists_early_offset pf (firstExtension pf) k
        rw [← heq]
        exact h m (by omega) fun i hi => hreached i (by omega)
      · exact fun h k _ hreached => h hzero k hreached

theorem HelloFits.selection {ch : ClientHello} (hf : HelloFits pf fin)
    (h : unpackClientHello pf fin.toNat = .ok (some ch)) : SelectionFits pf fin ch := by
  obtain ⟨hend, hch⟩ := (unpackClientHello_some hf.sessionId).mp h
  exact (selectionFits_iff hch).mpr (hf.lists hend (unpackExtensions_returns.mp ⟨ch, hch⟩))

theorem helloAccesses_fit (pf : Bytes) (fin : UInt16) :
    AllWithin fin (helloAccesses pf fin) ↔ HelloFits pf fin := by
  unfold helloAccesses
  rw [allWithin_append, allWithin_append, fixedAccesses_within, extensionAccesses_within]
  constructor
  · rintro ⟨⟨⟨hid, hfixed⟩, hext, hheaders⟩, hselection⟩
    refine ⟨hid, hfixed, hext, hheaders, fun hend hreturns => ?_⟩
    obtain ⟨ch, hch⟩ := unpackExtensions_returns.mpr hreturns
    rw [(unpackClientHello_some hid).mpr ⟨hend, hch⟩] at hselection
    exact (selectionFits_iff hch).mp ((selectionAccesses_within ch).mp hselection).2
  · intro hf
    refine ⟨⟨⟨hf.sessionId, hf.fixed⟩, hf.extensions, hf.headers⟩, ?_⟩
    split
    · rename_i ch hch
      exact (selectionAccesses_within ch).mpr ⟨suites_within hf.sessionId hf.fixed hch, hf.selection hch⟩
    · exact allWithin_nil

/-! ### What the result depends on -/

/-- Memory with the same fragment. -/
def Agree (fin : UInt16) (pf pf' : Bytes) : Prop := ∀ i, i < fin.toNat → byteAt pf' i = byteAt pf i

variable {pf' : Bytes}

theorem Agree.slice (h : Agree fin pf pf') {off len : Nat} (hle : off + len ≤ fin.toNat) :
    slice pf' off len = slice pf off len := by
  refine bytes_ext (by rw [slice_length, slice_length]) fun i hi => ?_
  rw [slice_length] at hi
  rw [byteAt_slice _ _ _ _ hi, byteAt_slice _ _ _ _ hi]
  exact h (off + i) (by omega)

theorem Agree.be16 (h : Agree fin pf pf') {off : Nat} (hle : off + 2 ≤ fin.toNat) : be16 pf' off = be16 pf off := by
  rw [be16_slice, be16_slice pf, h.slice hle]

theorem Agree.extensionStep (h : Agree fin pf pf') (hw : AllWithin fin (roundAccesses pf offset)) (ch : ClientHello) :
    extensionStep pf' offset ch = extensionStep pf offset ch := by
  unfold roundAccesses at hw
  rw [allWithin_append] at hw
  simp only [allWithin_cons, allWithin_nil, Access.Within, and_true] at hw
  obtain ⟨⟨htype, hlen⟩, hw⟩ := hw
  have htype := h.be16 htype
  have hlen := h.be16 hlen
  -- the offset and the notes of the round, by the type of the extension
  refine Prod.ext ?_ ?_
  · rw [extensionStep_fst, extensionStep_fst]
    refine congrArg (fun n => offset + UInt16.ofNat n) ?_
    unfold itemSize
    rw [htype, hlen]
    dsimp only at hw ⊢
    split
    · rfl
    split at hw
    · rename_i hlist
      rw [if_pos hlist, if_pos hlist, h.be16 ((allWithin_cons.mp hw).1)]
    rename_i hlist
    rw [if_neg hlist, if_neg hlist]
    split at hw
    · rename_i hversions
      rw [if_pos hversions, if_pos hversions, h _ (allWithin_cons.mp hw).1]
    rename_i hversions
    rw [if_neg hversions, if_neg hversions]
    split at hw
    · rename_i hshare
      simp only [allWithin_cons, allWithin_nil, Access.Within, and_true] at hw
      rw [if_pos hshare, if_pos hshare, h.be16 hw.2.2]
    · rename_i hshare
      rw [if_neg hshare, if_neg hshare]
  · split at hw
    · rename_i hlist
      have hread := h.be16 (allWithin_cons.mp hw).1
      rcases hlist with hgroups | halgs
      · rw [extensionStep_groups (htype.trans hgroups), extensionStep_groups hgroups, hread]
      · rw [extensionStep_algorithms (htype.trans halgs), extensionStep_algorithms halgs, hread]
    · rename_i hlist
      split at hw
      · rename_i hversions
        rw [extensionStep_versions (htype.trans hversions), extensionStep_versions hversions,
          h _ (allWithin_cons.mp hw).1]
      · rename_i hversions
        split at hw
        · rename_i hshare
          simp only [allWithin_cons, allWithin_nil, Access.Within, and_true] at hw
          rw [extensionStep_keyShare (htype.trans hshare), extensionStep_keyShare hshare, h.be16 hw.1,
            h.be16 hw.2.1, h.be16 hw.2.2]
        · rename_i hshare
          have hunknown : Xtls.be16 pf offset.toNat ∉ [0x000a, 0x000d, 0x002b, 0x0033] := by
            simp only [List.mem_cons, List.not_mem_nil, or_false]
            tauto
          rw [extensionStep_nothing (by rw [htype]; exact hunknown), extensionStep_nothing hunknown]

theorem Agree.unpackExtensionsLoop (h : Agree fin pf pf') (fuel : Nat) (offset : UInt16) (ch : ClientHello)
    (hw : AllWithin fin (walkAccesses pf fin fuel offset)) :
    unpackExtensionsLoop pf' fin fuel offset ch = unpackExtensionsLoop pf fin fuel offset ch := by
  induction fuel generalizing offset ch with
  | zero => rfl
  | succ fuel ih =>
    unfold walkAccesses at hw
    unfold Nic.unpackExtensionsLoop
    split
    · rename_i hgo
      rw [if_pos hgo, allWithin_append] at hw
      rw [h.extensionStep hw.1]
      have hnext : AllWithin fin (walkAccesses pf fin fuel (Nic.extensionStep pf offset ch).1) := by
        rw [extensionStep_fst]
        exact hw.2
      exact ih _ _ hnext
    · rfl

theorem Agree.sizes (h : Agree fin pf pf') (hfixed : 42 + sessionIdSize pf + cipherSuitesSize pf ≤ fin.toNat) :
    sessionIdSize pf' = sessionIdSize pf ∧ cipherSuitesSize pf' = cipherSuitesSize pf
      ∧ helloEnd pf' = helloEnd pf := by
  have hid : sessionIdSize pf' = sessionIdSize pf := congrArg UInt8.toNat (h 38 (by omega))
  have hsuites : cipherSuitesSize pf' = cipherSuitesSize pf := by
    unfold cipherSuitesSize at hfixed ⊢
    rw [hid, h.be16 (by omega)]
  refine ⟨hid, hsuites, ?_⟩
  unfold helloEnd
  dsimp only
  rw [hid, hsuites, h _ (by omega)]

theorem Agree.fixedHello (h : Agree fin pf pf') (hfixed : 42 + sessionIdSize pf + cipherSuitesSize pf ≤ fin.toNat)
    (hext : helloEnd pf + 2 ≤ fin.toNat) : fixedHello pf' = fixedHello pf := by
  obtain ⟨hid, hsuites, hend⟩ := h.sizes hfixed
  unfold Nic.fixedHello
  rw [hid, hsuites, hend, h.slice (by omega), h.slice (by omega), h.be16 (by omega), h.be16 hext,
    h 4 (by omega), h 5 (by omega), h 38 (by omega), h _ (by omega)]

theorem find_agree {f f' : Nat → Code2} (n : Nat) (h : ∀ i, i < n → (∀ j, j < i → ¬ stop (f j)) → f' i = f i) :
    ((List.range n).map f').find? stop = ((List.range n).map f).find? stop := by
  induction n with
  | zero => rfl
  | succ n ih =>
    have ih := ih fun i hi => h i (by omega)
    rw [List.range_succ, List.map_append, List.map_append, List.find?_append, List.find?_append, ih]
    cases hfound : ((List.range n).map f).find? stop with
    | some c => rfl
    | none =>
      have hbefore : ∀ j, j < n → ¬ stop (f j) := fun j hj =>
        List.find?_eq_none.mp hfound (f j) (List.mem_map_of_mem (List.mem_range.mpr hj))
      rw [List.map_singleton, List.map_singleton, h n (by omega) hbefore]

theorem selectCode_find (wanted unknown : Code2) (cs : List Code2) :
    selectCode wanted unknown cs = (cs.find? (· = wanted)).getD unknown := by
  induction cs with
  | nil => rfl
  | cons c cs ih =>
    unfold selectCode
    by_cases hc : c = wanted
    · rw [if_pos hc, List.find?_cons_of_pos (by simpa using hc)]
      exact hc.symm
    · rw [if_neg hc, List.find?_cons_of_neg (by simpa using hc)]
      exact ih

theorem selectCipher_find (cs : List Code2) :
    selectCipher cs = (cs.find? knownSuite).getD TLS_NULL_WITH_NULL_NULL := by
  induction cs with
  | nil => rfl
  | cons c cs ih =>
    unfold selectCipher
    by_cases hc : knownSuite c
    · rw [List.find?_cons_of_pos hc]
      simp only [knownSuite, decide_eq_true_eq] at hc
      rcases hc with rfl | rfl | rfl <;> rfl
    · rw [List.find?_cons_of_neg hc, ← ih]
      simp only [knownSuite, decide_eq_true_eq, not_or] at hc
      rw [if_neg hc.1, if_neg hc.2.1, if_neg hc.2.2]

theorem Agree.codeList (h : Agree fin pf pf') {stop : Code2 → Bool} {off : Option Nat} {len : UInt16}
    (hfits : ListFits pf fin stop (off.getD 0) (len.toNat / 2)) :
    (codeList pf' off len).find? stop = (codeList pf off len).find? stop := by
  unfold Nic.codeList
  refine find_agree _ fun i hi hbefore => ?_
  have hin := hfits i hi hbefore
  rw [h _ (by omega), h _ (by omega)]

/-- What `handle_read_handshake` takes from a ClientHello besides its fields. -/
def selections (pf : Bytes) (ch : ClientHello) : Code2 × Code2 × Code2 × Bytes :=
  (selectCipher (codeList pf ch.cipherSuites ch.cipherSuiteLength),
    selectSupportedGroup (codeList pf ch.curvesList ch.curvesListLength),
    selectSignatureAlgorithm (codeList pf ch.signatureAlgorithmList ch.signatureAlgorithmListLength),
    slice pf (ch.clientPubKey.getD 0) x25519KeyLen)

theorem Agree.selections (h : Agree fin pf pf') {ch : ClientHello}
    (hsuites : ListFits pf fin knownSuite (ch.cipherSuites.getD 0) (ch.cipherSuiteLength.toNat / 2))
    (hsel : SelectionFits pf fin ch) : selections pf' ch = selections pf ch := by
  obtain ⟨off, hoff, hin⟩ := hsel.key
  unfold Nic.selections selectSupportedGroup selectSignatureAlgorithm
  rw [selectCipher_find, selectCipher_find, selectCode_find, selectCode_find, selectCode_find, selectCode_find,
    h.codeList hsuites, h.codeList hsel.groups, h.codeList hsel.algorithms, hoff, Option.getD_some, h.slice hin]

theorem HelloFits.unpackExtensions (hf : HelloFits pf fin) (h : Agree fin pf pf') (hend : helloEnd pf < fin.toNat) :
    unpackExtensions pf' (firstExtension pf) fin (fixedHello pf)
      = unpackExtensions pf (firstExtension pf) fin (fixedHello pf) := by
  unfold Nic.unpackExtensions
  split
  · rfl
  · rename_i hzero
    refine h.unpackExtensionsLoop _ _ _ ?_
    rw [walkAccesses_within]
    exact fun k _ hreached => hf.headers hend hzero k hreached

theorem HelloFits.agree (hf : HelloFits pf fin) (h : Agree fin pf pf') :
    unpackClientHello pf' fin.toNat = unpackClientHello pf fin.toNat
      ∧ ∀ ch, unpackClientHello pf fin.toNat = .ok (some ch) → selections pf' ch = selections pf ch := by
  obtain ⟨hid, -, hend⟩ := h.sizes hf.fixed
  have hid' : sessionIdSize pf' ≤ 32 := hid ▸ hf.sessionId
  constructor
  · by_cases hlt : helloEnd pf < fin.toNat
    · have hfirst : firstExtension pf' = firstExtension pf := congrArg (fun n => UInt16.ofNat (n + 2)) hend
      rw [unpackClientHello_eq hf.sessionId hlt, unpackClientHello_eq hid' (hend ▸ hlt), hfirst,
        h.fixedHello hf.fixed (hf.extensions hlt), hf.unpackExtensions h hlt]
    · rw [unpackClientHello_short hf.sessionId (Nat.not_lt.mp hlt),
        unpackClientHello_short hid' (hend ▸ Nat.not_lt.mp hlt)]
  · exact fun ch hch => h.selections (suites_within hf.sessionId hf.fixed hch) (hf.selection hch)

/-- A ClientHello is read inside its record, and the session id copied inside its field, exactly if its
lengths fit; what is read then decides the result. -/
theorem clientHello_inRecord (pf : Bytes) (fin : UInt16) :
    (AllWithin fin (helloAccesses pf fin) ↔ HelloFits pf fin)
      ∧ (HelloFits pf fin → ∀ pf', Agree fin pf pf' →
        unpackClientHello pf' fin.toNat = unpackClientHello pf fin.toNat
          ∧ ∀ ch, unpackClientHello pf fin.toNat = .ok (some ch) → selections pf' ch = selections pf ch) :=
  ⟨helloAccesses_fit pf fin, fun hf _ h => hf.agree h⟩

def helloWithoutKey : Bytes :=
  [1, 0, 0, 44, 3, 3] ++ zeros 32 ++ [0, 0, 0, 0, 0, 4, 0xff, 0xff, 0, 0]

def helloWithLongId : Bytes := [1, 0, 0, 196, 3, 3] ++ zeros 32 ++ [33] ++ zeros 161

/-- Without a key share the null pointer is read; a session id of 33 bytes is written past its field, and a
record of one byte read behind its end. -/
theorem clientHello_outside : ¬ AllWithin 48 (helloAccesses helloWithoutKey 48)
    ∧ ¬ AllWithin 200 (helloAccesses helloWithLongId 200) ∧ ¬ AllWithin 1 (helloAccesses [1] 1) := by
  simp only [helloAccesses_fit]
  refine ⟨fun h => ?_, fun h => ?_, fun h => ?_⟩
  · have hnone : ∃ ch, unpackClientHello helloWithoutKey 48 = .ok (some ch) ∧ ch.clientPubKey = none :=
      ⟨_, rfl, rfl⟩
    obtain ⟨ch, hch, hnone⟩ := hnone
    obtain ⟨off, hoff, -⟩ := (h.selection hch).key
    rw [hnone] at hoff
    cases hoff
  · exact absurd h.sessionId (by decide)
  · exact absurd h.fixed (by decide)

end

end Xtls.Nic
