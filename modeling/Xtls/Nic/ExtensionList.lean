import Xtls.Nic.Extensions

/-!
# Well-formed extension lists

The extensions of a ClientHello as RFC 8446, section 4.2, encodes them, and what `unpack_extensions` finds
in them.  The branch for unknown types does not move behind the body, and the one for key shares reads one
share.
-/

namespace Xtls.Nic

/-! ### Encoding -/

structure KeyShareEntry where
  group : UInt16
  keyExchange : Bytes
  deriving DecidableEq

def KeyShareEntry.encode (e : KeyShareEntry) : Bytes :=
  put16 e.group ++ put16 (UInt16.ofNat e.keyExchange.length) ++ e.keyExchange

inductive Extension where
  | supportedGroups (groups : List Code2)
  | signatureAlgorithms (algorithms : List Code2)
  | supportedVersions (versions : List Code2)
  | keyShare (shares : List KeyShareEntry)
  | other (type : UInt16) (body : Bytes)
  deriving DecidableEq

namespace Extension

def type : Extension → UInt16
  | supportedGroups _ => 0x000a
  | signatureAlgorithms _ => 0x000d
  | supportedVersions _ => 0x002b
  | keyShare _ => 0x0033
  | other type _ => type

def codes (list : List Code2) : Bytes := list.flatMap fun c => [c.c0, c.c1]

def body : Extension → Bytes
  | supportedGroups list | signatureAlgorithms list => put16 (UInt16.ofNat (2 * list.length)) ++ codes list
  | supportedVersions list => [UInt8.ofNat (2 * list.length)] ++ codes list
  | keyShare shares =>
    put16 (UInt16.ofNat (shares.flatMap KeyShareEntry.encode).length) ++ shares.flatMap KeyShareEntry.encode
  | other _ body => body

def encode (e : Extension) : Bytes := put16 e.type ++ put16 (UInt16.ofNat e.body.length) ++ e.body

/- The lengths fit their fields, and another type is none of the four. -/
def WellFormed (e : Extension) : Prop :=
  e.body.length < 65536 ∧ match e with
    | supportedVersions list => 2 * list.length < 256
    | other type _ => type ∉ [0x000a, 0x000d, 0x002b, 0x0033]
    | _ => True

instance (e : Extension) : Decidable e.WellFormed :=
  match e with
  | supportedVersions _ => inferInstanceAs (Decidable (_ ∧ _))
  | other _ _ => inferInstanceAs (Decidable (_ ∧ _))
  | supportedGroups _ => inferInstanceAs (Decidable (_ ∧ True))
  | signatureAlgorithms _ => inferInstanceAs (Decidable (_ ∧ True))
  | keyShare _ => inferInstanceAs (Decidable (_ ∧ True))

/-- The extensions that a round of the loop takes as a whole. -/
def Plain : Extension → Prop
  | keyShare shares => shares.length = 1
  | other type body => type ∈ skippedTypes ∨ body = []
  | _ => True

instance (e : Extension) : Decidable e.Plain :=
  match e with
  | keyShare shares => inferInstanceAs (Decidable (shares.length = 1))
  | other _ _ => inferInstanceAs (Decidable (_ ∨ _))
  | supportedGroups _ => inferInstanceAs (Decidable True)
  | signatureAlgorithms _ => inferInstanceAs (Decidable True)
  | supportedVersions _ => inferInstanceAs (Decidable True)

end Extension

/-- A well-formed extension list: no two extensions have the same type. -/
structure ExtensionBlock where
  exts : List Extension
  wellFormed : ∀ e ∈ exts, e.WellFormed
  nodup : (exts.map Extension.type).Nodup

def encodeAll (exts : List Extension) : Bytes := exts.flatMap Extension.encode

/-! ### What is to be found -/

namespace Extension

def groups? : Extension → Option (List Code2)
  | supportedGroups list => some list
  | _ => none

def algorithms? : Extension → Option (List Code2)
  | signatureAlgorithms list => some list
  | _ => none

def versions? : Extension → Option (List Code2)
  | supportedVersions list => some list
  | _ => none

def x25519Key? : Extension → Option Bytes
  | keyShare shares => (shares.find? (·.group = 0x001d)).map (·.keyExchange)
  | _ => none

end Extension

/-- `new` is read as what the extensions carry; if they carry nothing, it is what was there before. -/
def Taken {β γ : Type} (exts : List Extension) (carried : Extension → Option β) (read : γ → β) (old new : γ) : Prop :=
  match exts.findSome? carried with
  | some b => read new = b
  | none => new = old

def ClientHello.x25519Key (pf : Bytes) (ch : ClientHello) : Option Bytes :=
  if ch.curveType = 0x001d then some (slice pf (ch.clientPubKey.getD 0) ch.pubKeyLength.toNat) else none

def readCodes (pf : Bytes) (list : Option Nat × UInt16) : List Code2 := codeList pf list.1 list.2

/-- `ch` holds what the extensions carry, and elsewhere what `ch0` held. -/
structure Found (pf : Bytes) (exts : List Extension) (ch0 ch : ClientHello) : Prop where
  groups : Taken exts Extension.groups? (readCodes pf)
    (ch0.curvesList, ch0.curvesListLength) (ch.curvesList, ch.curvesListLength)
  algorithms : Taken exts Extension.algorithms? (readCodes pf)
    (ch0.signatureAlgorithmList, ch0.signatureAlgorithmListLength)
    (ch.signatureAlgorithmList, ch.signatureAlgorithmListLength)
  versions : Taken exts Extension.versions? (readCodes pf)
    (ch0.versions, UInt16.ofNat ch0.versionsLength.toNat) (ch.versions, UInt16.ofNat ch.versionsLength.toNat)
  key : ch.x25519Key pf = exts.findSome? Extension.x25519Key?

/-! ### One round -/

/-- What a round notes of an extension that starts at `start`. -/
def Extension.found (start : Nat) (ch : ClientHello) : Extension → ClientHello
  | supportedGroups list =>
    { ch with curvesListLength := UInt16.ofNat (2 * list.length), curvesList := some (start + 6) }
  | signatureAlgorithms list =>
    { ch with
      signatureAlgorithmListLength := UInt16.ofNat (2 * list.length)
      signatureAlgorithmList := some (start + 6) }
  | supportedVersions list =>
    { ch with versionsLength := UInt8.ofNat (2 * list.length), versions := some (start + 5) }
  | keyShare (share :: shares) =>
    { ch with
      keyShareLength := UInt16.ofNat ((share :: shares).flatMap KeyShareEntry.encode).length
      curveType := share.group
      pubKeyLength := UInt16.ofNat share.keyExchange.length
      clientPubKey := some (start + 10) }
  | keyShare [] | other _ _ => ch

/-- By how much a round that starts at an extension moves on. -/
def Extension.stride (post : Bytes) : Extension → Nat
  | supportedGroups list | signatureAlgorithms list => 6 + 2 * list.length
  | supportedVersions list => 5 + 2 * list.length
  | keyShare (share :: _) => 10 + share.keyExchange.length
  | keyShare [] => 10 + (be16 post 2).toNat
  | other type body => if type ∈ skippedTypes then 4 + body.length else 4

section

variable {pre post tail : Bytes} {ch : ClientHello} {e : Extension}

theorem toNat_offset {a i : Nat} (h : a + i < 65536) : (UInt16.ofNat a + UInt16.ofNat i).toNat = a + i := by
  rw [← UInt16.ofNat_add, UInt16.toNat_ofNat', Nat.mod_eq_of_lt h]

theorem read16 {i : Nat} (h : pre.length + i < 65536) :
    be16 (pre ++ tail) (UInt16.ofNat pre.length + UInt16.ofNat i).toNat = be16 tail i := by
  rw [toNat_offset h, be16_append_right]

theorem codes_length (list : List Code2) : (Extension.codes list).length = 2 * list.length := by
  induction list with
  | nil => rfl
  | cons c list ih =>
    simp only [Extension.codes, List.flatMap_cons, List.length_append, List.length_cons, List.length_nil] at ih ⊢
    omega

theorem Extension.encode_length (e : Extension) : e.encode.length = 4 + e.body.length := by
  simp only [encode, List.length_append, put16_length]

theorem Extension.encode_append (e : Extension) (post : Bytes) :
    e.encode ++ post = put16 e.type ++ (put16 (UInt16.ofNat e.body.length) ++ (e.body ++ post)) := by
  simp only [encode, List.append_assoc]

theorem Extension.read_type (e : Extension) (post : Bytes) : be16 (e.encode ++ post) 0 = e.type := by
  rw [encode_append, be16_put16_append]

theorem Extension.read_length (e : Extension) (post : Bytes) :
    be16 (e.encode ++ post) 2 = UInt16.ofNat e.body.length := by
  rw [encode_append]
  exact (be16_append_right (put16 e.type) _ 0).trans (be16_put16_append _ _)

theorem Extension.read_body (e : Extension) (post : Bytes) (i : Nat) :
    be16 (e.encode ++ post) (4 + i) = be16 (e.body ++ post) i := by
  rw [encode_append, ← List.append_assoc]
  exact be16_append_right (put16 e.type ++ put16 (UInt16.ofNat e.body.length)) (e.body ++ post) i

theorem toNat_ofNat_of_lt {n : Nat} (h : n < 65536) : (UInt16.ofNat n).toNat = n := by
  rw [UInt16.toNat_ofNat', Nat.mod_eq_of_lt h]

theorem list_lengths {list : List Code2}
    (h : (put16 (UInt16.ofNat (2 * list.length)) ++ Extension.codes list).length < 65536) :
    2 * list.length < 65534 := by
  rw [List.length_append, put16_length, codes_length] at h
  omega

theorem read_versions {list : List Code2} (h : pre.length + 4 < 65536) :
    byteAt (pre ++ ((Extension.supportedVersions list).encode ++ post)) (UInt16.ofNat pre.length + 4).toNat
      = UInt8.ofNat (2 * list.length) := by
  have hoffset : (UInt16.ofNat pre.length + 4).toNat = pre.length + 4 := toNat_offset h
  rw [hoffset, byteAt_append_right _ _ _ (by omega), Nat.add_sub_cancel_left, Extension.encode_append]
  rfl

theorem keyShare_append (share : KeyShareEntry) (shares : List KeyShareEntry) (post : Bytes) :
    (Extension.keyShare (share :: shares)).body ++ post
      = put16 (UInt16.ofNat ((share :: shares).flatMap KeyShareEntry.encode).length) ++ (put16 share.group
        ++ (put16 (UInt16.ofNat share.keyExchange.length)
          ++ (share.keyExchange ++ (shares.flatMap KeyShareEntry.encode ++ post)))) := by
  simp only [Extension.body, List.flatMap_cons, KeyShareEntry.encode, List.append_assoc]

theorem read_group (share : KeyShareEntry) (shares : List KeyShareEntry) (post : Bytes) :
    be16 ((Extension.keyShare (share :: shares)).body ++ post) 2 = share.group := by
  rw [keyShare_append]
  exact (be16_append_right (put16 _) _ 0).trans (be16_put16_append _ _)

theorem read_share (share : KeyShareEntry) (shares : List KeyShareEntry) (post : Bytes) :
    be16 ((Extension.keyShare (share :: shares)).body ++ post) 4 = UInt16.ofNat share.keyExchange.length := by
  rw [keyShare_append]
  exact (be16_append_right (put16 _) _ 2).trans
    ((be16_append_right (put16 share.group) _ 0).trans (be16_put16_append _ _))

theorem keyShare_length (share : KeyShareEntry) (shares : List KeyShareEntry) :
    (Extension.keyShare (share :: shares)).body.length
      = 6 + share.keyExchange.length + (shares.flatMap KeyShareEntry.encode).length := by
  simp only [Extension.body, List.flatMap_cons, KeyShareEntry.encode, List.length_append, put16_length]
  omega

theorem type_at (e : Extension) (post : Bytes) (h : pre.length < 65536) :
    be16 (pre ++ (e.encode ++ post)) (UInt16.ofNat pre.length).toNat = e.type := by
  rw [toNat_ofNat_of_lt h, ← e.read_type post]
  exact be16_append_right pre _ 0

theorem list_at (e : Extension) (post : Bytes) (h : pre.length + 4 < 65536) :
    be16 (pre ++ (e.encode ++ post)) (UInt16.ofNat pre.length + 4).toNat = be16 (e.body ++ post) 0 :=
  (read16 h).trans (e.read_body post 0)

theorem read_list (list : List Code2) (post : Bytes) :
    be16 (put16 (UInt16.ofNat (2 * list.length)) ++ Extension.codes list ++ post) 0
      = UInt16.ofNat (2 * list.length) := by
  rw [List.append_assoc, be16_put16_append]

theorem itemSize_extension (he : e.WellFormed) (h : pre.length + 8 < 65536) :
    itemSize (pre ++ (e.encode ++ post)) (UInt16.ofNat pre.length) = e.stride post := by
  have htype := type_at e post (Nat.lt_of_le_of_lt (Nat.le_add_right pre.length 8) h)
  have hlist := list_at e post (show pre.length + 4 < 65536 by omega)
  have hlen : be16 (pre ++ (e.encode ++ post)) (UInt16.ofNat pre.length + 2).toNat = UInt16.ofNat e.body.length :=
    (read16 (i := 2) (by omega)).trans (e.read_length post)
  have hkey : be16 (pre ++ (e.encode ++ post)) (UInt16.ofNat pre.length + 8).toNat = be16 (e.body ++ post) 4 :=
    (read16 (i := 8) (by omega)).trans (e.read_body post 4)
  obtain ⟨hbody, he⟩ := he
  cases e with
  | supportedGroups list =>
    have hread : be16 ((Extension.supportedGroups list).body ++ post) 0 = UInt16.ofNat (2 * list.length) :=
      read_list list post
    have hlt := list_lengths hbody
    rw [itemSize_list (.inl htype), hlist, hread, toNat_ofNat_of_lt (by omega)]
    rfl
  | signatureAlgorithms list =>
    have hread : be16 ((Extension.signatureAlgorithms list).body ++ post) 0 = UInt16.ofNat (2 * list.length) :=
      read_list list post
    have hlt := list_lengths hbody
    rw [itemSize_list (.inr htype), hlist, hread, toNat_ofNat_of_lt (by omega)]
    rfl
  | supportedVersions list =>
    rw [itemSize_versions htype, read_versions (by omega), UInt8.toNat_ofNat', Nat.mod_eq_of_lt he]
    rfl
  | keyShare shares =>
    rw [itemSize_keyShare htype, hkey]
    cases shares with
    | nil =>
      have hread : be16 ((Extension.keyShare []).body ++ post) 4 = be16 post 2 := be16_append_right [0, 0] post 2
      rw [hread]
      rfl
    | cons share shares =>
      rw [keyShare_length] at hbody
      rw [read_share, toNat_ofNat_of_lt (by omega)]
      rfl
  | other type body =>
    show _ = if type ∈ skippedTypes then 4 + body.length else 4
    by_cases hskip : type ∈ skippedTypes
    · rw [if_pos hskip, itemSize_skipped (by rw [htype]; exact hskip), hlen, toNat_ofNat_of_lt hbody]
      rfl
    · rw [if_neg hskip]
      exact itemSize_unknown (by rw [htype]; exact hskip) (by rw [htype]; exact he)

theorem extensionStep_plain (he : e.WellFormed) (hplain : e.Plain) (h : pre.length + 10 < 65536) :
    (extensionStep (pre ++ (e.encode ++ post)) (UInt16.ofNat pre.length) ch).2 = e.found pre.length ch := by
  have htype := type_at e post (Nat.lt_of_le_of_lt (Nat.le_add_right pre.length 10) h)
  have hlist := list_at e post (show pre.length + 4 < 65536 by omega)
  have hfive : (UInt16.ofNat pre.length + 5).toNat = pre.length + 5 := toNat_offset (i := 5) (by omega)
  have hsix : (UInt16.ofNat pre.length + 6).toNat = pre.length + 6 := toNat_offset (i := 6) (by omega)
  have hten : (UInt16.ofNat pre.length + 10).toNat = pre.length + 10 := toNat_offset (i := 10) (by omega)
  cases e with
  | supportedGroups list =>
    have hread : be16 ((Extension.supportedGroups list).body ++ post) 0 = UInt16.ofNat (2 * list.length) :=
      read_list list post
    rw [extensionStep_groups htype, hlist, hread, hsix]
    rfl
  | signatureAlgorithms list =>
    have hread : be16 ((Extension.signatureAlgorithms list).body ++ post) 0 = UInt16.ofNat (2 * list.length) :=
      read_list list post
    rw [extensionStep_algorithms htype, hlist, hread, hsix]
    rfl
  | supportedVersions list =>
    rw [extensionStep_versions htype, read_versions (by omega), hfive]
    rfl
  | keyShare shares =>
    obtain ⟨share, rfl⟩ := List.length_eq_one_iff.mp hplain
    have hcurve : be16 (pre ++ ((Extension.keyShare [share]).encode ++ post)) (UInt16.ofNat pre.length + 6).toNat
        = share.group := (read16 (i := 6) (by omega)).trans
      ((Extension.read_body _ post 2).trans (read_group share [] post))
    have hlen : be16 (pre ++ ((Extension.keyShare [share]).encode ++ post)) (UInt16.ofNat pre.length + 8).toNat
        = UInt16.ofNat share.keyExchange.length := (read16 (i := 8) (by omega)).trans
      ((Extension.read_body _ post 4).trans (read_share share [] post))
    have hread : be16 ((Extension.keyShare [share]).body ++ post) 0
        = UInt16.ofNat ([share].flatMap KeyShareEntry.encode).length := by
      rw [Extension.body, List.append_assoc, be16_put16_append]
    rw [extensionStep_keyShare htype, hlist, hread, hcurve, hlen, hten]
    rfl
  | other type body =>
    rw [extensionStep_nothing (by rw [htype]; exact he.2)]
    rfl

/-! ### What the rounds find -/

theorem codeList_append (a b : Bytes) (list : List Code2) (h : 2 * list.length < 65536) :
    codeList (a ++ (Extension.codes list ++ b)) (some a.length) (UInt16.ofNat (2 * list.length)) = list := by
  have hcodes : ∀ (list : List Code2) (a : Bytes), (List.range list.length).map (fun i =>
      (⟨byteAt (a ++ (Extension.codes list ++ b)) (a.length + 2 * i),
        byteAt (a ++ (Extension.codes list ++ b)) (a.length + 2 * i + 1)⟩ : Code2)) = list := by
    intro list
    induction list with
    | nil => exact fun _ => rfl
    | cons c list ih =>
      intro a
      have hsplit : a ++ (Extension.codes (c :: list) ++ b) = (a ++ [c.c0, c.c1]) ++ (Extension.codes list ++ b) := by
        simp only [Extension.codes, List.flatMap_cons, List.append_assoc]
      have hfirst : ∀ i, i < 2 → byteAt ((a ++ [c.c0, c.c1]) ++ (Extension.codes list ++ b)) (a.length + i)
          = byteAt [c.c0, c.c1] i := by
        intro i hi
        rw [List.append_assoc, byteAt_append_right _ _ _ (by omega), Nat.add_sub_cancel_left]
        exact byteAt_append_left _ _ _ hi
      rw [List.length_cons, List.range_succ_eq_map, List.map_cons, List.map_map, hsplit]
      refine List.cons_eq_cons.mpr ⟨Code2.mk.injEq .. ▸ ⟨hfirst 0 (by omega), hfirst 1 (by omega)⟩, ?_⟩
      refine Eq.trans (List.map_congr_left fun i _ => ?_) (ih (a ++ [c.c0, c.c1]))
      have hnext : a.length + 2 * (i + 1) = (a ++ [c.c0, c.c1]).length + 2 * i := by
        rw [List.length_append]
        show _ = a.length + 2 + 2 * i
        omega
      rw [Function.comp_apply, Nat.succ_eq_add_one, hnext]
  unfold codeList
  rw [toNat_ofNat_of_lt h, Nat.mul_div_cancel_left _ (by omega)]
  exact hcodes list a

variable {exts : List Extension} {ch0 : ClientHello}

section

variable {β γ : Type} {carried : Extension → Option β} {read : γ → β} {old new : γ}

theorem Taken.keep (h : Taken exts carried read old new) (hnone : carried e = none) :
    Taken (exts ++ [e]) carried read old new := by
  unfold Taken at h ⊢
  rw [List.findSome?_append, List.findSome?_singleton, hnone, Option.or_none]
  exact h

theorem Taken.take {b : β} (hnone : ∀ x ∈ exts, carried x = none) (hb : carried e = some b) (hread : read new = b) :
    Taken (exts ++ [e]) carried read old new := by
  unfold Taken
  rw [List.findSome?_append, List.findSome?_singleton, hb, List.findSome?_eq_none_iff.mpr hnone, Option.none_or]
  exact hread

end

variable {pf : Bytes}

theorem readCodes_list (list : List Code2) (type len : UInt16) (h : 2 * list.length < 65536)
    (hpf : pf = pre ++ (put16 type ++ put16 len ++ (put16 (UInt16.ofNat (2 * list.length)) ++ Extension.codes list)
      ++ post)) : readCodes pf (some (pre.length + 6), UInt16.ofNat (2 * list.length)) = list := by
  have hread := codeList_append (pre ++ put16 type ++ put16 len ++ put16 (UInt16.ofNat (2 * list.length))) post list h
  simp only [List.length_append, put16_length, List.append_assoc] at hread
  simp only [hpf, readCodes, List.append_assoc]
  exact hread

theorem slice_share {share : KeyShareEntry} (hpf : pf = pre ++ ((Extension.keyShare [share]).encode ++ post))
    (h : (Extension.keyShare [share]).body.length < 65536) :
    slice pf (pre.length + 10) (UInt16.ofNat share.keyExchange.length).toNat = share.keyExchange := by
  have hlen := keyShare_length share []
  have hkey : ∀ a : Bytes, slice (a ++ (share.keyExchange ++ post)) a.length share.keyExchange.length
      = share.keyExchange := fun a => (slice_append_right a _ 0 _).trans
    ((slice_append_left _ _ 0 _ (by omega)).trans (slice_self share.keyExchange))
  have hslice := hkey (pre ++ put16 0x0033 ++ put16 (UInt16.ofNat (Extension.keyShare [share]).body.length)
      ++ put16 (UInt16.ofNat ([share].flatMap KeyShareEntry.encode).length) ++ put16 share.group
      ++ put16 (UInt16.ofNat share.keyExchange.length))
  rw [toNat_ofNat_of_lt (by omega), hpf, Extension.encode_append, keyShare_append]
  simp only [List.length_append, put16_length, List.append_assoc, Extension.type, List.flatMap_nil,
    List.nil_append] at hslice ⊢
  exact hslice

theorem Found.snoc (h : Found pf exts ch0 ch) (hpf : pf = pre ++ (e.encode ++ post)) (he : e.WellFormed)
    (hplain : e.Plain) (hnew : ∀ x ∈ exts, x.type ≠ e.type) : Found pf (exts ++ [e]) ch0 (e.found pre.length ch) := by
  have hkey : e.x25519Key? = none →
      exts.findSome? Extension.x25519Key? = (exts ++ [e]).findSome? Extension.x25519Key? :=
    fun hnone => by rw [List.findSome?_append, List.findSome?_singleton, hnone, Option.or_none]
  obtain ⟨hbody, he⟩ := he
  cases e with
  | supportedGroups list =>
    have hnone : ∀ x ∈ exts, x.groups? = none := by
      intro x hx
      have htype := hnew x hx
      cases x with
      | supportedGroups _ => exact absurd rfl htype
      | _ => rfl
    have hlt := list_lengths hbody
    exact ⟨.take hnone rfl (readCodes_list list _ _ (by omega) hpf), h.algorithms.keep rfl, h.versions.keep rfl,
      h.key.trans (hkey rfl)⟩
  | signatureAlgorithms list =>
    have hnone : ∀ x ∈ exts, x.algorithms? = none := by
      intro x hx
      have htype := hnew x hx
      cases x with
      | signatureAlgorithms _ => exact absurd rfl htype
      | _ => rfl
    have hlt := list_lengths hbody
    exact ⟨h.groups.keep rfl, .take hnone rfl (readCodes_list list _ _ (by omega) hpf), h.versions.keep rfl,
      h.key.trans (hkey rfl)⟩
  | supportedVersions list =>
    have hnone : ∀ x ∈ exts, x.versions? = none := by
      intro x hx
      have htype := hnew x hx
      cases x with
      | supportedVersions _ => exact absurd rfl htype
      | _ => rfl
    have hread : readCodes pf (some (pre.length + 5), UInt16.ofNat (UInt8.ofNat (2 * list.length)).toNat) = list := by
      have hread := codeList_append (pre ++ put16 0x002b
        ++ put16 (UInt16.ofNat (Extension.supportedVersions list).body.length) ++ [UInt8.ofNat (2 * list.length)])
        post list (by omega)
      simp only [List.length_append, put16_length, List.append_assoc] at hread
      rw [UInt8.toNat_ofNat', Nat.mod_eq_of_lt he, hpf]
      simp only [readCodes, Extension.encode, Extension.body, List.append_assoc] at hread ⊢
      exact hread
    exact ⟨h.groups.keep rfl, h.algorithms.keep rfl, .take hnone rfl hread, h.key.trans (hkey rfl)⟩
  | keyShare shares =>
    obtain ⟨share, rfl⟩ := List.length_eq_one_iff.mp hplain
    have hnone : ∀ x ∈ exts, x.x25519Key? = none := by
      intro x hx
      have htype := hnew x hx
      cases x with
      | keyShare _ => exact absurd rfl htype
      | _ => rfl
    refine ⟨h.groups.keep rfl, h.algorithms.keep rfl, h.versions.keep rfl, ?_⟩
    rw [List.findSome?_append, List.findSome?_singleton, List.findSome?_eq_none_iff.mpr hnone, Option.none_or]
    show (if share.group = 0x001d then some (slice pf (pre.length + 10) (UInt16.ofNat share.keyExchange.length).toNat)
      else none) = ([share].find? (·.group = 0x001d)).map (·.keyExchange)
    by_cases hgroup : share.group = 0x001d
    · rw [if_pos hgroup, List.find?_cons_of_pos (by simpa using hgroup), slice_share hpf hbody]
      rfl
    · rw [if_neg hgroup, List.find?_cons_of_neg (by simpa using hgroup)]
      rfl
  | other type body =>
    exact ⟨h.groups.keep rfl, h.algorithms.keep rfl, h.versions.keep rfl, h.key.trans (hkey rfl)⟩

/-! ### The walk -/

theorem encodeAll_cons (e : Extension) (es : List Extension) : encodeAll (e :: es) = e.encode ++ encodeAll es :=
  List.flatMap_cons ..

theorem be16_encodeAll_le {es : List Extension} (hes : ∀ x ∈ es, x.WellFormed) :
    (be16 (encodeAll es) 2).toNat ≤ (encodeAll es).length := by
  cases es with
  | nil => exact Nat.zero_le _
  | cons x es =>
    have hlen := (hes x (.head _)).1
    rw [encodeAll_cons, x.read_length, toNat_ofNat_of_lt hlen, List.length_append, x.encode_length]
    omega

/-- A round moves from an extension to the next one exactly if it takes the extension as a whole. -/
theorem stride_eq_iff {es : List Extension} (he : e.WellFormed) (hes : ∀ x ∈ es, x.WellFormed)
    (h : pre.length + e.encode.length + (encodeAll es).length + 8 ≤ 65536) :
    UInt16.ofNat (pre.length + e.stride (encodeAll es)) = UInt16.ofNat (pre.length + e.encode.length) ↔ e.Plain := by
  have hmod : UInt16.ofNat (pre.length + e.stride (encodeAll es)) = UInt16.ofNat (pre.length + e.encode.length)
      ↔ (pre.length + e.stride (encodeAll es)) % 65536 = pre.length + e.encode.length := by
    rw [← UInt16.toNat_inj, UInt16.toNat_ofNat', toNat_ofNat_of_lt (by omega)]
  rw [hmod]
  rw [Extension.encode_length] at h ⊢
  cases e with
  | supportedGroups list =>
    have hlen : (Extension.supportedGroups list).body.length = 2 + 2 * list.length := by
      rw [Extension.body, List.length_append, put16_length, codes_length]
    simp only [Extension.stride, Extension.Plain, iff_true]
    omega
  | signatureAlgorithms list =>
    have hlen : (Extension.signatureAlgorithms list).body.length = 2 + 2 * list.length := by
      rw [Extension.body, List.length_append, put16_length, codes_length]
    simp only [Extension.stride, Extension.Plain, iff_true]
    omega
  | supportedVersions list =>
    have hlen : (Extension.supportedVersions list).body.length = 1 + 2 * list.length := by
      rw [Extension.body, List.length_append, codes_length]
      rfl
    simp only [Extension.stride, Extension.Plain, iff_true]
    omega
  | keyShare shares =>
    cases shares with
    | nil =>
      have hnext := be16_encodeAll_le hes
      have hlen : (Extension.keyShare []).body.length = 2 := rfl
      simp only [Extension.stride, Extension.Plain, List.length_nil]
      omega
    | cons share shares =>
      rw [keyShare_length] at h ⊢
      simp only [Extension.stride, Extension.Plain, List.length_cons]
      cases shares with
      | nil =>
        simp only [List.flatMap_nil, List.length_nil, Nat.zero_add, iff_true] at h ⊢
        omega
      | cons next shares =>
        have hnext : 4 ≤ ((next :: shares).flatMap KeyShareEntry.encode).length := by
          simp only [List.flatMap_cons, KeyShareEntry.encode, List.length_append, put16_length]
          omega
        simp only [List.length_cons]
        omega
  | other type body =>
    have hempty : body = [] ↔ body.length = 0 := List.length_eq_zero_iff.symm
    simp only [Extension.stride, Extension.Plain, Extension.body, hempty] at h ⊢
    by_cases hskip : type ∈ skippedTypes
    · simp only [hskip, if_true, true_or, iff_true]
      omega
    · simp only [hskip, if_false, false_or]
      omega

/-- The walk goes from each extension to the next one, and from the last one to the end. -/
def AtExtensions (pf pre : Bytes) (exts : List Extension) : Prop :=
  ∀ k, k ≤ exts.length →
    offsetAt pf (UInt16.ofNat pre.length) k = UInt16.ofNat (pre.length + (encodeAll (exts.take k)).length)

theorem atExtensions_cons {es : List Extension} : AtExtensions pf pre (e :: es)
    ↔ nextOffset pf (UInt16.ofNat pre.length) = UInt16.ofNat (pre.length + e.encode.length)
      ∧ AtExtensions pf (pre ++ e.encode) es := by
  have hstart : ∀ k, UInt16.ofNat (pre.length + (encodeAll ((e :: es).take (k + 1))).length)
      = UInt16.ofNat ((pre ++ e.encode).length + (encodeAll (es.take k)).length) := by
    intro k
    rw [List.take_succ_cons, encodeAll_cons, List.length_append, List.length_append, Nat.add_assoc]
  have hfirst : (encodeAll ((e :: es).take 1)).length = e.encode.length := by
    rw [List.take_succ_cons, encodeAll_cons, List.length_append]
    rfl
  constructor
  · intro h
    have hone : nextOffset pf (UInt16.ofNat pre.length) = UInt16.ofNat (pre.length + e.encode.length) := by
      have hone := h 1 (by rw [List.length_cons]; omega)
      rw [hfirst] at hone
      exact hone
    refine ⟨hone, fun k hk => ?_⟩
    have hk := h (k + 1) (by rw [List.length_cons]; omega)
    rw [offsetAt_succ, hone, hstart, ← List.length_append] at hk
    exact hk
  · rintro ⟨hone, h⟩ k hk
    cases k with
    | zero => rfl
    | succ k =>
      rw [offsetAt_succ, hone, hstart, ← List.length_append]
      exact h k (by rw [List.length_cons] at hk; omega)

theorem nextOffset_extension {es : List Extension} (hpf : pf = pre ++ (e.encode ++ encodeAll es)) (he : e.WellFormed)
    (h : pre.length + e.encode.length + (encodeAll es).length + 8 ≤ 65536) :
    nextOffset pf (UInt16.ofNat pre.length) = UInt16.ofNat (pre.length + e.stride (encodeAll es)) := by
  have hlen := e.encode_length
  rw [hpf, nextOffset, itemSize_extension he (by omega), UInt16.ofNat_add]

theorem atExtensions_iff {es : List Extension} (hpf : pf = pre ++ encodeAll es) (hes : ∀ x ∈ es, x.WellFormed)
    (h : pre.length + (encodeAll es).length + 8 ≤ 65536) : AtExtensions pf pre es ↔ ∀ x ∈ es, x.Plain := by
  induction es generalizing pre with
  | nil =>
    refine ⟨fun _ _ hx => absurd hx List.not_mem_nil, fun _ k hk => ?_⟩
    obtain rfl := Nat.le_zero.mp hk
    rfl
  | cons e es ih =>
    rw [encodeAll_cons] at hpf
    rw [encodeAll_cons, List.length_append] at h
    have he := hes e (.head _)
    have hes' : ∀ x ∈ es, x.WellFormed := fun x hx => hes x (.tail _ hx)
    have ih : AtExtensions pf (pre ++ e.encode) es ↔ ∀ x ∈ es, x.Plain :=
      ih (by rw [hpf, List.append_assoc]) hes' (by rw [List.length_append]; omega)
    rw [atExtensions_cons, ih, nextOffset_extension hpf he (by omega), stride_eq_iff he hes' (by omega)]
    exact List.forall_mem_cons.symm

theorem unpackExtensionsLoop_plain {es : List Extension} {fuel : Nat} (hpf : pf = pre ++ encodeAll es)
    (hes : ∀ x ∈ es, x.WellFormed) (hplain : ∀ x ∈ es, x.Plain) (hnodup : ((exts ++ es).map Extension.type).Nodup)
    (h : pre.length + (encodeAll es).length + 8 ≤ 65536) (hfuel : es.length < fuel) (hfound : Found pf exts ch0 ch) :
    ∃ ch', unpackExtensionsLoop pf (UInt16.ofNat (pre.length + (encodeAll es).length)) fuel
      (UInt16.ofNat pre.length) ch = some ch' ∧ Found pf (exts ++ es) ch0 ch' := by
  induction es generalizing pre exts ch fuel with
  | nil =>
    cases fuel with
    | zero => omega
    | succ fuel =>
      refine ⟨ch, if_neg (UInt16.lt_irrefl _), ?_⟩
      rw [List.append_nil]
      exact hfound
  | cons e es ih =>
    cases fuel with
    | zero => omega
    | succ fuel =>
      rw [encodeAll_cons] at hpf
      rw [encodeAll_cons, List.length_append] at h ⊢
      have he := hes e (.head _)
      have hes' : ∀ x ∈ es, x.WellFormed := fun x hx => hes x (.tail _ hx)
      have hlen := e.encode_length
      have hlt : UInt16.ofNat pre.length < UInt16.ofNat (pre.length + (e.encode.length + (encodeAll es).length)) := by
        rw [UInt16.lt_iff_toNat_lt, toNat_ofNat_of_lt (by omega), toNat_ofNat_of_lt (by omega)]
        omega
      have hnext : (extensionStep pf (UInt16.ofNat pre.length) ch).1 = UInt16.ofNat (pre ++ e.encode).length := by
        rw [extensionStep_fst, nextOffset_extension hpf he (by omega), List.length_append]
        exact (stride_eq_iff he hes' (by omega)).mpr (hplain e (.head _))
      have hnote : (extensionStep pf (UInt16.ofNat pre.length) ch).2 = e.found pre.length ch := by
        rw [hpf]
        exact extensionStep_plain he (hplain e (.head _)) (by omega)
      have hnew : ∀ x ∈ exts, x.type ≠ e.type := by
        intro x hx heq
        rw [List.map_append, List.nodup_append] at hnodup
        exact hnodup.2.2 _ (List.mem_map_of_mem hx) _ (List.mem_map_of_mem (.head _)) heq
      have hstep := hfound.snoc hpf he (hplain e (.head _)) hnew
      unfold unpackExtensionsLoop
      rw [if_pos hlt]
      dsimp only
      rw [hnext, hnote]
      have hend : pre.length + (e.encode.length + (encodeAll es).length)
          = (pre ++ e.encode).length + (encodeAll es).length := by
        rw [List.length_append, Nat.add_assoc]
      have hsplit : exts ++ e :: es = exts ++ [e] ++ es := by rw [List.append_assoc]; rfl
      rw [hend, hsplit]
      refine ih (by rw [hpf, List.append_assoc]) hes' (fun x hx => hplain x (.tail _ hx)) ?_ ?_ ?_ hstep
      · rw [← hsplit]
        exact hnodup
      · omega
      · rw [List.length_cons] at hfuel
        omega

theorem length_le_encodeAll (es : List Extension) : es.length ≤ (encodeAll es).length := by
  induction es with
  | nil => exact Nat.le_refl _
  | cons e es ih =>
    rw [encodeAll_cons, List.length_append, e.encode_length, List.length_cons]
    omega

/-- `unpack_extensions` on a well-formed list that starts behind `pre` and ends with the record: it finds what
the extensions carry, with each round at the start of an extension, exactly if the extensions of unknown types
are empty and there is one key share. -/
theorem unpackExtensions_finds (pre : Bytes) (block : ExtensionBlock) (ch : ClientHello)
    (hlen : pre.length + (encodeAll block.exts).length + 8 ≤ 65536)
    (hch : ch.extensionsLength = UInt16.ofNat (encodeAll block.exts).length) (hkey : ch.curveType ≠ 0x001d) :
    ((∃ ch', unpackExtensions (pre ++ encodeAll block.exts) (UInt16.ofNat pre.length)
          (UInt16.ofNat (pre.length + (encodeAll block.exts).length)) ch = some ch'
        ∧ Found (pre ++ encodeAll block.exts) block.exts ch ch')
      ∧ AtExtensions (pre ++ encodeAll block.exts) pre block.exts)
      ↔ ∀ e ∈ block.exts, e.Plain := by
  have hwalk := atExtensions_iff (rfl : pre ++ encodeAll block.exts = _) block.wellFormed hlen
  constructor
  · rintro ⟨-, h⟩
    exact hwalk.mp h
  · intro hplain
    refine ⟨?_, hwalk.mpr hplain⟩
    have hfound : Found (pre ++ encodeAll block.exts) [] ch ch := by
      refine ⟨rfl, rfl, rfl, ?_⟩
      exact if_neg hkey
    have hfuel : block.exts.length < 65537 := by
      have hle := length_le_encodeAll block.exts
      omega
    have hnodup : (([] ++ block.exts).map Extension.type).Nodup := block.nodup
    have hloop := unpackExtensionsLoop_plain rfl block.wellFormed hplain hnodup hlen hfuel hfound
    unfold unpackExtensions
    by_cases hnone : ch.extensionsLength = 0
    · -- no extensions: the loop is not entered
      have hzero : (encodeAll block.exts).length = 0 := by
        have htoNat := congrArg UInt16.toNat (hch.symm.trans hnone)
        rw [toNat_ofNat_of_lt (by omega)] at htoNat
        exact htoNat
      have hle := length_le_encodeAll block.exts
      have hempty : block.exts = [] := List.length_eq_zero_iff.mp (by omega)
      refine ⟨ch, if_pos hnone, ?_⟩
      rw [hempty] at hfound ⊢
      exact hfound
    · rw [if_neg hnone]
      exact hloop

end

/-! ### Samples -/

def samplePlainBlock : ExtensionBlock where
  exts := [.other 0x0017 [], .supportedGroups [X25519], .signatureAlgorithms [⟨0x04, 0x03⟩],
    .other 0x0010 [0x00, 0x03, 0x02, 0x68, 0x32], .supportedVersions [⟨3, 4⟩], .keyShare [⟨0x001d, zeros 32⟩],
    .other 0xff01 []]
  wellFormed := by decide
  nodup := by decide

theorem unpackExtensions_finds_sample : (∀ e ∈ samplePlainBlock.exts, e.Plain)
    ∧ AtExtensions (zeros 60 ++ encodeAll samplePlainBlock.exts) (zeros 60) samplePlainBlock.exts := by
  have hplain : ∀ e ∈ samplePlainBlock.exts, e.Plain := by decide
  have hfinds := unpackExtensions_finds (zeros 60) samplePlainBlock
    { extensionsLength := UInt16.ofNat (encodeAll samplePlainBlock.exts).length } (by decide) rfl (by decide)
  exact ⟨hplain, (hfinds.mpr hplain).2⟩

/- A host name that reads as supported groups. -/
def sampleServerName : ExtensionBlock where
  exts := [.other 0x0000 [0x00, 0x0a, 0x00, 0x04, 0x00, 0x02, 0x00, 0x17]]
  wellFormed := by decide
  nodup := by decide

theorem serverName_readsGroups :
    unpackExtensions (encodeAll sampleServerName.exts) 0 12 { extensionsLength := 12 }
        = some { extensionsLength := 12, curvesListLength := 2, curvesList := some 10 }
      ∧ ¬ Found (encodeAll sampleServerName.exts) sampleServerName.exts { extensionsLength := 12 }
          { extensionsLength := 12, curvesListLength := 2, curvesList := some 10 } := by
  refine ⟨by decide +kernel, fun h => ?_⟩
  have hgroups : (some 10, (2 : UInt16)) = ((none : Option Nat), (0 : UInt16)) := h.groups
  cases hgroups

end Xtls.Nic
