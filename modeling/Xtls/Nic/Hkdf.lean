import Xtls.Lib.Hkdf
import Xtls.Nic.Crypto

/-!
# The expansion loop

`hkdf_expand_internal` and `hkdf_expand_label` (`ssl_crypto.c` 479-547) for an arbitrary digest.  Lengths
are 64-bit `size_t`, the round counter is a `uint8_t`.  OpenSSL's HMAC calls succeed; an `HMAC_CTX` holds
the key and what has been hashed.
-/

namespace Xtls.Nic

/-- A digest as `EVP_MD_get_size` describes it: the size is a positive `int`. -/
structure Md extends Mac where
  size_pos : 0 < size
  size_lt : size < 2 ^ 31

/-! ### `HMAC_CTX` -/

structure HmacCtx where
  key : Bytes := []
  data : Bytes := []

/- `HMAC_Init_ex`: without a key the old one stays. -/
def hmacInit (key : Option Bytes) (c : HmacCtx) : HmacCtx := { key := key.getD c.key, data := [] }

def hmacUpdate (b : Bytes) (c : HmacCtx) : HmacCtx := { c with data := c.data ++ b }

def hmacFinal (md : Md) (c : HmacCtx) : Bytes := md.tag c.key c.data

/-! ### The loop -/

structure ExpandState where
  i : UInt8 := 1
  ctx : HmacCtx := {}
  t : Bytes := []
  done : UInt64 := 0
  out : Bytes := []

def Md.hashLen (md : Md) : UInt64 := UInt64.ofNat md.size

def expandBlocks (md : Md) (outLen : UInt64) : UInt64 := (outLen + md.hashLen - 1) / md.hashLen

def expandRound (md : Md) (prk info : Bytes) (outLen : UInt64) (s : ExpandState) : ExpandState :=
  let ctx := if s.i = 1 then hmacInit (some prk) s.ctx else hmacInit none s.ctx
  let ctx := if 0 < s.t.length then hmacUpdate s.t ctx else ctx
  let ctx := hmacUpdate [s.i] (hmacUpdate info ctx)
  let t := hmacFinal md ctx
  let tLen := UInt64.ofNat t.length
  let copy := if s.done + tLen > outLen then outLen - s.done else tLen
  { i := s.i + 1, ctx := ctx, t := t, done := s.done + copy, out := s.out ++ t.take copy.toNat }

/- `i <= n` compares a byte with a `size_t`; `none` when the loop has not ended after `fuel` rounds. -/
def expandLoop (md : Md) (prk info : Bytes) (outLen : UInt64) : Nat → ExpandState → Option ExpandState
  | 0, _ => none
  | fuel + 1, s =>
    if s.i.toNat ≤ (expandBlocks md outLen).toNat then
      expandLoop md prk info outLen fuel (expandRound md prk info outLen s)
    else some s

namespace Md

/-- `hkdf_expand_internal`: the return value and the bytes written. -/
def hkdfExpandInternal (md : Md) (fuel : Nat) (outLen : UInt64) (prk info : Bytes) : Option (Int × Bytes) :=
  if expandBlocks md outLen > 255 then some (0, [])
  else (expandLoop md prk info outLen fuel {}).map fun s => (1, s.out)

/-- `hkdf_expand_label`. -/
def hkdfExpandLabel (md : Md) (fuel : Nat) (outLen : UInt64) (key label ctx : Bytes) : Option (Int × Bytes) :=
  md.hkdfExpandInternal fuel outLen key (hkdfLabel outLen.toNat label ctx)

end Md

section

variable {md : Md} {prk info : Bytes} {outLen : UInt64} {s : ExpandState} {fuel k : Nat}

/-! ### The number of rounds -/

theorem hashLen_toNat (md : Md) : md.hashLen.toNat = md.size := by
  have := md.size_lt
  rw [Md.hashLen, UInt64.toNat_ofNat']
  omega

theorem expandBlocks_toNat (md : Md) (outLen : UInt64) :
    (expandBlocks md outLen).toNat = (outLen.toNat + md.size - 1) % 2 ^ 64 / md.size := by
  have hpos := md.size_pos
  have hlt := md.size_lt
  have hone : (1 : UInt64).toNat = 1 := rfl
  have hout := outLen.toNat_lt
  rw [expandBlocks, UInt64.toNat_div, UInt64.toNat_sub, UInt64.toNat_add, hashLen_toNat, hone]
  congr 1
  omega

theorem expandBlocks_wraps (h : 2 ^ 64 < outLen.toNat + md.size) : (expandBlocks md outLen).toNat = 0 := by
  have hlt := md.size_lt
  have hout := outLen.toNat_lt
  rw [expandBlocks_toNat, Nat.div_eq_zero_iff]
  omega

theorem expandBlocks_fits (h : outLen.toNat + md.size ≤ 2 ^ 64) :
    (expandBlocks md outLen).toNat = (outLen.toNat + md.size - 1) / md.size := by
  have hpos := md.size_pos
  rw [expandBlocks_toNat, Nat.mod_eq_of_lt (by omega)]

theorem expandBlocks_last :
    (expandBlocks md outLen).toNat = 255 ↔ 254 * md.size < outLen.toNat ∧ outLen.toNat ≤ 255 * md.size := by
  have hpos := md.size_pos
  have hlt := md.size_lt
  by_cases hfit : outLen.toNat + md.size ≤ 2 ^ 64
  · rw [expandBlocks_fits hfit, Nat.div_eq_iff hpos]
    omega
  · rw [expandBlocks_wraps (by omega)]
    omega

/-! ### What a round does -/

/-- The state before round `k + 1`. -/
structure Expanded (md : Md) (prk info : Bytes) (outLen : UInt64) (k : Nat) (s : ExpandState) : Prop where
  i : s.i.toNat = k + 1
  key : k ≠ 0 → s.ctx.key = prk
  t : s.t = md.block prk info k
  out : s.out = (md.blocks prk info k).take outLen.toNat
  done : s.done.toNat = min (k * md.size) outLen.toNat

theorem expandRound_t (h : Expanded md prk info outLen k s) :
    (expandRound md prk info outLen s).t = md.block prk info (k + 1)
      ∧ (expandRound md prk info outLen s).ctx.key = prk := by
  have hi : s.i = UInt8.ofNat (k + 1) := by rw [← h.i, UInt8.ofNat_toNat]
  have hkey : (if s.i = 1 then hmacInit (some prk) s.ctx else hmacInit none s.ctx) = ⟨prk, []⟩ := by
    split
    · rfl
    · rename_i hne
      have hk : k ≠ 0 := by
        rintro rfl
        exact hne hi
      simp only [hmacInit, Option.getD_none, h.key hk]
  have hctx : (if 0 < s.t.length then hmacUpdate s.t ⟨prk, []⟩ else ⟨prk, []⟩)
      = (⟨prk, s.t⟩ : HmacCtx) := by
    split
    · rfl
    · rename_i hlen
      have hnil : s.t = [] := List.eq_nil_of_length_eq_zero (by omega)
      rw [hnil]
  have hround : (expandRound md prk info outLen s).t = md.tag prk (s.t ++ info ++ [s.i])
      ∧ (expandRound md prk info outLen s).ctx.key = prk := by
    simp only [expandRound, hkey, hctx]
    exact ⟨rfl, rfl⟩
  rw [hround.1, h.t, hi]
  exact ⟨rfl, hround.2⟩

theorem copy_toNat (done outLen : UInt64) (h : Nat) (hdone : done.toNat < outLen.toNat)
    (hfit : outLen.toNat + h ≤ 2 ^ 64) :
    (if done + UInt64.ofNat h > outLen then outLen - done else UInt64.ofNat h).toNat
      = min h (outLen.toNat - done.toNat) := by
  have hh : (UInt64.ofNat h).toNat = h := by
    rw [UInt64.toNat_ofNat']
    omega
  have hsum : (done + UInt64.ofNat h).toNat = done.toNat + h := by
    rw [UInt64.toNat_add, hh]
    omega
  split
  · rename_i hlt
    have hlt : outLen.toNat < done.toNat + h := by
      rw [gt_iff_lt, UInt64.lt_iff_toNat_lt, hsum] at hlt
      exact hlt
    rw [UInt64.toNat_sub_of_le _ _ (UInt64.le_iff_toNat_le.mpr (by omega))]
    omega
  · rename_i hge
    have hge : done.toNat + h ≤ outLen.toNat := by
      rw [gt_iff_lt, UInt64.lt_iff_toNat_lt, hsum] at hge
      omega
    rw [hh]
    omega

theorem expandRound_expanded (h : Expanded md prk info outLen k s) (hk : k < 254)
    (hmore : k * md.size < outLen.toNat) (hfit : outLen.toNat + md.size ≤ 2 ^ 64) :
    Expanded md prk info outLen (k + 1) (expandRound md prk info outLen s) := by
  obtain ⟨ht, hkey⟩ := expandRound_t h
  have hdone : s.done.toNat = k * md.size := h.done.trans (Nat.min_eq_left (Nat.le_of_lt hmore))
  have hlen : (expandRound md prk info outLen s).t.length = md.size := by
    rw [ht]
    exact Mac.block_length k
  have hcopy := copy_toNat s.done outLen md.size (by omega) hfit
  rw [hdone] at hcopy
  refine ⟨?_, fun _ => hkey, ht, ?_, ?_⟩
  · show (s.i + 1).toNat = _
    have hone : (1 : UInt8).toNat = 1 := rfl
    rw [UInt8.toNat_add, h.i, hone]
    omega
  · show s.out ++ (expandRound md prk info outLen s).t.take
      (if s.done + UInt64.ofNat (expandRound md prk info outLen s).t.length > outLen then outLen - s.done
        else UInt64.ofNat (expandRound md prk info outLen s).t.length).toNat = _
    have htake : (md.block prk info (k + 1)).take (min md.size (outLen.toNat - k * md.size))
        = (md.block prk info (k + 1)).take (outLen.toNat - k * md.size) := by
      rw [List.take_eq_take_iff, Mac.block_length]
      omega
    rw [hlen, hcopy, h.out, ht, htake, Mac.take_blocks_succ]
  · show (s.done + (if s.done + UInt64.ofNat (expandRound md prk info outLen s).t.length > outLen
      then outLen - s.done else UInt64.ofNat (expandRound md prk info outLen s).t.length)).toNat = _
    rw [hlen, UInt64.toNat_add, hcopy, hdone, Nat.succ_mul]
    omega

theorem expandLoop_expanded {n : Nat} (hn : n = (expandBlocks md outLen).toNat) (hlast : n < 255)
    (hmore : ∀ j < n, j * md.size < outLen.toNat) (hfit : outLen.toNat + md.size ≤ 2 ^ 64) {s' : ExpandState}
    (h : Expanded md prk info outLen k s) (hk : k ≤ n)
    (hloop : expandLoop md prk info outLen fuel s = some s') : Expanded md prk info outLen n s' := by
  induction fuel generalizing s k with
  | zero => cases hloop
  | succ fuel ih =>
    unfold expandLoop at hloop
    rw [h.i, ← hn] at hloop
    split at hloop
    · rename_i hle
      exact ih (expandRound_expanded h (by omega) (hmore k (by omega)) hfit) (by omega) hloop
    · cases hloop
      have hkn : k = n := by omega
      exact hkn ▸ h

/-! ### The end of the loop -/

theorem expandLoop_returns (prk info : Bytes) {n : Nat} (hn : n = (expandBlocks md outLen).toNat) (hlast : n < 255)
    (hi : s.i.toNat = k + 1) (hk : k ≤ n) : ∃ fuel s', expandLoop md prk info outLen fuel s = some s' := by
  induction hd : n - k generalizing k s with
  | zero =>
    refine ⟨1, s, ?_⟩
    rw [expandLoop, if_neg (by omega)]
  | succ d ih =>
    have hnext : (expandRound md prk info outLen s).i.toNat = k + 1 + 1 := by
      show (s.i + 1).toNat = _
      have hone : (1 : UInt8).toNat = 1 := rfl
      rw [UInt8.toNat_add, hi, hone]
      omega
    obtain ⟨fuel, s', hs'⟩ := ih hnext (by omega) (by omega)
    refine ⟨fuel + 1, s', ?_⟩
    rw [expandLoop, if_pos (by omega)]
    exact hs'

theorem expandLoop_endless (hn : (expandBlocks md outLen).toNat = 255) (fuel : Nat) (s : ExpandState) :
    expandLoop md prk info outLen fuel s = none := by
  induction fuel generalizing s with
  | zero => rfl
  | succ fuel ih =>
    have hi := s.i.toNat_lt
    rw [expandLoop, if_pos (by omega)]
    exact ih _

theorem rejects_iff : expandBlocks md outLen > 255 ↔ 255 < (expandBlocks md outLen).toNat := by
  rw [gt_iff_lt, UInt64.lt_iff_toNat_lt]
  rfl

/-- `hkdf_expand_internal` returns unless the output takes exactly 255 blocks. -/
theorem hkdfExpandInternal_ends (md : Md) (outLen : UInt64) (prk info : Bytes) :
    (∃ fuel, (md.hkdfExpandInternal fuel outLen prk info).isSome)
      ↔ ¬ (254 * md.size < outLen.toNat ∧ outLen.toNat ≤ 255 * md.size) := by
  rw [← expandBlocks_last]
  constructor
  · rintro ⟨fuel, hfuel⟩ hn
    rw [Md.hkdfExpandInternal, if_neg (by rw [rejects_iff]; omega), expandLoop_endless hn] at hfuel
    cases hfuel
  · intro hn
    by_cases hrej : expandBlocks md outLen > 255
    · refine ⟨0, ?_⟩
      rw [Md.hkdfExpandInternal, if_pos hrej]
      rfl
    · have hle : (expandBlocks md outLen).toNat < 255 := by
        rw [rejects_iff] at hrej
        omega
      obtain ⟨fuel, s', hs'⟩ := expandLoop_returns prk info (s := {}) (k := 0) rfl hle rfl (Nat.zero_le _)
      refine ⟨fuel, ?_⟩
      rw [Md.hkdfExpandInternal, if_neg hrej, hs']
      rfl

/- A digest of 48 bytes that is constant. -/
def sampleMd : Md where
  size := 48
  tag _ _ := zeros 48
  tag_length _ _ := zeros_length 48
  size_pos := by decide
  size_lt := by decide

/- The longest output, of 255 blocks, is not rejected and never done. -/
theorem hkdfExpandInternal_longest : ¬ expandBlocks sampleMd 12240 > 255
    ∧ ∀ fuel, sampleMd.hkdfExpandInternal fuel 12240 [] [] = none := by
  have hn : (expandBlocks sampleMd 12240).toNat = 255 := expandBlocks_last.mpr ⟨by decide, by decide⟩
  have hrej : ¬ expandBlocks sampleMd 12240 > 255 := by
    rw [rejects_iff]
    omega
  refine ⟨hrej, fun fuel => ?_⟩
  rw [Md.hkdfExpandInternal, if_neg hrej, expandLoop_endless hn]
  rfl

/-! ### What is written -/

theorem expanded_start (md : Md) (prk info : Bytes) (outLen : UInt64) : Expanded md prk info outLen 0 {} :=
  ⟨rfl, fun h => absurd rfl h, rfl, List.take_nil.symm, by rw [Nat.zero_mul, Nat.zero_min]; rfl⟩

theorem hkdfExpandInternal_cases {out : Bytes} (h : md.hkdfExpandInternal fuel outLen prk info = some (1, out)) :
    (expandBlocks md outLen).toNat < 255
      ∧ ∃ s, expandLoop md prk info outLen fuel {} = some s ∧ s.out = out := by
  unfold Md.hkdfExpandInternal at h
  split at h
  · cases h
  · rename_i hrej
    rw [rejects_iff] at hrej
    by_cases hlast : (expandBlocks md outLen).toNat = 255
    · rw [expandLoop_endless hlast] at h
      cases h
    · obtain ⟨s, hs, hout⟩ := Option.map_eq_some_iff.mp h
      cases hout
      exact ⟨by omega, s, hs, rfl⟩

theorem hkdfExpandInternal_short {out : Bytes} (hfit : outLen.toNat + md.size ≤ 2 ^ 64)
    (h : md.hkdfExpandInternal fuel outLen prk info = some (1, out)) : outLen.toNat ≤ 254 * md.size := by
  have hlt := (hkdfExpandInternal_cases h).1
  rw [expandBlocks_fits hfit, Nat.div_lt_iff_lt_mul md.size_pos] at hlt
  omega

theorem hkdfExpandInternal_expands {out : Bytes} (hfit : outLen.toNat + md.size ≤ 2 ^ 64)
    (h : md.hkdfExpandInternal fuel outLen prk info = some (1, out)) :
    out = md.expand prk info outLen.toNat := by
  obtain ⟨hlast, s, hs, rfl⟩ := hkdfExpandInternal_cases h
  have hpos := md.size_pos
  have hn := expandBlocks_fits hfit
  have hmore : ∀ j < (expandBlocks md outLen).toNat, j * md.size < outLen.toNat := by
    intro j hj
    rw [hn] at hj
    have hmul := (Nat.le_div_iff_mul_le md.size_pos).mp hj
    rw [Nat.succ_mul] at hmul
    omega
  have hend := expandLoop_expanded rfl hlast hmore hfit (expanded_start md prk info outLen) (Nat.zero_le _) hs
  rw [hend.out, hn]
  rfl

/-- The label structure for a caller's label and context. -/
def tls13Label (outLen : UInt64) (label ctx : Bytes) (hlabel : label.length ≤ 249) (hctx : ctx.length ≤ 255) :
    HkdfLabel where
  length := UInt16.ofNat outLen.toNat
  label := ascii "tls13 " ++ label
  context := ctx
  label_le := by
    have hlen : (ascii "tls13 ").length = 6 := rfl
    rw [List.length_append, hlen]
    omega
  context_le := hctx

theorem hkdfLabel_encode (outLen : UInt64) {label ctx : Bytes} (hlabel : label.length ≤ 249)
    (hctx : ctx.length ≤ 255) (hout : outLen.toNat < 2 ^ 16) :
    hkdfLabel outLen.toNat label ctx = (tls13Label outLen label ctx hlabel hctx).encode := by
  have hto : (UInt16.ofNat outLen.toNat).toNat = outLen.toNat := by
    rw [UInt16.toNat_ofNat']
    omega
  have hlen : (ascii "tls13 " ++ label).length = 6 + label.length := by
    rw [List.length_append]
    rfl
  rw [HkdfLabel.encode, vector8, vector8, tls13Label, hlen, put16, hto, hkdfLabel]
  simp only [List.cons_append, List.nil_append, List.append_assoc]

def infoSize : Nat := 2 + 1 + 6 + 255 + 1 + 255

/-- Domain separation: `info` holds the structure, and no two triples have the same one. -/
theorem hkdfLabel_separates (outLen outLen' : UInt64) (label label' ctx ctx' : Bytes)
    (hout : outLen.toNat < 65536) (hout' : outLen'.toNat < 65536) (hlabel : label.length ≤ 249)
    (hlabel' : label'.length ≤ 249) (hctx : ctx.length ≤ 255) (hctx' : ctx'.length ≤ 255) :
    (hkdfLabel outLen.toNat label ctx).length ≤ infoSize
      ∧ (hkdfLabel outLen.toNat label ctx = hkdfLabel outLen'.toNat label' ctx' →
          outLen = outLen' ∧ label = label' ∧ ctx = ctx') := by
  rw [hkdfLabel_encode outLen hlabel hctx hout, hkdfLabel_encode outLen' hlabel' hctx' hout']
  constructor
  · rw [HkdfLabel.encode_length]
    have hle := (tls13Label outLen label ctx hlabel hctx).label_le
    have hle' := (tls13Label outLen label ctx hlabel hctx).context_le
    simp only [infoSize]
    omega
  · intro h
    obtain ⟨hlen, hname, hctxs⟩ := HkdfLabel.encode_inj h
    refine ⟨?_, List.append_cancel_left hname, hctxs⟩
    have hnat := congrArg UInt16.toNat hlen
    simp only [tls13Label, UInt16.toNat_ofNat'] at hnat
    apply UInt64.toNat_inj.mp
    omega

theorem hkdfLabel_separates_sample :
    (hkdfLabel (12 : UInt64).toNat (ascii "iv") []).length ≤ infoSize
      ∧ hkdfLabel (12 : UInt64).toNat (ascii "iv") [] ≠ hkdfLabel (12 : UInt64).toNat (ascii "key") [] := by
  have h := hkdfLabel_separates 12 12 (ascii "iv") (ascii "key") [] [] (by decide) (by decide) (by decide)
    (by decide) (by decide) (by decide)
  exact ⟨h.1, fun heq => absurd (h.2 heq).2.1 (by decide)⟩

/-- What `hkdf_expand_label` writes when it returns 1 is the expansion of RFC 8446, for every length whose
sum with the size of the hash is a `size_t`, and for no other. -/
theorem hkdfExpandLabel_expands (md : Md) (hsize : md.size ≤ 64) (outLen : UInt64) (key label ctx : Bytes)
    (hlabel : label.length ≤ 249) (hctx : ctx.length ≤ 255) :
    (∀ fuel out, md.hkdfExpandLabel fuel outLen key label ctx = some (1, out) → out.length = outLen.toNat
      ∧ out = md.expand key (tls13Label outLen label ctx hlabel hctx).encode outLen.toNat)
    ↔ outLen.toNat + md.size ≤ 2 ^ 64 := by
  constructor
  · intro h
    by_contra hwraps
    have hn : (expandBlocks md outLen).toNat = 0 := expandBlocks_wraps (by omega)
    have hnone : md.hkdfExpandLabel 1 outLen key label ctx = some (1, []) := by
      have hrej : ¬ expandBlocks md outLen > 255 := by
        rw [rejects_iff]
        omega
      rw [Md.hkdfExpandLabel, Md.hkdfExpandInternal, if_neg hrej, expandLoop, if_neg (by rw [hn]; decide)]
      rfl
    have hlen : 0 = outLen.toNat := (h 1 [] hnone).1
    omega
  · intro hfit fuel out h
    have hshort := hkdfExpandInternal_short hfit h
    have hout := hkdfExpandInternal_expands hfit h
    rw [hkdfLabel_encode outLen hlabel hctx (by omega)] at hout
    refine ⟨?_, hout⟩
    rw [hout]
    exact Mac.expand_length md.size_pos _

theorem reversed_length (msg : Bytes) : ((msg.reverse ++ zeros 48).take 48).length = 48 := by
  rw [List.length_take, List.length_append, zeros_length]
  omega

/- A digest of 48 bytes that begins with the last bytes of the message. -/
def reversingMd : Md where
  size := 48
  tag _ msg := (msg.reverse ++ zeros 48).take 48
  tag_length _ msg := reversed_length msg
  size_pos := by decide
  size_lt := by decide

/- Two whole blocks and half of a third one. -/
theorem hkdfExpandLabel_expands_sample :
    ∃ out, reversingMd.hkdfExpandLabel 4 120 [] (ascii "iv") [] = some (1, out) ∧ out.length = 120
      ∧ byteAt out 0 = 1 ∧ byteAt out 48 = 2 ∧ byteAt out 96 = 3
      ∧ out = reversingMd.expand [] (tls13Label 120 (ascii "iv") [] (by decide) (by decide)).encode 120 := by
  have h := (hkdfExpandLabel_expands reversingMd (by decide) 120 [] (ascii "iv") [] (by decide) (by decide)).mpr
    (by decide)
  cases hrun : reversingMd.hkdfExpandLabel 4 120 [] (ascii "iv") [] with
  | none => exact absurd hrun (by decide +kernel)
  | some r =>
    have hr : r.1 = 1 ∧ byteAt r.2 0 = 1 ∧ byteAt r.2 48 = 2 ∧ byteAt r.2 96 = 3 := by
      have hval : (reversingMd.hkdfExpandLabel 4 120 [] (ascii "iv") []).map
          (fun r => (r.1, byteAt r.2 0, byteAt r.2 48, byteAt r.2 96)) = some (1, 1, 2, 3) := by decide +kernel
      rw [hrun] at hval
      simpa using hval
    obtain ⟨ret, out⟩ := r
    obtain ⟨rfl, hbytes⟩ := hr
    obtain ⟨hlen, hout⟩ := h 4 out hrun
    exact ⟨out, rfl, hlen, hbytes.1, hbytes.2.1, hbytes.2.2, hout⟩

/- The number of blocks of the longest `size_t` wraps to 0: the call returns 1 and has written nothing. -/
theorem hkdfExpandLabel_wraps :
    sampleMd.hkdfExpandLabel 1 0xffffffffffffffff [] [] [] = some (1, [])
      ∧ ([] : Bytes).length ≠ (0xffffffffffffffff : UInt64).toNat := by
  decide

end

/-! ### The key schedule -/

/-- The digest of the cipher suite that the NIC selects. -/
def sha384Md (c : Crypto) : Md where
  size := 48
  tag key msg := (c.hmacSha384 key msg).val
  tag_length key msg := (c.hmacSha384 key msg).property
  size_pos := by decide
  size_lt := by decide

section

variable {c : Crypto} {prk info : Bytes} {n k fuel outLen : Nat}

theorem hkdfExpandLoop_blocks (hlast : n < 255) (hmore : ∀ j < n, j * 48 < outLen) (hk : k ≤ n)
    (hfuel : n - k < fuel) :
    hkdfExpandLoop c prk info n outLen fuel (UInt8.ofNat (k + 1)) ((sha384Md c).block prk info k)
      (((sha384Md c).blocks prk info k).take outLen) = some (((sha384Md c).blocks prk info n).take outLen) := by
  induction fuel generalizing k with
  | zero => exact absurd hfuel (Nat.not_lt_zero _)
  | succ fuel ih =>
    have hi : (UInt8.ofNat (k + 1)).toNat = k + 1 := by
      rw [UInt8.toNat_ofNat']
      omega
    rw [hkdfExpandLoop, hi]
    split
    · rename_i hle
      have hmore := hmore k (by omega)
      have hlen : ((sha384Md c).block prk info (k + 1)).length = 48 := Mac.block_length k
      have hout : (((sha384Md c).blocks prk info k).take outLen).length = k * 48 := by
        rw [List.length_take, Mac.blocks_length]
        exact Nat.min_eq_right (Nat.le_of_lt hmore)
      have hcopy : ((sha384Md c).block prk info (k + 1)).take (if k * 48 + 48 > outLen then outLen - k * 48 else 48)
          = ((sha384Md c).block prk info (k + 1)).take (outLen - k * 48) := by
        rw [List.take_eq_take_iff, hlen]
        split <;> omega
      have hround : ((sha384Md c).blocks prk info k).take outLen
          ++ ((sha384Md c).block prk info (k + 1)).take (if k * 48 + 48 > outLen then outLen - k * 48 else 48)
          = ((sha384Md c).blocks prk info (k + 1)).take outLen := by
        rw [hcopy, Mac.take_blocks_succ]
        rfl
      have hnext : UInt8.ofNat (k + 1) + 1 = UInt8.ofNat (k + 1 + 1) := (UInt8.ofNat_add _ _).symm
      have htag : (c.hmacSha384 prk ((sha384Md c).block prk info k ++ info ++ [UInt8.ofNat (k + 1)])).val
          = (sha384Md c).block prk info (k + 1) := rfl
      simp only [htag, hlen, hout]
      rw [hround, hnext]
      exact ih hle (by omega)
    · have hkn : k = n := by omega
      rw [hkn]

theorem hkdfExpandInternal_sha384 (c : Crypto) (prk info : Bytes) (h : outLen ≤ 254 * 48) :
    hkdfExpandInternal c outLen prk info = some ((sha384Md c).expand prk info outLen) := by
  have hmore : ∀ j < (outLen + 48 - 1) / 48, j * 48 < outLen := by
    intro j hj
    omega
  have hloop : hkdfExpandLoop c prk info ((outLen + 48 - 1) / 48) outLen 256 1 []
      (((sha384Md c).blocks prk info 0).take outLen) = some ((sha384Md c).expand prk info outLen) :=
    hkdfExpandLoop_blocks (k := 0) (by omega) hmore (Nat.zero_le _) (by omega)
  rw [Mac.blocks, List.take_nil] at hloop
  unfold hkdfExpandInternal
  rw [if_neg (by omega)]
  exact hloop

/-- The expansions of the key schedule are those of RFC 8446. -/
theorem hkdfExpandLabel_sha384 (c : Crypto) (key label ctx : Bytes) (h : outLen ≤ 254 * 48)
    (hlabel : label.length ≤ 249) (hctx : ctx.length ≤ 255) :
    hkdfExpandLabel c outLen key label ctx
      = (sha384Md c).expand key (tls13Label (UInt64.ofNat outLen) label ctx hlabel hctx).encode outLen := by
  have hto : (UInt64.ofNat outLen).toNat = outLen := by
    rw [UInt64.toNat_ofNat']
    omega
  have hencode := hkdfLabel_encode (UInt64.ofNat outLen) hlabel hctx (by omega)
  rw [hto] at hencode
  rw [hkdfExpandLabel, hkdfExpandInternal_sha384 c key _ h, hencode]
  rfl

end

end Xtls.Nic
