import Xtls.Nic.Flight
import Xtls.Nic.Hkdf

/-!
# The derivation of the keys

`handle_after_ecdhe_shared_secret_calc`, `handle_app_keys_calculation` and the two verify data
(`ssl.c` 2801-2840, 3769-4026, 4129-4367), against the key schedule of RFC 8446.
-/

namespace Xtls.Nic

/-- SHA-384 and its HMAC. -/
def sha384Digest (c : Crypto) : Digest where
  toMac := (sha384Md c).toMac
  hash m := (c.sha384 m).val

/- The keys in use, of which the arrays hold more than the cipher takes. -/
def keysIn (key iv : Bytes) : TrafficKeys := ⟨slice key 0 32, slice iv 0 12⟩

/-- The secrets and keys for the rest of the handshake. -/
structure HandshakeKeys (d : Digest) (shared : Bytes) (t : Transcript) (k : Tls13Ctx) : Prop where
  secret : slice k.handshakeSecret 0 48 = d.handshakeSecret shared
  client : slice k.clientSecret 0 48 = d.clientHandshakeSecret shared t
  server : slice k.serverSecret 0 48 = d.serverHandshakeSecret shared t
  clientKeys : keysIn k.clientHandshakeKey k.clientHandshakeIv
    = d.trafficKeys (d.clientHandshakeSecret shared t) 32 12
  serverKeys : keysIn k.serverHandshakeKey k.serverHandshakeIv
    = d.trafficKeys (d.serverHandshakeSecret shared t) 32 12

structure ApplicationKeys (d : Digest) (shared : Bytes) (t : Transcript) (k : Tls13Ctx) : Prop where
  clientKeys : keysIn k.clientApplicationKey k.clientApplicationIv
    = d.trafficKeys (d.clientApplicationSecret shared t) 32 12
  serverKeys : keysIn k.serverApplicationKey k.serverApplicationIv
    = d.trafficKeys (d.serverApplicationSecret shared t) 32 12

section

variable {shared : Bytes} {t : Transcript}

/-! ### The derivations -/

theorem hkdfExpandLabel_digest (c : Crypto) (secret : Bytes) (label : String) (ctx : Bytes) {len : Nat} (h : len ≤ 48)
    (hlabel : (ascii label).length ≤ 249) (hctx : ctx.length ≤ 255) :
    hkdfExpandLabel c len secret (ascii label) ctx = (sha384Digest c).expandLabel secret label ctx len := by
  have htext : ascii "tls13 " ++ ascii label = labelText ("tls13 " ++ label) := by
    rw [labelText, String.toList_append, List.map_append]
    rfl
  have hlen : (UInt64.ofNat len).toNat = len := by
    rw [UInt64.toNat_ofNat']
    omega
  have hencode : (tls13Label (UInt64.ofNat len) (ascii label) ctx hlabel hctx).encode
      = put16 (UInt16.ofNat (UInt64.ofNat len).toNat) ++ vector8 (ascii "tls13 " ++ ascii label) ++ vector8 ctx := rfl
  rw [hkdfExpandLabel_sha384 c secret _ ctx (by omega) hlabel hctx, Digest.expandLabel, hencode, hlen, htext]
  rfl

theorem sha384_length (c : Crypto) (m : Bytes) : (c.sha384 m).val.length ≤ 255 := by
  rw [(c.sha384 m).property]
  decide

theorem hkdfExpandLabel_secret (c : Crypto) (secret : Bytes) (label : String) (messages : Bytes)
    (hlabel : (ascii label).length ≤ 249) :
    hkdfExpandLabel c 48 secret (ascii label) (c.sha384 messages).val
      = (sha384Digest c).deriveSecret secret label messages :=
  hkdfExpandLabel_digest c secret label _ (Nat.le_refl _) hlabel (sha384_length c messages)

theorem hkdfExpandLabel_plain (c : Crypto) (secret : Bytes) (label : String) {len : Nat} (h : len ≤ 48)
    (hlabel : (ascii label).length ≤ 249) :
    hkdfExpandLabel c len secret (ascii label) [] = (sha384Digest c).expandLabel secret label [] len :=
  hkdfExpandLabel_digest c secret label [] h hlabel (Nat.zero_le _)

theorem expandLabel_len (c : Crypto) (secret : Bytes) (label : String) (ctx : Bytes) (len : Nat) :
    ((sha384Digest c).expandLabel secret label ctx len).length = len :=
  Digest.expandLabel_length (sha384Md c).size_pos ..

theorem slice_overwritten (buf b : Bytes) {n : Nat} (h : b.length = n) : slice (overwrite buf b) 0 n = b := by
  rw [overwrite, slice_append_left _ _ _ _ (by omega), ← h, slice_self]

theorem finishedMac_digest (c : Crypto) (secret msgs : Bytes) :
    finishedMac c secret msgs = (sha384Digest c).finished (slice secret 0 48) msgs := by
  rw [finishedMac, hkdfExpandLabel_plain c _ "finished" (Nat.le_refl _) (by decide)]
  rfl

theorem keysIn_derived (c : Crypto) (key iv secret : Bytes) :
    keysIn (overwrite key (hkdfExpandLabel c 32 secret (ascii "key") []))
        (overwrite iv (hkdfExpandLabel c 12 secret (ascii "iv") []))
      = (sha384Digest c).trafficKeys secret 32 12 := by
  rw [hkdfExpandLabel_plain c secret "key" (by decide) (by decide),
    hkdfExpandLabel_plain c secret "iv" (by decide) (by decide), keysIn, slice_overwritten _ _ (expandLabel_len ..),
    slice_overwritten _ _ (expandLabel_len ..)]
  rfl

theorem handshakeKeys_schedule (c : Crypto) (shared : Bytes) (t : Transcript) (k : Tls13Ctx) :
    HandshakeKeys (sha384Digest c) shared t (handshakeKeys c (t.upTo 2) shared k) := by
  have hearly : hkdfExtract c (hkdfExpandLabel c 48 (hkdfExtract c (zeros 48) (zeros 48)) (ascii "derived")
      (c.sha384 []).val) shared = (sha384Digest c).handshakeSecret shared := by
    rw [hkdfExpandLabel_secret c _ "derived" [] (by decide)]
    rfl
  have hlen : ((sha384Digest c).handshakeSecret shared).length = 48 := (c.hmacSha384 _ _).property
  have hclient := hkdfExpandLabel_secret c ((sha384Digest c).handshakeSecret shared) "c hs traffic" (t.upTo 2)
    (by decide)
  have hserver := hkdfExpandLabel_secret c ((sha384Digest c).handshakeSecret shared) "s hs traffic" (t.upTo 2)
    (by decide)
  simp only [handshakeKeys, hearly, hclient, hserver]
  exact ⟨slice_overwritten _ _ hlen, slice_overwritten _ _ (expandLabel_len ..),
    slice_overwritten _ _ (expandLabel_len ..), keysIn_derived .., keysIn_derived ..⟩

theorem applicationKeys_schedule (c : Crypto) (shared : Bytes) (t : Transcript) (k : Tls13Ctx)
    (h : slice k.handshakeSecret 0 48 = (sha384Digest c).handshakeSecret shared) :
    ApplicationKeys (sha384Digest c) shared t (applicationKeys c (t.upTo 6) k) := by
  have hmaster : hkdfExtract c (hkdfExpandLabel c 48 ((sha384Digest c).handshakeSecret shared) (ascii "derived")
      (c.sha384 []).val) (zeros 48) = (sha384Digest c).masterSecret shared := by
    rw [hkdfExpandLabel_secret c _ "derived" [] (by decide)]
    rfl
  have hclient := hkdfExpandLabel_secret c ((sha384Digest c).masterSecret shared) "c ap traffic" (t.upTo 6)
    (by decide)
  have hserver := hkdfExpandLabel_secret c ((sha384Digest c).masterSecret shared) "s ap traffic" (t.upTo 6)
    (by decide)
  simp only [applicationKeys, h, hmaster, hclient, hserver]
  exact ⟨keysIn_derived .., keysIn_derived ..⟩

theorem HandshakeKeys.congr {d : Digest} {t' : Transcript} {k k' : Tls13Ctx} (h : HandshakeKeys d shared t k)
    (ht : t'.upTo 2 = t.upTo 2) (hsecret : k'.handshakeSecret = k.handshakeSecret)
    (hclient : k'.clientSecret = k.clientSecret) (hserver : k'.serverSecret = k.serverSecret)
    (hckey : k'.clientHandshakeKey = k.clientHandshakeKey) (hciv : k'.clientHandshakeIv = k.clientHandshakeIv)
    (hskey : k'.serverHandshakeKey = k.serverHandshakeKey) (hsiv : k'.serverHandshakeIv = k.serverHandshakeIv) :
    HandshakeKeys d shared t' k' := by
  have hc : d.clientHandshakeSecret shared t' = d.clientHandshakeSecret shared t := by
    rw [Digest.clientHandshakeSecret, ht, Digest.clientHandshakeSecret]
  have hs : d.serverHandshakeSecret shared t' = d.serverHandshakeSecret shared t := by
    rw [Digest.serverHandshakeSecret, ht, Digest.serverHandshakeSecret]
  constructor
  · rw [hsecret, h.secret]
  · rw [hclient, hc, h.client]
  · rw [hserver, hs, h.server]
  · rw [hckey, hciv, hc, h.clientKeys]
  · rw [hskey, hsiv, hs, h.serverKeys]

end

end Xtls.Nic
