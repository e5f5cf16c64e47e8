import Xtls.Nic.Assembly
import Xtls.Nic.HelloBounds

/-!
# Where an encrypted record is read and written

`decrypt_record` (`ssl.c` 900-996) takes the length of the tag off `cipher_text.length` in 16-bit arithmetic
and gives `execute_aes_crypto` (`ssl_crypto.c` 394-428) the rest as input length; the tag is looked for behind
the input, and the plaintext is written to `record->decrypted`, which starts at the same offset of
`record->mac_in` as `record->data` does of `record->buf`.  `unpack_application_data` (`ssl.c` 2031-2085)
then reads the inner content type from the end of the plaintext, three length bytes and the verify data.
-/

namespace Xtls.Nic

/- `op->in_len` for a record whose header is yet to be unpacked. -/
def aeadLength (r : Record) : UInt16 := (unpackHeader r).cipherTextLength - 16

def applicationDataAccesses (r : Record) : List Access :=
  [.read (r.plainText.length.toNat - 1) 1, .read 1 (handshakeHeaderSize - 1)]
    ++ if innerType r = ContentType.handshake.code then [.read handshakeHeaderSize 48] else []

/-- The input is the record's content without the tag, input and tag lie in the record, the output in
`record->mac_in`, and the plaintext of an application-data record is read inside. -/
structure DecryptSafe (env : Env) (e : Session) (r : Record) : Prop where
  length : (aeadLength r).toNat + gcmTagSize = (be16 r.data 3).toNat
  input : recordHeaderSize + (aeadLength r).toNat ≤ r.data.length
  tag : recordHeaderSize + (aeadLength r).toNat + gcmTagSize ≤ r.data.length
  output : recordStart + recordHeaderSize + (aeadLength r).toNat ≤ maxRecordSize
  unpacks : ∀ r', decrypted env e (unpackHeader r) = some r' → r'.plainText.version.major = 0x03 →
    r'.plainText.recordType = some .applicationData →
      AllWithin r'.cipherTextLength (applicationDataAccesses (takeLength r'))

def sealedPlaintext (env : Env) (e : Session) (r : Record) : Option Bytes :=
  let len := (be16 r.data 3).toNat - gcmTagSize
  (env.crypto.gcmDecrypt (slice e.tls13Ctx.clientHandshakeKey 0 32)
    (makeNonce e.tls13Ctx.clientHandshakeIv e.recvSeqNum) (slice r.data 0 recordHeaderSize)
    (slice r.data recordHeaderSize len) (slice r.data (recordHeaderSize + len) gcmTagSize)).map (·.val)

/-- The record is of one of the four types and has room for a tag; application data that verifies is not
shorter than the header of a message, nor than a Finished message if it ends like one. -/
structure RecordFits (env : Env) (e : Session) (r : Record) : Prop where
  type : (ContentType.ofByte (byteAt r.data 0)).isSome
  tag : gcmTagSize ≤ (be16 r.data 3).toNat
  content : ContentType.ofByte (byteAt r.data 0) = some .applicationData → byteAt r.data 1 = 0x03 →
    ∀ pt, sealedPlaintext env e r = some pt → pt ≠ [] →
      handshakeHeaderSize ≤ pt.length
        ∧ (byteAt pt (pt.length - 1) = ContentType.handshake.code → handshakeHeaderSize + 48 ≤ pt.length)

section

variable {env : Env} {e : Session} {r r' : Record} {pt : Bytes}

theorem toNat_sub16 (n : UInt16) : (n - 16).toNat = (65520 + n.toNat) % 65536 := by
  rw [UInt16.toNat_sub]
  rfl

theorem unpackHeader_some {type : ContentType} (h : ContentType.ofByte (byteAt r.data 0) = some type) :
    unpackHeader r
      = { r with
          plainText :=
            { recordType := some type, version := ⟨byteAt r.data 1, byteAt r.data 2⟩, length := be16 r.data 3 }
          cipherTextLength := be16 r.data 3 } := by
  unfold unpackHeader
  rw [h]

theorem aeadLength_none (h : Received r) (hnone : ContentType.ofByte (byteAt r.data 0) = none) :
    (aeadLength r).toNat = 65520 := by
  have hzero : (unpackHeader r).cipherTextLength = 0 := by
    unfold unpackHeader
    rw [hnone, h.fresh]
  unfold aeadLength
  rw [hzero]
  rfl

theorem aeadLength_some {type : ContentType} (h : ContentType.ofByte (byteAt r.data 0) = some type) :
    (aeadLength r).toNat = (65520 + (be16 r.data 3).toNat) % 65536 := by
  unfold aeadLength
  rw [unpackHeader_some h, toNat_sub16]

theorem aeadLength_fits (h : Received r) : (aeadLength r).toNat + gcmTagSize = (be16 r.data 3).toNat
    ↔ (ContentType.ofByte (byteAt r.data 0)).isSome ∧ gcmTagSize ≤ (be16 r.data 3).toNat := by
  have hlt := h.declared
  have hmax : maxRecordSize = 16061 := rfl
  have htag : gcmTagSize = 16 := rfl
  cases htype : ContentType.ofByte (byteAt r.data 0) with
  | none =>
    rw [aeadLength_none h htype]
    constructor
    · intro heq
      omega
    · exact fun hf => absurd hf.1 nofun
  | some type =>
    have hsome : (some type).isSome = true := rfl
    rw [aeadLength_some htype, and_iff_right hsome]
    omega

theorem sealedPlaintext_eq {type : ContentType} (htype : ContentType.ofByte (byteAt r.data 0) = some type)
    (hlen : (aeadLength r).toNat = (be16 r.data 3).toNat - gcmTagSize) :
    aeadOpen env e (unpackHeader r) = sealedPlaintext env e r := by
  unfold aeadLength at hlen
  rw [unpackHeader_some htype] at hlen ⊢
  unfold aeadOpen sealedPlaintext
  dsimp only at hlen ⊢
  rw [hlen]

theorem sealedPlaintext_length (h : sealedPlaintext env e r = some pt) :
    pt.length = (be16 r.data 3).toNat - gcmTagSize := by
  unfold sealedPlaintext at h
  obtain ⟨p, -, rfl⟩ := Option.map_eq_some_iff.mp h
  rw [p.property, slice_length]

def withPlaintext (e : Session) (r : Record) (pt : Bytes) : Record :=
  { r with
    seqNum := e.recvSeqNum, isEncrypted := true, cipherTextLength := r.cipherTextLength - 16
    macIn := slice r.data 0 3 ++ put16 (r.cipherTextLength - 16) ++ pt }

theorem decrypted_some : decrypted env e r = some r'
    ↔ ∃ pt, aeadOpen env e r = some pt ∧ pt ≠ [] ∧ r' = withPlaintext e r pt := by
  unfold decrypted
  cases aeadOpen env e r with
  | none => exact ⟨fun h => absurd h nofun, fun ⟨_, h, _⟩ => absurd h nofun⟩
  | some pt =>
    cases pt with
    | nil =>
      refine ⟨fun h => absurd h nofun, fun ⟨pt, h, hne, _⟩ => ?_⟩
      cases h
      exact absurd rfl hne
    | cons b pt =>
      constructor
      · intro h
        cases h
        exact ⟨b :: pt, rfl, List.cons_ne_nil b pt, rfl⟩
      · rintro ⟨pt', h, -, rfl⟩
        cases h
        rfl

theorem applicationDataAccesses_within {len : UInt16} (hlen : r.plainText.length = len) (hpos : 0 < len.toNat) :
    AllWithin len (applicationDataAccesses r) ↔ handshakeHeaderSize ≤ len.toNat
      ∧ (innerType r = ContentType.handshake.code → handshakeHeaderSize + 48 ≤ len.toNat) := by
  have hhdr : handshakeHeaderSize = 4 := rfl
  unfold applicationDataAccesses
  rw [hlen, allWithin_append]
  simp only [allWithin_cons, allWithin_nil, Access.Within, and_true]
  split
  · rename_i hinner
    simp only [allWithin_cons, allWithin_nil, Access.Within, and_true, hinner, true_implies]
    omega
  · rename_i hinner
    simp only [allWithin_nil, and_true, hinner, false_implies]
    omega

theorem unpacked_within (h : Received r) {type : ContentType}
    (htype : ContentType.ofByte (byteAt r.data 0) = some type)
    (hlen : (aeadLength r).toNat = pt.length) (hne : pt ≠ []) :
    AllWithin (withPlaintext e (unpackHeader r) pt).cipherTextLength
        (applicationDataAccesses (takeLength (withPlaintext e (unpackHeader r) pt)))
      ↔ handshakeHeaderSize ≤ pt.length
        ∧ (byteAt pt (pt.length - 1) = ContentType.handshake.code → handshakeHeaderSize + 48 ≤ pt.length) := by
  have hpos : 0 < pt.length := List.length_pos_of_ne_nil hne
  have hplace : (withPlaintext e (unpackHeader r) pt).inPlace = false := by
    show (unpackHeader r).inPlace = false
    rw [unpackHeader_some htype, h.fresh]
  have htake : takeLength (withPlaintext e (unpackHeader r) pt)
      = { withPlaintext e (unpackHeader r) pt with
          plainText := { (withPlaintext e (unpackHeader r) pt).plainText with length := aeadLength r } } := by
    unfold takeLength
    rw [if_neg (by rw [hplace]; exact Bool.false_ne_true)]
    rfl
  have hinner : innerType (takeLength (withPlaintext e (unpackHeader r) pt)) = byteAt pt (pt.length - 1) := by
    have hdecrypted : (takeLength (withPlaintext e (unpackHeader r) pt)).decrypted
        = slice (unpackHeader r).data 0 3 ++ put16 (aeadLength r) ++ pt := by
      rw [htake]
      unfold Record.decrypted
      rw [if_neg (by rw [hplace]; exact Bool.false_ne_true)]
      rfl
    have hlast : (takeLength (withPlaintext e (unpackHeader r) pt)).plainText.length = aeadLength r := by
      rw [htake]
    have hfront : (slice (unpackHeader r).data 0 3 ++ put16 (aeadLength r)).length = 5 := by
      rw [List.length_append, slice_length, put16_length]
    unfold innerType
    rw [hdecrypted, hlast, hlen, byteAt_append_right _ _ _ (by rw [hfront]; omega), hfront]
    congr 1
    omega
  have hcipher : (withPlaintext e (unpackHeader r) pt).cipherTextLength = aeadLength r := rfl
  rw [hcipher, applicationDataAccesses_within (by rw [htake]) (by rw [hlen]; exact hpos), hlen, hinner]

/-- A received record is decrypted and unpacked inside its bounds exactly if it fits. -/
theorem decrypt_inRecord (env : Env) (e : Session) (r : Record) (h : Received r) :
    DecryptSafe env e r ↔ RecordFits env e r := by
  have hmax : maxRecordSize = 16061 := rfl
  have hfull : r.data.length = (be16 r.data 3).toNat + 5 := h.full.trans h.length
  have hlt := h.declared
  constructor
  · intro hs
    obtain ⟨htype, htag⟩ := (aeadLength_fits h).mp hs.length
    refine ⟨htype, htag, fun happ hmajor pt hpt hne => ?_⟩
    have hlen : (aeadLength r).toNat = (be16 r.data 3).toNat - gcmTagSize := by
      rw [← hs.length, Nat.add_sub_cancel]
    have hopen := (sealedPlaintext_eq happ hlen).trans hpt
    have hwithin := hs.unpacks _ (decrypted_some.mpr ⟨pt, hopen, hne, rfl⟩)
      (by show (unpackHeader r).plainText.version.major = 0x03; rw [unpackHeader_some happ]; exact hmajor)
      (by show (unpackHeader r).plainText.recordType = _; rw [unpackHeader_some happ])
    exact (unpacked_within h happ (hlen.trans (sealedPlaintext_length hpt).symm) hne).mp hwithin
  · intro hf
    have hlength := (aeadLength_fits h).mpr ⟨hf.type, hf.tag⟩
    have hhdr : recordHeaderSize = 5 := rfl
    have hstart : recordStart = 8 := rfl
    have htag : gcmTagSize = 16 := rfl
    refine ⟨hlength, by omega, by omega, by omega, fun r' hr' hmajor happ => ?_⟩
    obtain ⟨type, htype⟩ := Option.isSome_iff_exists.mp hf.type
    have hlen : (aeadLength r).toNat = (be16 r.data 3).toNat - gcmTagSize := by
      rw [← hlength, Nat.add_sub_cancel]
    obtain ⟨pt, hopen, hne, rfl⟩ := decrypted_some.mp hr'
    rw [sealedPlaintext_eq htype hlen] at hopen
    change (unpackHeader r).plainText.version.major = 0x03 at hmajor
    change (unpackHeader r).plainText.recordType = _ at happ
    rw [unpackHeader_some htype] at hmajor happ
    have hcontent := hf.content (htype.trans happ) hmajor pt hopen hne
    exact (unpacked_within h htype (hlen.trans (sealedPlaintext_length hopen).symm) hne).mpr hcontent

def sampleRecord : Record := { slot := 0, length := 74, data := sampleFinished }

theorem decrypt_inRecord_finished : DecryptSafe sampleEnv {} sampleRecord := by
  have hreceived : Received sampleRecord :=
    ⟨⟨by decide, by decide, by decide, by decide, rfl⟩, by decide⟩
  refine (decrypt_inRecord sampleEnv {} sampleRecord hreceived).mpr ⟨by decide, by decide, fun _ _ pt hpt _ => ?_⟩
  have hlen : pt.length = 53 := sealedPlaintext_length hpt
  have hhdr : handshakeHeaderSize = 4 := rfl
  omega

/- A second ChangeCipherSpec behind the first. -/
def sampleTwoSpecs : List Input :=
  sampleMigrated ++ [.packet 0 (sampleSegment 211 5 (sampleCipherSpec ++ sampleCipherSpec) (by decide))]

def Event.decryptsSpec : Event → Bool
  | .read conn r _ _ =>
    conn.sess.readSp.bulkCipherAlgorithm ≠ .noCipher ∧ conn.sess.state ≠ .active ∧ r.data = sampleCipherSpec
  | _ => false

/-- Its length less the tag is 65521. -/
theorem secondSpec_outOfRecord : ∃ s, run (step sampleEnv) sampleTwoSpecs (initial 2 8) = .ok s
    ∧ ∃ conn r rest room, .read conn r rest room ∈ s.ctx.trace
      ∧ conn.sess.readSp.bulkCipherAlgorithm ≠ .noCipher ∧ conn.sess.state ≠ .active
      ∧ ¬ DecryptSafe sampleEnv conn.sess r := by
  obtain ⟨s, hs, hspec⟩ := endsIn_ok (fun s => s.ctx.trace.any Event.decryptsSpec)
    (run (step sampleEnv) sampleTwoSpecs (initial 2 8)) (by decide +kernel)
  obtain ⟨event, hevent, hspec⟩ := List.any_eq_true.mp hspec
  cases event with
  | read conn r rest room =>
    obtain ⟨hcipher, hstate, hdata⟩ := of_decide_eq_true hspec
    refine ⟨s, hs, conn, r, rest, room, hevent, hcipher, hstate, fun hsafe => ?_⟩
    have htag := ((aeadLength_fits ((run_assembled hs).2.read conn r rest room hevent)).mp hsafe.length).2
    rw [hdata] at htag
    exact absurd htag (by decide)
  | _ => cases hspec

end

end Xtls.Nic
