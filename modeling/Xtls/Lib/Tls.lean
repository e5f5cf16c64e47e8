import Xtls.Lib.Endian
import Xtls.Lib.Layout

/-!
# The first flight of a TLS 1.3 server

A reader for the records and messages a client gets.  A vector is its length, in a fixed number of
bytes, and its contents; a message is read when nothing is left behind it, so that every length is the
number of bytes it stands before.
-/

namespace Xtls

def takeBytes (n : Nat) (b : Bytes) : Option (Bytes × Bytes) :=
  if n ≤ b.length then some (b.take n, b.drop n) else none

/-- A vector with a length of `w` bytes. -/
def vector (w : Nat) (c : Bytes) : Bytes := beBytes w c.length ++ c

def readVector (w : Nat) (b : Bytes) : Option (Bytes × Bytes) := do
  let (n, b) ← takeBytes w b
  takeBytes (beValue n) b

def whole {α : Type} : Option (α × Bytes) → Option α
  | some (a, []) => some a
  | _ => none

/-- One value after the other, to the end. -/
def readAll {α : Type} (read : Bytes → Option (α × Bytes)) : Nat → Bytes → Option (List α)
  | _, [] => some []
  | 0, _ => none
  | fuel + 1, b => do
    let (a, b) ← read b
    let l ← readAll read fuel b
    return a :: l

section

variable {a b c rest : Bytes} {n w fuel : Nat}

theorem takeBytes_append (rest : Bytes) (h : a.length = n) : takeBytes n (a ++ rest) = some (a, rest) := by
  have hle : n ≤ (a ++ rest).length := by
    rw [List.length_append]
    omega
  rw [takeBytes, if_pos hle, ← h, List.take_left, List.drop_left]

theorem takeBytes_some (h : takeBytes n b = some (a, rest)) :
    n ≤ b.length ∧ a = b.take n ∧ rest = b.drop n := by
  unfold takeBytes at h
  split at h
  · rename_i hle
    cases h
    exact ⟨hle, rfl, rfl⟩
  · cases h

theorem readVector_some (h : readVector 1 b = some (c, rest)) :
    1 + (byteAt b 0).toNat ≤ b.length ∧ c = slice b 1 (byteAt b 0).toNat := by
  obtain ⟨⟨n, b'⟩, hn, h⟩ := Option.bind_eq_some_iff.mp h
  obtain ⟨hle, rfl, rfl⟩ := takeBytes_some hn
  obtain ⟨hle', hc, -⟩ := takeBytes_some h
  have hval : beValue (b.take 1) = (byteAt b 0).toNat := by
    cases b with
    | nil => exact absurd hle (by decide)
    | cons x b => simp [beValue, leValue, byteAt]
  rw [hval] at hle' hc
  rw [List.length_drop] at hle'
  exact ⟨by omega, by rw [hc, slice_of_le _ _ _ (by omega)]⟩

@[simp] theorem vector_length (w : Nat) (c : Bytes) : (vector w c).length = w + c.length := by
  rw [vector, List.length_append, beBytes_length]

theorem readVector_vector (rest : Bytes) (h : c.length < 256 ^ w) :
    readVector w (vector w c ++ rest) = some (c, rest) := by
  rw [readVector, vector, List.append_assoc, takeBytes_append _ (beBytes_length w _)]
  show takeBytes (beValue (beBytes w c.length)) (c ++ rest) = _
  rw [beValue_beBytes h, takeBytes_append _ rfl]

theorem readAll_flatMap {α : Type} {read : Bytes → Option (α × Bytes)} {encode : α → Bytes} (l : List α)
    (hread : ∀ x ∈ l, ∀ rest, read (encode x ++ rest) = some (x, rest)) (hne : ∀ x ∈ l, encode x ≠ [])
    (hfuel : l.length ≤ fuel) : readAll read fuel (l.flatMap encode) = some l := by
  induction l generalizing fuel with
  | nil => cases fuel <;> rfl
  | cons x l ih =>
    cases fuel with
    | zero => exact absurd hfuel (Nat.not_succ_le_zero _)
    | succ fuel =>
      have hx := hread x List.mem_cons_self (l.flatMap encode)
      have hl := ih (fun y hy => hread y (List.mem_cons_of_mem x hy))
        (fun y hy => hne y (List.mem_cons_of_mem x hy)) (Nat.le_of_succ_le_succ hfuel)
      rw [List.flatMap_cons]
      cases hb : encode x ++ l.flatMap encode with
      | nil => exact absurd (List.append_eq_nil_iff.mp hb).1 (hne x List.mem_cons_self)
      | cons y b =>
        rw [← hb, readAll]
        · rw [hx]
          show (readAll read fuel (l.flatMap encode)).bind _ = _
          rw [hl]
          rfl
        · rw [hb]
          exact List.cons_ne_nil y b

theorem length_le_flatMap {α : Type} {encode : α → Bytes} (l : List α) (hne : ∀ x ∈ l, encode x ≠ []) :
    l.length ≤ (l.flatMap encode).length := by
  induction l with
  | nil => exact Nat.le_refl 0
  | cons x l ih =>
    have hx := List.length_pos_iff.mpr (hne x List.mem_cons_self)
    have hl := ih fun y hy => hne y (List.mem_cons_of_mem x hy)
    rw [List.flatMap_cons, List.length_append, List.length_cons]
    omega

end

namespace Tls

structure Record where
  type : Byte
  version : Byte × Byte
  fragment : Bytes
  deriving DecidableEq

def Record.encode (r : Record) : Bytes := [r.type, r.version.1, r.version.2] ++ vector 2 r.fragment

def readRecord : Bytes → Option (Record × Bytes)
  | t :: x :: y :: b => do
    let (fragment, b) ← readVector 2 b
    return (⟨t, (x, y), fragment⟩, b)
  | _ => none

def readRecords (b : Bytes) : Option (List Record) := readAll readRecord b.length b

/-- A handshake message: its type, and its body behind a length of three bytes. -/
def message (type : Byte) (body : Bytes) : Bytes := type :: vector 3 body

def readMessage : Bytes → Option (Byte × Bytes)
  | t :: b => do
    let body ← whole (readVector 3 b)
    return (t, body)
  | [] => none

structure Extension where
  type : Nat
  data : Bytes
  deriving DecidableEq

def Extension.encode (x : Extension) : Bytes := beBytes 2 x.type ++ vector 2 x.data

def readExtension (b : Bytes) : Option (Extension × Bytes) := do
  let (t, b) ← takeBytes 2 b
  let (data, b) ← readVector 2 b
  return (⟨beValue t, data⟩, b)

def readExtensions (b : Bytes) : Option (List Extension × Bytes) := do
  let (c, b) ← readVector 2 b
  let l ← readAll readExtension c.length c
  return (l, b)

structure ServerHello where
  version : Bytes
  random : Bytes
  sessionId : Bytes
  cipherSuite : Bytes
  compression : Bytes
  extensions : List Extension
  deriving DecidableEq

def readServerHello (b : Bytes) : Option ServerHello := whole do
  let (version, b) ← takeBytes 2 b
  let (random, b) ← takeBytes 32 b
  let (sessionId, b) ← readVector 1 b
  let (cipherSuite, b) ← takeBytes 2 b
  let (compression, b) ← takeBytes 1 b
  let (extensions, b) ← readExtensions b
  return (⟨version, random, sessionId, cipherSuite, compression, extensions⟩, b)

/-- The `legacy_session_id` of a ClientHello: behind the header of the message, the version and the random. -/
def readClientSessionId (b : Bytes) : Option Bytes := do
  let (_, b) ← takeBytes 38 b
  let (sessionId, _) ← readVector 1 b
  return sessionId

/- The group and the key of a `key_share` extension of the server. -/
def readKeyShare (b : Bytes) : Option (Bytes × Bytes) := do
  let (group, b) ← takeBytes 2 b
  let key ← whole (readVector 2 b)
  return (group, key)

structure CertificateEntry where
  data : Bytes
  extensions : List Extension
  deriving DecidableEq

def CertificateEntry.encode (x : CertificateEntry) : Bytes :=
  vector 3 x.data ++ vector 2 (x.extensions.flatMap Extension.encode)

structure CertificateEntry.Fits (x : CertificateEntry) : Prop where
  data : x.data.length < 256 ^ 3
  each : ∀ y ∈ x.extensions, y.type < 65536 ∧ y.data.length < 65536
  extensions : (x.extensions.flatMap Extension.encode).length < 65536

def readCertificateEntry (b : Bytes) : Option (CertificateEntry × Bytes) := do
  let (data, b) ← readVector 3 b
  let (extensions, b) ← readExtensions b
  return (⟨data, extensions⟩, b)

/-- The request context and the entries of a Certificate. -/
def readCertificate (b : Bytes) : Option (Bytes × List CertificateEntry) := whole do
  let (context, b) ← readVector 1 b
  let (c, b) ← readVector 3 b
  let l ← readAll readCertificateEntry c.length c
  return ((context, l), b)

/-- The algorithm and the signature of a CertificateVerify. -/
def readCertificateVerify (b : Bytes) : Option (Bytes × Bytes) := whole do
  let (algorithm, b) ← takeBytes 2 b
  let (signature, b) ← readVector 2 b
  return ((algorithm, signature), b)

section

variable {rest : Bytes}

theorem readRecord_encode {r : Record} (rest : Bytes) (h : r.fragment.length < 65536) :
    readRecord (r.encode ++ rest) = some (r, rest) := by
  have hv : readVector 2 (vector 2 r.fragment ++ rest) = some (r.fragment, rest) := readVector_vector rest h
  show (readVector 2 (vector 2 r.fragment ++ rest)).bind _ = _
  rw [hv]
  rfl

theorem readRecords_encode (l : List Record) (h : ∀ r ∈ l, r.fragment.length < 65536) :
    readRecords (l.flatMap Record.encode) = some l := by
  have hne : ∀ r ∈ l, Record.encode r ≠ [] := fun r _ => List.cons_ne_nil _ _
  exact readAll_flatMap l (fun r hr rest => readRecord_encode rest (h r hr)) hne (length_le_flatMap l hne)

theorem readMessage_message (type : Byte) {body : Bytes} (h : body.length < 256 ^ 3) :
    readMessage (message type body) = some (type, body) := by
  have hv := readVector_vector [] h
  rw [List.append_nil] at hv
  show (whole (readVector 3 (vector 3 body))).bind _ = _
  rw [hv]
  rfl

theorem readClientSessionId_some {b id : Bytes} (h : readClientSessionId b = some id) :
    39 + (byteAt b 38).toNat ≤ b.length ∧ id = slice b 39 (byteAt b 38).toNat := by
  obtain ⟨⟨a, b'⟩, ha, h⟩ := Option.bind_eq_some_iff.mp h
  obtain ⟨hle, -, rfl⟩ := takeBytes_some ha
  obtain ⟨⟨c, rest⟩, hc, h⟩ := Option.bind_eq_some_iff.mp h
  cases h
  obtain ⟨hle', hc⟩ := readVector_some hc
  rw [byteAt_drop, Nat.add_zero, List.length_drop] at hle'
  rw [byteAt_drop, Nat.add_zero] at hc
  refine ⟨by omega, ?_⟩
  rw [hc, slice_of_le _ _ _ (by rw [List.length_drop]; omega), slice_of_le _ _ _ (by omega), List.drop_drop]

theorem readExtension_encode {x : Extension} (rest : Bytes) (ht : x.type < 65536) (h : x.data.length < 65536) :
    readExtension (x.encode ++ rest) = some (x, rest) := by
  have hv : readVector 2 (vector 2 x.data ++ rest) = some (x.data, rest) := readVector_vector rest h
  have hval : beValue (beBytes 2 x.type) = x.type := beValue_beBytes ht
  rw [readExtension, Extension.encode, List.append_assoc, takeBytes_append _ (beBytes_length 2 _)]
  show (readVector 2 (vector 2 x.data ++ rest)).bind _ = _
  rw [hv]
  show some (({ type := beValue (beBytes 2 x.type), data := x.data } : Extension), rest) = _
  rw [hval]

theorem readExtensions_encode (l : List Extension) (rest : Bytes)
    (h : ∀ x ∈ l, x.type < 65536 ∧ x.data.length < 65536) (hlen : (l.flatMap Extension.encode).length < 65536) :
    readExtensions (vector 2 (l.flatMap Extension.encode) ++ rest) = some (l, rest) := by
  have hv : readVector 2 (vector 2 (l.flatMap Extension.encode) ++ rest)
      = some (l.flatMap Extension.encode, rest) := readVector_vector rest hlen
  have hne : ∀ x ∈ l, Extension.encode x ≠ [] := fun x _ h0 => by
    have hl : (beBytes 2 x.type ++ vector 2 x.data).length = 0 := by rw [← Extension.encode, h0]; rfl
    rw [List.length_append, beBytes_length] at hl
    omega
  have hl := readAll_flatMap l (fun x hx rest => readExtension_encode rest (h x hx).1 (h x hx).2) hne
    (length_le_flatMap l hne)
  rw [readExtensions, hv]
  show (readAll readExtension _ (l.flatMap Extension.encode)).bind _ = _
  rw [hl]
  rfl

theorem readCertificateEntry_encode {x : CertificateEntry} (rest : Bytes) (h : x.Fits) :
    readCertificateEntry (x.encode ++ rest) = some (x, rest) := by
  have hv := readVector_vector (vector 2 (x.extensions.flatMap Extension.encode) ++ rest) h.data
  have hx := readExtensions_encode x.extensions rest h.each h.extensions
  rw [readCertificateEntry, CertificateEntry.encode, List.append_assoc, hv]
  show (readExtensions (vector 2 (x.extensions.flatMap Extension.encode) ++ rest)).bind _ = _
  rw [hx]
  rfl

theorem readCertificate_encode (context : Bytes) (l : List CertificateEntry) (hc : context.length < 256 ^ 1)
    (hl : ∀ x ∈ l, x.Fits) (hlen : (l.flatMap CertificateEntry.encode).length < 256 ^ 3) :
    readCertificate (vector 1 context ++ vector 3 (l.flatMap CertificateEntry.encode)) = some (context, l) := by
  have hv := readVector_vector (vector 3 (l.flatMap CertificateEntry.encode)) hc
  have hv' := readVector_vector [] hlen
  rw [List.append_nil] at hv'
  have hne : ∀ x ∈ l, CertificateEntry.encode x ≠ [] := fun x _ h0 => by
    have hl : (vector 3 x.data ++ vector 2 (x.extensions.flatMap Extension.encode)).length = 0 := by
      rw [← CertificateEntry.encode, h0]
      rfl
    rw [List.length_append, vector_length] at hl
    omega
  have hall := readAll_flatMap l (fun x hx rest => readCertificateEntry_encode rest (hl x hx)) hne
    (length_le_flatMap l hne)
  rw [readCertificate, hv]
  show whole ((readVector 3 (vector 3 (l.flatMap CertificateEntry.encode))).bind _) = _
  rw [hv']
  show whole ((readAll readCertificateEntry _ (l.flatMap CertificateEntry.encode)).bind _) = _
  rw [hall]
  rfl

theorem readCertificateVerify_encode {algorithm signature : Bytes} (ha : algorithm.length = 2)
    (hs : signature.length < 256 ^ 2) :
    readCertificateVerify (algorithm ++ vector 2 signature) = some (algorithm, signature) := by
  have hv := readVector_vector [] hs
  rw [List.append_nil] at hv
  rw [readCertificateVerify, takeBytes_append _ ha]
  show whole ((readVector 2 (vector 2 signature)).bind _) = _
  rw [hv]
  rfl

end

end Tls

end Xtls
