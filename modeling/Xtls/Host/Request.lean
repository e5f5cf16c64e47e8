import Mathlib.Data.List.Infix
import Mathlib.Data.List.TakeWhile
import Xtls.Host.Response

/-!
# Receiving a request

`find_http_header`, `http_get_url` (`helpers.c` 21-56) and `handle_received_pkt` (`main.c` 49-162).  A text
ends before its first zero byte; behind the bytes received so far the request buffer is 0.
-/

namespace Xtls.Host

def cstr (b : Bytes) : Bytes := b.takeWhile (· ≠ 0)

def lf : Byte := 10
def cr : Byte := 13
def space : Byte := 32
def tab : Byte := 9

def urlLen : Nat := 256
def nameLimit : Nat := 256

/- The loop of `find_http_header` from position `i` on. -/
def findHeaderFrom : Nat → Bytes → Nat
  | _, [] => 0
  | i, c :: rest =>
    if c = 0 then 0
    else if c ≠ lf then findHeaderFrom (i + 1) rest
    else if byteAt rest 0 = lf then i + 1
    else if byteAt rest 0 = cr ∧ byteAt rest 1 = lf then i + 2
    else findHeaderFrom (i + 1) rest

/-- `find_http_header`: the position of the line feed that ends the header, 0 if there is none. -/
def findHttpHeader (data : Bytes) : Nat := findHeaderFrom 0 data

def spaceOrTab (c : Byte) : Bool := c = space ∨ c = tab

def httpGet : Bytes := ascii "GET"

/-- `http_get_url` on the buffer `value`; a method other than `GET` does not end it. -/
def httpGetUrl (data value : Bytes) (valueLen : Nat) : Bytes :=
  let value := if data.take httpGet.length ≠ httpGet then overwrite value [0] else value
  let ret := (data.drop httpGet.length).dropWhile spaceOrTab
  let url := (ret.takeWhile fun c => c ≠ 0 ∧ c ≠ space).take (valueLen - 1)
  overwrite value (url ++ [0])

/-- `file_cache_t`. -/
structure FileCache where
  fullname : Bytes := []
  size : UInt64 := 0
  file : Bytes := []

/-- What `recvmsg` returns: a failure, or bytes with the record types of the control messages. -/
inductive RecvMsg where
  | again
  | failed
  | data (b : Bytes) (types : List UInt8)
  deriving DecidableEq, Repr

/-- `enum req_handler_result`. -/
inductive RecvResult where
  | err | continue | ok | tls | closeNotify | fin
  deriving DecidableEq, Repr

/- The loop over the control messages. -/
def handleControl (b : Bytes) : List UInt8 → Option RecvResult
  | [] => none
  | t :: ts =>
    if t = 0x15 ∧ b.length = 2 ∧ byteAt b 0 = 0x01 ∧ byteAt b 1 = 0x00 then some .closeNotify
    else if t = 0x16 ∨ t = 0x14 then some .tls
    else handleControl b ts

section

variable (fcache : List FileCache) (wwwMain : Bytes)

/- The part of `handle_received_pkt` behind the end of the header; `value` is what `url` holds before. -/
def lookupFile (value : Bytes) (c : ConnState) : ConnState :=
  let c := { c with keepAlive := !decide (ascii "connection: close" <:+: cstr c.reqBuf) }
  let url := cstr (httpGetUrl c.reqBuf value urlLen)
  let reqFname := wwwMain ++ url
  if nameLimit ≤ reqFname.length then { c with scode := 414 }
  else
    match fcache.findIdx? fun f => f.fullname = reqFname with
    | none => { c with scode := 404 }
    | some i => { c with scode := 200, fileIdx := some i, fileSize := (fcache.getD i {}).size }

def handleReceivedPkt (value : Bytes) (msg : RecvMsg) (c : ConnState) : RecvResult × ConnState :=
  match msg with
  | .again => (.continue, { c with recvBytes := c.recvBytes - 1 })
  | .failed => (.err, { c with recvBytes := c.recvBytes - 1 })
  | .data b types =>
    let c := { c with recvBytes := c.recvBytes + b.length }
    if b.length = 0 then (.fin, c)
    else
      match handleControl b types with
      | some r => (r, c)
      | none =>
        if httpHeaderLen < c.reqBuf.length + b.length + 1 then (.ok, { c with scode := 414 })
        else
          let c := { c with reqBuf := c.reqBuf ++ b }
          if findHttpHeader c.reqBuf = 0 then (.continue, c) else (.ok, lookupFile fcache wwwMain value c)

end

/-! ### The request line -/

def white (c : Byte) : Bool := c = space ∨ c = tab ∨ c = cr ∨ c = lf

def method (b : Bytes) : Bytes := (cstr b).takeWhile fun c => !white c

def afterMethod (b : Bytes) : Bytes := ((cstr b).dropWhile fun c => !white c).dropWhile spaceOrTab

/-- The second token of the request line. -/
def target (b : Bytes) : Bytes := (afterMethod b).takeWhile fun c => !white c

def afterTarget (b : Bytes) : Bytes := (afterMethod b).dropWhile fun c => !white c

/-- The method is `GET`, and the second token fills the URL or ends at a space before. -/
def GetsTarget (b : Bytes) : Prop :=
  method b = httpGet ∧ ((target b).length = 255 ∨ (target b).length < 255 ∧ (afterTarget b).head? = some space)

section

variable {b : Bytes}

theorem cstr_zero (u rest : Bytes) (h : ∀ c ∈ u, c ≠ 0) : cstr (u ++ 0 :: rest) = u := by
  have hall : ∀ c ∈ u, decide (c ≠ 0) = true := fun c hc => decide_eq_true (h c hc)
  rw [cstr, List.takeWhile_append_of_pos hall]
  simp only [List.takeWhile_cons, ne_eq, not_true_eq_false, decide_false, Bool.false_eq_true, if_false,
    List.append_nil]

theorem cstr_split (b : Bytes) : ∃ z, b = cstr b ++ z ∧ (z = [] ∨ ∃ rest, z = 0 :: rest) := by
  induction b with
  | nil => exact ⟨[], rfl, .inl rfl⟩
  | cons c b ih =>
    by_cases hc : c = 0
    · exact ⟨c :: b, by rw [hc]; rfl, .inr ⟨b, by rw [hc]⟩⟩
    · obtain ⟨z, hz, hend⟩ := ih
      refine ⟨z, ?_, hend⟩
      have hcons : cstr (c :: b) = c :: cstr b := List.takeWhile_cons_of_pos (decide_eq_true hc)
      rw [hcons, List.cons_append, ← hz]

theorem mem_cstr {c : Byte} (h : c ∈ cstr b) : c ≠ 0 := by
  have hp := List.mem_takeWhile_imp h
  exact of_decide_eq_true hp

theorem lf_mem_of_header {i : Nat} (h : findHeaderFrom i b ≠ 0) : lf ∈ cstr b := by
  induction b generalizing i with
  | nil => exact absurd rfl h
  | cons c b ih =>
    rw [findHeaderFrom] at h
    by_cases hc : c = 0
    · rw [if_pos hc] at h
      exact absurd rfl h
    · have hcons : cstr (c :: b) = c :: cstr b := List.takeWhile_cons_of_pos (decide_eq_true hc)
      rw [hcons]
      by_cases hlf : c = lf
      · rw [hlf]
        exact List.mem_cons_self
      · rw [if_neg hc, if_pos hlf] at h
        exact List.mem_cons_of_mem c (ih h)

theorem cstr_httpGetUrl (data value : Bytes) : cstr (httpGetUrl data value urlLen)
    = (((data.drop 3).dropWhile spaceOrTab).takeWhile fun c => c ≠ 0 ∧ c ≠ space).take 255 := by
  have hnul : ∀ c ∈ (((data.drop 3).dropWhile spaceOrTab).takeWhile fun c => c ≠ 0 ∧ c ≠ space).take 255,
      c ≠ 0 := fun c hc => by
    have hp := List.mem_takeWhile_imp (List.mem_of_mem_take hc)
    exact (of_decide_eq_true hp).1
  rw [httpGetUrl, overwrite, List.append_assoc]
  exact cstr_zero _ _ hnul

theorem takeWhile_text (p : Byte → Bool) (t z : Bytes) (ht : ∀ c ∈ t, c ≠ 0) (hz : z = [] ∨ ∃ rest, z = 0 :: rest)
    : (t ++ z).takeWhile (fun c => c ≠ 0 ∧ p c = true) = t.takeWhile p := by
  induction t with
  | nil =>
    rcases hz with rfl | ⟨rest, rfl⟩ <;> simp
  | cons c t ih =>
    have hc := ht c List.mem_cons_self
    rw [List.cons_append, List.takeWhile_cons, List.takeWhile_cons, ih fun d hd => ht d (List.mem_cons_of_mem c hd)]
    simp [hc]

theorem dropBlanks_text (t z : Bytes) (hz : z = [] ∨ ∃ rest, z = 0 :: rest) :
    (t ++ z).dropWhile spaceOrTab = t.dropWhile spaceOrTab ++ z := by
  induction t with
  | nil => rcases hz with rfl | ⟨rest, rfl⟩ <;> rfl
  | cons c t ih =>
    rw [List.cons_append, List.dropWhile_cons, List.dropWhile_cons, ih]
    split <;> rfl

/- For a `GET`, the URL is the second token up to the next space, cut to its buffer. -/
theorem url_of_get (h : method b = httpGet) (value : Bytes) :
    cstr (httpGetUrl b value urlLen) = (target b ++ (afterTarget b).takeWhile (· ≠ space)).take 255 := by
  obtain ⟨z, hb, hz⟩ := cstr_split b
  have htext : cstr b = httpGet ++ (cstr b).dropWhile fun c => !white c := by
    rw [← h, method, List.takeWhile_append_dropWhile]
  have hdrop : b.drop 3 = ((cstr b).dropWhile fun c => !white c) ++ z := by
    have hall : b = httpGet ++ (((cstr b).dropWhile fun c => !white c) ++ z) := by
      rw [← List.append_assoc, ← htext]
      exact hb
    have hcut := congrArg (List.drop 3) hall
    exact hcut
  have hnul : ∀ c ∈ afterMethod b, c ≠ 0 := fun c hc =>
    mem_cstr ((List.dropWhile_sublist _).subset ((List.dropWhile_sublist _).subset hc))
  have hspace : ∀ c ∈ target b, decide (c ≠ space) = true := fun c hc => by
    have hw := List.mem_takeWhile_imp hc
    refine decide_eq_true fun heq => ?_
    rw [heq] at hw
    cases hw
  rw [cstr_httpGetUrl, hdrop, dropBlanks_text _ _ hz]
  have htake := takeWhile_text (fun c => decide (c ≠ space)) (afterMethod b) z hnul hz
  simp only [decide_eq_true_eq] at htake
  rw [afterMethod] at htake
  rw [htake]
  show List.take 255 ((afterMethod b).takeWhile _) = _
  rw [← List.takeWhile_append_of_pos hspace, target, afterTarget, List.takeWhile_append_dropWhile]

theorem afterTarget_ne_nil (hget : method b = httpGet) (hfull : findHttpHeader b ≠ 0) : afterTarget b ≠ [] := by
  intro hnil
  have hlf := lf_mem_of_header hfull
  have hnot : ∀ c ∈ cstr b, c ≠ lf := fun c hc => by
    have htext : cstr b = method b ++ ((cstr b).dropWhile fun c => !white c) :=
      (List.takeWhile_append_dropWhile ..).symm
    have hrest : ((cstr b).dropWhile fun c => !white c)
        = (((cstr b).dropWhile fun c => !white c).takeWhile spaceOrTab) ++ target b := by
      have htgt : target b = afterMethod b := by
        rw [← List.append_nil (target b), ← hnil]
        exact List.takeWhile_append_dropWhile ..
      rw [htgt]
      exact (List.takeWhile_append_dropWhile ..).symm
    rw [htext, hrest, hget] at hc
    rcases List.mem_append.mp hc with hc | hc
    · rintro rfl
      revert hc
      decide
    rcases List.mem_append.mp hc with hc | hc
    · have hp := List.mem_takeWhile_imp hc
      rintro rfl
      revert hp
      decide
    · have hp := List.mem_takeWhile_imp hc
      rintro rfl
      revert hp
      decide
  exact hnot lf hlf rfl

theorem url_eq_target (hget : method b = httpGet) (hfull : findHttpHeader b ≠ 0) (value : Bytes) :
    cstr (httpGetUrl b value urlLen) = target b
      ↔ (target b).length = 255 ∨ (target b).length < 255 ∧ (afterTarget b).head? = some space := by
  rw [url_of_get hget]
  cases hs : afterTarget b with
  | nil => exact absurd hs (afterTarget_ne_nil hget hfull)
  | cons w s =>
    by_cases hw : w = space
    · have hstop : (w :: s).takeWhile (· ≠ space) = [] := by
        rw [List.takeWhile_cons_of_neg (by simp [hw])]
      rw [hstop, List.append_nil, List.take_eq_self_iff, hw]
      simp only [List.head?_cons, and_true]
      omega
    · have hgo : (w :: s).takeWhile (· ≠ space) = w :: s.takeWhile (· ≠ space) :=
        List.takeWhile_cons_of_pos (decide_eq_true hw)
      have hhead : ¬ (w :: s).head? = some space := fun h => hw (Option.some.inj h)
      rw [hgo, or_iff_left fun h => hhead h.2]
      constructor
      · intro h
        have hlen := congrArg List.length h
        simp only [List.length_take, List.length_append, List.length_cons] at hlen
        omega
      · intro h
        rw [← h]
        exact List.take_left ..

end

/-! ### What is answered -/

section

variable {fcache : List FileCache} {wwwMain value : Bytes} {c : ConnState} {i : Nat}

theorem lookupFile_found (h : (lookupFile fcache wwwMain value c).scode = 200)
    (hi : (lookupFile fcache wwwMain value c).fileIdx = some i) :
    (fcache.getD i {}).fullname = wwwMain ++ cstr (httpGetUrl c.reqBuf value urlLen) := by
  unfold lookupFile at h hi
  dsimp only at h hi
  split at h
  · cases h
  · rename_i hshort
    rw [if_neg hshort] at hi
    split at h
    · cases h
    · rename_i j hj
      rw [hj] at hi
      cases hi
      obtain ⟨hlt, hname, -⟩ := List.findIdx?_eq_some_iff_getElem.mp hj
      rw [List.getD_eq_getElem?_getD, List.getElem?_eq_getElem hlt]
      exact of_decide_eq_true hname

theorem lookupFile_named (value : Bytes) (c : ConnState) :
    (lookupFile [{ fullname := cstr (httpGetUrl c.reqBuf value urlLen) }] [] value c).scode = 200
      ∧ (lookupFile [{ fullname := cstr (httpGetUrl c.reqBuf value urlLen) }] [] value c).fileIdx = some 0 := by
  have hshort : ¬ nameLimit ≤ ([] ++ cstr (httpGetUrl c.reqBuf value urlLen)).length := by
    rw [List.nil_append, cstr_httpGetUrl, nameLimit, List.length_take]
    omega
  have hfind : List.findIdx? (fun f : FileCache => f.fullname = [] ++ cstr (httpGetUrl c.reqBuf value urlLen))
      [{ fullname := cstr (httpGetUrl c.reqBuf value urlLen) }] = some 0 := by
    simp
  unfold lookupFile
  dsimp only
  rw [if_neg hshort, hfind]
  exact ⟨rfl, rfl⟩

theorem handleReceivedPkt_complete {b : Bytes} {types : List UInt8} (hb : b ≠ [])
    (htypes : handleControl b types = none) (hfit : c.reqBuf.length + b.length < httpHeaderLen)
    (hfull : findHttpHeader (c.reqBuf ++ b) ≠ 0) :
    handleReceivedPkt fcache wwwMain value (.data b types) c
      = (.ok, lookupFile fcache wwwMain value
          { c with recvBytes := c.recvBytes + b.length, reqBuf := c.reqBuf ++ b }) := by
  have hlen : b.length ≠ 0 := fun h => hb (List.eq_nil_of_length_eq_zero h)
  simp only [handleReceivedPkt, hlen, if_false, htypes, Nat.not_lt.mpr (Nat.succ_le_of_lt hfit), hfull]

end

/-- A complete header is answered with a file only for the method `GET` and the second token of the request
line, and otherwise has an empty URL, if and only if it asks for its second token in the way that
`http_get_url` cuts it out. -/
theorem request_answered (c : ConnState) (b : Bytes) (types : List UInt8) (hb : b ≠ [])
    (htypes : handleControl b types = none) (hfit : c.reqBuf.length + b.length < httpHeaderLen)
    (hfull : findHttpHeader (c.reqBuf ++ b) ≠ 0) :
    ((∀ fcache wwwMain value i,
        (handleReceivedPkt fcache wwwMain value (.data b types) c).2.scode = 200 →
        (handleReceivedPkt fcache wwwMain value (.data b types) c).2.fileIdx = some i →
        method (c.reqBuf ++ b) = httpGet ∧ (fcache.getD i {}).fullname = wwwMain ++ target (c.reqBuf ++ b))
      ∧ (method (c.reqBuf ++ b) ≠ httpGet → ∀ value, cstr (httpGetUrl (c.reqBuf ++ b) value urlLen) = []))
    ↔ GetsTarget (c.reqBuf ++ b) := by
  simp only [handleReceivedPkt_complete hb htypes hfit hfull]
  constructor
  · rintro ⟨hfile, -⟩
    obtain ⟨hcode, hidx⟩ := lookupFile_named []
      { c with recvBytes := c.recvBytes + b.length, reqBuf := c.reqBuf ++ b }
    obtain ⟨hget, hname⟩ := hfile _ _ _ _ hcode hidx
    refine ⟨hget, (url_eq_target hget hfull []).mp ?_⟩
    exact hname
  · rintro ⟨hget, htarget⟩
    refine ⟨fun fcache wwwMain value i hcode hidx => ⟨hget, ?_⟩, fun hne => absurd hget hne⟩
    rw [lookupFile_found hcode hidx, (url_eq_target hget hfull value).mpr htarget]

def sampleRequest (method : String) : Bytes := ascii (method ++ " /a HTTP/1.1\r\n\r\n")

theorem request_answered_sample : GetsTarget (sampleRequest "GET") ∧ ∀ fcache wwwMain value i,
    (handleReceivedPkt fcache wwwMain value (.data (sampleRequest "GET") []) {}).2.scode = 200 →
    (handleReceivedPkt fcache wwwMain value (.data (sampleRequest "GET") []) {}).2.fileIdx = some i →
    (fcache.getD i {}).fullname = wwwMain ++ ascii "/a" := by
  have hgets : GetsTarget (sampleRequest "GET") := ⟨by decide, .inr ⟨by decide, by decide⟩⟩
  have h := request_answered {} (sampleRequest "GET") [] (by decide) rfl (by decide) (by decide)
  exact ⟨hgets, fun fcache wwwMain value i hcode hidx => ((h.mpr hgets).1 fcache wwwMain value i hcode hidx).2⟩

/-- `PUT /a` is answered with the file `/www/a`. -/
theorem putRequest_answered :
    let r := handleReceivedPkt [{ fullname := ascii "/www/a" }] (ascii "/www") [] (.data (sampleRequest "PUT") []) {}
    r.1 = .ok ∧ r.2.scode = 200 ∧ r.2.fileIdx = some 0 ∧ method (sampleRequest "PUT") ≠ httpGet
      ∧ cstr (httpGetUrl (sampleRequest "PUT") [] urlLen) = ascii "/a" := by
  decide

end Xtls.Host
