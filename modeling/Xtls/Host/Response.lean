import Mathlib.Data.Nat.Digits.Defs
import Xtls.Host.Conn
import Xtls.Lib.Run

/-!
# Answering a request

`send_https_header`, `send_file_content`, `send_https_resp` and the functions behind them
(`main.c` 188-410, `helpers.c` 7-19, 210-230), with the branch of `worker_thread` that calls them
(`main.c` 640-662).  Every call of `send`, `sendfile` and `sendmsg` takes a part of what it is given or
fails with `EAGAIN`.
-/

namespace Xtls.Host

theorem noDate_lt : ([] : Bytes).length < 128 := by decide

/-- What the system calls of one event answer.  `none` and `false` are `EAGAIN`; the list has what
`sendfile` takes call by call, and the call behind its end fails with `EAGAIN`. -/
structure Answers where
  date : Bytes := []
  dateLt : date.length < 128 := by exact noDate_lt
  send : Option Nat := none
  sendSmall : Option Nat := none
  sendfile : List Nat := []
  sendmsg : Bool := true

/-- A connection with what has been written to its socket since the last request: `header`, `content`
and `close` are what the request asks for. -/
structure Exchange where
  conn : ConnState := {}
  written : Bytes := []
  closeNotify : Bool := false
  header : Bytes := []
  content : Bytes := []
  close : Bool := false

def Exchange.mapConn (f : ConnState → ConnState) (x : Exchange) : Exchange := { x with conn := f x.conn }

def ascii (s : String) : Bytes := s.toList.map fun c => UInt8.ofNat c.toNat

def decimal (n : Nat) : Bytes := (Nat.toDigits 10 n).map fun c => UInt8.ofNat c.toNat

/- `printf` shows the NULL pointer for any other code. -/
def scode2Str (scode : UInt32) : String :=
  if scode = 200 then "OK" else if scode = 404 then "Not Found" else "(null)"

def httpHeaderLen : Nat := 1460

def fileSizeThreshold : Nat := 0

/-- The text that `send_https_header` prints. -/
def headerText (date : Bytes) (c : ConnState) : Bytes :=
  ascii "HTTP/1.1 " ++ decimal c.scode.toNat ++ ascii " " ++ ascii (scode2Str c.scode)
    ++ ascii "\r\nDate: " ++ date
    ++ ascii "\r\nServer: Webserver of seongjong\r\nContent-Length: " ++ decimal c.fileSize.toNat
    ++ ascii "\r\nconnection: " ++ ascii (if c.keepAlive then "keep-alive" else "close")
    ++ ascii "\r\n\r\n"

/- The part of `send_https_header` that fills `hdr_buf`. -/
def buildHeader (date : Bytes) (x : Exchange) : Exchange :=
  let h := headerText date x.conn
  { x with
    conn := { x.conn with hdrBuf := h, hdrLen := h.length, hdrOffset := 0, hdrRemain := h.length }
    header := h }

/- The part of `send_https_header` that sends from `hdr_buf`. -/
def sendHeaderPart (answer : Option Nat) (x : Exchange) : Int × Exchange :=
  match answer with
  | none => (0, x)
  | some n =>
    let c := x.conn
    let sent := min n c.hdrRemain
    let x := { x with
      conn := { c with hdrRemain := c.hdrRemain - sent, hdrOffset := c.hdrOffset + sent }
      written := x.written ++ (c.hdrBuf.drop c.hdrOffset).take sent }
    if x.conn.hdrRemain = 0 then (1, x.mapConn fun c => { c with hdrSent := true }) else (0, x)

def sendHttpsHeader (a : Answers) (x : Exchange) : Int × Exchange :=
  if x.conn.hdrSent then (1, x)
  else if x.conn.hdrLen ≠ 0 then sendHeaderPart a.send x
  else if httpHeaderLen ≤ (headerText a.date x.conn).length then (-1, x)
  else sendHeaderPart a.send (buildHeader a.date x)

def takeFile (file : Bytes) (n : Nat) (x : Exchange) : Exchange :=
  let c := x.conn
  let sent := min n c.respRemain
  { x with
    conn := { c with respRemain := c.respRemain - sent, respOffset := c.respOffset + sent }
    written := x.written ++ (file.drop c.respOffset).take sent }

def resetConnForNextReq (c : ConnState) : ConnState :=
  { c with
    hdrSent := false, hdrLen := 0, hdrOffset := 0, hdrRemain := 0, scode := 0
    fileIdx := none, fileSize := 0, reqBuf := [], respFd := none, respOffset := 0, respRemain := 0 }

def handleEpheConnAfterRespSent (a : Answers) (x : Exchange) : Int × Exchange :=
  if a.sendmsg then (1, { x with closeNotify := true }) else (0, x)

def afterFile (a : Answers) (x : Exchange) : Int × Exchange :=
  let x := x.mapConn fun c => { c with respFd := none }
  if x.conn.keepAlive then (0, x.mapConn resetConnForNextReq)
  else
    let (ret, x) := handleEpheConnAfterRespSent a x
    if ret ≠ 1 then (ret, x) else (0, x)

section

variable (fcache : Option Nat → Bytes)

/-- The `while` loop around `sendfile`. -/
def sendfileLoop : List Nat → Exchange → Int × Exchange
  | [], x => if x.conn.respRemain = 0 then (1, x) else (0, x)
  | n :: ns, x =>
    if x.conn.respRemain = 0 then (1, x) else sendfileLoop ns (takeFile (fcache x.conn.respFd) (max n 1) x)

def startFile (c : ConnState) : ConnState :=
  if c.respRemain = 0 then { c with respOffset := 0, respRemain := (fcache c.fileIdx).length } else c

/- An empty file has no bytes to send. -/
def sendFileContent (a : Answers) (x : Exchange) : Int × Exchange :=
  if x.conn.scode = 200 then
    let x := x.mapConn (startFile fcache)
    if 0 < x.conn.respRemain then
      if fileSizeThreshold < (fcache x.conn.fileIdx).length then
        sendfileLoop fcache a.sendfile (x.mapConn fun c => { c with respFd := c.respFd.or c.fileIdx })
      else
        match a.sendSmall with
        | none => (0, x)
        | some n => (1, takeFile (fcache x.conn.fileIdx) n x)
    else (1, x)
  else (1, x)

def sendHttpsResp (a : Answers) (x : Exchange) : Int × Exchange :=
  let (ret, x) := sendHttpsHeader a x
  if ret ≠ 1 then (ret, x)
  else
    let (ret, x) := sendFileContent fcache a x
    if ret ≠ 1 then (ret, x) else if x.conn.respRemain = 0 then afterFile a x else (0, x)

/-- The branch of `worker_thread` for a connection that can be written in `HTTP_REQ_RECVED`. -/
def onWritable (a : Answers) (x : Exchange) : Exchange :=
  if x.conn.sockState = .httpReqRecved then
    let (ret, x) := sendHttpsResp fcache a x
    if ret < 0 then x.mapConn fun c => { c with sockState := .errored }
    else if x.conn.respRemain = 0 then x.mapConn fun c => { c with sockState := .readyToRecv }
    else x
  else x

/-- What `handle_received_pkt` (`main.c` 43-170) leaves in the connection for a complete request. -/
structure Request where
  scode : UInt32 := 200
  fileIdx : Nat := 0
  keepAlive : Bool := true

def acceptedConn : Exchange := { conn := { sockState := .readyToRecv } }

end

/-! ### The header fits its buffer -/

theorem decimal_length {n e : Nat} (he : 0 < e) (h : n < 10 ^ e) : (decimal n).length ≤ e := by
  rw [decimal, List.length_map]
  exact Nat.toDigits_length 10 n e he h

theorem headerText_length (date : Bytes) (hdate : date.length < 128) (c : ConnState) :
    (headerText date c).length < httpHeaderLen := by
  have hcode : (decimal c.scode.toNat).length ≤ 10 :=
    decimal_length (by omega) (Nat.lt_of_lt_of_le c.scode.toNat_lt (by norm_num))
  have hsize : (decimal c.fileSize.toNat).length ≤ 20 :=
    decimal_length (by omega) (Nat.lt_of_lt_of_le c.fileSize.toNat_lt (by norm_num))
  have hstr : (ascii (scode2Str c.scode)).length ≤ 9 := by
    unfold scode2Str
    split
    · decide
    · split <;> decide
  have halive : (ascii (if c.keepAlive then "keep-alive" else "close")).length ≤ 10 := by
    split <;> decide
  have h1 : (ascii "HTTP/1.1 ").length = 9 := rfl
  have h2 : (ascii " ").length = 1 := rfl
  have h3 : (ascii "\r\nDate: ").length = 8 := rfl
  have h4 : (ascii "\r\nServer: Webserver of seongjong\r\nContent-Length: ").length = 50 := rfl
  have h5 : (ascii "\r\nconnection: ").length = 14 := rfl
  have h6 : (ascii "\r\n\r\n").length = 4 := rfl
  simp only [headerText, List.length_append, httpHeaderLen]
  omega

theorem headerText_ne_nil (date : Bytes) (c : ConnState) : (headerText date c).length ≠ 0 := by
  have h1 : (ascii "HTTP/1.1 ").length = 9 := rfl
  simp only [headerText, List.length_append]
  omega

/-! ### What has been written -/

section

variable {fcache : Option Nat → Bytes} {x : Exchange} {a : Answers}

/-- The request has been received and nothing has been done about it. -/
structure Asked (fcache : Option Nat → Bytes) (x : Exchange) : Prop where
  state : x.conn.sockState = .httpReqRecved
  hdrSent : x.conn.hdrSent = false
  hdrLen : x.conn.hdrLen = 0
  remain : x.conn.respRemain = 0
  fd : x.conn.respFd = none
  written : x.written = []
  header : x.header = []
  content : x.content = if x.conn.scode = 200 then fcache x.conn.fileIdx else []
  close : x.close = !x.conn.keepAlive

/-- The header is out and the file has not been started. -/
structure HeaderOut (fcache : Option Nat → Bytes) (x : Exchange) : Prop where
  state : x.conn.sockState = .httpReqRecved
  hdrSent : x.conn.hdrSent = true
  remain : x.conn.respRemain = 0
  fd : x.conn.respFd = none
  written : x.written = x.header
  content : x.content = if x.conn.scode = 200 then fcache x.conn.fileIdx else []
  close : x.close = !x.conn.keepAlive

/-- The header is out, and so is the file up to `resp_offset`. -/
structure InFile (fcache : Option Nat → Bytes) (x : Exchange) : Prop where
  state : x.conn.sockState = .httpReqRecved
  hdrSent : x.conn.hdrSent = true
  scode : x.conn.scode = 200
  fd : x.conn.respFd = x.conn.fileIdx
  content : x.content = fcache x.conn.fileIdx
  total : x.conn.respOffset + x.conn.respRemain = x.content.length
  written : x.written = x.header ++ x.content.take x.conn.respOffset
  close : x.close = !x.conn.keepAlive

/-- Header and file are out. -/
structure Complete (x : Exchange) : Prop where
  state : x.conn.sockState = .httpReqRecved
  hdrSent : x.conn.hdrSent = true
  remain : x.conn.respRemain = 0
  written : x.written = x.header ++ x.content
  close : x.close = !x.conn.keepAlive

theorem InFile.complete (h : InFile fcache x) (hr : x.conn.respRemain = 0) : Complete x where
  state := h.state
  hdrSent := h.hdrSent
  remain := hr
  written := by
    have ht := h.total
    rw [h.written, List.take_of_length_le (by omega)]
  close := h.close

theorem InFile.takeFile (h : InFile fcache x) (n : Nat) :
    InFile fcache (takeFile (fcache x.conn.respFd) n x) := by
  have ht := h.total
  refine ⟨h.state, h.hdrSent, h.scode, h.fd, h.content, ?_, ?_, h.close⟩
  · show x.conn.respOffset + min n x.conn.respRemain + (x.conn.respRemain - min n x.conn.respRemain)
      = x.content.length
    omega
  · show x.written ++ ((fcache x.conn.respFd).drop x.conn.respOffset).take (min n x.conn.respRemain)
      = x.header ++ x.content.take (x.conn.respOffset + min n x.conn.respRemain)
    rw [h.written, h.fd, ← h.content, List.append_assoc, ← List.take_add]

theorem sendfileLoop_inFile (ns : List Nat) (h : InFile fcache x) :
    InFile fcache (sendfileLoop fcache ns x).2
      ∧ ((sendfileLoop fcache ns x).1 = 1 ∧ (sendfileLoop fcache ns x).2.conn.respRemain = 0
        ∨ (sendfileLoop fcache ns x).1 = 0 ∧ 0 < (sendfileLoop fcache ns x).2.conn.respRemain) := by
  induction ns generalizing x with
  | nil =>
    unfold sendfileLoop
    split
    · rename_i hr
      exact ⟨h, .inl ⟨rfl, hr⟩⟩
    · rename_i hr
      exact ⟨h, .inr ⟨rfl, Nat.pos_of_ne_zero hr⟩⟩
  | cons n ns ih =>
    unfold sendfileLoop
    split
    · rename_i hr
      exact ⟨h, .inl ⟨rfl, hr⟩⟩
    · exact ih (h.takeFile _)

theorem sendFileContent_outcome
    (h : InFile fcache x ∧ 0 < x.conn.respRemain ∨ HeaderOut fcache x) :
    (sendFileContent fcache a x).1 = 1 ∧ Complete (sendFileContent fcache a x).2
      ∨ (sendFileContent fcache a x).1 = 0 ∧ InFile fcache (sendFileContent fcache a x).2
        ∧ 0 < (sendFileContent fcache a x).2.conn.respRemain := by
  have hloop : ∀ y, InFile fcache y →
      (sendfileLoop fcache a.sendfile y).1 = 1 ∧ Complete (sendfileLoop fcache a.sendfile y).2
        ∨ (sendfileLoop fcache a.sendfile y).1 = 0 ∧ InFile fcache (sendfileLoop fcache a.sendfile y).2
          ∧ 0 < (sendfileLoop fcache a.sendfile y).2.conn.respRemain := fun y hy => by
    obtain ⟨hf, hr | hr⟩ := sendfileLoop_inFile a.sendfile hy
    · exact .inl ⟨hr.1, hf.complete hr.2⟩
    · exact .inr ⟨hr.1, hf, hr.2⟩
  unfold sendFileContent
  rcases h with ⟨h, hpos⟩ | ⟨hst, hsent, hrem, hfd, hwr, hcont, hclose⟩
  · have hstart : x.mapConn (startFile fcache) = x := by
      simp only [Exchange.mapConn, startFile, if_neg (Nat.ne_of_gt hpos)]
    have hfile : fileSizeThreshold < (fcache x.conn.fileIdx).length := by
      have ht := h.total
      rw [h.content] at ht
      simp only [fileSizeThreshold]
      omega
    have hfd : x.conn.respFd.or x.conn.fileIdx = x.conn.respFd := by rw [h.fd, Option.or_self]
    have hor : (x.mapConn fun c => { c with respFd := c.respFd.or c.fileIdx }) = x := by
      simp only [Exchange.mapConn, hfd]
    simp only [h.scode, if_true, hstart, hpos, hfile, hor]
    exact hloop x h
  · split
    · rename_i hcode
      rw [if_pos hcode] at hcont
      have hstart : x.mapConn (startFile fcache)
          = x.mapConn fun c => { c with respOffset := 0, respRemain := (fcache c.fileIdx).length } := by
        simp only [Exchange.mapConn, startFile, if_pos hrem]
      rw [hstart]
      dsimp only [Exchange.mapConn]
      split
      · rename_i hpos
        rw [if_pos (show fileSizeThreshold < (fcache x.conn.fileIdx).length from hpos)]
        refine hloop _ ⟨hst, hsent, hcode, ?_, hcont, ?_, ?_, hclose⟩
        · simp [hfd]
        · simp [hcont]
        · simp [hwr]
      · rename_i hzero
        have hnil : x.content = [] := by
          rw [hcont]
          exact List.length_eq_zero_iff.mp (Nat.eq_zero_of_not_pos hzero)
        exact .inl ⟨rfl, hst, hsent, Nat.eq_zero_of_not_pos hzero, by simp [hwr, hnil], hclose⟩
    · rename_i hcode
      rw [if_neg hcode] at hcont
      exact .inl ⟨rfl, hst, hsent, hrem, by rw [hwr, hcont, List.append_nil], hclose⟩

theorem sendHttpsHeader_sent (h : x.conn.hdrSent = true) : sendHttpsHeader a x = (1, x) := by
  rw [sendHttpsHeader, if_pos h]

theorem sendHttpsHeader_whole (h : Asked fcache x) {n : Nat} (hn : a.send = some n)
    (hle : (headerText a.date x.conn).length ≤ n) :
    (sendHttpsHeader a x).1 = 1 ∧ HeaderOut fcache (sendHttpsHeader a x).2 := by
  have hfits := headerText_length a.date a.dateLt x.conn
  have hmin : min n (headerText a.date x.conn).length = (headerText a.date x.conn).length := by omega
  have hsend : sendHttpsHeader a x = (1,
      { buildHeader a.date x with
        conn :=
          { (buildHeader a.date x).conn with
            hdrRemain := 0, hdrOffset := (headerText a.date x.conn).length, hdrSent := true }
        written := headerText a.date x.conn }) := by
    rw [sendHttpsHeader, if_neg (by simp [h.hdrSent]), if_neg (by simp [h.hdrLen]),
      if_neg (Nat.not_le.mpr hfits), hn]
    simp [sendHeaderPart, buildHeader, Exchange.mapConn, hmin, h.written]
  rw [hsend]
  exact ⟨rfl, h.state, rfl, h.remain, h.fd, rfl, h.content, h.close⟩

/-- Everything asked for has been written. -/
structure Answered (x : Exchange) : Prop where
  written : x.written = x.header ++ x.content
  closeNotify : x.close = true → x.closeNotify = true

/-- The states of a connection whose events meet `respReady`. -/
inductive Served (fcache : Option Nat → Bytes) (x : Exchange) : Prop
  | ready (state : x.conn.sockState = .readyToRecv) (answered : Answered x)
      (fresh : x.conn.hdrSent = false →
        x.conn.hdrLen = 0 ∧ x.conn.respRemain = 0 ∧ x.conn.respFd = none)
  | asked (h : Asked fcache x)
  | inFile (h : InFile fcache x) (remain : 0 < x.conn.respRemain)

/-- Sending a response leaves the rest of the connection alone. -/
structure SameLink (c c' : ConnState) : Prop where
  keepAlive : c'.keepAlive = c.keepAlive
  sockState : c'.sockState = c.sockState
  sockFd : c'.sockFd = c.sockFd
  ident : c'.ident = c.ident

theorem SameLink.trans {c d e : ConnState} (h1 : SameLink c d) (h2 : SameLink d e) : SameLink c e :=
  ⟨h2.keepAlive.trans h1.keepAlive, h2.sockState.trans h1.sockState, h2.sockFd.trans h1.sockFd,
    h2.ident.trans h1.ident⟩

theorem sendfileLoop_link (fcache : Option Nat → Bytes) (ns : List Nat) (x : Exchange) :
    SameLink x.conn (sendfileLoop fcache ns x).2.conn := by
  induction ns generalizing x with
  | nil => unfold sendfileLoop; split <;> exact ⟨rfl, rfl, rfl, rfl⟩
  | cons n ns ih =>
    unfold sendfileLoop
    split
    · exact ⟨rfl, rfl, rfl, rfl⟩
    · have hrest := ih (takeFile (fcache x.conn.respFd) (max n 1) x)
      exact ⟨hrest.keepAlive, hrest.sockState, hrest.sockFd, hrest.ident⟩

theorem sendFileContent_link (fcache : Option Nat → Bytes) (a : Answers) (x : Exchange) :
    SameLink x.conn (sendFileContent fcache a x).2.conn := by
  have hstart : SameLink x.conn (startFile fcache x.conn) := by
    unfold startFile
    split <;> exact ⟨rfl, rfl, rfl, rfl⟩
  unfold sendFileContent
  split
  · dsimp only [Exchange.mapConn]
    split
    · split
      · have hloop := fun y => sendfileLoop_link fcache a.sendfile y
        exact hstart.trans ⟨(hloop _).keepAlive, (hloop _).sockState, (hloop _).sockFd, (hloop _).ident⟩
      · split
        · exact hstart
        · exact hstart.trans ⟨rfl, rfl, rfl, rfl⟩
    · exact hstart
  · exact ⟨rfl, rfl, rfl, rfl⟩

theorem sendHttpsHeader_link (a : Answers) (x : Exchange) : SameLink x.conn (sendHttpsHeader a x).2.conn := by
  have hpart : ∀ y, SameLink y.conn (sendHeaderPart a.send y).2.conn := fun y => by
    unfold sendHeaderPart
    split
    · exact ⟨rfl, rfl, rfl, rfl⟩
    · dsimp only
      split <;> exact ⟨rfl, rfl, rfl, rfl⟩
  unfold sendHttpsHeader
  split
  · exact ⟨rfl, rfl, rfl, rfl⟩
  · split
    · exact hpart x
    · split
      · exact ⟨rfl, rfl, rfl, rfl⟩
      · have hsent := hpart (buildHeader a.date x)
        exact ⟨hsent.keepAlive, hsent.sockState, hsent.sockFd, hsent.ident⟩

theorem sendHttpsResp_link (fcache : Option Nat → Bytes) (a : Answers) (x : Exchange) :
    SameLink x.conn (sendHttpsResp fcache a x).2.conn := by
  have hhead := sendHttpsHeader_link a x
  have hfile := hhead.trans (sendFileContent_link fcache a (sendHttpsHeader a x).2)
  unfold sendHttpsResp
  dsimp only
  split
  · exact hhead
  · generalize sendFileContent fcache a (sendHttpsHeader a x).2 = r at hfile ⊢
    unfold afterFile
    dsimp only
    split
    · exact hfile
    · split
      · split
        · exact hfile.trans ⟨rfl, rfl, rfl, rfl⟩
        · unfold handleEpheConnAfterRespSent
          split
          · split <;> exact hfile.trans ⟨rfl, rfl, rfl, rfl⟩
          · split <;> exact hfile.trans ⟨rfl, rfl, rfl, rfl⟩
      · exact hfile

/- What is left when header and file are out: the connection is ready for the next request, and one that is
not kept alive has got the alert if `sendmsg` took it. -/
def afterResponse (a : Answers) (x : Exchange) : Exchange :=
  let x := x.mapConn fun c => { c with respFd := none }
  if x.conn.keepAlive then x.mapConn fun c => { resetConnForNextReq c with sockState := .readyToRecv }
  else
    { x with conn := { x.conn with sockState := .readyToRecv }, closeNotify := a.sendmsg || x.closeNotify }

theorem onWritable_started (hst : x.conn.sockState = .httpReqRecved) (hret : (sendHttpsHeader a x).1 = 1)
    (hstart : InFile fcache (sendHttpsHeader a x).2 ∧ 0 < (sendHttpsHeader a x).2.conn.respRemain
      ∨ HeaderOut fcache (sendHttpsHeader a x).2) :
    ∃ r, r.conn.keepAlive = x.conn.keepAlive
      ∧ (Complete r ∧ onWritable fcache a x = afterResponse a r
        ∨ InFile fcache r ∧ 0 < r.conn.respRemain ∧ onWritable fcache a x = r) := by
  have hout := sendFileContent_outcome (a := a) hstart
  refine ⟨(sendFileContent fcache a (sendHttpsHeader a x).2).2,
    ((sendHttpsHeader_link a x).trans (sendFileContent_link fcache a _)).keepAlive, ?_⟩
  unfold onWritable sendHttpsResp
  simp only [hst, if_true, hret, ne_eq, not_true_eq_false, if_false]
  generalize sendFileContent fcache a (sendHttpsHeader a x).2 = r at *
  rcases hout with ⟨hone, hdone⟩ | ⟨hzero, hfile, hpos⟩
  · refine .inl ⟨hdone, ?_⟩
    simp only [hone, hdone.remain, afterFile, afterResponse, Exchange.mapConn, not_true_eq_false, if_true, if_false]
    cases halive : r.2.conn.keepAlive with
    | true => rfl
    | false =>
      cases hmsg : a.sendmsg with
      | true =>
        simp only [handleEpheConnAfterRespSent, hmsg, if_true, Bool.false_eq_true, if_false, ne_eq,
          not_true_eq_false, Int.lt_irrefl, Bool.true_or]
      | false =>
        simp only [handleEpheConnAfterRespSent, hmsg, if_true, Bool.false_eq_true, if_false, ne_eq,
          Int.zero_ne_one, not_false_eq_true, Int.lt_irrefl, Bool.false_or]
  · refine .inr ⟨hfile, hpos, ?_⟩
    simp only [hzero, Int.zero_ne_one, not_false_eq_true, if_true, Int.lt_irrefl, if_false, Nat.ne_of_gt hpos]

theorem Served.written (h : Served fcache x) : x.written <+: x.header ++ x.content := by
  cases h with
  | ready _ answered _ => exact ⟨[], by rw [List.append_nil, answered.written]⟩
  | asked h => rw [h.written]; exact List.nil_prefix
  | inFile h _ =>
    rw [h.written]
    exact (List.prefix_append_right_inj _).mpr (List.take_prefix _ _)

end

end Xtls.Host
