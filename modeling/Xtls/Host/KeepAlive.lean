import Xtls.Host.Request

/-!
# Requests on one connection

A connection that is kept alive receives a request in any number of pieces (`main.c` 593-637), sends the
response and is reset for the next request.  However the requests are cut, each is read as if it had come
in one piece on a new connection.
-/

namespace Xtls.Host

def contents (fcache : List FileCache) : Option Nat → Bytes
  | none => []
  | some i => (fcache.getD i {}).file

section

variable (fcache : List FileCache) (wwwMain value : Bytes)

/-- The branch of `worker_thread` for a connection that can be read in `READY_TO_RECV`. -/
def onReadable (msg : RecvMsg) (x : Exchange) : RecvResult × Exchange :=
  let (r, c) := handleReceivedPkt fcache wwwMain value msg x.conn
  (r, match r with
    | .ok =>
      { conn := { c with sockState := .httpReqRecved }
        content := if c.scode = 200 then contents fcache c.fileIdx else [], close := !c.keepAlive }
    | .closeNotify => { x with conn := { c with sockState := .waitTcpFin } }
    | .tls => { x with conn := { c with sockState := .tlsHsRecved } }
    | .fin => { x with conn := { c with sockState := .errored } }
    | .err => { x with conn := { c with sockState := .errored } }
    | .continue => { x with conn := c })

def receive : List Bytes → Exchange → List RecvResult × Exchange
  | [], x => ([], x)
  | b :: bs, x =>
    let (r, x) := onReadable fcache wwwMain value (.data b [0x17]) x
    let (rs, x) := receive bs x
    (r :: rs, x)

/-- The pieces of a request and the events of its response. -/
structure Turn where
  chunks : List Bytes
  answers : List Answers

def respond (answers : List Answers) (x : Exchange) : Exchange :=
  answers.foldl (fun x a => onWritable (contents fcache) a x) x

def turnStep (t : Turn) (x : Exchange) : Except Halt Exchange :=
  .ok (respond fcache t.answers (receive fcache wwwMain value t.chunks x).2)

end

/-! ### Requests -/

def BlankLine (b : Bytes) : Prop := [lf, lf] <:+: b ∨ [lf, cr, lf] <:+: b

/-- A request that is kept alive and ends with its first blank line. -/
structure IsRequest (r : Bytes) : Prop where
  text : ∀ c ∈ r, c ≠ 0
  short : r.length ≤ 1459
  blankLine : BlankLine r
  first : ∀ p, p <+: r → BlankLine p → p = r
  keepAlive : ¬ ascii "connection: close" <:+: r

/-- Header and content of the response have been sent. -/
def Completed (x : Exchange) : Prop :=
  x.conn.sockState = .readyToRecv ∧ x.header ≠ [] ∧ x.written = x.header ++ x.content

/-- The turn is a request, and its response is completed. -/
def turnReady (fcache : List FileCache) (wwwMain value : Bytes) (t : Turn) (x : Exchange) : Prop :=
  IsRequest t.chunks.flatten ∧ (∀ b ∈ t.chunks, b ≠ [])
    ∧ Completed (respond fcache t.answers (receive fcache wwwMain value t.chunks x).2)

/-- What the response is made from. -/
def decision (c : ConnState) : UInt32 × Option Nat × UInt64 × Bool := (c.scode, c.fileIdx, c.fileSize, c.keepAlive)

section

variable {b r : Bytes}

theorem byteAt_zero_prefix {v : Byte} (hv : v ≠ 0) : byteAt b 0 = v ↔ [v] <+: b := by
  cases b with
  | nil =>
    constructor
    · exact fun h => absurd h.symm hv
    · exact fun h => absurd (List.prefix_nil.mp h) nofun
  | cons c b => simp [byteAt, eq_comm]

theorem byteAt_one_prefix {v w : Byte} (hv : v ≠ 0) (hw : w ≠ 0) :
    byteAt b 0 = v ∧ byteAt b 1 = w ↔ [v, w] <+: b := by
  cases b with
  | nil =>
    constructor
    · exact fun h => absurd h.1.symm hv
    · exact fun h => absurd (List.prefix_nil.mp h) nofun
  | cons c b =>
    rw [List.cons_prefix_cons, ← byteAt_zero_prefix hw, eq_comm (a := v)]
    rfl

theorem findHeaderFrom_blankLine (i : Nat) (h : ∀ c ∈ b, c ≠ 0) : findHeaderFrom i b ≠ 0 ↔ BlankLine b := by
  induction b generalizing i with
  | nil =>
    refine ⟨fun h => absurd rfl h, ?_⟩
    rintro (h | h) <;> exact absurd (List.infix_nil.mp h) nofun
  | cons c b ih =>
    have ih := ih (i + 1) fun d hd => h d (List.mem_cons_of_mem c hd)
    have hblank : BlankLine (c :: b)
        ↔ c = lf ∧ ([lf] <+: b ∨ [cr, lf] <+: b) ∨ BlankLine b := by
      simp only [BlankLine, List.infix_cons_iff, List.cons_prefix_cons, eq_comm (a := lf) (b := c)]
      tauto
    rw [findHeaderFrom, if_neg (h c List.mem_cons_self), hblank, ← byteAt_zero_prefix (by decide),
      ← byteAt_one_prefix (by decide) (by decide)]
    by_cases hc : c = lf
    · rw [if_neg (not_not.mpr hc)]
      split
      · rename_i hlf
        simp [hc, hlf]
      · rename_i hlf
        split
        · rename_i hcr
          simp [hc, hcr]
        · rename_i hcr
          rw [ih]
          simp [hlf, hcr]
    · rw [if_pos hc, ih]
      simp [hc]

theorem cstr_text (h : ∀ c ∈ b, c ≠ 0) : cstr b = b :=
  List.takeWhile_eq_self_iff.mpr fun c hc => decide_eq_true (h c hc)

theorem IsRequest.part (hr : IsRequest r) (hb : b <+: r) (hne : b ≠ r) : findHttpHeader b = 0 := by
  by_contra h
  exact hne (hr.first b hb ((findHeaderFrom_blankLine 0 fun c hc => hr.text c (hb.subset hc)).mp h))

theorem IsRequest.chunks_ne {bs : List Bytes} (hr : IsRequest bs.flatten) : bs ≠ [] := by
  rintro rfl
  rcases hr.blankLine with h | h <;> exact absurd (List.infix_nil.mp h) nofun

theorem IsRequest.whole (hr : IsRequest r) : findHttpHeader r ≠ 0 :=
  (findHeaderFrom_blankLine 0 hr.text).mpr hr.blankLine

end

/-! ### Receiving a request -/

/-- A connection that is not sending and has received `p` of the next request. -/
structure Waits (p : Bytes) (c : ConnState) : Prop where
  state : c.sockState = .readyToRecv
  reqBuf : c.reqBuf = p
  fileIdx : c.fileIdx = none
  fileSize : c.fileSize = 0
  hdrSent : c.hdrSent = false
  hdrLen : c.hdrLen = 0
  remain : c.respRemain = 0
  fd : c.respFd = none

section

variable {fcache : List FileCache} {wwwMain value : Bytes} {x : Exchange} {p b r : Bytes}

theorem lookupFile_decision {c d : ConnState} (hbuf : c.reqBuf = d.reqBuf) (hidx : c.fileIdx = d.fileIdx)
    (hsize : c.fileSize = d.fileSize) (value' : Bytes) :
    decision (lookupFile fcache wwwMain value c) = decision (lookupFile fcache wwwMain value' d) := by
  unfold lookupFile
  simp only [cstr_httpGetUrl, hbuf]
  split
  · simp only [decision, hidx, hsize]
  · split
    · simp only [decision, hidx, hsize]
    · rfl

theorem lookupFile_frame (fcache : List FileCache) (wwwMain value : Bytes) (c : ConnState) :
    (lookupFile fcache wwwMain value c).hdrSent = c.hdrSent ∧ (lookupFile fcache wwwMain value c).hdrLen = c.hdrLen
      ∧ (lookupFile fcache wwwMain value c).respRemain = c.respRemain
      ∧ (lookupFile fcache wwwMain value c).respFd = c.respFd
      ∧ (lookupFile fcache wwwMain value c).keepAlive
        = !decide (ascii "connection: close" <:+: cstr c.reqBuf) := by
  unfold lookupFile
  dsimp only
  split
  · exact ⟨rfl, rfl, rfl, rfl, rfl⟩
  · split <;> exact ⟨rfl, rfl, rfl, rfl, rfl⟩

theorem onReadable_part (fcache : List FileCache) (wwwMain value : Bytes) (hx : Waits p x.conn) (hb : b ≠ [])
    (hfit : p.length + b.length < httpHeaderLen)
    (hpart : findHttpHeader (p ++ b) = 0) :
    (onReadable fcache wwwMain value (.data b [0x17]) x).1 = .continue
      ∧ Waits (p ++ b) (onReadable fcache wwwMain value (.data b [0x17]) x).2.conn := by
  have hlen : b.length ≠ 0 := fun h => hb (List.eq_nil_of_length_eq_zero h)
  have hpkt : handleReceivedPkt fcache wwwMain value (.data b [0x17]) x.conn
      = (.continue, { x.conn with recvBytes := x.conn.recvBytes + b.length, reqBuf := p ++ b }) := by
    have hctl : handleControl b [0x17] = none := rfl
    simp only [handleReceivedPkt, hlen, if_false, hctl, hx.reqBuf, Nat.not_lt.mpr (Nat.succ_le_of_lt hfit), hpart,
      if_true]
  simp only [onReadable, hpkt]
  exact ⟨trivial, hx.state, rfl, hx.fileIdx, hx.fileSize, hx.hdrSent, hx.hdrLen, hx.remain, hx.fd⟩

theorem onReadable_last (fcache : List FileCache) (wwwMain value : Bytes) (hx : Waits p x.conn) (hb : b ≠ [])
    (hr : IsRequest (p ++ b)) (value' : Bytes) :
    (onReadable fcache wwwMain value (.data b [0x17]) x).1 = .ok
      ∧ Asked (contents fcache) (onReadable fcache wwwMain value (.data b [0x17]) x).2
      ∧ (onReadable fcache wwwMain value (.data b [0x17]) x).2.conn.keepAlive = true
      ∧ decision (onReadable fcache wwwMain value (.data b [0x17]) x).2.conn
        = decision (lookupFile fcache wwwMain value' { reqBuf := p ++ b }) := by
  have hfit : x.conn.reqBuf.length + b.length < httpHeaderLen := by
    have hshort := hr.short
    rw [List.length_append] at hshort
    rw [hx.reqBuf, httpHeaderLen]
    omega
  have hfull : findHttpHeader (x.conn.reqBuf ++ b) ≠ 0 := by
    rw [hx.reqBuf]
    exact hr.whole
  have hpkt : handleReceivedPkt fcache wwwMain value (.data b [0x17]) x.conn = (.ok, lookupFile fcache wwwMain value
      { x.conn with recvBytes := x.conn.recvBytes + b.length, reqBuf := x.conn.reqBuf ++ b }) :=
    handleReceivedPkt_complete hb rfl hfit hfull
  have hwaits : Waits (p ++ b) { x.conn with recvBytes := x.conn.recvBytes + b.length, reqBuf := x.conn.reqBuf ++ b } :=
    ⟨hx.state, by rw [hx.reqBuf], hx.fileIdx, hx.fileSize, hx.hdrSent, hx.hdrLen, hx.remain, hx.fd⟩
  generalize { x.conn with recvBytes := x.conn.recvBytes + b.length, reqBuf := x.conn.reqBuf ++ b } = c at *
  obtain ⟨hsent, hlen, hrem, hfd, halive⟩ := lookupFile_frame fcache wwwMain value c
  have hdec : decision (lookupFile fcache wwwMain value c)
      = decision (lookupFile fcache wwwMain value' { reqBuf := p ++ b }) :=
    lookupFile_decision hwaits.reqBuf hwaits.fileIdx hwaits.fileSize value'
  simp only [onReadable, hpkt]
  refine ⟨trivial, ⟨rfl, hsent.trans hwaits.hdrSent, hlen.trans hwaits.hdrLen, hrem.trans hwaits.remain,
    hfd.trans hwaits.fd, rfl, rfl, rfl, rfl⟩, ?_, hdec⟩
  rw [halive, hwaits.reqBuf, cstr_text hr.text, decide_eq_false hr.keepAlive]
  rfl

theorem receive_request (fcache : List FileCache) (wwwMain value : Bytes) (bs : List Bytes)
    (hx : Waits p x.conn) (hbs : ∀ b ∈ bs, b ≠ []) (hne : bs ≠ []) (hr : IsRequest (p ++ bs.flatten))
    (value' : Bytes) :
    (receive fcache wwwMain value bs x).1 = List.replicate (bs.length - 1) .continue ++ [.ok]
      ∧ Asked (contents fcache) (receive fcache wwwMain value bs x).2
      ∧ (receive fcache wwwMain value bs x).2.conn.keepAlive = true
      ∧ decision (receive fcache wwwMain value bs x).2.conn
        = decision (lookupFile fcache wwwMain value' { reqBuf := p ++ bs.flatten }) := by
  induction bs generalizing p x with
  | nil => exact absurd rfl hne
  | cons b bs ih =>
    have hb := hbs b List.mem_cons_self
    cases bs with
    | nil =>
      rw [List.flatten_cons, List.flatten_nil, List.append_nil] at hr ⊢
      obtain ⟨hok, hrest⟩ := onReadable_last fcache wwwMain value hx hb hr value'
      refine ⟨?_, hrest⟩
      simp only [receive, hok]
      rfl
    | cons b' bs =>
      have hsplit : p ++ (b :: b' :: bs).flatten = p ++ b ++ (b' :: bs).flatten := by
        rw [List.flatten_cons, List.append_assoc]
      rw [hsplit] at hr ⊢
      have hmore : (b' :: bs).flatten ≠ [] := by
        rw [List.flatten_cons]
        exact fun h => hbs b' (List.mem_cons_of_mem b List.mem_cons_self) (List.append_eq_nil_iff.mp h).1
      have hpart : findHttpHeader (p ++ b) = 0 :=
        hr.part (List.prefix_append ..) fun h => hmore (List.self_eq_append_right.mp h)
      have hfit : p.length + b.length < httpHeaderLen := by
        have hshort := hr.short
        rw [List.length_append, List.length_append] at hshort
        rw [httpHeaderLen]
        omega
      obtain ⟨hcont, hnext⟩ := onReadable_part fcache wwwMain value hx hb hfit hpart
      obtain ⟨hresults, hrest⟩ := ih hnext (fun d hd => hbs d (List.mem_cons_of_mem b hd)) (by simp) hr
      refine ⟨?_, hrest⟩
      rw [receive]
      simp only [hcont, hresults]
      rfl

/-! ### Sending the response -/

/-- The states of a connection between a request that is kept alive and the end of its response.  A header
that was not sent as a whole is never completed. -/
inductive Responding (fcache : List FileCache) (x : Exchange) : Prop
  | asked (h : Asked (contents fcache) x) (alive : x.conn.keepAlive = true)
  | inFile (h : InFile (contents fcache) x) (remain : 0 < x.conn.respRemain) (alive : x.conn.keepAlive = true)
  | stuck (state : x.conn.sockState ≠ .httpReqRecved) (written : x.written.length < x.header.length)
  | done (h : Waits [] x.conn)

theorem afterResponse_waits {a : Answers} {x : Exchange} (halive : x.conn.keepAlive = true) :
    Waits [] (afterResponse a x).conn := by
  simp only [afterResponse, Exchange.mapConn, halive, if_true]
  exact ⟨rfl, rfl, rfl, rfl, rfl, rfl, rfl, rfl⟩

/- The header is built and not taken as a whole: the connection waits for the next request. -/
theorem onWritable_blocked {a : Answers} (h : Asked (contents fcache) x)
    (hpart : ∀ n, a.send = some n → n < (headerText a.date x.conn).length) :
    (onWritable (contents fcache) a x).conn.sockState ≠ .httpReqRecved
      ∧ (onWritable (contents fcache) a x).written.length < (onWritable (contents fcache) a x).header.length := by
  have hfits := headerText_length a.date a.dateLt x.conn
  have hpos := Nat.pos_of_ne_zero (headerText_ne_nil a.date x.conn)
  have hheader : sendHttpsHeader a x = sendHeaderPart a.send (buildHeader a.date x) := by
    rw [sendHttpsHeader, if_neg (by simp [h.hdrSent]), if_neg (by simp [h.hdrLen]), if_neg (Nat.not_le.mpr hfits)]
  unfold onWritable sendHttpsResp
  rw [if_pos h.state, hheader]
  cases hsend : a.send with
  | none =>
    simp only [sendHeaderPart, buildHeader, Exchange.mapConn, h.remain, h.written]
    exact ⟨by simp, hpos⟩
  | some n =>
    have hlt := hpart n hsend
    have hmin : min n (headerText a.date x.conn).length = n := Nat.min_eq_left (Nat.le_of_lt hlt)
    have hrem : (headerText a.date x.conn).length - n ≠ 0 := by omega
    simp only [sendHeaderPart, buildHeader, hmin, hrem, if_false, h.remain, h.written, List.nil_append,
      Exchange.mapConn, List.drop_zero]
    refine ⟨by simp, ?_⟩
    show (List.take n (headerText a.date x.conn)).length < (headerText a.date x.conn).length
    rw [List.length_take]
    omega

theorem onWritable_responding (a : Answers) (h : Responding fcache x) :
    Responding fcache (onWritable (contents fcache) a x) := by
  have hstart : x.conn.sockState = .httpReqRecved → x.conn.keepAlive = true → (sendHttpsHeader a x).1 = 1 →
      (InFile (contents fcache) (sendHttpsHeader a x).2 ∧ 0 < (sendHttpsHeader a x).2.conn.respRemain
        ∨ HeaderOut (contents fcache) (sendHttpsHeader a x).2) →
      Responding fcache (onWritable (contents fcache) a x) := by
    intro hst halive hret hrest
    obtain ⟨r, hkeep, ⟨-, heq⟩ | ⟨hfile, hpos, heq⟩⟩ := onWritable_started hst hret hrest
    · rw [heq]
      exact .done (afterResponse_waits (hkeep.trans halive))
    · rw [heq]
      exact .inFile hfile hpos (hkeep.trans halive)
  have hidle : x.conn.sockState ≠ .httpReqRecved → onWritable (contents fcache) a x = x := fun hst => by
    rw [onWritable, if_neg hst]
  cases h with
  | asked h halive =>
    by_cases hwhole : ∃ n, a.send = some n ∧ (headerText a.date x.conn).length ≤ n
    · obtain ⟨n, hn, hle⟩ := hwhole
      obtain ⟨hret, hrest⟩ := sendHttpsHeader_whole h hn hle
      exact hstart h.state halive hret (.inr hrest)
    · obtain ⟨hst, hlt⟩ := onWritable_blocked h fun n hn => Nat.lt_of_not_le fun hle => hwhole ⟨n, hn, hle⟩
      exact .stuck hst hlt
  | inFile h hpos halive =>
    refine hstart h.state halive ?_ ?_
    · rw [sendHttpsHeader_sent h.hdrSent]
    · rw [sendHttpsHeader_sent h.hdrSent]
      exact .inl ⟨h, hpos⟩
  | stuck hst hlt =>
    rw [hidle hst]
    exact .stuck hst hlt
  | done h =>
    rw [hidle (by rw [h.state]; simp)]
    exact .done h

theorem respond_responding (answers : List Answers) (h : Responding fcache x) :
    Responding fcache (respond fcache answers x) := by
  induction answers generalizing x with
  | nil => exact h
  | cons a answers ih => exact ih (onWritable_responding a h)

theorem Responding.completed (h : Responding fcache x) (hc : Completed x) : Waits [] x.conn := by
  obtain ⟨hst, -, hwritten⟩ := hc
  cases h with
  | asked h => rw [h.state] at hst; cases hst
  | inFile h => rw [h.state] at hst; cases hst
  | stuck _ hlt =>
    rw [hwritten, List.length_append] at hlt
    omega
  | done h => exact h

theorem turnStep_waits (t : Turn) (x x' : Exchange) (hready : turnReady fcache wwwMain value t x)
    (hs : turnStep fcache wwwMain value t x = .ok x') (h : Waits [] x.conn) : Waits [] x'.conn := by
  obtain ⟨hreq, hne, hdone⟩ := hready
  rw [← Except.ok.inj hs]
  obtain ⟨-, hasked, halive, -⟩ := receive_request fcache wwwMain value t.chunks h hne hreq.chunks_ne hreq []
  exact (respond_responding t.answers (.asked hasked halive)).completed hdone

end

/-- After any number of requests whose responses were completed, however the next request is cut, every
piece but the last asks for more, and the last gives the answer to the same request in one piece on a new
connection. -/
theorem requests_alike (fcache : List FileCache) (wwwMain value value' : Bytes) (turns : List Turn) (x : Exchange)
    (hready : Along (turnStep fcache wwwMain value) (turnReady fcache wwwMain value) turns acceptedConn)
    (hrun : run (turnStep fcache wwwMain value) turns acceptedConn = .ok x) (chunks : List Bytes)
    (hreq : IsRequest chunks.flatten) (hne : ∀ b ∈ chunks, b ≠ []) :
    (receive fcache wwwMain value chunks x).1 = List.replicate (chunks.length - 1) .continue ++ [.ok]
      ∧ (handleReceivedPkt fcache wwwMain value' (.data chunks.flatten [0x17]) {}).1 = .ok
      ∧ decision (receive fcache wwwMain value chunks x).2.conn
        = decision (handleReceivedPkt fcache wwwMain value' (.data chunks.flatten [0x17]) {}).2 := by
  have hwaits : Waits [] x.conn :=
    run_along turnStep_waits turns _ x hready hrun ⟨rfl, rfl, rfl, rfl, rfl, rfl, rfl, rfl⟩
  obtain ⟨hresults, -, -, hdec⟩ := receive_request fcache wwwMain value chunks hwaits hne hreq.chunks_ne hreq value'
  have hpkt : handleReceivedPkt fcache wwwMain value' (.data chunks.flatten [0x17]) {}
      = (.ok, lookupFile fcache wwwMain value'
        { recvBytes := 0 + chunks.flatten.length, reqBuf := chunks.flatten }) := by
    have hnil : chunks.flatten ≠ [] := fun h => hreq.whole (by rw [h]; rfl)
    have hfit : ([] : Bytes).length + chunks.flatten.length < httpHeaderLen := by
      have hshort := hreq.short
      rw [List.length_nil, httpHeaderLen]
      omega
    exact handleReceivedPkt_complete hnil rfl hfit hreq.whole
  rw [hpkt, hdec]
  refine ⟨hresults, rfl, ?_⟩
  apply lookupFile_decision
  all_goals rfl

def sampleChunks : List Bytes := [ascii "GET /a HTTP/1.1\r\n\r", ascii "\n"]

theorem sampleChunks_request : IsRequest sampleChunks.flatten where
  text := by decide +kernel
  short := by decide
  blankLine := by
    unfold BlankLine
    decide
  first := by
    intro p hp hblank
    have htake := List.prefix_iff_eq_take.mp hp
    have htext : ∀ c ∈ p, c ≠ 0 := fun c hc => (by decide +kernel : ∀ c ∈ sampleChunks.flatten, c ≠ 0) c (hp.subset hc)
    have hfound := (findHeaderFrom_blankLine 0 htext).mpr hblank
    have hnone : ∀ n < 19, findHttpHeader (sampleChunks.flatten.take n) = 0 := by decide
    have hle : 19 ≤ p.length := by
      by_contra hlt
      exact hfound (htake ▸ hnone p.length (by omega))
    rw [htake, List.take_of_length_le (by exact hle)]
  keepAlive := by decide

theorem requests_alike_sample : ∃ x,
    run (turnStep [{ fullname := ascii "/www/a" }] (ascii "/www") [])
        [{ chunks := sampleChunks, answers := [{ send := some 1460 }] }] acceptedConn = .ok x
      ∧ (receive [{ fullname := ascii "/www/a" }] (ascii "/www") [] sampleChunks x).1 = [.continue, .ok] := by
  refine ⟨_, rfl, ?_⟩
  have hne : ∀ b ∈ sampleChunks, b ≠ [] := by decide
  have h := requests_alike [{ fullname := ascii "/www/a" }] (ascii "/www") [] []
    [{ chunks := sampleChunks, answers := [{ send := some 1460 }] }] _ ?_ rfl sampleChunks sampleChunks_request hne
  · exact h.1
  · exact ⟨⟨sampleChunks_request, hne, by decide +kernel, by decide +kernel, by decide +kernel⟩, trivial⟩

end Xtls.Host
