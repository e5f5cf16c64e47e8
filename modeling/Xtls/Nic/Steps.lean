import Xtls.Nic.Serve
import Xtls.Nic.System

/-!
# What one input can do

`StepOutcome` lists what a step of the two cores can do to the connections and the core, and
`step_outcome` is its inversion lemma.
-/

namespace Xtls.Nic

/-- The connection is in the hash table. -/
def Listed (ctx : Ctx) (c : ConnId) : Prop := ∃ b, c ∈ ctx.htTable b

/-- Only output, or what the code takes from outside, has changed. -/
def SysQuiet (s s' : Sys) : Prop :=
  s'.conns = s.conns ∧ ∃ out outside, s'.ctx = { s.ctx with out := out, outside := outside }

/-- Everything `insert_tcp_connection` does. -/
structure Inserted (c : ConnId) (s s' : Sys) : Prop where
  idle : (s.conns c).tcp.state = .idle
  conn : ∃ port cookie p,
    s'.conns c = { s.conns c with tcp := insertedTcp port cookie p (s.conns c).tcp }
  others : ∀ i, i ≠ c → s'.conns i = s.conns i
  ctx : s'.ctx =
    { s.ctx with
      htTable := (htInsert (s'.conns c).tcp c s.ctx).htTable
      htCount := s.ctx.htCount + 1
      activeCnt := s.ctx.activeCnt + 1
      freeSessionQ := s'.ctx.freeSessionQ
      freeCnt := s.ctx.freeCnt - 1
      trace := .insert c :: s.ctx.trace }
  queue : s.ctx.freeSessionQ = c :: s'.ctx.freeSessionQ

theorem Inserted.trace {c : ConnId} {s s' : Sys} (h : Inserted c s s') : s'.ctx.trace = .insert c :: s.ctx.trace :=
  (congrArg Ctx.trace h.ctx :)

/-- What packet `p` does to the connection it belongs to. -/
inductive Acts (env : Env) (p : Packet) (s : St) : St → Prop
  | handshake {s' : St} (h : processHandshakePacket env p s = .ok s') : Acts env p s s'
  | ack {s' : St} (h : processAckPacket p s = .ok s') : Acts env p s s'
  | migFin : Acts env p s (processHostMigFin p s)
  | close : Acts env p s (processHostClose p s)

inductive StepOutcome (env : Env) (x : Input) (s : Sys) : Sys → Prop
  | quiet {s' : Sys} (h : SysQuiet s s') : StepOutcome env x s s'
  | acts {port : UInt16} {p : Packet} {c : ConnId} {t : St} (input : x = .packet port p)
      (found : searchTcpConnection p s = .ok (some c)) (h : Acts env p ⟨s.conns c, s.ctx⟩ t) :
      StepOutcome env x s (s.put c t)
  | serves {c : ConnId} {t : St} (input : x = .serve c)
      (mem : c ∈ s.ctx.htTable (calculateHash (s.conns c).tcp))
      (h : serveConnection env ⟨s.conns c, s.ctx⟩ = .ok t) : StepOutcome env x s (s.put c t)
  | inserts {c : ConnId} {u s' : Sys} (h : Inserted c s u) (q : SysQuiet u s')
      (syn : ∃ port cookie p, x = .packet port p ∧ searchTcpConnection p s = .ok none
        ∧ (u.conns c).tcp = insertedTcp port cookie p (s.conns c).tcp) : StepOutcome env x s s'
  | replaces {c d : ConnId} {t : St} {u s' : Sys} (live : (s.conns c).tcp.state ≠ .idle)
      (h : removeSession ⟨s.conns c, s.ctx⟩ = .ok t) (q : SysQuiet (s.put c t) u)
      (h' : Inserted d u s') (mem : Listed s.ctx c)
      (syn : ∃ port cookie p, x = .packet port p ∧ searchTcpConnection p s = .ok (some c)
        ∧ (s'.conns d).tcp = insertedTcp port cookie p (u.conns d).tcp) : StepOutcome env x s s'
  | submits {priv : Operand} {s' : Sys} (h : handleSubmittedPka priv s = .ok s') :
      StepOutcome env x s s'
  | completes {o : OpId} {results : List Bytes} {s' : Sys}
      (h : handleCompletedPka o results s = .ok s') : StepOutcome env x s s'

section

variable {env : Env} {s s' : Sys} {c : ConnId} {p : Packet}

theorem SysQuiet.refl (s : Sys) : SysQuiet s s := ⟨rfl, s.ctx.out, s.ctx.outside, rfl⟩

theorem emit_quiet (o : Out) (s : Sys) : SysQuiet s (s.emit o) := ⟨rfl, _, _, rfl⟩

theorem Sys.on_ok {f : St → Except Halt St} (h : s.on c f = .ok s') :
    ∃ t, f ⟨s.conns c, s.ctx⟩ = .ok t ∧ s' = s.put c t := by
  obtain ⟨t, ht, h⟩ := bind_ok h
  cases h
  exact ⟨t, ht, rfl⟩

theorem htSearch_found {conns : ConnId → Conn} {key : Tcp} {bucket : List ConnId}
    (h : htSearch conns key bucket = .ok (some c)) : (conns c).tcp.state ≠ .idle ∧ c ∈ bucket := by
  induction bucket with
  | nil => cases h
  | cons d ds ih =>
    unfold htSearch at h
    dsimp only at h
    split at h
    · cases h
    · rename_i hni
      split at h
      · cases h
        exact ⟨hni, List.mem_cons_self⟩
      · obtain ⟨hlive, hmem⟩ := ih h
        exact ⟨hlive, List.mem_cons_of_mem d hmem⟩

theorem searchTcpConnection_live (h : searchTcpConnection p s = .ok (some c)) :
    (s.conns c).tcp.state ≠ .idle := (htSearch_found h).1

theorem searchTcpConnection_listed (h : searchTcpConnection p s = .ok (some c)) : Listed s.ctx c :=
  ⟨_, (htSearch_found h).2⟩

theorem insertTcpConnection_inserted {port : UInt16}
    (h : insertTcpConnection env port p s = .ok (c, s')) : Inserted c s s'
      ∧ ∃ cookie, (s'.conns c).tcp = insertedTcp port cookie p (s.conns c).tcp := by
  unfold insertTcpConnection at h
  split at h
  · cases h
  · rename_i d q hq
    split at h
    · cases h
    · rename_i hidle
      cases h
      refine ⟨?_, getCookie env s.ctx.outside.tMajor p, by simp⟩
      refine ⟨not_not.mp hidle, ⟨port, getCookie env s.ctx.outside.tMajor p, p, by simp⟩, ?_, ?_, hq⟩
      · intro i hi
        simp [hi]
      · simp [htInsert]

theorem onConnection_outcome {port : UInt16} {f : St → Except Halt St}
    (hf : ∀ t t', f t = .ok t' → Acts env p t t') (h : onConnection p f s = .ok s') :
    StepOutcome env (.packet port p) s s' := by
  obtain ⟨found, hfound, h⟩ := bind_ok h
  cases found with
  | none => cases h; exact .quiet (.refl _)
  | some c =>
    obtain ⟨t, ht, rfl⟩ := Sys.on_ok h
    exact .acts rfl hfound (hf _ _ ht)

/-- A SYN creates a connection, is answered again, or replaces the connection it finds. -/
inductive SynOutcome (env : Env) (port : UInt16) (p : Packet) (s : Sys) : Sys → Prop
  | creates {c : ConnId} {u s' : Sys} (found : searchTcpConnection p s = .ok none)
      (h : insertTcpConnection env port p s = .ok (c, u)) (q : SysQuiet u s') :
      SynOutcome env port p s s'
  | answers {c : ConnId} {s' : Sys} (found : searchTcpConnection p s = .ok (some c))
      (same : p.seq + 1 = (s.conns c).tcp.lastRecvSeq) (q : SysQuiet s s') : SynOutcome env port p s s'
  | replaces {c d : ConnId} {t : St} {u s' : Sys} (found : searchTcpConnection p s = .ok (some c))
      (new : ¬ p.seq + 1 = (s.conns c).tcp.lastRecvSeq)
      (h : removeSession ⟨s.conns c, s.ctx⟩ = .ok t) (q : SysQuiet (s.put c t) u)
      (h' : insertTcpConnection env port p u = .ok (d, s')) : SynOutcome env port p s s'

theorem processSynPacket_cases {port : UInt16} (h : processSynPacket env port p s = .ok s') :
    SynOutcome env port p s s' := by
  obtain ⟨found, hfound, h⟩ := bind_ok h
  cases found with
  | none =>
    obtain ⟨⟨c, u⟩, hu, h⟩ := bind_ok h
    cases h
    exact .creates hfound hu (emit_quiet _ _)
  | some c =>
    dsimp only at h
    split at h
    · rename_i hsame
      cases h
      exact .answers hfound hsame (emit_quiet _ _)
    · rename_i hnew
      obtain ⟨u, hu, h⟩ := bind_ok h
      obtain ⟨t, ht, rfl⟩ := Sys.on_ok hu
      obtain ⟨⟨d, v⟩, hv, h⟩ := bind_ok h
      cases h
      exact .replaces hfound hnew ht (emit_quiet _ _) hv

theorem processSynPacket_outcome {port : UInt16} (h : processSynPacket env port p s = .ok s') :
    StepOutcome env (.packet port p) s s' := by
  cases processSynPacket_cases h with
  | creates hfound hu hq =>
    obtain ⟨hi, cookie, htcp⟩ := insertTcpConnection_inserted hu
    exact .inserts hi hq ⟨port, cookie, p, rfl, hfound, htcp⟩
  | answers _ _ hq => exact .quiet hq
  | replaces hfound _ ht hq hv =>
    obtain ⟨hi, cookie, htcp⟩ := insertTcpConnection_inserted hv
    exact .replaces (searchTcpConnection_live hfound) ht hq hi
      (searchTcpConnection_listed hfound) ⟨port, cookie, p, rfl, hfound, htcp⟩

theorem processFinPacket_quiet {port : UInt16} (h : processFinPacket port p s = .ok s') :
    SysQuiet s s' := by
  obtain ⟨found, -, h⟩ := bind_ok h
  cases found with
  | none => cases h; exact emit_quiet _ _
  | some c =>
    dsimp only at h
    split at h <;> cases h
    · exact emit_quiet _ _
    · exact .refl _

theorem processRstPacket_quiet {port : UInt16} (h : processRstPacket port p s = .ok s') :
    SysQuiet s s' := by
  obtain ⟨found, -, h⟩ := bind_ok h
  cases found with
  | none => cases h; exact .refl _
  | some c =>
    dsimp only at h
    split at h <;> cases h
    · exact emit_quiet _ _
    · exact .refl _

theorem processPacket_outcome {port : UInt16} (h : processPacket env port p s = .ok s') :
    StepOutcome env (.packet port p) s s' := by
  unfold processPacket at h
  split at h
  · exact onConnection_outcome (fun _ _ ht => .handshake ht) h
  · exact processSynPacket_outcome h
  · exact onConnection_outcome (fun _ _ ht => .ack ht) h
  · exact onConnection_outcome (fun _ _ ht => by cases ht; exact .migFin) h
  · exact onConnection_outcome (fun _ _ ht => by cases ht; exact .close) h
  · exact .quiet (processFinPacket_quiet h)
  · exact .quiet (processRstPacket_quiet h)
  · cases h; exact .quiet (.refl _)
  · cases h; exact .quiet (.refl _)

theorem step_outcome {x : Input} (h : step env x s = .ok s') : StepOutcome env x s s' := by
  cases x with
  | packet port p => exact processPacket_outcome h
  | serve c =>
    simp only [step] at h
    split at h
    · rename_i hmem
      obtain ⟨t, ht, rfl⟩ := Sys.on_ok h
      exact .serves rfl hmem ht
    · cases h
      exact .quiet (.refl _)
  | pkaSubmit priv => exact .submits h
  | pkaComplete o results => exact .completes h
  | outside o => cases h; exact .quiet ⟨rfl, _, _, rfl⟩

/-! ### Relations that hold across whatever is done to a connection -/

/-- What is written to a connection besides reading its records: for a segment in sequence, for a
packet that is kept for the host and its forwarding, and by `apply_hws`. -/
inductive TcpWrite (c : Conn) : Tcp → Prop
  | segment (p : Packet) (here : c.tcp.onload = false) : TcpWrite c (c.tcp.storeNumbers p)
  | keeps (data : Bytes) (onload : c.tcp.onload = true) :
      TcpWrite c { c.tcp with pendingAppData := data }
  | forwards (applied : c.tcp.hwsApplied = true) : TcpWrite c { c.tcp with pendingAppData := [] }
  | applies (active : c.sess.state = .active) (fin : c.tcp.recvMigFin = true) :
      TcpWrite c { c.tcp with hwsInserted := true, hwsApplied := true }

/-- What the packets of the host write. -/
inductive HostWrite (c : Conn) : Tcp → Prop
  | migFin (p : Packet) (matched : matchesMeta p c.sess = true) :
      HostWrite c { c.tcp with recvMigFin := true }
  | resets : HostWrite c { c.tcp with needToSendRstMeta := true }
  | ends (p : Packet) (matched : matchesMeta p c.sess = true) :
      HostWrite c { c.tcp with hwsReadyToDel := true }

structure TcpMove (t t' : Tcp) : Prop where
  addr : t'.addr = t.addr
  state : t'.state = t.state ∨ t'.state = .received
  onload : t'.onload = t.onload

theorem TcpWrite.move {c : Conn} {t : Tcp} (h : TcpWrite c t) : TcpMove c.tcp t := by
  cases h with
  | segment => exact ⟨rfl, .inr rfl, rfl⟩
  | keeps | forwards | applies => exact ⟨rfl, .inl rfl, rfl⟩

theorem HostWrite.move {c : Conn} {t : Tcp} (h : HostWrite c t) : TcpMove c.tcp t := by
  cases h <;> exact ⟨rfl, .inl rfl, rfl⟩

theorem calculateHash_addr {t t' : Tcp} (h : t'.addr = t.addr) :
    calculateHash t' = calculateHash t := by
  simp only [Tcp.addr, Prod.mk.injEq] at h
  simp only [calculateHash, hashKey, h]

theorem TcpMove.hash {t t' : Tcp} (h : TcpMove t t') : calculateHash t' = calculateHash t :=
  calculateHash_addr h.addr

/-- `R` holds across what a packet does to its connection besides being read. -/
structure PacketRule (R : St → St → Prop) : Prop where
  refl : ∀ s, R s s
  trans : ∀ {a b c}, R a b → R b c → R a c
  tcp : ∀ s f, TcpWrite s.conn (f s.conn.tcp) → R s (s.mapTcp f)
  frame : ∀ s s', Still s s' → R s s'

/-- `R` holds across what both loops do besides reading records. -/
structure MoveRule (R : St → St → Prop) : Prop extends PacketRule R where
  emits : ∀ s x, R s (emit x s)

/-- `R` holds across what `main_loop` does for a connection behind `process_session_read`. -/
structure ServeRule (env : Env) (R : St → St → Prop) : Prop extends MoveRule R where
  crypto : ∀ s s', getProcessedCrypto env s = .ok s' → R s s'
  removed : ∀ s s', s.conn.tcp.hwsApplied ∧ s.conn.tcp.hwsReadyToDel → Removed s s' → R s s'
  remain : ∀ s s', RemainOutcome env s s' → R s s'

/-- `R` also holds across the rounds of the two loops over records. -/
structure TurnRule (env : Env) (R : St → St → Prop) : Prop extends ServeRule env R where
  round : ∀ pkt pkt' s s', newRecordRound env pkt s = .ok (pkt', s') → R s s'
  queued : ∀ s s' r q ret, s.conn.sess.waitingCrypto = false → s.conn.sess.recvQ = r :: q →
    processReadRecord env 0 r (s.mapSess fun e => { e with recvQ := q }) = .ok (ret, s') → R s s'

/-- `R` holds across every elementary move on a connection. -/
structure Closed (env : Env) (R : St → St → Prop) : Prop extends TurnRule env R where
  host : ∀ s f, HostWrite s.conn (f s.conn.tcp) → R s (s.mapTcp f)

section

variable {R : St → St → Prop} {t t' : St}

theorem MoveRule.forward (hR : MoveRule R) (s : St) : R s (forwardAppData s) := by
  unfold forwardAppData
  split
  · rename_i hws
    exact hR.trans (hR.emits s _) (hR.tcp _ _ (.forwards hws.1))
  · exact hR.refl s

theorem PacketRule.applies (hR : PacketRule R) (s : St) : R s (applyHws s) := by
  unfold applyHws
  split
  · rename_i hws
    exact hR.tcp _ _ (.applies hws.1 hws.2.1)
  · exact hR.refl s

theorem ServeRule.rest (hR : ServeRule env R) {s1 : St} (hread : processSessionRead env t = .ok s1)
    (h : serveConnection env t = .ok t') : R s1 t' := by
  obtain ⟨s1', h1, h⟩ := bind_ok h
  cases hread.symm.trans h1
  obtain ⟨s2, h2, h⟩ := bind_ok h
  obtain ⟨s3, h3, h4⟩ := bind_ok h
  have hremove : R (applyHws s2) s3 := by
    rcases removeHws_cases h3 with ⟨-, rfl⟩ | ⟨hws, hr⟩
    · exact hR.refl _
    · exact hR.removed _ _ hws hr
  exact hR.trans (hR.crypto _ _ h2) <| hR.trans (hR.toMoveRule.applies s2) <| hR.trans hremove <|
    hR.trans (hR.toMoveRule.forward s3) (hR.remain _ _ (sendRemainServerRecords_outcome h4))

theorem ServeRule.serve (hR : ServeRule env R)
    (hread : ∀ s1, processSessionRead env t = .ok s1 → R t s1)
    (h : serveConnection env t = .ok t') : R t t' := by
  obtain ⟨s1, h1, -⟩ := bind_ok h
  exact hR.trans (hread s1 h1) (hR.rest h1 h)

theorem TurnRule.serve (hR : TurnRule env R) (h : serveConnection env t = .ok t') : R t t' :=
  hR.toServeRule.serve (fun _ h1 => processSessionReadLoop_rule hR.refl hR.trans hR.queued h1) h

theorem processNormalSeqCase_rule (hrefl : ∀ s, R s s) (htrans : ∀ {a b c}, R a b → R b c → R a c)
    (hseg : R t (storeNumbers p t))
    (hround : p.payload ≠ [] → ∀ pkt pkt' s s', Starts pkt s → newRecordRound env pkt s = .ok (pkt', s') → R s s')
    (hack : ∀ s, R s (sendTcpPacket TCP_FLAG_ACK [] s))
    (h : processNormalSeqCase env p t = .ok t') : R t t' := by
  obtain ⟨⟨ret, u⟩, hu, h⟩ := bind_ok h
  have hssl : R (storeNumbers p t) u := by
    unfold processSslPacket at hu
    split at hu
    · cases hu
      exact hrefl _
    · rename_i hp
      obtain ⟨v, hv, hu⟩ := bind_ok hu
      cases hu
      exact processNewRecordLoop_rule hrefl htrans (hround hp) hv
  have hlast : R u t' := by
    dsimp only at h
    split at h <;> cases h
    · exact hack u
    · exact hrefl _
  exact htrans hseg (htrans hssl hlast)

theorem PacketRule.normalSeq (hR : PacketRule R) (hload : t.conn.tcp.onload = false)
    (hround : p.payload ≠ [] → ∀ pkt pkt' s s', Starts pkt s → newRecordRound env pkt s = .ok (pkt', s') → R s s')
    (h : processNormalSeqCase env p t = .ok t') : R t t' :=
  processNormalSeqCase_rule hR.refl hR.trans (hR.tcp _ _ (.segment p hload)) hround
    (fun s => hR.frame _ _ (sendTcpEmpty_still _ s)) h

theorem PacketRule.keepAppData (hR : PacketRule R) (hload : t.conn.tcp.onload = true)
    (h : keepAppData p t = .ok t') : R t t' := by
  obtain ⟨data, -, h⟩ := bind_ok h
  cases h
  exact hR.tcp _ _ (.keeps data hload)

theorem PacketRule.handshake (hR : PacketRule R)
    (hround : p.payload ≠ [] → ∀ pkt pkt' s s', Starts pkt s → newRecordRound env pkt s = .ok (pkt', s') → R s s')
    (h : processHandshakePacket env p t = .ok t') : R t t' := by
  unfold processHandshakePacket at h
  split at h
  · rename_i hload
    exact hR.keepAppData hload h
  · rename_i hload
    split at h
    · exact hR.normalSeq (by simpa using hload) hround h
    · cases h; exact hR.refl _
    · cases h; exact hR.frame _ _ (sendTcpEmpty_still _ t)
    · cases h; exact hR.refl _

theorem PacketRule.ack (hR : PacketRule R) (h : processAckPacket p t = .ok t') : R t t' := by
  unfold processAckPacket at h
  split at h
  · cases h; exact hR.refl _
  · split at h
    · rename_i hload
      exact hR.keepAppData hload h
    · cases h; exact hR.refl _

theorem PacketRule.acts (hR : PacketRule R)
    (hhost : ∀ s f, HostWrite s.conn (f s.conn.tcp) → R s (s.mapTcp f))
    (hround : p.payload ≠ [] → ∀ pkt pkt' s s', Starts pkt s → newRecordRound env pkt s = .ok (pkt', s') → R s s')
    (h : Acts env p t t') : R t t' := by
  cases h with
  | handshake h => exact hR.handshake hround h
  | ack h => exact hR.ack h
  | migFin =>
    unfold processHostMigFin
    dsimp only
    split
    · rename_i hm
      exact hhost _ _ (.migFin p hm)
    · exact hR.trans (hR.frame _ _ ⟨(emitTcp_frame _ rfl t).trans (sendRstConnMeta_frame _ _), .quiet rfl rfl⟩)
        (hhost _ _ .resets)
  | close =>
    unfold processHostClose
    split
    · rename_i hm
      exact hhost _ _ (.ends p hm)
    · exact hR.refl t

theorem Closed.acts (hR : Closed env R) (h : Acts env p t t') : R t t' :=
  hR.toMoveRule.acts hR.host (fun _ _ _ _ _ _ hr => hR.round _ _ _ _ hr) h

theorem Closed.map {R' : St → St → Prop} (hR : Closed env R) (h : ∀ s s', R s s' → R' s s')
    (htrans : ∀ {a b c}, R' a b → R' b c → R' a c) : Closed env R' where
  refl s := h _ _ (hR.refl s)
  trans := htrans
  tcp s f hf := h _ _ (hR.tcp s f hf)
  host s f hf := h _ _ (hR.host s f hf)
  emits s x := h _ _ (hR.emits s x)
  frame s s' hf := h _ _ (hR.frame s s' hf)
  crypto s s' hc := h _ _ (hR.crypto s s' hc)
  removed s s' hws hr := h _ _ (hR.removed s s' hws hr)
  remain s s' ho := h _ _ (hR.remain s s' ho)
  round pkt pkt' s s' hr := h _ _ (hR.round pkt pkt' s s' hr)
  queued s s' r q ret hw hq hr := h _ _ (hR.queued s s' r q ret hw hq hr)

end

/-! ### Relations given by what reading a record consists of -/

structure Named (e : Session) (r : Record) (ch : ClientHello) : Prop where
  sessionId : e.id_ = ch.sessionId
  parsed : unpackClientHello r.pf r.plainText.length.toNat = .ok (some ch)

/-- The ClientHello in `r` was found by the call that is on record last, in the bytes it was made with. -/
structure Introduced (s : St) (r : Record) (ch : ClientHello) : Prop extends Named s.conn.sess r ch where
  call : ∃ conn r0 rest room old, s.ctx.trace = .read conn r0 rest room :: old ∧ conn.id = s.conn.id
    ∧ (s.conn.sess.readSp.bulkCipherAlgorithm = .noCipher → r.message = r0.content)

/-- `R` holds across whatever `process_read_record` does with a record. -/
structure OutcomeRule (R : St → St → Prop) : Prop where
  refl : ∀ s, R s s
  trans : ∀ {a b c}, R a b → R b c → R a c
  frame : ∀ s s', Frame s s' → R s s'
  hello : ∀ s s' r ch o, s.conn.sess.waitingCrypto = false →
    s.conn.sess.handshakeState = .helloRequest → r.IsHello ch → Introduced s r ch →
    Submits { opcode := .ecdheKeyGeneration, data := some r } o s s' → R s s'
  spec : ∀ s, s.conn.sess.handshakeState = .finished
    ∨ ¬ .clientCipherSpec ≤ s.conn.sess.handshakeState → R s (changeSpec s)
  finish : ∀ s, ¬ .finished ≤ s.conn.sess.handshakeState → R s (finishHandshake s)
  removed : ∀ s s', Removed s s' → R s s'

/-- `R` also holds across the events that are put on record and across changes of the two queues. -/
structure ReadRule (R : St → St → Prop) : Prop extends OutcomeRule R where
  call : ∀ rest r s, R s (reading rest r s)
  complete : ∀ r s, R s (completing r s)
  queues : ∀ s cur q, R s (s.mapSess fun e => { e with currentReadRecord := cur, recvQ := q })

section

variable {R : St → St → Prop} {t t' : St}

theorem OutcomeRule.outcome (h : OutcomeRule R) {rest : Nat} {r : Record} (hw : t.conn.sess.waitingCrypto = false)
    (ho : ReadOutcome env r (reading rest r t) t') : R (reading rest r t) t' := by
  cases ho with
  | dropped hf => exact h.frame _ _ hf
  | @hello s1 _ r1 ch o hrd hst hparsed hf hnamed hsub =>
    have hw1 : s1.conn.sess.waitingCrypto = false :=
      hf.waitingCrypto.trans hw
    have hst1 : s1.conn.sess.handshakeState = .helloRequest :=
      hf.handshakeState.trans hst
    have hcall : s1.ctx.trace = .read t.conn r rest t.ctx.ringRoom :: t.ctx.trace := hf.trace
    have hclear := hf.readSp
    have hintro : Introduced s1 { r1 with fragment := .clientHello ch } ch :=
      ⟨⟨hnamed, hparsed⟩, _, _, _, _, _, hcall, hf.id.symm, fun hno => hrd.content (hclear ▸ hno)⟩
    exact h.trans (h.frame _ _ hf) (h.hello _ _ { r1 with fragment := .clientHello ch } ch o
      hw1 hst1 ⟨hrd.recordType, rfl⟩ hintro hsub)
  | @cipherSpec s1 _ _ _ hst hf hf' =>
    have hst1 : s1.conn.sess.handshakeState = _ := hf.handshakeState
    exact h.trans (h.frame _ _ hf) (h.trans (h.spec _ (by rw [hst1]; exact hst)) (h.frame _ _ hf'))
  | alert _ _ hf hr =>
    exact h.trans (h.frame _ _ hf) (h.removed _ _ (removeSession_removed hr))
  | @finished s1 _ _ _ _ hst _ hf hf' =>
    have hst1 : s1.conn.sess.handshakeState = _ := hf.handshakeState
    exact h.trans (h.frame _ _ hf) (h.trans (h.finish _ (by rw [hst1]; exact hst)) (h.frame _ _ hf'))
  | @refused s1 _ _ _ _ _ _ hst _ hf hws hf' hr =>
    have hst1 : s1.conn.sess.handshakeState = _ := hf.handshakeState
    have hend := h.trans (h.frame _ _ hf') (h.removed _ _ (removeSession_removed hr))
    refine h.trans (h.frame _ _ hf) (h.trans (h.finish _ (by rw [hst1]; exact hst)) ?_)
    rcases removeHws_cases hws with ⟨-, rfl⟩ | ⟨-, hrem⟩
    · exact hend
    · exact h.trans (h.removed _ _ hrem) hend

theorem ReadRule.read (h : ReadRule R) {rest : Nat} {r : Record} {ret : Int}
    (hw : t.conn.sess.waitingCrypto = false)
    (hread : processReadRecord env rest r t = .ok (ret, t')) : R t t' :=
  h.trans (h.call rest r t) (h.outcome hw (processReadRecord_outcome hread hw))

theorem ReadRule.round (h : ReadRule R) {pkt pkt' : Bytes} (hr : newRecordRound env pkt t = .ok (pkt', t')) :
    R t t' := by
  obtain ⟨r, s1, hcur, -, hcases⟩ := newRecordRound_cases hr
  have h1 : R t s1 := by
    rcases currentRecord_cases hcur with ⟨-, rfl⟩ | ⟨-, -, hf, -⟩
    · exact h.refl _
    · exact h.frame _ _ hf
  have h2 : R t (setCurrent (some (filled r pkt)) s1) :=
    h.trans h1 (h.queues s1 _ s1.conn.sess.recvQ)
  rcases hcases with ⟨-, rfl⟩ | ⟨-, s2, hs2, rfl⟩
  · exact h2
  · have h3 : R (completing (filled r pkt) (setCurrent (some (filled r pkt)) s1)) s2 := by
      rcases takeRecord_cases hs2 with ⟨-, rfl⟩ | ⟨hw, ret, hread⟩
      · exact h.queues _ (some (filled r pkt)) _
      · exact h.read hw hread
    exact h.trans h2 <| h.trans (h.complete _ _) <| h.trans h3 <|
      h.queues s2 none s2.conn.sess.recvQ

theorem ReadRule.queued (h : ReadRule R) {r : Record} {q : List Record} {ret : Int}
    (hw : t.conn.sess.waitingCrypto = false)
    (hread : processReadRecord env 0 r (t.mapSess fun e => { e with recvQ := q }) = .ok (ret, t')) :
    R t t' :=
  have hq : R t (t.mapSess fun e => { e with recvQ := q }) :=
    h.queues t t.conn.sess.currentReadRecord q
  h.trans hq (h.read hw hread)

theorem ReadRule.turn (h : ReadRule R) (hemit : ∀ s x, R s (emit x s))
    (htcp : ∀ s f, TcpWrite s.conn (f s.conn.tcp) → R s (s.mapTcp f))
    (hcrypto : ∀ s s', getProcessedCrypto env s = .ok s' → R s s')
    (hremain : ∀ s s', RemainOutcome env s s' → R s s') : TurnRule env R where
  refl := h.refl
  trans := h.trans
  tcp := htcp
  emits := hemit
  frame _ _ hf := h.frame _ _ hf.toFrame
  round _ _ _ _ hr := h.round hr
  queued _ _ _ _ _ hw _ hread := h.queued hw hread
  crypto := hcrypto
  removed _ _ _ hr := h.removed _ _ hr
  remain := hremain

theorem ReadRule.closed (h : ReadRule R) (hemit : ∀ s x, R s (emit x s))
    (htcp : ∀ s f, TcpMove s.conn.tcp (f s.conn.tcp) → R s (s.mapTcp f))
    (hcrypto : ∀ s s', getProcessedCrypto env s = .ok s' → R s s')
    (hremain : ∀ s s', RemainOutcome env s s' → R s s') : Closed env R where
  toTurnRule := h.turn hemit (fun s f hf => htcp s f hf.move) hcrypto hremain
  host s f hf := htcp s f hf.move

end

/-! ### The PKA core -/

theorem handleSubmittedPka_cases {priv : Operand} (h : handleSubmittedPka priv s = .ok s') :
    s' = s ∨ ∃ o ring c, s.ctx.curCryptoCnt.toNat < maxOutstandingPkaReq
      ∧ s.ctx.submitPkaRing = o :: ring
      ∧ (s.ctx.ops o).opcode.isPka = true ∧ (s.ctx.ops o).sess = some c
      ∧ s'.conns = (s.setConn c fun e =>
          { e with
            pendingPkaOp := some o
            ecdhePrivKey := if (s.ctx.ops o).opcode = .ecdheKeyGeneration then priv
              else e.ecdhePrivKey }).conns
      ∧ s'.ctx = { s.ctx.setOp o { s.ctx.ops o with pkaFlag := true } with
          submitPkaRing := ring, engine := s.ctx.engine ++ [o]
          curCryptoCnt := s.ctx.curCryptoCnt + 1 } := by
  unfold handleSubmittedPka at h
  split at h
  · cases h; exact .inl rfl
  · rename_i hroom
    split at h
    · cases h; exact .inl rfl
    · rename_i o ring hring
      dsimp only at h
      split at h
      · cases h
      · rename_i hop
        split at h
        · cases h
        · rename_i c hc
          cases h
          exact .inr ⟨o, ring, c, Nat.not_le.mp hroom, hring, by simpa using hop, hc, rfl, rfl⟩

theorem handleCompletedPka_cases {o : OpId} {results : List Bytes}
    (h : handleCompletedPka o results s = .ok s') :
    s' = s ∨ ∃ c, o ∈ s.ctx.engine ∧ (s.ctx.ops o).sess = some c
      ∧ (((s.ctx.ops o).pkaFlag = false
          ∧ s'.conns = (s.setConn c fun e => { e with pkaOp := some o }).conns
          ∧ s'.ctx = { s.ctx with engine := s.ctx.engine.erase o })
        ∨ ((s.ctx.ops o).pkaFlag = true
          ∧ ¬ ((s.conns c).sess.handshakeState = .helloRequest ∧ (s.ctx.ops o).data.isNone)
          ∧ s'.conns = (s.setConn c fun e =>
              { e with
                pkaOp := some o
                pkaResults := results.map (fun b => { buf := b })
                  ++ e.pkaResults.drop results.length
                completedCrypto := true }).conns
          ∧ s'.ctx = { s.ctx with
              engine := s.ctx.engine.erase o
              curCryptoCnt := s.ctx.curCryptoCnt - 1
              completedCryptoCnt := s.ctx.completedCryptoCnt + 1 })) := by
  unfold handleCompletedPka at h
  split at h
  · cases h; exact .inl rfl
  · rename_i hin
    have hmem : o ∈ s.ctx.engine := by
      by_contra hno
      exact hin (.inr hno)
    dsimp only at h
    split at h
    · cases h
    · rename_i c hc
      split at h
      · rename_i hflag
        cases h
        exact .inr ⟨c, hmem, hc, .inl ⟨hflag, rfl, rfl⟩⟩
      · rename_i hflag
        split at h
        · cases h
        · rename_i hdata
          cases h
          exact .inr ⟨c, hmem, hc, .inr ⟨by simpa using hflag, hdata, rfl, rfl⟩⟩

theorem handleSubmittedPka_trace {priv : Operand} (h : handleSubmittedPka priv s = .ok s') :
    s'.ctx.trace = s.ctx.trace := by
  rcases handleSubmittedPka_cases h with rfl | ⟨o, ring, c, -, -, -, -, -, hctx⟩
  · rfl
  · rw [hctx]
    rfl

theorem handleCompletedPka_trace {o : OpId} {results : List Bytes} (h : handleCompletedPka o results s = .ok s') :
    s'.ctx.trace = s.ctx.trace := by
  rcases handleCompletedPka_cases h with rfl | ⟨c, -, -, ⟨-, -, hctx⟩ | ⟨-, -, -, hctx⟩⟩
  · rfl
  all_goals rw [hctx]

end

end Xtls.Nic
