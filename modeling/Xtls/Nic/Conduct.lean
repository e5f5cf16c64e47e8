import Xtls.Nic.Lifecycle
import Xtls.Nic.Placement

/-!
# What a connection does

The stage of a connection of the worker, and what the connection does when it is served and when a
packet for it arrives.  Whatever the code does takes the connection along its life cycle; `Takes` says
so for a function, also where it ends the process.
-/

namespace Xtls.Nic

def stageOf (ctx : Ctx) (c : Conn) : Stage where
  listed := Listed ctx c.id
  addr := c.tcp.addr
  recvMigFin := c.tcp.recvMigFin
  hwsInserted := c.tcp.hwsInserted
  hwsApplied := c.tcp.hwsApplied
  hwsReadyToDel := c.tcp.hwsReadyToDel
  onload := c.tcp.onload
  pendingAppData := c.tcp.pendingAppData
  state := c.sess.state
  handshakeState := c.sess.handshakeState
  clear := c.sess.writeSp.bulkCipherAlgorithm = .noCipher
  sendSeqNum := c.sess.sendSeqNum
  serverWriteIvSeqNum := c.sess.serverWriteIvSeqNum
  serverHandshakeKey := slice c.sess.tls13Ctx.serverHandshakeKey 0 32
  serverHandshakeIv := c.sess.tls13Ctx.serverHandshakeIv

def St.stage (s : St) : Stage := stageOf s.ctx s.conn

def Sys.stage (s : Sys) (c : ConnId) : Stage := stageOf s.ctx (s.conns c)

/-! ### Deeds -/

/-- The call of `encrypt_record` that `send_record` makes for the next record. -/
def sendCall (s : St) : List Deed :=
  match newSendRecord s with
  | .error _ => []
  | .ok (r, s) =>
    let e := s.conn.sess
    if e.writeSp.bulkCipherAlgorithm = .noCipher ∨ e.pendingSp.cipherType ≠ .aead then []
    else
      [.encrypts
        { serverWriteIvSeqNum := e.serverWriteIvSeqNum, recordSeqNum := r.seqNum
          sendSeqNum := e.sendSeqNum
          key := slice e.tls13Ctx.serverHandshakeKey 0 32, iv := e.tls13Ctx.serverHandshakeIv
          nonce := makeNonce e.tls13Ctx.serverHandshakeIv e.sendSeqNum }]

def helloCall (s : St) : List Deed :=
  if s.conn.sess.completedCrypto ∧ s.conn.sess.handshakeState = .helloRequest then
    match s.conn.sess.pkaOp.bind fun o => (s.ctx.ops o).data with
    | some r =>
      match r.fragment with
      | .clientHello ch => sendCall (setPendingSp r ch [] s)
      | _ => []
    | none => []
  else []

def nextCall (k : HandshakeType) : Except Halt St → List Deed
  | .ok s => sendCall (setHandshakeState k s)
  | .error _ => []

def remainDeeds (env : Env) (s : St) : List Deed :=
  let e := s.conn.sess
  if e.handshakeState = .serverHello ∧ e.tls13Ctx.handshakeKeyCalculated then
    sendCall s ++ nextCall .encryptedExtensions (sendEncryptedExtensions env s)
  else if e.handshakeState = .certificate ∧ e.tls13Ctx.certSignatured then
    sendCall s ++ nextCall .certificateVerify (sendCertificateVerify env s)
  else if e.handshakeState = .certificateVerify ∧ s.conn.tcp.recvMigFin then
    [.flight s.stage e.sendBuffer]
  else []

def forwardDeeds (s : St) : List Deed :=
  if s.conn.tcp.hwsApplied ∧ s.conn.tcp.pendingAppData ≠ [] then [.forwarded s.stage] else []

/- Only `remove_session` clears `pending_app_data` without sending it. -/
def lostBy (s s' : St) : List Deed :=
  if s'.conn.tcp.pendingAppData = s.conn.tcp.pendingAppData then [] else s.stage.loses

def processResults (env : Env) (s : St) : Except Halt St := do
  let s ← getProcessedCrypto env s
  removeHws (applyHws s)

def serveDeeds (env : Env) (s : St) : List Deed :=
  match processSessionRead env s with
  | .error _ => []
  | .ok s1 =>
    helloCall s1 ++ match processResults env s1 with
      | .error _ => []
      | .ok s2 => lostBy s s2 ++ forwardDeeds s2 ++ remainDeeds env (forwardAppData s2)

def storeDeeds (p : Packet) (s : St) : List Deed := s.stage.loses ++ [.stored p.stored]

def typeDeeds (env : Env) (p : Packet) (s : St) : Option PacketType → List Deed
  | some .sslHandshake =>
    if s.conn.tcp.onload then storeDeeds p s
    else
      match processHandshakePacket env p s with
      | .ok s' => lostBy s s'
      | .error _ => []
  | some .tcpAck =>
    if p.ack = s.conn.tcp.cookie + 1 ∧ p.payload = [] then []
    else if s.conn.tcp.onload then storeDeeds p s
    else []
  | some .hostMigFin => [.migFin p s.conn.sess.metaHdr]
  | some .tcpSyn => if p.seq + 1 = s.conn.tcp.lastRecvSeq then [] else s.stage.loses
  | some .hostClose => if matchesMeta p s.conn.sess then [.hostEnds] else []
  | some .tcpFin => if s.conn.tcp.onload then [] else [.clientEnds]
  | some .tcpRst => if s.conn.tcp.onload then [] else [.clientEnds]
  | _ => []

def packetDeeds (env : Env) (port : UInt16) (p : Packet) (s : St) : List Deed :=
  typeDeeds env p s (validatePacketType port p)

/-! ### Moves of one connection -/

/- A connection that is taken out of the table has no result to be looked at. -/
def St.Settled (s : St) : Prop :=
  Listed s.ctx s.conn.id ∨ s.conn.sess.completedCrypto = false

/-- The connection does `ds` on the way from `s` to `s'`, and the others stay where they are. -/
structure Goes (s : St) (ds : List Deed) (s' : St) : Prop where
  path : Path Stage.Step s.stage ds s'.stage
  id : s'.conn.id = s.conn.id
  others : ∀ d, d ≠ s.conn.id → (Listed s'.ctx d ↔ Listed s.ctx d)

/-- Nothing more is done than to lose what was stored. -/
structure Lived (s s' : St) : Prop extends Goes s (lostBy s s') s' where
  kept : s'.conn.tcp.pendingAppData = s.conn.tcp.pendingAppData ∨ s'.conn.tcp.pendingAppData = []
  settled : s'.Settled

/-- The connection does `ds` in a function that returns `r`, also if it ends the process. -/
def Takes (s : St) (ds : List Deed) (r : Except Halt St) : Prop :=
  (∃ v, Path Stage.Step s.stage ds v) ∧ ∀ s', r = .ok s' → Goes s ds s'

/-- A move that takes the connection along its life cycle and does nothing but that. -/
structure Conducts (s s' : St) : Prop where
  carries : Carries (fun _ => True) (fun s => OpFacts s ∧ Placed s) s s'
  lived : ∀ others, OpFacts (s.among others) ∧ Placed (s.among others) → s.stage.Sound →
    s.Settled → Lived s s'

section

variable {env : Env} {s s' t : St} {o : OpId} {fill : Op} {r : Record} {others : ConnId → Conn}

theorem lostBy_same (h : s'.conn.tcp.pendingAppData = s.conn.tcp.pendingAppData) : lostBy s s' = [] :=
  if_pos h

theorem lostBy_append
    (h1 : t.conn.tcp.pendingAppData = s.conn.tcp.pendingAppData ∨ t.conn.tcp.pendingAppData = [])
    (h2 : s'.conn.tcp.pendingAppData = t.conn.tcp.pendingAppData ∨ s'.conn.tcp.pendingAppData = []) :
    lostBy s t ++ lostBy t s' = lostBy s s' := by
  have hloses : ∀ u : St, u.stage.loses
      = if u.conn.tcp.pendingAppData = [] then [] else [.lost u.conn.tcp.pendingAppData] := fun _ => rfl
  simp only [lostBy, hloses]
  rcases h1 with h1 | h1 <;> rcases h2 with h2 | h2 <;> simp [h1, h2]

theorem Goes.refl (s : St) : Goes s [] s := ⟨.refl _, rfl, fun _ _ => .rfl⟩

theorem Goes.trans {ds es : List Deed} (h1 : Goes s ds t) (h2 : Goes t es s') : Goes s (ds ++ es) s' where
  path := h1.path.append h2.path
  id := h2.id.trans h1.id
  others d hd := (h2.others d (h1.id ▸ hd)).trans (h1.others d hd)

theorem Takes.halts (s : St) (e : Halt) : Takes s [] (.error e) :=
  ⟨⟨_, .refl _⟩, fun _ h => absurd h nofun⟩

theorem Goes.takes {ds : List Deed} (h : Goes s ds s') : Takes s ds (.ok s') :=
  ⟨⟨_, h.path⟩, fun _ h' => Except.ok.inj h' ▸ h⟩

theorem Goes.then {ds es : List Deed} {ret : Except Halt St} (h1 : Goes s ds t) (h2 : Takes t es ret) :
    Takes s (ds ++ es) ret := by
  obtain ⟨⟨v, hp⟩, hok⟩ := h2
  exact ⟨⟨v, h1.path.append hp⟩, fun s' h => h1.trans (hok s' h)⟩

theorem Lived.refl (hs : s.Settled) : Lived s s where
  toGoes := by rw [lostBy_same rfl]; exact .refl s
  kept := .inl rfl
  settled := hs

theorem Lived.trans (h1 : Lived s t) (h2 : Lived t s') : Lived s s' where
  toGoes := by
    rw [← lostBy_append h1.kept h2.kept]
    exact h1.toGoes.trans h2.toGoes
  kept := by
    rcases h2.kept with h | h
    · rw [h]; exact h1.kept
    · exact .inr h
  settled := h2.settled

theorem Conducts.refl (s : St) : Conducts s s := ⟨.refl s, fun _ _ _ hs => .refl hs⟩

theorem Conducts.trans (h1 : Conducts s t) (h2 : Conducts t s') : Conducts s s' := by
  refine ⟨h1.carries.trans h2.carries, fun others hp hv hs => ?_⟩
  obtain ⟨-, hp'⟩ := h1.carries.carries (fun _ _ => trivial) others hp
  have hl := h1.lived others hp hv hs
  exact hl.trans (h2.lived others hp' (Stage.path_sound hl.path hv) hl.settled)

/- A move without a deed that leaves `pending_app_data` and the table alone. -/
theorem Lived.silent (htable : s'.ctx.htTable = s.ctx.htTable)
    (hpend : s'.conn.tcp.pendingAppData = s.conn.tcp.pendingAppData)
    (hcompl : s'.conn.sess.completedCrypto = true → s.conn.sess.completedCrypto = true)
    (hid : s'.conn.id = s.conn.id) (hpath : Path Stage.Step s.stage [] s'.stage) (hs : s.Settled) :
    Lived s s' := by
  have hlisted : ∀ d, Listed s'.ctx d ↔ Listed s.ctx d := fun d => by
    unfold Listed
    rw [htable]
  refine ⟨⟨?_, hid, fun d _ => hlisted d⟩, .inl hpend, ?_⟩
  · rw [lostBy_same hpend]
    exact hpath
  · refine hs.imp (fun h => hid ▸ (hlisted _).mpr h) fun h => ?_
    cases hx : s'.conn.sess.completedCrypto with
    | false => rfl
    | true => exact absurd (h.symm.trans (hcompl hx)) nofun

def Session.staged (e : Session) : SessionState × HandshakeType × Bool × (UInt64 × UInt64) × Bytes × Bytes :=
  (e.state, e.handshakeState, decide (e.writeSp.bulkCipherAlgorithm = .noCipher), e.counters,
    slice e.tls13Ctx.serverHandshakeKey 0 32, e.tls13Ctx.serverHandshakeIv)

theorem Stays.listed (hs : Stays s s') : Listed s'.ctx s'.conn.id = Listed s.ctx s.conn.id := by
  unfold Listed
  rw [hs.table, hs.id]

theorem Stays.stage (hs : Stays s s') : s'.stage = { s.stage with
    state := s'.conn.sess.state
    handshakeState := s'.conn.sess.handshakeState
    clear := decide (s'.conn.sess.writeSp.bulkCipherAlgorithm = .noCipher)
    sendSeqNum := s'.conn.sess.sendSeqNum
    serverWriteIvSeqNum := s'.conn.sess.serverWriteIvSeqNum
    serverHandshakeKey := slice s'.conn.sess.tls13Ctx.serverHandshakeKey 0 32
    serverHandshakeIv := s'.conn.sess.tls13Ctx.serverHandshakeIv } := by
  have t1 : s'.conn.tcp.recvMigFin = s.conn.tcp.recvMigFin := (congrArg Tcp.recvMigFin hs.tcp :)
  have t2 : s'.conn.tcp.hwsInserted = s.conn.tcp.hwsInserted := (congrArg Tcp.hwsInserted hs.tcp :)
  have t3 : s'.conn.tcp.hwsApplied = s.conn.tcp.hwsApplied := (congrArg Tcp.hwsApplied hs.tcp :)
  have t4 : s'.conn.tcp.onload = s.conn.tcp.onload := (congrArg Tcp.onload hs.tcp :)
  have t5 : s'.conn.tcp.pendingAppData = s.conn.tcp.pendingAppData :=
    (congrArg Tcp.pendingAppData hs.tcp :)
  have t6 : s'.conn.tcp.addr = s.conn.tcp.addr := (congrArg Tcp.addr hs.tcp :)
  have t7 : s'.conn.tcp.hwsReadyToDel = s.conn.tcp.hwsReadyToDel :=
    (congrArg Tcp.hwsReadyToDel hs.tcp :)
  simp only [St.stage, stageOf, hs.listed, t1, t2, t3, t4, t5, t6, t7]

theorem Stays.stage_same (hs : Stays s s') (he : s'.conn.sess.staged = s.conn.sess.staged) :
    s'.stage = s.stage := by
  simp only [Session.staged, Session.counters, Prod.mk.injEq] at he
  obtain ⟨h1, h2, h3, ⟨h4, h5⟩, h6, h7⟩ := he
  rw [hs.stage]
  simp only [St.stage, stageOf, h1, h2, h3, h4, h5, h6, h7]

theorem FlushFrame.staged (hf : FlushFrame s s') : s'.conn.sess.staged = s.conn.sess.staged := by
  have h1 := hf.state
  have h2 := hf.handshakeState
  have h3 := hf.writeSp
  have h4 : s'.conn.sess.counters = s.conn.sess.counters := congrArg Prod.snd hf.written
  have h5 := hf.tls13Ctx
  simp only [Session.staged, h1, h2, h3, h4, h5]

theorem Conducts.same (hc : Carries (fun _ => True) (fun s => OpFacts s ∧ Placed s) s s')
    (hs : Stays s s') (he : s'.conn.sess.staged = s.conn.sess.staged)
    (hcompl : s'.conn.sess.completedCrypto = true → s.conn.sess.completedCrypto = true) :
    Conducts s s' := by
  refine ⟨hc, fun _ _ _ => .silent hs.table (congrArg Tcp.pendingAppData hs.tcp :) hcompl hs.id ?_⟩
  rw [hs.stage_same he]
  exact .refl _

theorem Removed.stage (hr : Removed s s') (hp : Placed (s.among others)) : s'.stage = .removed := by
  have hout : Listed s'.ctx s'.conn.id = False := by
    refine propext (iff_of_false ?_ not_false)
    rintro ⟨b, hb⟩
    exact ((hp.erased hr _ b).mp hb).1 hr.id
  simp only [St.stage, stageOf, hout, hr.tcp, hr.sess]
  rfl

theorem Removed.lost (hr : Removed s s') : lostBy s s' = s.stage.loses := by
  have hcleared : s'.conn.tcp.pendingAppData = [] := by rw [hr.tcp]; rfl
  simp only [lostBy, hcleared]
  split
  · rename_i he
    exact (if_pos he.symm).symm
  · rfl

theorem Removed.conducts (hr : Removed s s') : Conducts s s' := by
  refine ⟨readRule_placed.removed s s' hr, fun others hp _ _ => ?_⟩
  have hcleared : s'.conn.tcp.pendingAppData = [] := by rw [hr.tcp]; rfl
  refine ⟨⟨?_, hr.id, fun d hd => ?_⟩, .inr hcleared, .inr (by rw [hr.sess]; rfl)⟩
  · rw [hr.stage hp.2, hr.lost]
    exact .single (.remove s.stage)
  · constructor
    · rintro ⟨b, hb⟩
      exact ⟨b, ((hp.2.erased hr d b).mp hb).2⟩
    · rintro ⟨b, hb⟩
      exact ⟨b, (hp.2.erased hr d b).mpr ⟨hd, hb⟩⟩

theorem readRule_conducts : ReadRule Conducts where
  refl := .refl
  trans := .trans
  call rest r s := .same (readRule_placed.call rest r s) ⟨rfl, rfl, fun h => h, rfl⟩ rfl fun h => h
  complete r s := .same (readRule_placed.complete r s) ⟨rfl, rfl, fun h => h, rfl⟩ rfl fun h => h
  queues s cur q := .same (readRule_placed.queues s cur q) (mapSess_stays _ s) rfl fun h => h
  frame s s' hf := by
    refine .same (readRule_placed.frame s s' hf) hf.stays hf.staged fun hc => ?_
    have he := hf.completedCrypto
    exact he.symm.trans hc
  hello s s' r ch o hw hst hr hn hsub := by
    refine .same (readRule_placed.hello s s' r ch o hw hst hr hn hsub) hsub.stays ?_ fun hc => ?_
    · rw [hsub.sess]
      rfl
    · rw [hsub.sess] at hc
      exact hc
  spec s hst := by
    refine ⟨readRule_placed.spec s hst, fun _ _ _ => .silent rfl rfl (fun hc => hc) rfl ?_⟩
    exact .single (.cipherSpec s.stage hst)
  finish s hst := by
    refine ⟨readRule_placed.finish s hst, fun _ _ _ => .silent rfl rfl (fun hc => hc) rfl ?_⟩
    exact .single (.finish s.stage hst)
  removed s s' hr := hr.conducts

/-! ### Results, flow rules and stored packets -/

/- `write_sp` is not set yet, so that the ServerHello is sent in clear. -/
theorem answerClientHello_staged {ch : ClientHello} (h : answerClientHello env r ch s = .ok s')
    (hclear : s.conn.sess.writeSp.bulkCipherAlgorithm = .noCipher) :
    ∃ clear, s'.conn.sess.staged = (.handshake, .serverHello, clear,
      (0, s.conn.sess.serverWriteIvSeqNum), slice s.conn.sess.tls13Ctx.serverHandshakeKey 0 32,
      s.conn.sess.tls13Ctx.serverHandshakeIv) := by
  obtain ⟨off, s1, s2, -, hf, hreq, rfl⟩ := answerClientHello_cases h
  have hst : s1.conn.sess.state = .handshake := hf.state
  have hkeys : s1.conn.sess.tls13Ctx = s.conn.sess.tls13Ctx := hf.tls13Ctx
  have hiv : s1.conn.sess.serverWriteIvSeqNum = s.conn.sess.serverWriteIvSeqNum :=
    congrArg Prod.snd (hf.counters hclear)
  have hstaged : s2.conn.sess.staged
      = (sharedSecretRequest (slice r.pf off x25519KeyLen) s1).conn.sess.staged := by
    rcases hreq with ⟨o, hrej⟩ | ⟨o, hsub⟩
    · exact hrej.frame.staged
    · rw [hsub.sess]
      rfl
  simp only [Session.staged, Session.counters, Prod.mk.injEq] at hstaged ⊢
  obtain ⟨h1, h2, -, ⟨-, h5⟩, h6, h7⟩ := hstaged
  exact ⟨_, h1.trans hst, h2, rfl, ⟨rfl, h5.trans hiv⟩, h6.trans (by rw [← hkeys]; rfl),
    h7.trans (by rw [← hkeys]; rfl)⟩

theorem getProcessedCrypto_conducts (h : getProcessedCrypto env s = .ok s') : Conducts s s' := by
  refine ⟨(closed_placed env).crypto s s' h, fun others hp hv hs => ?_⟩
  have hout := getProcessedCrypto_outcome hp.1.core.hello h
  have hstays := hout.stays
  have hlisted : s.conn.sess.completedCrypto = true → s.stage.listed :=
    fun hc => hs.resolve_right fun hn => absurd (hc.symm.trans hn) nofun
  have hpend : s'.conn.tcp.pendingAppData = s.conn.tcp.pendingAppData :=
    (congrArg Tcp.pendingAppData hstays.tcp :)
  cases hout with
  | idle => exact .refl hs
  | @keyGen o r ch t u hc _ hst _ _ hf ha =>
    refine .silent hstays.table hpend (fun _ => hc) hstays.id ?_ hs
    have hcounted := hv.counted
    simp only [Stage.Counted, St.stage, stageOf, hst, decide_eq_true_eq] at hcounted
    have hw := hf.writeSp
    have hkeys := hf.tls13Ctx
    have hiv : t.conn.sess.serverWriteIvSeqNum = s.conn.sess.serverWriteIvSeqNum :=
      congrArg Prod.snd (hf.counters hcounted.1)
    obtain ⟨clear, hu⟩ := answerClientHello_staged ha (hw ▸ hcounted.1)
    rw [hiv, hkeys] at hu
    simp only [Session.staged, Session.counters, Prod.mk.injEq] at hu
    obtain ⟨h1, h2, h3, ⟨h4, h5⟩, h6, h7⟩ := hu
    have hstage : (finishCrypto o (deleteRecord r u)).stage = { s.stage with
        handshakeState := .serverHello, state := .handshake, clear := clear, sendSeqNum := 0 } := by
      rw [hstays.stage]
      simp only [finishCrypto, deleteOp, deleteRecord, St.mapSess_sess, St.mapCtx_conn, h1, h2, h3, h4,
        h5, h6, h7]
      rfl
    rw [hstage]
    exact .single (.serverHello s.stage (hlisted hc) hst clear)
  | sharedSecret hc _ hst =>
    refine .silent hstays.table hpend (fun _ => hc) hstays.id ?_ hs
    exact .single (.keys s.stage (hlisted hc) hst _ _)
  | signature hc =>
    refine .silent hstays.table hpend (fun _ => hc) hstays.id ?_ hs
    exact .refl _

theorem applyHws_conducts (env : Env) (s : St) : Conducts s (applyHws s) := by
  have hc := (closed_placed env).toMoveRule.applies s
  unfold applyHws at hc ⊢
  split at hc
  · rename_i hws
    rw [if_pos hws]
    refine ⟨hc, fun _ _ _ => .silent rfl rfl (fun hc => hc) rfl ?_⟩
    exact .single (.apply s.stage hws.1 hws.2.1)
  · rename_i hws
    rw [if_neg hws]
    exact .refl s

theorem processResults_conducts (h : processResults env s = .ok s') : Conducts s s' := by
  obtain ⟨t, ht, h⟩ := bind_ok h
  refine (getProcessedCrypto_conducts ht).trans ((applyHws_conducts env t).trans ?_)
  rcases removeHws_cases h with ⟨-, rfl⟩ | ⟨-, hr⟩
  · exact .refl _
  · exact hr.conducts

theorem processSessionRead_conducts (h : processSessionRead env s = .ok s') : Conducts s s' :=
  processSessionReadLoop_rule readRule_conducts.refl readRule_conducts.trans
    (fun _ _ _ _ _ hw _ hread => readRule_conducts.queued hw hread) h

theorem forwardAppData_goes (s : St) : Goes s (forwardDeeds s) (forwardAppData s) := by
  unfold forwardDeeds forwardAppData
  split
  · rename_i hf
    exact ⟨.single (.forward s.stage hf.1 hf.2), rfl, fun _ _ => .rfl⟩
  · exact .refl s

/-! ### The server flight -/

def IsMessage (env : Env) (f : St → Except Halt St) : Prop :=
  ∃ (type : ContentType) (msgType : HandshakeType) (body : St → Bytes), ∀ s, f s = do
    let (r, t) ← newSendRecord s
    sendRecord env r type msgType (body t) t

theorem sendCall_cases (s : St) : sendCall s = [] ∨ sendCall s = s.stage.calls := by
  unfold sendCall newSendRecord newRecord
  cases s.ctx.recordPool with
  | nil => exact .inl rfl
  | cons slot pool =>
    dsimp only
    split
    · exact .inl rfl
    · rename_i hc
      refine .inr (if_neg ?_).symm
      simpa [St.stage, stageOf] using (not_or.mp hc).1

theorem sendCall_clear (h : s.conn.sess.writeSp.bulkCipherAlgorithm = .noCipher) : sendCall s = [] := by
  have hclear : s.stage.calls = [] := if_pos (decide_eq_true h)
  rcases sendCall_cases s with hs | hs
  · exact hs
  · exact hs.trans hclear

theorem sealRecord_protects {type : ContentType} {frag data : Bytes}
    (h : sealRecord env r type frag s = .ok (data, s'))
    (hw : s.conn.sess.writeSp.bulkCipherAlgorithm ≠ .noCipher) :
    s.conn.sess.pendingSp.cipherType = .aead
      ∧ s'.conn.sess.counters = (s.conn.sess.sendSeqNum + 1, r.seqNum + 1) := by
  rcases sealRecord_cases h with ⟨hclear, -⟩ | ⟨-, haead, o, t, ho, rfl, -⟩
  · exact absurd hclear hw
  · obtain ⟨pool, -, rfl⟩ := newSslCryptoOp_cases ho
    exact ⟨haead, rfl⟩

theorem sendRecord_protects {type : ContentType} {msgType : HandshakeType} {body : Bytes}
    (h : sendRecord env r type msgType body s = .ok s')
    (hw : s.conn.sess.writeSp.bulkCipherAlgorithm ≠ .noCipher) :
    s.conn.sess.pendingSp.cipherType = .aead
      ∧ s'.conn.sess.counters = (s.conn.sess.sendSeqNum + 1, r.seqNum + 1) := by
  obtain ⟨s1, h1, h⟩ := bind_ok h
  obtain ⟨⟨data, s2⟩, h2, h⟩ := bind_ok h
  obtain ⟨buffer, -, h⟩ := bind_ok h
  cases h
  rcases storeHandshake_cases h1 with ⟨-, rfl⟩ | ⟨-, rfl⟩
  · have hseal := sealRecord_protects h2 hw
    exact hseal
  · have hseal := sealRecord_protects h2 hw
    exact hseal

theorem IsMessage.stage {f : St → Except Halt St} (hf : IsMessage env f) (h : f s = .ok s') :
    s'.stage = s.stage.sends ∧ sendCall s = s.stage.calls := by
  obtain ⟨type, msgType, body, hf⟩ := hf
  rw [hf] at h
  have hframe := sendMessage_frame h
  have h1 := hframe.state
  have h2 := hframe.handshakeState
  have h3 := hframe.writeSp
  have h4 := hframe.tls13Ctx
  rw [hframe.stays.stage, h1, h2, h3, h4]
  by_cases hw : s.conn.sess.writeSp.bulkCipherAlgorithm = .noCipher
  · have hclear : s.stage.clear = true := decide_eq_true hw
    have hcounters := hframe.counters hw
    simp only [Session.counters, Prod.mk.injEq] at hcounters
    refine ⟨?_, (sendCall_clear hw).trans (if_pos hclear).symm⟩
    unfold Stage.sends
    rw [if_pos hclear, hcounters.1, hcounters.2]
    rfl
  · have hclear : ¬ s.stage.clear = true := fun h => hw (of_decide_eq_true h)
    obtain ⟨⟨r, t⟩, hr, h⟩ := bind_ok h
    unfold newSendRecord newRecord at hr
    split at hr
    · cases hr
    · rename_i slot pool hpool
      cases hr
      obtain ⟨haead, hcounters⟩ := sendRecord_protects h hw
      simp only [Session.counters, Prod.mk.injEq] at hcounters
      constructor
      · unfold Stage.sends
        rw [if_neg hclear, hcounters.1, hcounters.2]
        rfl
      · unfold sendCall newSendRecord newRecord Stage.calls
        rw [hpool, if_neg hclear]
        exact if_neg fun h => h.elim hw fun h => h haead

/- A message that is sent takes its step; one that ends the process may have taken it. -/
theorem IsMessage.path {f : St → Except Halt St} {v : Stage} (hf : IsMessage env f)
    (hstep : s.stage.Step s.stage.calls v) :
    ∃ v', Path Stage.Step s.stage (sendCall s) v'
      ∧ ∀ t, f s = .ok t → v' = v ∧ t.stage = s.stage.sends := by
  cases hs : f s with
  | error e =>
    rcases sendCall_cases s with hc | hc <;> rw [hc]
    · exact ⟨_, .refl _, fun _ h => absurd h nofun⟩
    · exact ⟨_, .single hstep, fun _ h => absurd h nofun⟩
  | ok t =>
    obtain ⟨hstage, hcall⟩ := hf.stage hs
    rw [hcall]
    refine ⟨v, .single hstep, fun u hu => ?_⟩
    cases hu
    exact ⟨rfl, hstage⟩

/- Two messages with a change of `handshake_state` between them. -/
theorem messages_path {f g : St → Except Halt St} {k : HandshakeType} {v : Stage}
    (hf : IsMessage env f) (hg : IsMessage env g)
    (h1 : s.stage.Step s.stage.calls { s.stage.sends with handshakeState := k })
    (h2 : Stage.Step { s.stage.sends with handshakeState := k }
      ({ s.stage.sends with handshakeState := k } : Stage).calls v) :
    ∃ v', Path Stage.Step s.stage (sendCall s ++ nextCall k (f s)) v'
      ∧ ∀ t t', f s = .ok t → g (setHandshakeState k t) = .ok t' →
        v' = v ∧ t'.stage = ({ s.stage.sends with handshakeState := k } : Stage).sends := by
  obtain ⟨v1, hp1, hv1⟩ := hf.path h1
  cases hs : f s with
  | error e =>
    refine ⟨v1, ?_, fun _ _ h => absurd h nofun⟩
    rw [nextCall, List.append_nil]
    exact hp1
  | ok t =>
    obtain ⟨rfl, hstage⟩ := hv1 t hs
    have hnext : (setHandshakeState k t).stage = { s.stage.sends with handshakeState := k } := by
      rw [← hstage]
      rfl
    rw [← hnext] at h2 hp1 ⊢
    obtain ⟨v2, hp2, hv2⟩ := hg.path h2
    refine ⟨v2, hp1.append hp2, fun u t' hu ht' => ?_⟩
    cases hu
    exact hv2 t' ht'

theorem signatureCertificate_stage {ret : Int} (h : signatureCertificate env s = .ok (ret, s')) :
    s'.stage = s.stage := by
  rcases requestPka_cases h with ⟨-, o, hrej⟩ | ⟨-, o, hsub⟩
  · exact hrej.frame.stays.stage_same hrej.frame.staged
  · refine hsub.stays.stage_same ?_
    rw [hsub.sess]
    rfl

theorem sendCertificateFlight_path (hv : s.stage.Sound)
    (hst : s.conn.sess.handshakeState = .serverHello) :
    ∃ v', Path Stage.Step s.stage
        (sendCall s ++ nextCall .encryptedExtensions (sendEncryptedExtensions env s)) v'
      ∧ ∀ s', sendCertificateFlight env s = .ok s' → v' = s'.stage := by
  have hl : s.stage.listed := hv.built hst (by decide)
  have h1 := Stage.Step.encryptedExtensions s.stage hl hst
  have hl1 : ({ s.stage.sends with handshakeState := .encryptedExtensions } : Stage).listed :=
    (h1.sound hv).built (k := .encryptedExtensions) rfl (by decide)
  have hee : IsMessage env (sendEncryptedExtensions env) := ⟨_, _, fun _ => put16 0, fun _ => rfl⟩
  have hcert : IsMessage env (sendCertificate env) := ⟨_, _, fun _ => certificateBody env, fun _ => rfl⟩
  obtain ⟨v', hp, hok⟩ := messages_path hee hcert h1 (.certificate _ hl1 rfl)
  refine ⟨v', hp, fun s' h => ?_⟩
  obtain ⟨t, ht, h⟩ := bind_ok h
  obtain ⟨u, hu, h⟩ := bind_ok h
  obtain ⟨⟨ret, w⟩, hw, h⟩ := bind_ok h
  cases h
  obtain ⟨rfl, hstage⟩ := hok t u ht hu
  rw [signatureCertificate_stage hw, ← hstage]
  rfl

theorem appKeys_stage (env : Env) (s : St) :
    (handleVerifyDataCalculation env (handleAppKeysCalculation env s)).stage = s.stage := by
  refine Stays.stage_same ⟨rfl, rfl, fun h => h, rfl⟩ ?_
  unfold handleVerifyDataCalculation handleAppKeysCalculation
  dsimp only [St.mapCtx_conn, St.mapSess_sess]
  split <;> rfl

theorem sendFinishedFlight_path (hv : s.stage.Sound)
    (hst : s.conn.sess.handshakeState = .certificate) :
    ∃ v', Path Stage.Step s.stage
        (sendCall s ++ nextCall .certificateVerify (sendCertificateVerify env s)) v'
      ∧ ∀ s', sendFinishedFlight env s = .ok s' → v' = s'.stage := by
  have hl : s.stage.listed := hv.built hst (by decide)
  have h1 := Stage.Step.certificateVerify s.stage hl hst
  have hl1 : ({ s.stage.sends with handshakeState := .certificateVerify } : Stage).listed :=
    (h1.sound hv).built (k := .certificateVerify) rfl (by decide)
  have hcounted := hv.counted
  have hcert : s.stage.handshakeState = .certificate := hst
  simp only [Stage.Counted, hcert] at hcounted
  have hn : s.stage.sends.sendSeqNum = if s.stage.sends.clear then 0 else 3 := by
    rw [s.stage.sends_counters.1, hcounted.2, s.stage.sends_eq]
    dsimp only
    split <;> rfl
  have hverify : IsMessage env (sendCertificateVerify env) :=
    ⟨_, _, fun t => certificateVerifyBody t.conn.sess, fun _ => rfl⟩
  have hfin : IsMessage env (sendServerFinished env) :=
    ⟨_, _, fun t => finishedMac env.crypto t.conn.sess.tls13Ctx.serverSecret t.conn.sess.handshakeMsgs,
      fun _ => rfl⟩
  obtain ⟨v', hp, hok⟩ := messages_path hverify hfin h1 (.finished _ hl1 rfl hn)
  refine ⟨v', hp, fun s' h => ?_⟩
  obtain ⟨t, ht, h⟩ := bind_ok h
  obtain ⟨u, hu, h⟩ := bind_ok h
  cases h
  obtain ⟨rfl, hstage⟩ := hok t u ht hu
  have hmeta := sendKeyMeta_frame env (u.conn.tcp.portid + 1)
    (handleVerifyDataCalculation env (handleAppKeysCalculation env u))
  rw [← hstage, ← appKeys_stage env u]
  exact (hmeta.stays.stage_same hmeta.staged).symm

theorem Stays.goes {ds : List Deed} (hs : Stays s s') (hp : Path Stage.Step s.stage ds s'.stage) :
    Goes s ds s' := by
  refine ⟨hp, hs.id, fun d _ => ?_⟩
  unfold Listed
  rw [hs.table]

theorem sendRemainServerRecords_takes (env : Env) (hv : s.stage.Sound) :
    Takes s (remainDeeds env s) (sendRemainServerRecords env s) := by
  have hpath : ∃ v, Path Stage.Step s.stage (remainDeeds env s) v
      ∧ ∀ s', sendRemainServerRecords env s = .ok s' → v = s'.stage := by
    unfold remainDeeds sendRemainServerRecords
    dsimp only
    split
    · rename_i hs
      exact sendCertificateFlight_path hv hs.1
    · split
      · rename_i hs
        exact sendFinishedFlight_path hv hs.1
      · split
        · rename_i hs
          have hl : s.stage.listed := hv.built (k := .certificateVerify) hs.1 (by decide)
          refine ⟨_, .single (.flight s.stage hl hs.1 hs.2 _), fun s' h => ?_⟩
          obtain ⟨t, ht, h⟩ := bind_ok h
          cases h
          have hf := sendPendingRecords_frame ht
          rw [← hf.stays.stage_same hf.staged]
          rfl
        · refine ⟨_, .refl _, fun s' h => ?_⟩
          cases h
          rfl
  obtain ⟨v, hp, hok⟩ := hpath
  refine ⟨⟨v, hp⟩, fun s' h => (sendRemainServerRecords_outcome h).stays.goes ?_⟩
  rw [← hok s' h]
  exact hp

/-! ### One connection in a step -/

/- The ServerHello is never encrypted. -/
theorem helloCall_nil (hv : s.stage.Sound) : helloCall s = [] := by
  unfold helloCall
  split
  · rename_i hs
    have hcounted := hv.counted
    simp only [Stage.Counted, St.stage, stageOf, hs.2, decide_eq_true_eq] at hcounted
    split
    · split
      · exact sendCall_clear hcounted.1
      · rfl
    · rfl
  · rfl

theorem serveConnection_eq (env : Env) (s : St) : serveConnection env s =
    (processSessionRead env s).bind fun s1 => (processResults env s1).bind fun s2 =>
      sendRemainServerRecords env (forwardAppData s2) := by
  unfold serveConnection processResults
  cases processSessionRead env s with
  | error => rfl
  | ok s1 => cases h : getProcessedCrypto env s1 <;> simp only [bind, Except.bind, h]

theorem serveConnection_takes (env : Env) (hp : OpFacts (s.among others) ∧ Placed (s.among others))
    (hv : s.stage.Sound) (hl : Listed s.ctx s.conn.id) :
    Takes s (serveDeeds env s) (serveConnection env s) := by
  rw [serveConnection_eq]
  unfold serveDeeds
  cases h1 : processSessionRead env s with
  | error e => exact .halts s e
  | ok s1 =>
    have hread := processSessionRead_conducts h1
    have hlived := hread.lived others hp hv (.inl hl)
    have hv1 : s1.stage.Sound := Stage.path_sound hlived.path hv
    simp only [helloCall_nil hv1, List.nil_append, Except.bind]
    cases h2 : processResults env s1 with
    | error e => exact .halts s e
    | ok s2 =>
      have hresults := (hread.trans (processResults_conducts h2)).lived others hp hv (.inl hl)
      have hfwd := hresults.toGoes.trans (forwardAppData_goes s2)
      exact hfwd.then (sendRemainServerRecords_takes env (Stage.path_sound hfwd.path hv))

theorem keepAppData_takes {p : Packet} (hl : Listed s.ctx s.conn.id) (ho : s.conn.tcp.onload = true) :
    Takes s (storeDeeds p s) (keepAppData p s) := by
  have hstore := Path.single (Stage.Step.store s.stage hl ho p.stored)
  refine ⟨⟨_, hstore⟩, fun s' h => ?_⟩
  obtain ⟨data, hdata, h⟩ := bind_ok h
  unfold bounded at hdata
  split at hdata
  · cases hdata
  · cases hdata
    cases h
    exact ⟨hstore, rfl, fun _ _ => .rfl⟩

theorem processHandshakePacket_conducts {p : Packet} (ho : ¬ s.conn.tcp.onload = true)
    (h : processHandshakePacket env p s = .ok s') : Conducts s s' := by
  have hload : s.conn.tcp.onload = false := by simpa using ho
  have hack : ∀ s, Conducts s (sendTcpPacket TCP_FLAG_ACK [] s) :=
    fun s => readRule_conducts.frame _ _ (sendTcpEmpty_frame _ s)
  unfold processHandshakePacket at h
  rw [if_neg ho] at h
  split at h
  · refine processNormalSeqCase_rule readRule_conducts.refl readRule_conducts.trans ?_
      (fun _ _ _ _ _ _ hr => readRule_conducts.round hr) hack h
    refine ⟨(closed_placed env).tcp _ _ (.segment p hload), fun _ _ _ hs => ?_⟩
    exact .silent rfl rfl (fun hc => hc) rfl (.refl _) hs
  · cases h; exact .refl _
  · cases h; exact hack s
  · cases h; exact .refl _

theorem processHandshakePacket_takes (env : Env) (p : Packet)
    (hp : OpFacts (s.among others) ∧ Placed (s.among others)) (hv : s.stage.Sound)
    (hl : Listed s.ctx s.conn.id) :
    Takes s (if s.conn.tcp.onload then storeDeeds p s
      else match processHandshakePacket env p s with
        | .ok s' => lostBy s s'
        | .error _ => []) (processHandshakePacket env p s) := by
  split
  · rename_i ho
    unfold processHandshakePacket
    rw [if_pos ho]
    exact keepAppData_takes hl ho
  · rename_i ho
    cases h : processHandshakePacket env p s with
    | error e => exact .halts s e
    | ok s' => exact ((processHandshakePacket_conducts ho h).lived others hp hv (.inl hl)).toGoes.takes

theorem processAckPacket_takes (p : Packet) (hl : Listed s.ctx s.conn.id) :
    Takes s (if p.ack = s.conn.tcp.cookie + 1 ∧ p.payload = [] then []
      else if s.conn.tcp.onload then storeDeeds p s else []) (processAckPacket p s) := by
  unfold processAckPacket
  split
  · exact (Goes.refl s).takes
  · split
    · rename_i ho
      exact keepAppData_takes hl ho
    · exact (Goes.refl s).takes

theorem processHostMigFin_goes (p : Packet) (hl : Listed s.ctx s.conn.id) :
    Goes s [.migFin p s.conn.sess.metaHdr] (processHostMigFin p s) := by
  unfold processHostMigFin
  dsimp only
  split
  · rename_i hm
    exact ⟨.single (.migFin s.stage hl p _ (by simpa [matchesMeta] using hm)), rfl, fun _ _ => .rfl⟩
  · exact ⟨.single (.refuse s.stage p _), rfl, fun _ _ => .rfl⟩

theorem processHostClose_goes (p : Packet) (s : St) :
    Goes s (if matchesMeta p s.conn.sess then [.hostEnds] else []) (processHostClose p s) := by
  unfold processHostClose
  split
  · exact ⟨.single (.hostEnds s.stage), rfl, fun _ _ => .rfl⟩
  · exact .refl s

/- FIN and RST of a connection that is not onloaded have no effect. -/
theorem clientEnds_path (s : St) :
    Path Stage.Step s.stage (if s.conn.tcp.onload then [] else [.clientEnds]) s.stage := by
  split
  · exact .refl _
  · rename_i ho
    have hload : s.conn.tcp.onload = false := by simpa using ho
    exact .single (.clientEnds s.stage hload)

theorem Removed.goes (hr : Removed s s') (hp : OpFacts (s.among others) ∧ Placed (s.among others))
    (hv : s.stage.Sound) (hl : Listed s.ctx s.conn.id) : Goes s s.stage.loses s' := by
  have hlived := hr.conducts.lived others hp hv (.inl hl)
  rw [← hr.lost]
  exact hlived.toGoes

/-! ### Which deeds there are -/

inductive ServeDeed : Deed → Prop
  | lost (frame : Bytes) : ServeDeed (.lost frame)
  | forwarded (v : Stage) : ServeDeed (.forwarded v)
  | encrypts (call : EncryptCall) : ServeDeed (.encrypts call)
  | flight (v : Stage) (buffer : Bytes) : ServeDeed (.flight v buffer)

inductive PacketDeed (p : Packet) (s : St) (k : Option PacketType) : Deed → Prop
  | lost (frame : Bytes) : PacketDeed p s k (.lost frame)
  | stored (frame : Bytes) : PacketDeed p s k (.stored frame)
  | migFin (type : k = some .hostMigFin) : PacketDeed p s k (.migFin p s.conn.sess.metaHdr)
  | hostEnds : PacketDeed p s k .hostEnds
  | clientEnds (type : k = some .tcpFin ∨ k = some .tcpRst) (here : ¬ s.conn.tcp.onload = true) :
      PacketDeed p s k .clientEnds

def Deed.Sends : Deed → Prop
  | .encrypts _ => True
  | .flight _ _ => True
  | _ => False

variable {d : Deed}

theorem mem_sendCall (hd : d ∈ sendCall s) : ∃ call, d = .encrypts call := by
  rcases sendCall_cases s with hs | hs <;> rw [hs] at hd
  · exact absurd hd List.not_mem_nil
  · exact ⟨_, Stage.mem_calls hd⟩

theorem mem_calls {k : HandshakeType} {ret : Except Halt St} (hd : d ∈ sendCall s ++ nextCall k ret) :
    ∃ call, d = .encrypts call := by
  rcases List.mem_append.mp hd with hd | hd
  · exact mem_sendCall hd
  · cases ret with
    | error e => exact absurd hd List.not_mem_nil
    | ok t => exact mem_sendCall hd

theorem mem_helloCall (hd : d ∈ helloCall s) : d.Sends := by
  unfold helloCall at hd
  split at hd
  · split at hd
    · split at hd
      · obtain ⟨call, rfl⟩ := mem_sendCall hd
        trivial
      · exact absurd hd List.not_mem_nil
    · exact absurd hd List.not_mem_nil
  · exact absurd hd List.not_mem_nil

theorem mem_remainDeeds (hd : d ∈ remainDeeds env s) : d.Sends := by
  unfold remainDeeds at hd
  dsimp only at hd
  split at hd
  · obtain ⟨call, rfl⟩ := mem_calls hd
    trivial
  · split at hd
    · obtain ⟨call, rfl⟩ := mem_calls hd
      trivial
    · split at hd
      · rw [List.mem_singleton.mp hd]
        trivial
      · exact absurd hd List.not_mem_nil

theorem mem_lostBy (hd : d ∈ lostBy s s') : ∃ frame, d = .lost frame := by
  unfold lostBy at hd
  split at hd
  · exact absurd hd List.not_mem_nil
  · exact ⟨_, Stage.mem_loses hd⟩

theorem mem_forwardDeeds (hd : d ∈ forwardDeeds s) : ∃ v, d = .forwarded v := by
  unfold forwardDeeds at hd
  split at hd
  · exact ⟨_, List.mem_singleton.mp hd⟩
  · exact absurd hd List.not_mem_nil

theorem Deed.Sends.serve (h : d.Sends) : ServeDeed d := by
  cases d with
  | encrypts call => exact .encrypts call
  | flight v b => exact .flight v b
  | _ => exact absurd h id

theorem mem_serveDeeds (hd : d ∈ serveDeeds env s) : ServeDeed d := by
  unfold serveDeeds at hd
  split at hd
  · exact absurd hd List.not_mem_nil
  · rcases List.mem_append.mp hd with hd | hd
    · exact (mem_helloCall hd).serve
    · split at hd
      · exact absurd hd List.not_mem_nil
      · simp only [List.mem_append] at hd
        rcases hd with (hd | hd) | hd
        · obtain ⟨frame, rfl⟩ := mem_lostBy hd
          exact .lost frame
        · obtain ⟨v, rfl⟩ := mem_forwardDeeds hd
          exact .forwarded v
        · exact (mem_remainDeeds hd).serve

theorem mem_storeDeeds {p : Packet} {k : Option PacketType} (hd : d ∈ storeDeeds p s) : PacketDeed p s k d := by
  rcases List.mem_append.mp hd with hd | hd
  · rw [Stage.mem_loses hd]
    exact .lost _
  · rw [List.mem_singleton.mp hd]
    exact .stored _

theorem mem_typeDeeds {p : Packet} {k : Option PacketType} (hd : d ∈ typeDeeds env p s k) : PacketDeed p s k d := by
  unfold typeDeeds at hd
  split at hd
  · split at hd
    · exact mem_storeDeeds hd
    · split at hd
      · obtain ⟨frame, rfl⟩ := mem_lostBy hd
        exact .lost frame
      · exact absurd hd List.not_mem_nil
  · split at hd
    · exact absurd hd List.not_mem_nil
    · split at hd
      · exact mem_storeDeeds hd
      · exact absurd hd List.not_mem_nil
  · rw [List.mem_singleton.mp hd]
    exact .migFin rfl
  · split at hd
    · exact absurd hd List.not_mem_nil
    · rw [Stage.mem_loses hd]
      exact .lost _
  · split at hd
    · rw [List.mem_singleton.mp hd]
      exact .hostEnds
    · exact absurd hd List.not_mem_nil
  · split at hd <;> rename_i ho
    · exact absurd hd List.not_mem_nil
    · rw [List.mem_singleton.mp hd]
      exact .clientEnds (.inl rfl) ho
  · split at hd <;> rename_i ho
    · exact absurd hd List.not_mem_nil
    · rw [List.mem_singleton.mp hd]
      exact .clientEnds (.inr rfl) ho
  · exact absurd hd List.not_mem_nil

end

end Xtls.Nic
