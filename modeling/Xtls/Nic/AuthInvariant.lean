import Xtls.Lib.History
import Xtls.Nic.Steps

/-!
# When a session is authenticated

`Authenticated` says what an observer may expect of a session in `STATE_ACTIVE`: the Finished that made it
active was decrypted under the client handshake key and carried the verify data that had been computed from
this connection's transcript.  The code guarantees it for runs in which no record arrives before its turn
(`InTurn`).
-/

namespace Xtls.Nic

/-- The events of connection `c` since it was last inserted. -/
def lifetime (c : ConnId) : List Event → List Event
  | [] => []
  | .insert i :: es => if i = c then [] else .insert i :: lifetime c es
  | e :: es => e :: lifetime c es

/-- Reading `r` took the session of `conn` from a state other than `STATE_ACTIVE` to `STATE_ACTIVE`
with `onload` set. -/
def Activates (env : Env) (conn : Conn) (r : Record) (rest : Nat) : Prop :=
  conn.sess.state ≠ .active ∧ ∃ ctx ret s', processReadRecord env rest r ⟨conn, ctx⟩ = .ok (ret, s')
    ∧ s'.conn.sess.state = .active ∧ s'.conn.tcp.onload = true

/-- The record that activated connection `c` was opened with the client handshake key, its 48
bytes of verify data are the expected ones, and these had been computed from the transcript of
the connection before. -/
def Authenticated (env : Env) (c : ConnId) (trace : List Event) : Prop :=
  ∃ newer conn r rest room older, lifetime c trace = newer ++ .read conn r rest room :: older
    ∧ conn.id = c
    ∧ Activates env conn r rest
    ∧ conn.sess.readSp.bulkCipherAlgorithm ≠ .noCipher
    ∧ (∃ plain, aeadOpen env conn.sess (unpackHeader r) = some plain
        ∧ slice plain handshakeHeaderSize 48 = conn.sess.tls13Ctx.calculatedVd)
    ∧ .verifyData c conn.sess.handshakeMsgs conn.sess.tls13Ctx.calculatedVd ∈ older

def SelectsAes (r : Record) (ch : ClientHello) : Prop :=
  selectCipher (codeList r.pf ch.cipherSuites ch.cipherSuiteLength) = TLS_AES_256_GCM_SHA384

instance (r : Record) (ch : ClientHello) : Decidable (SelectsAes r ch) :=
  inferInstanceAs (Decidable (_ = _))

/- The ClientHello in `r`, if there is a complete one, selects the TLS 1.3 suite. -/
def helloSelectsAes (env : Env) (e : Session) (r : Record) : Bool :=
  match opened env e r with
  | none => true
  | some r1 =>
    match unpackClientHello r1.pf r1.plainText.length.toNat with
    | .ok (some ch) => decide (SelectsAes r1 ch)
    | _ => true

/-- A record is read in its turn: a ClientHello selects the TLS 1.3 suite, a ChangeCipherSpec comes
after the server's flight is complete, application data after the ChangeCipherSpec. -/
def InTurn (env : Env) : Event → Prop
  | .read conn r _ _ =>
    (byteAt r.data 0 = ContentType.handshake.code → helloSelectsAes env conn.sess r)
    ∧ (byteAt r.data 0 = ContentType.changeCipherSpec.code →
      .certificateVerify ≤ conn.sess.handshakeState)
    ∧ (byteAt r.data 0 = ContentType.applicationData.code →
      .clientCipherSpec ≤ conn.sess.handshakeState)
  | _ => True

instance (env : Env) (e : Event) : Decidable (InTurn env e) :=
  match e with
  | .read _ _ _ _ => inferInstanceAs (Decidable (_ ∧ _ ∧ _))
  | .insert _ | .remove _ _ | .clear _ | .complete _ _ | .verifyData _ _ _ =>
    inferInstanceAs (Decidable True)

/-! ### Invariant of one connection -/

structure AuthInv (env : Env) (c : Conn) (ctx : Ctx) : Prop where
  idle : c.tcp.state = .idle → c.sess.handshakeState = .helloRequest ∧ c.sess.state ≠ .active
  placed : ∀ b, c.id ∈ ctx.htTable b → c.tcp.state ≠ .idle ∧ b = calculateHash c.tcp
  hello : c.sess.handshakeState ≠ .helloRequest → c.sess.pendingSp.bulkCipherAlgorithm = .aes
  verified : .certificateVerify ≤ c.sess.handshakeState →
    .verifyData c.id c.sess.handshakeMsgs c.sess.tls13Ctx.calculatedVd ∈ lifetime c.id ctx.trace
  ciphered : c.sess.handshakeState = .clientCipherSpec →
    c.sess.readSp.bulkCipherAlgorithm ≠ .noCipher
  active : c.sess.state = .active → Authenticated env c.id ctx.trace
  records : ∀ r, c.sess.currentReadRecord = some r ∨ r ∈ c.sess.recvQ → r.inPlace = false

/-- `c'` agrees with `c` in all that the invariant reads. -/
structure SameView (c c' : Conn) : Prop where
  id : c'.id = c.id
  state : c'.sess.state = c.sess.state
  handshakeState : c'.sess.handshakeState = c.sess.handshakeState
  pendingSp : c'.sess.pendingSp = c.sess.pendingSp
  readSp : c'.sess.readSp = c.sess.readSp
  calculatedVd : c'.sess.tls13Ctx.calculatedVd = c.sess.tls13Ctx.calculatedVd
  msgs : c'.sess.handshakeMsgs = c.sess.handshakeMsgs
  hash : calculateHash c'.tcp = calculateHash c.tcp
  idle : c'.tcp.state = .idle → c.tcp.state = .idle
  records : ∀ r, c'.sess.currentReadRecord = some r ∨ r ∈ c'.sess.recvQ →
    c.sess.currentReadRecord = some r ∨ r ∈ c.sess.recvQ

section

variable {env : Env} {c c' : Conn} {ctx ctx' : Ctx} {s s' : St} {i : ConnId}

theorem SameView.refl (c : Conn) : SameView c c :=
  ⟨rfl, rfl, rfl, rfl, rfl, rfl, rfl, rfl, fun h => h, fun _ h => h⟩

theorem FlushFrame.sameView (h : FlushFrame s s') : SameView s.conn s'.conn where
  id := h.id
  state := h.state
  handshakeState := h.handshakeState
  pendingSp := h.pendingSp
  readSp := h.readSp
  calculatedVd := (congrArg (fun e => e.tls13Ctx.calculatedVd) h.sess :)
  msgs := h.msgs
  hash := (congrArg calculateHash h.tcp :)
  idle hi := by
    rcases h.tcpState with hs | hs
    · exact hs ▸ hi
    · rw [hs] at hi; cases hi
  records r hr := by
    have hc := h.currentReadRecord
    have hq := h.recvQ
    rwa [hc, hq] at hr

theorem Authenticated.mono {tr tr' l : List Event} (h : Authenticated env i tr)
    (hl : lifetime i tr' = l ++ lifetime i tr) : Authenticated env i tr' := by
  obtain ⟨newer, conn, r, rest, room, older, heq, h⟩ := h
  refine ⟨l ++ newer, conn, r, rest, room, older, ?_, h⟩
  rw [hl, heq, List.append_assoc]

theorem AuthInv.mono {l : List Event} (h : AuthInv env c ctx) (hv : SameView c c')
    (htable : ∀ b, c.id ∈ ctx'.htTable b → c.id ∈ ctx.htTable b)
    (hlife : lifetime c.id ctx'.trace = l ++ lifetime c.id ctx.trace) : AuthInv env c' ctx' where
  idle hi := by
    rw [hv.handshakeState, hv.state]
    exact h.idle (hv.idle hi)
  placed b hb := by
    rw [hv.id] at hb
    obtain ⟨hni, hb⟩ := h.placed b (htable b hb)
    exact ⟨fun hi => hni (hv.idle hi), hb.trans hv.hash.symm⟩
  hello hh := by
    rw [hv.pendingSp]
    exact h.hello (hv.handshakeState ▸ hh)
  verified hh := by
    rw [hv.id, hv.msgs, hv.calculatedVd, hlife]
    exact List.mem_append_right _ (h.verified (hv.handshakeState ▸ hh))
  ciphered hh := by
    rw [hv.readSp]
    exact h.ciphered (hv.handshakeState ▸ hh)
  active ha := by
    rw [hv.id]
    exact (h.active (hv.state ▸ ha)).mono hlife
  records r hr := h.records r (hv.records r hr)

theorem AuthInv.record {e : Event} (h : AuthInv env c ctx) (he : ∀ i, e ≠ .insert i)
    (htable : ctx'.htTable = ctx.htTable) (htrace : ctx'.trace = e :: ctx.trace) :
    AuthInv env c ctx' := by
  refine h.mono (l := [e]) (.refl c) (fun b hb => htable ▸ hb) ?_
  rw [htrace]
  cases e with
  | insert i => exact absurd rfl (he i)
  | clear | complete | remove | read | verifyData => rfl

/-! ### Invariant of the core while one connection is worked on -/

structure CtxInv (ctx : Ctx) : Prop where
  nodup : ∀ b, (ctx.htTable b).Nodup
  hello : ∀ o r, (ctx.ops o).data = some r → ∃ ch, r.IsHello ch ∧ SelectsAes r ch

/-- `others` are the connections that are not being worked on.  A connection that was removed on the
way is left without a PKA result, so that it stays as it is. -/
structure StInv (env : Env) (i : ConnId) (others : Set Conn) (s : St) : Prop where
  id : s.conn.id = i
  conn : AuthInv env s.conn s.ctx
  live : s.conn.tcp.state ≠ .idle
    ∨ (s.conn.sess.completedCrypto = false ∧ s.conn.sess.handshakeState = .helloRequest)
  others : ∀ c ∈ others, AuthInv env c s.ctx
  core : CtxInv s.ctx

variable {others : Set Conn} {r r1 : Record} {o : OpId} {rest : Nat}

theorem StInv.same (h : StInv env i others s) (hv : SameView s.conn s'.conn)
    (hc : s'.conn.sess.completedCrypto = s.conn.sess.completedCrypto)
    (htable : s'.ctx.htTable = s.ctx.htTable) (htrace : s'.ctx.trace = s.ctx.trace)
    (hops : ∀ o r, (s'.ctx.ops o).data = some r → (s.ctx.ops o).data = some r) :
    StInv env i others s' where
  id := hv.id.trans h.id
  conn := h.conn.mono (l := []) hv (fun b hb => htable ▸ hb) (by rw [htrace]; rfl)
  live := by
    rw [hc, hv.handshakeState]
    exact h.live.imp_left fun hl hi => hl (hv.idle hi)
  others c hm := (h.others c hm).mono (l := []) (.refl c) (fun b hb => htable ▸ hb)
    (by rw [htrace]; rfl)
  core := ⟨fun b => htable ▸ h.core.nodup b, fun o r hr => h.core.hello o r (hops o r hr)⟩

theorem StInv.flush (h : StInv env i others s) (hf : FlushFrame s s') : StInv env i others s' :=
  h.same hf.sameView hf.completedCrypto hf.htTable
    hf.trace hf.ops.data

theorem StInv.frame (h : StInv env i others s) (hf : Frame s s') : StInv env i others s' :=
  h.flush hf.toFlushFrame

theorem StInv.record {e : Event} (h : StInv env i others s) (he : ∀ i, e ≠ .insert i)
    (hconn : s'.conn = s.conn) (htable : s'.ctx.htTable = s.ctx.htTable)
    (htrace : s'.ctx.trace = e :: s.ctx.trace) (hops : s'.ctx.ops = s.ctx.ops) :
    StInv env i others s' where
  id := hconn ▸ h.id
  conn := hconn ▸ h.conn.record he htable htrace
  live := hconn ▸ h.live
  others c hm := (h.others c hm).record he htable htrace
  core := ⟨fun b => htable ▸ h.core.nodup b, fun o r hr => h.core.hello o r (hops ▸ hr)⟩

theorem mem_htRemove {t : Tcp} {b : Nat} {j : ConnId}
    (h : j ∈ (htRemove t i ctx).htTable b) : j ∈ ctx.htTable b := by
  simp only [htRemove] at h
  split at h
  · exact List.mem_of_mem_erase h
  · exact h

structure Removable (env : Env) (i : ConnId) (others : Set Conn) (s : St) : Prop where
  id : s.conn.id = i
  placed : ∀ b, s.conn.id ∈ s.ctx.htTable b → b = calculateHash s.conn.tcp
  others : ∀ c ∈ others, AuthInv env c s.ctx
  core : CtxInv s.ctx

theorem StInv.removable (h : StInv env i others s) : Removable env i others s :=
  ⟨h.id, fun b hb => (h.conn.placed b hb).2, h.others, h.core⟩

theorem Removable.frame (h : Removable env i others s) (hf : Frame s s') :
    Removable env i others s' := by
  have htable : s'.ctx.htTable = s.ctx.htTable := hf.htTable
  have htrace : s'.ctx.trace = s.ctx.trace := hf.trace
  refine ⟨hf.id.trans h.id, fun b hb => ?_, fun c hc => ?_, ?_, fun o r hr => ?_⟩
  · rw [hf.sameView.hash]
    rw [hf.id, htable] at hb
    exact h.placed b hb
  · exact (h.others c hc).mono (l := []) (.refl c) (fun b hb => htable ▸ hb) (by rw [htrace]; rfl)
  · exact fun b => htable ▸ h.core.nodup b
  · exact h.core.hello o r (hf.ops.data o r hr)

theorem Removable.removed (h : Removable env i others s) (hr : Removed s s') :
    StInv env i others s' := by
  have htable : ∀ j b, j ∈ s'.ctx.htTable b → j ∈ s.ctx.htTable b := fun j b hj => by
    rw [hr.table] at hj
    exact mem_htRemove hj
  refine ⟨hr.id.trans h.id, ⟨?_, ?_, ?_, ?_, ?_, ?_, ?_⟩, ?_, ?_, ?_, ?_⟩
  · intro _
    rw [hr.sess]
    exact ⟨rfl, by simp [clearedSession, clearSessionFields]⟩
  · -- the entry was erased from its only place
    intro b hb
    rw [hr.id] at hb
    have hh := h.placed b (htable _ b hb)
    rw [hr.table] at hb
    simp only [htRemove, hh, if_true] at hb
    exact absurd hb (h.core.nodup _).not_mem_erase
  · intro hh
    rw [hr.sess] at hh
    exact absurd rfl hh
  · intro hh
    rw [hr.sess] at hh
    change HandshakeType.certificateVerify ≤ .helloRequest at hh
    exact absurd hh (by decide)
  · intro hh
    rw [hr.sess] at hh
    cases hh
  · intro hh
    rw [hr.sess] at hh
    cases hh
  · intro r hr'
    rw [hr.sess] at hr'
    simp [clearedSession, clearSessionFields] at hr'
  · rw [hr.sess]
    exact .inr ⟨rfl, rfl⟩
  · intro c hc
    refine (h.others c hc).mono (l := [.remove s.conn.id (outstanding s.ctx s.conn.id), .clear s.conn]) (.refl c)
      (fun b hb => htable _ b hb) ?_
    rw [hr.trace]
    rfl
  · intro b
    rw [hr.table]
    simp only [htRemove]
    split
    · exact (h.core.nodup b).erase _
    · exact h.core.nodup b
  · intro o r' hr'
    rw [hr.ops] at hr'
    split at hr'
    · cases hr'
    · exact h.core.hello o r' hr'

/-! ### Reading a record -/

theorem decrypted_verifyData {e : Session} (hd : decrypted env e r = some r1)
    (hp : r.inPlace = false) :
    ∃ plain, aeadOpen env e r = some plain
      ∧ (takeLength r1).verifyData = slice plain handshakeHeaderSize 48 := by
  unfold decrypted at hd
  split at hd
  · cases hd
  · cases hd
  · rename_i plain _ ho
    cases hd
    refine ⟨plain, ho, ?_⟩
    have hlen : (slice r.data 0 3 ++ put16 (r.cipherTextLength - 16)).length = recordHeaderSize := by
      simp [put16, recordHeaderSize]
    simp only [Record.verifyData, Record.pf, Record.decrypted, takeLength, hp, Bool.false_eq_true,
      if_false]
    rw [List.drop_append_of_le_length (by omega), List.drop_of_length_le (by omega), List.nil_append]

theorem unpackHeader_inPlace (r : Record) : (unpackHeader r).inPlace = r.inPlace := by
  unfold unpackHeader
  split <;> rfl

theorem eq_clientCipherSpec {h : HandshakeType} (h1 : .clientCipherSpec ≤ h)
    (h2 : ¬ .finished ≤ h) : h = .clientCipherSpec := by
  cases h <;> first | rfl | exact absurd h1 (by decide) | exact absurd (by decide) h2

theorem ne_helloRequest {h : HandshakeType} (hh : .certificateVerify ≤ h) : h ≠ .helloRequest := by
  rintro rfl
  exact absurd hh (by decide)

theorem StInv.not_idle (h : StInv env i others s)
    (hh : s.conn.sess.handshakeState ≠ .helloRequest) : s.conn.tcp.state ≠ .idle :=
  fun hi => hh (h.conn.idle hi).1

theorem StInv.spec (h : StInv env i others s)
    (hh : .certificateVerify ≤ s.conn.sess.handshakeState) : StInv env i others (changeSpec s) := by
  have hne := ne_helloRequest hh
  have hni := h.not_idle hne
  refine ⟨h.id, ⟨?_, h.conn.placed, ?_, ?_, ?_, h.conn.active, h.conn.records⟩, .inl hni, h.others,
    h.core⟩
  · exact fun hi => absurd hi hni
  · exact fun _ => h.conn.hello hne
  · exact fun _ => h.conn.verified hh
  · intro _ hc
    have hp : s.conn.sess.pendingSp.bulkCipherAlgorithm = .noCipher := hc
    rw [h.conn.hello hne] at hp
    cases hp

theorem StInv.finish (h : StInv env i others s)
    (hh : s.conn.sess.handshakeState = .clientCipherSpec)
    (ha : s.conn.sess.state ≠ .active → Authenticated env s.conn.id s.ctx.trace) :
    StInv env i others (finishHandshake s) := by
  have hle : HandshakeType.certificateVerify ≤ s.conn.sess.handshakeState := by rw [hh]; decide
  have hne := ne_helloRequest hle
  have hni := h.not_idle hne
  refine ⟨h.id, ⟨?_, h.conn.placed, ?_, ?_, ?_, ?_, h.conn.records⟩, .inl hni, h.others, h.core⟩
  · exact fun hi => absurd hi hni
  · exact fun _ => h.conn.hello hne
  · exact fun _ => h.conn.verified hle
  · intro hc
    cases hc
  · intro _
    by_cases hs : s.conn.sess.state = .active
    · exact h.conn.active hs
    · exact ha hs

theorem StInv.submits {fill : Op} (h : StInv env i others s) (hsub : Submits fill o s s')
    (hfill : ∀ r, fill.data = some r → ∃ ch, r.IsHello ch ∧ SelectsAes r ch) :
    StInv env i others s' := by
  have htable : s'.ctx.htTable = s.ctx.htTable := (congrArg Ctx.htTable hsub.ctx :)
  have htrace := hsub.trace
  have hv : SameView s.conn s'.conn := by
    refine ⟨hsub.id, ?_, ?_, ?_, ?_, ?_, ?_, ?_, ?_, ?_⟩
    all_goals first | rw [hsub.sess] | rw [hsub.tcp]
    · exact fun hi => hi
    · exact fun _ hr => hr
  have hdata : ∀ i r, (s'.ctx.ops i).data = some r → ∃ ch, r.IsHello ch ∧ SelectsAes r ch := by
    intro i r hr
    by_cases hi : i = o
    · subst hi
      rw [hsub.op] at hr
      exact hfill r hr
    · rw [hsub.ops i hi] at hr
      exact h.core.hello i r hr
  exact
    { id := hv.id.trans h.id
      conn := h.conn.mono (l := []) hv (fun b hb => htable ▸ hb) (by rw [htrace]; rfl)
      live := by rw [hsub.sess, hsub.tcp]; exact h.live
      others := fun c hc => (h.others c hc).mono (l := []) (.refl c) (fun b hb => htable ▸ hb)
        (by rw [htrace]; rfl)
      core := ⟨fun b => htable ▸ h.core.nodup b, hdata⟩ }

theorem finished_authenticated {tr : List Event} {room : Bool} {ret : Int} {ctx : Ctx}
    (h : StInv env i others s) (htrace : s.ctx.trace = .read s.conn r rest room :: tr)
    (hstate : s.conn.sess.handshakeState = .clientCipherSpec) (hna : s.conn.sess.state ≠ .active)
    (hp : r.inPlace = false) (hread : ReadAs env s.conn.sess r .applicationData r1)
    (hvd : s.conn.sess.tls13Ctx.calculatedVd = r1.verifyData)
    (hrun : processReadRecord env rest r ⟨s.conn, ctx⟩ = .ok (ret, s'))
    (ha : s'.conn.sess.state = .active) (ho : s'.conn.tcp.onload = true) :
    Authenticated env s.conn.id s.ctx.trace := by
  have hcipher := h.conn.ciphered hstate
  have hver := h.conn.verified (by rw [hstate]; decide)
  obtain ⟨q, hq, rfl⟩ : ∃ q, decrypted env s.conn.sess (unpackHeader r) = some q
      ∧ takeLength q = r1 := by
    have hopen := hread.opened
    simp only [opened, hcipher, hna, if_false] at hopen
    exact Option.map_eq_some_iff.mp hopen
  obtain ⟨plain, hplain, hslice⟩ := decrypted_verifyData hq (by rw [unpackHeader_inPlace, hp])
  rw [htrace] at hver
  have hlife : lifetime s.conn.id s.ctx.trace = .read s.conn r rest room :: lifetime s.conn.id tr := by
    rw [htrace]
    rfl
  refine ⟨[], s.conn, r, rest, room, lifetime s.conn.id tr, hlife, rfl,
    ⟨hna, ctx, ret, s', hrun, ha, ho⟩, hcipher, ⟨plain, hplain, by rw [← hslice, hvd]⟩, ?_⟩
  -- the event was recorded before the record was read
  rcases List.mem_cons.mp hver with heq | hmem
  · cases heq
  · exact hmem

theorem selectsAes_of_hello {e : Session} {ch : ClientHello} (hrd : ReadAs env e r .handshake r1)
    (hp : unpackClientHello r1.pf r1.plainText.length.toNat = .ok (some ch))
    (h : helloSelectsAes env e r = true) : SelectsAes r1 ch := by
  simpa only [helloSelectsAes, hrd.opened, hp, decide_eq_true_eq] using h

theorem StInv.read {ret : Int} (hs : StInv env i others s) (hp : r.inPlace = false)
    (h : processReadRecord env rest r s = .ok (ret, s')) (hw : s.conn.sess.waitingCrypto = false)
    (hgood : ∀ e ∈ s'.ctx.trace, InTurn env e) : StInv env i others s' := by
  have hout := processReadRecord_outcome h hw
  have hturn : InTurn env (.read (reading rest r s).conn r rest s.ctx.ringRoom) :=
    hgood _ (hout.grows.subset List.mem_cons_self)
  obtain ⟨hhello, hspec, happ⟩ := hturn
  have hs : StInv env i others (reading rest r s) := hs.record (fun i => by simp) rfl rfl rfl rfl
  cases hout with
  | dropped hf => exact hs.frame hf
  | hello hrd _ hparsed hf _ hsub =>
    have hsel := selectsAes_of_hello hrd hparsed (hhello hrd.code)
    refine (hs.frame hf).submits hsub ?_
    rintro r' hr'
    cases hr'
    exact ⟨_, ⟨hrd.recordType, rfl⟩, hsel⟩
  | cipherSpec hrd _ hf hf' =>
    have hle := hspec hrd.code
    rw [← hf.sameView.handshakeState] at hle
    exact ((hs.frame hf).spec hle).frame hf'
  | alert _ _ hf hr => exact (hs.frame hf).removable.removed (removeSession_removed hr)
  | finished hrd _ hstate hvd hf hf' =>
    have hcs := eq_clientCipherSpec (happ hrd.code) hstate
    have ha : s'.conn.sess.state = .active := hf'.state
    have ho : s'.conn.tcp.onload = true := (congrArg Tcp.onload hf'.tcp :)
    refine ((hs.frame hf).finish (hf.sameView.handshakeState.trans hcs) ?_).frame hf'
    intro hna
    rw [hf.sameView.state] at hna
    rw [hf.id, hf.trace]
    exact finished_authenticated hs rfl hcs hna hp hrd hvd h ha ho
  | refused _ _ _ _ hf hw hf' hr =>
    have hrem : Removable env i others (finishHandshake _) :=
      ⟨(hs.frame hf).id, (hs.frame hf).removable.placed, (hs.frame hf).others, (hs.frame hf).core⟩
    rcases removeHws_cases hw with ⟨-, rfl⟩ | ⟨-, hw⟩
    · exact (hrem.frame hf').removed (removeSession_removed hr)
    · exact ((hrem.removed hw).removable.frame hf').removed (removeSession_removed hr)

/-! ### Reassembly -/

theorem StInv.queues (h : StInv env i others s) (cur : Option Record) (q : List Record)
    (hq : ∀ r, cur = some r ∨ r ∈ q → r.inPlace = false) :
    StInv env i others (s.mapSess fun e => { e with currentReadRecord := cur, recvQ := q }) :=
  ⟨h.id, { h.conn with records := hq }, h.live, h.others, h.core⟩

theorem StInv.round {pkt pkt' : Bytes} (hs : StInv env i others s)
    (h : newRecordRound env pkt s = .ok (pkt', s')) (hgood : ∀ e ∈ s'.ctx.trace, InTurn env e) :
    StInv env i others s' := by
  obtain ⟨r, s1, hr, -, h⟩ := newRecordRound_cases h
  have hs1 : StInv env i others s1 ∧ r.inPlace = false := by
    rcases currentRecord_cases hr with ⟨hcur, rfl⟩ | ⟨-, -, hf, -, -, slot, id, rfl⟩
    · exact ⟨hs, hs.conn.records r (.inl hcur)⟩
    · exact ⟨hs.frame hf, rfl⟩
  have hset : StInv env i others (setCurrent (some (filled r pkt)) s1) := by
    refine hs1.1.queues _ s1.conn.sess.recvQ ?_
    rintro r' (hr' | hr')
    · cases hr'
      exact hs1.2
    · exact hs1.1.conn.records r' (.inr hr')
  rcases h with ⟨-, rfl⟩ | ⟨-, s2, h2, rfl⟩
  · exact hset
  · have hset : StInv env i others (completing (filled r pkt) (setCurrent (some (filled r pkt)) s1)) :=
      hset.record (fun i => by simp) rfl rfl rfl rfl
    have hs2 : StInv env i others s2 := by
      rcases takeRecord_cases h2 with ⟨-, rfl⟩ | ⟨hw, ret, hread⟩
      · refine hset.queues _ _ ?_
        rintro r' (hr' | hr')
        · exact hset.conn.records r' (.inl hr')
        · rcases List.mem_append.mp hr' with hr' | hr'
          · exact hset.conn.records r' (.inr hr')
          · rw [List.mem_singleton.mp hr']
            exact hs1.2
      · exact hset.read (r := filled r pkt) hs1.2 hread hw hgood
    refine hs2.queues none s2.conn.sess.recvQ ?_
    rintro r' (hr' | hr')
    · cases hr'
    · exact hs2.conn.records r' (.inr hr')

abbrev StKeeps (env : Env) (i : ConnId) (others : Set Conn) : St → St → Prop :=
  Keeps (fun s : St => s.ctx.trace) (InTurn env) (StInv env i others)

/-! ### PKA results and the server flight -/

/- Before the expected Finished is computed the transcript may grow. -/
theorem StInv.send (h : StInv env i others s) (hf : SendFrame s s')
    (hh : ¬ .certificateVerify ≤ s.conn.sess.handshakeState) : StInv env i others s' := by
  -- forget what was sent, then put the new transcript in
  have hstate := hf.handshakeState
  have hold : FlushFrame s (s'.mapSess fun e =>
      { e with handshakeMsgs := s.conn.sess.handshakeMsgs, sendSeqNum := s.conn.sess.sendSeqNum
               serverWriteIvSeqNum := s.conn.sess.serverWriteIvSeqNum }) :=
    ⟨⟨hf.id, hf.sess, hf.tcp, hf.tcpState, hf.sentAck, fun _ => rfl, hf.ctx, hf.ops, hf.sessionId⟩, rfl⟩
  have h' := h.flush hold
  refine ⟨h'.id, ⟨h'.conn.idle, h'.conn.placed, h'.conn.hello, ?_, h'.conn.ciphered, h'.conn.active,
    h'.conn.records⟩, h'.live, h'.others, h'.core⟩
  intro hle
  exact absurd (hstate ▸ hle) hh

theorem StInv.setState {x : HandshakeType} (h : StInv env i others s)
    (hne : s.conn.sess.handshakeState ≠ .helloRequest) (hh : ¬ .certificateVerify ≤ x) :
    StInv env i others (setHandshakeState x s) := by
  have hni := h.not_idle hne
  refine ⟨h.id, ⟨fun hi => absurd hi hni, h.conn.placed, fun _ => h.conn.hello hne, fun hle => absurd hle hh,
    ?_, h.conn.active, h.conn.records⟩, .inl hni, h.others, h.core⟩
  intro hc
  change x = _ at hc
  subst hc
  exact absurd (by decide) hh

theorem StInv.finishCrypto (h : StInv env i others s) (hni : s.conn.tcp.state ≠ .idle) (o : OpId) :
    StInv env i others (finishCrypto o s) := by
  refine ⟨h.id, ⟨h.conn.idle, h.conn.placed, h.conn.hello, h.conn.verified, h.conn.ciphered, h.conn.active,
    h.conn.records⟩, .inl hni, fun c hc => ?_, h.core.nodup, ?_⟩
  · exact (h.others c hc).mono (l := []) (.refl c) (fun _ hb => hb) rfl
  · intro i r hr
    by_cases hi : i = o
    · simp [Nic.finishCrypto, deleteOp, Ctx.setOp, hi] at hr
    · simp only [Nic.finishCrypto, deleteOp, Ctx.setOp, St.mapCtx_ctx, hi, if_false] at hr
      exact h.core.hello i r hr

theorem setPendingSp_aes {ch : ClientHello} {pub : Bytes} (h : SelectsAes r ch) :
    (setPendingSp r ch pub s).conn.sess.pendingSp.bulkCipherAlgorithm = .aes := by
  have hsel : selectCipher (codeList r.pf ch.cipherSuites ch.cipherSuiteLength)
      = TLS_AES_256_GCM_SHA384 := h
  simp only [setPendingSp, St.mapSess_sess, hsel, if_true]

theorem StInv.pending {ch : ClientHello} {pub : Bytes} (h : StInv env i others s)
    (hni : s.conn.tcp.state ≠ .idle) (hsel : SelectsAes r ch) :
    StInv env i others (setPendingSp r ch pub s) := by
  refine ⟨h.id, ⟨fun hi => absurd hi hni, h.conn.placed, fun _ => setPendingSp_aes hsel, ?_, ?_, ?_,
    h.conn.records⟩, .inl hni, h.others, h.core⟩
  · intro hle
    change HandshakeType.certificateVerify ≤ .clientHello at hle
    exact absurd hle (by decide)
  · intro hc
    cases hc
  · intro ha
    cases ha

theorem StInv.answer {ch : ClientHello} (h : StInv env i others s) (hni : s.conn.tcp.state ≠ .idle)
    (hsel : SelectsAes r ch) (ha : answerClientHello env r ch s = .ok s') :
    StInv env i others s' := by
  obtain ⟨off, s1, s2, -, hf, hreq, rfl⟩ := answerClientHello_cases ha
  have hstate : s1.conn.sess.handshakeState = .clientHello :=
    hf.handshakeState
  have hs1 : StInv env i others s1 := (h.pending hni hsel).send hf
    (show ¬ HandshakeType.certificateVerify ≤ .clientHello by decide)
  have hreq' : StInv env i others (sharedSecretRequest (slice r.pf off x25519KeyLen) s1) :=
    (hs1.setState (x := .serverHello) (by rw [hstate]; decide) (by decide)).same
      ⟨rfl, rfl, rfl, rfl, rfl, rfl, rfl, rfl, fun hi => hi, fun _ hr => hr⟩ rfl rfl rfl
      (fun _ _ hr => hr)
  have hs2 : StInv env i others s2 := by
    rcases hreq with ⟨o, hrej⟩ | ⟨o, hsub⟩
    · exact hreq'.frame hrej.frame
    · exact hreq'.submits hsub (fun r hr => by cases hr)
  exact hs2.same ⟨rfl, rfl, rfl, rfl, rfl, rfl, rfl, rfl, fun hi => hi, fun _ hr => hr⟩ rfl rfl rfl
    (fun _ _ hr => hr)

theorem StInv.crypto (h : StInv env i others s) (hg : getProcessedCrypto env s = .ok s') :
    StInv env i others s' := by
  have hdata : ∀ o r, (s.ctx.ops o).data = some r → ∃ ch, r.IsHello ch := fun o r hr =>
    (h.core.hello o r hr).imp fun _ hch => hch.1
  have hni : s.conn.sess.completedCrypto = true → s.conn.tcp.state ≠ .idle := fun hc =>
    h.live.resolve_right fun hl => by rw [hl.1] at hc; cases hc
  have hsame : ∀ {t : St}, SameView s.conn t.conn →
      t.conn.sess.completedCrypto = s.conn.sess.completedCrypto → t.ctx = s.ctx →
      StInv env i others t := fun hv hc hctx => h.same hv hc (by rw [hctx]) (by rw [hctx])
    (fun o r hr => by rwa [hctx] at hr)
  cases getProcessedCrypto_outcome hdata hg with
  | idle => exact h
  | @keyGen o r ch t u hc _ hstate hd hch hf ha =>
    obtain ⟨ch', hch', hsel⟩ := h.core.hello o r hd
    obtain rfl : ch' = ch := by
      have hfrag := hch'.2.symm.trans hch.2
      cases hfrag
      rfl
    have h0 : StInv env i others (handleAfterEcdheKeyGen (clearPending s)) :=
      hsame ⟨rfl, rfl, rfl, rfl, rfl, rfl, rfl, rfl, fun hi => hi, fun _ hr => hr⟩ rfl rfl
    have h1 : StInv env i others t := h0.send hf
      (by change ¬ HandshakeType.certificateVerify ≤ s.conn.sess.handshakeState
          rw [hstate]; decide)
    have ht : t.conn.tcp.state ≠ .idle := by
      have hst := hf.tcpState
      change t.conn.tcp.state = s.conn.tcp.state ∨ _ at hst
      rcases hst with hst | hst
      · rw [hst]; exact hni hc
      · rw [hst]; decide
    have h2 : StInv env i others u := h1.answer ht hsel ha
    have hu : u.conn.tcp.state ≠ .idle :=
      h2.not_idle (by rw [answerClientHello_state ha]; decide)
    exact (h2.frame (deleteRecord_frame r u)).finishCrypto hu o
  | @sharedSecret o hc _ hstate =>
    have h1 : StInv env i others (handleAfterEcdheSharedSecretCalc env (clearPending s)) := by
      refine hsame ⟨rfl, rfl, rfl, rfl, rfl, ?_, rfl, rfl, fun hi => hi, fun _ hr => hr⟩ rfl rfl
      simp only [handleAfterEcdheSharedSecretCalc, St.mapSess_sess]
      split <;> rfl
    exact h1.finishCrypto (hni hc) o
  | @signature o hc _ hstate =>
    have h1 : StInv env i others (handleAfterEcdsaSignature (clearPending s)) :=
      hsame ⟨rfl, rfl, rfl, rfl, rfl, rfl, rfl, rfl, fun hi => hi, fun _ hr => hr⟩ rfl rfl
    exact h1.finishCrypto (hni hc) o

theorem StInv.verifyData (h : StInv env i others (setHandshakeState .certificate s))
    (hs : s.conn.sess.handshakeState = .certificateVerify) :
    StInv env i others (handleVerifyDataCalculation env (handleAppKeysCalculation env s)) := by
  have hne : (setHandshakeState .certificate s).conn.sess.handshakeState ≠ .helloRequest :=
    show HandshakeType.certificate ≠ .helloRequest by decide
  have hni : s.conn.tcp.state ≠ .idle := h.not_idle hne
  obtain ⟨k, hk, -⟩ := handleAppKeysCalculation_eq env s
  rw [hk]
  refine ⟨h.id, ⟨fun hi => absurd hi hni, h.conn.placed, fun _ => h.conn.hello hne,
    fun _ => List.mem_cons_self, fun hc => ?_, fun ha => ?_, h.conn.records⟩, .inl hni,
    fun c hc => ?_, h.core.nodup, h.core.hello⟩
  · change s.conn.sess.handshakeState = _ at hc
    rw [hs] at hc
    cases hc
  · exact (h.conn.active ha).mono (l := [_]) rfl
  · exact (h.others c hc).record (fun i => by simp) rfl rfl

theorem StInv.remain (h : StInv env i others s) (hr : RemainOutcome env s s') :
    StInv env i others s' := by
  cases hr with
  | idle => exact h
  | @certificate s1 s2 _ hstate _ hf hf' hreq =>
    have h1 := h.send hf (by rw [hstate]; decide)
    have hst1 : s1.conn.sess.handshakeState = .serverHello :=
      hf.handshakeState.trans hstate
    have h2 : StInv env i others s2 := (h1.setState (by rw [hst1]; decide) (by decide)).send hf'
      (show ¬ HandshakeType.certificateVerify ≤ .encryptedExtensions by decide)
    have hst2 : s2.conn.sess.handshakeState = .encryptedExtensions :=
      hf'.handshakeState
    have hq : StInv env i others (signatureRequest env s2) :=
      (h2.setState (x := .certificate) (by rw [hst2]; decide) (by decide)).same
        ⟨rfl, rfl, rfl, rfl, rfl, rfl, rfl, rfl, fun hi => hi, fun _ hr => hr⟩ rfl rfl rfl
        (fun _ _ hr => hr)
    rcases hreq with ⟨o, hrej⟩ | ⟨o, hsub⟩
    · exact hq.frame hrej.frame
    · exact hq.submits hsub (fun r hr => by cases hr)
  | @finished s1 s2 port hstate _ hf hf' =>
    have h1 := h.send hf (by rw [hstate]; decide)
    have hst1 : s1.conn.sess.handshakeState = .certificate :=
      hf.handshakeState.trans hstate
    have h2 := h1.send (hf'.setBack hst1 nofun) (by rw [hst1]; decide)
    have hst2 : s2.conn.sess.handshakeState = .certificateVerify :=
      hf'.handshakeState
    exact (h2.verifyData hst2).frame (sendKeyMeta_frame env port _)
  | @pending s1 hstate _ hf =>
    have h1 := h.flush hf
    have hst1 : s1.conn.sess.handshakeState = .certificateVerify :=
      hf.sameView.handshakeState.trans hstate
    have hni := h1.not_idle (by rw [hst1]; decide)
    refine ⟨h1.id, ⟨fun hi => absurd hi hni, h1.conn.placed, fun _ => h1.conn.hello (by rw [hst1]; decide),
      fun _ => h1.conn.verified (by rw [hst1]; decide), ?_, h1.conn.active, h1.conn.records⟩,
      .inl hni, h1.others, h1.core⟩
    intro hc
    cases hc

theorem TcpMove.keeps {f : Tcp → Tcp} (hf : TcpMove s.conn.tcp (f s.conn.tcp)) :
    StKeeps env i others s (s.mapTcp f) := by
  have hidle : (f s.conn.tcp).state = .idle → s.conn.tcp.state = .idle := by
    intro hi
    rcases hf.state with he | he
    · exact he ▸ hi
    · rw [he] at hi
      cases hi
  exact .quiet rfl fun hs =>
    hs.same ⟨rfl, rfl, rfl, rfl, rfl, rfl, rfl, hf.hash, hidle, fun _ hr => hr⟩ rfl rfl rfl
      (fun _ _ hr => hr)

theorem closed_keeps (env : Env) (i : ConnId) (others : Set Conn) :
    Closed env (StKeeps env i others) where
  refl := .refl
  trans := .trans
  tcp _ _ hf := hf.move.keeps
  host _ _ hf := hf.move.keeps
  emits _ _ := .quiet rfl fun hs =>
    hs.same ⟨rfl, rfl, rfl, rfl, rfl, rfl, rfl, rfl, fun hi => hi, fun _ hr => hr⟩ rfl rfl rfl
      (fun _ _ hr => hr)
  frame s s' hf := ⟨hf.grows, fun _ hs => hs.frame hf.toFrame⟩
  round _ _ s s' hr := ⟨newRecordRound_grows hr, fun hg hs => hs.round hr hg⟩
  queued s s' r q ret hw hq hr := by
    have hgrows := processReadRecord_grows hr hw
    rw [St.mapSess_ctx] at hgrows
    refine ⟨(List.suffix_cons _ _).trans hgrows, fun hg hs => ?_⟩
    have hmem : ∀ r', r' ∈ r :: q → r'.inPlace = false := fun r' hr' =>
      hs.conn.records r' (.inr (hq ▸ hr'))
    refine (hs.queues s.conn.sess.currentReadRecord q ?_).read (hmem r List.mem_cons_self) hr hw hg
    rintro r' (hr' | hr')
    · exact hs.conn.records r' (.inl hr')
    · exact hmem r' (List.mem_cons_of_mem r hr')
  crypto s s' h := ⟨getProcessedCrypto_grows h, fun _ hs => hs.crypto h⟩
  removed s s' _ hr := ⟨hr.grows, fun _ hs => hs.removable.removed hr⟩
  remain s s' hr := ⟨hr.grows, fun _ hs => hs.remain hr⟩

end

end Xtls.Nic
