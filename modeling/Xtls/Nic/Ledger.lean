import Xtls.Lib.Shares
import Xtls.Nic.OpFacts

/-!
# Where the records are

A record is in `record_pool`, or a connection has it: as the one under reassembly, in `recv_q`, or
through the operation that waits for its key pair.  `Flow` follows the slots while one connection is
worked on; `hand` is what the code has in hand on the way.
-/

namespace Xtls.Nic

/-- Every record that is read in this session can be decrypted. -/
def Event.Decrypts (env : Env) : Event → Prop
  | .read conn r _ _ => retransmits conn.sess r = true ∨ opened env conn.sess r ≠ none
  | _ => True

instance (env : Env) : DecidablePred (Event.Decrypts env)
  | .read conn r _ _ => inferInstanceAs (Decidable (retransmits conn.sess r = true ∨ opened env conn.sess r ≠ none))
  | .insert _ | .remove .. | .clear _ | .complete .. | .verifyData .. => .isTrue trivial

/-- The record that is read comes to something, and a session that is cleared has no record half
received. -/
def Event.Accounted (env : Env) : Event → Prop
  | .read conn r _ room => retransmits conn.sess r = true ∨
      (usable env conn.sess r = true ∧ refuses env conn.sess r = false
        ∧ (byteAt r.data 0 = ContentType.handshake.code → room = true))
  | .clear conn => ∀ r, conn.sess.currentReadRecord = some r → r.data.length = r.length
  | _ => True

/- The slots a connection has; without the record under reassembly while that one is read. -/
def heldWith (b : Bool) (ctx : Ctx) (e : Session) : List Nat :=
  ((if b then e.currentReadRecord.toList else []) ++ e.recvQ ++ (pendingRecord ctx e).toList).map
    Record.slot

def Waits (ctx : Ctx) (e : Session) : Prop :=
  ∀ o r, e.pendingPkaOp = some o → (ctx.ops o).data = some r →
    e.handshakeState = .helloRequest ∧ e.waitingCrypto = true

def Unfilled (e : Session) : Prop := ∀ r, e.currentReadRecord = some r → r.data.length ≠ r.length

/-- A point in the code: what it has in hand, and whether the record under reassembly counts as held. -/
structure Point where
  hand : List Nat
  whole : Bool
  st : St

def Point.slots (x : Point) : List Nat :=
  x.hand ++ (x.st.ctx.recordPool ++ heldWith x.whole x.st.ctx x.st.conn.sess)

structure Flow (env : Env) (x y : Point) : Prop where
  id : y.st.conn.id = x.st.conn.id
  grows : x.st.ctx.trace <:+ y.st.ctx.trace
  others : ∀ o d, d ≠ x.st.conn.id → (x.st.ctx.ops o).sess = some d →
    y.st.ctx.ops o = x.st.ctx.ops o
  cnt : y.st.ctx.freeRecordCnt - y.st.ctx.recordPool.length
    = x.st.ctx.freeRecordCnt - x.st.ctx.recordPool.length
  slots : ∃ lost, (y.slots ++ lost).Perm x.slots
    ∧ ((∀ e ∈ y.st.ctx.trace, e.Accounted env) → lost = [])
  waits : Waits x.st.ctx x.st.conn.sess → Waits y.st.ctx y.st.conn.sess
  unfilled : (x.whole = true → Unfilled x.st.conn.sess) → y.whole = true → Unfilled y.st.conn.sess

section

variable {env : Env} {s s' : St} {others : ConnId → Conn} {b : Bool} {hand l : List Nat}
  {o : OpId} {fill : Op} {r : Record}

theorem Flow.refl (x : Point) : Flow env x x where
  id := rfl
  grows := List.suffix_refl _
  others _ _ _ _ := rfl
  cnt := rfl
  slots := ⟨[], by rw [List.append_nil], fun _ => rfl⟩
  waits h := h
  unfilled h := h

theorem Flow.trans {x y z : Point} (h1 : Flow env x y) (h2 : Flow env y z) : Flow env x z where
  id := h2.id.trans h1.id
  grows := h1.grows.trans h2.grows
  others o i hi ho := by
    have hc := h1.others o i hi ho
    rw [← hc]
    exact h2.others o i (h1.id ▸ hi) (hc ▸ ho)
  cnt := h2.cnt.trans h1.cnt
  slots := by
    obtain ⟨l1, hp1, hl1⟩ := h1.slots
    obtain ⟨l2, hp2, hl2⟩ := h2.slots
    refine ⟨l2 ++ l1, ?_, fun hg => ?_⟩
    · rw [← List.append_assoc]
      exact (hp2.append_right l1).trans hp1
    · rw [hl2 hg, hl1 fun e he => hg e (h2.grows.subset he)]
      rfl
  waits h := h2.waits (h1.waits h)
  unfilled h := h2.unfilled (h1.unfilled h)

theorem Flow.carry {hand' : List Nat} {b' : Bool} (h : Flow env ⟨hand, b, s⟩ ⟨hand', b', s'⟩)
    (k : List Nat) : Flow env ⟨k ++ hand, b, s⟩ ⟨k ++ hand', b', s'⟩ := by
  refine ⟨h.id, h.grows, h.others, h.cnt, ?_, h.waits, h.unfilled⟩
  obtain ⟨lost, hp, hl⟩ := h.slots
  refine ⟨lost, ?_, hl⟩
  have hk := hp.append_left k
  simpa only [Point.slots, List.append_assoc] using hk

/-! ### Elementary moves -/

theorem Flow.returns (lost : List Nat) (hid : s'.conn.id = s.conn.id) (hgrows : s.ctx.trace <:+ s'.ctx.trace)
    (hops : s'.ctx.ops = s.ctx.ops) (hret : Returns l s.ctx s'.ctx) (hl : hand.Perm (l ++ lost))
    (hacc : (∀ e ∈ s'.ctx.trace, e.Accounted env) → lost = [])
    (hcur : s'.conn.sess.currentReadRecord = s.conn.sess.currentReadRecord)
    (hq : s'.conn.sess.recvQ = s.conn.sess.recvQ)
    (hpend : s'.conn.sess.pendingPkaOp = s.conn.sess.pendingPkaOp)
    (hwait : Waits s.ctx s.conn.sess → Waits s'.ctx s'.conn.sess) :
    Flow env ⟨hand, b, s⟩ ⟨[], b, s'⟩ where
  id := hid
  grows := hgrows
  others o _ _ _ := congrFun hops o
  cnt := hret.balance
  slots := by
    have hheld : heldWith b s'.ctx s'.conn.sess = heldWith b s.ctx s.conn.sess := by
      rw [heldWith, heldWith, pendingRecord, pendingRecord, hcur, hq, hpend, hops]
    refine ⟨lost, ?_, hacc⟩
    rw [List.perm_iff_count]
    intro x
    have hp := hret.pool.count_eq x
    have hh := hl.count_eq x
    simp only [Point.slots, hheld, List.count_append, List.nil_append] at hp hh ⊢
    omega
  waits := hwait
  unfilled h hb := by
    rw [Unfilled, hcur]
    exact h hb

theorem Waits.frame (h : Waits s.ctx s.conn.sess) (hcore : OpCtx s.ctx) (hf : SendFrame s s') :
    Waits s'.ctx s'.conn.sess := by
  have hv := OpView.of_core hf.sess
  intro o r ho hd
  rw [hv.handshakeState, hv.waitingCrypto]
  exact h o r (hv.pendingPkaOp ▸ ho) (hcore.same hf.ops ▸ hd)

theorem Flow.frame (lost : List Nat) (hcore : OpCtx s.ctx) (hf : SendFrame s s') (hret : Returns l s.ctx s'.ctx)
    (hl : hand.Perm (l ++ lost)) (hacc : (∀ e ∈ s'.ctx.trace, e.Accounted env) → lost = []) :
    Flow env ⟨hand, b, s⟩ ⟨[], b, s'⟩ :=
  .returns lost hf.id hf.grows (hcore.same hf.ops) hret hl hacc
    hf.currentReadRecord hf.recvQ
    hf.pendingPkaOp fun hw => hw.frame hcore hf

theorem Flow.still (hcore : OpCtx s.ctx) (hf : SendFrame s s') (hret : Returns [] s.ctx s'.ctx) :
    Flow env ⟨[], b, s⟩ ⟨[], b, s'⟩ :=
  .frame [] hcore hf hret (.refl _) fun _ => rfl

theorem Flow.same (hid : s'.conn.id = s.conn.id) (hgrows : s.ctx.trace <:+ s'.ctx.trace)
    (hops : s'.ctx.ops = s.ctx.ops) (hpool : s'.ctx.recordPool = s.ctx.recordPool)
    (hcnt : s'.ctx.freeRecordCnt = s.ctx.freeRecordCnt)
    (hcur : s'.conn.sess.currentReadRecord = s.conn.sess.currentReadRecord)
    (hq : s'.conn.sess.recvQ = s.conn.sess.recvQ)
    (hpend : s'.conn.sess.pendingPkaOp = s.conn.sess.pendingPkaOp)
    (hwait : Waits s.ctx s.conn.sess → Waits s'.ctx s'.conn.sess) : Flow env ⟨[], b, s⟩ ⟨[], b, s'⟩ :=
  .returns [] hid hgrows hops (.quiet hpool hcnt) (.refl _) (fun _ => rfl) hcur hq hpend hwait

theorem Waits.moved (h : ∀ o, s.conn.sess.pendingPkaOp = some o → (s.ctx.ops o).data = none)
    (hops : s'.ctx.ops = s.ctx.ops) (hpend : s'.conn.sess.pendingPkaOp = s.conn.sess.pendingPkaOp) :
    Waits s'.ctx s'.conn.sess := by
  intro o r ho hd
  rw [hops, h o (hpend ▸ ho)] at hd
  cases hd

theorem Flow.submits (hcore : OpCtx s.ctx) (hsub : Submits fill o s s')
    (hret : Returns [] s.ctx s'.ctx) (hpend : s.conn.sess.pendingPkaOp = none)
    (hwait : fill.data ≠ none → s.conn.sess.handshakeState = .helloRequest) :
    Flow env ⟨fill.data.toList.map Record.slot, b, s⟩ ⟨[], b, s'⟩ where
  id := hsub.id
  grows := hsub.grows
  others i d hd hi := by
    refine hsub.ops i fun he => ?_
    have hfree : (s.ctx.ops o).sess = none :=
      hcore.pool o (by rw [hsub.pool]; exact List.mem_cons_self)
    rw [he, hfree] at hi
    cases hi
  cnt := hret.balance
  slots := by
    refine ⟨[], ?_, fun _ => rfl⟩
    have hdata : (s'.ctx.ops o).data = fill.data := by rw [hsub.op]
    rw [List.perm_iff_count]
    intro x
    have hp := hret.pool.count_eq x
    simp only [Point.slots, heldWith, pendingRecord, hsub.sess, hpend, Option.bind_some, Option.bind_none, hdata,
      Option.toList_none, List.map_append, List.count_append, List.append_nil, List.nil_append] at hp ⊢
    omega
  waits _ i r hi hr := by
    rw [hsub.sess] at hi ⊢
    cases hi
    rw [hsub.op] at hr
    have hr : fill.data = some r := hr
    exact ⟨hwait (by rw [hr]; simp), rfl⟩
  unfilled h hb := by
    rw [Unfilled, hsub.sess]
    exact h hb

theorem Flow.removed (hr : Removed s s') (hown : OpConn s.ctx s.conn)
    (hunfilled : b = true → Unfilled s.conn.sess) : Flow env ⟨[], b, s⟩ ⟨[], b, s'⟩ where
  id := hr.id
  grows := hr.grows
  others o d hd ho := by
    rw [hr.ops, if_neg]
    intro hp
    rw [(hown.owner o).mpr hp] at ho
    exact hd (Option.some.inj ho).symm
  cnt := by
    rw [hr.recordCnt, hr.records]
    simp only [List.length_append, List.length_map]
    omega
  slots := by
    refine ⟨((if b then s.conn.sess.currentReadRecord.toList else []).map Record.slot), ?_, fun hg => ?_⟩
    · have hheld : heldWith b s'.ctx s'.conn.sess = [] := by
        cases b <;> rw [hr.sess] <;> rfl
      simp only [Point.slots, hheld, hr.records, List.perm_iff_count]
      intro x
      simp only [heldWith, List.map_append, List.count_append, List.append_nil, List.nil_append]
      omega
    · cases b with
      | false => rfl
      | true =>
        have hclear : (Event.clear s.conn).Accounted env :=
          hg _ (by rw [hr.trace]; exact List.mem_cons_of_mem _ List.mem_cons_self)
        cases hcur : s.conn.sess.currentReadRecord with
        | none => rfl
        | some r => exact absurd (hclear r hcur) (hunfilled rfl r hcur)
  waits _ o r ho := by
    rw [hr.sess] at ho
    cases ho
  unfilled _ _ r hcur := by
    rw [hr.sess] at hcur
    cases hcur

/-! ### Reading a record -/

theorem Waits.data_none (h : Waits s.ctx s.conn.sess) (hw : s.conn.sess.waitingCrypto = false)
    (o : OpId) (ho : s.conn.sess.pendingPkaOp = some o) : (s.ctx.ops o).data = none := by
  cases hd : (s.ctx.ops o).data with
  | none => rfl
  | some r => exact absurd ((h o r ho hd).2.symm.trans hw) nofun

theorem ReadOutcome.flow (ho : ReadOutcome env r s s') {rest : Nat}
    (hcall : .read s.conn r rest s.ctx.ringRoom ∈ s.ctx.trace) (hop : OpFacts (s.among others))
    (hw : s.conn.sess.waitingCrypto = false) (hwait : Waits s.ctx s.conn.sess)
    (hunfilled : b = true → Unfilled s.conn.sess)
    (hdec : ∀ e ∈ s'.ctx.trace, e.Decrypts env) : Flow env ⟨[r.slot], b, s⟩ ⟨[], b, s'⟩ := by
  have hcore : OpCtx s.ctx := hop.core
  have hdata := hwait.data_none hw
  have hread : ∀ {t : St}, s.ctx.trace <:+ t.ctx.trace → (∀ e ∈ t.ctx.trace, e.Accounted env) →
      retransmits s.conn.sess r = false → usable env s.conn.sess r = true
        ∧ refuses env s.conn.sess r = false
        ∧ (byteAt r.data 0 = ContentType.handshake.code → s.ctx.ringRoom = true) := by
    intro t hg hacc hnew
    rcases hacc _ (hg.subset hcall) with hre | h
    · rw [hnew] at hre
      cases hre
    · exact h
  have hstill : ∀ {t : St}, Frame s t → Returns [] s.ctx t.ctx → Flow env ⟨[], b, s⟩ ⟨[], b, t⟩ :=
    fun hf hret => .still hcore hf.toSendFrame hret
  -- the state may change because no ClientHello waits
  have hmoved : ∀ {t : St}, Frame s t → ∀ t' : St, t'.ctx = t.ctx → t'.conn.id = t.conn.id →
      t'.conn.sess.currentReadRecord = t.conn.sess.currentReadRecord →
      t'.conn.sess.recvQ = t.conn.sess.recvQ →
      t'.conn.sess.pendingPkaOp = t.conn.sess.pendingPkaOp → Flow env ⟨[], b, t⟩ ⟨[], b, t'⟩ := by
    intro t hf t' hctx hid hcur hq hp
    have hp' : t'.conn.sess.pendingPkaOp = s.conn.sess.pendingPkaOp :=
      hp.trans hf.pendingPkaOp
    exact .same hid (hctx ▸ List.suffix_refl _) (by rw [hctx]) (by rw [hctx]) (by rw [hctx]) hcur hq hp
      fun _ => .moved hdata (by rw [hctx]; exact hcore.same hf.ops) hp'
  cases ho with
  | dropped hf fate =>
    cases fate with
    | returned hret => exact .frame [] hcore hf.toSendFrame hret (.refl _) fun _ => rfl
    | lost hret hnew why =>
      refine .frame [r.slot] hcore hf.toSendFrame hret (.refl _) fun hacc => ?_
      obtain ⟨huse, -, hroom⟩ := hread hf.grows hacc hnew
      rcases why with hno | ⟨hcode, hno⟩
      · rw [huse] at hno
        cases hno
      · rw [hroom hcode] at hno
        cases hno
    | twice hret hnew hnone =>
      rcases hdec _ (hf.grows.subset hcall) with hre | hsome
      · rw [hnew] at hre
        cases hre
      · exact absurd hnone hsome
  | hello _ hst _ hf _ hsub hslot hret hret' =>
    have hop1 := hop.frame hf.toSendFrame
    have hv := OpView.of_core hf.sess
    have hst1 := hv.handshakeState.trans hst
    have hsubmits : Flow env ⟨_, b, _⟩ ⟨[], b, s'⟩ := .submits hop1.core hsub hret'
      (hop1.own.idle hst1 (hv.waitingCrypto.trans hw)) fun _ => hst1
    have hall := ((hstill hf hret).carry [_]).trans hsubmits
    exact hslot ▸ hall
  | alert _ _ hf hr hret =>
    have hr := removeSession_removed hr
    have hfirst : Flow env ⟨[r.slot], b, s⟩ ⟨[], b, _⟩ :=
      .frame [] hcore hf.toSendFrame hret (.refl _) fun _ => rfl
    exact hfirst.trans (.removed hr (hop.frame hf.toSendFrame).own (hfirst.unfilled hunfilled))
  | @cipherSpec s1 _ _ _ _ hf hf' hret hret' =>
    have hmove := hmoved hf (changeSpec s1) rfl rfl rfl rfl rfl
    have hlast : Flow env ⟨[r.slot], b, (changeSpec s1)⟩ ⟨[], b, s'⟩ :=
      .frame [] (hcore.kept hf.ops) hf'.toSendFrame hret' (.refl _) fun _ => rfl
    exact (((hstill hf hret).trans hmove).carry [r.slot]).trans hlast
  | @finished s1 _ _ _ _ _ _ hf hf' hret hret' =>
    have hmove := hmoved hf (finishHandshake s1) rfl rfl rfl rfl rfl
    have hlast : Flow env ⟨[r.slot], b, (finishHandshake s1)⟩ ⟨[], b, s'⟩ :=
      .frame [] (hcore.kept hf.ops) hf'.toSendFrame hret' (.refl _) fun _ => rfl
    exact (((hstill hf hret).trans hmove).carry [r.slot]).trans hlast
  | @refused s1 s2 s3 _ r1 hrd hin hst hvd hf hws hf' hr hret hret' =>
    have hr := removeSession_removed hr
    have hnew : retransmits s.conn.sess r = false := by
      refine decide_eq_false fun h => ?_
      exact absurd (h.2.symm.trans hrd.code) (by decide)
    have hyes : refuses env s.conn.sess r = true := by
      simp [refuses, hrd.opened, hrd.version, hrd.recordType, hin, hst, hvd]
    have hlose : Flow env ⟨[r.slot], b, s⟩ ⟨[], b, s1⟩ := by
      refine .frame [r.slot] hcore hf.toSendFrame hret (.refl _) fun hacc => ?_
      obtain ⟨-, hno, -⟩ := hread hf.grows hacc hnew
      rw [hyes] at hno
      cases hno
    have hmove := hlose.trans (hmoved hf (finishHandshake s1) rfl rfl rfl rfl rfl)
    have hop1 : OpFacts ((finishHandshake s1).among others) :=
      (hop.frame hf.toSendFrame).moved rfl rfl rfl rfl rfl ⟨nofun, nofun⟩
    have hend : ∀ {t : St}, OpFacts (t.among others) → (b = true → Unfilled t.conn.sess) →
        Frame t s3 → Returns [] t.ctx s3.ctx → Flow env ⟨[], b, t⟩ ⟨[], b, s'⟩ := by
      intro t hopt hut hft hrt
      have hstill : Flow env ⟨[], b, t⟩ ⟨[], b, s3⟩ := .still hopt.core hft.toSendFrame hrt
      exact hstill.trans (.removed hr (hopt.frame hft.toSendFrame).own (hstill.unfilled hut))
    have hu := hmove.unfilled hunfilled
    rcases removeHws_cases hws with ⟨-, rfl⟩ | ⟨-, hrem⟩
    · exact hmove.trans (hend hop1 hu hf' hret')
    · have hfirst : Flow env ⟨[], b, _⟩ ⟨[], b, s2⟩ := .removed hrem hop1.own hu
      exact (hmove.trans hfirst).trans
        (hend (hop1.removed hrem) (hfirst.unfilled hu) hf' hret')

theorem processReadRecord_flow {rest : Nat} {ret : Int}
    (h : processReadRecord env rest r s = .ok (ret, s')) (hop : OpFacts (s.among others))
    (hw : s.conn.sess.waitingCrypto = false) (hwait : Waits s.ctx s.conn.sess)
    (hunfilled : b = true → Unfilled s.conn.sess)
    (hdec : ∀ e ∈ s'.ctx.trace, e.Decrypts env) : Flow env ⟨[r.slot], b, s⟩ ⟨[], b, s'⟩ := by
  have hop' : OpFacts ((reading rest r s).among others) :=
    ((readRule_opFacts.call rest r s).carries (fun _ _ => trivial) others hop).2
  have hcall : Flow env ⟨[], b, s⟩ ⟨[], b, (reading rest r s)⟩ :=
    .same rfl (List.suffix_cons _ _) rfl rfl rfl rfl rfl rfl fun hw => hw
  have hout : Flow env ⟨[r.slot], b, (reading rest r s)⟩ ⟨[], b, s'⟩ :=
    (processReadRecord_outcome h hw).flow List.mem_cons_self hop' hw hwait hunfilled hdec
  exact (hcall.carry [r.slot]).trans hout

/-! ### A round of reassembly, and the queue -/

theorem currentRecord_flow {pkt : Bytes} (h : currentRecord pkt s = .ok (r, s'))
    (hcore : OpCtx s.ctx) : Flow env ⟨[], true, s⟩ ⟨[r.slot], false, s'⟩ := by
  rcases currentRecord_cases h with ⟨hcur, rfl⟩ | ⟨hcur, -, hf, hpool, hcnt, -⟩
  · refine ⟨rfl, List.suffix_refl _, fun _ _ _ _ => rfl, rfl, ⟨[], ?_, fun _ => rfl⟩, fun h => h, nofun⟩
    simp only [Point.slots, heldWith, hcur, List.perm_iff_count]
    intro x
    simp only [Option.toList_some, List.map_append, List.count_append, List.map_cons, if_true,
      Bool.false_eq_true, if_false, List.map_nil, List.count_nil]
    omega
  · have hf := hf.toSendFrame
    have hops := hcore.same hf.ops
    refine ⟨hf.id, hf.grows, fun o _ _ _ => congrFun hops o, ?_, ⟨[], ?_, fun _ => rfl⟩,
      fun hw => hw.frame hcore hf, nofun⟩
    · show s'.ctx.freeRecordCnt - s'.ctx.recordPool.length = s.ctx.freeRecordCnt - _
      rw [hpool, hcnt, List.length_cons]
      omega
    · have hq := hf.recvQ
      have hp := hf.pendingPkaOp
      simp only [Point.slots, heldWith, pendingRecord, hcur, hq, hp, hops, hpool, List.append_nil]
      exact .refl _

theorem Flow.queues {hand' : List Nat} {b' : Bool} (cur : Option Record) (q : List Record)
    (hslots : (hand' ++ ((if b' then cur.toList else []) ++ q).map Record.slot).Perm
      (hand ++ ((if b then s.conn.sess.currentReadRecord.toList else []) ++ s.conn.sess.recvQ).map
        Record.slot))
    (hcur : b' = true → ∀ r, cur = some r → r.data.length ≠ r.length) :
    Flow env ⟨hand, b, s⟩
      ⟨hand', b', (s.mapSess fun e => { e with currentReadRecord := cur, recvQ := q })⟩ where
  id := rfl
  grows := List.suffix_refl _
  others _ _ _ _ := rfl
  cnt := rfl
  slots := by
    refine ⟨[], ?_, fun _ => rfl⟩
    rw [List.perm_iff_count]
    intro x
    have hx := hslots.count_eq x
    simp only [Point.slots, heldWith, pendingRecord, St.mapSess, List.map_append, List.count_append,
      List.append_nil] at hx ⊢
    omega
  waits h := h
  unfilled _ := hcur

theorem takeRecord_flow {rest : Nat} (h : takeRecord env rest r s = .ok s')
    (hop : OpFacts (s.among others)) (hwait : Waits s.ctx s.conn.sess)
    (hdec : ∀ e ∈ s'.ctx.trace, e.Decrypts env) : Flow env ⟨[r.slot], false, s⟩ ⟨[], false, s'⟩ := by
  rcases takeRecord_cases h with ⟨-, rfl⟩ | ⟨hw, ret, hread⟩
  · refine .queues s.conn.sess.currentReadRecord (s.conn.sess.recvQ ++ [r]) ?_ nofun
    rw [List.perm_iff_count]
    intro x
    simp only [Bool.false_eq_true, if_false, List.nil_append, List.map_append, List.map_cons,
      List.map_nil, List.count_append]
    omega
  · exact processReadRecord_flow hread hop hw hwait nofun hdec

theorem newRecordRound_flow {pkt pkt' : Bytes} (h : newRecordRound env pkt s = .ok (pkt', s'))
    (hop : OpFacts (s.among others)) (hwait : Waits s.ctx s.conn.sess)
    (hdec : ∀ e ∈ s'.ctx.trace, e.Decrypts env) : Flow env ⟨[], true, s⟩ ⟨[], true, s'⟩ := by
  obtain ⟨r, s1, hcur, -, hcases⟩ := newRecordRound_cases h
  have h1 : Flow env ⟨[], true, s⟩ ⟨[r.slot], false, s1⟩ := currentRecord_flow hcur hop.core
  have hop1 : OpFacts (s1.among others) := by
    rcases currentRecord_cases hcur with ⟨-, rfl⟩ | ⟨-, -, hf, -⟩
    · exact hop
    · exact hop.frame hf.toSendFrame
  rcases hcases with ⟨hlen, rfl⟩ | ⟨-, s2, hs2, rfl⟩
  · refine h1.trans (.queues (some (filled r pkt)) s1.conn.sess.recvQ (.refl _) fun _ q hq => ?_)
    cases hq
    exact hlen
  · -- while the record is read, it still is the one under reassembly
    have h2 : Flow env ⟨[r.slot], false, s1⟩
        ⟨[r.slot], false, (setCurrent (some (filled r pkt)) s1)⟩ :=
      .queues _ s1.conn.sess.recvQ (.refl _) nofun
    have h3 : Flow env ⟨[], false, (setCurrent (some (filled r pkt)) s1)⟩
        ⟨[], false, (completing (filled r pkt) (setCurrent (some (filled r pkt)) s1))⟩ :=
      .same rfl (List.suffix_cons _ _) rfl rfl rfl rfl rfl rfl fun hw => hw
    have hop3 : OpFacts ((completing (filled r pkt) (setCurrent (some (filled r pkt)) s1)).among
        others) :=
      ((readRule_opFacts.complete _ _).carries (fun _ _ => trivial) others
        (hop1.queues (some (filled r pkt)) s1.conn.sess.recvQ)).2
    have h4 := takeRecord_flow hs2 hop3 (h1.waits hwait) hdec
    have h5 : Flow env ⟨[], false, s2⟩ ⟨[], true, (setCurrent none s2)⟩ :=
      .queues none s2.conn.sess.recvQ (.refl _) fun _ _ hr => absurd hr nofun
    exact h1.trans <| h2.trans <| (h3.carry [r.slot]).trans <| h4.trans h5

theorem queuedRecord_flow {q : List Record} {ret : Int} (hw : s.conn.sess.waitingCrypto = false)
    (hq : s.conn.sess.recvQ = r :: q)
    (h : processReadRecord env 0 r (s.mapSess fun e => { e with recvQ := q }) = .ok (ret, s'))
    (hop : OpFacts (s.among others)) (hwait : Waits s.ctx s.conn.sess)
    (hunfilled : Unfilled s.conn.sess) (hdec : ∀ e ∈ s'.ctx.trace, e.Decrypts env) :
    Flow env ⟨[], true, s⟩ ⟨[], true, s'⟩ := by
  have hpop : Flow env ⟨[], true, s⟩ ⟨[r.slot], true, (s.mapSess fun e => { e with recvQ := q })⟩ := by
    refine .queues s.conn.sess.currentReadRecord q ?_ fun _ => hunfilled
    rw [hq, List.perm_iff_count]
    intro x
    simp only [List.nil_append, List.map_append, List.map_cons, List.count_append, List.count_cons,
      List.count_nil]
    omega
  exact hpop.trans (processReadRecord_flow h (hop.queues s.conn.sess.currentReadRecord q) hw hwait
    (fun _ => hunfilled) hdec)

/-! ### Results and the server flight -/

theorem Flow.settled (hid : s'.conn.id = s.conn.id) (hgrows : s.ctx.trace <:+ s'.ctx.trace)
    (hothers : ∀ o d, d ≠ s.conn.id → (s.ctx.ops o).sess = some d → s'.ctx.ops o = s.ctx.ops o)
    (hret : Returns ((pendingRecord s.ctx s.conn.sess).toList.map Record.slot) s.ctx s'.ctx)
    (hcur : s'.conn.sess.currentReadRecord = s.conn.sess.currentReadRecord)
    (hq : s'.conn.sess.recvQ = s.conn.sess.recvQ)
    (hdata : ∀ i, s'.conn.sess.pendingPkaOp = some i → (s'.ctx.ops i).data = none) :
    Flow env ⟨[], b, s⟩ ⟨[], b, s'⟩ where
  id := hid
  grows := hgrows
  others := hothers
  cnt := hret.balance
  slots := by
    have hnone : pendingRecord s'.ctx s'.conn.sess = none := by
      cases hp : s'.conn.sess.pendingPkaOp with
      | none => rw [pendingRecord, hp]; rfl
      | some i => rw [pendingRecord, hp]; exact hdata i hp
    refine ⟨[], ?_, fun _ => rfl⟩
    rw [List.perm_iff_count]
    intro x
    have hp := hret.pool.count_eq x
    simp only [Point.slots, heldWith, hnone, hcur, hq, Option.toList_none, List.append_nil,
      List.map_append, List.count_append, List.nil_append] at hp ⊢
    omega
  waits _ i r hi hr := by
    rw [hdata i hi] at hr
    cases hr
  unfilled h hb := by
    rw [Unfilled, hcur]
    exact h hb

theorem Flow.answered {u : St} (hown : OpConn s.ctx s.conn)
    (hpend : s.conn.sess.pendingPkaOp = some o) (hid : u.conn.id = s.conn.id)
    (hgrows : s.ctx.trace <:+ u.ctx.trace)
    (hothers : ∀ i d, d ≠ s.conn.id → (s.ctx.ops i).sess = some d → u.ctx.ops i = s.ctx.ops i)
    (hret : Returns ((s.ctx.ops o).data.toList.map Record.slot) s.ctx u.ctx)
    (hcur : u.conn.sess.currentReadRecord = s.conn.sess.currentReadRecord)
    (hq : u.conn.sess.recvQ = s.conn.sess.recvQ)
    (hdata : ∀ i, u.conn.sess.pendingPkaOp = some i → (u.ctx.ops i).data = none) :
    Flow env ⟨[], b, s⟩ ⟨[], b, (finishCrypto o u)⟩ := by
  have hops : ∀ i, (finishCrypto o u).ctx.ops i = if i = o then {} else u.ctx.ops i := fun _ => rfl
  refine .settled hid hgrows (fun i d hd hi => ?_) ?_ hcur hq fun i hi => ?_
  · rw [hops, if_neg, hothers i d hd hi]
    rintro rfl
    rw [(hown.owner i).mpr hpend] at hi
    exact hd (Option.some.inj hi).symm
  · rw [pendingRecord, hpend]
    exact ⟨hret.pool, hret.cnt⟩
  · rw [hops]
    split
    · rfl
    · exact hdata i hi

theorem answerClientHello_flow {ch : ClientHello} {t u : St} (hop : OpFacts (s.among others))
    (hpend : s.conn.sess.pendingPkaOp = some o) (hdata : (s.ctx.ops o).data = some r)
    (hf : SendFrame (handleAfterEcdheKeyGen (clearPending s)) t)
    (ha : answerClientHello env r ch t = .ok u) (hret : Returns [] s.ctx u.ctx) :
    Flow env ⟨[], b, s⟩ ⟨[], b, (finishCrypto o (deleteRecord r u))⟩ := by
  have hgrows : s.ctx.trace <:+ u.ctx.trace := answerClientHello_trace ha ▸ hf.grows
  have hret' : Returns ((s.ctx.ops o).data.toList.map Record.slot) s.ctx (deleteRecord r u).ctx := by
    rw [hdata]
    exact hret.trans (deleteRecord_returns r u)
  obtain ⟨off, s1, s2, -, hf', hreq, rfl⟩ := answerClientHello_cases ha
  have hcore : OpCtx s.ctx := hop.core
  have hkept : OpsKept s.ctx s1.ctx := OpsKept.trans hf.ops hf'.ops
  have hops1 : s1.ctx.ops = s.ctx.ops := hcore.same hkept
  have hid1 : s1.conn.id = s.conn.id := hf'.id.trans hf.id
  have hcur1 : s1.conn.sess.currentReadRecord = s.conn.sess.currentReadRecord :=
    hf'.currentReadRecord.trans hf.currentReadRecord
  have hq1 : s1.conn.sess.recvQ = s.conn.sess.recvQ :=
    hf'.recvQ.trans hf.recvQ
  have hpend1 : s1.conn.sess.pendingPkaOp = none :=
    hf'.pendingPkaOp.trans hf.pendingPkaOp
  rcases hreq with ⟨o', hrej⟩ | ⟨o', hsub⟩
  · have hops2 : s2.ctx.ops = s.ctx.ops := ((hcore.kept hkept).same hrej.frame.ops).trans hops1
    have hcur2 := hrej.frame.currentReadRecord.trans hcur1
    have hq2 := hrej.frame.recvQ.trans hq1
    have hpend2 := hrej.frame.pendingPkaOp.trans hpend1
    refine .answered hop.own hpend (hrej.frame.id.trans hid1) hgrows (fun i _ _ _ => congrFun hops2 i)
      hret' hcur2 hq2 fun i hi => ?_
    exact absurd (hi.symm.trans hpend2) nofun
  · have hmem : o' ∈ s1.ctx.opPool := hsub.pool ▸ List.mem_cons_self
    have hfree : (s.ctx.ops o').sess = none := by
      rw [← hops1]
      exact (hcore.kept hkept).pool o' hmem
    have hcur2 := (congrArg Session.currentReadRecord hsub.sess :).trans hcur1
    have hq2 := (congrArg Session.recvQ hsub.sess :).trans hq1
    have hpend2 : s2.conn.sess.pendingPkaOp = some o' := (congrArg Session.pendingPkaOp hsub.sess :)
    refine .answered hop.own hpend (hsub.id.trans hid1) hgrows (fun i d _ hi => ?_) hret' hcur2 hq2
      fun i hi => ?_
    · have hne : i ≠ o' := by
        rintro rfl
        exact absurd (hfree.symm.trans hi) nofun
      exact (hsub.ops i hne).trans (congrFun hops1 i)
    · obtain rfl : o' = i := Option.some.inj (hpend2.symm.trans hi)
      exact (congrArg Op.data hsub.op :)

theorem Waits.settled (h : Waits s.ctx s.conn.sess) (hst : s.conn.sess.handshakeState ≠ .helloRequest)
    (ho : s.conn.sess.pendingPkaOp = some o) : (s.ctx.ops o).data = none := by
  cases hd : (s.ctx.ops o).data with
  | none => rfl
  | some r => exact absurd (h o r ho hd).1 hst

theorem getProcessedCrypto_flow (h : getProcessedCrypto env s = .ok s')
    (hop : OpFacts (s.among others)) (hwait : Waits s.ctx s.conn.sess) :
    Flow env ⟨[], b, s⟩ ⟨[], b, s'⟩ := by
  have hpending : ∀ {o}, s.conn.sess.completedCrypto = true → s.conn.sess.pkaOp = some o →
      s.conn.sess.pendingPkaOp = some o := by
    intro o hc hpka
    obtain ⟨o', hp, hpend⟩ := hop.own.completed hc
    rw [hpka] at hp
    rw [hpend, hp]
  have hnothing : ∀ {o}, (s.ctx.ops o).data = none →
      Returns ((s.ctx.ops o).data.toList.map Record.slot) s.ctx s.ctx := by
    intro o hd
    rw [hd]
    exact .refl _
  cases getProcessedCrypto_outcome hop.core.hello h with
  | idle => exact .refl _
  | keyGen hc hpka _ hdata _ hf ha hret =>
    exact answerClientHello_flow hop (hpending hc hpka) hdata hf ha hret
  | sharedSecret hc hpka hst =>
    have hpend := hpending hc hpka
    exact .answered hop.own hpend rfl (List.suffix_refl _) (fun _ _ _ _ => rfl)
      (hnothing (hwait.settled (by rw [hst]; exact nofun) hpend)) rfl rfl fun _ hi => absurd hi nofun
  | signature hc hpka hst =>
    have hpend := hpending hc hpka
    exact .answered hop.own hpend rfl (List.suffix_refl _) (fun _ _ _ _ => rfl)
      (hnothing (hwait.settled (by rw [hst]; exact nofun) hpend)) rfl rfl fun _ hi => absurd hi nofun

theorem RemainOutcome.flow (ho : RemainOutcome env s s') (hop : OpFacts (s.among others))
    (hwait : Waits s.ctx s.conn.sess) : Flow env ⟨[], b, s⟩ ⟨[], b, s'⟩ := by
  have hgrows := ho.grows
  have hcore : OpCtx s.ctx := hop.core
  have hsettled : s.conn.sess.handshakeState ≠ .helloRequest → ∀ {t : St}, Returns [] s.ctx t.ctx →
      Returns ((pendingRecord s.ctx s.conn.sess).toList.map Record.slot) s.ctx t.ctx := by
    intro hst t hret
    have hnone : pendingRecord s.ctx s.conn.sess = none := by
      cases hp : s.conn.sess.pendingPkaOp with
      | none => rw [pendingRecord, hp]; rfl
      | some i => rw [pendingRecord, hp]; exact hwait.settled hst hp
    rw [hnone]
    exact hret
  cases ho with
  | idle => exact .refl _
  | @certificate s1 s2 s' hst hk hf hf' hreq hret =>
    have hall := hf.trans (hf'.setBack (hf.handshakeState.trans hst) (by simp))
    have hops2 : s2.ctx.ops = s.ctx.ops := hcore.same hall.ops
    have hcore2 : OpCtx s2.ctx := hcore.kept hall.ops
    have hcur2 : s2.conn.sess.currentReadRecord = _ := hall.currentReadRecord
    have hq2 : s2.conn.sess.recvQ = _ := hall.recvQ
    have hpend2 : s2.conn.sess.pendingPkaOp = none :=
      hall.pendingPkaOp.trans (hop.own.keyed hst hk)
    have hret' := hsettled (by rw [hst]; simp) hret
    rcases hreq with ⟨o, hrej⟩ | ⟨o, hsub⟩
    · have hv := hrej.frame.sess
      have hops3 : s'.ctx.ops = s.ctx.ops := (OpCtx.same hcore2 hrej.frame.ops).trans hops2
      refine .settled (hrej.frame.id.trans hall.id) hgrows (fun i _ _ _ => congrFun hops3 i) hret'
        ((congrArg Session.currentReadRecord hv :).trans hcur2) ((congrArg Session.recvQ hv :).trans hq2)
        fun i hi => ?_
      have hpend3 := (congrArg Session.pendingPkaOp hv :).trans hpend2
      exact absurd (hi.symm.trans hpend3) (by simp)
    · have hv := hsub.sess
      refine .settled (hsub.id.trans hall.id) hgrows (fun i d _ hi => ?_) hret'
        ((congrArg Session.currentReadRecord hv :).trans hcur2) ((congrArg Session.recvQ hv :).trans hq2)
        fun i hi => ?_
      · have hne : i ≠ o := by
          rintro rfl
          have hmem : i ∈ s2.ctx.opPool := hsub.pool ▸ List.mem_cons_self
          have hfree := hcore2.pool i hmem
          rw [hops2] at hfree
          exact absurd (hfree.symm.trans hi) (by simp)
        exact (hsub.ops i hne).trans (congrFun hops2 i)
      · have hpend3 : s'.conn.sess.pendingPkaOp = some o := (congrArg Session.pendingPkaOp hv :)
        obtain rfl : o = i := Option.some.inj (hpend3.symm.trans hi)
        exact (congrArg Op.data hsub.op :)
  | @finished s1 s2 port hst hsig hf hf' hret =>
    have hall := hf.trans (hf'.setBack (hf.handshakeState.trans hst) (by simp))
    have hops2 : s2.ctx.ops = s.ctx.ops := hcore.same hall.ops
    have hcore2 : OpCtx s2.ctx := hcore.kept hall.ops
    have hcur2 : s2.conn.sess.currentReadRecord = _ := hall.currentReadRecord
    have hq2 : s2.conn.sess.recvQ = _ := hall.recvQ
    have hpend2 : s2.conn.sess.pendingPkaOp = _ := hall.pendingPkaOp
    have hne : s.conn.sess.handshakeState ≠ .helloRequest := by rw [hst]; simp
    obtain ⟨k, hk, -⟩ := handleAppKeysCalculation_eq env s2
    rw [hk]
    generalize hu : handleVerifyDataCalculation env _ = u
    have hlast : Flow env ⟨[], b, u⟩ ⟨[], b, (sendKeyMeta env port u)⟩ := by
      refine .still ?_ (sendKeyMeta_frame env port u).toSendFrame (.quiet rfl rfl)
      rw [← hu]
      exact ⟨hcore2.nodup, hcore2.pool, hcore2.unowned, hcore2.hello⟩
    refine .trans ?_ hlast
    rw [← hu]
    refine .settled hall.id (hall.grows.trans (List.suffix_cons _ _)) (fun i _ _ _ => congrFun hops2 i)
      (hsettled hne ⟨hret.pool, hret.cnt⟩) hcur2 hq2 fun i hi => ?_
    have hi : s.conn.sess.pendingPkaOp = some i := hpend2.symm.trans hi
    exact (congrArg Op.data (congrFun hops2 i) :).trans (hwait.settled hne hi)
  | @pending s1 hst hfin hf hret =>
    have hops1 : s1.ctx.ops = s.ctx.ops := hcore.same hf.ops
    have hne : s.conn.sess.handshakeState ≠ .helloRequest := by rw [hst]; simp
    refine .settled hf.id hgrows (fun i _ _ _ => congrFun hops1 i) (hsettled hne hret)
      hf.currentReadRecord hf.recvQ fun i hi => ?_
    have hi : s.conn.sess.pendingPkaOp = some i :=
      hf.pendingPkaOp.symm.trans hi
    exact (congrArg Op.data (congrFun hops1 i) :).trans (hwait.settled hne hi)

/-! ### One connection among the others -/

/-- The slots are followed across a move on one connection, as long as every record decrypts. -/
structure Flows (env : Env) (s s' : St) : Prop where
  op : Carries (fun _ => True) OpFacts s s'
  flow : (∀ e ∈ s'.ctx.trace, e.Decrypts env) → ∀ others, OpFacts (s.among others) →
    Waits s.ctx s.conn.sess → Unfilled s.conn.sess → Flow env ⟨[], true, s⟩ ⟨[], true, s'⟩

theorem Flows.refl (s : St) : Flows env s s := ⟨.refl s, fun _ _ _ _ _ => .refl _⟩

theorem Flows.trans {s1 s2 s3 : St} (h1 : Flows env s1 s2) (h2 : Flows env s2 s3) :
    Flows env s1 s3 := by
  refine ⟨h1.op.trans h2.op, fun hdec others hop hwait hunfilled => ?_⟩
  have hfirst := h1.flow (fun e he => hdec e (h2.op.grows.subset he)) others hop hwait hunfilled
  have hop2 := (h1.op.carries (fun _ _ => trivial) others hop).2
  exact hfirst.trans (h2.flow hdec others hop2 (hfirst.waits hwait)
    (hfirst.unfilled (fun _ => hunfilled) rfl))

theorem Flows.removed (hr : Removed s s') : Flows env s s' :=
  ⟨readRule_opFacts.removed s s' hr, fun _ _ hop _ hu => .removed hr hop.own fun _ => hu⟩

theorem closed_flows (env : Env) : Closed env (Flows env) where
  refl := .refl
  trans := .trans
  tcp s f _ := ⟨mapTcp_opFacts s f, fun _ _ _ _ _ =>
    .same rfl (List.suffix_refl _) rfl rfl rfl rfl rfl rfl fun hw => hw⟩
  emits s x := ⟨emit_opFacts s x, fun _ _ _ _ _ =>
    .same rfl (List.suffix_refl _) rfl rfl rfl rfl rfl rfl fun hw => hw⟩
  host s f _ := ⟨mapTcp_opFacts s f, fun _ _ _ _ _ =>
    .same rfl (List.suffix_refl _) rfl rfl rfl rfl rfl rfl fun hw => hw⟩
  frame s s' hf := ⟨(closed_opFacts env).frame s s' hf, fun _ _ hop _ _ =>
    .still hop.core hf.toSendFrame hf.returns⟩
  crypto s s' h := ⟨(closed_opFacts env).crypto s s' h, fun _ _ hop hwait _ =>
    getProcessedCrypto_flow h hop hwait⟩
  removed _ _ _ hr := .removed hr
  remain s s' h := ⟨(closed_opFacts env).remain s s' h, fun _ _ hop hwait _ => h.flow hop hwait⟩
  round _ _ s s' h := ⟨(closed_opFacts env).round _ _ s s' h, fun hdec _ hop hwait _ =>
    newRecordRound_flow h hop hwait hdec⟩
  queued s s' r q ret hw hq h := ⟨(closed_opFacts env).queued s s' r q ret hw hq h,
    fun hdec _ hop hwait hunfilled => queuedRecord_flow hw hq h hop hwait hunfilled hdec⟩

end

/-! ### The whole worker -/

/-- The slots connection `c` holds. -/
def Sys.held (s : Sys) (c : ConnId) : List Nat := heldWith true s.ctx (s.conns c).sess

/-- Every slot is in one place at most, and the counter is the length of the free list. -/
structure Ledger (s : Sys) : Prop where
  shares : Shares s.ctx.recordPool s.held
  cnt : s.ctx.freeRecordCnt = s.ctx.recordPool.length
  waits : ∀ c, Waits s.ctx (s.conns c).sess
  unfilled : ∀ c, Unfilled (s.conns c).sess

section

variable {env : Env} {s s' : St} {others : ConnId → Conn} {c : ConnId}

theorem Flow.other (h : Flow env ⟨[], true, s⟩ ⟨[], true, s'⟩) (hop : OpFacts (s.among others))
    (hc : c ≠ s.conn.id) (o : OpId) (ho : (others c).sess.pendingPkaOp = some o) :
    s'.ctx.ops o = s.ctx.ops o := by
  have howner := (hop.conn c).owner o
  rw [hop.ids c, s.among_ne hc] at howner
  exact h.others o c hc (howner.mpr ho)

theorem Flow.held (h : Flow env ⟨[], true, s⟩ ⟨[], true, s'⟩) (hop : OpFacts (s.among others))
    (hc : c ≠ s.conn.id) : (s'.among others).held c = (s.among others).held c := by
  have hid : s'.conn.id = s.conn.id := h.id
  show heldWith true s'.ctx _ = heldWith true s.ctx _
  rw [s'.among_ne (hid ▸ hc), s.among_ne hc, heldWith, heldWith]
  congr 3
  cases ho : (others c).sess.pendingPkaOp with
  | none => rw [pendingRecord, pendingRecord, ho]; rfl
  | some o =>
    rw [pendingRecord, pendingRecord, ho]
    exact congrArg Op.data (h.other hop hc o ho)

theorem Flow.ledger (h : Flow env ⟨[], true, s⟩ ⟨[], true, s'⟩) (hop : OpFacts (s.among others))
    (hs : Ledger (s.among others)) : Ledger (s'.among others) := by
  have hid : s'.conn.id = s.conn.id := h.id
  have hself : (s'.among others).conns s.conn.id = s'.conn := hid ▸ s'.among_self
  have hwait := hs.waits s.conn.id
  have hunf := hs.unfilled s.conn.id
  rw [s.among_self] at hwait hunf
  refine ⟨?_, ?_, fun c => ?_, fun c => ?_⟩
  · obtain ⟨lost, hp, -⟩ := h.slots
    have hmove : (s'.ctx.recordPool ++ (s'.among others).held s.conn.id ++ lost).Perm
        (s.ctx.recordPool ++ (s.among others).held s.conn.id) := by
      rw [Sys.held, Sys.held, hself, s.among_self]
      exact hp
    exact hs.shares.move hmove fun c hc => h.held hop hc
  · have hcnt := h.cnt
    have hb : s.ctx.freeRecordCnt = s.ctx.recordPool.length := hs.cnt
    show s'.ctx.freeRecordCnt = s'.ctx.recordPool.length
    dsimp only at hcnt
    omega
  · by_cases hc : c = s.conn.id
    · rw [hc, hself]
      exact h.waits hwait
    · have hw := hs.waits c
      rw [s'.among_ne (hid ▸ hc)]
      rw [s.among_ne hc] at hw
      intro o r ho hd
      exact hw o r ho ((congrArg Op.data (h.other hop hc o ho)).symm.trans hd)
  · by_cases hc : c = s.conn.id
    · rw [hc, hself]
      exact h.unfilled (fun _ => hunf) rfl
    · have hu := hs.unfilled c
      rw [s.among_ne hc] at hu
      rw [s'.among_ne (hid ▸ hc)]
      exact hu

theorem Flows.carries (h : Flows env s s') :
    Carries (Event.Decrypts env) (fun s => OpFacts s ∧ Ledger s) s s' := by
  refine h.op.and fun hdec others _ hop _ hs => ?_
  have hwait := hs.waits s.conn.id
  have hunf := hs.unfilled s.conn.id
  rw [s.among_self] at hwait hunf
  exact (h.flow hdec others hop hwait hunf).ledger hop hs

end

section

variable {env : Env} {s s' : Sys} {c : ConnId} {o : OpId}

structure LedgerView (e e' : Session) : Prop where
  currentReadRecord : e'.currentReadRecord = e.currentReadRecord
  recvQ : e'.recvQ = e.recvQ
  pendingPkaOp : e'.pendingPkaOp = e.pendingPkaOp
  handshakeState : e'.handshakeState = e.handshakeState
  waitingCrypto : e'.waitingCrypto = e.waitingCrypto

theorem LedgerView.refl (e : Session) : LedgerView e e := ⟨rfl, rfl, rfl, rfl, rfl⟩

theorem Sys.held_congr (hv : LedgerView (s.conns c).sess (s'.conns c).sess)
    (hdata : ∀ o, (s'.ctx.ops o).data = (s.ctx.ops o).data) : s'.held c = s.held c := by
  obtain ⟨v1, v2, v3, -, -⟩ := hv
  have hpend : pendingRecord s'.ctx (s'.conns c).sess = pendingRecord s.ctx (s.conns c).sess := by
    rw [pendingRecord, pendingRecord, v3]
    congr 1
    funext o
    exact hdata o
  rw [Sys.held, Sys.held, heldWith, heldWith, v1, v2, hpend]

structure SameRecords (s s' : Sys) : Prop where
  view : ∀ c, LedgerView (s.conns c).sess (s'.conns c).sess
  data : ∀ o, (s'.ctx.ops o).data = (s.ctx.ops o).data
  pool : s'.ctx.recordPool = s.ctx.recordPool
  cnt : s'.ctx.freeRecordCnt = s.ctx.freeRecordCnt

theorem SameRecords.refl (s : Sys) : SameRecords s s := ⟨fun _ => .refl _, fun _ => rfl, rfl, rfl⟩

theorem SameRecords.held (h : SameRecords s s') : s'.held = s.held :=
  funext fun c => Sys.held_congr (h.view c) h.data

theorem SysQuiet.sameRecords (hq : SysQuiet s s') : SameRecords s s' := by
  obtain ⟨hconns, out, outside, hctx⟩ := hq
  refine ⟨fun c => ?_, fun o => by rw [hctx], by rw [hctx], by rw [hctx]⟩
  rw [hconns]
  exact .refl _

theorem Inserted.sameRecords (hi : Inserted c s s') : SameRecords s s' := by
  refine ⟨fun i => ?_, fun o => by rw [hi.ctx], by rw [hi.ctx], by rw [hi.ctx]⟩
  rw [(hi.sess i).2]
  exact .refl _

/- The PKA core writes results, and leaves everything the ledger is about alone. -/
theorem LedgerView.setConn {f : Session → Session} (hf : LedgerView (s.conns c).sess (f (s.conns c).sess))
    (i : ConnId) : LedgerView (s.conns i).sess ((s.setConn c f).conns i).sess := by
  by_cases hi : i = c
  · subst hi
    simpa [Sys.setConn] using hf
  · simpa [Sys.setConn, hi] using LedgerView.refl _

theorem submitted_sameRecords {priv : Operand} (hop : OpFacts s)
    (hs : handleSubmittedPka priv s = .ok s') : SameRecords s s' := by
  rcases handleSubmittedPka_cases hs with rfl | ⟨o, ring, c, -, -, -, hc, hconns, hctx⟩
  · exact .refl _
  have hpend : (s.conns c).sess.pendingPkaOp = some o := by
    rw [← (hop.conn c).owner o, hop.ids c]
    exact hc
  refine ⟨fun i => ?_, fun i => ?_, by rw [hctx]; rfl, by rw [hctx]; rfl⟩
  · rw [hconns]
    exact .setConn ⟨rfl, rfl, hpend.symm, rfl, rfl⟩ i
  · rw [hctx]
    by_cases hi : i = o <;> simp [Ctx.setOp, hi]

theorem completed_sameRecords {results : List Bytes} (hs : handleCompletedPka o results s = .ok s') :
    SameRecords s s' := by
  rcases handleCompletedPka_cases hs with rfl | ⟨c, -, hc, ⟨-, hconns, hctx⟩ | ⟨-, -, hconns, hctx⟩⟩
  · exact .refl _
  all_goals
    refine ⟨fun i => ?_, fun i => by rw [hctx], by rw [hctx], by rw [hctx]⟩
    rw [hconns]
    exact .setConn ⟨rfl, rfl, rfl, rfl, rfl⟩ i

theorem Ledger.same (h : Ledger s) (hs : SameRecords s s') : Ledger s' where
  shares := by
    rw [hs.held, hs.pool]
    exact h.shares
  cnt := by
    rw [hs.cnt, hs.pool]
    exact h.cnt
  waits c := by
    obtain ⟨-, -, v3, v4, v5⟩ := hs.view c
    intro o r ho hd
    rw [v4, v5]
    exact h.waits c o r (v3 ▸ ho) (hs.data o ▸ hd)
  unfilled c := by
    rw [Unfilled, (hs.view c).currentReadRecord]
    exact h.unfilled c

theorem kept_ledger (env : Env) : Kept env (Event.Decrypts env) fun s => OpFacts s ∧ Ledger s where
  ids _ h := h.1.ids
  quiet _ _ hq h := ⟨h.1.quiet hq, h.2.same hq.sameRecords⟩
  inserted _ _ _ hi h := ⟨h.1.inserted hi, h.2.same hi.sameRecords⟩
  closed := (closed_flows env).map (fun _ _ h => h.carries) .trans
  removed _ _ hr := (Flows.removed hr).carries
  submits _ _ _ hs h := ⟨h.1.submitted hs, h.2.same (submitted_sameRecords h.1 hs)⟩
  completes _ _ _ _ hs h := ⟨h.1.completes hs, h.2.same (completed_sameRecords hs)⟩

theorem initial_ledger (n ringCnt : Nat) : Ledger (initial n ringCnt) where
  shares := ⟨fun _ => by
    show (List.range (3 * n) ++ []).Nodup
    rw [List.append_nil]
    exact List.nodup_range, fun _ _ _ _ hx => absurd hx List.not_mem_nil⟩
  cnt := by
    show (3 * n : Int) = (List.range (3 * n)).length
    rw [List.length_range]
    rfl
  waits _ _ _ h := absurd h nofun
  unfilled _ _ h := absurd h nofun

end

/-- As long as every record that is read decrypts, no record is in the free list twice, and
`free_record_cnt` is the length of that list. -/
theorem recordPool_nodup (env : Env) (n ringCnt : Nat) (inputs : List Input) (s : Sys)
    (hrun : run (step env) inputs (initial n ringCnt) = .ok s)
    (hdec : ∀ e ∈ s.ctx.trace, e.Decrypts env) :
    s.ctx.recordPool.Nodup ∧ s.ctx.freeRecordCnt = s.ctx.recordPool.length := by
  have h := ((kept_ledger env).holds hrun hdec ⟨initial_opFacts n ringCnt, initial_ledger n ringCnt⟩).2
  exact ⟨(List.nodup_append.mp (h.shares.nodup 0)).1, h.cnt⟩

theorem recordPool_nodup_handshake :
    ∃ s, run (step sampleEnv) sampleHandshake (initial 2 8) = .ok s
      ∧ s.ctx.recordPool = [2, 3, 4, 5, 1, 0] ∧ s.ctx.freeRecordCnt = 6 := by
  obtain ⟨s, hs, hg, hp⟩ := endsIn_ok
    (fun s : Sys => (∀ e ∈ s.ctx.trace, e.Decrypts sampleEnv)
      ∧ s.ctx.recordPool = [2, 3, 4, 5, 1, 0])
    (run (step sampleEnv) sampleHandshake (initial 2 8)) (by decide +kernel)
  exact ⟨s, hs, hp, (recordPool_nodup sampleEnv 2 8 _ s hs hg).2.trans (by rw [hp]; rfl)⟩

def rejectingEnv : Env :=
  { sampleEnv with crypto := { sampleCrypto with gcmDecrypt := fun _ _ _ _ _ => none } }

/- The record with the Finished of the client does not decrypt, and is put back twice. -/
theorem undecryptedRecord_twice :
    ∃ s, run (step rejectingEnv) sampleHandshake (initial 2 8) = .ok s
      ∧ ¬ s.ctx.recordPool.Nodup := by
  obtain ⟨s, hs, h⟩ := endsIn_ok (fun s : Sys => ¬ s.ctx.recordPool.Nodup)
    (run (step rejectingEnv) sampleHandshake (initial 2 8)) (by decide +kernel)
  exact ⟨s, hs, h⟩

end Xtls.Nic
