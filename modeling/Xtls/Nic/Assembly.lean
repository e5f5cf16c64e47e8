import Xtls.Lib.Labelled
import Xtls.Nic.Order
import Xtls.Nic.Placement

/-!
# Reassembly of records

`process_new_record` (`ssl.c` 748-851) collects the bytes of a record in `record->buf`, from the offset that
`init_record` gives `record->data` (`ssl.c` 566).  The length that the header declares is checked against the
size of the whole buffer, although 13 bytes of the buffer lie before the content.
-/

namespace Xtls.Nic

/-- A record under reassembly: the bytes so far start with the header, which tells the length. -/
structure Opened (r : Record) : Prop where
  header : recordHeaderSize ≤ r.data.length
  filling : r.data.length ≤ r.length
  length : r.length = (be16 r.data 3).toNat + recordHeaderSize
  declared : (be16 r.data 3).toNat < maxRecordSize
  fresh : r = { slot := r.slot, id := r.id, length := r.length, data := r.data }

/-- A record that is complete. -/
structure Received (r : Record) : Prop extends Opened r where
  full : r.data.length = r.length

structure Collects (e : Session) : Prop where
  current : ∀ r, e.currentReadRecord = some r → Opened r
  queued : ∀ r ∈ e.recvQ, Received r

structure Assembled (s : Sys) : Prop where
  conns : ∀ c, Collects (s.conns c).sess
  read : ∀ conn r rest room, .read conn r rest room ∈ s.ctx.trace → Received r

section

variable {env : Env} {s s' : St} {others : ConnId → Conn} {r : Record} {rest : Nat} {pkt pkt' : Bytes}

theorem Collects.same {e e' : Session} (h : Collects e) (hcur : e'.currentReadRecord = e.currentReadRecord)
    (hq : e'.recvQ = e.recvQ) : Collects e' :=
  ⟨fun r hr => h.current r (hcur ▸ hr), fun r hr => h.queued r (hq ▸ hr)⟩

theorem SendFrame.collects (hf : SendFrame s s') (h : Collects s.conn.sess) : Collects s'.conn.sess :=
  h.same hf.currentReadRecord hf.recvQ

theorem Submits.collects {fill : Op} {o : OpId} (hsub : Submits fill o s s') (h : Collects s.conn.sess) :
    Collects s'.conn.sess :=
  h.same (by rw [hsub.sess]) (by rw [hsub.sess])

theorem request_collects {fill : Op} (hreq : (∃ o, Rejects o s s') ∨ ∃ o, Submits fill o s s')
    (h : Collects s.conn.sess) : Collects s'.conn.sess := by
  rcases hreq with ⟨o, hrej⟩ | ⟨o, hsub⟩
  · exact hrej.frame.collects h
  · exact hsub.collects h

theorem Removed.collects (hr : Removed s s') : Collects s'.conn.sess := by
  rw [hr.sess]
  exact ⟨fun _ h => absurd h nofun, fun _ h => absurd h List.not_mem_nil⟩

theorem CryptoOutcome.collects (ho : CryptoOutcome env s s') (h : Collects s.conn.sess) :
    Collects s'.conn.sess := by
  cases ho with
  | idle => exact h
  | keyGen _ _ _ _ _ hf ha =>
    obtain ⟨off, s1, s2, -, hf1, hreq, rfl⟩ := answerClientHello_cases ha
    have hkey := hf.collects (h.same rfl rfl)
    have hanswer := request_collects hreq ((hf1.collects (hkey.same rfl rfl)).same rfl rfl)
    exact hanswer.same rfl rfl
  | sharedSecret => exact h.same rfl rfl
  | signature => exact h.same rfl rfl

theorem RemainOutcome.collects (ho : RemainOutcome env s s') (h : Collects s.conn.sess) :
    Collects s'.conn.sess := by
  cases ho with
  | idle => exact h
  | certificate _ _ hf hf' hreq =>
    exact request_collects hreq ((hf'.collects ((hf.collects h).same rfl rfl)).same rfl rfl)
  | @finished s1 s2 port _ _ hf hf' =>
    have hfin := hf'.collects ((hf.collects h).same rfl rfl)
    obtain ⟨k, hk, -⟩ := handleAppKeysCalculation_eq env s2
    have hkeys : Collects (handleVerifyDataCalculation env (handleAppKeysCalculation env s2)).conn.sess := by
      rw [hk]
      exact hfin.same rfl rfl
    exact (sendKeyMeta_frame env port _).collects hkeys
  | pending _ _ hf => exact (hf.collects h).same rfl rfl

theorem RemainOutcome.readsNothing {conn : Conn} {room : Bool} (ho : RemainOutcome env s s')
    (h : .read conn r rest room ∈ s'.ctx.trace) : .read conn r rest room ∈ s.ctx.trace := by
  cases ho with
  | idle => exact h
  | @certificate s1 s2 _ _ _ hf hf' hreq =>
    have htrace : s'.ctx.trace = s2.ctx.trace := by
      rcases hreq with ⟨o, hrej⟩ | ⟨o, hsub⟩
      · exact hrej.frame.trace
      · exact hsub.trace
    rw [htrace, hf'.trace] at h
    exact hf.trace ▸ h
  | @finished s1 s2 port _ _ hf hf' =>
    rw [(sendKeyMeta_frame env port _).trace] at h
    obtain ⟨k, hk, -⟩ := handleAppKeysCalculation_eq env s2
    rw [hk] at h
    have hold : .read conn r rest room ∈ s2.ctx.trace := (List.mem_cons.mp h).resolve_left nofun
    rw [hf'.trace] at hold
    exact hf.trace ▸ hold
  | pending _ _ hf => exact hf.trace ▸ h

/-! ### One connection among the others -/

theorem Assembled.own (h : Assembled (s.among others)) : Collects s.conn.sess := by
  have hc := h.conns s.conn.id
  rwa [s.among_self] at hc

theorem Assembled.on (h : Assembled (s.among others)) (hid : s'.conn.id = s.conn.id)
    (hconn : Collects s'.conn.sess)
    (hread : ∀ conn r rest room, .read conn r rest room ∈ s'.ctx.trace →
      .read conn r rest room ∈ s.ctx.trace ∨ Received r) : Assembled (s'.among others) := by
  refine ⟨fun c => ?_, fun conn r rest room he => ?_⟩
  · by_cases hc : c = s.conn.id
    · have heq : (s'.among others).conns s.conn.id = s'.conn := hid ▸ s'.among_self
      rw [hc, heq]
      exact hconn
    · have hold := h.conns c
      rw [s.among_ne hc] at hold
      rw [s'.among_ne (hid ▸ hc)]
      exact hold
  · exact (hread conn r rest room he).elim (h.read conn r rest room) id

theorem Assembled.keep (h : Assembled (s.among others)) (hid : s'.conn.id = s.conn.id)
    (hconn : Collects s.conn.sess → Collects s'.conn.sess) (htrace : s'.ctx.trace = s.ctx.trace) :
    Assembled (s'.among others) :=
  h.on hid (hconn h.own) fun _ _ _ _ he => .inl (htrace ▸ he)

abbrev Assembles : St → St → Prop := Carries (fun _ => True) fun s => OpFacts s ∧ Assembled s

theorem outcomeRule_assembles : OutcomeRule Assembles where
  refl := .refl
  trans := .trans
  frame _ _ hf := (readRule_opFacts.frame _ _ hf).and fun _ _ hid _ _ h =>
    h.keep hid hf.collects hf.trace
  hello _ _ r ch o hw hst hr hn hsub := (readRule_opFacts.hello _ _ r ch o hw hst hr hn hsub).and
    fun _ _ hid _ _ h => h.keep hid hsub.collects hsub.trace
  spec s hst := (readRule_opFacts.spec s hst).and fun _ _ hid _ _ h => h.keep hid (fun h => h.same rfl rfl) rfl
  finish s hst := (readRule_opFacts.finish s hst).and fun _ _ hid _ _ h =>
    h.keep hid (fun h => h.same rfl rfl) rfl
  removed _ _ hr := (readRule_opFacts.removed _ _ hr).and fun _ _ hid _ _ h => by
    refine h.on hid hr.collects fun conn r rest room he => .inl ?_
    rw [hr.trace] at he
    simpa using he

theorem setQueues_assembles (cur : Option Record) (q : List Record)
    (hok : Collects s.conn.sess → (∀ r, cur = some r → Opened r) ∧ ∀ r ∈ q, Received r) :
    Assembles s (s.mapSess fun e => { e with currentReadRecord := cur, recvQ := q }) :=
  (readRule_opFacts.queues s cur q).and fun _ _ hid _ _ h =>
    h.on hid ⟨(hok h.own).1, (hok h.own).2⟩ fun _ _ _ _ he => .inl he

theorem read_assembles {ret : Int} (hr : Received r) (hw : s.conn.sess.waitingCrypto = false)
    (h : processReadRecord env rest r s = .ok (ret, s')) : Assembles s s' := by
  have hcall : Assembles s (reading rest r s) :=
    (readRule_opFacts.call rest r s).and fun _ _ hid _ _ h =>
      h.on hid h.own fun conn r' rest' room he => by
        rcases List.mem_cons.mp he with heq | he
        · cases heq
          exact .inr hr
        · exact .inl he
  exact hcall.trans (outcomeRule_assembles.outcome hw (processReadRecord_outcome h hw))

/-! ### Rounds -/

theorem taken_le (r : Record) (pkt : Bytes) : taken r pkt ≤ r.length - r.data.length := Nat.min_le_left ..

theorem filled_length (r : Record) (pkt : Bytes) : (filled r pkt).data.length = r.data.length + taken r pkt := by
  have hle : taken r pkt ≤ pkt.length := Nat.min_le_right ..
  show (r.data ++ pkt.take (taken r pkt)).length = _
  rw [List.length_append, List.length_take, Nat.min_eq_left hle]

theorem Opened.filled (h : Opened r) (pkt : Bytes) : Opened (filled r pkt) := by
  have hlen := filled_length r pkt
  have htaken := taken_le r pkt
  have hfilling := h.filling
  have hbe : be16 (Nic.filled r pkt).data 3 = be16 r.data 3 := by
    have hheader : 5 ≤ r.data.length := h.header
    show be16 (r.data ++ pkt.take (taken r pkt)) 3 = _
    unfold be16
    rw [byteAt_append_left _ _ _ (by omega), byteAt_append_left _ _ _ (by omega)]
  refine ⟨by rw [hlen]; exact Nat.le_add_right_of_le h.header, ?_, by rw [hbe]; exact h.length,
    by rw [hbe]; exact h.declared, ?_⟩
  · rw [hlen]
    show r.data.length + taken r pkt ≤ r.length
    omega
  · unfold Nic.filled
    rw [h.fresh]

theorem currentRecord_opened (hc : ∀ r, s.conn.sess.currentReadRecord = some r → Opened r) (hst : Starts pkt s)
    (h : currentRecord pkt s = .ok (r, s')) : Opened (filled r pkt) := by
  rcases currentRecord_cases h with ⟨hcur, -⟩ | ⟨hnone, hlen, -, -, -, slot, id, rfl⟩
  · exact (hc r hcur).filled pkt
  · have hheader : 5 ≤ pkt.length := hst.header hnone
    have htaken : taken { slot := slot, id := id, length := (be16 pkt 3).toNat + recordHeaderSize } pkt
        = min ((be16 pkt 3).toNat + 5) pkt.length := rfl
    have hdata : (filled { slot := slot, id := id, length := (be16 pkt 3).toNat + recordHeaderSize } pkt).data
        = pkt.take (min ((be16 pkt 3).toNat + 5) pkt.length) := rfl
    have hbe : be16 (pkt.take (min ((be16 pkt 3).toNat + 5) pkt.length)) 3 = be16 pkt 3 := by
      unfold be16
      rw [byteAt_take _ _ _ (by omega), byteAt_take _ _ _ (by omega)]
    refine ⟨?_, ?_, by rw [hdata, hbe]; rfl, by rw [hdata, hbe]; exact hlen, rfl⟩
    · rw [hdata, List.length_take]
      show 5 ≤ _
      omega
    · rw [hdata, List.length_take]
      show _ ≤ (be16 pkt 3).toNat + 5
      omega

theorem round_assembles (hst : Starts pkt s) (hr : newRecordRound env pkt s = .ok (pkt', s')) :
    Assembles s s' := by
  refine ⟨newRecordRound_grows hr, fun hg others hs => ?_⟩
  obtain ⟨r, s1, hcur, -, hcases⟩ := newRecordRound_cases hr
  have hopened := currentRecord_opened hs.2.own.current hst hcur
  have h1 : Assembles s s1 := by
    rcases currentRecord_cases hcur with ⟨-, rfl⟩ | ⟨-, -, hf, -⟩
    · exact .refl _
    · exact outcomeRule_assembles.frame _ _ hf
  have h2 : Assembles s (setCurrent (some (filled r pkt)) s1) := by
    refine h1.trans (setQueues_assembles _ s1.conn.sess.recvQ fun hc => ⟨?_, hc.queued⟩)
    intro r' hr'
    cases hr'
    exact hopened
  suffices h : Assembles s s' from h.carries hg others hs
  rcases hcases with ⟨-, rfl⟩ | ⟨hfull, s2, hs2, rfl⟩
  · exact h2
  · have hreceived : Received (filled r pkt) := ⟨hopened, hfull⟩
    have hcomplete : Assembles (setCurrent (some (filled r pkt)) s1)
        (completing (filled r pkt) (setCurrent (some (filled r pkt)) s1)) :=
      (readRule_opFacts.complete _ _).and fun _ _ hid _ _ h => h.on hid h.own fun conn r' rest room he =>
        .inl ((List.mem_cons.mp he).resolve_left nofun)
    have h3 : Assembles (completing (filled r pkt) (setCurrent (some (filled r pkt)) s1)) s2 := by
      rcases takeRecord_cases hs2 with ⟨-, rfl⟩ | ⟨hw, ret, hread⟩
      · refine setQueues_assembles (some (filled r pkt)) _ fun hc => ⟨hc.current, fun r' hr' => ?_⟩
        rcases List.mem_append.mp hr' with hr' | hr'
        · exact hc.queued r' hr'
        · rw [List.mem_singleton.mp hr']
          exact hreceived
      · exact read_assembles hreceived hw hread
    have h4 : Assembles s2 (setCurrent none s2) :=
      setQueues_assembles none s2.conn.sess.recvQ fun hc => ⟨fun _ h => absurd h nofun, hc.queued⟩
    exact h2.trans (hcomplete.trans (h3.trans h4))

theorem queued_assembles {q : List Record} {ret : Int} (hw : s.conn.sess.waitingCrypto = false)
    (hq : s.conn.sess.recvQ = r :: q)
    (h : processReadRecord env 0 r (s.mapSess fun e => { e with recvQ := q }) = .ok (ret, s')) :
    Assembles s s' := by
  have hgrows := processReadRecord_grows h hw
  refine ⟨(List.suffix_cons _ _).trans hgrows, fun hg others hs => ?_⟩
  have hreceived : ∀ r' ∈ r :: q, Received r' := hq ▸ hs.2.own.queued
  have hpop : Assembles s (s.mapSess fun e => { e with recvQ := q }) :=
    setQueues_assembles s.conn.sess.currentReadRecord q fun hc =>
      ⟨hc.current, fun r' hr' => hreceived r' (List.mem_cons_of_mem r hr')⟩
  have hread : Assembles (s.mapSess fun e => { e with recvQ := q }) s' :=
    read_assembles (hreceived r List.mem_cons_self) hw h
  exact (hpop.trans hread).carries hg others hs

theorem mapTcp_assembles (s : St) (f : Tcp → Tcp) : Assembles s (s.mapTcp f) :=
  (mapTcp_opFacts s f).and fun _ _ hid _ _ h => h.keep hid id rfl

theorem serveRule_assembles (env : Env) : ServeRule env Assembles where
  refl := .refl
  trans := .trans
  tcp s f _ := mapTcp_assembles s f
  emits s x := (emit_opFacts s x).and fun _ _ hid _ _ h => h.keep hid id rfl
  frame s s' hf := outcomeRule_assembles.frame s s' hf.toFrame
  crypto s s' hc := ((closed_opFacts env).crypto s s' hc).and fun _ _ hid ho _ h =>
    h.keep hid (getProcessedCrypto_outcome ho.core.hello hc).collects (getProcessedCrypto_queue ho.core.hello hc).1
  removed s s' _ hr := outcomeRule_assembles.removed s s' hr
  remain s s' hr := ((closed_opFacts env).remain s s' hr).and fun _ _ hid _ _ h =>
    h.on hid (hr.collects h.own) fun _ _ _ _ he => .inl (hr.readsNothing he)

end

/-! ### The whole worker -/

section

variable {env : Env} {s s' : Sys} {c : ConnId} {x : Input}

theorem Assembled.same (h : Assembled s)
    (hconns : ∀ c, Collects (s.conns c).sess → Collects (s'.conns c).sess)
    (hread : ∀ conn r rest room, .read conn r rest room ∈ s'.ctx.trace →
      .read conn r rest room ∈ s.ctx.trace) : Assembled s' :=
  ⟨fun c => hconns c (h.conns c), fun conn r rest room he => h.read conn r rest room (hread _ _ _ _ he)⟩

theorem Assembled.quiet (h : Assembled s) (hq : SysQuiet s s') : Assembled s' := by
  obtain ⟨hconns, out, outside, hctx⟩ := hq
  have htrace : s'.ctx.trace = s.ctx.trace := by rw [hctx]
  exact h.same (fun c hc => hconns ▸ hc) fun _ _ _ _ he => htrace ▸ he

theorem Assembled.inserted (h : Assembled s) (hi : Inserted c s s') : Assembled s' := by
  have htrace := hi.trace
  refine h.same (fun d hd => ?_) fun _ _ _ _ he => ?_
  · rw [(hi.sess d).2]
    exact hd
  · rw [htrace] at he
    exact (List.mem_cons.mp he).resolve_left nofun

theorem Assembled.put {t : St} (h : Assembles ⟨s.conns c, s.ctx⟩ t) (hs : OpFacts s ∧ Assembled s) :
    OpFacts (s.put c t) ∧ Assembled (s.put c t) :=
  (Carries.put (fun h => h.1.ids) h).keeps (fun _ _ => trivial) hs

theorem step_assembled (x : Input) (s s' : Sys) (h : step env x s = .ok s') (hs : OpFacts s ∧ Assembled s) :
    OpFacts s' ∧ Assembled s' := by
  cases step_outcome h with
  | quiet hq => exact ⟨hs.1.quiet hq, hs.2.quiet hq⟩
  | acts _ _ ha =>
    exact Assembled.put ((serveRule_assembles env).toMoveRule.acts (fun s f _ => mapTcp_assembles s f)
      (fun _ _ _ _ _ hst hr => round_assembles hst hr) ha) hs
  | serves _ _ hserve =>
    refine Assembled.put ((serveRule_assembles env).serve (fun _ hr => ?_) hserve) hs
    exact processSessionReadLoop_rule .refl .trans (fun _ _ _ _ _ hw hq hr => queued_assembles hw hq hr) hr
  | inserts hi hq => exact ⟨(hs.1.inserted hi).quiet hq, (hs.2.inserted hi).quiet hq⟩
  | replaces _ hr hq hi =>
    have hput := Assembled.put (outcomeRule_assembles.removed _ _ (removeSession_removed hr)) hs
    exact ⟨(hput.1.quiet hq).inserted hi, (hput.2.quiet hq).inserted hi⟩
  | submits hsub =>
    refine ⟨hs.1.submitted hsub, ?_⟩
    rcases handleSubmittedPka_cases hsub with rfl | ⟨o, ring, d, -, -, -, -, hconns, hctx⟩
    · exact hs.2
    · exact hs.2.same (setConn_sess (R := fun e e' => Collects e → Collects e') (fun _ h => h) hconns
        fun e he => he.same rfl rfl) fun _ _ _ _ he => by
        rw [hctx] at he
        exact he
  | completes hcomp =>
    refine ⟨hs.1.completes hcomp, ?_⟩
    rcases handleCompletedPka_cases hcomp with rfl | ⟨d, -, -, ⟨-, hconns, hctx⟩ | ⟨-, -, hconns, hctx⟩⟩
    · exact hs.2
    all_goals
      exact hs.2.same (setConn_sess (R := fun e e' => Collects e → Collects e') (fun _ h => h) hconns
        fun e he => he.same rfl rfl) fun _ _ _ _ he => by
        rw [hctx] at he
        exact he

theorem initial_assembled (n ringCnt : Nat) : Assembled (initial n ringCnt) where
  conns _ := ⟨fun _ h => absurd h nofun, fun _ h => absurd h List.not_mem_nil⟩
  read _ _ _ _ h := absurd h List.not_mem_nil

/-- In every run, what is read is complete, and what is collected goes by its header. -/
theorem run_assembled {n ringCnt : Nat} {inputs : List Input}
    (h : run (step env) inputs (initial n ringCnt) = .ok s) : OpFacts s ∧ Assembled s :=
  run_invariant step_assembled inputs _ s h ⟨initial_opFacts n ringCnt, initial_assembled n ringCnt⟩

end

/-! ### The buffer of a record -/

/- `record->data` starts behind the first `sizeof(uint64_t)` bytes of `record->buf`. -/
def recordStart : Nat := 8

/-- A round does not end the process, and its copy ends inside `record->buf`. -/
def RoundSafe (pkt : Bytes) (s : St) : Prop :=
  ∃ r s', currentRecord pkt s = .ok (r, s')
    ∧ recordStart + r.data.length + taken r pkt ≤ maxRecordSize

/- What the header of the record under reassembly declares, and how much of it has come before `pkt`. -/
def declaredLength (pkt : Bytes) (s : St) : Nat :=
  match s.conn.sess.currentReadRecord with
  | some r => r.length - recordHeaderSize
  | none => (be16 pkt 3).toNat

def collectedLength (s : St) : Nat :=
  match s.conn.sess.currentReadRecord with
  | some r => r.data.length
  | none => 0

/-- The record that the round is about has a place in the buffer, or at least what has come of it has; if
it starts here, there is a record in the pool for it. -/
structure RoundFits (pkt : Bytes) (s : St) : Prop where
  pool : s.conn.sess.currentReadRecord = none → s.ctx.recordPool ≠ []
  length : declaredLength pkt s ≤ maxRecordSize - recordStart - recordHeaderSize
    ∨ declaredLength pkt s < maxRecordSize
      ∧ collectedLength s + pkt.length ≤ maxRecordSize - recordStart

instance (pkt : Bytes) (s : St) : Decidable (RoundFits pkt s) :=
  decidable_of_iff
    ((s.conn.sess.currentReadRecord = none → s.ctx.recordPool ≠ [])
      ∧ (declaredLength pkt s ≤ maxRecordSize - recordStart - recordHeaderSize
        ∨ declaredLength pkt s < maxRecordSize
          ∧ collectedLength s + pkt.length ≤ maxRecordSize - recordStart))
    ⟨fun h => ⟨h.1, h.2⟩, fun h => ⟨h.pool, h.length⟩⟩

section

variable {env : Env} {s s' : St} {pkt pkt' : Bytes}

theorem newRecvRecord_ok {slot : Nat} {pool : List Nat} (h : s.ctx.recordPool = slot :: pool) :
    ∃ id s', newRecvRecord s = .ok ({ slot := slot, id := id }, s') := by
  unfold newRecvRecord newRecord
  rw [h]
  exact ⟨_, _, rfl⟩

theorem roundSafe_iff (hc : Collects s.conn.sess) : RoundSafe pkt s ↔ RoundFits pkt s := by
  have hmax : maxRecordSize = 16061 := rfl
  have hstart : recordStart = 8 := rfl
  have hhdr : recordHeaderSize = 5 := rfl
  cases hcur : s.conn.sess.currentReadRecord with
  | some r =>
    have hopened := hc.current r hcur
    have hdecl : declaredLength pkt s = r.length - recordHeaderSize := by rw [declaredLength, hcur]
    have hcoll : collectedLength s = r.data.length := by rw [collectedLength, hcur]
    have hok : currentRecord pkt s = .ok (r, s) := by rw [currentRecord, hcur]
    have hlen := hopened.length
    have hlt := hopened.declared
    have hfilling := hopened.filling
    have hcopy : recordStart + r.data.length + taken r pkt ≤ maxRecordSize
        ↔ declaredLength pkt s ≤ maxRecordSize - recordStart - recordHeaderSize
          ∨ declaredLength pkt s < maxRecordSize
            ∧ collectedLength s + pkt.length ≤ maxRecordSize - recordStart := by
      rw [hdecl, hcoll, taken]
      omega
    constructor
    · rintro ⟨r', s', hr', hin⟩
      rw [hok] at hr'
      cases hr'
      exact ⟨fun hnone => absurd (hcur.symm.trans hnone) nofun, hcopy.mp hin⟩
    · intro hf
      exact ⟨r, s, hok, hcopy.mpr hf.length⟩
  | none =>
    have hdecl : declaredLength pkt s = (be16 pkt 3).toNat := by rw [declaredLength, hcur]
    have hcoll : collectedLength s = 0 := by rw [collectedLength, hcur]
    constructor
    · rintro ⟨r, s', hr, hin⟩
      rcases currentRecord_cases hr with ⟨hsome, -⟩ | ⟨-, hlt, -, hpool, -, slot, id, rfl⟩
      · exact absurd (hcur.symm.trans hsome) nofun
      · refine ⟨fun _ => by rw [hpool]; exact List.cons_ne_nil _ _, ?_⟩
        rw [hdecl, hcoll]
        simp only [taken, List.length_nil] at hin
        omega
    · intro hf
      obtain ⟨slot, pool, hpool⟩ := List.exists_cons_of_ne_nil (hf.pool hcur)
      obtain ⟨id, s', hnew⟩ := newRecvRecord_ok hpool
      have hlen := hf.length
      rw [hdecl, hcoll] at hlen
      have hlt : ¬ maxRecordSize ≤ (be16 pkt 3).toNat := by omega
      refine ⟨{ slot := slot, id := id, length := (be16 pkt 3).toNat + recordHeaderSize }, s', ?_, ?_⟩
      · rw [currentRecord, hcur]
        simp only [hnew]
        show (if maxRecordSize ≤ (be16 pkt 3).toNat then _ else _) = _
        rw [if_neg hlt]
        rfl
      · simp only [taken, List.length_nil]
        omega

/-! ### The rounds of a run -/

/-- The rounds of a call of `process_new_record`, each with the payload and the state that it starts in. -/
def rounds (env : Env) : Nat → Bytes → St → List (Bytes × St)
  | 0, _, _ => []
  | fuel + 1, pkt, s =>
    if pkt = [] then []
    else if s.conn.sess.currentReadRecord.isNone ∧ pkt.length < recordHeaderSize then []
    else (pkt, s) :: match newRecordRound env pkt s with
      | .ok (pkt, s) => rounds env fuel pkt s
      | .error _ => []

/- A round takes `σ` to `σ'`. -/
def RoundStep (env : Env) (σ : Bytes × St) (ρs : List (Bytes × St)) (σ' : Bytes × St) : Prop :=
  ρs = [σ] ∧ newRecordRound env σ.1 σ.2 = .ok σ'

/-- These are the rounds of the loop: each starts where the one before has ended.  The loop returns where the last
one has ended, or fails as the last one does. -/
theorem processNewRecordLoop_rounds (env : Env) (fuel : Nat) (pkt : Bytes) (s : St) :
    (∃ σ, Path (RoundStep env) (pkt, s) (rounds env fuel pkt s) σ ∧ processNewRecordLoop env fuel pkt s = .ok σ.2)
      ∨ (∃ done σ e, rounds env fuel pkt s = done ++ [σ] ∧ Path (RoundStep env) (pkt, s) done σ
        ∧ newRecordRound env σ.1 σ.2 = .error e ∧ processNewRecordLoop env fuel pkt s = .error e)
      ∨ (rounds env fuel pkt s).length = fuel ∧ processNewRecordLoop env fuel pkt s = .error .endless := by
  induction fuel generalizing pkt s with
  | zero => exact .inr (.inr ⟨rfl, rfl⟩)
  | succ fuel ih =>
    unfold rounds processNewRecordLoop
    split
    · exact .inl ⟨(pkt, s), .refl _, rfl⟩
    · split
      · exact .inl ⟨(pkt, s), .refl _, rfl⟩
      · cases hround : newRecordRound env pkt s with
        | error e => exact .inr (.inl ⟨[], (pkt, s), e, rfl, .refl _, hround, rfl⟩)
        | ok σ =>
          have hfirst : RoundStep env (pkt, s) [(pkt, s)] σ := ⟨rfl, hround⟩
          rcases ih σ.1 σ.2 with ⟨τ, hpath, hloop⟩ | ⟨done, τ, e, hlast, hpath, hfails, hloop⟩ | ⟨hlen, hloop⟩
          · exact .inl ⟨τ, .cons hfirst hpath, hloop⟩
          · exact .inr (.inl ⟨(pkt, s) :: done, τ, e, congrArg _ hlast, .cons hfirst hpath, hfails, hloop⟩)
          · exact .inr (.inr ⟨congrArg (· + 1) hlen, hloop⟩)

def segmentCall (p : Packet) (s : St) : Option St :=
  if s.conn.tcp.onload then none
  else if validateSequence s.conn.tcp p.seq p.ack p.payloadLen = .ok then
    some (storeNumbers p s)
  else none

/-- The rounds that an input leads to. -/
def roundsOf (env : Env) : Input → Sys → List (Bytes × St)
  | .packet port p, s =>
    if validatePacketType port p = some .sslHandshake then
      match searchTcpConnection p s with
      | .ok (some c) =>
        match segmentCall p ⟨s.conns c, s.ctx⟩ with
        | some t => rounds env (p.payload.length + 1) p.payload t
        | none => []
      | _ => []
    else []
  | _, _ => []

theorem processPacket_inSequence {port : UInt16} {p : Packet} {s : Sys} {c : ConnId}
    (htype : validatePacketType port p = some .sslHandshake) (hfound : searchTcpConnection p s = .ok (some c))
    (ho : (s.conns c).tcp.onload = false) (hv : validateSequence (s.conns c).tcp p.seq p.ack p.payloadLen = .ok) :
    processPacket env port p s = s.on c (processNormalSeqCase env p) := by
  have hread : processHandshakePacket env p ⟨s.conns c, s.ctx⟩ = processNormalSeqCase env p ⟨s.conns c, s.ctx⟩ := by
    simp only [processHandshakePacket, ho, hv, Bool.false_eq_true, if_false]
  unfold processPacket
  rw [htype]
  show onConnection p (processHandshakePacket env p) s = _
  unfold onConnection
  rw [hfound]
  show s.on c (processHandshakePacket env p) = _
  unfold Sys.on
  rw [hread]

/-- A packet that leads to rounds is given to `process_ssl_packet` in the state in which the first one starts. -/
theorem processPacket_rounds {port : UInt16} {p : Packet} {s : Sys} {t : St} {c : ConnId}
    (htype : validatePacketType port p = some .sslHandshake) (hfound : searchTcpConnection p s = .ok (some c))
    (hcall : segmentCall p ⟨s.conns c, s.ctx⟩ = some t) :
    roundsOf env (.packet port p) s = rounds env (p.payload.length + 1) p.payload t
      ∧ processPacket env port p s = s.on c fun _ => do
        let (ret, u) ← processSslPacket env p.payload t
        if ret < 0 then return sendTcpPacket TCP_FLAG_ACK [] u else return u := by
  refine ⟨by simp only [roundsOf, htype, hfound, hcall, if_true], ?_⟩
  unfold segmentCall at hcall
  split at hcall
  · cases hcall
  · rename_i hload
    split at hcall
    · rename_i hok
      cases hcall
      rw [processPacket_inSequence htype hfound (by simpa using hload) hok]
      rfl
    · cases hcall

theorem rounds_assembled {others : ConnId → Conn} (fuel : Nat) (pkt : Bytes) (s : St)
    (hs : OpFacts (s.among others) ∧ Assembled (s.among others)) :
    ∀ ρ ∈ rounds env fuel pkt s, Collects ρ.2.conn.sess := by
  induction fuel generalizing pkt s with
  | zero => exact fun _ h => absurd h List.not_mem_nil
  | succ fuel ih =>
    unfold rounds
    split
    · exact fun _ h => absurd h List.not_mem_nil
    · rename_i hne
      split
      · exact fun _ h => absurd h List.not_mem_nil
      · rename_i hshort
        have hst := starts_of_checks hne hshort
        intro ρ hρ
        rcases List.mem_cons.mp hρ with rfl | hρ
        · exact hs.2.own
        · split at hρ
          · rename_i pkt' s' hr
            exact ih pkt' s' ((round_assembles hst hr).carries (fun _ _ => trivial) others hs).2 ρ hρ
          · exact absurd hρ List.not_mem_nil

/-- In every round of every run, `process_new_record` goes on and copies inside the buffer exactly if the
round fits. -/
theorem round_inBuffer {n ringCnt : Nat} {inputs : List Input} {s : Sys}
    (h : run (step env) inputs (initial n ringCnt) = .ok s) (x : Input) :
    ∀ ρ ∈ roundsOf env x s, RoundSafe ρ.1 ρ.2 ↔ RoundFits ρ.1 ρ.2 := by
  have hs := run_assembled h
  cases x with
  | packet port p =>
    intro ρ hρ
    simp only [roundsOf] at hρ
    split at hρ
    · split at hρ
      · rename_i c hfound
        split at hρ
        · rename_i t hcall
          have hself : OpFacts ((⟨s.conns c, s.ctx⟩ : St).among s.conns)
              ∧ Assembled ((⟨s.conns c, s.ctx⟩ : St).among s.conns) := by
            rw [s.among_put (hs.1.ids c)]
            exact hs
          have ht : OpFacts (t.among s.conns) ∧ Assembled (t.among s.conns) := by
            unfold segmentCall at hcall
            split at hcall
            · cases hcall
            · split at hcall
              · cases hcall
                exact ((mapTcp_assembles _ _).carries (fun _ _ => trivial) s.conns hself).2
              · cases hcall
          exact roundSafe_iff (rounds_assembled _ _ t ht ρ hρ)
        · exact absurd hρ List.not_mem_nil
      · exact absurd hρ List.not_mem_nil
    · exact absurd hρ List.not_mem_nil
  | serve | pkaSubmit | pkaComplete | outside => exact fun _ hρ => absurd hρ List.not_mem_nil

def sampleFirst (payload : Bytes) (h : payload.length < 65536) : Input :=
  .packet 0 (sampleSegment 101 5 payload h)

/- The ClientHello of the sample connection fits. -/
theorem round_inBuffer_hello : ∃ s, run (step sampleEnv) [.packet 0 sampleSyn] (initial 2 8) = .ok s
    ∧ ∃ ρ ∈ roundsOf sampleEnv (sampleFirst (sampleHello [0x13, 2]) (by decide)) s, RoundSafe ρ.1 ρ.2 := by
  obtain ⟨s, hs, hfits⟩ := endsIn_ok
    (fun s => (roundsOf sampleEnv (sampleFirst (sampleHello [0x13, 2]) (by decide)) s).any
      fun ρ => RoundFits ρ.1 ρ.2)
    (run (step sampleEnv) [.packet 0 sampleSyn] (initial 2 8)) (by decide +kernel)
  obtain ⟨ρ, hρ, hfits⟩ := List.any_eq_true.mp hfits
  exact ⟨s, hs, ρ, hρ, (round_inBuffer hs _ ρ hρ).mpr (of_decide_eq_true hfits)⟩

/-- A header that declares 65535 bytes ends the process; a record of 16050 bytes is accepted and written
past the buffer. -/
theorem round_outOfBuffer :
    (∃ s, run (step sampleEnv) [.packet 0 sampleSyn] (initial 2 8) = .ok s
      ∧ ∃ ρ ∈ roundsOf sampleEnv (sampleFirst [0x16, 3, 1, 0xff, 0xff] (by decide)) s, ¬ RoundSafe ρ.1 ρ.2)
    ∧ ¬ RoundSafe ([0x16, 3, 1, 0x3e, 0xb2] ++ zeros 16050) ⟨(initial 2 8).conns 0, (initial 2 8).ctx⟩ := by
  constructor
  · obtain ⟨s, hs, hstop⟩ := endsIn_ok
      (fun s => (roundsOf sampleEnv (sampleFirst [0x16, 3, 1, 0xff, 0xff] (by decide)) s).any
        fun ρ => stopsFor .assertion (currentRecord ρ.1 ρ.2))
      (run (step sampleEnv) [.packet 0 sampleSyn] (initial 2 8)) (by decide +kernel)
    obtain ⟨ρ, hρ, hstop⟩ := List.any_eq_true.mp hstop
    refine ⟨s, hs, ρ, hρ, ?_⟩
    rintro ⟨r, s', hr, -⟩
    rw [stopsFor_error _ _ hstop] at hr
    cases hr
  · have hlong : ∀ body : Bytes, body.length = 16050 →
        ¬ RoundSafe ([0x16, 3, 1, 0x3e, 0xb2] ++ body) ⟨(initial 2 8).conns 0, (initial 2 8).ctx⟩ := by
      intro body hbody
      rw [roundSafe_iff ((initial_assembled 2 8).conns 0)]
      intro hf
      have hmax : maxRecordSize = 16061 := rfl
      have hdecl : declaredLength ([0x16, 3, 1, 0x3e, 0xb2] ++ body)
          ⟨(initial 2 8).conns 0, (initial 2 8).ctx⟩ = 16050 := rfl
      have hlen := hf.length
      rw [hdecl, List.length_append, hbody, hmax] at hlen
      simp only [recordStart, recordHeaderSize, List.length_cons, List.length_nil] at hlen
      omega
    exact hlong (zeros 16050) (zeros_length 16050)

end

end Xtls.Nic
