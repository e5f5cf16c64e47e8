import Xtls.Nic.OpFacts

/-!
# The count of outstanding operations

`cur_crypto_cnt` is raised when the PKA core hands an operation to the engine and lowered when it takes
the result, and also when `remove_pending_pka_op` finds a pending operation, wherever that one is
(`ssl.c` 454-491, 1267-1435).
-/

namespace Xtls.Nic

/-- No session is cleared with an operation pending. -/
def Event.Drained : Event → Prop
  | .clear conn => conn.sess.pendingPkaOp = none
  | _ => True

instance : DecidablePred Event.Drained
  | .clear conn => inferInstanceAs (Decidable (conn.sess.pendingPkaOp = none))
  | .insert _ | .remove .. | .complete .. | .read .. | .verifyData .. => .isTrue trivial

/-- The operations queued or running are those whose result is still to come, each there once. -/
structure Counted (s : Sys) : Prop where
  nodup : (s.ctx.submitPkaRing ++ s.ctx.engine).Nodup
  held : ∀ o ∈ s.ctx.submitPkaRing ++ s.ctx.engine, (s.ctx.ops o).pkaFlag = true
    ∧ ∃ c, (s.ctx.ops o).sess = some c ∧ (s.conns c).sess.completedCrypto = false
  count : s.ctx.curCryptoCnt.toNat = s.ctx.engine.length
  bound : s.ctx.engine.length ≤ maxOutstandingPkaReq

section

variable {env : Env} {s s' : St} {others : ConnId → Conn} {o : OpId} {fill : Op}

theorem Counted.on (h : Counted (s.among others)) (new : List OpId) (hid : s'.conn.id = s.conn.id)
    (hcnt : s'.ctx.curCryptoCnt = s.ctx.curCryptoCnt) (heng : s'.ctx.engine = s.ctx.engine)
    (hring : s'.ctx.submitPkaRing = s.ctx.submitPkaRing ++ new) (hnd : new.Nodup)
    (hnew : ∀ o ∈ new, o ∉ s.ctx.submitPkaRing ++ s.ctx.engine ∧ (s'.ctx.ops o).pkaFlag = true
      ∧ (s'.ctx.ops o).sess = some s.conn.id ∧ s'.conn.sess.completedCrypto = false)
    (hops : ∀ o ∈ s.ctx.submitPkaRing ++ s.ctx.engine, s'.ctx.ops o = s.ctx.ops o)
    (hcompl : ∀ o ∈ s.ctx.submitPkaRing ++ s.ctx.engine, (s.ctx.ops o).sess = some s.conn.id →
      s.conn.sess.completedCrypto = false → s'.conn.sess.completedCrypto = false) :
    Counted (s'.among others) := by
  have heq : (s'.among others).conns s.conn.id = s'.conn := hid ▸ s'.among_self
  have hperm : (s'.ctx.submitPkaRing ++ s'.ctx.engine).Perm
      ((s.ctx.submitPkaRing ++ s.ctx.engine) ++ new) := by
    rw [hring, heng, List.append_assoc, List.append_assoc]
    exact .append_left _ List.perm_append_comm
  refine ⟨?_, fun o ho => ?_, ?_, ?_⟩
  · refine hperm.nodup_iff.mpr (List.nodup_append.mpr ⟨h.nodup, hnd, fun a ha b hb he => ?_⟩)
    exact (hnew b hb).1 (he ▸ ha)
  · rcases List.mem_append.mp (hperm.subset ho) with hold | hn
    · obtain ⟨hflag, c, hc, hdone⟩ := h.held o hold
      show (s'.ctx.ops o).pkaFlag = true ∧ _
      rw [hops o hold]
      refine ⟨hflag, c, ?_, ?_⟩
      · show (s'.ctx.ops o).sess = some c
        rw [hops o hold]
        exact hc
      · by_cases hcc : c = s.conn.id
        · rw [hcc, heq]
          rw [hcc, s.among_self] at hdone
          exact hcompl o hold (hcc ▸ hc) hdone
        · rw [s'.among_ne (hid ▸ hcc)]
          rwa [s.among_ne hcc] at hdone
    · obtain ⟨-, hflag, hsess, hdone⟩ := hnew o hn
      exact ⟨hflag, s.conn.id, hsess, by rw [heq]; exact hdone⟩
  · show s'.ctx.curCryptoCnt.toNat = s'.ctx.engine.length
    rw [hcnt, heng]
    exact h.count
  · show s'.ctx.engine.length ≤ _
    rw [heng]
    exact h.bound

theorem Counted.same (h : Counted (s.among others)) (hid : s'.conn.id = s.conn.id)
    (hcnt : s'.ctx.curCryptoCnt = s.ctx.curCryptoCnt) (heng : s'.ctx.engine = s.ctx.engine)
    (hring : s'.ctx.submitPkaRing = s.ctx.submitPkaRing)
    (hops : ∀ o ∈ s.ctx.submitPkaRing ++ s.ctx.engine, s'.ctx.ops o = s.ctx.ops o)
    (hcompl : s.conn.sess.completedCrypto = false → s'.conn.sess.completedCrypto = false) :
    Counted (s'.among others) := by
  refine h.on [] hid hcnt heng ?_ List.nodup_nil nofun hops fun _ _ _ => hcompl
  rw [hring, List.append_nil]

theorem Counted.frame (h : Counted (s.among others)) (hcore : OpCtx s.ctx) (hf : SendFrame s s') :
    Counted (s'.among others) := by
  have hops : s'.ctx.ops = s.ctx.ops := hcore.same hf.ops
  have hc := hf.completedCrypto
  exact h.same hf.id (congrArg Ctx.curCryptoCnt hf.ctx :) (congrArg Ctx.engine hf.ctx :)
    (congrArg Ctx.submitPkaRing hf.ctx :) (fun o _ => by rw [hops]) fun hs => hc.trans hs

theorem Counted.submits (h : Counted (s.among others)) (hcore : OpCtx s.ctx)
    (hsub : Submits fill o s s') (hc : s.conn.sess.completedCrypto = false) :
    Counted (s'.among others) := by
  -- an operation in the pool names no session, one with the PKA core does
  have hfree : (s.ctx.ops o).sess = none :=
    hcore.pool o (by rw [hsub.pool]; exact List.mem_cons_self)
  have hout : o ∉ s.ctx.submitPkaRing ++ s.ctx.engine := fun hm => by
    obtain ⟨-, c, hs, -⟩ := h.held o hm
    exact absurd (hfree.symm.trans hs) nofun
  have hdone : s'.conn.sess.completedCrypto = false := by rw [hsub.sess]; exact hc
  refine h.on [o] hsub.id (congrArg Ctx.curCryptoCnt hsub.ctx :) (congrArg Ctx.engine hsub.ctx :)
    hsub.ring (List.nodup_cons.mpr ⟨List.not_mem_nil, List.nodup_nil⟩) (fun i hi => ?_)
    (fun i hi => hsub.ops i fun he => hout (he ▸ hi)) fun _ _ _ _ => hdone
  obtain rfl := List.mem_singleton.mp hi
  rw [hsub.op]
  exact ⟨hout, rfl, rfl, hdone⟩

theorem Counted.removed (h : Counted (s.among others)) (hr : Removed s s')
    (hp : s.conn.sess.pendingPkaOp = none) : Counted (s'.among others) := by
  refine h.on [] hr.id ?_ hr.engine (by rw [hr.ring, List.append_nil]) List.nodup_nil nofun
    (fun o _ => ?_) fun _ _ _ _ => ?_
  · rw [hr.cryptoCnt, hp]
    rfl
  · rw [hr.ops, hp]
    rfl
  · rw [hr.sess]
    rfl

/-! ### Results and the server flight -/

/- A completed operation is neither queued nor running, so that releasing it leaves those alone. -/
theorem Counted.answered (h : Counted (s.among others)) (hf : OpFacts (s.among others)) {u : St}
    (new : List OpId) (hcompl : s.conn.sess.completedCrypto = true)
    (hpend : s.conn.sess.pendingPkaOp = some o) (hid : u.conn.id = s.conn.id)
    (hcnt : u.ctx.curCryptoCnt = s.ctx.curCryptoCnt) (heng : u.ctx.engine = s.ctx.engine)
    (hring : u.ctx.submitPkaRing = s.ctx.submitPkaRing ++ new) (hnd : new.Nodup)
    (hnew : ∀ i ∈ new, i ≠ o ∧ i ∉ s.ctx.submitPkaRing ++ s.ctx.engine
      ∧ (u.ctx.ops i).pkaFlag = true ∧ (u.ctx.ops i).sess = some s.conn.id)
    (hops : ∀ i, i ∉ new → u.ctx.ops i = s.ctx.ops i) :
    Counted ((finishCrypto o u).among others) := by
  have hdel : ∀ i, i ≠ o → (finishCrypto o u).ctx.ops i = u.ctx.ops i := fun i hi => if_neg hi
  have hout : o ∉ s.ctx.submitPkaRing ++ s.ctx.engine := fun hm => by
    obtain ⟨-, c, hs, hdone⟩ := h.held o hm
    obtain rfl : s.conn.id = c := Option.some.inj (((hf.own.owner o).mpr hpend).symm.trans hs)
    rw [s.among_self, hcompl] at hdone
    cases hdone
  refine h.on new hid hcnt heng hring hnd (fun i hi => ?_) (fun i hi => ?_) fun _ _ _ _ => rfl
  · obtain ⟨hne, hout', hflag, hsess⟩ := hnew i hi
    rw [hdel i hne]
    exact ⟨hout', hflag, hsess, rfl⟩
  · have hne : i ≠ o := fun he => hout (he ▸ hi)
    rw [hdel i hne]
    exact hops i fun hn => (hnew i hn).2.1 hi

theorem Counted.keyGen (h : Counted (s.among others)) (hf : OpFacts (s.among others)) {r : Record}
    {ch : ClientHello} {t u : St} (hcompl : s.conn.sess.completedCrypto = true)
    (hpend : s.conn.sess.pendingPkaOp = some o)
    (ht : SendFrame (handleAfterEcdheKeyGen (clearPending s)) t)
    (ha : answerClientHello env r ch t = .ok u) :
    Counted ((finishCrypto o (deleteRecord r u)).among others) := by
  obtain ⟨off, s1, s2, -, ht', hreq, rfl⟩ := answerClientHello_cases ha
  have hcore : OpCtx s.ctx := hf.core
  have hkept : OpsKept s.ctx s1.ctx := OpsKept.trans ht.ops ht'.ops
  have hops1 : s1.ctx.ops = s.ctx.ops := hcore.same hkept
  have hctx1 : s1.ctx.core = s.ctx.core := ht'.ctx.trans ht.ctx
  have hid1 : s1.conn.id = s.conn.id := ht'.id.trans ht.id
  rcases hreq with ⟨o', hrej⟩ | ⟨o', hsub⟩
  · have hctx2 : s2.ctx.core = s.ctx.core := hrej.frame.ctx.trans hctx1
    have hops2 : s2.ctx.ops = s.ctx.ops := ((hcore.kept hkept).same hrej.frame.ops).trans hops1
    refine h.answered hf [] hcompl hpend (hrej.frame.id.trans hid1) (congrArg Ctx.curCryptoCnt hctx2 :)
      (congrArg Ctx.engine hctx2 :) ?_ List.nodup_nil nofun fun i _ => congrFun hops2 i
    rw [List.append_nil]
    exact (congrArg Ctx.submitPkaRing hctx2 :)
  · have hfree : (s.ctx.ops o').sess = none := by
      have hmem : o' ∈ s1.ctx.opPool := hsub.pool ▸ List.mem_cons_self
      rw [← hops1]
      exact (hcore.kept hkept).pool o' hmem
    have hring1 : s1.ctx.submitPkaRing = s.ctx.submitPkaRing := (congrArg Ctx.submitPkaRing hctx1 :)
    have hcnt2 : s2.ctx.curCryptoCnt = s1.ctx.curCryptoCnt := (congrArg Ctx.curCryptoCnt hsub.ctx :)
    have heng2 : s2.ctx.engine = s1.ctx.engine := (congrArg Ctx.engine hsub.ctx :)
    refine h.answered hf [o'] hcompl hpend (hsub.id.trans hid1)
      (hcnt2.trans (congrArg Ctx.curCryptoCnt hctx1 :)) (heng2.trans (congrArg Ctx.engine hctx1 :))
      (hsub.ring.trans (congrArg (· ++ [o']) hring1))
      (List.nodup_cons.mpr ⟨List.not_mem_nil, List.nodup_nil⟩) (fun i hi => ?_) fun i hi => ?_
    · obtain rfl := List.mem_singleton.mp hi
      have hop : s2.ctx.ops i = _ := hsub.op
      refine ⟨?_, fun hm => ?_, (congrArg Op.pkaFlag hop :), (congrArg Op.sess hop :).trans ?_⟩
      · rintro rfl
        exact absurd (hfree.symm.trans ((hf.own.owner i).mpr hpend)) nofun
      · obtain ⟨-, c, hs, -⟩ := h.held i hm
        exact absurd (hfree.symm.trans hs) nofun
      · exact congrArg some hid1
    · have hne : i ≠ o' := fun he => hi (List.mem_singleton.mpr he)
      exact (hsub.ops i hne).trans (congrFun hops1 i)

theorem Counted.crypto (h : Counted (s.among others)) (hf : OpFacts (s.among others))
    (hs : getProcessedCrypto env s = .ok s') : Counted (s'.among others) := by
  have hpending : ∀ {o}, s.conn.sess.completedCrypto = true → s.conn.sess.pkaOp = some o →
      s.conn.sess.pendingPkaOp = some o := by
    intro o hc hop
    obtain ⟨o', hp, hpend⟩ := hf.own.completed hc
    rw [hop] at hp
    rw [hpend, hp]
  have hring : s.ctx.submitPkaRing = s.ctx.submitPkaRing ++ [] := (List.append_nil _).symm
  cases getProcessedCrypto_outcome hf.core.hello hs with
  | idle => exact h
  | keyGen hc hop _ _ _ ht ha => exact h.keyGen hf hc (hpending hc hop) ht ha
  | sharedSecret hc hop _ =>
    exact h.answered hf [] hc (hpending hc hop) rfl rfl rfl hring List.nodup_nil nofun fun _ _ => rfl
  | signature hc hop _ =>
    exact h.answered hf [] hc (hpending hc hop) rfl rfl rfl hring List.nodup_nil nofun fun _ _ => rfl

theorem Counted.remain (h : Counted (s.among others)) (hf : OpFacts (s.among others))
    (ho : RemainOutcome env s s') : Counted (s'.among others) := by
  have hcore : OpCtx s.ctx := hf.core
  cases ho with
  | idle => exact h
  | @certificate s1 s2 s' hst hk hfr hfr' hreq =>
    have hback := hfr'.setBack (hfr.handshakeState.trans hst) nofun
    have hall := hfr.trans hback
    have hcore2 : OpCtx s2.ctx := hcore.kept hall.ops
    have h3 : Counted ((signatureRequest env s2).among others) :=
      (h.frame hcore hall).same rfl rfl rfl rfl (fun _ _ => rfl) id
    rcases hreq with ⟨o, hrej⟩ | ⟨o, hsub⟩
    · exact h3.frame hcore2 hrej.frame.toSendFrame
    · refine h3.submits hcore2 hsub (hall.completedCrypto.trans ?_)
      exact hf.own.not_completed (hf.own.keyed hst hk)
  | @finished s1 s2 port hst hsig hfr hfr' =>
    have hback := hfr'.setBack (hfr.handshakeState.trans hst) nofun
    have hall := hfr.trans hback
    have hcore2 : OpCtx s2.ctx := hcore.kept hall.ops
    obtain ⟨k, hk, -⟩ := handleAppKeysCalculation_eq env s2
    have h3 : Counted ((handleVerifyDataCalculation env (handleAppKeysCalculation env s2)).among
        others) := by
      rw [hk]
      exact (h.frame hcore hall).same rfl rfl rfl rfl (fun _ _ => rfl) id
    refine h3.frame ?_ (sendKeyMeta_frame env port _).toSendFrame
    rw [hk]
    exact ⟨hcore2.nodup, hcore2.pool, hcore2.unowned, hcore2.hello⟩
  | @pending s1 hst hfin hfr =>
    exact (h.frame hcore hfr.toSendFrame).same rfl rfl rfl rfl (fun _ _ => rfl) id

theorem readRule_counted :
    ReadRule (Carries Event.Drained fun s => OpFacts s ∧ Counted s) where
  refl := .refl
  trans := .trans
  call rest r s := (readRule_opFacts.call rest r s).and fun _ _ hid _ _ h =>
    h.same hid rfl rfl rfl (fun _ _ => rfl) id
  complete r s := (readRule_opFacts.complete r s).and fun _ _ hid _ _ h =>
    h.same hid rfl rfl rfl (fun _ _ => rfl) id
  queues s cur q := (readRule_opFacts.queues s cur q).and fun _ _ hid _ _ h =>
    h.same hid rfl rfl rfl (fun _ _ => rfl) id
  frame _ _ hf := (readRule_opFacts.frame _ _ hf).and fun _ _ _ ho _ h => h.frame ho.core hf.toSendFrame
  hello _ _ r ch o hw hst hr hn hsub := by
    refine (readRule_opFacts.hello _ _ r ch o hw hst hr hn hsub).and fun _ _ _ ho _ h => ?_
    exact h.submits ho.core hsub (ho.own.not_completed (ho.own.idle hst hw))
  spec s hst := (readRule_opFacts.spec s hst).and fun _ _ hid _ _ h =>
    h.same hid rfl rfl rfl (fun _ _ => rfl) id
  finish s hst := (readRule_opFacts.finish s hst).and fun _ _ hid _ _ h =>
    h.same hid rfl rfl rfl (fun _ _ => rfl) id
  removed s s' hr := by
    refine (readRule_opFacts.removed s s' hr).and fun hg _ _ _ _ h => h.removed hr ?_
    refine hg (.clear s.conn) ?_
    rw [hr.trace]
    exact List.mem_cons_of_mem _ List.mem_cons_self

theorem closed_counted (env : Env) :
    Closed env (Carries Event.Drained fun s => OpFacts s ∧ Counted s) := by
  refine readRule_counted.closed (fun s x => ?_) (fun s f _ => ?_) (fun s s' hc => ?_) fun s s' hr => ?_
  · exact (emit_opFacts s x).and fun _ _ hid _ _ h => h.same hid rfl rfl rfl (fun _ _ => rfl) id
  · exact (mapTcp_opFacts s f).and fun _ _ hid _ _ h =>
      h.same hid rfl rfl rfl (fun _ _ => rfl) id
  · exact ((closed_opFacts env).crypto s s' hc).and fun _ _ _ ho _ h => h.crypto ho hc
  · exact ((closed_opFacts env).remain s s' hr).and fun _ _ _ ho _ h => h.remain ho hr

end

/-! ### The PKA core and the whole worker -/

section

variable {env : Env} {s s' : Sys} {c : ConnId} {o : OpId}

theorem Counted.keep (h : Counted s) (hconns : ∀ c, (s'.conns c).sess = (s.conns c).sess)
    (hops : s'.ctx.ops = s.ctx.ops) (hring : s'.ctx.submitPkaRing = s.ctx.submitPkaRing)
    (heng : s'.ctx.engine = s.ctx.engine) (hcnt : s'.ctx.curCryptoCnt = s.ctx.curCryptoCnt) :
    Counted s' := by
  refine ⟨?_, fun o ho => ?_, ?_, ?_⟩
  · rw [hring, heng]
    exact h.nodup
  · rw [hring, heng] at ho
    rw [hops]
    obtain ⟨hflag, c, hc, hdone⟩ := h.held o ho
    exact ⟨hflag, c, hc, by rw [hconns]; exact hdone⟩
  · rw [hcnt, heng]
    exact h.count
  · rw [heng]
    exact h.bound

theorem Counted.quiet (h : Counted s) (hq : SysQuiet s s') : Counted s' := by
  obtain ⟨hconns, out, outside, hctx⟩ := hq
  exact h.keep (fun c => by rw [hconns]) (by rw [hctx]) (by rw [hctx]) (by rw [hctx]) (by rw [hctx])

theorem Counted.inserted (h : Counted s) (hi : Inserted c s s') : Counted s' :=
  h.keep (fun i => (hi.sess i).2) (by rw [hi.ctx]) (by rw [hi.ctx]) (by rw [hi.ctx]) (by rw [hi.ctx])

theorem Counted.submitted {priv : Operand} (h : Counted s)
    (hs : handleSubmittedPka priv s = .ok s') : Counted s' := by
  rcases handleSubmittedPka_cases hs with rfl | ⟨o, ring, c, hroom, hring, -, hc, hconns, hctx⟩
  · exact h
  have hperm : (ring ++ (s.ctx.engine ++ [o])).Perm (s.ctx.submitPkaRing ++ s.ctx.engine) := by
    rw [hring, ← List.append_assoc]
    exact List.perm_append_singleton o _
  have hroom' : s.ctx.engine.length < maxOutstandingPkaReq := h.count ▸ hroom
  refine ⟨?_, fun i hi => ?_, ?_, ?_⟩
  · rw [hctx]
    exact hperm.nodup_iff.mpr h.nodup
  · rw [hctx] at hi ⊢
    obtain ⟨hflag, d, hd, hdone⟩ := h.held i (hperm.subset hi)
    refine ⟨?_, d, ?_, ?_⟩
    · by_cases hio : i = o <;> simp [Ctx.setOp, hio, hflag]
    · by_cases hio : i = o
      · subst hio
        simpa [Ctx.setOp] using hd
      · simpa [Ctx.setOp, hio] using hd
    · rw [hconns]
      by_cases hdc : d = c
      · subst hdc
        simpa [Sys.setConn] using hdone
      · simpa [Sys.setConn, hdc] using hdone
  · have hlt : s.ctx.curCryptoCnt.toNat < 64 := hroom
    have hcount := h.count
    rw [hctx]
    simp only [List.length_append, List.length_singleton, UInt32.toNat_add]
    rw [hcount] at hlt ⊢
    exact Nat.mod_eq_of_lt (by simp; omega)
  · rw [hctx]
    simp only [List.length_append, List.length_singleton]
    exact hroom'

theorem Counted.completes {results : List Bytes} (h : Counted s) (hf : OpFacts s)
    (hs : handleCompletedPka o results s = .ok s') : Counted s' := by
  rcases handleCompletedPka_cases hs with rfl | ⟨c, hmem, hc, ⟨hflag, -, -⟩ | ⟨-, -, hconns, hctx⟩⟩
  · exact h
  · have hheld := (h.held o (List.mem_append_right _ hmem)).1
    exact absurd (hheld.symm.trans hflag) nofun
  have hsub : (s.ctx.submitPkaRing ++ s.ctx.engine.erase o).Sublist
      (s.ctx.submitPkaRing ++ s.ctx.engine) :=
    .append_left List.erase_sublist _
  have hgone : o ∉ s.ctx.submitPkaRing ++ s.ctx.engine.erase o := by
    obtain ⟨-, hnd, hdisj⟩ := List.nodup_append.mp h.nodup
    intro hm
    rcases List.mem_append.mp hm with hm | hm
    · exact hdisj o hm o hmem rfl
    · exact ((hnd.mem_erase_iff).mp hm).1 rfl
  refine ⟨?_, fun i hi => ?_, ?_, ?_⟩
  · rw [hctx]
    exact h.nodup.sublist hsub
  · rw [hctx] at hi ⊢
    obtain ⟨hflag, d, hd, hdone⟩ := h.held i (hsub.subset hi)
    refine ⟨hflag, d, hd, ?_⟩
    -- two operations of one session would both be its pending one
    have hdc : d ≠ c := by
      rintro rfl
      have hi' := ((hf.conn d).owner i).mp (by rw [hf.ids]; exact hd)
      have ho' := ((hf.conn d).owner o).mp (by rw [hf.ids]; exact hc)
      exact hgone (Option.some.inj (ho'.symm.trans hi') ▸ hi)
    rw [hconns]
    simpa [Sys.setConn, hdc] using hdone
  · have hpos : 0 < s.ctx.engine.length := List.length_pos_of_mem hmem
    have hcount := h.count
    have hone : (1 : UInt32).toNat ≤ s.ctx.curCryptoCnt.toNat := by
      rw [hcount]
      exact hpos
    rw [hctx]
    show (s.ctx.curCryptoCnt - 1).toNat = _
    rw [UInt32.toNat_sub_of_le _ _ hone, hcount, List.length_erase_of_mem hmem]
    rfl
  · rw [hctx]
    exact Nat.le_trans List.erase_sublist.length_le h.bound

theorem kept_counted (env : Env) : Kept env Event.Drained fun s => OpFacts s ∧ Counted s where
  ids _ h := h.1.ids
  quiet _ _ hq h := ⟨h.1.quiet hq, h.2.quiet hq⟩
  inserted _ _ _ hi h := ⟨h.1.inserted hi, h.2.inserted hi⟩
  closed := closed_counted env
  removed := readRule_counted.removed
  submits _ _ _ hs h := ⟨h.1.submitted hs, h.2.submitted hs⟩
  completes _ _ _ _ hs h := ⟨h.1.completes hs, h.2.completes h.1 hs⟩

theorem initial_counted (n ringCnt : Nat) : Counted (initial n ringCnt) where
  nodup := List.nodup_nil
  held _ h := absurd h List.not_mem_nil
  count := rfl
  bound := Nat.zero_le _

end

/-- As long as no session is cleared with an operation pending, `cur_crypto_cnt` is the number of
operations the engine has and has not returned, at most `MAX_OUTSTANDING_PKA_REQ`. -/
theorem cryptoCnt_eq_outstanding (env : Env) (n ringCnt : Nat) (inputs : List Input) (s : Sys)
    (hrun : run (step env) inputs (initial n ringCnt) = .ok s)
    (hdrained : ∀ e ∈ s.ctx.trace, e.Drained) :
    s.ctx.curCryptoCnt.toNat = s.ctx.engine.length
      ∧ s.ctx.curCryptoCnt.toNat ≤ maxOutstandingPkaReq := by
  have h := ((kept_counted env).holds hrun hdrained
    ⟨initial_opFacts n ringCnt, initial_counted n ringCnt⟩).2
  exact ⟨h.count, h.count ▸ h.bound⟩

theorem cryptoCnt_eq_outstanding_keyGeneration :
    ∃ s, run (step sampleEnv) (sampleServerFlight.take 3) (initial 2 8) = .ok s
      ∧ s.ctx.engine = [0] ∧ s.ctx.curCryptoCnt.toNat = 1 := by
  obtain ⟨s, hs, hg, he⟩ := endsIn_ok
    (fun s : Sys => (∀ e ∈ s.ctx.trace, e.Drained) ∧ s.ctx.engine = [0])
    (run (step sampleEnv) (sampleServerFlight.take 3) (initial 2 8)) (by decide +kernel)
  exact ⟨s, hs, he, (cryptoCnt_eq_outstanding sampleEnv 2 8 _ s hs hg).1.trans (by rw [he]; rfl)⟩

/- The client starts again while the key generation is queued: nothing was counted for it yet. -/
theorem queuedRemoval_wraps :
    ∃ s, run (step sampleEnv) (sampleServerFlight.take 2 ++ [.packet 0 { sampleSyn with seq := 900 }])
        (initial 2 8) = .ok s
      ∧ s.ctx.engine = [] ∧ s.ctx.curCryptoCnt.toNat = 2 ^ 32 - 1 := by
  obtain ⟨s, hs, h⟩ := endsIn_ok
    (fun s : Sys => s.ctx.engine = [] ∧ s.ctx.curCryptoCnt.toNat = 2 ^ 32 - 1)
    (run (step sampleEnv) (sampleServerFlight.take 2 ++ [.packet 0 { sampleSyn with seq := 900 }])
      (initial 2 8)) (by decide +kernel)
  exact ⟨s, hs, h⟩

end Xtls.Nic
