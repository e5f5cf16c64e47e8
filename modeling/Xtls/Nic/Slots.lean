import Xtls.Nic.Stops

/-!
# Free connections

`pop_free_connection` (`tcp.c` 2367-2382) ends the process if `free_session_q` is empty.  Every connection is in
the table or in the queue (`run_slots`).  `process_fin_packet` and `process_rst_packet` take no connection out
of the table, and `remove_hws` only at the next turn of the main loop.
-/

namespace Xtls.Nic

/-- Each of the `n` connections is in the table or in the queue. -/
def Slots (n : Nat) (c : Ctx) : Prop := ∀ i < n, Listed c i ∨ i ∈ c.freeSessionQ

section

variable {env : Env} {s s' : St} {n : Nat}

theorem Slots.same {c c' : Ctx} (h : Slots n c) (htable : c'.htTable = c.htTable)
    (hq : c'.freeSessionQ = c.freeSessionQ) : Slots n c' := by
  intro i hi
  unfold Listed
  rw [htable, hq]
  exact h i hi

theorem SendFrame.slots (hf : SendFrame s s') (h : Slots n s.ctx) : Slots n s'.ctx :=
  h.same hf.htTable (congrArg Ctx.freeSessionQ hf.ctx :)

theorem Submits.slots {fill : Op} {o : OpId} (hsub : Submits fill o s s') (h : Slots n s.ctx) :
    Slots n s'.ctx :=
  h.same (congrArg Ctx.htTable hsub.ctx :) (congrArg Ctx.freeSessionQ hsub.ctx :)

theorem request_slots {fill : Op} (hreq : (∃ o, Rejects o s s') ∨ ∃ o, Submits fill o s s')
    (h : Slots n s.ctx) : Slots n s'.ctx := by
  rcases hreq with ⟨o, hrej⟩ | ⟨o, hsub⟩
  · exact hrej.frame.slots h
  · exact hsub.slots h

theorem Removed.slots (hr : Removed s s') (h : Slots n s.ctx) : Slots n s'.ctx := by
  intro i hi
  rw [hr.freeQ]
  by_cases hid : i = s.conn.id
  · right
    rw [hid]
    exact List.mem_append_right _ (List.mem_singleton_self _)
  · rcases h i hi with ⟨b, hb⟩ | hq
    · left
      refine ⟨b, ?_⟩
      rw [hr.table]
      simp only [htRemove]
      split
      · exact (List.mem_erase_of_ne hid).mpr hb
      · exact hb
    · exact .inr (List.mem_append_left _ hq)

theorem CryptoOutcome.slots (ho : CryptoOutcome env s s') (h : Slots n s.ctx) : Slots n s'.ctx := by
  cases ho with
  | idle => exact h
  | keyGen _ _ _ _ _ hf ha =>
    obtain ⟨off, s1, s2, -, hf1, hreq, rfl⟩ := answerClientHello_cases ha
    have hsecret := request_slots hreq (hf1.slots (hf.slots h))
    exact hsecret
  | sharedSecret => exact h
  | signature => exact h

theorem RemainOutcome.slots (ho : RemainOutcome env s s') (h : Slots n s.ctx) : Slots n s'.ctx := by
  cases ho with
  | idle => exact h
  | certificate _ _ hf hf' hreq => exact request_slots hreq (hf'.slots (hf.slots h))
  | @finished s1 s2 port _ _ hf hf' =>
    exact (sendKeyMeta_frame env port _).slots (hf'.slots (hf.slots h))
  | pending _ _ hf => exact hf.slots h

theorem readRule_slots (n : Nat) :
    ReadRule (Carries (fun _ => True) fun s => OpFacts s ∧ Slots n s.ctx) where
  refl := .refl
  trans := .trans
  call rest r s := (readRule_opFacts.call rest r s).and fun _ _ _ _ _ h => h.same rfl rfl
  complete r s := (readRule_opFacts.complete r s).and fun _ _ _ _ _ h => h.same rfl rfl
  queues s cur q := (readRule_opFacts.queues s cur q).and fun _ _ _ _ _ h => h
  frame _ _ hf := (readRule_opFacts.frame _ _ hf).and fun _ _ _ _ _ h => hf.slots h
  hello _ _ r ch o hw hst hr hn hsub :=
    (readRule_opFacts.hello _ _ r ch o hw hst hr hn hsub).and fun _ _ _ _ _ h => hsub.slots h
  spec s hst := (readRule_opFacts.spec s hst).and fun _ _ _ _ _ h => h
  finish s hst := (readRule_opFacts.finish s hst).and fun _ _ _ _ _ h => h
  removed _ _ hr := (readRule_opFacts.removed _ _ hr).and fun _ _ _ _ _ h => hr.slots h

theorem kept_slots (env : Env) (n : Nat) :
    Kept env (fun _ => True) fun s => OpFacts s ∧ Slots n s.ctx where
  ids s hs := hs.1.ids
  quiet s s' hq hs := by
    refine ⟨(kept_opFacts env).quiet s s' hq hs.1, ?_⟩
    obtain ⟨-, out, outside, hctx⟩ := hq
    exact hs.2.same (by rw [hctx]) (by rw [hctx])
  inserted c s s' hi hs := by
    refine ⟨(kept_opFacts env).inserted c s s' hi hs.1, fun i hlt => ?_⟩
    by_cases hic : i = c
    · subst hic
      exact .inl ⟨_, (hi.mem i _).mpr (.inr ⟨rfl, rfl⟩)⟩
    · rcases hs.2 i hlt with ⟨b, hb⟩ | hq
      · exact .inl ⟨b, (hi.mem i b).mpr (.inl hb)⟩
      · rw [hi.queue] at hq
        exact .inr ((List.mem_cons.mp hq).resolve_left hic)
  closed := by
    refine (readRule_slots n).closed (fun s x => ?_) (fun s f _ => ?_) (fun s s' hc => ?_) fun s s' hr => ?_
    · exact (emit_opFacts s x).and fun _ _ _ _ _ h => h.same rfl rfl
    · exact (mapTcp_opFacts s f).and fun _ _ _ _ _ h => h
    · exact ((closed_opFacts env).crypto s s' hc).and fun _ _ _ ho _ h =>
        (getProcessedCrypto_outcome ho.core.hello hc).slots h
    · exact ((closed_opFacts env).remain s s' hr).and fun _ _ _ _ _ h => hr.slots h
  removed := (readRule_slots n).removed
  submits priv s s' h hs := by
    refine ⟨(kept_opFacts env).submits priv s s' h hs.1, ?_⟩
    rcases handleSubmittedPka_cases h with rfl | ⟨o, ring, d, -, -, -, -, -, hctx⟩
    · exact hs.2
    · exact hs.2.same (by rw [hctx]; rfl) (by rw [hctx]; rfl)
  completes o results s s' h hs := by
    refine ⟨(kept_opFacts env).completes o results s s' h hs.1, ?_⟩
    rcases handleCompletedPka_cases h with rfl | ⟨d, -, -, ⟨-, -, hctx⟩ | ⟨-, -, -, hctx⟩⟩
    · exact hs.2
    all_goals exact hs.2.same (by rw [hctx]) (by rw [hctx])

theorem run_slots {inputs : List Input} {ringCnt : Nat} {s : Sys}
    (h : run (step env) inputs (initial n ringCnt) = .ok s) : Slots n s.ctx := by
  refine ((kept_slots env n).holds h (fun _ _ => trivial) ⟨initial_opFacts n ringCnt, ?_⟩).2
  exact fun i hi => .inr (List.mem_range.mpr hi)

end

/-! ### Open connections -/

def Deed.isEnd : Deed → Bool
  | .clientEnds => true
  | .hostEnds => true
  | _ => false

/-- The connection is in the table and neither side has closed it. -/
def isOpen (L : Observed) (c : ConnId) : Bool :=
  c ∈ L.state.ctx.htTable (calculateHash (L.state.conns c).tcp) ∧ ¬ (L.log c).any Deed.isEnd

def openCnt (n : Nat) (L : Observed) : Nat := (List.range n).countP (isOpen L)

/-- What a packet of type `k` is to find: FIN and RST a connection that is onloaded, and a SYN for a new
connection none in the table that the host has closed. -/
def OrderlyFor (n : Nat) (s : Sys) (k : Option PacketType) : Except Halt (Option ConnId) → Prop
  | .ok (some c) => k = some .tcpFin ∨ k = some .tcpRst → (s.conns c).tcp.onload = true
  | .ok none => k = some .tcpSyn → ∀ c < n, c ∈ s.ctx.htTable (calculateHash (s.conns c).tcp) →
      (s.conns c).tcp.hwsReadyToDel = false
  | .error _ => True

instance (n : Nat) (s : Sys) (k : Option PacketType) (found : Except Halt (Option ConnId)) :
    Decidable (OrderlyFor n s k found) :=
  match found with
  | .ok (some c) =>
    inferInstanceAs (Decidable (k = some .tcpFin ∨ k = some .tcpRst → (s.conns c).tcp.onload = true))
  | .ok none =>
    inferInstanceAs (Decidable (k = some .tcpSyn →
      ∀ c < n, c ∈ s.ctx.htTable (calculateHash (s.conns c).tcp) → (s.conns c).tcp.hwsReadyToDel = false))
  | .error _ => inferInstanceAs (Decidable True)

/-- No client sends FIN or RST before its connection is onloaded, and a SYN for a new connection arrives
when those that the host has closed are out of the table. -/
def Orderly (n : Nat) (x : Input) (s : Sys) : Prop :=
  match x with
  | .packet port p => OrderlyFor n s (validatePacketType port p) (searchTcpConnection p s)
  | _ => True

instance (n : Nat) (x : Input) (s : Sys) : Decidable (Orderly n x s) :=
  match x with
  | .packet port p =>
    inferInstanceAs (Decidable (OrderlyFor n s (validatePacketType port p) (searchTcpConnection p s)))
  | .serve _ => inferInstanceAs (Decidable True)
  | .pkaSubmit _ => inferInstanceAs (Decidable True)
  | .pkaComplete _ _ => inferInstanceAs (Decidable True)
  | .outside _ => inferInstanceAs (Decidable True)

/- A connection that the host has closed is marked until it is removed. -/
def Marked (log : List Deed) (v : Stage) : Prop :=
  v.listed → .hostEnds ∈ log → v.hwsReadyToDel = true

section

variable {env : Env} {v v' : Stage} {ds : List Deed} {s : Sys} {c : ConnId} {x : Input}

theorem Stage.Step.marked (hs : v.Step ds v') (hl : v'.listed) : v.listed
    ∧ (v.hwsReadyToDel = true → v'.hwsReadyToDel = true)
    ∧ (.hostEnds ∈ ds → v'.hwsReadyToDel = true) := by
  have hsends : v.sends.hwsReadyToDel = v.hwsReadyToDel := by rw [v.sends_eq]
  have hcalls : .hostEnds ∉ v.calls := by
    unfold Stage.calls
    split
    · exact List.not_mem_nil
    · exact fun h => absurd (List.mem_singleton.mp h) nofun
  have hloses : .hostEnds ∉ v.loses := by
    unfold Stage.loses
    split
    · exact List.not_mem_nil
    · exact fun h => absurd (List.mem_singleton.mp h) nofun
  have hnil : .hostEnds ∉ ([] : List Deed) := List.not_mem_nil
  have hone : ∀ d : Deed, d ≠ .hostEnds → .hostEnds ∉ [d] := fun d hd h => hd (List.mem_singleton.mp h).symm
  cases hs with
  | encryptedExtensions h => exact ⟨h, fun h => hsends.trans h, fun h => absurd h hcalls⟩
  | certificate h => exact ⟨h, fun h => hsends.trans h, fun h => absurd h hcalls⟩
  | certificateVerify h => exact ⟨h, fun h => hsends.trans h, fun h => absurd h hcalls⟩
  | finished h => exact ⟨h, fun h => hsends.trans h, fun h => absurd h hcalls⟩
  | store _ _ frame =>
    refine ⟨hl, fun h => h, fun h => ?_⟩
    exact (List.mem_append.mp h).elim (fun h => absurd h hloses) fun h => absurd h (hone _ nofun)
  | hostEnds => exact ⟨hl, fun _ => rfl, fun _ => rfl⟩
  | remove => exact absurd hl id
  | cipherSpec => exact ⟨hl, fun h => h, fun h => absurd h hnil⟩
  | finish => exact ⟨hl, fun h => h, fun h => absurd h hnil⟩
  | serverHello => exact ⟨hl, fun h => h, fun h => absurd h hnil⟩
  | keys => exact ⟨hl, fun h => h, fun h => absurd h hnil⟩
  | apply => exact ⟨hl, fun h => h, fun h => absurd h hnil⟩
  | flight => exact ⟨hl, fun h => h, fun h => absurd h (hone _ nofun)⟩
  | forward => exact ⟨hl, fun h => h, fun h => absurd h (hone _ nofun)⟩
  | migFin => exact ⟨hl, fun h => h, fun h => absurd h (hone _ nofun)⟩
  | refuse => exact ⟨hl, fun h => h, fun h => absurd h (hone _ nofun)⟩
  | clientEnds => exact ⟨hl, fun h => h, fun h => absurd h (hone _ nofun)⟩

theorem lifeRule_marked : LifeRule Marked where
  initial hl := absurd hl id
  created p _ _ _ _ h := absurd (List.mem_singleton.mp h) nofun
  step log v ds v' _ hs h := by
    intro hl hmem
    obtain ⟨hl, hkeep, hnew⟩ := hs.marked hl
    exact (List.mem_append.mp hmem).elim (fun hmem => hkeep (h hl hmem)) hnew

/-! ### No end of the client -/

/- Only FIN and RST before the onload end a connection for its client. -/
theorem clientEnds_notMem_deeds {n : Nat} (hx : Orderly n x s) : .clientEnds ∉ deeds env x s c := by
  intro hd
  rcases mem_deeds hd with ⟨port, p, rfl, hfound, hdeed⟩ | ⟨-, hdeed⟩
  · cases hdeed with
    | clientEnds htype honload =>
      simp only [Orderly, OrderlyFor, hfound] at hx
      exact honload (hx htype)
  · cases hdeed

/-! ### A SYN finds a free connection -/

/-- In a run whose steps are all orderly a SYN finds a free connection if fewer than `n` connections are
open. -/
theorem freeConnection_found {n ringCnt : Nat} {inputs : List Input} {L : Observed}
    (ha : Along (observedStep env) (fun x L => Orderly n x L.state) inputs (.initial n ringCnt))
    (h : run (observedStep env) inputs (.initial n ringCnt) = .ok L) (hx : Orderly n x L.state)
    (hopen : openCnt n L < n) : step env x L.state ≠ .error .notEnoughSession := by
  intro hstep
  obtain ⟨hs, hmarked⟩ := run_obeys lifeRule_marked h
  have hslots := run_slots (run_observed h)
  cases step_throws env hs x _ hstep with
  | common hc => exact hc
  | session hinput hsyn hnew hempty =>
    subst hinput
    simp only [Orderly, OrderlyFor, hnew] at hx
    -- the queue is empty, so that every connection is in the table, and none of them is closed
    have hall : ∀ c ∈ List.range n, isOpen L c = true := by
      intro c hc
      have hc := List.mem_range.mp hc
      have hlisted : Listed L.state.ctx c := (hslots c hc).resolve_right (by rw [hempty]; exact List.not_mem_nil)
      have hbucket := hs.facts.2.bucket hlisted
      refine decide_eq_true ⟨hbucket, fun hany => ?_⟩
      obtain ⟨d, hd, hend⟩ := List.any_eq_true.mp hany
      cases d with
      | clientEnds =>
        exact run_deeds_along (P := (· ≠ .clientEnds))
          (fun x s _ hx d hd he => clientEnds_notMem_deeds hx (he ▸ hd)) (fun _ => nofun) ha h _ hd rfl
      | hostEnds =>
        have hdel := hmarked c (hs.listed.mpr hlisted) hd
        have hnot := hx hsyn c hc hbucket
        exact absurd (hdel.symm.trans hnot) nofun
      | _ => exact absurd hend nofun
    have hcount : openCnt n L = n := by
      rw [openCnt, List.countP_eq_length.mpr hall, List.length_range]
    omega

theorem freeConnection_found_second : ∃ L,
    run (observedStep sampleEnv) [.packet 0 sampleSyn] (.initial 2 8) = .ok L ∧ openCnt 2 L = 1
    ∧ step sampleEnv (.packet 0 { sampleSyn with srcPort := 8 }) L.state ≠ .error .notEnoughSession := by
  have ha : Along (observedStep sampleEnv) (fun x L => Orderly 2 x L.state) [.packet 0 sampleSyn]
      (.initial 2 8) := by decide +kernel
  obtain ⟨L, hL, hopen, hx⟩ := endsIn_ok
    (fun L : Observed => openCnt 2 L = 1 ∧ Orderly 2 (.packet 0 { sampleSyn with srcPort := 8 }) L.state)
    (run (observedStep sampleEnv) [.packet 0 sampleSyn] (.initial 2 8)) (by decide +kernel)
  exact ⟨L, hL, hopen, freeConnection_found ha hL hx (by omega)⟩

def sampleFin : Packet := { sampleSyn with flags := TCP_FLAG_FIN, seq := 101 }

/- The only connection is closed by its client, and the next SYN ends the process. -/
theorem fin_keepsConnection : ∃ L,
    run (observedStep sampleEnv) [.packet 0 sampleSyn, .packet 0 sampleFin] (.initial 1 8) = .ok L
    ∧ (L.log 0).any Deed.isEnd = true ∧ openCnt 1 L = 0
    ∧ step sampleEnv (.packet 0 { sampleSyn with srcPort := 8 }) L.state = .error .notEnoughSession := by
  obtain ⟨L, hL, hend, hopen, hstop⟩ := endsIn_ok
    (fun L : Observed => (L.log 0).any Deed.isEnd = true ∧ openCnt 1 L = 0
      ∧ stopsFor .notEnoughSession
        (step sampleEnv (.packet 0 { sampleSyn with srcPort := 8 }) L.state) = true)
    (run (observedStep sampleEnv) [.packet 0 sampleSyn, .packet 0 sampleFin] (.initial 1 8))
    (by decide +kernel)
  exact ⟨L, hL, hend, hopen, stopsFor_error _ _ hstop⟩

end

end Xtls.Nic
