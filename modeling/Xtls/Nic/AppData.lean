import Xtls.Nic.Course

/-!
# Packets that wait for the host

A packet of an onloaded connection is copied to `pending_app_data`, which holds one packet of at most
`MAX_APP_DATA_SIZE` bytes, and `forward_app_data` sends it to the host port (`tcp.c` 2685-2778,
2893-2934, 3508-3536).
-/

namespace Xtls.Nic

def Deed.storedFrame : Deed → Option Bytes
  | .stored frame => some frame
  | _ => none

def Deed.forwardedFrame : Deed → Option Bytes
  | .forwarded v => some v.pendingAppData
  | _ => none

def Deed.handledFrame : Deed → Option Bytes
  | .forwarded v => some v.pendingAppData
  | .lost frame => some frame
  | _ => none

def storedOf (log : List Deed) : List Bytes := log.filterMap Deed.storedFrame

def forwardedOf (log : List Deed) : List Bytes := log.filterMap Deed.forwardedFrame

def handledOf (log : List Deed) : List Bytes := log.filterMap Deed.handledFrame

/- `pending_app_data_len` is 0 while nothing waits. -/
def waiting (pending : Bytes) : List Bytes := if pending = [] then [] else [pending]

/-- Everything that was stored has left `pending_app_data` in order, but for what is still there. -/
def Held (log : List Deed) (v : Stage) : Prop :=
  (storedOf log).filter (· ≠ []) = handledOf log ++ waiting v.pendingAppData

section

variable {v v' : Stage} {ds log : List Deed}

theorem handledOf_loses (v : Stage) : handledOf v.loses = waiting v.pendingAppData := by
  unfold Stage.loses waiting
  split <;> rfl

theorem storedOf_loses (v : Stage) : storedOf v.loses = [] := by
  unfold Stage.loses
  split <;> rfl

theorem waiting_filter (frame : Bytes) : [frame].filter (· ≠ []) = waiting frame := by
  cases frame <;> rfl

/- One step: what was there and what comes in is what goes out and what is there then. -/
theorem Stage.Step.held (hs : v.Step ds v') : waiting v.pendingAppData ++ (storedOf ds).filter (· ≠ [])
    = handledOf ds ++ waiting v'.pendingAppData := by
  have hcalls : storedOf v.calls = [] ∧ handledOf v.calls = [] := by
    unfold Stage.calls
    split <;> exact ⟨rfl, rfl⟩
  have hsends : v.sends.pendingAppData = v.pendingAppData := by rw [v.sends_eq]
  have hsent : waiting v.pendingAppData ++ (storedOf v.calls).filter (· ≠ [])
      = handledOf v.calls ++ waiting v.sends.pendingAppData := by
    rw [hcalls.1, hcalls.2, hsends]
    exact List.append_nil _
  cases hs with
  | encryptedExtensions => exact hsent
  | certificate => exact hsent
  | certificateVerify => exact hsent
  | finished => exact hsent
  | store hl ho frame =>
    have hstored : storedOf (v.loses ++ [.stored frame]) = [frame] := by
      rw [storedOf, List.filterMap_append]
      exact congrArg (· ++ [frame]) (storedOf_loses v)
    have hhandled : handledOf (v.loses ++ [.stored frame]) = waiting v.pendingAppData := by
      rw [handledOf, List.filterMap_append]
      exact (congrArg (· ++ []) (handledOf_loses v)).trans (List.append_nil _)
    rw [hstored, hhandled, waiting_filter]
  | forward ha hp =>
    rw [waiting, if_neg hp]
    rfl
  | remove =>
    rw [storedOf_loses, handledOf_loses]
    rfl
  | cipherSpec => exact List.append_nil _
  | finish => exact List.append_nil _
  | serverHello => exact List.append_nil _
  | keys => exact List.append_nil _
  | flight => exact List.append_nil _
  | apply => exact List.append_nil _
  | migFin => exact List.append_nil _
  | refuse => exact List.append_nil _
  | clientEnds => exact List.append_nil _
  | hostEnds => exact List.append_nil _

theorem lifeRule_held : LifeRule Held where
  initial := rfl
  created p v hv hout := by
    have hp : v.pendingAppData = [] := hv.kept.resolve_left fun h => hout h.1
    show [] = waiting v.pendingAppData
    rw [hp]
    rfl
  step log v ds v' hv hs h := by
    unfold Held at h ⊢
    rw [storedOf, handledOf, List.filterMap_append, List.filterMap_append, List.filter_append]
    show (storedOf log).filter (· ≠ []) ++ (storedOf ds).filter (· ≠ [])
      = handledOf log ++ handledOf ds ++ waiting v'.pendingAppData
    rw [h, List.append_assoc, List.append_assoc, hs.held]

end

/-! ### Steps that lose nothing -/

/-- The packet is one that `process_handshake_packet` or `process_ack_packet` stores. -/
def isStored (port : UInt16) (p : Packet) (t : Tcp) : Bool :=
  t.onload ∧ (validatePacketType port p = some .sslHandshake
    ∨ validatePacketType port p = some .tcpAck ∧ ¬ (p.ack = t.cookie + 1 ∧ p.payload = []))

/-- Input `x` leaves to connection `c` the packet that waits: a packet to be stored finds no other one
and is short enough, and while one waits there is no SYN that replaces the connection, and at its
next turn in the main loop neither a record to be read nor a close of the host. -/
def Undisturbed (x : Input) (s : Sys) (c : ConnId) : Prop :=
  let t := (s.conns c).tcp
  match x with
  | .packet port p => searchTcpConnection p s = .ok (some c) →
    (isStored port p t → t.pendingAppData = []
      ∧ 14 + 20 + (p.dataOff >>> 4).toNat * 4 + p.payload.length ≤ maxAppDataSize)
    ∧ (validatePacketType port p = some .tcpSyn ∧ p.seq + 1 ≠ t.lastRecvSeq → t.pendingAppData = [])
  | .serve d => d = c → t.pendingAppData ≠ [] → t.hwsReadyToDel = false ∧ (s.conns c).sess.recvQ = []
  | _ => True

instance (x : Input) (s : Sys) (c : ConnId) : Decidable (Undisturbed x s c) :=
  match x with
  | .packet _ _ => inferInstanceAs (Decidable (_ → _ ∧ _))
  | .serve _ => inferInstanceAs (Decidable (_ → _ → _ ∧ _))
  | .pkaSubmit _ => inferInstanceAs (Decidable True)
  | .pkaComplete _ _ => inferInstanceAs (Decidable True)
  | .outside _ => inferInstanceAs (Decidable True)

def Deed.Clean : Deed → Prop
  | .lost _ => False
  | .stored frame => frame ≠ [] ∧ frame.length ≤ maxAppDataSize
  | _ => True

section

variable {env : Env} {s s' : St} {d : Deed} {p : Packet} {others : ConnId → Conn}

theorem loses_nil (h : s.conn.tcp.pendingAppData = []) : s.stage.loses = [] := if_pos h

theorem lostBy_nil (h : s.conn.tcp.pendingAppData = []) (s' : St) : lostBy s s' = [] := by
  unfold lostBy
  rw [loses_nil h, ite_self]

theorem storeDeeds_clean (hp : s.conn.tcp.pendingAppData = [])
    (hlen : 14 + 20 + (p.dataOff >>> 4).toNat * 4 + p.payload.length ≤ maxAppDataSize)
    (hd : d ∈ storeDeeds p s) : d.Clean := by
  rw [storeDeeds, loses_nil hp] at hd
  rw [List.mem_singleton.mp hd]
  have hsize : p.stored.length = 14 + 20 + (p.dataOff >>> 4).toNat * 4 + p.payload.length := by
    unfold Packet.stored Packet.storedLen
    rw [slice_length, UInt16.toNat_ofNat']
    unfold maxAppDataSize at hlen
    omega
  refine ⟨fun he => ?_, by omega⟩
  rw [he, List.length_nil] at hsize
  omega

theorem Deed.Sends.clean (h : d.Sends) : d.Clean := by
  cases d with
  | encrypts call => trivial
  | flight v => trivial
  | _ => exact absurd h id

theorem Deed.Sends.forwarded (h : d.Sends) : d.forwardedFrame = none := by
  cases d with
  | forwarded v => exact absurd h id
  | _ => rfl

theorem forwardDeeds_clean (hd : d ∈ forwardDeeds s) : d.Clean := by
  unfold forwardDeeds at hd
  split at hd
  · rw [List.mem_singleton.mp hd]
    trivial
  · exact absurd hd List.not_mem_nil

theorem processResults_pending (hp : OpFacts (s.among others)) (h : processResults env s = .ok s')
    (hdel : s.conn.tcp.hwsReadyToDel = false) :
    s'.conn.tcp.pendingAppData = s.conn.tcp.pendingAppData := by
  obtain ⟨t, ht, h⟩ := bind_ok h
  have hstays := (getProcessedCrypto_outcome hp.core.hello ht).stays
  have hpend : t.conn.tcp.pendingAppData = s.conn.tcp.pendingAppData :=
    (congrArg Tcp.pendingAppData hstays.tcp :)
  have hready : t.conn.tcp.hwsReadyToDel = s.conn.tcp.hwsReadyToDel :=
    (congrArg Tcp.hwsReadyToDel hstays.tcp :)
  have happly : (applyHws t).conn.tcp.hwsReadyToDel = t.conn.tcp.hwsReadyToDel
      ∧ (applyHws t).conn.tcp.pendingAppData = t.conn.tcp.pendingAppData := by
    unfold applyHws
    split <;> exact ⟨rfl, rfl⟩
  rcases removeHws_cases h with ⟨-, rfl⟩ | ⟨hws, -⟩
  · rw [happly.2, hpend]
  · rw [happly.1, hready, hdel] at hws
    exact absurd hws.2 nofun

theorem serveDeeds_clean (hp : OpFacts (s.among others))
    (hcalm : s.conn.tcp.pendingAppData ≠ [] →
      s.conn.tcp.hwsReadyToDel = false ∧ s.conn.sess.recvQ = [])
    (hd : d ∈ serveDeeds env s) : d.Clean := by
  unfold serveDeeds at hd
  split at hd
  · exact absurd hd List.not_mem_nil
  · rename_i s1 h1
    rcases List.mem_append.mp hd with hd | hd
    · exact (mem_helloCall hd).clean
    · split at hd
      · exact absurd hd List.not_mem_nil
      · rename_i s2 h2
        have hlost : lostBy s s2 = [] := by
          by_cases hpend : s.conn.tcp.pendingAppData = []
          · exact lostBy_nil hpend s2
          · obtain ⟨hdel, hq⟩ := hcalm hpend
            have hread : processSessionRead env s = .ok s := by
              unfold processSessionRead
              rw [hq]
              rfl
            rw [hread] at h1
            cases h1
            exact lostBy_same (processResults_pending hp h2 hdel)
        rw [hlost, List.nil_append] at hd
        exact (List.mem_append.mp hd).elim forwardDeeds_clean fun hd => (mem_remainDeeds hd).clean

theorem Stage.Sound.unloaded (hv : s.stage.Sound) (ho : ¬ s.conn.tcp.onload = true) :
    s.conn.tcp.pendingAppData = [] := hv.kept.resolve_left fun h => ho h.2

theorem packetDeeds_clean {port : UInt16} (hv : s.stage.Sound)
    (hstore : isStored port p s.conn.tcp = true → s.conn.tcp.pendingAppData = []
      ∧ 14 + 20 + (p.dataOff >>> 4).toNat * 4 + p.payload.length ≤ maxAppDataSize)
    (hsyn : validatePacketType port p = some .tcpSyn ∧ p.seq + 1 ≠ s.conn.tcp.lastRecvSeq →
      s.conn.tcp.pendingAppData = [])
    (hd : d ∈ packetDeeds env port p s) : d.Clean := by
  unfold packetDeeds at hd
  unfold isStored at hstore
  cases htype : validatePacketType port p with
  | none =>
    rw [htype] at hd
    exact absurd hd List.not_mem_nil
  | some k =>
    rw [htype] at hd hstore hsyn
    simp only [typeDeeds] at hd
    cases k with
    | sslHandshake =>
      dsimp only at hd
      split at hd
      · rename_i ho
        obtain ⟨hp, hlen⟩ := hstore (decide_eq_true ⟨ho, .inl rfl⟩)
        exact storeDeeds_clean hp hlen hd
      · rename_i ho
        split at hd
        · rw [lostBy_nil (hv.unloaded ho)] at hd
          exact absurd hd List.not_mem_nil
        · exact absurd hd List.not_mem_nil
    | tcpAck =>
      dsimp only at hd
      split at hd
      · exact absurd hd List.not_mem_nil
      · rename_i hack
        split at hd
        · rename_i ho
          obtain ⟨hp, hlen⟩ := hstore (decide_eq_true ⟨ho, .inr ⟨rfl, hack⟩⟩)
          exact storeDeeds_clean hp hlen hd
        · exact absurd hd List.not_mem_nil
    | hostMigFin =>
      rw [List.mem_singleton.mp hd]
      trivial
    | tcpSyn =>
      dsimp only at hd
      split at hd
      · exact absurd hd List.not_mem_nil
      · rename_i hnew
        rw [loses_nil (hsyn ⟨rfl, hnew⟩)] at hd
        exact absurd hd List.not_mem_nil
    | hostClose =>
      dsimp only at hd
      split at hd
      · rw [List.mem_singleton.mp hd]
        trivial
      · exact absurd hd List.not_mem_nil
    | tcpFin =>
      dsimp only at hd
      split at hd
      · exact absurd hd List.not_mem_nil
      · rw [List.mem_singleton.mp hd]
        trivial
    | tcpRst =>
      dsimp only at hd
      split at hd
      · exact absurd hd List.not_mem_nil
      · rw [List.mem_singleton.mp hd]
        trivial
    | tcpSynack => exact absurd hd List.not_mem_nil

theorem deeds_clean {x : Input} {s : Sys} {c : ConnId} (hs : s.Conducted) (hx : Undisturbed x s c)
    (hd : d ∈ deeds env x s c) : d.Clean := by
  unfold deeds at hd
  cases x with
  | packet port p =>
    dsimp only at hd
    split at hd
    · rename_i e hfound
      split at hd
      · rename_i he
        subst he
        obtain ⟨hstore, hsyn⟩ := hx hfound
        have hv : (⟨s.conns e, s.ctx⟩ : St).stage.Sound := hs.sound e
        exact packetDeeds_clean hv hstore hsyn hd
      · exact absurd hd List.not_mem_nil
    · exact absurd hd List.not_mem_nil
  | serve e =>
    dsimp only at hd
    split at hd
    · rename_i he
      obtain ⟨rfl, -⟩ := he
      exact serveDeeds_clean (hs.among e).1 (hx rfl) hd
    · exact absurd hd List.not_mem_nil
  | pkaSubmit priv => exact absurd hd List.not_mem_nil
  | pkaComplete o results => exact absurd hd List.not_mem_nil
  | outside o => exact absurd hd List.not_mem_nil

/-! ### What reaches the host port -/

def Ctx.frames (c : Ctx) : List Out := c.out.filter Out.isFrame

structure Unsent (s s' : St) : Prop where
  frames : s'.ctx.frames = s.ctx.frames
  port : s'.conn.tcp.portid = s.conn.tcp.portid
      ∧ s'.conn.tcp.pendingAppData = s.conn.tcp.pendingAppData
    ∨ s'.conn.tcp.pendingAppData = []

theorem Unsent.refl (s : St) : Unsent s s := ⟨rfl, .inl ⟨rfl, rfl⟩⟩

theorem Unsent.trans {t : St} (h1 : Unsent s t) (h2 : Unsent t s') : Unsent s s' := by
  refine ⟨h2.frames.trans h1.frames, ?_⟩
  rcases h2.port with ⟨hport, hpend⟩ | hpend
  · rw [hport, hpend]
    exact h1.port
  · exact .inr hpend

theorem Stays.unsent (hs : Stays s s') (hf : s'.ctx.frames = s.ctx.frames) : Unsent s s' :=
  ⟨hf, .inl ⟨(congrArg Tcp.portid hs.tcp :), (congrArg Tcp.pendingAppData hs.tcp :)⟩⟩

theorem SendFrame.frames (hf : SendFrame s s') : s'.ctx.frames = s.ctx.frames :=
  (congrArg Ctx.out hf.ctx :)

theorem Submits.frames {fill : Op} {o : OpId} (hsub : Submits fill o s s') :
    s'.ctx.frames = s.ctx.frames := (congrArg Ctx.out hsub.ctx :)

theorem request_frames {fill : Op} (h : (∃ o, Rejects o s s') ∨ ∃ o, Submits fill o s s') :
    s'.ctx.frames = s.ctx.frames := by
  rcases h with ⟨o, hrej⟩ | ⟨o, hsub⟩
  · exact hrej.frame.frames
  · exact hsub.frames

theorem Removed.unsent (hr : Removed s s') : Unsent s s' :=
  ⟨congrArg (List.filter Out.isFrame) hr.out, .inr (by rw [hr.tcp]; rfl)⟩

theorem readRule_unsent : ReadRule Unsent where
  refl := .refl
  trans := .trans
  call _ _ _ := ⟨rfl, .inl ⟨rfl, rfl⟩⟩
  complete _ _ := ⟨rfl, .inl ⟨rfl, rfl⟩⟩
  queues _ _ _ := ⟨rfl, .inl ⟨rfl, rfl⟩⟩
  frame _ _ hf := hf.stays.unsent hf.frames
  hello _ _ _ _ _ _ _ _ _ hsub := hsub.stays.unsent hsub.frames
  spec _ _ := ⟨rfl, .inl ⟨rfl, rfl⟩⟩
  finish _ _ := ⟨rfl, .inl ⟨rfl, rfl⟩⟩
  removed _ _ hr := hr.unsent

theorem CryptoOutcome.unsent (h : CryptoOutcome env s s') : Unsent s s' := by
  refine h.stays.unsent ?_
  cases h with
  | idle => rfl
  | @keyGen o r ch t u _ _ _ _ _ hf ha =>
    obtain ⟨off, s1, s2, -, hf1, hreq, rfl⟩ := answerClientHello_cases ha
    exact (request_frames hreq).trans (hf1.frames.trans hf.frames)
  | sharedSecret => rfl
  | signature => rfl

theorem RemainOutcome.unsent (h : RemainOutcome env s s') : Unsent s s' := by
  refine h.stays.unsent ?_
  cases h with
  | idle => rfl
  | certificate _ _ hf hf' hreq => exact (request_frames hreq).trans (hf'.frames.trans hf.frames)
  | @finished s1 s2 port _ _ hf hf' =>
    exact (sendKeyMeta_frame env port _).frames.trans (hf'.frames.trans hf.frames)
  | pending _ _ hf => exact hf.frames

theorem processResults_unsent (hp : OpFacts (s.among others)) (h : processResults env s = .ok s') :
    Unsent s s' := by
  obtain ⟨t, ht, h⟩ := bind_ok h
  refine (getProcessedCrypto_outcome hp.core.hello ht).unsent.trans ?_
  have happly : Unsent t (applyHws t) := by
    unfold applyHws
    split
    · exact ⟨rfl, .inl ⟨rfl, rfl⟩⟩
    · exact .refl t
  refine happly.trans ?_
  rcases removeHws_cases h with ⟨-, rfl⟩ | ⟨-, hr⟩
  · exact .refl _
  · exact hr.unsent

theorem forwardedOf_append (log ds : List Deed) :
    forwardedOf (log ++ ds) = forwardedOf log ++ forwardedOf ds := List.filterMap_append

theorem forwardedOf_sends {ds : List Deed} (h : ∀ d ∈ ds, d.Sends) : forwardedOf ds = [] :=
  List.filterMap_eq_nil_iff.mpr fun d hd => (h d hd).forwarded

theorem forwardedOf_lostBy (s s' : St) : forwardedOf (lostBy s s') = [] := by
  unfold lostBy Stage.loses
  split
  · rfl
  · split <;> rfl

theorem serveConnection_frames (hp : OpFacts (s.among others) ∧ Placed (s.among others))
    (h : serveConnection env s = .ok s') :
    s'.ctx.frames = s.ctx.frames
        ++ (forwardedOf (serveDeeds env s)).map (.frame (s.conn.tcp.portid + 1))
      ∧ (s'.conn.tcp.hwsApplied = true → s'.conn.tcp.pendingAppData = []) := by
  rw [serveConnection_eq] at h
  obtain ⟨s1, h1, h⟩ := bind_ok h
  obtain ⟨s2, h2, h⟩ := bind_ok h
  have hread : Unsent s s1 := processSessionReadLoop_rule readRule_unsent.refl readRule_unsent.trans
    (fun _ _ _ _ _ hw _ hr => readRule_unsent.queued hw hr) h1
  obtain ⟨-, hp1⟩ := (processSessionRead_conducts h1).carries.carries (fun _ _ => trivial) others hp
  have hbefore := hread.trans (processResults_unsent hp1.1 h2)
  have hremain := sendRemainServerRecords_outcome h
  have hafter := hremain.unsent
  have hdeeds : forwardedOf (serveDeeds env s) = forwardedOf (forwardDeeds s2) := by
    simp only [serveDeeds, h1, h2, forwardedOf_append]
    rw [forwardedOf_sends fun _ => mem_helloCall, forwardedOf_sends fun _ => mem_remainDeeds,
      forwardedOf_lostBy]
    simp
  rw [hafter.frames, hdeeds]
  constructor
  · unfold forwardDeeds forwardAppData
    split
    · rename_i hf
      obtain ⟨hport, -⟩ := hbefore.port.resolve_right hf.2
      rw [← hbefore.frames, ← hport]
      exact List.filter_append ..
    · rw [← hbefore.frames]
      exact (List.append_nil _).symm
  · intro happlied
    have happ : s'.conn.tcp.hwsApplied = (forwardAppData s2).conn.tcp.hwsApplied :=
      (congrArg Tcp.hwsApplied hremain.stays.tcp :)
    have hpend : s'.conn.tcp.pendingAppData = (forwardAppData s2).conn.tcp.pendingAppData :=
      (congrArg Tcp.pendingAppData hremain.stays.tcp :)
    rw [happ] at happlied
    rw [hpend]
    unfold forwardAppData at happlied ⊢
    split
    · rfl
    · rename_i hf
      rw [if_neg hf] at happlied
      exact not_not.mp fun hne => hf ⟨happlied, hne⟩

end

/-! ### Every run -/

section

variable {env : Env} {inputs : List Input} {n ringCnt : Nat} {L : Observed} {c : ConnId}

/-- In a run whose steps are all undisturbed, the packets that were stored are those that were sent to
the host, in order, and the one that still waits; none is too long, also in the next step `x`.  What is
sent goes to the host port as it was stored, and once the rules are applied nothing is left to wait at
the end of a turn. -/
theorem appData_delivered (ha : Along (observedStep env) (fun x L => Undisturbed x L.state c) inputs
      (.initial n ringCnt))
    (h : run (observedStep env) inputs (.initial n ringCnt) = .ok L) :
    storedOf (L.log c) = forwardedOf (L.log c) ++ waiting (L.state.conns c).tcp.pendingAppData
    ∧ (∀ x, Undisturbed x L.state c →
      ∀ frame ∈ storedOf (L.log c ++ deeds env x L.state c), frame.length ≤ maxAppDataSize)
    ∧ ∀ s', step env (.serve c) L.state = .ok s' →
      s'.ctx.frames = L.state.ctx.frames ++ (forwardedOf (deeds env (.serve c) L.state c)).map
        (.frame ((L.state.conns c).tcp.portid + 1))
      ∧ ((s'.conns c).tcp.hwsApplied = true → (s'.conns c).tcp.pendingAppData = []) := by
  have hclean : ∀ d ∈ L.log c, d.Clean :=
    run_deeds_along (fun x s hs hx d => deeds_clean hs hx) (fun _ => trivial) ha h
  have hobeys := run_obeys lifeRule_held h
  refine ⟨?_, fun x hx frame hf => ?_, fun s' hs => ?_⟩
  · have hheld := hobeys.2 c
    unfold Held at hheld
    have hstored : (storedOf (L.log c)).filter (· ≠ []) = storedOf (L.log c) := by
      refine List.filter_eq_self.mpr fun frame hf => ?_
      obtain ⟨d, hd, hframe⟩ := List.mem_filterMap.mp hf
      cases d with
      | stored f =>
        cases hframe
        exact decide_eq_true (hclean _ hd).1
      | _ => cases hframe
    have hhandled : handledOf (L.log c) = forwardedOf (L.log c) := by
      refine List.filterMap_congr fun d hd => ?_
      cases d with
      | lost f => exact absurd (hclean _ hd) id
      | _ => rfl
    rw [← hstored, hheld, hhandled]
    rfl
  · obtain ⟨d, hd, hframe⟩ := List.mem_filterMap.mp hf
    have hd : d.Clean := (List.mem_append.mp hd).elim (hclean d) (deeds_clean hobeys.1 hx)
    cases d with
    | stored f =>
      cases hframe
      exact hd.2
    | _ => cases hframe
  · simp only [step] at hs
    split at hs
    · rename_i hmem
      obtain ⟨t, ht, rfl⟩ := Sys.on_ok hs
      have hconn : (L.state.put c t).conns c = t.conn := if_pos rfl
      rw [hconn]
      have hdeeds : deeds env (.serve c) L.state c = serveDeeds env ⟨L.state.conns c, L.state.ctx⟩ := by
        simp only [deeds, hmem, and_true, if_true]
      rw [hdeeds]
      exact serveConnection_frames (hobeys.1.among c) ht
    · rename_i hmem
      cases hs
      have hdeeds : deeds env (.serve c) L.state c = [] := by
        simp only [deeds, hmem, and_false, if_false]
      rw [hdeeds]
      refine ⟨(List.append_nil _).symm, fun _ => ?_⟩
      refine (hobeys.1.sound c).kept.resolve_left fun hk => hmem ?_
      exact hobeys.1.facts.2.bucket (hobeys.1.listed.mp hk.1)

/- Two packets, each of which finds its turn in the main loop. -/
def sampleTurns : List Input :=
  sampleHandshake
    ++ [.packet 0 (sampleRequest 1), .serve 0, .packet 0 (sampleRequest 2), .serve 0]

theorem appData_delivered_turns : ∃ L, run (observedStep sampleEnv) sampleTurns (.initial 2 8) = .ok L
    ∧ storedOf (L.log 0) = [List.replicate 60 1, List.replicate 60 2]
    ∧ storedOf (L.log 0) = forwardedOf (L.log 0) ++ waiting (L.state.conns 0).tcp.pendingAppData := by
  have ha : Along (observedStep sampleEnv) (fun x L => Undisturbed x L.state 0) sampleTurns
      (.initial 2 8) := by decide +kernel
  obtain ⟨L, hL, hstored⟩ := endsIn_ok
    (fun L : Observed => storedOf (L.log 0) = [List.replicate 60 1, List.replicate 60 2])
    (run (observedStep sampleEnv) sampleTurns (.initial 2 8)) (by decide +kernel)
  exact ⟨L, hL, hstored, (appData_delivered ha hL).1⟩

/- Two packets in one turn of the main loop: the first one never reaches the host. -/
def sampleBurst : List Input :=
  sampleHandshake ++ [.packet 0 (sampleRequest 1), .packet 0 (sampleRequest 2), .serve 0]

theorem burst_overwrites : ∃ L, run (observedStep sampleEnv) sampleBurst (.initial 2 8) = .ok L
    ∧ (L.state.conns 0).tcp.hwsApplied = true
    ∧ storedOf (L.log 0) = [List.replicate 60 1, List.replicate 60 2]
    ∧ forwardedOf (L.log 0) = [List.replicate 60 2]
    ∧ waiting (L.state.conns 0).tcp.pendingAppData = [] := by
  obtain ⟨L, hL, h⟩ := endsIn_ok
    (fun L : Observed => (L.state.conns 0).tcp.hwsApplied = true
      ∧ storedOf (L.log 0) = [List.replicate 60 1, List.replicate 60 2]
      ∧ forwardedOf (L.log 0) = [List.replicate 60 2]
      ∧ waiting (L.state.conns 0).tcp.pendingAppData = [])
    (run (observedStep sampleEnv) sampleBurst (.initial 2 8)) (by decide +kernel)
  exact ⟨L, hL, h⟩

end

end Xtls.Nic
