import Xtls.Nic.SynDuplicate

/-!
# The numbers in a SYN-ACK

`process_syn_packet` (`tcp.c` 2797-2891) answers a SYN with the cookie of a connection.  When a new SYN takes
the place of an old connection, the answer carries the cookie of the old one, and `insert_tcp_connection` then
computes another one from `t_major` as it is now (`tcp.c` 444-490, 2261-2335).
-/

namespace Xtls.Nic

def Input.Syn : Input → Prop
  | .packet port p => validatePacketType port p = some .tcpSyn
  | .outside _ => True
  | .serve _ | .pkaSubmit _ | .pkaComplete _ _ => False

instance : DecidablePred Input.Syn
  | .packet port p => inferInstanceAs (Decidable (validatePacketType port p = some .tcpSyn))
  | .outside _ => inferInstanceAs (Decidable True)
  | .serve _ | .pkaSubmit _ | .pkaComplete _ _ => inferInstanceAs (Decidable False)

/-- An old connection that the SYN takes the place of has the cookie that the new one gets. -/
def SameCookie (env : Env) (p : Packet) (s : Sys) : Prop :=
  ∀ c, searchTcpConnection p s = .ok (some c) → p.seq + 1 ≠ (s.conns c).tcp.lastRecvSeq →
    (s.conns c).tcp.cookie = getCookie env s.ctx.outside.tMajor p

def synack (p : Packet) (cookie : UInt32) (rand : UInt64) : OutTcp :=
  { dstMac := p.srcMac, srcMac := p.dstMac, srcIp := p.dstIp, dstIp := p.srcIp
    srcPort := p.dstPort, dstPort := p.srcPort
    packetId := UInt16.ofNat rand.toNat
    flags := TCP_FLAG_SYN ||| TCP_FLAG_ACK, sentSeq := cookie, recvAck := p.seq + 1
    rxWin := p.rxWin, options := p.options }

/-- A SYN is answered with `cookie`; connection `d` is the one of its address afterwards. -/
inductive SynReply (env : Env) (port : UInt16) (p : Packet) (s s' : Sys) (d : ConnId) (cookie : UInt32) : Prop
  | creates (found : searchTcpConnection p s = .ok none)
      (new : createdBy (.packet port p) s s' = some (d, [.created p]))
      (stored : (s'.conns d).tcp.cookie = getCookie env s.ctx.outside.tMajor p)
      (sent : cookie = getCookie env s.ctx.outside.tMajor p)
  | answers (found : searchTcpConnection p s = .ok (some d)) (same : p.seq + 1 = (s.conns d).tcp.lastRecvSeq)
      (old : createdBy (.packet port p) s s' = none) (conns : s'.conns = s.conns)
      (sent : cookie = (s.conns d).tcp.cookie)
  | replaces {c : ConnId} (found : searchTcpConnection p s = .ok (some c))
      (other : p.seq + 1 ≠ (s.conns c).tcp.lastRecvSeq)
      (new : createdBy (.packet port p) s s' = some (d, [.created p]))
      (stored : (s'.conns d).tcp.cookie = getCookie env s.ctx.outside.tMajor p)
      (sent : cookie = (s.conns c).tcp.cookie)

section

variable {env : Env} {s s' : Sys} {c d : ConnId} {p : Packet} {port : UInt16}

/-! ### One SYN -/

theorem insertTcpConnection_cookie (h : insertTcpConnection env port p s = .ok (c, s')) :
    s'.ctx.out = s.ctx.out ∧ (s'.conns c).tcp.cookie = getCookie env s.ctx.outside.tMajor p
      ∧ (s'.conns c).tcp.addr = p.addr ∧ (s'.conns c).tcp.lastRecvSeq = p.seq + 1 := by
  unfold insertTcpConnection at h
  split at h
  · cases h
  · split at h
    · cases h
    · cases h
      simp only [if_true]
      exact ⟨rfl, rfl, rfl, rfl⟩

theorem Inserted.listed (hi : Inserted c s s') : Listed s'.ctx c :=
  ⟨_, (hi.mem c _).mpr (.inr ⟨rfl, rfl⟩)⟩

theorem processSynPacket_reply (hsyn : validatePacketType port p = some .tcpSyn)
    (h : processSynPacket env port p s = .ok s') :
    ∃ d cookie rand, Listed s'.ctx d ∧ (s'.conns d).tcp.addr = p.addr
      ∧ s'.ctx.out = s.ctx.out ++ [.tcp port (synack p cookie rand)] ∧ SynReply env port p s s' d cookie := by
  obtain ⟨found, hfound, h⟩ := bind_ok h
  cases found with
  | none =>
    obtain ⟨⟨c, u⟩, hu, h⟩ := bind_ok h
    cases h
    obtain ⟨hi, -⟩ := insertTcpConnection_inserted hu
    obtain ⟨hout, hcookie, haddr, -⟩ := insertTcpConnection_cookie hu
    refine ⟨c, _, u.ctx.outside.rand, hi.listed, haddr, ?_, .creates hfound ?_ hcookie hcookie⟩
    · show u.ctx.out ++ _ = _
      rw [hout]
      rfl
    · exact hi.created (emit_quiet _ _) hsyn (Nat.le_refl _)
  | some c =>
    dsimp only at h
    split at h
    · rename_i hsame
      cases h
      refine ⟨c, _, s.ctx.outside.rand, searchTcpConnection_listed hfound, searchTcpConnection_addr hfound, rfl,
        .answers hfound hsame (createdBy_quiet _ (emit_quiet _ _)) rfl rfl⟩
    · rename_i hnew
      obtain ⟨u, hu, h⟩ := bind_ok h
      obtain ⟨t, ht, rfl⟩ := Sys.on_ok hu
      obtain ⟨⟨d, v⟩, hv, h⟩ := bind_ok h
      cases h
      obtain ⟨hi, -⟩ := insertTcpConnection_inserted hv
      obtain ⟨hout, hcookie, haddr, -⟩ := insertTcpConnection_cookie hv
      have hrem := removeSession_removed ht
      refine ⟨d, ((s.put c t).conns c).tcp.cookie, t.ctx.outside.rand, hi.listed, haddr, ?_,
        .replaces hfound hnew ?_ ?_ ?_⟩
      · rw [hout]
        show t.ctx.out ++ _ = _
        rw [hrem.out]
        rfl
      · exact hi.created (.refl _) hsyn hrem.grows.length_le
      · rw [hcookie]
        show getCookie env t.ctx.outside.tMajor p = _
        rw [hrem.outside]
      · rw [s.put_self, hrem.tcp]
        rfl

theorem SynOutcome.keeps {i : ConnId} (h : SynOutcome env port p s s') (hs : s.Conducted)
    (hsyn : validatePacketType port p = some .tcpSyn) (hi : Listed s'.ctx i) :
    (createdBy (.packet port p) s s' = some (i, [.created p]) ∧ (s'.conns i).tcp.addr = p.addr
        ∧ (s'.conns i).tcp.lastRecvSeq = p.seq + 1)
      ∨ ((∀ start, createdBy (.packet port p) s s' ≠ some (i, start)) ∧ Listed s.ctx i
        ∧ (s'.conns i).tcp = (s.conns i).tcp) := by
  have hother : ∀ {c : ConnId} {ds : List Deed}, createdBy (.packet port p) s s' = some (c, ds) → i ≠ c →
      ∀ start, createdBy (.packet port p) s s' ≠ some (i, start) := by
    intro c ds hc hne start hstart
    rw [hc] at hstart
    exact hne (Prod.mk.inj (Option.some.inj hstart)).1.symm
  cases h with
  | @creates c u _ _ hu hq =>
    obtain ⟨hins, -⟩ := insertTcpConnection_inserted hu
    obtain ⟨-, -, haddr, hseq⟩ := insertTcpConnection_cookie hu
    have hnew := hins.created hq hsyn (Nat.le_refl _)
    obtain ⟨hconns, out, outside, hctx⟩ := hq
    rw [hconns]
    by_cases hic : i = c
    · rw [hic]
      exact .inl ⟨hnew, haddr, hseq⟩
    · obtain ⟨b, hb⟩ := hi
      rw [hctx] at hb
      exact .inr ⟨hother hnew hic, ⟨b, ((hins.mem i b).mp hb).resolve_right fun h => hic h.1⟩,
        by rw [hins.others i hic]⟩
  | answers _ _ hq =>
    refine .inr ⟨fun start hc => ?_, ?_, by rw [hq.1]⟩
    · rw [createdBy_quiet _ hq] at hc
      cases hc
    · obtain ⟨-, out, outside, hctx⟩ := hq
      rw [hctx] at hi
      exact hi
  | @replaces c d t u _ _ _ ht hq hv =>
    obtain ⟨hins, -⟩ := insertTcpConnection_inserted hv
    obtain ⟨-, -, haddr, hseq⟩ := insertTcpConnection_cookie hv
    have hrem := removeSession_removed ht
    have htrace : s.ctx.trace.length ≤ u.ctx.trace.length := by
      obtain ⟨-, out, outside, hctx⟩ := hq
      rw [hctx]
      exact hrem.grows.length_le
    have hnew := hins.created (.refl _) hsyn htrace
    by_cases hid : i = d
    · rw [hid]
      exact .inl ⟨hnew, haddr, hseq⟩
    · obtain ⟨b, hb⟩ := hi
      have hb : i ∈ u.ctx.htTable b := ((hins.mem i b).mp hb).resolve_right fun h => hid h.1
      obtain ⟨hconns, out, outside, hctx⟩ := hq
      rw [hctx] at hb
      obtain ⟨hne, hb⟩ := ((hs.among c).2.erased hrem i b).mp hb
      have hic : i ≠ c := fun he => hne (he.trans (hs.facts.1.ids c).symm)
      exact .inr ⟨hother hnew hid, ⟨b, hb⟩, by rw [hins.others i hid, hconns, s.put_ne t hic]⟩

end

/-! ### Sequences of SYNs -/

/-- What holds between two SYNs: `last_recv_seq` is still the number behind the first one. -/
structure Dialled (L : Observed) : Prop where
  conducted : L.state.Conducted
  first : ∀ c, Listed L.state.ctx c → ∃ seq, createdFrom (L.log c) = some ((L.state.conns c).tcp.addr, seq)
    ∧ (L.state.conns c).tcp.lastRecvSeq = seq + 1

section

variable {env : Env} {L L' : Observed} {p : Packet} {port : UInt16} {n ringCnt : Nat} {inputs : List Input}

theorem step_dialled (x : Input) (L L' : Observed) (hx : x.Syn) (h : observedStep env x L = .ok L') (hL : Dialled L) :
    Dialled L' := by
  obtain ⟨hs, hfresh, hold⟩ := logStep_ok h
  refine ⟨step_conducted x _ _ hs hL.conducted, fun c hc => ?_⟩
  -- a connection that is not new keeps its first entry
  have hkeep : (∀ start, createdBy x L.state L'.state ≠ some (c, start)) → Listed L.state.ctx c →
      (L'.state.conns c).tcp = (L.state.conns c).tcp →
      ∃ seq, createdFrom (L'.log c) = some ((L'.state.conns c).tcp.addr, seq)
        ∧ (L'.state.conns c).tcp.lastRecvSeq = seq + 1 := by
    intro hnot hl htcp
    obtain ⟨seq, hfirst, hseq⟩ := hL.first c hl
    rw [hold c hnot, htcp]
    exact ⟨seq, createdFrom_append hfirst _, hseq⟩
  cases x with
  | packet port p =>
    have hsyn : validatePacketType port p = some .tcpSyn := hx
    have hs : processSynPacket env port p L.state = .ok L'.state := by
      simp only [step, processPacket, hsyn] at hs
      exact hs
    rcases (processSynPacket_cases hs).keeps hL.conducted hsyn hc with ⟨hnew, haddr, hseq⟩ | ⟨hnot, hl, htcp⟩
    · rw [hfresh c _ hnew, haddr]
      exact ⟨p.seq, rfl, hseq⟩
    · exact hkeep hnot hl htcp
  | outside o =>
    have hq : SysQuiet L.state L'.state := by
      rw [← Except.ok.inj hs]
      exact ⟨rfl, _, _, rfl⟩
    refine hkeep (fun start hc => ?_) ?_ (by rw [hq.1])
    · rw [createdBy_quiet _ hq] at hc
      cases hc
    · obtain ⟨-, out, outside, hctx⟩ := hq
      rw [hctx] at hc
      exact hc
  | serve c => exact absurd hx id
  | pkaSubmit priv => exact absurd hx id
  | pkaComplete o results => exact absurd hx id

theorem run_dialled (hsyns : ∀ x ∈ inputs, x.Syn) (h : run (observedStep env) inputs (.initial n ringCnt) = .ok L) :
    Dialled L := by
  have hready : Along (observedStep env) (fun x _ => x.Syn) inputs (.initial n ringCnt) :=
    along_inputs (fun x hx _ => hsyns x hx) _
  refine run_along step_dialled inputs _ L hready h ?_
  exact ⟨initial_conducted n ringCnt, fun c ⟨_, hc⟩ => absurd hc List.not_mem_nil⟩

/-- In every sequence of SYNs, the SYN-ACK for the next one carries the cookie and the number of the
connection that is active then if and only if an old connection that is replaced has that cookie. -/
theorem synack_numbers (hsyns : ∀ x ∈ inputs, x.Syn)
    (h : run (observedStep env) inputs (.initial n ringCnt) = .ok L)
    (hsyn : validatePacketType port p = some .tcpSyn) (hstep : observedStep env (.packet port p) L = .ok L') :
    ∃ d seq pkt, searchTcpConnection p L'.state = .ok (some d) ∧ createdFrom (L'.log d) = some (p.addr, seq)
      ∧ L'.state.ctx.out = L.state.ctx.out ++ [.tcp port pkt] ∧ pkt.flags = TCP_FLAG_SYN ||| TCP_FLAG_ACK
      ∧ ((pkt.sentSeq = (L'.state.conns d).tcp.cookie ∧ pkt.recvAck = seq + 1) ↔ SameCookie env p L.state) := by
  have hopen := run_dialled hsyns h
  obtain ⟨hs, hfresh, hold⟩ := logStep_ok hstep
  have hplaced := (step_conducted _ _ _ hs hopen.conducted).facts.2
  have hs : processSynPacket env port p L.state = .ok L'.state := by
    simp only [step, processPacket, hsyn] at hs
    exact hs
  obtain ⟨d, cookie, rand, hlisted, haddr, hout, hreply⟩ := processSynPacket_reply hsyn hs
  have hfound := hplaced.search hlisted haddr
  cases hreply with
  | creates hnone hnew hstored hsent =>
    refine ⟨d, p.seq, _, hfound, by rw [hfresh d _ hnew]; rfl, hout, rfl, iff_of_true ⟨?_, rfl⟩ fun c hc => ?_⟩
    · exact hsent.trans hstored.symm
    · exact absurd (hnone.symm.trans hc) (by simp)
  | answers hsome hsame hnone hconns hsent =>
    obtain ⟨seq, hfirst, hseq⟩ := hopen.first d (searchTcpConnection_listed hsome)
    rw [searchTcpConnection_addr hsome] at hfirst
    have hlog := hold d fun start hc => absurd (hnone.symm.trans hc) (by simp)
    have hnumber : (synack p cookie rand).recvAck = seq + 1 := hsame.trans hseq
    refine ⟨d, seq, _, hfound, by rw [hlog]; exact createdFrom_append hfirst _, hout, rfl,
      iff_of_true ⟨?_, hnumber⟩ fun c hc hne => ?_⟩
    · rw [hconns]
      exact hsent
    · cases hsome.symm.trans hc
      exact absurd hsame hne
  | @replaces c hsome hother hnew hstored hsent =>
    refine ⟨d, p.seq, _, hfound, by rw [hfresh d _ hnew]; rfl, hout, rfl,
      ⟨fun hnow i hi _ => ?_, fun h => ?_⟩⟩
    · cases hsome.symm.trans hi
      exact hsent.symm.trans (hnow.1.trans hstored)
    · exact ⟨hsent.trans ((h c hsome hother).trans hstored.symm), rfl⟩

def sampleOtherSyn : Packet := { sampleSyn with seq := 500 }

/- It comes while `t_major` is the same. -/
theorem synack_numbers_early : ∃ L L', run (observedStep sampleEnv) [.packet 0 sampleSyn] (.initial 2 8) = .ok L
    ∧ observedStep sampleEnv (.packet 0 sampleOtherSyn) L = .ok L'
    ∧ ∃ d seq pkt, searchTcpConnection sampleOtherSyn L'.state = .ok (some d)
      ∧ createdFrom (L'.log d) = some (sampleOtherSyn.addr, seq)
      ∧ L'.state.ctx.out = L.state.ctx.out ++ [.tcp 0 pkt] ∧ pkt.flags = TCP_FLAG_SYN ||| TCP_FLAG_ACK
      ∧ ((pkt.sentSeq = (L'.state.conns d).tcp.cookie ∧ pkt.recvAck = seq + 1)
          ↔ SameCookie sampleEnv sampleOtherSyn L.state) := by
  obtain ⟨L, hL, hnext⟩ := endsIn_ok
    (fun L => endsIn (fun _ => True) (observedStep sampleEnv (.packet 0 sampleOtherSyn) L) = true)
    (run (observedStep sampleEnv) [.packet 0 sampleSyn] (.initial 2 8)) (by decide +kernel)
  obtain ⟨L', hL', -⟩ := endsIn_ok _ _ hnext
  have hsyns : ∀ x ∈ [Input.packet 0 sampleSyn], x.Syn := by decide
  exact ⟨L, L', hL, hL', synack_numbers hsyns hL (by decide) hL'⟩

def Out.sentSeq : Out → Option UInt32
  | .tcp _ pkt => some pkt.sentSeq
  | _ => none

/- It comes after `t_major` has been counted up: the answer has the cookie of the connection that is gone. -/
theorem lateCookie_differs : ∃ L', run (observedStep sampleEnv)
      [.packet 0 sampleSyn, .outside { tMajor := 1 }, .packet 0 sampleOtherSyn] (.initial 2 8) = .ok L'
    ∧ L'.state.ctx.htTable (calculateHash (L'.state.conns 1).tcp) = [1]
    ∧ L'.state.ctx.out.map Out.sentSeq = [some 0x03000000, some 0x03000000]
    ∧ (L'.state.conns 1).tcp.cookie = 0x0b000000 :=
  endsIn_ok (fun L' : Observed => L'.state.ctx.htTable (calculateHash (L'.state.conns 1).tcp) = [1]
      ∧ L'.state.ctx.out.map Out.sentSeq = [some 0x03000000, some 0x03000000]
      ∧ (L'.state.conns 1).tcp.cookie = 0x0b000000)
    (run (observedStep sampleEnv) [.packet 0 sampleSyn, .outside { tMajor := 1 }, .packet 0 sampleOtherSyn]
      (.initial 2 8)) (by decide +kernel)

end

end Xtls.Nic
