import Xtls.Host.Entries

/-!
# When the host reports a migration

MIG_FIN is sent by the loop after `mig_tls_conn` (`main.c` 574-594) and for a key meta that finds an entry
(`meta_pkt.c` 265-277).  The first place does not see whether `TLS_RX` and `TLS_TX` could be installed, the
second not even whether the entry has a socket.
-/

namespace Xtls.Host

/-- The connection has begun to migrate. -/
def Thread.Begun (t : Thread) (c : ConnRef) : Prop := t.InTable c ∧ (t.conns c).sockState ≠ .default

/-- Its socket has the restored state and, behind `mig_tls_conn`, both keys. -/
def Thread.Secure (t : Thread) (c : ConnRef) : Prop :=
  ∃ fd info, (t.conns c).sockFd = some fd ∧ t.socks fd = some info ∧ info.restored = true
    ∧ ((t.conns c).sockState ≠ .init → info = ⟨true, true, true⟩)

def Sent.Reported : Sent → Prop
  | .migFin _ sock _ => sock = some ⟨true, true, true⟩
  | .close _ => True

structure Secured (t : Thread) : Prop where
  secure : ∀ c, t.Begun c → t.Secure c
  alone : ∀ c d, t.Begun c → t.Begun d → (t.conns c).sockFd = (t.conns d).sockFd → c = d
  sent : ∀ s ∈ t.sent, s.Reported

section

variable {n : Nat} {cfg : Config} {k : Calls} {t t' : Thread} {c : ConnRef} {ev : Interest}

theorem Secured.sockOf (h : Secured t) (hc : t.Begun c) (hst : (t.conns c).sockState ≠ .init) :
    t.sockOf c = some ⟨true, true, true⟩ := by
  obtain ⟨fd, info, hfd, hinfo, -, hboth⟩ := h.secure c hc
  rw [Thread.sockOf, hfd, Option.bind_some, hinfo, hboth hst]

theorem Secured.change (h : Secured t) (hin : ∀ d, d ≠ c → t'.InTable d → t.InTable d)
    (hothers : ∀ d, d ≠ c → t'.conns d = t.conns d)
    (hsocks : ∀ d fd, d ≠ c → t.Begun d → (t.conns d).sockFd = some fd → t'.socks fd = t.socks fd)
    (hown : t'.Begun c → t'.Secure c ∧ ∀ d, d ≠ c → t.Begun d → (t'.conns c).sockFd ≠ (t.conns d).sockFd)
    (hsent : ∀ s ∈ t'.sent, s.Reported) : Secured t' := by
  have hbegun : ∀ d, d ≠ c → t'.Begun d → t.Begun d := fun d hd hb => by
    refine ⟨hin d hd hb.1, ?_⟩
    rw [← hothers d hd]
    exact hb.2
  refine ⟨fun d hd => ?_, fun d e hd he heq => ?_, hsent⟩
  · by_cases hdc : d = c
    · rw [hdc] at hd ⊢
      exact (hown hd).1
    · obtain ⟨fd, info, hfd, hinfo, hrest⟩ := h.secure d (hbegun d hdc hd)
      rw [Thread.Secure, hothers d hdc]
      exact ⟨fd, info, hfd, (hsocks d fd hdc (hbegun d hdc hd) hfd).trans hinfo, hrest⟩
  · by_cases hdc : d = c
    · by_cases hec : e = c
      · rw [hdc, hec]
      · rw [hdc, hothers e hec] at heq
        exact absurd heq ((hown (hdc ▸ hd)).2 e hec (hbegun e hec he))
    · by_cases hec : e = c
      · rw [hec, hothers d hdc] at heq
        exact absurd heq.symm ((hown (hec ▸ he)).2 d hdc (hbegun d hdc hd))
      · rw [hothers d hdc, hothers e hec] at heq
        exact h.alone d e (hbegun d hdc hd) (hbegun e hec he) heq

/- The descriptors of two connections that migrate are different. -/
theorem Secured.sockFd_ne (h : Secured t) (hc : t.Begun c) {d : ConnRef} (hd : t.Begun d) (hdc : d ≠ c) :
    (t.conns c).sockFd ≠ (t.conns d).sockFd := fun heq => hdc (h.alone c d hc hd heq).symm

theorem Secured.setEvents (h : Secured t) (events : List Pending) : Secured { t with events := events } :=
  ⟨h.secure, h.alone, h.sent⟩

/- The connection stays behind `mig_tls_conn`, or the socket gets both keys there. -/
theorem Secured.touches (h : Secured t) (hc : t.Begun c) (ht : Touches cfg k c t t')
    (hkeys : (t.conns c).sockState = .init → k.ulp = true → k.tlsRx = true ∧ k.tlsTx = true) : Secured t' := by
  obtain ⟨fd, info, hfd, hinfo, hrest, hboth⟩ := h.secure c hc
  have halone : ∀ d, d ≠ c → t.Begun d → (t'.conns c).sockFd ≠ (t.conns d).sockFd := fun d hdc hd => by
    rw [ht.sockFd]
    exact h.sockFd_ne hc hd hdc
  have hsent : ∀ s ∈ t'.sent, s.Reported := by
    rw [ht.sent]
    exact h.sent
  rcases ht.socks with ⟨hsocks, hsame⟩ | ⟨hinit, hulp, hset⟩
  · refine h.change (fun d _ hd => (ht.inTable d).mp hd) ht.others (fun _ _ _ _ _ => by rw [hsocks])
      (fun _ => ⟨⟨fd, info, ht.sockFd.trans hfd, ?_, hrest, fun hne => hboth fun hinit => ?_⟩, halone⟩) hsent
    · rw [hsocks]
      exact hinfo
    · rw [hsame hinit] at hne
      exact hne hinit
  · obtain ⟨hrx, htx⟩ := hkeys hinit hulp
    have hnew : t'.socks = Function.update t.socks fd (some ⟨true, true, true⟩) := by
      simp only [hset, Thread.setSock, hfd, hinfo, Option.map_some, hrx, htx, hrest]
    refine h.change (fun d _ hd => (ht.inTable d).mp hd) ht.others (fun d fd' hdc hd hfd' => ?_)
      (fun _ => ⟨⟨fd, ⟨true, true, true⟩, ht.sockFd.trans hfd, ?_, rfl, fun _ => rfl⟩, halone⟩) hsent
    · rw [hnew]
      refine Function.update_of_ne (fun heq : fd' = fd => h.sockFd_ne hc hd hdc ?_) ..
      rw [hfd, hfd', heq]
    · rw [hnew]
      exact Function.update_self ..

theorem Secured.closes (hu : Upkeep n t) (h : Secured t) (hc : t.Begun c) (ht : Closes c t t')
    (hsent : ∀ s ∈ t'.sent, s.Reported) : Secured t' := by
  refine h.change (fun d _ hd => ?_) ht.others (fun d fd hdc hd hfd => ?_) (fun hb => ?_) hsent
  · rw [Thread.InTable, ht.bucketOf] at hd
    exact ht.mem hd
  · rw [ht.socks, if_neg]
    exact fun heq => h.sockFd_ne hc hd hdc (heq.trans hfd.symm)
  · have hpool : c ∈ t'.pool := by
      rw [ht.pool]
      exact List.mem_cons_self
    exact absurd hb.1 ((hu.closes hc.1 ht).not_table hpool _)

end

/-! ### A connection is added -/

section

variable {n : Nat} {k : KeyCalls} {buf : Bytes} {t t' u : Thread} {c : ConnRef} {ret : Int}

theorem Secured.adds (hu : Upkeep n t) (h : Secured t) (hfresh : ∀ fd ∈ k.socket, t.socks fd = none)
    (ha : Adds k buf c t t') : Secured t' := by
  have hopen : ∀ d fd, t.Begun d → (t.conns d).sockFd = some fd → t.socks fd ≠ none := fun d fd hd hfd => by
    obtain ⟨fd', info, hfd', hinfo, -⟩ := h.secure d hd
    rw [hfd] at hfd'
    rw [Option.some.inj hfd', hinfo]
    exact Option.some_ne_none info
  refine h.change (fun d hdc hd => ha.inTable_of hu hdc hd) ha.others
    (fun d fd _ hd hfd => ha.socks fd fun heq => hopen d fd hd hfd (hfresh fd heq)) (fun hb => ?_)
    (by rw [ha.sent]; exact h.sent)
  rcases ha.state with hst | ⟨fd, hsock, hfd, hst, hinfo⟩
  · exact absurd hst hb.2
  · refine ⟨⟨fd, _, hfd, hinfo, rfl, fun hne => absurd hst hne⟩, fun d _ hd heq => ?_⟩
    exact hopen d fd hd (heq.symm.trans hfd) (hfresh fd hsock)

end

/-! ### The loop -/

/-- A key meta is repeated only behind `mig_tls_conn`, a reset is for a connection that has begun, and `socket`
returns a descriptor that is not open then. -/
def metaReady (k : KeyCalls) (buf : Bytes) (t : Thread) : Prop :=
  match validateMetaType buf with
  | some .key =>
    match t.htSearch (be32 buf 26) (be16 buf 34) with
    | some c => (t.conns c).sockState ≠ .default ∧ (t.conns c).sockState ≠ .init
    | none => ∀ fd ∈ k.socket, t.socks fd = none
  | some .rstConn =>
    match t.htSearch (be32 buf 0) (be16 buf 14) with
    | some c => (t.conns c).sockState ≠ .default ∧ ∀ fd ∈ k.socket, (t.conns c).sockFd = some fd ∨ t.socks fd = none
    | none => True
  | _ => True

/-- Where `mig_tls_conn` sets the protocol, it can install both keys. -/
def migReady : ThreadInput → Thread → Prop
  | .wait _, _ => True
  | .next k, t =>
    match t.events with
    | [] => True
    | .metaSock :: _ => ∀ buf ∈ k.frame, metaReady k.key buf t
    | .conn c _ :: _ => (t.conns c).sockState = .init → k.ulp = true → k.tlsRx = true ∧ k.tlsTx = true

instance (k : KeyCalls) (buf : Bytes) (t : Thread) : Decidable (metaReady k buf t) := by
  unfold metaReady
  split <;> try split
  all_goals infer_instance

instance (i : ThreadInput) (t : Thread) : Decidable (migReady i t) := by
  match i with
  | .wait _ => exact .isTrue trivial
  | .next k =>
    dsimp only [migReady]
    generalize t.events = l
    match l with
    | [] => exact .isTrue trivial
    | .metaSock :: _ => infer_instance
    | .conn .. :: _ => infer_instance

section

variable {n : Nat} {tls13 : Bool} {cfg : Config} {inputs : List ThreadInput} {t t' : Thread} {c : ConnRef}

theorem Secured.sendMigFin (h : Secured t) (hc : t.Begun c) (hst : (t.conns c).sockState ≠ .init) :
    Secured (t.sendMigFin true c) := by
  refine ⟨h.secure, h.alone, fun s hs => ?_⟩
  rcases List.mem_append.mp hs with hs | hs
  · exact h.sent s hs
  · rw [List.mem_singleton.mp hs]
    exact h.sockOf hc hst

theorem reported_of_fins (h : ∀ s ∈ t.sent, s.Reported) (hfins : t'.fins = t.fins) : ∀ s ∈ t'.sent, s.Reported := by
  intro s hs
  cases s with
  | close frame => trivial
  | migFin d sock frame => exact h _ (Thread.mem_sent_of_fins hfins hs)

theorem onEvent_secured {k : Calls} {ev : Interest} (hu : Upkeep n t) (h : Secured t)
    (hwait : t.InTable c ∨ c ∈ t.pool ∧ (t.conns c).sockState = .default)
    (hkeys : (t.conns c).sockState = .init → k.ulp = true → k.tlsRx = true ∧ k.tlsTx = true)
    (hs : t.onEvent cfg k c ev = .ok t') : Secured t' := by
  by_cases hdef : (t.conns c).sockState = .default
  · rw [onEvent_default hdef] at hs
    cases hs
    exact h
  have hc : t.Begun c := ⟨hwait.resolve_right fun hpool => hdef hpool.2, hdef⟩
  cases onEvent_outcome hc.1 hs with
  | touches ht => exact h.touches hc ht hkeys
  | reports hst ht =>
    have hinit : (t.conns c).sockState ≠ .init := by
      rw [hst]
      decide
    have hc' : (t.sendMigFin true c).Begun c := hc
    exact (h.sendMigFin hc hinit).touches hc' ht hkeys
  | closes _ hcl => exact h.closes hu hc hcl (reported_of_fins h.sent hcl.fins)

theorem handleMetaPacket_secured {k : KeyCalls} {sendto : Bool} {buf : Bytes} {ret : Int} (hu : Upkeep n t)
    (h : Secured t) (hready : metaReady k buf t) (hs : t.handleMetaPacket k sendto buf = .ok (ret, t')) :
    Secured t' := by
  unfold metaReady at hready
  cases handleMetaPacket_outcome hs with
  | quiet hsame hfins =>
    have hsent := reported_of_fins h.sent hfins
    obtain ⟨sent, rfl⟩ := hsame
    exact ⟨h.secure, h.alone, hsent⟩
  | reports htype hfound hsame =>
    simp only [htype, hfound] at hready
    rw [hsame]
    exact h.sendMigFin ⟨htSearch_inTable hfound, hready.1⟩ hready.2
  | adds htype habsent hadds =>
    simp only [htype, habsent] at hready
    exact h.adds hu hready hadds
  | @replaces c u htype hfound hcl hsent hadds =>
    simp only [htype, hfound] at hready
    have hc : t.Begun c := ⟨htSearch_inTable hfound, hready.1⟩
    have hclosed : Secured u := h.closes hu hc hcl (by rw [hsent]; exact h.sent)
    refine hclosed.adds (hu.closes hc.1 hcl) (fun fd hfd => ?_) hadds
    rw [hcl.socks]
    split
    · rfl
    · rename_i hne
      exact (hready.2 fd hfd).resolve_left hne

theorem threadStep_secured (i : ThreadInput) (hu : Upkeep n t) (ho : Orderly t) (h : Secured t)
    (hready : migReady i t) (hs : threadStep cfg i t = .ok t') : Secured t' := by
  cases threadStep_moves hs with
  | idle => exact h
  | wait => exact h.setEvents _
  | noFrame => exact h.setEvents _
  | packet rest hevents hframe hs =>
    simp only [migReady, hevents] at hready
    exact handleMetaPacket_secured (hu.setEvents rest) (h.setEvents rest) (hready _ hframe) hs
  | event rest hevents hs =>
    simp only [migReady, hevents] at hready
    exact onEvent_secured (hu.setEvents rest) (h.setEvents rest) (ho.head hevents).2 hready hs

/-- As long as every step meets `migReady`, each MIG_FIN is sent for a connection whose socket has the restored
TCP state and the keys of both directions; the connection is then in the table, and the frame carries the client
and the numbers of this entry. -/
theorem migFin_secured (hready : Along (threadStep cfg) migReady inputs (startThread n tls13))
    (hrun : run (threadStep cfg) inputs (startThread n tls13) = .ok t) (sock : Option SockInfo) (frame : Bytes)
    (hsent : .migFin c sock frame ∈ t.sent) :
    sock = some ⟨true, true, true⟩
    ∧ ∃ pre post u, inputs = pre ++ post ∧ run (threadStep cfg) pre (startThread n tls13) = .ok u
      ∧ u.InTable c ∧ u.sockOf c = some ⟨true, true, true⟩
      ∧ frame = sendMigFinToArm (u.conns c).metaInfo (u.conns c).recvBytes := by
  have hstep : ∀ i t t', migReady i t → threadStep cfg i t = .ok t' → Upkeep n t ∧ Orderly t ∧ Secured t →
      Upkeep n t' ∧ Orderly t' ∧ Secured t' := fun i t t' hr hs ⟨hu, ho, h⟩ => by
    obtain ⟨hu', ho'⟩ := threadStep_kept i hu ho hs
    exact ⟨hu', ho', threadStep_secured i hu ho h hr hs⟩
  have hstart : Upkeep n (startThread n tls13) ∧ Orderly (startThread n tls13) ∧ Secured (startThread n tls13) :=
    ⟨startThread_upkeep n tls13, startThread_orderly n tls13, fun c hc => absurd hc.1 List.not_mem_nil,
      fun c _ hc => absurd hc.1 List.not_mem_nil, fun s hs => absurd hs List.not_mem_nil⟩
  have hkeys : sock = some ⟨true, true, true⟩ := (run_along hstep inputs _ t hready hrun hstart).2.2.sent _ hsent
  obtain ⟨pre, post, u, hinputs, hpre, hreports⟩ := run_reports inputs hrun c sock frame hsent
  exact ⟨hkeys, pre, post, u, hinputs, hpre, hreports.entry, hreports.sock.symm.trans hkeys, hreports.frame⟩

end

theorem migFin_secured_sample : ∃ t, run (threadStep {}) migrationRun (startThread 2 true) = .ok t
    ∧ ∃ sock frame, .migFin 1 sock frame ∈ t.sent ∧ sock = some ⟨true, true, true⟩
      ∧ ∃ pre post u, migrationRun = pre ++ post ∧ run (threadStep {}) pre (startThread 2 true) = .ok u
        ∧ u.InTable 1 ∧ u.sockOf 1 = some ⟨true, true, true⟩
        ∧ frame = sendMigFinToArm (u.conns 1).metaInfo (u.conns 1).recvBytes := by
  obtain ⟨t, ht, hsent⟩ := endsIn_ok (fun t : Thread => t.sent = [.migFin 1 (some ⟨true, true, true⟩)
    (sendMigFinToArm (handleMetaData true keyFrame).1 0)])
    (run (threadStep {}) migrationRun (startThread 2 true)) (by decide +kernel)
  have hmem : .migFin 1 (some ⟨true, true, true⟩) (sendMigFinToArm (handleMetaData true keyFrame).1 0) ∈ t.sent := by
    rw [hsent]
    exact List.mem_cons_self
  exact ⟨t, ht, _, _, hmem, migFin_secured (by decide +kernel) ht _ _ hmem⟩

/- The key meta comes again before the loop has installed the keys. -/
def repeatedKey : List ThreadInput :=
  [.wait (.single .metaSock), .next { frame := some keyFrame, key := { socket := some 5 } },
    .wait (.single .metaSock), .next { frame := some keyFrame }]

/- The key for receiving is refused. -/
def refusedKey : List ThreadInput :=
  [.wait (.single .metaSock), .next { frame := some keyFrame, key := { socket := some 5 } },
    .wait (.single (.sock 5 ⟨false, true⟩)), .next { tlsRx := false },
    .wait (.single (.sock 5 ⟨false, true⟩)), .next {}]

theorem migFin_unsecured :
    (∃ t, run (threadStep {}) repeatedKey (startThread 2 true) = .ok t
        ∧ t.sent = [.migFin 1 (some ⟨true, false, false⟩) (sendMigFinToArm (handleMetaData true keyFrame).1 0)])
      ∧ ∃ t, run (threadStep {}) refusedKey (startThread 2 true) = .ok t
        ∧ t.sent = [.migFin 1 (some ⟨true, false, true⟩) (sendMigFinToArm (handleMetaData true keyFrame).1 0)] :=
  ⟨endsIn_ok (fun t : Thread => t.sent = _) _ (by decide +kernel),
    endsIn_ok (fun t : Thread => t.sent = _) _ (by decide +kernel)⟩

end Xtls.Host
