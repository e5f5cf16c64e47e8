import Xtls.Host.Outcome

/-!
# The loop of a thread

Whatever `epoll_wait` reports and the calls answer, the connections stay accounted for, and a registered one is
subscribed to the event that its state waits for.
-/

namespace Xtls.Host

section

variable {n : Nat} {cfg : Config} {k : Calls} {kc : KeyCalls} {buf : Bytes} {t t' : Thread} {c : ConnRef}
  {ev : Interest}

theorem Orderly.adds (hu : Upkeep n t) (h : Orderly t) (ha : Adds kc buf c t t') : Orderly t' := by
  have hdue : t'.due = t.due := by rw [Thread.due, Thread.due, ha.events]
  refine ⟨hdue ▸ h.distinct, fun d hd => ?_⟩
  by_cases hdc : d = c
  · exact hdc ▸ ha.waiting
  · exact ha.waiting_other hu hdc (h.waiting d (hdue ▸ hd))

/- Between the two halves the connection is in the pool with an old state. -/
theorem Orderly.replaces {u : Thread} (hu : Upkeep n u) (h : Orderly t) (hc : Closes c t u) (ha : Adds kc buf c u t') :
    Orderly t' := by
  have hdue : u.due = t.due := by rw [Thread.due, Thread.due, hc.events]
  have hdue' : t'.due = u.due := by rw [Thread.due, Thread.due, ha.events]
  refine ⟨hdue' ▸ hdue ▸ h.distinct, fun d hd => ?_⟩
  by_cases hdc : d = c
  · exact hdc ▸ ha.waiting
  · exact ha.waiting_other hu hdc (h.closes hc (hdue' ▸ hd) hdc)

theorem Upkeep.setSent (h : Upkeep n t) (sent : List Sent) : Upkeep n { t with sent := sent } :=
  ⟨h.shares, h.covers, h.placed, h.count, h.epoll, h.opened⟩

theorem Orderly.setSent (h : Orderly t) (sent : List Sent) : Orderly { t with sent := sent } :=
  ⟨h.distinct, h.waiting⟩

theorem handleMetaPacket_kept {sendto : Bool} {ret : Int} (hu : Upkeep n t) (ho : Orderly t)
    (h : t.handleMetaPacket kc sendto buf = .ok (ret, t')) : Upkeep n t' ∧ Orderly t' := by
  cases handleMetaPacket_outcome h with
  | quiet same =>
    obtain ⟨sent, rfl⟩ := same
    exact ⟨hu.setSent sent, ho.setSent sent⟩
  | reports _ _ same =>
    rw [same]
    exact ⟨hu.setSent _, ho.setSent _⟩
  | adds _ _ hadds => exact ⟨hu.adds hadds, ho.adds hu hadds⟩
  | replaces _ found hcl _ hadds =>
    have hu' := hu.closes (htSearch_inTable found) hcl
    exact ⟨hu'.adds hadds, ho.replaces hu' hcl hadds⟩

theorem onEvent_kept (hu : Upkeep n t) (ho : Orderly t) (hc : c ∉ t.due)
    (hwait : t.InTable c ∨ c ∈ t.pool ∧ (t.conns c).sockState = .default) (h : t.onEvent cfg k c ev = .ok t') :
    Upkeep n t' ∧ Orderly t' := by
  rcases hwait with hin | ⟨-, hst⟩
  · cases onEvent_outcome hin h with
    | touches htouch => exact ⟨hu.touches hin htouch, ho.touches (hu.not_pool hin) htouch⟩
    | reports _ htouch =>
      have hsent : (t.sendMigFin true c).InTable c := hin
      have hnot : c ∉ (t.sendMigFin true c).pool := hu.not_pool hin
      have hkept : Orderly (t.sendMigFin true c) := ho.setSent _
      exact ⟨(hu.setSent _).touches hsent htouch, hkept.touches hnot htouch⟩
    | closes _ hcl =>
      have hdue : t'.due = t.due := by rw [Thread.due, Thread.due, hcl.events]
      exact ⟨hu.closes hin hcl, hdue ▸ ho.distinct, fun d hd => ho.closes hcl hd fun heq => hc (heq ▸ hdue ▸ hd)⟩
  · rw [onEvent_default hst] at h
    cases h
    exact ⟨hu, ho⟩

theorem Upkeep.setEvents (h : Upkeep n t) (events : List Pending) : Upkeep n { t with events := events } :=
  ⟨h.shares, h.covers, h.placed, h.count, h.epoll, h.opened⟩

/- Who gets an event from `epoll_wait` is registered. -/
theorem pending_registered {ready : List Ready} (hc : c ∈ (ready.filterMap (Ready.pending t)).filterMap Pending.ref) :
    ∃ fd m, fd ∈ ready.filterMap Ready.fd ∧ t.epoll fd = some (m, c) := by
  obtain ⟨p, hp, href⟩ := List.mem_filterMap.mp hc
  obtain ⟨r, hr, hpend⟩ := List.mem_filterMap.mp hp
  cases r with
  | metaSock =>
    cases hpend
    cases href
  | sock fd ev =>
    obtain ⟨⟨m, d⟩, hreg, rfl⟩ := Option.map_eq_some_iff.mp hpend
    cases href
    exact ⟨fd, m, List.mem_filterMap.mpr ⟨.sock fd ev, hr, rfl⟩, hreg⟩

/- A connection is registered under its own descriptor only, and a descriptor is reported once. -/
theorem pending_nodup (hu : Upkeep n t) {ready : List Ready} (honce : (ready.filterMap Ready.fd).Nodup) :
    ((ready.filterMap (Ready.pending t)).filterMap Pending.ref).Nodup := by
  induction ready with
  | nil => exact List.nodup_nil
  | cons r ready ih =>
    cases r with
    | metaSock => exact ih honce
    | sock fd ev =>
      have hcons : fd ∉ ready.filterMap Ready.fd ∧ (ready.filterMap Ready.fd).Nodup := List.nodup_cons.mp honce
      cases hreg : t.epoll fd with
      | none =>
        have hnone : Ready.pending t (.sock fd ev) = none := by rw [Ready.pending, hreg, Option.map_none]
        rw [List.filterMap_cons_none hnone]
        exact ih hcons.2
      | some r =>
        have hsome : Ready.pending t (.sock fd ev)
            = some (.conn r.2 ⟨ev.epollIn && r.1.epollIn, ev.epollOut && r.1.epollOut⟩) := by
          rw [Ready.pending, hreg, Option.map_some]
        rw [List.filterMap_cons_some hsome]
        refine List.nodup_cons.mpr ⟨fun hmem => ?_, ih hcons.2⟩
        obtain ⟨fd', m', hfd', hreg'⟩ := pending_registered hmem
        have hown := (hu.epoll fd r.1 r.2 hreg).1
        rw [(hu.epoll fd' m' r.2 hreg').1] at hown
        exact hcons.1 (Option.some.inj hown ▸ hfd')

/-- What a step of the loop can be. -/
inductive Moves (cfg : Config) : ThreadInput → Thread → Thread → Prop
  | idle (i : ThreadInput) (t : Thread) : Moves cfg i t t
  | wait (ready : ReadyList) (t : Thread) :
    Moves cfg (.wait ready) t { t with events := ready.list.filterMap (Ready.pending t) }
  | noFrame (k : Calls) {t : Thread} {rest : List Pending} (hevents : t.events = .metaSock :: rest) :
    Moves cfg (.next k) t { t with events := rest }
  | packet {k : Calls} {t t' : Thread} (rest : List Pending) {buf : Bytes} {ret : Int}
    (hevents : t.events = .metaSock :: rest) (hframe : k.frame = some buf)
    (h : Thread.handleMetaPacket k.key k.sendto buf { t with events := rest } = .ok (ret, t')) :
    Moves cfg (.next k) t t'
  | event {k : Calls} {t t' : Thread} (rest : List Pending) {c : ConnRef} {ev : Interest}
    (hevents : t.events = .conn c ev :: rest)
    (h : Thread.onEvent cfg k c ev { t with events := rest } = .ok t') : Moves cfg (.next k) t t'

theorem threadStep_moves {i : ThreadInput} (h : threadStep cfg i t = .ok t') : Moves cfg i t t' := by
  cases i with
  | wait ready =>
    cases h
    split
    · exact .wait ready t
    · exact .idle _ t
  | next k =>
    simp only [threadStep, Thread.next] at h
    split at h
    · cases h
      exact .idle _ t
    · rename_i rest hevents
      split at h
      · cases h
        exact .noFrame k hevents
      · rename_i buf hframe
        obtain ⟨⟨ret, t1⟩, ht1, h⟩ := bind_ok h
        cases h
        exact .packet rest hevents hframe ht1
    · rename_i c ev rest hevents
      exact .event rest hevents h

theorem Orderly.tail {p : Pending} {rest : List Pending} (h : Orderly t) (hevents : t.events = p :: rest) :
    Orderly { t with events := rest } := by
  have hsub : (rest.filterMap Pending.ref).Sublist t.due := by
    rw [Thread.due, hevents]
    exact (List.sublist_cons_self p rest).filterMap _
  exact ⟨h.distinct.sublist hsub, fun c hc => h.waiting c (hsub.subset hc)⟩

theorem Orderly.head {rest : List Pending} (h : Orderly t) (hevents : t.events = .conn c ev :: rest) :
    c ∉ rest.filterMap Pending.ref ∧ (t.InTable c ∨ c ∈ t.pool ∧ (t.conns c).sockState = .default) := by
  have hdue : t.due = c :: rest.filterMap Pending.ref := by
    rw [Thread.due, hevents]
    rfl
  exact ⟨(List.nodup_cons.mp (hdue ▸ h.distinct)).1, h.waiting c (hdue ▸ List.mem_cons_self)⟩

theorem threadStep_kept (i : ThreadInput) (hu : Upkeep n t) (ho : Orderly t) (h : threadStep cfg i t = .ok t') :
    Upkeep n t' ∧ Orderly t' := by
  cases threadStep_moves h with
  | idle => exact ⟨hu, ho⟩
  | wait ready =>
    refine ⟨hu.setEvents _, pending_nodup hu ready.once, fun c hc => .inl ?_⟩
    obtain ⟨fd, m, -, hreg⟩ := pending_registered hc
    exact (hu.epoll fd m c hreg).2.1
  | noFrame k hevents => exact ⟨hu.setEvents _, ho.tail hevents⟩
  | packet rest hevents hframe hs => exact handleMetaPacket_kept (hu.setEvents rest) (ho.tail hevents) hs
  | event rest hevents hs =>
    obtain ⟨hlast, hwait⟩ := ho.head hevents
    exact onEvent_kept (hu.setEvents rest) (ho.tail hevents) hlast hwait hs

end

theorem startThread_upkeep (n : Nat) (tls13 : Bool) : Upkeep n (startThread n tls13) := by
  refine ⟨⟨fun b => ?_, fun b b' _ c hc => ?_⟩, fun c => ?_, fun b c hc => ?_, ?_, fun fd m c hreg => ?_,
    fun fd hreg => absurd rfl hreg⟩
  · show ((List.range n).reverse ++ []).Nodup
    rw [List.append_nil]
    exact List.nodup_reverse.mpr List.nodup_range
  · cases hc
  · show c < n ↔ c ∈ (List.range n).reverse ∨ ∃ b, c ∈ ([] : List ConnRef)
    simp only [List.mem_reverse, List.mem_range, List.not_mem_nil, exists_const, or_false]
  · cases hc
  · show (0 : Int) + ((List.range n).reverse.length : Int) = n
    rw [List.length_reverse, List.length_range, Int.zero_add]
  · cases hreg

theorem startThread_orderly (n : Nat) (tls13 : Bool) : Orderly (startThread n tls13) :=
  ⟨List.nodup_nil, fun _ hc => absurd hc List.not_mem_nil⟩

section

variable {n : Nat} {tls13 : Bool} {cfg : Config} {inputs : List ThreadInput} {t : Thread}

theorem run_kept (h : run (threadStep cfg) inputs (startThread n tls13) = .ok t) : Upkeep n t ∧ Orderly t := by
  have hstep : ∀ i t t', threadStep cfg i t = .ok t' → Upkeep n t ∧ Orderly t → Upkeep n t' ∧ Orderly t' :=
    fun i _ _ hs hk => threadStep_kept i hk.1 hk.2 hs
  exact run_invariant hstep inputs _ t h ⟨startThread_upkeep n tls13, startThread_orderly n tls13⟩

/-- Between two events each connection of the thread is once in the pool, or once in the table and there in the
bucket of its client, and pool and table together count all connections. -/
theorem conns_accounted (h : run (threadStep cfg) inputs (startThread n tls13) = .ok t) :
    (∀ c < n, (t.pool.count c = 1 ∧ ∀ b, (t.htTable b).count c = 0)
        ∨ t.pool.count c = 0 ∧ (∀ b, (t.htTable b).count c = if b = t.bucketOf c then 1 else 0))
      ∧ (t.pool.length : Int) + t.count = n := by
  obtain ⟨hu, -⟩ := run_kept h
  refine ⟨fun c hc => ?_, by have hcount := hu.count; omega⟩
  rcases (hu.covers c).mp hc with hpool | ⟨b, hb⟩
  · refine .inl ⟨List.count_eq_one_of_mem (List.nodup_append.mp (hu.shares.nodup 0)).1 hpool, fun b => ?_⟩
    exact List.count_eq_zero_of_not_mem (hu.not_table hpool b)
  · have hin : t.InTable c := by
      rw [Thread.InTable, ← hu.placed b c hb]
      exact hb
    refine .inr ⟨List.count_eq_zero_of_not_mem (hu.not_pool hin), fun b' => ?_⟩
    split
    · rename_i hb'
      exact List.count_eq_one_of_mem (List.nodup_append.mp (hu.shares.nodup b')).2.1 (hb' ▸ hin)
    · rename_i hb'
      exact List.count_eq_zero_of_not_mem fun hmem => hb' (hu.placed b' c hmem)

end

/- A key meta for 10.0.0.7:5000. -/
def keyFrame : Bytes := zeros 12 ++ [0x08, 0x01] ++ zeros 12 ++ [10, 0, 0, 7] ++ zeros 4 ++ [0x13, 0x88]

/- The connection is set up on descriptor 5, gets its keys and reports the end of the migration. -/
def migrationRun : List ThreadInput :=
  [.wait (.single .metaSock), .next { frame := some keyFrame, key := { socket := some 5 } },
    .wait (.single (.sock 5 ⟨false, true⟩)), .next {},
    .wait (.single (.sock 5 ⟨false, true⟩)), .next {}]

theorem conns_accounted_sample : ∃ t, run (threadStep {}) migrationRun (startThread 2 true) = .ok t
    ∧ t.pool = [0] ∧ (t.pool.length : Int) + t.count = 2 := by
  obtain ⟨t, ht, hp⟩ := endsIn_ok (fun t : Thread => t.pool = [0])
    (run (threadStep {}) migrationRun (startThread 2 true)) (by decide +kernel)
  exact ⟨t, ht, hp, (conns_accounted ht).2⟩

/- Without the event of its state a connection is left alone. -/
theorem onEvent_unsubscribed {cfg : Config} {k : Calls} {t : Thread} {c : ConnRef} {ev : Interest}
    (h : ¬ Subscribed ev (t.conns c).sockState) : t.onEvent cfg k c ev = .ok t := by
  unfold Thread.onEvent
  cases hst : (t.conns c).sockState <;> rw [hst] at h <;> simp_all [Subscribed]

/-- Between two events every registered connection is subscribed to the event on which the branch for its state
runs: without that event nothing is done for it. -/
theorem registered_subscribed {n : Nat} {tls13 : Bool} {cfg : Config} {inputs : List ThreadInput} {t : Thread}
    (h : run (threadStep cfg) inputs (startThread n tls13) = .ok t) {fd : Fd} {m : Interest} {c : ConnRef}
    (hreg : t.epoll fd = some (m, c)) :
    ((t.conns c).sockState ∈ [.init, .connected, .httpReqRecved, .tlsHsRecved, .errored] → m.epollOut = true)
      ∧ ((t.conns c).sockState ∈ [.readyToRecv, .waitTcpFin] → m.epollIn = true)
      ∧ ∀ k ev, ¬ Subscribed ev (t.conns c).sockState → t.onEvent cfg k c ev = .ok t := by
  have hsub := ((run_kept h).1.epoll fd m c hreg).2.2
  refine ⟨fun hst => ?_, fun hst => ?_, fun k ev hev => onEvent_unsubscribed hev⟩
  · simp only [List.mem_cons, List.not_mem_nil, or_false] at hst
    rcases hst with hst | hst | hst | hst | hst <;> rw [hst] at hsub <;> exact hsub
  · simp only [List.mem_cons, List.not_mem_nil, or_false] at hst
    rcases hst with hst | hst <;> rw [hst] at hsub <;> exact hsub

theorem registered_subscribed_sample : ∃ t, run (threadStep {}) migrationRun (startThread 2 true) = .ok t
    ∧ t.epoll 5 = some (⟨true, false⟩, 1) ∧ (t.conns 1).sockState = .readyToRecv
    ∧ ((t.conns 1).sockState ∈ [.readyToRecv, .waitTcpFin] → (⟨true, false⟩ : Interest).epollIn = true) := by
  obtain ⟨t, ht, hreg, hst⟩ := endsIn_ok
    (fun t : Thread => t.epoll 5 = some (⟨true, false⟩, 1) ∧ (t.conns 1).sockState = .readyToRecv)
    (run (threadStep {}) migrationRun (startThread 2 true)) (by decide +kernel)
  exact ⟨t, ht, hreg, hst, (registered_subscribed ht hreg).2.1⟩

end Xtls.Host
