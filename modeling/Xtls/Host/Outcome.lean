import Xtls.Host.Upkeep

/-!
# What an event does

Every branch of the loop (`main.c` 566-682) changes the connection of the event or closes it; a meta packet
(`meta_pkt.c` 251-419) sends a frame, adds a connection, or closes one and adds it anew.
-/

namespace Xtls.Host

/-! ### An event of a connection -/

section

variable {cfg : Config} {k : Calls} {t t' : Thread} {c : ConnRef} {ev : Interest} {m : Interest}

theorem Touches.refl (cfg : Config) (k : Calls) (c : ConnRef) (t : Thread) : Touches cfg k c t t :=
  ⟨rfl, rfl, rfl, rfl, rfl, rfl, rfl, fun _ _ => rfl, .same rfl, .inl ⟨rfl, fun _ h => h⟩,
    .inl ⟨rfl, fun _ => rfl⟩⟩

theorem touches_setConn (f : ConnState → ConnState) (hinit : (t.conns c).sockState ≠ .init)
    (hconn : ConnStep cfg k (t.conns c) (f (t.conns c)))
    (hsub : ∀ m, Subscribed m (t.conns c).sockState → Subscribed m (f (t.conns c)).sockState) :
    Touches cfg k c t (t.setConn c f) := by
  have hself : (t.setConn c f).conns c = f (t.conns c) := Function.update_self ..
  refine ⟨rfl, rfl, rfl, rfl, rfl, rfl, rfl, fun d hd => Function.update_of_ne hd .., ?_, .inl ⟨rfl, ?_⟩,
    .inl ⟨rfl, fun h => absurd h hinit⟩⟩
  · rw [hself]
    exact hconn
  · rw [hself]
    exact hsub

theorem modEpoll_ok (h : t.modEpoll m c = .ok t') :
    ∃ fd, (t.conns c).sockFd = some fd ∧ t.epoll fd ≠ none
      ∧ t' = { t with epoll := Function.update t.epoll fd (some (m, c)) } := by
  unfold Thread.modEpoll at h
  split at h
  · cases h
  · rename_i fd hfd
    split at h
    · cases h
    · rename_i r hreg
      cases h
      exact ⟨fd, hfd, hreg ▸ Option.some_ne_none r, rfl⟩

theorem touches_modEpoll {st : SockState} (f : ConnState → ConnState) (hinit : (t.conns c).sockState ≠ .init)
    (hsock : (f (t.conns c)).sockFd = (t.conns c).sockFd)
    (hconn : ConnStep cfg k (t.conns c) { f (t.conns c) with sockState := st })
    (h : (do let t1 ← (t.setConn c f).modEpoll m c; return t1.setState c st) = .ok t') (hsub : Subscribed m st) :
    Touches cfg k c t t' := by
  obtain ⟨t1, ht1, h⟩ := bind_ok h
  obtain ⟨fd, hfd, hreg, rfl⟩ := modEpoll_ok ht1
  cases h
  have hself : (t.setConn c f).conns c = f (t.conns c) := Function.update_self ..
  rw [hself, hsock] at hfd
  have hnew : (Thread.setState c st { t.setConn c f with
      epoll := Function.update (t.setConn c f).epoll fd (some (m, c)) }).conns c
      = { f (t.conns c) with sockState := st } := by
    simp only [Thread.setState, Thread.setConn, Function.update_self]
  refine ⟨rfl, rfl, rfl, rfl, rfl, rfl, rfl, fun d hd => ?_, ?_, .inr ⟨fd, m, hfd, hreg, rfl, ?_⟩,
    .inl ⟨rfl, fun h => absurd h hinit⟩⟩
  · simp only [Thread.setState, Thread.setConn, Function.update_of_ne hd]
  · rw [hnew]
    exact hconn
  · rw [hnew]
    exact hsub

theorem setConn_self (t : Thread) (c : ConnRef) : t.setConn c id = t := by
  simp only [Thread.setConn, id_eq, Function.update_eq_self]

theorem modEpoll_touches {st : SockState} (h : (do let t1 ← t.modEpoll m c; return t1.setState c st) = .ok t')
    (hinit : (t.conns c).sockState ≠ .init) (hnot : (t.conns c).sockState ≠ .httpReqRecved) (hsub : Subscribed m st) :
    Touches cfg k c t t' := by
  refine touches_modEpoll id hinit rfl (.moves hnot rfl) ?_ hsub
  rw [setConn_self]
  exact h

theorem migTlsConn_touches (h : (t.conns c).sockState = .init) : Touches cfg k c t (t.migTlsConn k c) := by
  unfold Thread.migTlsConn
  split
  · rename_i hulp
    obtain ⟨socks, hset, -⟩ := setSock_eq c (fun s => { s with rx := k.tlsRx, tx := k.tlsTx }) t
    have hself : (Thread.setConn c (fun s => { s with sockState := .connected }) { t with socks := socks }).conns c
        = { t.conns c with sockState := .connected } := Function.update_self ..
    rw [hset]
    refine ⟨rfl, rfl, rfl, rfl, rfl, rfl, rfl, fun d hd => Function.update_of_ne hd .., ?_, .inl ⟨rfl, fun m hm => ?_⟩,
      .inr ⟨h, hulp, by rw [hset]; rfl⟩⟩
    · rw [hself]
      exact .moves (by rw [h]; decide) rfl
    · rw [hself]
      rw [h] at hm
      exact hm
  · exact .refl cfg k c t

theorem finishMigration_touches (hst : (t.conns c).sockState = .connected) (h : t.finishMigration k c = .ok t') :
    Touches cfg k c t t' ∨ Touches cfg k c (t.sendMigFin true c) t' := by
  unfold Thread.finishMigration at h
  split at h
  · have hst : ((t.sendMigFin true c).conns c).sockState = .connected := hst
    exact .inr (modEpoll_touches h (by rw [hst]; decide) (by rw [hst]; decide) rfl)
  · cases h
    exact .inl (.refl cfg k c t)

theorem receiveRequest_touches (hready : (t.conns c).sockState = .readyToRecv)
    (h : t.receiveRequest cfg k c = .ok t') : Touches cfg k c t t' := by
  have hinit : (t.conns c).sockState ≠ .init := by
    rw [hready]
    decide
  obtain ⟨hst, hfd, -⟩ := handleReceivedPkt_link cfg.fcache cfg.wwwMain k.value k.recv (t.conns c)
  have hconn : ∀ st, ConnStep cfg k (t.conns c)
      { (handleReceivedPkt cfg.fcache cfg.wwwMain k.value k.recv (t.conns c)).2 with sockState := st } :=
    fun st => .receives hready rfl
  unfold Thread.receiveRequest at h
  dsimp only at h
  generalize handleReceivedPkt cfg.fcache cfg.wwwMain k.value k.recv (t.conns c) = r at *
  have hmod : ∀ {m : Interest} {st : SockState},
      (do let t1 ← (t.setConn c fun _ => r.2).modEpoll m c; return t1.setState c st) = .ok t' → Subscribed m st →
      Touches cfg k c t t' := fun h hsub => touches_modEpoll (fun _ => r.2) hinit hfd (hconn _) h hsub
  split at h
  · exact hmod h rfl
  · exact hmod h rfl
  · exact hmod h rfl
  · exact hmod h rfl
  · exact hmod h rfl
  · cases h
    exact touches_setConn (fun _ => r.2) hinit (hconn r.2.sockState) fun m hm => by rw [hst]; exact hm

theorem respondTo_touches (hst : (t.conns c).sockState = .httpReqRecved) (h : t.respondTo cfg k c = .ok t') :
    Touches cfg k c t t' := by
  have hinit : (t.conns c).sockState ≠ .init := by
    rw [hst]
    decide
  have hlink := sendResponse_link cfg.fcache k.resp (t.conns c)
  have hconn : ∀ s', s' = { (sendResponse cfg.fcache k.resp (t.conns c)).2 with sockState := s'.sockState } →
      (s'.sockState = if (sendResponse cfg.fcache k.resp (t.conns c)).1 < 0 then .errored
        else if s'.respRemain = 0 then .readyToRecv else .httpReqRecved) → ConnStep cfg k (t.conns c) s' :=
    fun s' => .responds hst
  unfold Thread.respondTo at h
  dsimp only at h
  generalize sendResponse cfg.fcache k.resp (t.conns c) = r at *
  split at h
  · rename_i hneg
    cases h
    have htwice : (t.setConn c fun _ => r.2).setState c .errored
        = t.setConn c fun _ => { r.2 with sockState := .errored } := by
      simp only [Thread.setState, Thread.setConn, Function.update_self, Function.update_idem]
    rw [htwice]
    refine touches_setConn (fun _ => _) hinit (hconn _ rfl (if_pos hneg).symm) fun m hm => ?_
    rw [hst] at hm
    exact hm
  · rename_i hneg
    split at h
    · rename_i hrem
      exact touches_modEpoll (fun _ => r.2) hinit hlink.sockFd
        (hconn _ rfl ((if_neg hneg).trans (if_pos hrem)).symm) h rfl
    · rename_i hrem
      cases h
      have hstate : r.2.sockState = .httpReqRecved := hlink.sockState.trans hst
      refine touches_setConn (fun _ => r.2) hinit (hconn r.2 rfl ?_) fun m hm => ?_
      · rw [if_neg hneg, if_neg hrem, hstate]
      · rw [hstate]
        rw [hst] at hm
        exact hm

theorem htSearch_isSome (h : t.InTable c) :
    (t.htSearch (t.conns c).metaInfo.clientIp (t.conns c).metaInfo.clientPort).isSome = true := by
  rw [Thread.htSearch, List.find?_isSome]
  exact ⟨c, h, decide_eq_true ⟨rfl, rfl⟩⟩

theorem closeFd_eq (fd : Option Fd) (t : Thread) : t.closeFd fd = { t with
    socks := fun i => if fd = some i then none else t.socks i
    epoll := fun i => if fd = some i then none else t.epoll i } := by
  cases fd with
  | none => simp [Thread.closeFd]
  | some fd =>
    simp only [Thread.closeFd, Thread.mk.injEq, true_and, and_true, Option.some.injEq]
    constructor <;>
    · funext i
      by_cases hi : i = fd
      · rw [hi, Function.update_self, if_pos rfl]
      · rw [Function.update_of_ne hi, if_neg fun heq => hi heq.symm]

theorem connStateFree_eq (c : ConnRef) (t : Thread) : ∃ conns : ConnRef → ConnState,
    t.connStateFree c = { t with
        pool := c :: t.pool, conns := conns, closedFiles := (t.conns c).respFd.toList ++ t.closedFiles }
      ∧ (∀ d, d ≠ c → conns d = t.conns d) ∧ (conns c).ident = (t.conns c).ident
      ∧ (conns c).sockState = (t.conns c).sockState ∧ (conns c).respFd = none := by
  unfold Thread.connStateFree
  cases hfile : (t.conns c).respFd with
  | none => exact ⟨t.conns, rfl, fun _ _ => rfl, rfl, rfl, hfile⟩
  | some i =>
    refine ⟨Function.update t.conns c { t.conns c with respFd := none }, rfl,
      fun d hd => Function.update_of_ne hd .., ?_⟩
    rw [Function.update_self]
    exact ⟨rfl, rfl, rfl⟩

theorem closeFd_htRemove (fd : Option Fd) (c : ConnRef) (t : Thread) :
    (t.closeFd fd).htRemove c = (t.htRemove c).closeFd fd := by
  cases fd <;> rfl

theorem closeFd_conns (fd : Option Fd) (t : Thread) : (t.closeFd fd).conns = t.conns := by
  cases fd <;> rfl

theorem release_closes (c : ConnRef) (t : Thread) :
    Closes c t (((t.htRemove c).closeFd (t.conns c).sockFd).connStateFree c) := by
  rw [closeFd_eq]
  obtain ⟨conns, heq, hothers, hident, hst, hfile⟩ := connStateFree_eq c { t.htRemove c with
    socks := fun i => if (t.conns c).sockFd = some i then none else (t.htRemove c).socks i
    epoll := fun i => if (t.conns c).sockFd = some i then none else (t.htRemove c).epoll i }
  rw [heq]
  exact ⟨rfl, rfl, rfl, rfl, rfl, rfl, hothers, hident, hst, hfile, fun _ => rfl, fun _ => rfl, rfl⟩

theorem sendClose_eq (sendto : Bool) (i : MetaInfo) (t : Thread) :
    ∃ sent, t.sendClose sendto i = { t with sent := sent } ∧ sent.filter Sent.isMigFin = t.fins := by
  unfold Thread.sendClose
  split
  · refine ⟨_, rfl, ?_⟩
    rw [List.filter_append]
    exact List.append_nil _
  · exact ⟨t.sent, rfl, rfl⟩

theorem closeTcpConn_closes {sendto : Bool} (hc : t.InTable c) (h : t.closeTcpConn sendto c = .ok t') :
    Closes c t t' := by
  obtain ⟨sent, hsent, hfins⟩ := sendClose_eq sendto (t.conns c).metaInfo t
  unfold Thread.closeTcpConn at h
  rw [hsent] at h
  obtain ⟨t1, ht1, h⟩ := bind_ok h
  -- taking the socket out of the epoll instance is repeated by `close`
  have hremove : ∃ fd, (t.conns c).sockFd = some fd
      ∧ t1 = { t with sent := sent, epoll := Function.update t.epoll fd none } := by
    unfold Thread.removeEpollMigSock at ht1
    split at ht1
    · cases ht1
    · rename_i fd hfd
      split at ht1
      · cases ht1
      · cases ht1
        exact ⟨fd, hfd, rfl⟩
  obtain ⟨fd, hfd, rfl⟩ := hremove
  have hclose := release_closes c { t with sent := sent, epoll := Function.update t.epoll fd none }
  have hin : ({ t with sent := sent, epoll := Function.update t.epoll fd none } : Thread).InTable c := hc
  have hown : (({ t with sent := sent, epoll := Function.update t.epoll fd none } : Thread).conns c).sockFd
      = some fd := hfd
  have hclosed : ∀ i, i ≠ fd → ({ t with sent := sent, epoll := Function.update t.epoll fd none } : Thread).epoll i
      = t.epoll i := fun i hi => Function.update_of_ne hi ..
  have hback : Closes c { t with sent := sent, epoll := Function.update t.epoll fd none } t' → Closes c t t' := by
    intro hcl
    refine ⟨hcl.tls13, hcl.pool, hcl.htTable, hcl.count, hcl.events, hcl.fins.trans hfins, hcl.others, hcl.ident,
      hcl.sockState, hcl.respFd, fun i => ?_, hcl.socks, hcl.closedFiles⟩
    rw [hcl.epoll i, hown]
    by_cases hi : i = fd
    · rw [hi, if_pos rfl, if_pos rfl]
    · have hne : some fd ≠ some i := fun heq => hi (Option.some.inj heq).symm
      rw [if_neg hne, if_neg hne, hclosed i hi]
  apply hback
  generalize ({ t with sent := sent, epoll := Function.update t.epoll fd none } : Thread) = u at *
  have hfound : ((u.closeFd (u.conns c).sockFd).htSearch (u.conns c).metaInfo.clientIp
      (u.conns c).metaInfo.clientPort).isSome = true := by
    rw [closeFd_eq]
    exact htSearch_isSome hin
  simp only [closeFd_conns, hfound, if_true, closeFd_htRemove] at h
  cases h
  exact hclose

theorem onEvent_default (h : (t.conns c).sockState = .default) : t.onEvent cfg k c ev = .ok t := by
  simp [Thread.onEvent, h]

def closing (st : SockState) : Bool := st = .httpRespSent || st = .waitTcpFin || st = .errored

/-- What an event does to a connection of the table. -/
inductive EventOutcome (cfg : Config) (k : Calls) (c : ConnRef) (t t' : Thread) : Prop
  | touches (h : Touches cfg k c t t')
  | reports (state : (t.conns c).sockState = .connected) (h : Touches cfg k c (t.sendMigFin true c) t')
  | closes (state : closing (t.conns c).sockState = true) (h : Closes c t t')

theorem onEvent_outcome (hc : t.InTable c) (h : t.onEvent cfg k c ev = .ok t') : EventOutcome cfg k c t t' := by
  have hstate : ∀ {b : Bool} {st : SockState}, (b && decide ((t.conns c).sockState = st)) = true →
      (t.conns c).sockState = st := fun h => of_decide_eq_true (Bool.and_eq_true_iff.mp h).2
  unfold Thread.onEvent at h
  dsimp only at h
  split at h
  · rename_i hst
    cases h
    exact .touches (migTlsConn_touches (hstate hst))
  split at h
  · rename_i hst
    rcases finishMigration_touches (hstate hst) h with htouch | htouch
    · exact .touches htouch
    · exact .reports (hstate hst) htouch
  split at h
  · rename_i hst
    exact .touches (receiveRequest_touches (hstate hst) h)
  split at h
  · rename_i hst
    exact .touches (respondTo_touches (hstate hst) h)
  split at h
  · rename_i hst
    exact .touches (modEpoll_touches h (by rw [hstate hst]; decide) (by rw [hstate hst]; decide) rfl)
  split at h
  · rename_i hst
    refine .closes ?_ (closeTcpConn_closes hc h)
    rw [closing, (Bool.and_eq_true_iff.mp hst).2, Bool.true_or]
  split at h
  · rename_i hst
    refine .closes ?_ (closeTcpConn_closes hc h)
    rw [closing, Bool.or_right_comm, (Bool.and_eq_true_iff.mp hst).2, Bool.true_or]
  · cases h
    exact .touches (.refl cfg k c t)

end

/-! ### A meta packet -/

def KeyCalls.fd (k : KeyCalls) : Option Fd := if ∀ i, k.sockOpts i = true then k.socket else none

def KeyCalls.opened (k : KeyCalls) (socks : Fd → Option SockInfo) : Fd → Option SockInfo :=
  match k.socket with
  | none => socks
  | some fd => Function.update socks fd (some {})

def withSocket (k : KeyCalls) (c : ConnRef) (u : Thread) : Thread :=
  Thread.setConn c (fun s => { s with sockFd := k.fd }) { u with socks := k.opened u.socks }

theorem setMigSock_eq (k : KeyCalls) (t : Thread) : t.setMigSock k = (k.fd, { t with socks := k.opened t.socks }) := by
  unfold Thread.setMigSock KeyCalls.fd KeyCalls.opened
  cases k.socket with
  | none => simp only [ite_self]
  | some fd =>
    dsimp only
    split <;> rfl

/- The connection has been put into the table; its socket is still closed or without a restored state. -/
structure Inserted (k : KeyCalls) (buf : Bytes) (c : ConnRef) (t t' : Thread) : Prop where
  top : t.pool.head? = some c
  tls13 : t'.tls13 = t.tls13
  pool : t'.pool = t.pool.tail
  count : t'.count = t.count + 1
  htTable : t'.htTable = Function.update t.htTable (t'.bucketOf c) (t.htTable (t'.bucketOf c) ++ [c])
  events : t'.events = t.events
  sent : t'.sent = t.sent
  closedFiles : t'.closedFiles = t.closedFiles
  others : ∀ d, d ≠ c → t'.conns d = t.conns d
  ident : t'.ident c = handleMetaData t.tls13 buf
  sockState : (t'.conns c).sockState = .default
  respFd : (t'.conns c).respFd = none
  epoll : ∀ fd r, t'.epoll fd = some r → t.epoll fd = some r
  opened : (∀ fd, t.epoll fd ≠ none → t.socks fd ≠ none) → ∀ fd, t'.epoll fd ≠ none → t'.socks fd ≠ none
  socks : ∀ fd, k.socket ≠ some fd → t'.socks fd = t.socks fd

section

variable {k : KeyCalls} {buf : Bytes} {t t' u : Thread} {c : ConnRef} {ret : Int}

theorem KeyCalls.opened_ne (k : KeyCalls) {socks : Fd → Option SockInfo} {i : Fd} (h : socks i ≠ none) :
    k.opened socks i ≠ none := by
  cases hsock : k.socket with
  | none =>
    rw [KeyCalls.opened, hsock]
    exact h
  | some fd =>
    rw [KeyCalls.opened, hsock]
    by_cases hi : i = fd
    · simp only [hi, Function.update_self, ne_eq, reduceCtorEq, not_false_eq_true]
    · simp only [Function.update_of_ne hi]
      exact h

theorem KeyCalls.opened_other {socks : Fd → Option SockInfo} {i : Fd} (h : k.socket ≠ some i) :
    k.opened socks i = socks i := by
  cases hsock : k.socket with
  | none => rw [KeyCalls.opened, hsock]
  | some fd =>
    rw [hsock] at h
    rw [KeyCalls.opened, hsock]
    exact Function.update_of_ne (fun heq : i = fd => h (congrArg some heq.symm)) ..

theorem KeyCalls.fd_some {k : KeyCalls} {fd : Fd} (h : k.fd = some fd) : k.socket = some fd := by
  unfold KeyCalls.fd at h
  split at h
  · exact h
  · cases h

theorem KeyCalls.opened_fd {k : KeyCalls} {fd : Fd} (h : k.fd = some fd) (socks : Fd → Option SockInfo) :
    k.opened socks fd = some {} := by
  rw [KeyCalls.opened, KeyCalls.fd_some h]
  exact Function.update_self ..

theorem withSocket_sockFd (k : KeyCalls) (c : ConnRef) (u : Thread) : ((withSocket k c u).conns c).sockFd = k.fd := by
  simp only [withSocket, Thread.setConn, Function.update_self]

theorem insertConn_inserted (h : t.connStateAlloc = some (c, u)) : Inserted k buf c t (u.insertConn c buf) := by
  unfold Thread.connStateAlloc at h
  split at h
  · cases h
  · rename_i pool hpool
    cases h
    have hself : (Thread.insertConn c buf { t with pool := pool, conns := Function.update t.conns c {} }).conns c
        = { metaInfo := (handleMetaData t.tls13 buf).1, cryptoInfo := (handleMetaData t.tls13 buf).2 } := by
      simp only [Thread.insertConn, Thread.htInsert, Thread.setConn, Function.update_self]
    refine ⟨?_, rfl, ?_, rfl, rfl, rfl, rfl, rfl, fun d hd => ?_, ?_, ?_, ?_, fun _ _ hr => hr, fun ho => ho,
      fun _ _ => rfl⟩
    · rw [hpool]
      rfl
    · rw [hpool]
      rfl
    · simp only [Thread.insertConn, Thread.htInsert, Thread.setConn, Function.update_of_ne hd]
    · rw [Thread.ident, hself]
      rfl
    · rw [hself]
    · rw [hself]

theorem Inserted.adds (h : Inserted k buf c t u) : Adds k buf c t u :=
  ⟨h.top, h.tls13, h.events, h.sent, h.closedFiles, h.others, h.ident, h.respFd, .inl h.sockState,
    .inl ⟨h.pool, h.count, h.htTable, .inl h.epoll⟩, h.opened, h.socks⟩

theorem Inserted.withSocket (h : Inserted k buf c t u) : Inserted k buf c t (withSocket k c u) := by
  have hself : (Host.withSocket k c u).conns c = { u.conns c with sockFd := k.fd } := Function.update_self ..
  have hident : (Host.withSocket k c u).ident c = u.ident c := by
    rw [Thread.ident, hself]
    rfl
  refine ⟨h.top, h.tls13, h.pool, h.count, ?_, h.events, h.sent, h.closedFiles, fun d hd => ?_, hident.trans h.ident,
    ?_, ?_, h.epoll, fun ho i hi => k.opened_ne (h.opened ho i hi), fun i hi => ?_⟩
  · rw [Thread.bucketOf_ident hident]
    exact h.htTable
  · exact (Function.update_of_ne hd ..).trans (h.others d hd)
  · rw [hself]
    exact h.sockState
  · rw [hself]
    exact h.respFd
  · exact (KeyCalls.opened_other hi).trans (h.socks i hi)

theorem Inserted.closeFd (h : Inserted k buf c t u) : Inserted k buf c t (u.closeFd k.fd) := by
  rw [closeFd_eq]
  refine ⟨h.top, h.tls13, h.pool, h.count, h.htTable, h.events, h.sent, h.closedFiles, h.others, h.ident, h.sockState,
    h.respFd, fun i r hr => ?_, fun ho i hi => ?_, fun i hi => ?_⟩
  · simp only at hr
    split at hr
    · cases hr
    · exact h.epoll i r hr
  · simp only at hi ⊢
    split at hi
    · exact absurd rfl hi
    · rename_i hfd
      rw [if_neg hfd]
      exact h.opened ho i hi
  · simp only [if_neg fun hfd => hi (KeyCalls.fd_some hfd)]
    exact h.socks i hi

/-- Whether every call of `mig_tcp_conn` behind the registration succeeds. -/
def KeyCalls.restores (k : KeyCalls) : Bool := k.bind && k.connect && k.repairOptions && k.repairOff

theorem migTcpConn_ok {restored : Bool} (h : u.migTcpConn k c = .ok (restored, t')) :
    ∃ fd, (u.conns c).sockFd = some fd ∧ k.epollAdd = true ∧ u.epoll fd = none ∧ restored = k.restores
      ∧ t' = { u with
          epoll := Function.update u.epoll fd (some (⟨false, true⟩, c))
          socks := if restored then Function.update u.socks fd ((u.socks fd).map fun s => { s with restored := true })
            else u.socks } := by
  unfold Thread.migTcpConn at h
  split at h
  · cases h
  · rename_i fd hfd
    split at h
    · cases h
    · rename_i hadd
      have hadd : k.epollAdd = true ∧ u.epoll fd = none := by
        rw [not_or, Bool.not_eq_false, Option.not_isSome_iff_eq_none] at hadd
        exact hadd
      refine ⟨fd, hfd, hadd.1, hadd.2, ?_⟩
      split at h
      · rename_i hok
        cases h
        refine ⟨hok.symm, ?_⟩
        simp only [Thread.setSock, hfd, if_true]
      · rename_i hok
        cases h
        exact ⟨(Bool.eq_false_of_not_eq_true hok).symm, rfl⟩

theorem Inserted.started (h : Inserted k buf c t u) {fd : Fd} (hfd : k.fd = some fd)
    (hown : (u.conns c).sockFd = some fd) (hnew : u.epoll = t.epoll) :
    Adds k buf c t (Thread.setConn c (fun s => { s with sockState := .init }) { u with
      epoll := Function.update u.epoll fd (some (⟨false, true⟩, c))
      socks := Function.update u.socks fd (some { restored := true }) }) := by
  have hself : (Thread.setConn c (fun s => { s with sockState := .init }) { u with
      epoll := Function.update u.epoll fd (some (⟨false, true⟩, c))
      socks := Function.update u.socks fd (some { restored := true }) }).conns c
      = { u.conns c with sockState := .init } := Function.update_self ..
  refine ⟨h.top, h.tls13, h.events, h.sent, h.closedFiles,
    fun d hd => (Function.update_of_ne hd ..).trans (h.others d hd), ?_, ?_,
    .inr ⟨fd, KeyCalls.fd_some hfd, ?_, ?_, Function.update_self ..⟩,
    .inl ⟨h.pool, h.count, ?_, .inr ⟨fd, ?_, ?_, ?_⟩⟩, fun ho i hi => ?_, fun i hi => ?_⟩
  · rw [Thread.ident, hself]
    exact h.ident
  · rw [hself]
    exact h.respFd
  · rw [hself]
    exact hown
  · rw [hself]
  · rw [Thread.bucketOf, hself]
    exact h.htTable
  · rw [hself]
  · rw [hself]
    exact hown
  · exact congrArg (Function.update · fd (some (⟨false, true⟩, c))) hnew
  · by_cases hif : i = fd
    · simp only [Thread.setConn, hif, Function.update_self]
      exact Option.some_ne_none _
    · have hi : Function.update u.epoll fd (some (⟨false, true⟩, c)) i ≠ none := hi
      rw [Function.update_of_ne hif] at hi
      exact (Function.update_of_ne hif ..).trans_ne (h.opened ho i hi)
  · have hif : i ≠ fd := fun heq => hi (heq ▸ KeyCalls.fd_some hfd)
    exact (Function.update_of_ne hif ..).trans (h.socks i hi)

theorem Inserted.undone (h : Inserted k buf c t u) {fd : Fd} (hkfd : k.fd = some fd)
    (hfd : (u.conns c).sockFd = some fd)
    (hcl : Closes c { u with epoll := Function.update u.epoll fd (some (⟨false, true⟩, c)) } t')
    (hsent : t'.sent = u.sent) : Adds k buf c t t' := by
  have htab : ∀ b, t'.htTable b = t.htTable b ∨ c ∈ t.htTable b := fun b => by
    rw [hcl.htTable]
    show Function.update u.htTable (u.bucketOf c) ((u.htTable (u.bucketOf c)).erase c) b = t.htTable b ∨ _
    by_cases hb : b = u.bucketOf c
    · by_cases hmem : c ∈ t.htTable b
      · exact .inr hmem
      · refine .inl ?_
        rw [hb, Function.update_self, h.htTable, Function.update_self, List.erase_append_right _ (hb ▸ hmem),
          List.erase_cons_head, List.append_nil]
    · rw [Function.update_of_ne hb, h.htTable, Function.update_of_ne hb]
      exact .inl rfl
  have hpool : t'.pool = t.pool := by
    rw [hcl.pool]
    show c :: u.pool = t.pool
    rw [h.pool]
    exact List.cons_head?_tail h.top
  have hold : ∀ i, (u.conns c).sockFd ≠ some i →
      Function.update u.epoll fd (some (⟨false, true⟩, c)) i = u.epoll i := fun i hi =>
    Function.update_of_ne (fun heq : i = fd => hi (hfd.trans (congrArg some heq.symm))) ..
  refine ⟨h.top, hcl.tls13.trans h.tls13, hcl.events.trans h.events, hsent.trans h.sent, ?_,
    fun d hd => (hcl.others d hd).trans (h.others d hd), hcl.ident.trans h.ident, hcl.respFd,
    .inl (hcl.sockState.trans h.sockState),
    .inr ⟨hpool, ?_, htab, hcl.sockState.trans h.sockState, fun i r hr => ?_⟩, fun ho i hi => ?_, fun i hi => ?_⟩
  · rw [hcl.closedFiles, h.respFd]
    exact h.closedFiles
  · rw [hcl.count, h.count]
    omega
  · rw [hcl.epoll] at hr
    split at hr
    · cases hr
    · rename_i hi
      exact h.epoll i r ((hold i hi).symm.trans hr)
  · rw [hcl.epoll] at hi
    rw [hcl.socks]
    split at hi
    · exact absurd rfl hi
    · rename_i hne
      rw [if_neg hne]
      exact h.opened ho i fun hnone => hi ((hold i hne).trans hnone)
  · have hne : (u.conns c).sockFd ≠ some i := fun heq => hi (KeyCalls.fd_some (hkfd.trans (hfd.symm.trans heq)))
    rw [hcl.socks, if_neg hne]
    exact h.socks i hi

theorem openSocket_cases (h : u.openSocket k c = .ok (ret, t')) :
    ((k.fd = none ∨ k.setfl = false) ∧ ret = -1 ∧ t' = (withSocket k c u).closeFd k.fd)
      ∨ ∃ fd, k.fd = some fd ∧ k.setfl = true ∧ k.epollAdd = true ∧ u.epoll fd = none
        ∧ (k.restores = true ∧ ret = 0
            ∧ t' = Thread.setConn c (fun s => { s with sockState := .init }) { withSocket k c u with
                epoll := Function.update u.epoll fd (some (⟨false, true⟩, c))
                socks := Function.update (k.opened u.socks) fd
                  ((k.opened u.socks fd).map fun s => { s with restored := true }) }
          ∨ k.restores = false ∧ ret = -1
            ∧ t' = ((Thread.htRemove c { withSocket k c u with
                epoll := Function.update u.epoll fd (some (⟨false, true⟩, c)) }).closeFd
                (some fd)).connStateFree c) := by
  unfold Thread.openSocket at h
  rw [setMigSock_eq] at h
  dsimp only at h
  split at h
  · rename_i hnb
    obtain ⟨hsome, hfl⟩ := Bool.and_eq_true_iff.mp hnb
    obtain ⟨⟨restored, v⟩, hv, h⟩ := bind_ok h
    obtain ⟨fd, hfd, hadd, hnone, hrest, rfl⟩ := migTcpConn_ok hv
    rw [show (Thread.setConn c (fun s => { s with sockFd := k.fd }) { u with socks := k.opened u.socks })
      = withSocket k c u from rfl] at h hfd
    rw [withSocket_sockFd] at hfd
    refine .inr ⟨fd, hfd, hfl, hadd, hnone, ?_⟩
    cases hr : restored with
    | true =>
      rw [hr] at h hrest
      cases h
      exact .inl ⟨hrest.symm, rfl, rfl⟩
    | false =>
      rw [hr] at h hrest
      simp only [Bool.false_eq_true, if_false, withSocket_sockFd, hfd] at h
      cases h
      exact .inr ⟨hrest.symm, rfl, rfl⟩
  · rename_i hnb
    cases h
    refine .inl ⟨?_, rfl, rfl⟩
    cases hfd : k.fd with
    | none => exact .inl rfl
    | some fd =>
      rw [hfd] at hnb
      exact .inr (Bool.eq_false_of_not_eq_true hnb)

theorem addConnection_ok (h : t.addConnection k buf = .ok (ret, t')) :
    ∃ c u, t.connStateAlloc = some (c, u) ∧ (recordLen buf).toNat ≤ recvMetaBufSize
      ∧ (u.insertConn c buf).openSocket k c = .ok (ret, t') := by
  unfold Thread.addConnection at h
  split at h
  · cases h
  · rename_i c u halloc
    split at h
    · cases h
    · rename_i hlen
      exact ⟨c, u, halloc, Nat.le_of_not_lt hlen, h⟩

theorem connStateAlloc_epoll (h : t.connStateAlloc = some (c, u)) : u.epoll = t.epoll := by
  unfold Thread.connStateAlloc at h
  split at h
  · cases h
  · cases h
    rfl

def registered (k : KeyCalls) (fd : Fd) (c : ConnRef) (buf : Bytes) (u : Thread) : Thread :=
  { withSocket k c (u.insertConn c buf) with
    epoll := Function.update (u.insertConn c buf).epoll fd (some (⟨false, true⟩, c)) }

theorem registered_undone (buf : Bytes) (halloc : t.connStateAlloc = some (c, u)) {fd : Fd} (hfd : k.fd = some fd) :
    Closes c (registered k fd c buf u) ((((registered k fd c buf u).htRemove c).closeFd (some fd)).connStateFree c)
      ∧ Adds k buf c t ((((registered k fd c buf u).htRemove c).closeFd (some fd)).connStateFree c) := by
  have hins : Inserted k buf c t (withSocket k c (u.insertConn c buf)) := (insertConn_inserted halloc).withSocket
  have hown : ((registered k fd c buf u).conns c).sockFd = some fd := (withSocket_sockFd ..).trans hfd
  have hcl := release_closes c (registered k fd c buf u)
  rw [hown] at hcl
  refine ⟨hcl, hins.undone hfd hown hcl ?_⟩
  obtain ⟨conns, hfree, -⟩ := connStateFree_eq c (((registered k fd c buf u).htRemove c).closeFd (some fd))
  rw [hfree]
  rfl

theorem addConnection_adds (h : t.addConnection k buf = .ok (ret, t')) : ∃ c, Adds k buf c t t' := by
  obtain ⟨c, u, halloc, -, h⟩ := addConnection_ok h
  have hins : Inserted k buf c t (withSocket k c (u.insertConn c buf)) := (insertConn_inserted halloc).withSocket
  have halready := connStateAlloc_epoll halloc
  have hsame : (withSocket k c (u.insertConn c buf)).epoll = t.epoll := halready
  refine ⟨c, ?_⟩
  rcases openSocket_cases h with ⟨-, -, rfl⟩ | ⟨fd, hfd, -, -, -, ⟨-, -, rfl⟩ | ⟨-, -, rfl⟩⟩
  · exact hins.closeFd.adds
  · rw [KeyCalls.opened_fd hfd]
    exact hins.started hfd ((withSocket_sockFd ..).trans hfd) hsame
  · exact (registered_undone buf halloc hfd).2

theorem htSearch_inTable {ip : UInt32} {port : UInt16} (h : t.htSearch ip port = some c) : t.InTable c := by
  have hpred := List.find?_some h
  have hfound := of_decide_eq_true hpred
  rw [Thread.InTable, Thread.bucketOf, hfound.1, hfound.2]
  exact List.mem_of_find?_eq_some h

/-- A meta packet sends a frame, adds a connection, or closes one and adds it anew. -/
inductive MetaOutcome (k : KeyCalls) (buf : Bytes) (t t' : Thread) : Prop
  | quiet (same : ∃ sent, t' = { t with sent := sent }) (fins : t'.fins = t.fins)
  | reports {c : ConnRef} (type : validateMetaType buf = some .key)
      (found : t.htSearch (be32 buf 26) (be16 buf 34) = some c) (same : t' = t.sendMigFin true c)
  | adds {c : ConnRef} (type : validateMetaType buf = some .key)
      (absent : t.htSearch (be32 buf 26) (be16 buf 34) = none) (adds : Adds k buf c t t')
  | replaces {c : ConnRef} {u : Thread} (type : validateMetaType buf = some .rstConn)
      (found : t.htSearch (be32 buf 0) (be16 buf 14) = some c) (closes : Closes c t u) (sent : u.sent = t.sent)
      (adds : Adds k buf c u t')

theorem handleMetaPacket_outcome {sendto : Bool} (h : t.handleMetaPacket k sendto buf = .ok (ret, t')) :
    MetaOutcome k buf t t' := by
  unfold Thread.handleMetaPacket at h
  split at h
  · cases h
    exact .quiet ⟨t.sent, rfl⟩ rfl
  · rename_i htype
    unfold Thread.handleKeyPacket at h
    split at h
    · rename_i c hfound
      cases h
      cases sendto with
      | true => exact .reports htype hfound rfl
      | false => exact .quiet ⟨t.sent, rfl⟩ rfl
    · rename_i habsent
      obtain ⟨c, hadds⟩ := addConnection_adds h
      exact .adds htype habsent hadds
  · rename_i htype
    unfold Thread.handleRstConnPacket at h
    split at h
    · rename_i c hfound
      have hcl := release_closes c t
      obtain ⟨d, hadds⟩ := addConnection_adds h
      have hd : d = c := by
        have htop := hadds.top
        rw [hcl.pool] at htop
        exact (Option.some.inj htop).symm
      refine .replaces htype hfound hcl ?_ (hd ▸ hadds)
      obtain ⟨conns, hfree, -⟩ := connStateFree_eq c ((t.htRemove c).closeFd (t.conns c).sockFd)
      rw [hfree, closeFd_eq]
      rfl
    · cases h
      exact .quiet ⟨t.sent, rfl⟩ rfl
  · cases h
    obtain ⟨sent, hsent, hfins⟩ := sendClose_eq sendto
      { clientIp := be32 buf 26, clientPort := be16 buf (14 + 4 * (byteAt buf 14 &&& 0x0f).toNat)
        seqNum := be32 buf (14 + 4 * (byteAt buf 14 &&& 0x0f).toNat + 4)
        ackNum := be32 buf (14 + 4 * (byteAt buf 14 &&& 0x0f).toNat + 8) } t
    have heq : t.handleUnterminatedConn sendto buf = { t with sent := sent } := hsent
    rw [heq]
    exact .quiet ⟨sent, rfl⟩ hfins

end

end Xtls.Host
