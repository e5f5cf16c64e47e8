import Xtls.Host.Thread
import Xtls.Lib.Shares

/-!
# What the loop keeps

Every connection of a thread is in its pool or in its table, and a socket of the epoll instance is
subscribed to the event that the loop waits for in the state of its connection.
-/

namespace Xtls.Host

/-- The event for which the loop has a branch in the state is among the subscribed ones. -/
def Subscribed (m : Interest) : SockState → Prop
  | .init => m.epollOut = true
  | .connected => m.epollOut = true
  | .readyToRecv => m.epollIn = true
  | .httpReqRecved => m.epollOut = true
  | .tlsHsRecved => m.epollOut = true
  | .waitTcpFin => m.epollIn = true
  | .errored => m.epollOut = true
  | _ => True

def Thread.InTable (t : Thread) (c : ConnRef) : Prop := c ∈ t.htTable (t.bucketOf c)

/-- Every one of the `n` connections is in the pool or in the bucket of its client, once, and what is
registered is open, in the table and subscribed. -/
structure Upkeep (n : Nat) (t : Thread) : Prop where
  shares : Shares t.pool t.htTable
  covers : Covers (· < n) t.pool t.htTable
  placed : ∀ b, ∀ c ∈ t.htTable b, b = t.bucketOf c
  count : t.count + t.pool.length = n
  epoll : ∀ fd m c, t.epoll fd = some (m, c) →
    (t.conns c).sockFd = some fd ∧ t.InTable c ∧ Subscribed m (t.conns c).sockState
  opened : ∀ fd, t.epoll fd ≠ none → t.socks fd ≠ none

def Pending.ref : Pending → Option ConnRef
  | .metaSock => none
  | .conn c _ => some c

def Thread.due (t : Thread) : List ConnRef := t.events.filterMap Pending.ref

/-- No connection has two events; one that went back to the pool meanwhile has no state. -/
structure Orderly (t : Thread) : Prop where
  distinct : t.due.Nodup
  waiting : ∀ c ∈ t.due, t.InTable c ∨ c ∈ t.pool ∧ (t.conns c).sockState = .default

def Thread.ident (t : Thread) (c : ConnRef) : MetaInfo × SslCryptoInfo := (t.conns c).ident

def Sent.isMigFin : Sent → Bool
  | .migFin .. => true
  | .close _ => false

def Thread.fins (t : Thread) : List Sent := t.sent.filter Sent.isMigFin

/-! ### One connection is changed -/

/-- What an event makes of its connection, apart from closing it. -/
inductive ConnStep (cfg : Config) (k : Calls) (s s' : ConnState) : Prop
  | same (same : s' = s)
  | moves (state : s.sockState ≠ .httpReqRecved) (same : s' = { s with sockState := s'.sockState })
  | receives (state : s.sockState = .readyToRecv)
      (same : s' = { (handleReceivedPkt cfg.fcache cfg.wwwMain k.value k.recv s).2 with sockState := s'.sockState })
  | responds (state : s.sockState = .httpReqRecved)
      (same : s' = { (sendResponse cfg.fcache k.resp s).2 with sockState := s'.sockState })
      (next : s'.sockState = if (sendResponse cfg.fcache k.resp s).1 < 0 then .errored
        else if s'.respRemain = 0 then .readyToRecv else .httpReqRecved)

theorem handleReceivedPkt_link (fcache : List FileCache) (wwwMain value : Bytes) (msg : RecvMsg) (s : ConnState) :
    (handleReceivedPkt fcache wwwMain value msg s).2.sockState = s.sockState
      ∧ (handleReceivedPkt fcache wwwMain value msg s).2.sockFd = s.sockFd
      ∧ (handleReceivedPkt fcache wwwMain value msg s).2.ident = s.ident
      ∧ (handleReceivedPkt fcache wwwMain value msg s).2.respFd = s.respFd := by
  have hfile : ∀ s : ConnState, (lookupFile fcache wwwMain value s).sockState = s.sockState
      ∧ (lookupFile fcache wwwMain value s).sockFd = s.sockFd
      ∧ (lookupFile fcache wwwMain value s).ident = s.ident
      ∧ (lookupFile fcache wwwMain value s).respFd = s.respFd := fun s => by
    unfold lookupFile
    dsimp only
    split
    · exact ⟨rfl, rfl, rfl, rfl⟩
    · split <;> exact ⟨rfl, rfl, rfl, rfl⟩
  cases msg with
  | again => exact ⟨rfl, rfl, rfl, rfl⟩
  | failed => exact ⟨rfl, rfl, rfl, rfl⟩
  | data b types =>
    simp only [handleReceivedPkt]
    split
    · exact ⟨rfl, rfl, rfl, rfl⟩
    · split
      · exact ⟨rfl, rfl, rfl, rfl⟩
      · split
        · exact ⟨rfl, rfl, rfl, rfl⟩
        · split
          · exact ⟨rfl, rfl, rfl, rfl⟩
          · exact hfile _

theorem sendResponse_link (fcache : List FileCache) (a : RespCalls) (s : ConnState) :
    SameLink s (sendResponse fcache a s).2 := by
  have hlink := sendHttpsResp_link (contents fcache) a.toAnswers { conn := s }
  unfold sendResponse
  dsimp only
  split <;> exact ⟨hlink.keepAlive, hlink.sockState, hlink.sockFd, hlink.ident⟩

theorem ConnStep.link {cfg : Config} {k : Calls} {s s' : ConnState} (h : ConnStep cfg k s s') :
    s'.sockFd = s.sockFd ∧ s'.ident = s.ident := by
  cases h with
  | same hs =>
    rw [hs]
    exact ⟨rfl, rfl⟩
  | moves _ hs =>
    rw [hs]
    exact ⟨rfl, rfl⟩
  | receives _ hs =>
    rw [hs]
    obtain ⟨-, hfd, hident, -⟩ := handleReceivedPkt_link cfg.fcache cfg.wwwMain k.value k.recv s
    exact ⟨hfd, hident⟩
  | responds _ hs _ =>
    rw [hs]
    have hlink := sendResponse_link cfg.fcache k.resp s
    exact ⟨hlink.sockFd, hlink.ident⟩

/-- The rest of the thread stays as it is: the socket gets its keys, or the connection is subscribed to other
events. -/
structure Touches (cfg : Config) (k : Calls) (c : ConnRef) (t t' : Thread) : Prop where
  tls13 : t'.tls13 = t.tls13
  pool : t'.pool = t.pool
  htTable : t'.htTable = t.htTable
  count : t'.count = t.count
  events : t'.events = t.events
  closedFiles : t'.closedFiles = t.closedFiles
  sent : t'.sent = t.sent
  others : ∀ d, d ≠ c → t'.conns d = t.conns d
  conn : ConnStep cfg k (t.conns c) (t'.conns c)
  epoll : (t'.epoll = t.epoll ∧ ∀ m, Subscribed m (t.conns c).sockState → Subscribed m (t'.conns c).sockState)
    ∨ ∃ fd m, (t.conns c).sockFd = some fd ∧ t.epoll fd ≠ none ∧ t'.epoll = Function.update t.epoll fd (some (m, c))
      ∧ Subscribed m (t'.conns c).sockState
  socks : t'.socks = t.socks ∧ ((t.conns c).sockState = .init → t'.conns c = t.conns c)
    ∨ (t.conns c).sockState = .init ∧ k.ulp = true
      ∧ t'.socks = (t.setSock c fun s => { s with rx := k.tlsRx, tx := k.tlsTx }).socks

section

variable {n : Nat} {cfg : Config} {k : Calls} {t t' : Thread} {c : ConnRef}

theorem Upkeep.not_pool (h : Upkeep n t) (hc : t.InTable c) : c ∉ t.pool := fun hp =>
  (List.nodup_append.mp (h.shares.nodup (t.bucketOf c))).2.2 c hp c hc rfl

theorem Thread.bucketOf_ident {d : ConnRef} (h : t'.ident d = t.ident d) : t'.bucketOf d = t.bucketOf d := by
  have hmeta : (t'.conns d).metaInfo = (t.conns d).metaInfo := congrArg Prod.fst h
  rw [Thread.bucketOf, Thread.bucketOf, hmeta]

theorem Touches.ident (h : Touches cfg k c t t') (d : ConnRef) : t'.ident d = t.ident d := by
  by_cases hd : d = c
  · rw [hd]
    exact h.conn.link.2
  · rw [Thread.ident, h.others d hd, Thread.ident]

theorem Touches.sockFd (h : Touches cfg k c t t') : (t'.conns c).sockFd = (t.conns c).sockFd := h.conn.link.1

theorem Touches.bucketOf (h : Touches cfg k c t t') (d : ConnRef) : t'.bucketOf d = t.bucketOf d :=
  Thread.bucketOf_ident (h.ident d)

theorem setSock_eq (c : ConnRef) (f : SockInfo → SockInfo) (t : Thread) :
    ∃ socks, t.setSock c f = { t with socks := socks } ∧ ∀ fd, t.socks fd ≠ none → socks fd ≠ none := by
  unfold Thread.setSock
  split
  · exact ⟨t.socks, rfl, fun _ h => h⟩
  · rename_i fd hfd
    refine ⟨_, rfl, fun i hi => ?_⟩
    by_cases heq : i = fd
    · rw [heq, Function.update_self]
      exact fun hnone => hi (heq ▸ Option.map_eq_none_iff.mp hnone)
    · rwa [Function.update_of_ne heq]

theorem Touches.opened (h : Touches cfg k c t t') (fd : Fd) (hfd : t.socks fd ≠ none) : t'.socks fd ≠ none := by
  rcases h.socks with ⟨hsame, -⟩ | ⟨-, -, hset⟩
  · rwa [hsame]
  · obtain ⟨socks, heq, hopen⟩ := setSock_eq c (fun s => { s with rx := k.tlsRx, tx := k.tlsTx }) t
    rw [hset, heq]
    exact hopen fd hfd

theorem Touches.inTable (h : Touches cfg k c t t') (d : ConnRef) : t'.InTable d ↔ t.InTable d := by
  rw [Thread.InTable, Thread.InTable, h.bucketOf, h.htTable]

theorem Upkeep.touches (h : Upkeep n t) (hc : t.InTable c) (ht : Touches cfg k c t t') : Upkeep n t' := by
  refine ⟨?_, ?_, fun b d hd => ?_, ?_, fun fd m d hreg => ?_, fun fd hreg => ht.opened fd (h.opened fd ?_)⟩
  · rw [ht.pool, ht.htTable]
    exact h.shares
  · rw [ht.pool, ht.htTable]
    exact h.covers
  · rw [ht.htTable] at hd
    rw [ht.bucketOf]
    exact h.placed b d hd
  · rw [ht.pool, ht.count]
    exact h.count
  · have hold : ∀ m, t.epoll fd = some (m, d) → (d = c → Subscribed m (t.conns c).sockState →
        Subscribed m (t'.conns c).sockState) →
        (t'.conns d).sockFd = some fd ∧ t'.InTable d ∧ Subscribed m (t'.conns d).sockState := by
      intro m hm hsub
      obtain ⟨hfd, hin, hs⟩ := h.epoll fd m d hm
      refine ⟨?_, (ht.inTable d).mpr hin, ?_⟩
      · by_cases hd : d = c
        · rw [hd, ht.sockFd, ← hd]
          exact hfd
        · rw [ht.others d hd]
          exact hfd
      · by_cases hd : d = c
        · rw [hd]
          exact hsub hd (hd ▸ hs)
        · rw [ht.others d hd]
          exact hs
    rcases ht.epoll with ⟨heq, hsub⟩ | ⟨fd', m', hfd', -, heq, hsub⟩
    · rw [heq] at hreg
      exact hold m hreg fun _ => hsub m
    · rw [heq] at hreg
      by_cases hfd : fd = fd'
      · subst hfd
        rw [Function.update_self] at hreg
        cases hreg
        exact ⟨ht.sockFd.trans hfd', (ht.inTable c).mpr hc, hsub⟩
      · rw [Function.update_of_ne hfd] at hreg
        -- `c` is registered under its own descriptor only
        refine hold m hreg fun hd _ => ?_
        obtain ⟨hown, -, -⟩ := h.epoll fd m d hreg
        rw [hd, hfd'] at hown
        exact absurd (Option.some.inj hown).symm hfd
  · rcases ht.epoll with ⟨heq, -⟩ | ⟨fd', m', -, hold, heq, -⟩
    · rwa [heq] at hreg
    · by_cases hfd : fd = fd'
      · exact hfd ▸ hold
      · rwa [heq, Function.update_of_ne hfd] at hreg

theorem Orderly.touches (h : Orderly t) (hc : c ∉ t.pool) (ht : Touches cfg k c t t') : Orderly t' := by
  have hdue : t'.due = t.due := by rw [Thread.due, Thread.due, ht.events]
  refine ⟨hdue ▸ h.distinct, fun d hd => ?_⟩
  rcases h.waiting d (hdue ▸ hd) with hin | ⟨hpool, hst⟩
  · exact .inl ((ht.inTable d).mpr hin)
  · have hdc : d ≠ c := fun heq => hc (heq ▸ hpool)
    rw [ht.pool, ht.others d hdc]
    exact .inr ⟨hpool, hst⟩

end

/-! ### One connection is closed -/

/-- The connection is taken from the table and the epoll instance and goes to the pool; a file that it was
sending is closed. -/
structure Closes (c : ConnRef) (t t' : Thread) : Prop where
  tls13 : t'.tls13 = t.tls13
  pool : t'.pool = c :: t.pool
  htTable : t'.htTable = Function.update t.htTable (t.bucketOf c) ((t.htTable (t.bucketOf c)).erase c)
  count : t'.count = t.count - 1
  events : t'.events = t.events
  fins : t'.fins = t.fins
  others : ∀ d, d ≠ c → t'.conns d = t.conns d
  ident : (t'.conns c).ident = (t.conns c).ident
  sockState : (t'.conns c).sockState = (t.conns c).sockState
  respFd : (t'.conns c).respFd = none
  epoll : ∀ fd, t'.epoll fd = if (t.conns c).sockFd = some fd then none else t.epoll fd
  socks : ∀ fd, t'.socks fd = if (t.conns c).sockFd = some fd then none else t.socks fd
  closedFiles : t'.closedFiles = (t.conns c).respFd.toList ++ t.closedFiles

section

variable {n : Nat} {t t' : Thread} {c : ConnRef}

theorem Closes.ident_eq (h : Closes c t t') (d : ConnRef) : t'.ident d = t.ident d := by
  by_cases hd : d = c
  · rw [hd]
    exact h.ident
  · rw [Thread.ident, h.others d hd, Thread.ident]

theorem Closes.bucketOf (h : Closes c t t') (d : ConnRef) : t'.bucketOf d = t.bucketOf d :=
  Thread.bucketOf_ident (h.ident_eq d)

theorem Closes.mem (h : Closes c t t') {b : Nat} {d : ConnRef} (hd : d ∈ t'.htTable b) : d ∈ t.htTable b := by
  rw [h.htTable] at hd
  by_cases hb : b = t.bucketOf c
  · rw [hb, Function.update_self] at hd
    exact hb ▸ List.mem_of_mem_erase hd
  · rwa [Function.update_of_ne hb] at hd

theorem Closes.inTable (h : Closes c t t') {d : ConnRef} (hdc : d ≠ c) (hd : t.InTable d) : t'.InTable d := by
  rw [Thread.InTable, h.bucketOf, h.htTable]
  by_cases hb : t.bucketOf d = t.bucketOf c
  · rw [hb, Function.update_self]
    exact (List.mem_erase_of_ne hdc).mpr (hb ▸ hd)
  · rw [Function.update_of_ne hb]
    exact hd

theorem Upkeep.closes (h : Upkeep n t) (hc : t.InTable c) (ht : Closes c t t') : Upkeep n t' := by
  have hnd := (List.nodup_append.mp (h.shares.nodup (t.bucketOf c))).2.1
  have hself : t'.htTable (t.bucketOf c) = (t.htTable (t.bucketOf c)).erase c := by
    rw [ht.htTable, Function.update_self]
  have hothers : ∀ b, b ≠ t.bucketOf c → t'.htTable b = t.htTable b := fun b hb => by
    rw [ht.htTable, Function.update_of_ne hb]
  have hperm : (t'.pool ++ t'.htTable (t.bucketOf c)).Perm (t.pool ++ t.htTable (t.bucketOf c)) := by
    rw [ht.pool, hself, List.cons_append]
    exact List.perm_middle.symm.trans (List.Perm.append_left _ (List.perm_cons_erase hc).symm)
  have hperm' : (t'.pool ++ t'.htTable (t.bucketOf c) ++ []).Perm (t.pool ++ t.htTable (t.bucketOf c)) := by
    rwa [List.append_nil]
  refine ⟨h.shares.move hperm' hothers, h.covers.move hperm hothers, fun b d hd => ?_, ?_, fun fd m d hreg => ?_,
    fun fd hreg => ?_⟩
  · rw [ht.bucketOf]
    exact h.placed b d (ht.mem hd)
  · rw [ht.pool, ht.count, List.length_cons]
    have hcount := h.count
    omega
  · rw [ht.epoll] at hreg
    split at hreg
    · cases hreg
    · rename_i hfd
      obtain ⟨hown, hin, hsub⟩ := h.epoll fd m d hreg
      have hdc : d ≠ c := fun heq => hfd (heq ▸ hown)
      rw [ht.others d hdc]
      exact ⟨hown, ht.inTable hdc hin, hsub⟩
  · rw [ht.epoll] at hreg
    rw [ht.socks]
    split at hreg
    · exact absurd rfl hreg
    · rename_i hfd
      rw [if_neg hfd]
      exact h.opened fd hreg

theorem Orderly.closes (h : Orderly t) (ht : Closes c t t') {d : ConnRef} (hd : d ∈ t'.due) (hdc : d ≠ c) :
    t'.InTable d ∨ d ∈ t'.pool ∧ (t'.conns d).sockState = .default := by
  have hdue : t'.due = t.due := by rw [Thread.due, Thread.due, ht.events]
  rcases h.waiting d (hdue ▸ hd) with hin | ⟨hpool, hst⟩
  · exact .inl (ht.inTable hdc hin)
  · rw [ht.pool, ht.others d hdc]
    exact .inr ⟨List.mem_cons_of_mem c hpool, hst⟩

end

/-! ### One connection is added -/

/-- The connection on top of the pool is put into the table for the client of `buf`, or everything is undone.
In INIT its socket is the one that `socket` returned, with the restored state. -/
structure Adds (k : KeyCalls) (buf : Bytes) (c : ConnRef) (t t' : Thread) : Prop where
  top : t.pool.head? = some c
  tls13 : t'.tls13 = t.tls13
  events : t'.events = t.events
  sent : t'.sent = t.sent
  closedFiles : t'.closedFiles = t.closedFiles
  others : ∀ d, d ≠ c → t'.conns d = t.conns d
  ident : t'.ident c = handleMetaData t.tls13 buf
  respFd : (t'.conns c).respFd = none
  state : (t'.conns c).sockState = .default
    ∨ ∃ fd ∈ k.socket, (t'.conns c).sockFd = some fd ∧ (t'.conns c).sockState = .init
      ∧ t'.socks fd = some { restored := true }
  outcome :
    (t'.pool = t.pool.tail ∧ t'.count = t.count + 1
        ∧ t'.htTable = Function.update t.htTable (t'.bucketOf c) (t.htTable (t'.bucketOf c) ++ [c])
        ∧ ((∀ fd r, t'.epoll fd = some r → t.epoll fd = some r)
          ∨ ∃ fd, (t'.conns c).sockState = .init ∧ (t'.conns c).sockFd = some fd
            ∧ t'.epoll = Function.update t.epoll fd (some (⟨false, true⟩, c))))
      ∨ t'.pool = t.pool ∧ t'.count = t.count ∧ (∀ b, t'.htTable b = t.htTable b ∨ c ∈ t.htTable b)
        ∧ (t'.conns c).sockState = .default ∧ ∀ fd r, t'.epoll fd = some r → t.epoll fd = some r
  opened : (∀ fd, t.epoll fd ≠ none → t.socks fd ≠ none) → ∀ fd, t'.epoll fd ≠ none → t'.socks fd ≠ none
  socks : ∀ fd, k.socket ≠ some fd → t'.socks fd = t.socks fd

section

variable {n : Nat} {k : KeyCalls} {buf : Bytes} {t t' : Thread} {c : ConnRef}

theorem Adds.mem_pool (h : Adds k buf c t t') : c ∈ t.pool := List.mem_of_mem_head? h.top

theorem Upkeep.not_table (h : Upkeep n t) (hc : c ∈ t.pool) (b : Nat) : c ∉ t.htTable b := fun hb =>
  (List.nodup_append.mp (h.shares.nodup b)).2.2 c hc c hb rfl

theorem Adds.pool_cons (h : Adds k buf c t t') : t.pool = c :: t.pool.tail := by
  cases hp : t.pool with
  | nil =>
    have htop := h.top
    rw [hp] at htop
    cases htop
  | cons d pool =>
    have htop := h.top
    rw [hp] at htop
    cases htop
    rfl

theorem Adds.bucketOf (h : Adds k buf c t t') {d : ConnRef} (hd : d ≠ c) : t'.bucketOf d = t.bucketOf d := by
  rw [Thread.bucketOf, Thread.bucketOf, h.others d hd]

theorem Adds.inTable (hu : Upkeep n t) (h : Adds k buf c t t') {d : ConnRef} (hd : t.InTable d) : t'.InTable d := by
  have hdc : d ≠ c := fun heq => hu.not_table h.mem_pool _ (heq ▸ hd)
  rw [Thread.InTable, h.bucketOf hdc]
  rcases h.outcome with ⟨-, -, htab, -⟩ | ⟨-, -, htab, -⟩
  · rw [htab]
    by_cases hb : t.bucketOf d = t'.bucketOf c
    · rw [hb, Function.update_self]
      exact List.mem_append_left _ (hb ▸ hd)
    · rw [Function.update_of_ne hb]
      exact hd
  · rw [(htab _).resolve_right (hu.not_table h.mem_pool _)]
    exact hd

theorem Adds.inTable_of (hu : Upkeep n t) (h : Adds k buf c t t') {d : ConnRef} (hdc : d ≠ c) (hd : t'.InTable d) :
    t.InTable d := by
  rw [Thread.InTable, h.bucketOf hdc] at hd
  rcases h.outcome with ⟨-, -, htab, -⟩ | ⟨-, -, htab, -, -⟩
  · rw [htab] at hd
    by_cases hb : t.bucketOf d = t'.bucketOf c
    · rw [hb, Function.update_self] at hd
      rw [Thread.InTable, hb]
      exact (List.mem_append.mp hd).resolve_right fun hmem => hdc (List.mem_singleton.mp hmem)
    · rwa [Function.update_of_ne hb] at hd
  · rwa [(htab _).resolve_right (hu.not_table h.mem_pool _)] at hd

theorem Upkeep.adds (h : Upkeep n t) (ha : Adds k buf c t t') : Upkeep n t' := by
  have hcons := Adds.pool_cons ha
  -- what was registered before is not the new connection
  have hkeep : ∀ fd m d, t.epoll fd = some (m, d) →
      (t'.conns d).sockFd = some fd ∧ t'.InTable d ∧ Subscribed m (t'.conns d).sockState := by
    intro fd m d hreg
    obtain ⟨hown, hin, hsub⟩ := h.epoll fd m d hreg
    have hdc : d ≠ c := fun heq => h.not_table ha.mem_pool _ (heq ▸ hin)
    rw [ha.others d hdc]
    exact ⟨hown, ha.inTable h hin, hsub⟩
  rcases ha.outcome with ⟨hpool, hcount, htab, hepoll⟩ | ⟨hpool, hcount, htab, -, hepoll⟩
  · have hself : t'.htTable (t'.bucketOf c) = t.htTable (t'.bucketOf c) ++ [c] := by rw [htab, Function.update_self]
    have hothers : ∀ b, b ≠ t'.bucketOf c → t'.htTable b = t.htTable b := fun b hb => by
      rw [htab, Function.update_of_ne hb]
    have hperm : (t'.pool ++ t'.htTable (t'.bucketOf c)).Perm (t.pool ++ t.htTable (t'.bucketOf c)) := by
      rw [hself, hpool, hcons, List.tail_cons, ← List.append_assoc, List.cons_append]
      exact (List.perm_append_singleton c _)
    have hperm' : (t'.pool ++ t'.htTable (t'.bucketOf c) ++ []).Perm (t.pool ++ t.htTable (t'.bucketOf c)) := by
      rwa [List.append_nil]
    have hin : t'.InTable c := by
      rw [Thread.InTable, hself]
      exact List.mem_append_right _ List.mem_cons_self
    refine ⟨h.shares.move hperm' hothers, h.covers.move hperm hothers, fun b d hd => ?_, ?_, fun fd m d hreg => ?_,
      ha.opened h.opened⟩
    · by_cases hb : b = t'.bucketOf c
      · rw [hb, hself] at hd
        rcases List.mem_append.mp hd with hd | hd
        · have hdc : d ≠ c := fun heq => h.not_table ha.mem_pool _ (heq ▸ hd)
          rw [ha.bucketOf hdc, hb]
          exact h.placed _ d hd
        · rw [List.mem_singleton.mp hd]
          exact hb
      · rw [hothers b hb] at hd
        have hdc : d ≠ c := fun heq => h.not_table ha.mem_pool _ (heq ▸ hd)
        rw [ha.bucketOf hdc]
        exact h.placed b d hd
    · have hold := h.count
      have hlen := congrArg List.length hcons
      rw [List.length_cons] at hlen
      rw [hpool, hcount]
      omega
    · rcases hepoll with hsub | ⟨fd', hst, hfd', hnew⟩
      · exact hkeep fd m d (hsub fd _ hreg)
      · rw [hnew] at hreg
        by_cases hfd : fd = fd'
        · subst hfd
          rw [Function.update_self] at hreg
          cases hreg
          rw [hst]
          exact ⟨hfd', hin, rfl⟩
        · rw [Function.update_of_ne hfd] at hreg
          exact hkeep fd m d hreg
  · have htab : t'.htTable = t.htTable := funext fun b => (htab b).resolve_right (h.not_table ha.mem_pool b)
    refine ⟨?_, ?_, fun b d hd => ?_, ?_, fun fd m d hreg => hkeep fd m d (hepoll fd _ hreg),
      ha.opened h.opened⟩
    · rw [hpool, htab]
      exact h.shares
    · rw [hpool, htab]
      exact h.covers
    · rw [htab] at hd
      have hdc : d ≠ c := fun heq => h.not_table ha.mem_pool _ (heq ▸ hd)
      rw [ha.bucketOf hdc]
      exact h.placed b d hd
    · rw [hpool, hcount]
      exact h.count

/- The new connection is in the table, or back in the pool without a state. -/
theorem Adds.waiting (h : Adds k buf c t t') : t'.InTable c ∨ c ∈ t'.pool ∧ (t'.conns c).sockState = .default := by
  rcases h.outcome with ⟨-, -, htab, -⟩ | ⟨hpool, -, -, hst, -⟩
  · refine .inl ?_
    rw [Thread.InTable, htab, Function.update_self]
    exact List.mem_append_right _ List.mem_cons_self
  · rw [hpool]
    exact .inr ⟨h.mem_pool, hst⟩

theorem Adds.waiting_other (hu : Upkeep n t) (h : Adds k buf c t t') {d : ConnRef} (hdc : d ≠ c)
    (hd : t.InTable d ∨ d ∈ t.pool ∧ (t.conns d).sockState = .default) :
    t'.InTable d ∨ d ∈ t'.pool ∧ (t'.conns d).sockState = .default := by
  rcases hd with hin | ⟨hpool, hst⟩
  · exact .inl (h.inTable hu hin)
  · refine .inr ⟨?_, by rw [h.others d hdc]; exact hst⟩
    rcases h.outcome with ⟨htail, -, -, -⟩ | ⟨hsame, -, -, -, -⟩
    · rw [htail]
      rw [Adds.pool_cons h] at hpool
      exact (List.mem_cons.mp hpool).resolve_left hdc
    · rw [hsame]
      exact hpool

end

end Xtls.Host
