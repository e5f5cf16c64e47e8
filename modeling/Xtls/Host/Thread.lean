import Xtls.Host.KeepAlive

/-!
# A thread of the host server

The connections of a thread with their pool and table (`mempool.c`, `fhash.c`), the sockets and the epoll
instance (`set_sock.c`, `multiplex_io.c`), the meta packets (`meta_pkt.c` 15-419) and the loop over the
events (`main.c` 556-686).  Every system call gets its result from outside; the kernel keeps a socket in
the epoll instance until it is closed.
-/

namespace Xtls.Host

open Xtls.Nic

abbrev ConnRef := Nat
abbrev Fd := Nat

/-- `EPOLLIN` and `EPOLLOUT` of an event mask. -/
structure Interest where
  epollIn : Bool := false
  epollOut : Bool := false
  deriving DecidableEq, Repr

/- An open socket: the TCP state has been restored, and the keys of both directions are installed. -/
structure SockInfo where
  restored : Bool := false
  rx : Bool := false
  tx : Bool := false
  deriving DecidableEq, Repr

/-- A frame for the NIC; with a MIG_FIN, the connection it is for and its socket at that time. -/
inductive Sent where
  | migFin (c : ConnRef) (sock : Option SockInfo) (frame : Bytes)
  | close (frame : Bytes)
  deriving DecidableEq

/-- An entry of `events`. -/
inductive Pending where
  | metaSock
  | conn (c : ConnRef) (ev : Interest)

structure Thread where
  tls13 : Bool := true
  conns : ConnRef → ConnState := fun _ => {}
  pool : List ConnRef := []                               -- the top of `conn_pool` first
  htTable : Nat → List ConnRef := fun _ => []
  count : Int := 0
  socks : Fd → Option SockInfo := fun _ => none           -- what is open
  epoll : Fd → Option (Interest × ConnRef) := fun _ => none
  closedFiles : List Nat := []                            -- files of the cache that were closed
  sent : List Sent := []
  events : List Pending := []                             -- what is left of the last `epoll_wait`

namespace Thread

def setConn (c : ConnRef) (f : ConnState → ConnState) (t : Thread) : Thread :=
  { t with conns := Function.update t.conns c (f (t.conns c)) }

/-! ### Pool and table -/

def connStateAlloc (t : Thread) : Option (ConnRef × Thread) :=
  match t.pool with
  | [] => none
  | c :: pool => some (c, { t with pool := pool, conns := Function.update t.conns c {} })

/-- `conn_state_free`; `resp_fd` is the descriptor of a file of the cache. -/
def connStateFree (c : ConnRef) (t : Thread) : Thread :=
  let t := match (t.conns c).respFd with
    | none => t
    | some i => { t.setConn c fun s => { s with respFd := none } with closedFiles := i :: t.closedFiles }
  { t with pool := c :: t.pool }

def calculateHash (clientIp : UInt32) (clientPort : UInt16) : Nat :=
  let h := (putLe32 clientIp ++ putLe16 clientPort).foldl hashStep 0
  let h := h + (h <<< 3)
  let h := h ^^^ (h >>> 11)
  let h := h + (h <<< 15)
  (h &&& 1023).toNat

def bucketOf (c : ConnRef) (t : Thread) : Nat :=
  calculateHash (t.conns c).metaInfo.clientIp (t.conns c).metaInfo.clientPort

def htInsert (c : ConnRef) (t : Thread) : Thread :=
  { t with
    htTable := Function.update t.htTable (t.bucketOf c) (t.htTable (t.bucketOf c) ++ [c])
    count := t.count + 1 }

def htRemove (c : ConnRef) (t : Thread) : Thread :=
  { t with
    htTable := Function.update t.htTable (t.bucketOf c) ((t.htTable (t.bucketOf c)).erase c)
    count := t.count - 1 }

def htSearch (clientIp : UInt32) (clientPort : UInt16) (t : Thread) : Option ConnRef :=
  (t.htTable (calculateHash clientIp clientPort)).find? fun c =>
    (t.conns c).metaInfo.clientIp = clientIp ∧ (t.conns c).metaInfo.clientPort = clientPort

/-! ### Sockets -/

def sockOf (c : ConnRef) (t : Thread) : Option SockInfo := (t.conns c).sockFd.bind t.socks

def setSock (c : ConnRef) (f : SockInfo → SockInfo) (t : Thread) : Thread :=
  match (t.conns c).sockFd with
  | none => t
  | some fd => { t with socks := Function.update t.socks fd ((t.socks fd).map f) }

/- `close`, which takes a socket out of the epoll instance as well. -/
def closeFd (fd : Option Fd) (t : Thread) : Thread :=
  match fd with
  | none => t
  | some fd => { t with socks := Function.update t.socks fd none, epoll := Function.update t.epoll fd none }

/- `mod_epoll_inout_mig_sock`, `mod_epoll_in_mig_sock`, `mod_epoll_out_mig_sock`: only what is registered can
be modified. -/
def modEpoll (m : Interest) (c : ConnRef) (t : Thread) : Except Halt Thread :=
  match (t.conns c).sockFd with
  | none => .error .exitFailure
  | some fd =>
    match t.epoll fd with
    | none => .error .exitFailure
    | some _ => .ok { t with epoll := Function.update t.epoll fd (some (m, c)) }

def modEpollInoutMigSock : ConnRef → Thread → Except Halt Thread := modEpoll ⟨true, true⟩
def modEpollInMigSock : ConnRef → Thread → Except Halt Thread := modEpoll ⟨true, false⟩
def modEpollOutMigSock : ConnRef → Thread → Except Halt Thread := modEpoll ⟨false, true⟩

def removeEpollMigSock (c : ConnRef) (t : Thread) : Except Halt Thread :=
  match (t.conns c).sockFd with
  | none => .error .exitFailure
  | some fd =>
    match t.epoll fd with
    | none => .error .exitFailure
    | some _ => .ok { t with epoll := Function.update t.epoll fd none }

def sendMigFin (sendto : Bool) (c : ConnRef) (t : Thread) : Thread :=
  if sendto then
    { t with sent := t.sent
        ++ [.migFin c (t.sockOf c) (sendMigFinToArm (t.conns c).metaInfo (t.conns c).recvBytes)] }
  else t

def sendClose (sendto : Bool) (m : MetaInfo) (t : Thread) : Thread :=
  if sendto then { t with sent := t.sent ++ [.close (sendCloseToArm m)] } else t

end Thread

/-! ### Meta packets -/

/-- The results of the calls that set up a connection; `socket` is the new descriptor, `sockOpts` are the
eight `setsockopt` of `set_mig_sock`. -/
structure KeyCalls where
  socket : Option Fd := none
  sockOpts : Fin 8 → Bool := fun _ => true
  setfl : Bool := true
  epollAdd : Bool := true
  bind : Bool := true
  connect : Bool := true
  repairOptions : Bool := true
  repairOff : Bool := true

/- The bytes of `meta_buf` that say how many to copy behind them. -/
def recordLen (buf : Bytes) : UInt32 := le32 buf 804

def recvMetaBufSize : Nat := 1460

namespace Thread

/-- `set_mig_sock`: when an option fails, the socket stays open. -/
def setMigSock (k : KeyCalls) (t : Thread) : Option Fd × Thread :=
  match k.socket with
  | none => (none, t)
  | some fd =>
    let t := { t with socks := Function.update t.socks fd (some {}) }
    if ∀ i, k.sockOpts i = true then (some fd, t) else (none, t)

/- On the descriptor -1 `fcntl` fails. -/
def setNonblock (k : KeyCalls) (fd : Option Fd) : Bool := fd.isSome && k.setfl

def migTcpConn (k : KeyCalls) (c : ConnRef) (t : Thread) : Except Halt (Bool × Thread) :=
  match (t.conns c).sockFd with
  | none => .error .exitFailure
  | some fd =>
    if k.epollAdd = false ∨ (t.epoll fd).isSome then .error .exitFailure
    else
      let t := { t with epoll := Function.update t.epoll fd (some (⟨false, true⟩, c)) }
      if k.bind && k.connect && k.repairOptions && k.repairOff then
        .ok (true, t.setSock c fun s => { s with restored := true })
      else .ok (false, t)

def insertConn (c : ConnRef) (buf : Bytes) (t : Thread) : Thread :=
  (t.setConn c fun s =>
    { s with metaInfo := (handleMetaData t.tls13 buf).1, cryptoInfo := (handleMetaData t.tls13 buf).2 }).htInsert c

/- What `handle_key_packet` and `handle_rst_conn_packet` do with the socket of the new connection. -/
def openSocket (k : KeyCalls) (c : ConnRef) (t : Thread) : Except Halt (Int × Thread) :=
  let (fd, t) := t.setMigSock k
  let t := t.setConn c fun s => { s with sockFd := fd }
  if setNonblock k fd then do
    let (restored, t) ← t.migTcpConn k c
    if restored then .ok (0, t.setConn c fun s => { s with sockState := .init })
    else .ok (-1, ((t.htRemove c).closeFd (t.conns c).sockFd).connStateFree c)
  else .ok (-1, t.closeFd fd)

def addConnection (k : KeyCalls) (buf : Bytes) (t : Thread) : Except Halt (Int × Thread) :=
  match t.connStateAlloc with
  | none => .error .nullPointer       -- `clock_gettime` comes before the test for NULL
  | some (c, t) =>
    if recvMetaBufSize < (recordLen buf).toNat then .error .overflow else (t.insertConn c buf).openSocket k c

def handleKeyPacket (k : KeyCalls) (sendto : Bool) (buf : Bytes) (t : Thread) : Except Halt (Int × Thread) :=
  match t.htSearch (be32 buf 26) (be16 buf 34) with
  | some c => .ok (-1, t.sendMigFin sendto c)
  | none => t.addConnection k buf

def handleRstConnPacket (k : KeyCalls) (buf : Bytes) (t : Thread) : Except Halt (Int × Thread) :=
  match t.htSearch (be32 buf 0) (be16 buf 14) with
  | some c => (((t.htRemove c).closeFd (t.conns c).sockFd).connStateFree c).addConnection k buf
  | none => .ok (-1, t)

/- The connection of the frame is not one of the table. -/
def handleUnterminatedConn (sendto : Bool) (buf : Bytes) (t : Thread) : Thread :=
  let tcph := 14 + 4 * (byteAt buf 14 &&& 0x0f).toNat
  t.sendClose sendto
    { clientIp := be32 buf 26, clientPort := be16 buf tcph
      seqNum := be32 buf (tcph + 4), ackNum := be32 buf (tcph + 8) }

/-- `handle_meta_packet`; `meta_buf` keeps old bytes behind a shorter frame. -/
def handleMetaPacket (k : KeyCalls) (sendto : Bool) (buf : Bytes) (t : Thread) : Except Halt (Int × Thread) :=
  match validateMetaType buf with
  | none => .ok (-1, t)
  | some .key => t.handleKeyPacket k sendto buf
  | some .rstConn => t.handleRstConnPacket k buf
  | some .weirdSyn => .ok (0, t.handleUnterminatedConn sendto buf)

/-! ### Events -/

def closeTcpConn (sendto : Bool) (c : ConnRef) (t : Thread) : Except Halt Thread := do
  let t := t.sendClose sendto (t.conns c).metaInfo
  let t ← t.removeEpollMigSock c
  let t := t.closeFd (t.conns c).sockFd
  let m := (t.conns c).metaInfo
  let t := if (t.htSearch m.clientIp m.clientPort).isSome then t.htRemove c else t
  return t.connStateFree c

end Thread

/-- What the calls for a response answer; with `hard`, the call that fails does so with another error than
`EAGAIN`. -/
structure RespCalls extends Answers where
  hard : Bool := false

def respFails (fcache : Option Nat → Bytes) (a : Answers) (x : Exchange) : Bool :=
  let (ret, y) := sendHttpsHeader a x
  if ret ≠ 1 then a.send.isNone
  else
    let (ret, z) := sendFileContent fcache a y
    if ret ≠ 1 then true
    else if z.conn.respRemain = 0 then !z.conn.keepAlive && !a.sendmsg
    else false

/-- `send_https_resp` with every error. -/
def sendResponse (fcache : List FileCache) (a : RespCalls) (c : ConnState) : Int × ConnState :=
  let (ret, x) := sendHttpsResp (contents fcache) a.toAnswers { conn := c }
  if a.hard && respFails (contents fcache) a.toAnswers { conn := c } then (-1, x.conn) else (ret, x.conn)

/-- The results of all calls that one event may make. -/
structure Calls where
  frame : Option Bytes := none      -- what `recvfrom` leaves in `meta_buf`
  key : KeyCalls := {}
  sendto : Bool := true
  ulp : Bool := true
  tlsRx : Bool := true
  tlsTx : Bool := true
  recv : RecvMsg := .again
  value : Bytes := []
  resp : RespCalls := {}

/-- What the threads have in common. -/
structure Config where
  fcache : List FileCache := []
  wwwMain : Bytes := []

namespace Thread

/- `mig_tls_conn`: only `TCP_ULP` is tested. -/
def migTlsConn (k : Calls) (c : ConnRef) (t : Thread) : Thread :=
  if k.ulp then
    (t.setSock c fun s => { s with rx := k.tlsRx, tx := k.tlsTx }).setConn c fun s => { s with sockState := .connected }
  else t

def setState (c : ConnRef) (st : SockState) (t : Thread) : Thread := t.setConn c fun s => { s with sockState := st }

def finishMigration (k : Calls) (c : ConnRef) (t : Thread) : Except Halt Thread :=
  if k.sendto then do
    let t ← (t.sendMigFin true c).modEpollInMigSock c
    return t.setState c .readyToRecv
  else .ok t

def receiveRequest (cfg : Config) (k : Calls) (c : ConnRef) (t : Thread) : Except Halt Thread :=
  let (r, s) := handleReceivedPkt cfg.fcache cfg.wwwMain k.value k.recv (t.conns c)
  let t := t.setConn c fun _ => s
  match r with
  | .ok => return (← t.modEpollInoutMigSock c).setState c .httpReqRecved
  | .closeNotify => return (← t.modEpollInoutMigSock c).setState c .waitTcpFin
  | .tls => return (← t.modEpollOutMigSock c).setState c .tlsHsRecved
  | .fin => return (← t.modEpollOutMigSock c).setState c .errored
  | .err => return (← t.modEpollOutMigSock c).setState c .errored
  | .continue => .ok t

def respondTo (cfg : Config) (k : Calls) (c : ConnRef) (t : Thread) : Except Halt Thread :=
  let (ret, s) := sendResponse cfg.fcache k.resp (t.conns c)
  let t := t.setConn c fun _ => s
  if ret < 0 then .ok (t.setState c .errored)
  else if s.respRemain = 0 then return (← t.modEpollInMigSock c).setState c .readyToRecv
  else .ok t

/- The server's records of the old handshake are sent again; the result is not looked at. -/
def repeatRecords (c : ConnRef) (t : Thread) : Except Halt Thread :=
  return (← t.modEpollInMigSock c).setState c .readyToRecv

/-- The branches of `worker_thread` for a connection. -/
def onEvent (cfg : Config) (k : Calls) (c : ConnRef) (ev : Interest) (t : Thread) : Except Halt Thread :=
  let st := (t.conns c).sockState
  if ev.epollOut && st = .init then .ok (t.migTlsConn k c)
  else if ev.epollOut && st = .connected then t.finishMigration k c
  else if ev.epollIn && st = .readyToRecv then t.receiveRequest cfg k c
  else if ev.epollOut && st = .httpReqRecved then t.respondTo cfg k c
  else if ev.epollOut && st = .tlsHsRecved then t.repeatRecords c
  else if ev.epollIn && (st = .httpRespSent || st = .waitTcpFin) then t.closeTcpConn k.sendto c
  else if ev.epollOut && (st = .httpRespSent || st = .errored) then t.closeTcpConn k.sendto c
  else .ok t

/-- The next event that `epoll_wait` returned. -/
def next (cfg : Config) (k : Calls) (t : Thread) : Except Halt Thread :=
  match t.events with
  | [] => .ok t
  | .metaSock :: rest =>
    let t := { t with events := rest }
    match k.frame with
    | none => .ok t
    | some buf => return (← t.handleMetaPacket k.key k.sendto buf).2
  | .conn c ev :: rest => onEvent cfg k c ev { t with events := rest }

end Thread

/-- What `epoll_wait` reports: the meta socket, or a socket with the events that are ready on it. -/
inductive Ready where
  | metaSock
  | sock (fd : Fd) (ev : Interest)
  deriving DecidableEq

def Ready.pending (t : Thread) : Ready → Option Pending
  | .metaSock => some .metaSock
  | .sock fd ev => (t.epoll fd).map fun r => .conn r.2 ⟨ev.epollIn && r.1.epollIn, ev.epollOut && r.1.epollOut⟩

def Ready.fd : Ready → Option Fd
  | .metaSock => none
  | .sock fd _ => some fd

/-- The result of `epoll_wait`, which reports a socket once. -/
structure ReadyList where
  list : List Ready
  once : (list.filterMap Ready.fd).Nodup

theorem Ready.once_singleton (r : Ready) : ([r].filterMap Ready.fd).Nodup := by
  cases h : r.fd <;> simp [h]

def ReadyList.single (r : Ready) : ReadyList := ⟨[r], r.once_singleton⟩

inductive ThreadInput where
  | wait (ready : ReadyList)
  | next (k : Calls)

/-- The main loop: `epoll_wait` once all its events have been handled, or the next event. -/
def threadStep (cfg : Config) : ThreadInput → Thread → Except Halt Thread
  | .wait ready, t => .ok (if t.events.isEmpty then { t with events := ready.list.filterMap (Ready.pending t) } else t)
  | .next k, t => t.next cfg k

/- `conn_pool_init` and `create_ht`. -/
def startThread (n : Nat) (tls13 : Bool) : Thread := { tls13 := tls13, pool := (List.range n).reverse }

end Xtls.Host
