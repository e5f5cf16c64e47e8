import Xtls.Host.Loop

/-!
# A key meta that fails

`handle_key_packet` (`meta_pkt.c` 251-319) takes a connection, puts it into the table and opens its socket
before most of the calls that can fail.  What is left behind depends on the call: only when one of the calls
behind the registration fails is everything undone.
-/

namespace Xtls.Host

section

variable {n : Nat} {tls13 : Bool} {cfg : Config} {inputs : List ThreadInput} {k : KeyCalls} {buf : Bytes}
  {sendto : Bool} {t t' u : Thread} {c : ConnRef} {fd : Fd} {ret : Int}

structure Unchanged (t t' : Thread) : Prop where
  pool : t'.pool = t.pool
  htTable : t'.htTable = t.htTable
  count : t'.count = t.count
  socks : t'.socks = t.socks

/- The call that opened the socket gave an unused descriptor, so that closing it restores the sockets. -/
theorem release_unchanged (hu : Upkeep n t) (halloc : t.connStateAlloc = some (c, u)) (hfd : k.fd = some fd)
    (hfresh : t.socks fd = none) :
    Unchanged t ((((registered k fd c buf u).htRemove c).closeFd (some fd)).connStateFree c) := by
  obtain ⟨hcl, hadds⟩ := registered_undone buf halloc hfd
  have hins : Inserted k buf c t (withSocket k c (u.insertConn c buf)) := (insertConn_inserted halloc).withSocket
  have hcount := hcl.count.trans (congrArg (· - 1) hins.count)
  rcases hadds.outcome with ⟨-, hplus, -, -⟩ | ⟨hpool, hsame, htab, -, -⟩
  · omega
  · refine ⟨hpool, funext fun b => (htab b).resolve_right (hu.not_table hadds.mem_pool b), hsame, funext fun i => ?_⟩
    by_cases hi : i = fd
    · have hown : ((registered k fd c buf u).conns c).sockFd = some i :=
        (withSocket_sockFd ..).trans (hfd.trans (congrArg some hi.symm))
      rw [hcl.socks, if_pos hown, hi, hfresh]
    · refine hadds.socks i fun heq => hi ?_
      rw [KeyCalls.fd_some hfd] at heq
      exact (Option.some.inj heq).symm

theorem addConnection_total (hpool : t.pool ≠ []) (hlen : (recordLen buf).toNat ≤ recvMetaBufSize)
    (hfd : k.fd = some fd) (hadd : k.epollAdd = true) (hreg : t.epoll fd = none) :
    ∃ r, t.addConnection k buf = .ok r := by
  obtain ⟨c, pool, hcons⟩ := List.exists_cons_of_ne_nil hpool
  have halloc : t.connStateAlloc = some (c, { t with pool := pool, conns := Function.update t.conns c {} }) := by
    unfold Thread.connStateAlloc
    rw [hcons]
  have hepoll := connStateAlloc_epoll halloc
  generalize ({ t with pool := pool, conns := Function.update t.conns c {} } : Thread) = u at *
  have hmig : ∃ r, (withSocket k c (u.insertConn c buf)).migTcpConn k c = .ok r := by
    have hnone : (withSocket k c (u.insertConn c buf)).epoll fd = none := (congrFun hepoll fd).trans hreg
    unfold Thread.migTcpConn
    simp only [withSocket_sockFd, hfd, hadd, hnone, Bool.true_eq_false, Option.isSome_none, Bool.false_eq_true,
      or_self, if_false]
    split
    · exact ⟨_, rfl⟩
    · exact ⟨_, rfl⟩
  obtain ⟨⟨restored, v⟩, hmig⟩ := hmig
  unfold Thread.addConnection
  simp only [halloc, Nat.not_lt.mpr hlen, if_false, Thread.openSocket, setMigSock_eq]
  rw [show (Thread.setConn c (fun s => { s with sockFd := k.fd })
    { u.insertConn c buf with socks := k.opened (u.insertConn c buf).socks })
      = withSocket k c (u.insertConn c buf) from rfl]
  split
  · rw [hmig]
    cases restored with
    | true => exact ⟨_, rfl⟩
    | false => exact ⟨_, rfl⟩
  · exact ⟨_, rfl⟩

/-- For a client without an entry, a key meta for which a call fails returns -1 and leaves table, pool and
sockets as they were, exactly if the pool has a connection, the length of the records fits into the buffer,
and all calls up to the registration succeed. -/
theorem keyPacket_undone (hrun : run (threadStep cfg) inputs (startThread n tls13) = .ok t)
    (hnew : t.htSearch (be32 buf 26) (be16 buf 34) = none) (hfresh : ∀ fd, k.socket = some fd → t.socks fd = none)
    (hfail : t.pool = [] ∨ k.socket = none ∨ (∃ i, k.sockOpts i = false) ∨ k.setfl = false ∨ k.epollAdd = false
      ∨ k.bind = false ∨ k.connect = false ∨ k.repairOptions = false ∨ k.repairOff = false) :
    (∃ t', t.handleKeyPacket k sendto buf = .ok (-1, t') ∧ Unchanged t t')
      ↔ t.pool ≠ [] ∧ (recordLen buf).toNat ≤ recvMetaBufSize ∧ k.socket ≠ none ∧ (∀ i, k.sockOpts i = true)
        ∧ k.setfl = true ∧ k.epollAdd = true := by
  have hu := (run_kept hrun).1
  have hadd : t.handleKeyPacket k sendto buf = t.addConnection k buf := by
    rw [Thread.handleKeyPacket, hnew]
  rw [hadd]
  constructor
  · rintro ⟨t', h, hsame⟩
    obtain ⟨c, u, halloc, hlen, h⟩ := addConnection_ok h
    have hins : Inserted k buf c t (withSocket k c (u.insertConn c buf)) := (insertConn_inserted halloc).withSocket
    have hpool : t.pool ≠ [] := fun hnil => by
      have htop := hins.top
      rw [hnil] at htop
      cases htop
    rcases openSocket_cases h with ⟨-, -, rfl⟩ | ⟨fd, hfd, hfl, hep, -, -⟩
    · have hone := hins.closeFd.count
      have hcount := hsame.count
      omega
    · refine ⟨hpool, hlen, ?_, ?_, hfl, hep⟩
      · rw [KeyCalls.fd_some hfd]
        exact Option.some_ne_none fd
      · unfold KeyCalls.fd at hfd
        split at hfd
        · assumption
        · cases hfd
  · rintro ⟨hpool, hlen, hsock, hopts, hfl, hep⟩
    obtain ⟨fd, hfd⟩ := Option.ne_none_iff_exists'.mp hsock
    have hkfd : k.fd = some fd := by
      rw [KeyCalls.fd, if_pos hopts]
      exact hfd
    have hreg : t.epoll fd = none := by
      by_contra hreg
      exact hu.opened fd hreg (hfresh fd hfd)
    have hrest : k.restores = false := by
      rcases hfail with h | h | ⟨i, h⟩ | h | h | h | h | h | h
      · exact absurd h hpool
      · exact absurd h hsock
      · rw [hopts i] at h
        cases h
      · rw [hfl] at h
        cases h
      · rw [hep] at h
        cases h
      all_goals simp [KeyCalls.restores, h]
    obtain ⟨⟨ret, t'⟩, h⟩ := addConnection_total hpool hlen hkfd hep hreg
    obtain ⟨c, u, halloc, -, hopen⟩ := addConnection_ok h
    rcases openSocket_cases hopen with ⟨hno, -, -⟩ | ⟨fd', hfd', -, -, -, ⟨hyes, -, -⟩ | ⟨-, rfl, rfl⟩⟩
    · rw [hkfd, hfl] at hno
      simp at hno
    · rw [hrest] at hyes
      cases hyes
    · rw [hkfd] at hfd'
      cases hfd'
      exact ⟨_, h, release_unchanged hu halloc hkfd (hfresh fd hfd)⟩

end

theorem keyPacket_undone_connect : ∃ t', Thread.handleKeyPacket { socket := some 5, connect := false } true keyFrame
    (startThread 2 true) = .ok (-1, t') ∧ Unchanged (startThread 2 true) t' := by
  have hrun : run (threadStep {}) [] (startThread 2 true) = .ok (startThread 2 true) := rfl
  exact (keyPacket_undone hrun (by decide +kernel) (fun _ _ => rfl) (by simp)).mpr (by decide +kernel)

/- When `fcntl` fails, the table keeps a connection with a closed descriptor; when a socket option fails, the
socket stays open as well; without a connection in the pool the thread writes through NULL, and a failing
`epoll_ctl` ends the process. -/
theorem keyPacket_leftovers :
    (∃ t', Thread.handleKeyPacket { socket := some 5, setfl := false } true keyFrame (startThread 2 true)
        = .ok (-1, t') ∧ t'.pool = [0] ∧ t'.count = 1)
      ∧ (∃ t', Thread.handleKeyPacket { socket := some 5, sockOpts := fun i => i ≠ 0 } true keyFrame
          (startThread 2 true)
        = .ok (-1, t') ∧ t'.count = 1 ∧ t'.socks 5 = some {})
      ∧ Thread.handleKeyPacket { socket := some 5 } true keyFrame (startThread 0 true) = .error .nullPointer
      ∧ Thread.handleKeyPacket { socket := some 5, epollAdd := false } true keyFrame (startThread 2 true)
        = .error .exitFailure := by
  have hfcntl := endsIn_ok (fun r : Int × Thread => r.1 = -1 ∧ r.2.pool = [0] ∧ r.2.count = 1)
    (Thread.handleKeyPacket { socket := some 5, setfl := false } true keyFrame (startThread 2 true)) (by decide +kernel)
  have hoption := endsIn_ok (fun r : Int × Thread => r.1 = -1 ∧ r.2.count = 1 ∧ r.2.socks 5 = some {})
    (Thread.handleKeyPacket { socket := some 5, sockOpts := fun i => i ≠ 0 } true keyFrame (startThread 2 true))
    (by decide +kernel)
  obtain ⟨⟨ret, t1⟩, h1, rfl, hrest1⟩ := hfcntl
  obtain ⟨⟨ret, t2⟩, h2, rfl, hrest2⟩ := hoption
  exact ⟨⟨t1, h1, hrest1⟩, ⟨t2, h2, hrest2⟩, stopsFor_error _ _ (by decide +kernel),
    stopsFor_error _ _ (by decide +kernel)⟩

end Xtls.Host
