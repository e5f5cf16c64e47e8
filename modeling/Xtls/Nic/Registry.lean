import Xtls.Lib.Shares
import Xtls.Nic.Life

/-!
# The table of connections and the free list

A connection of a worker is in one bucket of the hash table or in `free_session_q`
(`tcp.c` 1474-1543, 2261-2382, `fhash.c`).
-/

namespace Xtls.Nic

/-- The connections that the table has. -/
def Sys.active (s : Sys) : List ConnId := (List.range numBins).flatMap s.ctx.htTable

def Conn.Clean (c : Conn) : Prop :=
  c.tcp.state = .idle ∧ c.tcp.onload = false ∧ c.sess.handshakeState = .helloRequest
    ∧ c.sess.state = .init ∧ c.sess.currentReadRecord = none ∧ c.sess.recvQ = []

/-- Connection `c` was inserted and has not been removed since. -/
def inUse (c : ConnId) (trace : List Event) : Bool := (trace.findSome? (Event.usage c)).getD false

/-- What `remove_session` found the last time it was applied to connection `c`. -/
def lastCleared (c : ConnId) (trace : List Event) : Option Conn := trace.findSome? (Event.cleared c)

/-- Only a connection in use is removed, and only one that is not is inserted. -/
def Alternates : List Event → Prop
  | [] => True
  | .insert c :: trace => inUse c trace = false ∧ Alternates trace
  | .remove c _ :: trace => inUse c trace = true ∧ Alternates trace
  | _ :: trace => Alternates trace

/- A connection as `thread_local_init` and as `remove_session` leave it. -/
def unusedConn (c : ConnId) : Conn :=
  { id := c, tcp := { sessionId := c }, sess := { pkaResults := [{}, {}] } }

def removedConn (rand : UInt64) (c : Conn) : Conn :=
  { id := c.id, tcp := clearTcpConnection c.tcp, sess := clearedSession rand c.sess }

/-- Nothing was written to connection `c` since it was last removed. -/
def Left (s : Sys) (c : ConnId) : Prop :=
  match lastCleared c s.ctx.trace with
  | none => s.conns c = unusedConn c
  | some conn => ∃ rand, s.conns c = removedConn rand conn

/-- Every connection is in one bucket or free, and the counters agree; one that is in no bucket is as it
was left. -/
structure Registry (n : Nat) (s : Sys) : Prop where
  shares : Shares s.ctx.freeSessionQ s.ctx.htTable
  covers : Covers (· < n) s.ctx.freeSessionQ s.ctx.htTable
  placed : ∀ b, ∀ c ∈ s.ctx.htTable b, b = calculateHash (s.conns c).tcp
    ∧ (s.conns c).tcp.state ≠ .idle
  freeCnt : s.ctx.freeCnt = s.ctx.freeSessionQ.length
  activeCnt : s.ctx.activeCnt + s.ctx.freeSessionQ.length = n
  htCount : s.ctx.htCount = s.ctx.activeCnt
  left : ∀ c, (∀ b, c ∉ s.ctx.htTable b) → Left s c
  steady : ∀ c, Steady (s.conns c)
  free : ∀ c ∈ s.ctx.freeSessionQ, inUse c s.ctx.trace = false
  used : ∀ b, ∀ c ∈ s.ctx.htTable b, inUse c s.ctx.trace = true
  alternates : Alternates s.ctx.trace

section

variable {env : Env} {n : Nat} {s s' : Sys} {c : ConnId} {t : St}

theorem inUse_cons {e : Event} {trace : List Event} (h : e.usage c = none) :
    inUse c (e :: trace) = inUse c trace := by
  rw [inUse, List.findSome?_cons, h]
  rfl

theorem lastCleared_cons {e : Event} {trace : List Event} (h : e.cleared c = none) :
    lastCleared c (e :: trace) = lastCleared c trace := by
  rw [lastCleared, List.findSome?_cons, h]
  rfl

theorem Alternates.cons {e : Event} {trace : List Event} (h : Alternates trace) (he : e.Inner) :
    Alternates (e :: trace) := by
  cases e with
  | insert d => exact absurd (he d).1 (by simp [Event.usage])
  | remove d l => exact absurd (he d).1 (by simp [Event.usage])
  | clear conn => exact h
  | complete id r => exact h
  | read conn r rest room => exact h
  | verifyData id m vd => exact h

theorem inner_append {l trace : List Event} (hl : ∀ e ∈ l, e.Inner) :
    (∀ c, inUse c (l ++ trace) = inUse c trace) ∧ (∀ c, lastCleared c (l ++ trace) = lastCleared c trace)
      ∧ (Alternates trace → Alternates (l ++ trace)) := by
  induction l with
  | nil => exact ⟨fun _ => rfl, fun _ => rfl, fun h => h⟩
  | cons e l ih =>
    obtain ⟨h1, h2, h3⟩ := ih fun x hx => hl x (List.mem_cons_of_mem e hx)
    have he := hl e List.mem_cons_self
    refine ⟨fun c => ?_, fun c => ?_, fun h => (h3 h).cons he⟩
    · rw [List.cons_append, inUse_cons (he c).1, h1]
    · rw [List.cons_append, lastCleared_cons (he c).2, h2]

theorem Registry.same (h : Registry n s) (hreg : s'.ctx.registry = s.ctx.registry)
    (htrace : ∃ l, s'.ctx.trace = l ++ s.ctx.trace ∧ ∀ e ∈ l, e.Inner)
    (hplaced : ∀ b, ∀ c ∈ s.ctx.htTable b, calculateHash (s'.conns c).tcp = calculateHash (s.conns c).tcp
      ∧ (s'.conns c).tcp.state ≠ .idle)
    (hfree : ∀ c, (∀ b, c ∉ s.ctx.htTable b) → s'.conns c = s.conns c)
    (hsteady : ∀ c, Steady (s'.conns c)) : Registry n s' := by
  simp only [Ctx.registry, Prod.mk.injEq] at hreg
  obtain ⟨htable, hcount, hactive, hqueue, hcnt⟩ := hreg
  obtain ⟨l, htrace, hl⟩ := htrace
  obtain ⟨huse, hclear, halt⟩ := inner_append hl
  refine ⟨?_, ?_, ?_, ?_, ?_, ?_, ?_, hsteady, ?_, ?_, ?_⟩
  · rw [htable, hqueue]
    exact h.shares
  · rw [htable, hqueue]
    exact h.covers
  · rw [htable]
    intro b c hc
    obtain ⟨hash, hlive⟩ := hplaced b c hc
    exact ⟨(h.placed b c hc).1.trans hash.symm, hlive⟩
  · rw [hcnt, hqueue]
    exact h.freeCnt
  · rw [hactive, hqueue]
    exact h.activeCnt
  · rw [hcount, hactive]
    exact h.htCount
  · rw [htable]
    intro c hc
    have hleft := h.left c hc
    rw [Left, htrace, hclear, hfree c hc]
    exact hleft
  · rw [hqueue, htrace]
    intro c hc
    rw [huse]
    exact h.free c hc
  · rw [htable, htrace]
    intro b c hc
    rw [huse]
    exact h.used b c hc
  · rw [htrace]
    exact halt h.alternates

theorem Registry.not_free (h : Registry n s) {b : Nat} (hc : c ∈ s.ctx.htTable b) :
    c ∉ s.ctx.freeSessionQ := fun hf =>
  (List.nodup_append.mp (h.shares.nodup b)).2.2 c hf c hc rfl

theorem Registry.lives (h : Registry n s) (hc : c ∈ s.ctx.htTable (calculateHash (s.conns c).tcp))
    (hl : Lives ⟨s.conns c, s.ctx⟩ t) : Registry n (s.put c t) := by
  refine h.same hl.registry hl.trace (fun b d hd => ?_) (fun d hd => ?_) fun d => ?_
  · by_cases hdc : d = c
    · subst hdc
      rw [s.put_self]
      exact ⟨hl.hash, hl.live (h.placed b d hd).2⟩
    · rw [s.put_ne t hdc]
      exact ⟨rfl, (h.placed b d hd).2⟩
  · refine s.put_ne t fun hdc => ?_
    exact hd _ (hdc ▸ hc)
  · by_cases hdc : d = c
    · rw [hdc, s.put_self]
      exact hl.steady (h.steady c)
    · rw [s.put_ne t hdc]
      exact h.steady d

structure Moved (c : ConnId) (b : Nat) (s s' : Sys) : Prop where
  perm : (s'.ctx.freeSessionQ ++ s'.ctx.htTable b).Perm (s.ctx.freeSessionQ ++ s.ctx.htTable b)
  buckets : ∀ i, i ≠ b → s'.ctx.htTable i = s.ctx.htTable i
  conns : ∀ d, d ≠ c → s'.conns d = s.conns d
  table : ∀ d, d ≠ c → ∀ i, d ∈ s'.ctx.htTable i ↔ d ∈ s.ctx.htTable i
  free : ∀ d, d ≠ c → d ∈ s'.ctx.freeSessionQ → d ∈ s.ctx.freeSessionQ
  inUse : ∀ d, d ≠ c → inUse d s'.ctx.trace = inUse d s.ctx.trace
  lastCleared : ∀ d, d ≠ c → lastCleared d s'.ctx.trace = lastCleared d s.ctx.trace
  freeCnt : s'.ctx.freeCnt - s'.ctx.freeSessionQ.length = s.ctx.freeCnt - s.ctx.freeSessionQ.length
  activeCnt : s'.ctx.activeCnt + s'.ctx.freeSessionQ.length
    = s.ctx.activeCnt + s.ctx.freeSessionQ.length
  htCount : s'.ctx.htCount - s'.ctx.activeCnt = s.ctx.htCount - s.ctx.activeCnt

theorem Registry.moved {b : Nat} (h : Registry n s) (hm : Moved c b s s')
    (hplaced : ∀ i, c ∈ s'.ctx.htTable i → (i = calculateHash (s'.conns c).tcp
      ∧ (s'.conns c).tcp.state ≠ .idle) ∧ inUse c s'.ctx.trace = true)
    (hleft : (∀ i, c ∉ s'.ctx.htTable i) → Left s' c)
    (hfree : c ∈ s'.ctx.freeSessionQ → inUse c s'.ctx.trace = false)
    (hsteady : Steady (s'.conns c)) (halt : Alternates s'.ctx.trace) : Registry n s' where
  shares := by
    have hperm := hm.perm
    rw [← List.append_nil (s'.ctx.freeSessionQ ++ _)] at hperm
    exact h.shares.move hperm hm.buckets
  covers := h.covers.move hm.perm hm.buckets
  placed i d hd := by
    by_cases hdc : d = c
    · exact hdc ▸ (hplaced i (hdc ▸ hd)).1
    · rw [hm.conns d hdc]
      exact h.placed i d ((hm.table d hdc i).mp hd)
  freeCnt := by
    have h1 := h.freeCnt
    have h2 := hm.freeCnt
    omega
  activeCnt := hm.activeCnt.trans h.activeCnt
  htCount := by
    have h1 := h.htCount
    have h2 := hm.htCount
    omega
  left d hd := by
    by_cases hdc : d = c
    · exact hdc ▸ hleft (hdc ▸ hd)
    · have hold := h.left d fun i hi => hd i ((hm.table d hdc i).mpr hi)
      rw [Left, hm.lastCleared d hdc, hm.conns d hdc]
      exact hold
  steady d := by
    by_cases hdc : d = c
    · exact hdc ▸ hsteady
    · rw [hm.conns d hdc]
      exact h.steady d
  free d hd := by
    by_cases hdc : d = c
    · exact hdc ▸ hfree (hdc ▸ hd)
    · rw [hm.inUse d hdc]
      exact h.free d (hm.free d hdc hd)
  used i d hd := by
    by_cases hdc : d = c
    · exact hdc ▸ (hplaced i (hdc ▸ hd)).2
    · rw [hm.inUse d hdc]
      exact h.used i d ((hm.table d hdc i).mp hd)
  alternates := halt

theorem Registry.removed (h : Registry n s) (hid : (s.conns c).id = c)
    (hc : c ∈ s.ctx.htTable (calculateHash (s.conns c).tcp))
    (hr : Removed ⟨s.conns c, s.ctx⟩ t) : Registry n (s.put c t) := by
  have hcut : ∀ i, t.ctx.htTable i = if i = calculateHash (s.conns c).tcp then (s.ctx.htTable i).erase c
      else s.ctx.htTable i := fun i => by
    rw [hr.table]
    simp only [htRemove, hid]
  have htrace : t.ctx.trace = .remove c (outstanding s.ctx c) :: .clear (s.conns c) :: s.ctx.trace := by
    rw [hr.trace, hid]
  have hqueue : t.ctx.freeSessionQ = s.ctx.freeSessionQ ++ [c] := by rw [hr.freeQ, hid]
  have hfree : t.ctx.freeCnt = s.ctx.freeCnt + 1 := hr.freeCnt
  have hactive : t.ctx.activeCnt = s.ctx.activeCnt - 1 := hr.activeCnt
  have hcount : t.ctx.htCount = s.ctx.htCount - 1 := hr.htCount
  have hbucket := (List.nodup_append.mp (h.shares.nodup (calculateHash (s.conns c).tcp))).2.1
  have hout : ∀ i, c ∉ t.ctx.htTable i := by
    intro i hi
    rw [hcut] at hi
    split at hi
    · rename_i hi'
      rw [hi'] at hi
      exact (hbucket.mem_erase_iff.mp hi).1 rfl
    · rename_i hne
      exact hne (h.placed i c hi).1
  have hm : Moved c (calculateHash (s.conns c).tcp) s (s.put c t) := by
    refine ⟨?_, fun i hi => ?_, fun d hd => s.put_ne t hd, fun d hd i => ?_, fun d hd hf => ?_,
      fun d hd => ?_, fun d hd => ?_, ?_, ?_, ?_⟩
    · show (t.ctx.freeSessionQ ++ t.ctx.htTable _).Perm _
      rw [hqueue, hcut, if_pos rfl, List.append_assoc]
      exact (List.perm_cons_erase hc).symm.append_left _
    · show t.ctx.htTable i = _
      rw [hcut, if_neg hi]
    · show d ∈ t.ctx.htTable i ↔ _
      rw [hcut]
      split
      · exact List.mem_erase_of_ne hd
      · exact Iff.rfl
    · have hf : d ∈ t.ctx.freeSessionQ := hf
      rw [hqueue, List.mem_append, List.mem_singleton] at hf
      exact hf.resolve_right hd
    · have hremove : (Event.remove c (outstanding s.ctx c)).usage d = none := if_neg hd.symm
      show inUse d t.ctx.trace = _
      rw [htrace, inUse_cons hremove, inUse_cons rfl]
    · have hclear : (Event.clear (s.conns c)).cleared d = none := if_neg (hid.symm ▸ hd.symm)
      show lastCleared d t.ctx.trace = _
      rw [htrace, lastCleared_cons rfl, lastCleared_cons hclear]
    · show t.ctx.freeCnt - t.ctx.freeSessionQ.length = _
      rw [hfree, hqueue, List.length_append, List.length_singleton]
      omega
    · show t.ctx.activeCnt + t.ctx.freeSessionQ.length = _
      rw [hactive, hqueue, List.length_append, List.length_singleton]
      omega
    · show t.ctx.htCount - t.ctx.activeCnt = _
      rw [hcount, hactive]
      omega
  have hconn : t.conn = removedConn s.ctx.outside.rand (s.conns c) := by
    have h1 := hr.id
    have h2 := hr.tcp
    have h3 := hr.sess
    generalize t.conn = k at h1 h2 h3
    cases k
    subst h1 h2 h3
    rfl
  refine h.moved hm (fun i hi => absurd hi (hout i)) (fun _ => ?_) (fun _ => ?_) ?_ ?_
  · have hlast : lastCleared c t.ctx.trace = some (s.conns c) := by
      rw [htrace, lastCleared_cons rfl, lastCleared, List.findSome?_cons]
      simp [Event.cleared, hid]
    rw [Left, s.put_self]
    show match lastCleared c t.ctx.trace with
      | none => t.conn = unusedConn c
      | some conn => ∃ rand, t.conn = removedConn rand conn
    rw [hlast]
    exact ⟨_, hconn⟩
  · show inUse c t.ctx.trace = false
    rw [htrace, inUse, List.findSome?_cons]
    simp [Event.usage]
  · rw [s.put_self]
    refine ⟨fun ha => ?_, fun ha => ?_⟩
    · exact absurd (hr.gone.state.symm.trans ha) nofun
    · exact absurd (hr.gone.hwsApplied.symm.trans ha) nofun
  · show Alternates t.ctx.trace
    rw [htrace]
    refine ⟨?_, h.alternates⟩
    rw [inUse_cons rfl]
    exact h.used _ c hc

theorem Registry.inserted (h : Registry n s) (hi : Inserted c s s') : Registry n s' := by
  obtain ⟨port, cookie, p, hconn⟩ := hi.conn
  have hmem : c ∈ s.ctx.freeSessionQ := by rw [hi.queue]; exact List.mem_cons_self
  have hadd : ∀ i, s'.ctx.htTable i = if i = calculateHash (s'.conns c).tcp then s.ctx.htTable i ++ [c]
      else s.ctx.htTable i := fun i => by
    rw [hi.ctx]
    rfl
  have htrace : s'.ctx.trace = .insert c :: s.ctx.trace := by rw [hi.ctx]
  have hfree : s'.ctx.freeCnt = s.ctx.freeCnt - 1 := by rw [hi.ctx]
  have hactive : s'.ctx.activeCnt = s.ctx.activeCnt + 1 := by rw [hi.ctx]
  have hcount : s'.ctx.htCount = s.ctx.htCount + 1 := by rw [hi.ctx]
  have hlen : s.ctx.freeSessionQ.length = s'.ctx.freeSessionQ.length + 1 := by
    rw [hi.queue, List.length_cons]
  have hgone : c ∉ s'.ctx.freeSessionQ := by
    have hnd := (List.nodup_append.mp (h.shares.nodup 0)).1
    rw [hi.queue] at hnd
    exact (List.nodup_cons.mp hnd).1
  have hm : Moved c (calculateHash (s'.conns c).tcp) s s' := by
    refine ⟨?_, fun i hne => ?_, hi.others, fun d hd i => ?_, fun d _ hdf => ?_, fun d hd => ?_,
      fun d _ => ?_, by omega, by omega, by omega⟩
    · rw [hadd, if_pos rfl, hi.queue, ← List.append_assoc]
      exact List.perm_append_singleton c _
    · rw [hadd, if_neg hne]
    · rw [hadd]
      split
      · rw [List.mem_append, List.mem_singleton]
        exact or_iff_left hd
      · exact Iff.rfl
    · rw [hi.queue]
      exact List.mem_cons_of_mem c hdf
    · have hins : (Event.insert c).usage d = none := if_neg hd.symm
      rw [htrace, inUse_cons hins]
    · rw [htrace, lastCleared_cons rfl]
  have hput : c ∈ s'.ctx.htTable (calculateHash (s'.conns c).tcp) := by
    rw [hadd, if_pos rfl]
    exact List.mem_append_right _ List.mem_cons_self
  refine h.moved hm (fun i hci => ⟨⟨?_, ?_⟩, ?_⟩) (fun hno => absurd hput (hno _))
    (fun hf => absurd hf hgone) ?_ ?_
  · rw [hadd] at hci
    split at hci
    · assumption
    · exact absurd hmem (h.not_free hci)
  · rw [hconn]
    exact nofun
  · rw [htrace, inUse, List.findSome?_cons]
    simp [Event.usage]
  · have hs := h.steady c
    rw [hconn]
    exact ⟨hs.active, hs.applied⟩
  · rw [htrace]
    exact ⟨h.free c hmem, h.alternates⟩

theorem Registry.quiet (h : Registry n s) (hq : SysQuiet s s') : Registry n s' := by
  obtain ⟨hconns, out, outside, hctx⟩ := hq
  refine h.same (by rw [hctx]; rfl) ⟨[], by rw [hctx]; rfl, inner_nil⟩ (fun b c hc => ?_)
    (fun c _ => by rw [hconns]) fun c => ?_
  · rw [hconns]
    exact ⟨rfl, (h.placed b c hc).2⟩
  · rw [hconns]
    exact h.steady c

/- A connection that is not in use has nothing to do with the PKA core. -/
theorem Left.idle (h : Left s c) : (s.conns c).Clean ∧ (s.conns c).sess.pendingPkaOp = none := by
  unfold Left at h
  split at h
  · rw [h]
    exact ⟨⟨rfl, rfl, rfl, rfl, rfl, rfl⟩, rfl⟩
  · obtain ⟨rand, h⟩ := h
    rw [h]
    exact ⟨⟨rfl, rfl, rfl, rfl, rfl, rfl⟩, rfl⟩

theorem Registry.pka {o : OpId} (h : Registry n s) (hop : OpFacts s) (ho : (s.ctx.ops o).sess = some c)
    {f : Session → Session} (hconns : s'.conns = (s.setConn c f).conns)
    (hf : ∀ e, (f e).state = e.state ∧ (f e).handshakeState = e.handshakeState
      ∧ (f e).waitingCrypto = e.waitingCrypto ∧ (f e).recvQ = e.recvQ)
    (hreg : s'.ctx.registry = s.ctx.registry) (htrace : s'.ctx.trace = s.ctx.trace) : Registry n s' := by
  have hpend : (s.conns c).sess.pendingPkaOp = some o := by
    rw [← (hop.conn c).owner o, hop.ids c]
    exact ho
  have hself : s'.conns c = { s.conns c with sess := f (s.conns c).sess } := by
    rw [hconns]
    exact if_pos rfl
  have hne : ∀ d, d ≠ c → s'.conns d = s.conns d := fun d hd => by
    rw [hconns]
    exact if_neg hd
  refine h.same hreg ⟨[], htrace, inner_nil⟩ (fun b d hd => ?_) (fun d hd => ?_) fun d => ?_
  · have hlive := (h.placed b d hd).2
    by_cases hdc : d = c
    · subst hdc
      rw [hself]
      exact ⟨rfl, hlive⟩
    · rw [hne d hdc]
      exact ⟨rfl, hlive⟩
  · refine hne d fun hdc => ?_
    have hnone := (h.left d hd).idle.2
    rw [hdc, hpend] at hnone
    cases hnone
  · by_cases hdc : d = c
    · obtain ⟨f1, f2, f3, f4⟩ := hf (s.conns c).sess
      have hs := h.steady c
      rw [hdc, hself]
      constructor
      · show (f _).state = _ → _ ∧ (f _).waitingCrypto = _ ∧ ((f _).handshakeState = _ ∨ (f _).handshakeState = _)
        rw [f1, f2, f3]
        exact hs.active
      · show _ → _ ∧ (f _).recvQ = _
        rw [f4]
        exact hs.applied
    · rw [hne d hdc]
      exact h.steady d

theorem Registry.submitted {priv : Operand} (h : Registry n s) (hop : OpFacts s)
    (hs : handleSubmittedPka priv s = .ok s') : Registry n s' := by
  rcases handleSubmittedPka_cases hs with rfl | ⟨o, ring, c, -, -, -, hc, hconns, hctx⟩
  · exact h
  · exact h.pka hop hc hconns (fun _ => ⟨rfl, rfl, rfl, rfl⟩) (by rw [hctx]; rfl) (by rw [hctx]; rfl)

theorem Registry.completes {o : OpId} {results : List Bytes} (h : Registry n s) (hop : OpFacts s)
    (hs : handleCompletedPka o results s = .ok s') : Registry n s' := by
  rcases handleCompletedPka_cases hs with rfl | ⟨c, -, hc, ⟨-, hconns, hctx⟩ | ⟨-, -, hconns, hctx⟩⟩
  · exact h
  · exact h.pka hop hc hconns (fun _ => ⟨rfl, rfl, rfl, rfl⟩) (by rw [hctx]; rfl) (by rw [hctx])
  · exact h.pka hop hc hconns (fun _ => ⟨rfl, rfl, rfl, rfl⟩) (by rw [hctx]; rfl) (by rw [hctx])

/-! ### Steps -/

theorem Registry.turn (h : Registry n s) (hids : ∀ c, (s.conns c).id = c)
    (hc : c ∈ s.ctx.htTable (calculateHash (s.conns c).tcp))
    (hl : Lives ⟨s.conns c, s.ctx⟩ t ∨ Removes ⟨s.conns c, s.ctx⟩ t) : Registry n (s.put c t) := by
  rcases hl with hl | ⟨u, hl, hr⟩
  · exact h.lives hc hl
  · have hu := h.lives hc hl
    have hconn := s.put_self c u
    have htable : (s.put c u).ctx.htTable = s.ctx.htTable := (congrArg Prod.fst hl.registry :)
    have hhash : calculateHash u.conn.tcp = calculateHash (s.conns c).tcp := hl.hash
    have hput : (s.put c u).put c t = s.put c t := by
      simp only [Sys.put]
      congr 1
      funext i
      split <;> rfl
    rw [← hput]
    refine hu.removed ?_ ?_ ?_
    · rw [hconn]
      exact hl.id.trans (hids c)
    · rw [hconn, htable, hhash]
      exact hc
    · rw [hconn]
      exact hr

theorem step_registry (x : Input) (s s' : Sys) (h : step env x s = .ok s') :
    Keeps (fun s : Sys => s.ctx.trace) (Event.EndsLast env) (fun s => OpFacts s ∧ Registry n s) s s' := by
  have hkeeps := (kept_opFacts env).keeps x s s' h
  refine ⟨hkeeps.grows, fun hends ⟨hop, hreg⟩ => ⟨hkeeps.keeps (fun _ _ => trivial) hop, ?_⟩⟩
  have hplace : ∀ {c b}, c ∈ s.ctx.htTable b → c ∈ s.ctx.htTable (calculateHash (s.conns c).tcp) :=
    fun hc => (hreg.placed _ _ hc).1 ▸ hc
  cases step_outcome h with
  | quiet hq => exact hreg.quiet hq
  | @acts port p c t _ found ha =>
    obtain ⟨b, hb⟩ := searchTcpConnection_listed found
    exact hreg.turn hop.ids (hplace hb) (ha.lives (hreg.steady c) hends)
  | @serves c t _ hmem hserve =>
    have hamong : OpFacts ((⟨s.conns c, s.ctx⟩ : St).among s.conns) := by
      have hself : (⟨s.conns c, s.ctx⟩ : St).among s.conns = s := by simp [St.among, hop.ids c]
      rw [hself]
      exact hop
    exact hreg.turn hop.ids hmem (serveConnection_lives hserve hamong (hreg.steady c) hends)
  | inserts hi hq => exact (hreg.inserted hi).quiet hq
  | replaces _ hr hq hi hmem =>
    obtain ⟨b, hb⟩ := hmem
    have hremoved := hreg.removed (hop.ids _) (hplace hb) (removeSession_removed hr)
    exact (hremoved.quiet hq).inserted hi
  | submits hs => exact hreg.submitted hop hs
  | completes hs => exact hreg.completes hop hs

theorem initial_registry (n ringCnt : Nat) : Registry n (initial n ringCnt) where
  shares := by
    refine ⟨fun _ => ?_, fun _ _ _ _ hx => absurd hx List.not_mem_nil⟩
    show (List.range n ++ []).Nodup
    rw [List.append_nil]
    exact List.nodup_range
  covers x := by
    show x < n ↔ x ∈ List.range n ∨ ∃ _, x ∈ []
    simp
  placed _ _ h := absurd h List.not_mem_nil
  freeCnt := by
    show (n : Int) = (List.range n).length
    rw [List.length_range]
  activeCnt := by
    show (0 : Int) + (List.range n).length = n
    rw [List.length_range, Int.zero_add]
  htCount := rfl
  left _ _ := rfl
  steady _ := ⟨fun h => absurd h nofun, fun h => absurd h nofun⟩
  free _ _ := rfl
  used _ _ h := absurd h List.not_mem_nil
  alternates := trivial

theorem calculateHash_lt (t : Tcp) : calculateHash t < numBins := by
  unfold calculateHash
  rw [UInt32.toNat_and]
  exact Nat.and_lt_two_pow _ (by decide : (1023 : UInt32).toNat < 2 ^ 10)

theorem Registry.perm (h : Registry n s) : (s.active ++ s.ctx.freeSessionQ).Perm (List.range n) := by
  refine h.shares.perm h.covers List.nodup_range (fun b hb => ?_) List.nodup_range
    fun x => List.mem_range
  refine List.eq_nil_iff_forall_not_mem.mpr fun c hc => hb ?_
  rw [(h.placed b c hc).1]
  exact List.mem_range.mpr (calculateHash_lt _)

end

/-- As long as a record that ends its session is the last one of its packet, every connection is once
in the table or once in `free_session_q`, the counters are the numbers of entries, what is in
`free_session_q` is clean and has not been written to since it was removed, and no connection is removed
that is not in use. -/
theorem connections_registered (env : Env) (n ringCnt : Nat) (inputs : List Input) (s : Sys)
    (hrun : run (step env) inputs (initial n ringCnt) = .ok s)
    (hends : ∀ e ∈ s.ctx.trace, e.EndsLast env) :
    (s.active ++ s.ctx.freeSessionQ).Perm (List.range n)
      ∧ s.ctx.activeCnt = s.active.length ∧ s.ctx.htCount = s.active.length
      ∧ s.ctx.freeCnt = s.ctx.freeSessionQ.length
      ∧ (∀ c ∈ s.ctx.freeSessionQ, (s.conns c).Clean ∧ Left s c)
      ∧ Alternates s.ctx.trace := by
  have h := ((run_keeps step_registry inputs _ s hrun).keeps hends
    ⟨initial_opFacts n ringCnt, initial_registry n ringCnt⟩).2
  have hlen := h.perm.length_eq
  rw [List.length_append, List.length_range] at hlen
  have hactive : s.ctx.activeCnt = s.active.length := by
    have hsum := h.activeCnt
    omega
  refine ⟨h.perm, hactive, h.htCount.trans hactive, h.freeCnt, fun c hc => ?_, h.alternates⟩
  have hleft := h.left c fun b hb => h.not_free hb hc
  exact ⟨hleft.idle.1, hleft⟩

def sampleAlert : Bytes := [0x15, 3, 3, 0, 2, 2, 40]

/- Two clients connect, and the first one sends an alert. -/
def sampleAlerts (b : Bytes) (h : b.length < 65536) : List Input :=
  [.packet 0 sampleSyn, .packet 0 { sampleSyn with srcPort := 8 }, .packet 0 (sampleSegment 101 5 b h)]

theorem connections_registered_alert :
    ∃ s, run (step sampleEnv) (sampleAlerts sampleAlert (by decide)) (initial 3 8) = .ok s
      ∧ s.ctx.freeSessionQ = [2, 0] ∧ (s.active ++ [2, 0]).Perm (List.range 3) := by
  obtain ⟨s, hs, hg, hq⟩ := endsIn_ok
    (fun s : Sys => (∀ e ∈ s.ctx.trace, e.EndsLast sampleEnv) ∧ s.ctx.freeSessionQ = [2, 0])
    (run (step sampleEnv) (sampleAlerts sampleAlert (by decide)) (initial 3 8)) (by decide +kernel)
  exact ⟨s, hs, hq, hq ▸ (connections_registered sampleEnv 3 8 _ s hs hg).1⟩

/- A second alert in the segment is read in the session that the first one has ended. -/
theorem secondAlert_removes_twice :
    ∃ s, run (step sampleEnv) (sampleAlerts (sampleAlert ++ sampleAlert) (by decide)) (initial 3 8)
        = .ok s
      ∧ s.ctx.freeSessionQ = [2, 0, 0] ∧ s.ctx.activeCnt = 0 ∧ s.active = [1] := by
  obtain ⟨s, hs, h⟩ := endsIn_ok
    (fun s : Sys => s.ctx.freeSessionQ = [2, 0, 0] ∧ s.ctx.activeCnt = 0 ∧ s.active = [1])
    (run (step sampleEnv) (sampleAlerts (sampleAlert ++ sampleAlert) (by decide)) (initial 3 8))
    (by decide +kernel)
  exact ⟨s, hs, h⟩

end Xtls.Nic
