import Xtls.Lib.Walk
import Xtls.Nic.HashTable
import Xtls.Nic.Placement
import Xtls.Nic.Registry

/-!
# The main loop of a worker

`ssloff_main_loop` (`tcp.c` 3595-3841) on the pointers of the hash table: for each port the packets of a
burst, then every connection in every bucket by `TAILQ_FOREACH`, although the body may take the connection
out of its bucket.  What the PKA core does before a packet is processed or a connection is served stands in
the turn.
-/

namespace Xtls.Nic

/-- The worker with the links of `active_session_link` and the heads of the table. -/
structure Linked where
  sys : Sys
  links : Queues Nat ConnId

/- The call of `ht_insert` or `ht_remove` that an event stands for: `clear` has the connection as
`remove_session` found it. -/
def relink (conns : ConnId → Conn) : Event → Queues Nat ConnId → Queues Nat ConnId
  | .insert c, q => q.insertTail (calculateHash (conns c).tcp) c
  | .clear conn, q => q.remove (calculateHash conn.tcp) conn.id
  | _, q => q

/-- The worker goes on to `s`, and the links with it; the history has the newest event first. -/
def Linked.follow (l : Linked) (s : Sys) : Linked where
  sys := s
  links := (s.ctx.trace.take (s.ctx.trace.length - l.sys.ctx.trace.length)).foldr (relink s.conns) l.links

def linkedStep (env : Env) (x : Input) (l : Linked) : Except Halt Linked := do
  let s ← step env x l.sys
  return l.follow s

/- `thread_local_init`; the links in the connections hold anything. -/
def linkedStart (n ringCnt : Nat) (next : ConnId → Option ConnId) (prev : ConnId → Link Nat ConnId) : Linked where
  sys := initial n ringCnt
  links := .init next prev

/-! ### The loop -/

/-- What goes on besides the worker: the PKA core, and the clocks and generators that are read. -/
inductive Outer where
  | submit (priv : Operand)
  | complete (o : OpId) (results : List Bytes)
  | outside (o : Outside)

def Outer.input : Outer → Input
  | .submit priv => .pkaSubmit priv
  | .complete o results => .pkaComplete o results
  | .outside o => .outside o

/-- One port's share of a round of the loop. -/
structure Round where
  port : UInt16
  burst : List (List Outer × Packet)
  between : ConnId → List Outer

def takePacket (env : Env) (port : UInt16) (x : List Outer × Packet) (l : Linked) : Except Halt Linked := do
  let l ← run (linkedStep env) (x.1.map Outer.input) l
  let s ← processPacket env port x.2 l.sys
  return l.follow s

def serveTarget (env : Env) (between : ConnId → List Outer) (c : ConnId) (l : Linked) : Except Halt Linked := do
  let l ← run (linkedStep env) ((between c).map Outer.input) l
  let s ← l.sys.on c (serveConnection env)
  return l.follow s

/-- The round of the loop for one port; `none` when a walk has not ended after `fuel` connections. -/
def portRound (env : Env) (fuel : Nat) (t : Round) (l : Linked) : Option (Except Halt Linked) :=
  match run (takePacket env t.port) t.burst l with
  | .error e => some (.error e)
  | .ok m => Queues.walkAll Linked.links (serveTarget env t.between) fuel (List.range numBins) m

def burstInputs (t : Round) : List Input := t.burst.flatMap fun x => x.1.map Outer.input ++ [.packet t.port x.2]

def serveInputs (t : Round) (cs : List ConnId) : List Input :=
  cs.flatMap fun c => (t.between c).map Outer.input ++ [.serve c]

/-! ### Links and lists -/

section

variable {env : Env} {n : Nat} {l l' : Linked} {s : Sys} {c : ConnId}

theorem relink_inner {e : Event} (he : e.Inner) (conns : ConnId → Conn) (q : Queues Nat ConnId) :
    relink conns e q = q := by
  cases e with
  | insert d => exact absurd (he d).1 (by simp [Event.usage])
  | clear conn => exact absurd (he conn.id).2 (by simp [Event.cleared])
  | remove d held => rfl
  | complete d r => rfl
  | read conn r rest room => rfl
  | verifyData d m vd => rfl

theorem follow_links {es : List Event} (h : s.ctx.trace = es ++ l.sys.ctx.trace) :
    (l.follow s).links = es.foldr (relink s.conns) l.links := by
  have hlen : s.ctx.trace.length - l.sys.ctx.trace.length = es.length := by
    rw [h, List.length_append]
    omega
  simp only [Linked.follow, hlen]
  rw [h, List.take_left]

theorem foldr_inner {es : List Event} (hes : ∀ e ∈ es, e.Inner) (conns : ConnId → Conn) (q : Queues Nat ConnId) :
    es.foldr (relink conns) q = q := by
  induction es with
  | nil => rfl
  | cons e es ih =>
    rw [List.foldr_cons, ih fun x hx => hes x (List.mem_cons_of_mem e hx)]
    exact relink_inner (hes e List.mem_cons_self) conns q

theorem follow_inner (h : ∃ es, s.ctx.trace = es ++ l.sys.ctx.trace ∧ ∀ e ∈ es, e.Inner) :
    (l.follow s).links = l.links := by
  obtain ⟨es, htrace, hes⟩ := h
  rw [follow_links htrace, foldr_inner hes]

theorem follow_same (h : s.ctx.trace = l.sys.ctx.trace) : (l.follow s).links = l.links :=
  follow_inner ⟨[], h, inner_nil⟩

/-- The links are those of the lists. -/
structure Linked.Inv (n : Nat) (l : Linked) : Prop where
  ops : OpFacts l.sys
  registry : Registry n l.sys
  represents : l.links.Represents l.sys.ctx.htTable

/- The worker works on connection `c` of the table: the links stay, or `c` is taken out of its bucket. -/
theorem follow_turn {t : St} (hid : (l.sys.conns c).id = c)
    (h : Lives ⟨l.sys.conns c, l.sys.ctx⟩ t ∨ Removes ⟨l.sys.conns c, l.sys.ctx⟩ t) :
    (l.follow (l.sys.put c t)).links = l.links ∧ t.ctx.htTable = l.sys.ctx.htTable
      ∨ (l.follow (l.sys.put c t)).links = l.links.remove (calculateHash (l.sys.conns c).tcp) c
        ∧ t.ctx.htTable = fun i => if i = calculateHash (l.sys.conns c).tcp then (l.sys.ctx.htTable i).erase c
          else l.sys.ctx.htTable i := by
  rcases h with h | ⟨u, h, hr⟩
  · exact .inl ⟨follow_inner h.trace, congrArg Prod.fst h.registry⟩
  · obtain ⟨es, htrace, hes⟩ := h.trace
    have huid : u.conn.id = c := h.id.trans hid
    have htable : u.ctx.htTable = l.sys.ctx.htTable := congrArg Prod.fst h.registry
    refine .inr ⟨?_, ?_⟩
    · have hnew : (l.sys.put c t).ctx.trace =
          (.remove u.conn.id (outstanding u.ctx u.conn.id) :: .clear u.conn :: es) ++ l.sys.ctx.trace := by
        show t.ctx.trace = _
        rw [hr.trace, htrace]
        rfl
      rw [follow_links hnew, List.foldr_cons, List.foldr_cons, foldr_inner hes]
      simp only [relink]
      rw [huid, h.hash]
    · rw [hr.table]
      simp only [htRemove, huid, h.hash, htable]

theorem Linked.Inv.turn {t : St} (h : l.Inv n) (hc : c ∈ l.sys.ctx.htTable (calculateHash (l.sys.conns c).tcp))
    (ht : Lives ⟨l.sys.conns c, l.sys.ctx⟩ t ∨ Removes ⟨l.sys.conns c, l.sys.ctx⟩ t) :
    (l.follow (l.sys.put c t)).links.Represents t.ctx.htTable := by
  rcases follow_turn (h.ops.ids c) ht with ⟨hlinks, htable⟩ | ⟨hlinks, htable⟩
  · rw [hlinks, htable]
    exact h.represents
  · rw [hlinks, htable]
    exact h.represents.remove hc

theorem quiet_trace {u : Sys} (hq : SysQuiet s u) : u.ctx.trace = s.ctx.trace ∧ u.ctx.htTable = s.ctx.htTable := by
  obtain ⟨-, out, outside, hctx⟩ := hq
  rw [hctx]
  exact ⟨rfl, rfl⟩

/- A connection from the free list goes to the end of the bucket of its new address. -/
theorem Registry.insert_represents {u : Sys} {q : Queues Nat ConnId} (h : Registry n s) (hi : Inserted c s u)
    (hq : q.Represents s.ctx.htTable) :
    (q.insertTail (calculateHash (u.conns c).tcp) c).Represents u.ctx.htTable := by
  have hfree : c ∈ s.ctx.freeSessionQ := by
    rw [hi.queue]
    exact List.mem_cons_self
  have htable : u.ctx.htTable = fun i => if i = calculateHash (u.conns c).tcp then s.ctx.htTable i ++ [c]
      else s.ctx.htTable i := by
    rw [hi.ctx]
    rfl
  rw [htable]
  exact hq.insertTail fun b hb => h.not_free hb hfree

theorem linkedStep_represents {x : Input} (hs : step env x l.sys = .ok s) (h : l.Inv n)
    (hends : ∀ e ∈ s.ctx.trace, e.EndsLast env) : (l.follow s).links.Represents s.ctx.htTable := by
  have hplace : ∀ {c b}, c ∈ l.sys.ctx.htTable b → c ∈ l.sys.ctx.htTable (calculateHash (l.sys.conns c).tcp) :=
    fun hc => (h.registry.placed _ _ hc).1 ▸ hc
  cases step_outcome hs with
  | quiet hq =>
    obtain ⟨htrace, htable⟩ := quiet_trace hq
    rw [follow_same htrace, htable]
    exact h.represents
  | @acts port p c t _ found ha =>
    obtain ⟨b, hb⟩ := searchTcpConnection_listed found
    exact h.turn (hplace hb) (ha.lives (h.registry.steady c) hends)
  | @serves c t _ hmem hserve =>
    have hamong : OpFacts ((⟨l.sys.conns c, l.sys.ctx⟩ : St).among l.sys.conns) := by
      have hself : (⟨l.sys.conns c, l.sys.ctx⟩ : St).among l.sys.conns = l.sys := by simp [St.among, h.ops.ids c]
      rw [hself]
      exact h.ops
    exact h.turn hmem (serveConnection_lives hserve hamong (h.registry.steady c) hends)
  | @inserts c u _ hi hq =>
    obtain ⟨htrace, htable⟩ := quiet_trace hq
    have hnew : s.ctx.trace = [.insert c] ++ l.sys.ctx.trace := by
      rw [htrace, hi.ctx]
      rfl
    rw [follow_links hnew, htable]
    simp only [List.foldr_cons, List.foldr_nil, relink]
    rw [hq.1]
    exact h.registry.insert_represents hi h.represents
  | @replaces c d t u _ _ hr hq hi hmem =>
    obtain ⟨b, hb⟩ := hmem
    have hrem := removeSession_removed hr
    obtain ⟨htrace, htable⟩ := quiet_trace hq
    have hid := h.ops.ids c
    have hremoved := (h.registry.removed hid (hplace hb) hrem).quiet hq
    have hnew : s.ctx.trace = [.insert d, .remove c (outstanding l.sys.ctx c), .clear (l.sys.conns c)]
        ++ l.sys.ctx.trace := by
      have hu : u.ctx.trace = t.ctx.trace := htrace
      rw [hi.ctx]
      show .insert d :: u.ctx.trace = _
      rw [hu, hrem.trace]
      simp only [hid]
      rfl
    have hold : u.ctx.htTable = fun i => if i = calculateHash (l.sys.conns c).tcp then (l.sys.ctx.htTable i).erase c
        else l.sys.ctx.htTable i := by
      rw [htable]
      show t.ctx.htTable = _
      rw [hrem.table]
      simp only [htRemove, hid]
    rw [follow_links hnew]
    simp only [List.foldr_cons, List.foldr_nil, relink]
    rw [hid]
    apply hremoved.insert_represents hi
    rw [hold]
    exact h.represents.remove (hplace hb)
  | submits hsub =>
    rcases handleSubmittedPka_cases hsub with rfl | ⟨o, ring, c, -, -, -, hc, hconns, hctx⟩
    · rw [follow_same rfl]
      exact h.represents
    · rw [follow_same (by rw [hctx]; rfl), hctx]
      exact h.represents
  | completes hcomp =>
    rcases handleCompletedPka_cases hcomp with rfl | ⟨c, -, hc, ⟨-, hconns, hctx⟩ | ⟨-, -, hconns, hctx⟩⟩
    · rw [follow_same rfl]
      exact h.represents
    · rw [follow_same (by rw [hctx]), hctx]
      exact h.represents
    · rw [follow_same (by rw [hctx]), hctx]
      exact h.represents

theorem linkedStep_keeps (x : Input) (l l' : Linked) (h : linkedStep env x l = .ok l') :
    Keeps (fun l : Linked => l.sys.ctx.trace) (Event.EndsLast env) (Linked.Inv n) l l' := by
  obtain ⟨s, hs, h⟩ := bind_ok h
  cases h
  have hkeeps := step_registry (n := n) x l.sys s hs
  refine ⟨hkeeps.grows, fun hends hl => ?_⟩
  obtain ⟨hop, hreg⟩ := hkeeps.keeps hends ⟨hl.ops, hl.registry⟩
  exact ⟨hop, hreg, linkedStep_represents hs hl hends⟩

theorem linkedStart_inv (n ringCnt : Nat) (next : ConnId → Option ConnId) (prev : ConnId → Link Nat ConnId) :
    (linkedStart n ringCnt next prev).Inv n :=
  ⟨initial_opFacts n ringCnt, initial_registry n ringCnt, Queues.init_represents next prev⟩

/-! ### A round is a run -/

theorem takePacket_run (env : Env) (port : UInt16) (x : List Outer × Packet) (l : Linked) :
    takePacket env port x l = run (linkedStep env) (x.1.map Outer.input ++ [.packet port x.2]) l := by
  rw [run_append, takePacket]
  congr 1
  funext m
  simp only [run, linkedStep, step]
  cases processPacket env port x.2 m.sys <;> rfl

theorem burst_run (env : Env) (t : Round) (l : Linked) :
    run (takePacket env t.port) t.burst l = run (linkedStep env) (burstInputs t) l :=
  run_flatMap _ (takePacket_run env t.port) t.burst l

theorem outer_quiet {x : Outer} (h : linkedStep env x.input l = .ok l') :
    l'.links = l.links ∧ l'.sys.ctx.htTable = l.sys.ctx.htTable ∧ l'.sys.ctx.trace = l.sys.ctx.trace := by
  obtain ⟨s, hs, h⟩ := bind_ok h
  cases h
  have hsame : s.ctx.htTable = l.sys.ctx.htTable ∧ s.ctx.trace = l.sys.ctx.trace := by
    cases x with
    | submit priv =>
      rcases handleSubmittedPka_cases hs with rfl | ⟨o, ring, c, -, -, -, hc, hconns, hctx⟩
      · exact ⟨rfl, rfl⟩
      · rw [hctx]
        exact ⟨rfl, rfl⟩
    | complete o results =>
      rcases handleCompletedPka_cases hs with rfl | ⟨c, -, hc, ⟨-, hconns, hctx⟩ | ⟨-, -, hconns, hctx⟩⟩
      · exact ⟨rfl, rfl⟩
      · rw [hctx]
        exact ⟨rfl, rfl⟩
      · rw [hctx]
        exact ⟨rfl, rfl⟩
    | outside o =>
      cases hs
      exact ⟨rfl, rfl⟩
  exact ⟨follow_same hsame.2, hsame⟩

theorem outers_quiet {xs : List Outer} (h : run (linkedStep env) (xs.map Outer.input) l = .ok l') :
    l'.links = l.links ∧ l'.sys.ctx.htTable = l.sys.ctx.htTable ∧ l'.sys.ctx.trace = l.sys.ctx.trace := by
  induction xs generalizing l with
  | nil =>
    cases h
    exact ⟨rfl, rfl, rfl⟩
  | cons x xs ih =>
    obtain ⟨m, hm, h⟩ := bind_ok h
    obtain ⟨h1, h2, h3⟩ := outer_quiet hm
    obtain ⟨i1, i2, i3⟩ := ih h
    exact ⟨i1.trans h1, i2.trans h2, i3.trans h3⟩

theorem serveConnection_grows {s s' : St} (h : serveConnection env s = .ok s') :
    s.ctx.trace <:+ s'.ctx.trace := ((closed_opFacts env).serve h).grows

theorem serveTarget_listed {between : ConnId → List Outer} (h : l.Inv n) {b : Nat} (hc : c ∈ l.sys.ctx.htTable b)
    (hends : ∀ e ∈ l.sys.ctx.trace, e.EndsLast env) :
    serveTarget env between c l = run (linkedStep env) ((between c).map Outer.input ++ [.serve c]) l := by
  rw [run_append, serveTarget]
  cases hrun : run (linkedStep env) ((between c).map Outer.input) l with
  | error e => rfl
  | ok m =>
    obtain ⟨-, htable, htrace⟩ := outers_quiet hrun
    have hm : m.Inv n := (run_keeps linkedStep_keeps _ l m hrun).keeps (fun e he => hends e (htrace ▸ he)) h
    have hcm : c ∈ m.sys.ctx.htTable b := by
      rw [htable]
      exact hc
    have hmem : c ∈ m.sys.ctx.htTable (calculateHash (m.sys.conns c).tcp) := (hm.registry.placed b c hcm).1 ▸ hcm
    show (m.sys.on c (serveConnection env) >>= fun s => pure (m.follow s)) = run (linkedStep env) [.serve c] m
    simp only [run, linkedStep, step, if_pos hmem]
    cases m.sys.on c (serveConnection env) <;> rfl

theorem serveTarget_ownOnly (env : Env) (n : Nat) (between : ConnId → List Outer) :
    Queues.OwnOnly Linked.links (fun l => l.sys.ctx.htTable) (serveTarget env between)
      (fun c => run (linkedStep env) ((between c).map Outer.input ++ [.serve c]))
      (fun l => l.Inv n ∧ ∀ e ∈ l.sys.ctx.trace, e.EndsLast env)
      fun l => ∀ e ∈ l.sys.ctx.trace, e.EndsLast env where
  represents _ h := h.1.represents
  agree _ _ _ h hc := serveTarget_listed h.1 hc h.2
  before c l l' h hends := by
    have hgrows : l.sys.ctx.trace <:+ l'.sys.ctx.trace := by
      rcases h with h | h
      · obtain ⟨m, hm, h⟩ := bind_ok h
        obtain ⟨s, hs, h⟩ := bind_ok h
        obtain ⟨u, hu, rfl⟩ := Sys.on_ok hs
        cases h
        rw [← (outers_quiet hm).2.2]
        exact serveConnection_grows hu
      · exact (run_keeps (linkedStep_keeps (n := n)) _ l l' h).grows
    exact fun e he => hends e (hgrows.subset he)
  effect b c l l' h hc hserve hends := by
    obtain ⟨hl, hgood⟩ := h
    have hrun := hserve
    rw [serveTarget_listed hl hc hgood] at hrun
    have hl' := (run_keeps linkedStep_keeps _ l l' hrun).keeps hends hl
    obtain ⟨m, hm, hserve⟩ := bind_ok hserve
    obtain ⟨s, hs, hserve⟩ := bind_ok hserve
    obtain ⟨u, hu, rfl⟩ := Sys.on_ok hs
    cases hserve
    obtain ⟨hlinks, htable, htrace⟩ := outers_quiet hm
    have hmi : m.Inv n := (run_keeps linkedStep_keeps _ l m hm).keeps (fun e he => hgood e (htrace ▸ he)) hl
    have hcm : c ∈ m.sys.ctx.htTable b := by
      rw [htable]
      exact hc
    have hb : b = calculateHash (m.sys.conns c).tcp := (hmi.registry.placed b c hcm).1
    have hamong : OpFacts ((⟨m.sys.conns c, m.sys.ctx⟩ : St).among m.sys.conns) := by
      have hself : (⟨m.sys.conns c, m.sys.ctx⟩ : St).among m.sys.conns = m.sys := by simp [St.among, hmi.ops.ids c]
      rw [hself]
      exact hmi.ops
    have hturn := follow_turn (hmi.ops.ids c) (serveConnection_lives hu hamong (hmi.registry.steady c) hends)
    rw [← hb, hlinks, htable] at hturn
    exact ⟨⟨hl', hends⟩, hturn⟩

theorem Registry.bucket_le (h : Registry n s) (b : Nat) : (s.ctx.htTable b).length ≤ n := by
  have hnd : (s.ctx.htTable b).Nodup := (List.nodup_append.mp (h.shares.nodup b)).2.1
  have hsub : s.ctx.htTable b ⊆ List.range n := fun c hc => List.mem_range.mpr ((h.covers c).mpr (.inr ⟨b, hc⟩))
  have hle := (List.subperm_of_subset hnd hsub).length_le
  rwa [List.length_range] at hle

theorem Registry.mem_active_iff (h : Registry n s) : c ∈ s.active ↔ Listed s.ctx c := by
  simp only [Sys.active, List.mem_flatMap, List.mem_range, Listed]
  constructor
  · rintro ⟨b, -, hc⟩
    exact ⟨b, hc⟩
  · rintro ⟨b, hc⟩
    refine ⟨b, ?_, hc⟩
    rw [(h.placed b c hc).1]
    exact calculateHash_lt _

theorem Registry.active_nodup (h : Registry n s) : s.active.Nodup :=
  (List.nodup_append.mp (h.perm.nodup_iff.mpr List.nodup_range)).1

end

/-- Each port's share of a round of the main loop is a run of the two cores: the packets of the burst in
turn, and then every connection that is in the table once, in the order of the buckets, also those behind a
connection that the body has taken out. -/
theorem portRound_serves (env : Env) (n ringCnt fuel : Nat) (next : ConnId → Option ConnId)
    (prev : ConnId → Link Nat ConnId) (inputs : List Input) (t : Round) (l l' : Linked)
    (hrun : run (linkedStep env) inputs (linkedStart n ringCnt next prev) = .ok l)
    (hends : ∀ e ∈ l'.sys.ctx.trace, e.EndsLast env) (hfuel : n < fuel) :
    portRound env fuel t l = some (.ok l')
      ↔ ∃ m, run (linkedStep env) (burstInputs t) l = .ok m
        ∧ run (linkedStep env) (serveInputs t m.sys.active) m = .ok l'
        ∧ m.sys.active.Nodup ∧ ∀ c, c ∈ m.sys.active ↔ Listed m.sys.ctx c := by
  have hown := serveTarget_ownOnly env n t.between
  have hserve : ∀ m, run (fun c => run (linkedStep env) ((t.between c).map Outer.input ++ [.serve c])) m.sys.active m
      = run (linkedStep env) (serveInputs t m.sys.active) m := fun m => run_flatMap _ (fun _ _ => rfl) _ m
  -- what holds once the burst has been processed
  have hmid : ∀ m, run (linkedStep env) (burstInputs t) l = .ok m → (∀ e ∈ m.sys.ctx.trace, e.EndsLast env) →
      m.Inv n := fun m hm hgood => by
    have hall : run (linkedStep env) (inputs ++ burstInputs t) (linkedStart n ringCnt next prev) = .ok m := by
      rw [run_append, hrun]
      exact hm
    exact (run_keeps linkedStep_keeps _ _ m hall).keeps hgood (linkedStart_inv n ringCnt next prev)
  have hwalk : ∀ m, m.Inv n → (∀ e ∈ m.sys.ctx.trace, e.EndsLast env) →
      (Queues.walkAll Linked.links (serveTarget env t.between) fuel (List.range numBins) m = some (.ok l')
        ↔ run (linkedStep env) (serveInputs t m.sys.active) m = .ok l') := fun m hm hgood => by
    rw [← hserve]
    exact (hown.walkAll_iff ⟨hm, hgood⟩ List.nodup_range
      (fun b _ => Nat.lt_of_le_of_lt (hm.registry.bucket_le b) hfuel) hends).1
  unfold portRound
  rw [burst_run]
  cases hburst : run (linkedStep env) (burstInputs t) l with
  | error e => simp
  | ok m =>
    constructor
    · intro hround
      have hgood := hown.walkAll_before hround hends
      have hm := hmid m hburst hgood
      exact ⟨m, rfl, (hwalk m hm hgood).mp hround, hm.registry.active_nodup, fun _ => hm.registry.mem_active_iff⟩
    · intro hserves
      obtain ⟨u, hu, hrest, -⟩ := hserves
      cases hu
      have hgrows := (run_keeps (linkedStep_keeps (n := n)) _ m l' hrest).grows
      have hgood : ∀ e ∈ m.sys.ctx.trace, e.EndsLast env := fun e he => hends e (hgrows.subset he)
      exact (hwalk m (hmid m hburst hgood) hgood).mpr hrest

theorem sampleAlert_lt : sampleAlert.length < 65536 := by decide

/- Three clients connect, two of them in one bucket.  The alert of the first one comes while its key pair is
generated, and waits for its turn. -/
def sampleWaiting : List Input :=
  [.packet 0 sampleSyn, .packet 0 { sampleSyn with srcPort := 1822 }, .packet 0 { sampleSyn with srcPort := 8 },
    .packet 0 (sampleSegment 101 5 (sampleHello [0x13, 2]) sampleHello_lt),
    .packet 0 (sampleSegment 211 5 sampleAlert sampleAlert_lt), .pkaSubmit {}, .pkaComplete 0 [zeros 32], .serve 0]

def sampleRound : Round where
  port := 0
  burst := [([.outside { rand := 7 }], { sampleSyn with srcPort := 9 })]
  between _ := [.submit {}]

def sampleLinked : Linked := linkedStart 5 8 (fun _ => none) fun _ => .first 0

theorem portRound_serves_sample : ∃ l l', run (linkedStep sampleEnv) sampleWaiting sampleLinked = .ok l
    ∧ l.sys.ctx.htTable 54 = [0, 1] ∧ portRound sampleEnv 6 sampleRound l = some (.ok l') ∧ l'.sys.active = [1, 2, 3]
    ∧ ∃ m, run (linkedStep sampleEnv) (burstInputs sampleRound) l = .ok m ∧ m.sys.active = [0, 1, 2, 3]
      ∧ run (linkedStep sampleEnv) (serveInputs sampleRound m.sys.active) m = .ok l' := by
  obtain ⟨l, hl, hbucket, hround, hburst⟩ := endsIn_ok
    (fun l : Linked => l.sys.ctx.htTable 54 = [0, 1]
      ∧ endsIn (fun l' : Linked => (∀ e ∈ l'.sys.ctx.trace, e.EndsLast sampleEnv) ∧ l'.sys.active = [1, 2, 3])
        ((portRound sampleEnv 6 sampleRound l).getD (.error .endless)) = true
      ∧ endsIn (fun m : Linked => m.sys.active = [0, 1, 2, 3])
        (run (linkedStep sampleEnv) (burstInputs sampleRound) l) = true)
    (run (linkedStep sampleEnv) sampleWaiting sampleLinked) (by decide +kernel)
  obtain ⟨l', hround, hends, hactive⟩ := endsIn_ok _ _ hround
  obtain ⟨m, hm, hbefore⟩ := endsIn_ok _ _ hburst
  have hsome : portRound sampleEnv 6 sampleRound l = some (.ok l') := by
    cases h : portRound sampleEnv 6 sampleRound l with
    | none => simp [h] at hround
    | some r => simpa [h] using hround
  obtain ⟨m', hm', hserve, -⟩ := (portRound_serves sampleEnv 5 8 6 (fun _ => none) (fun _ => .first 0) sampleWaiting
    sampleRound l l' hl hends (by decide)).mp hsome
  cases hm.symm.trans hm'
  exact ⟨l, l', hl, hbucket, hsome, hactive, m, hm, hbefore, hserve⟩

/-- In every state of a worker before which no record that ends a connection was followed by another one in its
segment, the search through the pointers finds what the search through the lists finds, and the counter of the
table is the number of connections the pointers lead to. -/
theorem links_searched (env : Env) (n ringCnt fuel : Nat) (next : ConnId → Option ConnId)
    (prev : ConnId → Link Nat ConnId) (inputs : List Input) (l : Linked) (p : Packet)
    (hrun : run (linkedStep env) inputs (linkedStart n ringCnt next prev) = .ok l)
    (hends : ∀ e ∈ l.sys.ctx.trace, e.EndsLast env) (hfuel : n < fuel) :
    HashTable.search fuel p.key { conns := l.sys.conns, htTable := l.links } = some (searchTcpConnection p l.sys)
      ∧ l.links.Represents l.sys.ctx.htTable ∧ l.sys.ctx.htCount = l.sys.active.length := by
  have hl := (run_keeps linkedStep_keeps inputs _ l hrun).keeps hends (linkedStart_inv n ringCnt next prev)
  have hlen := hl.registry.perm.length_eq
  rw [List.length_append, List.length_range] at hlen
  have hcount := hl.registry.activeCnt
  have hht := hl.registry.htCount
  refine ⟨?_, hl.represents, by omega⟩
  have hshort := Nat.lt_of_le_of_lt (hl.registry.bucket_le (calculateHash p.key)) hfuel
  rw [HashTable.search, hl.represents.foreach _ hshort]
  simp only [searchTcpConnection, htSearch_visit]
  rfl

theorem links_searched_sample : ∃ l, run (linkedStep sampleEnv) sampleWaiting sampleLinked = .ok l
    ∧ l.sys.active = [0, 1, 2] ∧ l.sys.ctx.htCount = l.sys.active.length
    ∧ HashTable.search 6 ({ sampleSyn with srcPort := 1822 } : Packet).key { conns := l.sys.conns, htTable := l.links }
      = some (.ok (some 1)) := by
  obtain ⟨l, hrun, hends, hactive, hfound⟩ := endsIn_ok
    (fun l : Linked => (∀ e ∈ l.sys.ctx.trace, e.EndsLast sampleEnv) ∧ l.sys.active = [0, 1, 2]
      ∧ endsIn (fun c => c = some 1) (searchTcpConnection { sampleSyn with srcPort := 1822 } l.sys) = true)
    (run (linkedStep sampleEnv) sampleWaiting sampleLinked) (by decide +kernel)
  obtain ⟨c, hc, rfl⟩ := endsIn_ok _ _ hfound
  obtain ⟨hsearch, -, hcount⟩ := links_searched sampleEnv 5 8 6 (fun _ => none) (fun _ => .first 0) sampleWaiting l
    { sampleSyn with srcPort := 1822 } hrun hends (by decide)
  exact ⟨l, hrun, hactive, hcount, hsearch.trans (congrArg some hc)⟩

end Xtls.Nic
