import Xtls.Nic.Conduct

/-!
# What connections do in a run

`observedStep` keeps beside the machine what every connection has done since its insertion.  A step takes
every connection along its life cycle (`step_takes`), so that an invariant of the life cycle and of
what was done holds in every run (`run_history`).
-/

namespace Xtls.Nic

/-- What connection `c` does in the step with input `x`, also if the step ends the process. -/
def deeds (env : Env) (x : Input) (s : Sys) (c : ConnId) : List Deed :=
  match x with
  | .packet port p =>
    match searchTcpConnection p s with
    | .ok (some d) => if d = c then packetDeeds env port p ⟨s.conns d, s.ctx⟩ else []
    | _ => []
  | .serve d =>
    if d = c ∧ d ∈ s.ctx.htTable (calculateHash (s.conns d).tcp) then
      serveDeeds env ⟨s.conns d, s.ctx⟩
    else []
  | _ => []

def createdBy (x : Input) (s s' : Sys) : Option (ConnId × List Deed) :=
  match x, s'.ctx.trace with
  | .packet port p, .insert c :: _ =>
    if validatePacketType port p = some .tcpSyn ∧ s'.ctx.trace.length ≠ s.ctx.trace.length then
      some (c, [.created p])
    else none
  | _, _ => none

abbrev Observed := Logged ConnId Sys Deed

def observedStep (env : Env) : Input → Observed → Except Halt Observed :=
  logStep (step env) createdBy (deeds env)

def Observed.initial (n ringCnt : Nat) : Observed := ⟨Nic.initial n ringCnt, fun _ => []⟩

structure Sys.Conducted (s : Sys) : Prop where
  facts : OpFacts s ∧ Placed s
  sound : ∀ c, (s.stage c).Sound

/-- Connection `c` does `ds` in the step from `s` to `s'`, or it is created. -/
inductive Turn (x : Input) (s : Sys) (ds : List Deed) (s' : Sys) (c : ConnId) : Prop
  | goes (old : ∀ start, createdBy x s s' ≠ some (c, start))
      (path : Path Stage.Step (s.stage c) ds (s'.stage c))
  | created {port : UInt16} {cookie : UInt32} {p : Packet} {t : Tcp} {v : Stage}
      (input : x = .packet port p) (new : createdBy x s s' = some (c, [.created p]))
      (tcp : (s'.conns c).tcp = insertedTcp port cookie p t) (out : ¬ v.listed) (sound : v.Sound)
      (stage : s'.stage c = v.created p)

/-- The connections do `ds` in a step that returns `r`. -/
structure SysTakes (x : Input) (s : Sys) (ds : ConnId → List Deed) (r : Except Halt Sys) : Prop where
  path : ∀ c, ∃ v, Path Stage.Step (s.stage c) (ds c) v
  turn : ∀ s', r = .ok s' → ∀ c, Turn x s (ds c) s' c

section

variable {env : Env} {x : Input} {s s' t : Sys} {c d : ConnId} {p : Packet} {port : UInt16}

theorem Sys.Conducted.among (hs : s.Conducted) (c : ConnId) :
    OpFacts ((⟨s.conns c, s.ctx⟩ : St).among s.conns) ∧ Placed ((⟨s.conns c, s.ctx⟩ : St).among s.conns) := by
  rw [s.among_put (hs.facts.1.ids c)]
  exact hs.facts

theorem Sys.Conducted.listed (hs : s.Conducted) : (s.stage c).listed ↔ Listed s.ctx c := by
  show Listed s.ctx (s.conns c).id ↔ _
  rw [hs.facts.1.ids c]

theorem Sys.stage_same (hconn : s'.conns c = s.conns c)
    (hl : Listed s'.ctx (s.conns c).id ↔ Listed s.ctx (s.conns c).id) : s'.stage c = s.stage c := by
  unfold Sys.stage stageOf
  rw [hconn, propext hl]

theorem Goes.put {ds : List Deed} {u : St} (hs : s.Conducted) (h : Goes ⟨s.conns c, s.ctx⟩ ds u)
    (d : ConnId) : Path Stage.Step (s.stage d) (if c = d then ds else []) ((s.put c u).stage d) := by
  split
  · rename_i hd
    subst hd
    have hconn : (s.put c u).conns c = u.conn := if_pos rfl
    have hput : (s.put c u).stage c = u.stage := by
      unfold Sys.stage
      rw [hconn]
      rfl
    rw [hput]
    exact h.path
  · rename_i hd
    have hsame : (s.put c u).stage d = s.stage d := by
      refine Sys.stage_same (if_neg fun he => hd he.symm) (h.others _ ?_)
      rw [hs.facts.1.ids d]
      exact fun he => hd (he.trans (hs.facts.1.ids c)).symm
    rw [hsame]
    exact .refl _

theorem SysQuiet.stage (hq : SysQuiet s s') (c : ConnId) : s'.stage c = s.stage c := by
  obtain ⟨hconns, out, outside, hctx⟩ := hq
  refine Sys.stage_same (congrFun hconns c) ?_
  rw [hctx]
  rfl

/-! ### Steps without a creation -/

theorem createdBy_none (h : ∀ port p, x = .packet port p → validatePacketType port p ≠ some .tcpSyn)
    (s s' : Sys) : createdBy x s s' = none := by
  unfold createdBy
  split
  · rename_i port p _ _ _
    exact if_neg fun hs => h port p rfl hs.1
  · rfl

theorem createdBy_quiet (x : Input) (hq : SysQuiet s s') : createdBy x s s' = none := by
  obtain ⟨-, out, outside, hctx⟩ := hq
  unfold createdBy
  split
  · refine if_neg fun hs => hs.2 ?_
    rw [hctx]
  · rfl

theorem SysTakes.halts (x : Input) (s : Sys) (e : Halt) : SysTakes x s (fun _ => []) (.error e) :=
  ⟨fun _ => ⟨_, .refl _⟩, fun _ h => absurd h nofun⟩

theorem SysTakes.quiet (x : Input) (hq : SysQuiet s s') : SysTakes x s (fun _ => []) (.ok s') := by
  refine ⟨fun c => ⟨_, .refl _⟩, fun t h c => ?_⟩
  cases h
  refine .goes (fun _ h => absurd ((createdBy_quiet x hq).symm.trans h) nofun) ?_
  rw [hq.stage c]
  exact .refl _

theorem SysTakes.on {f : St → Except Halt St} {ds : List Deed} (hs : s.Conducted)
    (hx : ∀ s', createdBy x s s' = none) (h : Takes ⟨s.conns c, s.ctx⟩ ds (f ⟨s.conns c, s.ctx⟩)) :
    SysTakes x s (fun d => if c = d then ds else []) (s.on c f) := by
  obtain ⟨⟨v, hp⟩, hok⟩ := h
  refine ⟨fun d => ?_, fun s' h d => .goes (fun _ h => absurd ((hx _).symm.trans h) nofun) ?_⟩
  · split
    · rename_i hd
      subst hd
      exact ⟨v, hp⟩
    · exact ⟨_, .refl _⟩
  · obtain ⟨t, ht, rfl⟩ := Sys.on_ok h
    exact (hok t ht).put hs d

theorem deeds_found {found : Option ConnId} (h : searchTcpConnection p s = .ok found) :
    deeds env (.packet port p) s = fun c => match found with
      | some d => if d = c then packetDeeds env port p ⟨s.conns d, s.ctx⟩ else []
      | none => [] := by
  funext c
  simp only [deeds, h]
  cases found <;> rfl

theorem deeds_search_error {e : Halt} (h : searchTcpConnection p s = .error e) :
    deeds env (.packet port p) s = fun _ => [] := by
  funext c
  simp only [deeds, h]

theorem onConnection_takes {f : St → Except Halt St} (hs : s.Conducted)
    (hx : ∀ s', createdBy (.packet port p) s s' = none)
    (hf : ∀ c, Listed s.ctx c → Takes ⟨s.conns c, s.ctx⟩ (packetDeeds env port p ⟨s.conns c, s.ctx⟩)
      (f ⟨s.conns c, s.ctx⟩)) :
    SysTakes (.packet port p) s (deeds env (.packet port p) s) (onConnection p f s) := by
  unfold onConnection
  cases hfound : searchTcpConnection p s with
  | error e =>
    rw [deeds_search_error hfound]
    exact .halts _ s e
  | ok found =>
    rw [deeds_found hfound]
    cases found with
    | none => exact .quiet _ (.refl s)
    | some c => exact .on hs hx (hf c (searchTcpConnection_listed hfound))

theorem SysTakes.ignored (hp : ∀ c, Path Stage.Step (s.stage c)
      (packetDeeds env port p ⟨s.conns c, s.ctx⟩) (s.stage c))
    {ret : Except Halt Sys} (hok : ∀ s', ret = .ok s' → SysQuiet s s') :
    SysTakes (.packet port p) s (deeds env (.packet port p) s) ret := by
  have hpath : ∀ c, Path Stage.Step (s.stage c) (deeds env (.packet port p) s c) (s.stage c) := by
    intro c
    simp only [deeds]
    split
    · split
      · rename_i hd
        subst hd
        exact hp _
      · exact .refl _
    · exact .refl _
  refine ⟨fun c => ⟨_, hpath c⟩, fun s' h c => ?_⟩
  have hq := hok s' h
  refine .goes (fun _ h => absurd ((createdBy_quiet _ hq).symm.trans h) (by simp)) ?_
  rw [hq.stage c]
  exact hpath c

theorem mem_deeds {e : Deed} (hd : e ∈ deeds env x s c) :
    (∃ port p, x = .packet port p ∧ searchTcpConnection p s = .ok (some c)
      ∧ PacketDeed p ⟨s.conns c, s.ctx⟩ (validatePacketType port p) e)
    ∨ x = .serve c ∧ ServeDeed e := by
  cases x with
  | packet port p =>
    simp only [deeds] at hd
    split at hd
    · rename_i d hfound
      split at hd
      · rename_i hc
        subst hc
        exact .inl ⟨port, p, rfl, hfound, mem_typeDeeds hd⟩
      · exact absurd hd List.not_mem_nil
    · exact absurd hd List.not_mem_nil
  | serve d =>
    simp only [deeds] at hd
    split at hd
    · rename_i hc
      obtain ⟨rfl, -⟩ := hc
      exact .inr ⟨rfl, mem_serveDeeds hd⟩
    · exact absurd hd List.not_mem_nil
  | pkaSubmit priv => exact absurd hd List.not_mem_nil
  | pkaComplete o results => exact absurd hd List.not_mem_nil
  | outside o => exact absurd hd List.not_mem_nil

/-! ### Connections that a SYN creates -/

theorem Inserted.stage_old (hi : Inserted c s s') (hs : ∀ d, (s.conns d).id = d) (hd : d ≠ c) :
    s'.stage d = s.stage d := by
  refine Sys.stage_same (hi.others d hd) ?_
  rw [hs d]
  constructor
  · rintro ⟨b, hb⟩
    exact ⟨b, ((hi.mem d b).mp hb).resolve_right fun h => hd h.1⟩
  · rintro ⟨b, hb⟩
    exact ⟨b, (hi.mem d b).mpr (.inl hb)⟩

theorem Inserted.stage_new {cookie : UInt32} (hi : Inserted c s s') (hs : (s.conns c).id = c)
    (htcp : (s'.conns c).tcp = insertedTcp port cookie p (s.conns c).tcp) :
    s'.stage c = (s.stage c).created p := by
  have hc : s'.conns c = { s.conns c with tcp := insertedTcp port cookie p (s.conns c).tcp } := by
    obtain ⟨port', cookie', p', hc⟩ := hi.conn
    rw [← htcp, hc]
  have hlisted : Listed s'.ctx (s'.conns c).id = True := by
    rw [hc]
    exact eq_true ⟨_, (hi.mem _ _).mpr (.inr ⟨hs, rfl⟩)⟩
  have hstage : s'.stage c = { stageOf s'.ctx (s'.conns c) with listed := True } := by
    rw [← hlisted]
    rfl
  rw [hstage, hc]
  rfl

theorem Inserted.created {port : UInt16} {u : Sys} (hi : Inserted c s u) (hq : SysQuiet u s')
    (hsyn : validatePacketType port p = some .tcpSyn) (htrace : t.ctx.trace.length ≤ s.ctx.trace.length) :
    createdBy (.packet port p) t s' = some (c, [.created p]) := by
  obtain ⟨-, out, outside, hctx⟩ := hq
  have htr : s'.ctx.trace = .insert c :: s.ctx.trace := by
    rw [hctx, hi.ctx]
  unfold createdBy
  rw [htr]
  refine if_pos ⟨hsyn, ?_⟩
  rw [List.length_cons]
  omega

theorem Inserted.turn {u : Sys} (hi : Inserted c s u) (hq : SysQuiet u s')
    (hids : ∀ d, (s.conns d).id = d) (hout : ¬ Listed s.ctx c) (hv : (s.stage c).Sound)
    (htcp : ∃ cookie, (u.conns c).tcp = insertedTcp port cookie p (s.conns c).tcp)
    (hnew : createdBy (.packet port p) t s' = some (c, [.created p])) {ds : ConnId → List Deed}
    (hold : ∀ d, d ≠ c → Path Stage.Step (t.stage d) (ds d) (s.stage d)) (d : ConnId) :
    Turn (.packet port p) t (ds d) s' d := by
  by_cases hd : d = c
  · subst hd
    obtain ⟨cookie, htcp⟩ := htcp
    refine .created rfl hnew (hq.1 ▸ htcp) ?_ hv ?_
    · show ¬ Listed s.ctx (s.conns d).id
      rw [hids d]
      exact hout
    · rw [hq.stage d, hi.stage_new (hids d) htcp]
  · refine .goes (fun start h => hd ?_) ?_
    · rw [hnew] at h
      cases h
      rfl
    · rw [hq.stage d, hi.stage_old hids hd]
      exact hold d hd

theorem processSynPacket_takes (hs : s.Conducted) (hsyn : validatePacketType port p = some .tcpSyn) :
    SysTakes (.packet port p) s (deeds env (.packet port p) s) (processSynPacket env port p s) := by
  have hpacket : ∀ c, packetDeeds env port p ⟨s.conns c, s.ctx⟩
      = if p.seq + 1 = (s.conns c).tcp.lastRecvSeq then [] else (s.stage c).loses := by
    intro c
    rw [packetDeeds, hsyn]
    rfl
  constructor
  · intro c
    simp only [deeds]
    split
    · rename_i d hfound
      split
      · rename_i hd
        subst hd
        rw [hpacket]
        split
        · exact ⟨_, .refl _⟩
        · exact ⟨_, .single (.remove _)⟩
      · exact ⟨_, .refl _⟩
    · exact ⟨_, .refl _⟩
  · intro s' h
    cases processSynPacket_cases h with
    | @creates c u _ hfound hu hq =>
      rw [deeds_found hfound]
      obtain ⟨hi, htcp⟩ := insertTcpConnection_inserted hu
      exact hi.turn hq hs.facts.1.ids (hs.facts.2.unlisted hi) (hs.sound c) htcp
        (hi.created hq hsyn (Nat.le_refl _)) fun d _ => .refl _
    | @answers c _ hfound hsame hq =>
      simp only [deeds_found hfound, hpacket, if_pos hsame, ite_self]
      exact (SysTakes.quiet _ hq).turn s' rfl
    | @replaces c d t u _ hfound hnew ht hq hv =>
      simp only [deeds_found hfound, hpacket, if_neg hnew]
      obtain ⟨hi, htcp⟩ := insertTcpConnection_inserted hv
      have hrem := removeSession_removed ht
      have hput := Placed.put (readRule_placed.removed _ _ hrem) hs.facts
      have hpath : ∀ i, Path Stage.Step (s.stage i) (if c = i then (s.stage c).loses else []) (u.stage i) := by
        intro i
        rw [hq.stage i]
        refine (hrem.goes (hs.among c) (hs.sound c) ?_).put hs i
        exact hs.listed.mpr (searchTcpConnection_listed hfound)
      refine hi.turn (.refl s') ?_ ((hput.2.quiet hq).unlisted hi) ?_ htcp ?_ fun i _ => hpath i
      · intro i
        rw [hq.1]
        exact hput.1.ids i
      · exact Stage.path_sound (hpath d) (hs.sound d)
      · refine hi.created (.refl s') hsyn ?_
        obtain ⟨-, out, outside, hctx⟩ := hq
        rw [hctx]
        exact hrem.grows.length_le

/-! ### Every step -/

theorem processPacket_takes (env : Env) (hs : s.Conducted) (port : UInt16) (p : Packet) :
    SysTakes (.packet port p) s (deeds env (.packet port p) s) (processPacket env port p s) := by
  have hlisted : ∀ c, Listed s.ctx c → Listed s.ctx (s.conns c).id := fun c => hs.listed.mpr
  have hnone : ∀ k, validatePacketType port p = k → k ≠ some .tcpSyn →
      ∀ s', createdBy (.packet port p) s s' = none := by
    rintro k rfl hk s'
    refine createdBy_none (fun port p h => ?_) s s'
    cases h
    exact hk
  have hpacket : ∀ s k, validatePacketType port p = k →
      packetDeeds env port p s = typeDeeds env p s k := by
    rintro s k rfl
    rfl
  unfold processPacket
  split
  · rename_i hk
    refine onConnection_takes hs (hnone _ hk nofun) fun c hl => ?_
    rw [hpacket _ _ hk]
    exact processHandshakePacket_takes env p (hs.among c) (hs.sound c) (hlisted c hl)
  · rename_i hk
    exact processSynPacket_takes hs hk
  · rename_i hk
    refine onConnection_takes hs (hnone _ hk nofun) fun c hl => ?_
    rw [hpacket _ _ hk]
    exact processAckPacket_takes p (hlisted c hl)
  · rename_i hk
    refine onConnection_takes hs (hnone _ hk nofun) fun c hl => ?_
    rw [hpacket _ _ hk]
    exact (processHostMigFin_goes p (hlisted c hl)).takes
  · rename_i hk
    refine onConnection_takes hs (hnone _ hk nofun) fun c hl => ?_
    rw [hpacket _ _ hk]
    exact (processHostClose_goes p _).takes
  · rename_i hk
    refine .ignored (fun c => ?_) fun _ h => processFinPacket_quiet h
    rw [hpacket _ _ hk]
    exact clientEnds_path ⟨s.conns c, s.ctx⟩
  · rename_i hk
    refine .ignored (fun c => ?_) fun _ h => processRstPacket_quiet h
    rw [hpacket _ _ hk]
    exact clientEnds_path ⟨s.conns c, s.ctx⟩
  · rename_i hk
    refine .ignored (fun c => ?_) fun _ h => Except.ok.inj h ▸ .refl s
    rw [hpacket _ _ hk]
    exact .refl _
  · rename_i hk
    refine .ignored (fun c => ?_) fun _ h => Except.ok.inj h ▸ .refl s
    rw [hpacket _ _ hk]
    exact .refl _

theorem Sys.stage_setConn {f : Session → Session} (hconns : s'.conns = (s.setConn c f).conns)
    (hf : (f (s.conns c).sess).staged = (s.conns c).sess.staged)
    (htable : s'.ctx.htTable = s.ctx.htTable) (d : ConnId) : s'.stage d = s.stage d := by
  have hlisted : ∀ i, Listed s'.ctx i = Listed s.ctx i := fun i => by
    unfold Listed
    rw [htable]
  unfold Sys.stage
  rw [hconns]
  by_cases hd : d = c
  · subst hd
    simp only [Session.staged, Session.counters, Prod.mk.injEq] at hf
    obtain ⟨h1, h2, h3, ⟨h4, h5⟩, h6, h7⟩ := hf
    simp only [Sys.setConn, if_true, stageOf, hlisted, h1, h2, h3, h4, h5, h6, h7]
  · simp only [Sys.setConn, if_neg hd, stageOf, hlisted]

theorem SysTakes.still (hx : ∀ s', createdBy x s s' = none) {ret : Except Halt Sys}
    (h : ∀ s', ret = .ok s' → ∀ c, s'.stage c = s.stage c) : SysTakes x s (fun _ => []) ret := by
  refine ⟨fun c => ⟨_, .refl _⟩, fun s' hs c => ?_⟩
  refine .goes (fun _ h => absurd ((hx s').symm.trans h) nofun) ?_
  rw [h s' hs c]
  exact .refl _

theorem step_takes (env : Env) (hs : s.Conducted) (x : Input) :
    SysTakes x s (deeds env x s) (step env x s) := by
  cases x with
  | packet port p => exact processPacket_takes env hs port p
  | serve c =>
    simp only [step]
    split
    · rename_i hmem
      have hdeeds : deeds env (.serve c) s
          = fun d => if c = d then serveDeeds env ⟨s.conns c, s.ctx⟩ else [] := by
        funext d
        simp only [deeds, hmem, and_true]
      rw [hdeeds]
      refine .on hs (fun _ => rfl) (serveConnection_takes env (hs.among c) (hs.sound c) ?_)
      exact hs.listed.mpr ⟨_, hmem⟩
    · rename_i hmem
      have hdeeds : deeds env (.serve c) s = fun _ => [] := by
        funext d
        simp only [deeds, hmem, and_false, if_false]
      rw [hdeeds]
      exact .quiet _ (.refl s)
  | pkaSubmit priv =>
    refine .still (fun _ => rfl) fun s' h c => ?_
    rcases handleSubmittedPka_cases h with rfl | ⟨o, ring, d, -, -, -, -, hconns, hctx⟩
    · rfl
    · exact Sys.stage_setConn hconns rfl (by rw [hctx]; rfl) c
  | pkaComplete o results =>
    refine .still (fun _ => rfl) fun s' h c => ?_
    rcases handleCompletedPka_cases h with rfl | ⟨d, -, -, ⟨-, hconns, hctx⟩ | ⟨-, -, hconns, hctx⟩⟩
    · rfl
    all_goals exact Sys.stage_setConn hconns rfl (by rw [hctx]) c
  | outside o => exact .quiet _ ⟨rfl, _, _, rfl⟩

theorem Turn.sound {ds : List Deed} (h : Turn x s ds s' c) (hs : (s.stage c).Sound) :
    (s'.stage c).Sound := by
  cases h with
  | goes _ hp => exact Stage.path_sound hp hs
  | created _ _ _ hout hv hstage =>
    rw [hstage]
    exact hv.created hout _

theorem step_conducted (x : Input) (s s' : Sys) (h : step env x s = .ok s') (hs : s.Conducted) :
    s'.Conducted where
  facts := step_placed x s s' h hs.facts
  sound c := ((step_takes env hs x).turn s' h c).sound (hs.sound c)

end

/-! ### Every run -/

theorem initial_stage (n ringCnt : Nat) (c : ConnId) : (initial n ringCnt).stage c = .removed := by
  have hout : Listed (initial n ringCnt).ctx ((initial n ringCnt).conns c).id = False :=
    propext (iff_of_false (fun ⟨_, h⟩ => absurd h List.not_mem_nil) not_false)
  unfold Sys.stage stageOf
  rw [hout]
  rfl

theorem Stage.removed_sound : Stage.removed.Sound :=
  ⟨fun _ => ⟨rfl, .inl rfl⟩, .inr rfl, ⟨rfl, rfl⟩, fun h => absurd h nofun, fun h => absurd h nofun⟩

theorem initial_conducted (n ringCnt : Nat) : (initial n ringCnt).Conducted where
  facts := ⟨initial_opFacts n ringCnt, initial_placed n ringCnt⟩
  sound c := by
    rw [initial_stage]
    exact Stage.removed_sound

section

variable {env : Env} {I : List Deed → Stage → Prop} {L L' : Observed} {x : Input} {n ringCnt : Nat}
  {inputs : List Input}

/-- An invariant of a connection's life cycle and of what it has done since its insertion. -/
structure LifeRule (I : List Deed → Stage → Prop) : Prop where
  initial : I [] .removed
  created : ∀ p (v : Stage), v.Sound → ¬ v.listed → I [.created p] (v.created p)
  step : ∀ log (v : Stage) ds v', v.Sound → v.Step ds v' → I log v → I (log ++ ds) v'

def Observed.Obeys (I : List Deed → Stage → Prop) (L : Observed) : Prop :=
  L.state.Conducted ∧ ∀ c, I (L.log c) (L.state.stage c)

theorem LifeRule.path {v v' : Stage} {log ds : List Deed} (hI : LifeRule I)
    (hp : Path Stage.Step v ds v') (hv : v.Sound) (h : I log v) : I (log ++ ds) v' := by
  refine (hp.history (I := fun log v => v.Sound ∧ I log v) ?_ ⟨hv, h⟩).2
  exact fun log v ds v' hs h => ⟨hs.sound h.1, hI.step log v ds v' h.1 hs h.2⟩

theorem LifeRule.observed (hI : LifeRule I) (x : Input) (L L' : Observed)
    (h : observedStep env x L = .ok L') (hL : L.Obeys I) : L'.Obeys I := by
  obtain ⟨hs, hfresh, hold⟩ := logStep_ok h
  refine ⟨step_conducted x _ _ hs hL.1, fun c => ?_⟩
  cases (step_takes env hL.1 x).turn _ hs c with
  | goes hnot hp =>
    rw [hold c hnot]
    exact hI.path hp (hL.1.sound c) (hL.2 c)
  | created _ hnew _ hout hv hstage =>
    rw [hfresh c _ hnew, hstage]
    exact hI.created _ _ hv hout

theorem run_observed (h : run (observedStep env) inputs (.initial n ringCnt) = .ok L) :
    run (step env) inputs (initial n ringCnt) = .ok L.state := by
  have hlog : (run (observedStep env) inputs (.initial n ringCnt)).map Logged.state
      = run (step env) inputs (initial n ringCnt) := run_logStep inputs _
  rw [← hlog, h]
  rfl

theorem run_obeys (hI : LifeRule I) (h : run (observedStep env) inputs (.initial n ringCnt) = .ok L) :
    L.Obeys I := by
  refine run_invariant hI.observed inputs _ L h ⟨initial_conducted n ringCnt, fun c => ?_⟩
  rw [show (Observed.initial n ringCnt).state.stage c = .removed from initial_stage n ringCnt c]
  exact hI.initial

/-- The invariant also holds with what a connection does in a step that ends the process. -/
theorem run_deeds (hI : LifeRule I) (h : run (observedStep env) inputs (.initial n ringCnt) = .ok L)
    (x : Input) (c : ConnId) : ∃ v, I (L.log c ++ deeds env x L.state c) v := by
  have hL := run_obeys hI h
  obtain ⟨v, hp⟩ := (step_takes env hL.1 x).path c
  exact ⟨v, hI.path hp (hL.1.sound c) (hL.2 c)⟩

/-- What every deed of a connection satisfies, if its steps are `ready`. -/
theorem run_deeds_along {P : Deed → Prop} {ready : Input → Sys → Prop} {c : ConnId}
    (hP : ∀ x s, s.Conducted → ready x s → ∀ d ∈ deeds env x s c, P d) (hcreated : ∀ p, P (.created p))
    (ha : Along (observedStep env) (fun x L => ready x L.state) inputs (.initial n ringCnt))
    (h : run (observedStep env) inputs (.initial n ringCnt) = .ok L) : ∀ d ∈ L.log c, P d := by
  have hstep : ∀ x (L L' : Observed), ready x L.state → observedStep env x L = .ok L' →
      L.state.Conducted ∧ (∀ d ∈ L.log c, P d) → L'.state.Conducted ∧ ∀ d ∈ L'.log c, P d := by
    intro x L L' hx hs ⟨hc, hlog⟩
    obtain ⟨hok, hfresh, hold⟩ := logStep_ok hs
    refine ⟨step_conducted x _ _ hok hc, fun d hd => ?_⟩
    cases (step_takes env hc x).turn _ hok c with
    | goes hnot =>
      rw [hold c hnot] at hd
      exact (List.mem_append.mp hd).elim (hlog d) (hP x L.state hc hx d)
    | created _ hnew =>
      rw [hfresh c _ hnew] at hd
      rw [List.mem_singleton.mp hd]
      exact hcreated _
  exact (run_along hstep inputs _ L ha h
    ⟨initial_conducted n ringCnt, fun d hd => absurd hd List.not_mem_nil⟩).2

end

end Xtls.Nic
