import Xtls.Nic.OpFacts

/-!
# Where a connection is found

In every run an active connection is in the bucket of its address, there once, and no two active
connections have the same address (`tcp.c` 1474-1543, 2261-2335, 2797-2891, `fhash.c`).  A packet of a
connection is therefore handed to that connection.
-/

namespace Xtls.Nic

structure Placed (s : Sys) : Prop where
  nodup : ∀ b, (s.ctx.htTable b).Nodup
  placed : ∀ b, ∀ c ∈ s.ctx.htTable b, b = calculateHash (s.conns c).tcp
    ∧ (s.conns c).tcp.state ≠ .idle
  unique : ∀ c d, Listed s.ctx c → Listed s.ctx d →
    (s.conns c).tcp.addr = (s.conns d).tcp.addr → c = d

/-! ### The search -/

section

variable {s s' : Sys} {c d : ConnId} {p : Packet} {conns : ConnId → Conn} {k : Tcp}
  {cs : List ConnId}

theorem addr_eq_iff (t k : Tcp) : t.addr = k.addr ↔
    t.clientIp = k.clientIp ∧ t.clientPort = k.clientPort ∧ t.serverIp = k.serverIp
      ∧ t.serverPort = k.serverPort := by
  simp only [Tcp.addr, Prod.mk.injEq]

theorem htSearch_addr (h : htSearch conns k cs = .ok (some c)) :
    (conns c).tcp.addr = k.addr := by
  induction cs with
  | nil => cases h
  | cons d ds ih =>
    unfold htSearch at h
    dsimp only at h
    split at h
    · cases h
    · split at h
      · rename_i hkey
        cases h
        exact (addr_eq_iff _ _).mpr hkey
      · exact ih h

theorem htSearch_complete (hlive : ∀ d ∈ cs, (conns d).tcp.state ≠ .idle) (hc : c ∈ cs)
    (haddr : (conns c).tcp.addr = k.addr)
    (honly : ∀ d ∈ cs, (conns d).tcp.addr = k.addr → d = c) :
    htSearch conns k cs = .ok (some c) := by
  induction cs with
  | nil => cases hc
  | cons d ds ih =>
    unfold htSearch
    dsimp only
    rw [if_neg (hlive d List.mem_cons_self)]
    split
    · rename_i hkey
      rw [honly d List.mem_cons_self ((addr_eq_iff _ _).mpr hkey)]
    · rename_i hkey
      have hne : c ≠ d := fun he => hkey ((addr_eq_iff _ _).mp (he ▸ haddr))
      exact ih (fun x hx => hlive x (List.mem_cons_of_mem d hx)) ((List.mem_cons.mp hc).resolve_left hne)
        fun x hx => honly x (List.mem_cons_of_mem d hx)

def Packet.key (p : Packet) : Tcp :=
  { clientIp := p.srcIp, clientPort := p.srcPort, serverIp := p.dstIp, serverPort := p.dstPort }

theorem searchTcpConnection_addr (h : searchTcpConnection p s = .ok (some c)) :
    (s.conns c).tcp.addr = p.addr :=
  htSearch_addr (k := p.key) h

theorem Placed.bucket (h : Placed s) (hc : Listed s.ctx c) :
    c ∈ s.ctx.htTable (calculateHash (s.conns c).tcp) := by
  obtain ⟨b, hb⟩ := hc
  exact (h.placed b c hb).1 ▸ hb

theorem Placed.live (h : Placed s) (hc : Listed s.ctx c) : (s.conns c).tcp.state ≠ .idle :=
  (h.placed _ c (h.bucket hc)).2

theorem Placed.search (h : Placed s) (hc : Listed s.ctx c) (hp : (s.conns c).tcp.addr = p.addr) :
    searchTcpConnection p s = .ok (some c) := by
  have hkey : (s.conns c).tcp.addr = p.key.addr := hp
  have hmem : c ∈ s.ctx.htTable (calculateHash p.key) := by
    rw [← calculateHash_addr hkey]
    exact h.bucket hc
  refine htSearch_complete (fun d hd => (h.placed _ d hd).2) hmem hkey fun d hd hdk => ?_
  exact h.unique d c ⟨_, hd⟩ hc (hdk.trans hkey.symm)

theorem Placed.search_none (h : Placed s) (hp : searchTcpConnection p s = .ok none)
    (hc : Listed s.ctx c) : (s.conns c).tcp.addr ≠ p.addr := by
  intro he
  rw [h.search hc he] at hp
  cases hp

end

/-! ### One connection -/

/-- The connection stays where it is, and only its sending side is written. -/
structure Stays (s s' : St) : Prop where
  id : s'.conn.id = s.conn.id
  tcp : s'.conn.tcp.core = s.conn.tcp.core
  live : s.conn.tcp.state ≠ .idle → s'.conn.tcp.state ≠ .idle
  table : s'.ctx.htTable = s.ctx.htTable

section

variable {env : Env} {s s' t : St} {o : OpId} {fill : Op} {r : Record} {others : ConnId → Conn}

theorem Stays.refl (s : St) : Stays s s := ⟨rfl, rfl, fun h => h, rfl⟩

theorem Stays.trans (h1 : Stays s t) (h2 : Stays t s') : Stays s s' :=
  ⟨h2.id.trans h1.id, h2.tcp.trans h1.tcp, fun h => h2.live (h1.live h), h2.table.trans h1.table⟩

theorem SendFrame.stays (hf : SendFrame s s') : Stays s s' where
  id := hf.id
  tcp := hf.tcp
  live h := by
    rcases hf.tcpState with hst | hst <;> rw [hst]
    · exact h
    · exact nofun
  table := hf.htTable

theorem Submits.stays (hsub : Submits fill o s s') : Stays s s' where
  id := hsub.id
  tcp := by rw [hsub.tcp]
  live h := by rw [hsub.tcp]; exact h
  table := (congrArg Ctx.htTable hsub.ctx :)

theorem request_stays (h : (∃ o, Rejects o s s') ∨ ∃ o, Submits fill o s s') : Stays s s' := by
  rcases h with ⟨o, hrej⟩ | ⟨o, hsub⟩
  · exact hrej.frame.stays
  · exact hsub.stays

theorem mapSess_stays (f : Session → Session) (s : St) : Stays s (s.mapSess f) :=
  ⟨rfl, rfl, fun h => h, rfl⟩

theorem finishCrypto_stays (o : OpId) (s : St) : Stays s (finishCrypto o s) :=
  ⟨rfl, rfl, fun h => h, rfl⟩

theorem answerClientHello_stays {ch : ClientHello} (h : answerClientHello env r ch s = .ok s') :
    Stays s s' := by
  obtain ⟨off, s1, s2, -, hf, hreq, rfl⟩ := answerClientHello_cases h
  have hset : Stays s (setPendingSp r ch (slice r.pf off x25519KeyLen) s) := ⟨rfl, rfl, fun h => h, rfl⟩
  have hrequest : Stays s1 (sharedSecretRequest (slice r.pf off x25519KeyLen) s1) :=
    ⟨rfl, rfl, fun h => h, rfl⟩
  exact hset.trans <| hf.stays.trans <| hrequest.trans <|
    (request_stays hreq).trans (mapSess_stays _ s2)

theorem CryptoOutcome.stays (h : CryptoOutcome env s s') : Stays s s' := by
  cases h with
  | idle => exact .refl s
  | @keyGen o r ch t u _ _ _ _ _ hf ha =>
    have hkey : Stays s t := (mapSess_stays _ s).trans <| (mapSess_stays _ _).trans hf.stays
    exact hkey.trans <| (answerClientHello_stays ha).trans <|
      (deleteRecord_frame r u).stays.trans (finishCrypto_stays o _)
  | sharedSecret => exact (mapSess_stays _ s).trans <| (mapSess_stays _ _).trans (finishCrypto_stays _ _)
  | signature => exact (mapSess_stays _ s).trans <| (mapSess_stays _ _).trans (finishCrypto_stays _ _)

theorem RemainOutcome.stays (h : RemainOutcome env s s') : Stays s s' := by
  cases h with
  | idle => exact .refl s
  | @certificate s1 s2 _ _ _ hf hf' hreq =>
    have hcert : Stays s s2 := hf.stays.trans <| (mapSess_stays _ s1).trans hf'.stays
    have hrequest : Stays s2 (signatureRequest env s2) := ⟨rfl, rfl, fun h => h, rfl⟩
    exact hcert.trans (hrequest.trans (request_stays hreq))
  | @finished s1 s2 port _ _ hf hf' =>
    have hfin : Stays s s2 := hf.stays.trans <| (mapSess_stays _ s1).trans hf'.stays
    have hkeys : Stays s2 (handleVerifyDataCalculation env (handleAppKeysCalculation env s2)) :=
      ⟨rfl, rfl, fun h => h, rfl⟩
    exact hfin.trans <| hkeys.trans (sendKeyMeta_frame env port _).stays
  | @pending s1 _ _ hf => exact hf.stays.trans (mapSess_stays _ s1)

theorem Placed.same (h : Placed (s.among others)) (hid : s'.conn.id = s.conn.id)
    (haddr : s'.conn.tcp.addr = s.conn.tcp.addr)
    (hlive : s.conn.tcp.state ≠ .idle → s'.conn.tcp.state ≠ .idle)
    (htable : s'.ctx.htTable = s.ctx.htTable) : Placed (s'.among others) := by
  have hconn : ∀ c, ((s'.among others).conns c).tcp.addr = ((s.among others).conns c).tcp.addr
      ∧ (((s.among others).conns c).tcp.state ≠ .idle →
        ((s'.among others).conns c).tcp.state ≠ .idle) := by
    intro c
    by_cases hc : c = s.conn.id
    · rw [hc, s.among_self, ← hid, s'.among_self]
      exact ⟨haddr, hlive⟩
    · rw [s.among_ne hc, s'.among_ne (hid ▸ hc)]
      exact ⟨rfl, fun h => h⟩
  have hlisted : ∀ c, Listed s'.ctx c → Listed s.ctx c := fun c ⟨b, hb⟩ => ⟨b, htable ▸ hb⟩
  refine ⟨fun b => ?_, fun b c hc => ?_, fun c d hc hd he => ?_⟩
  · show (s'.ctx.htTable b).Nodup
    rw [htable]
    exact h.nodup b
  · obtain ⟨hash, hl⟩ := h.placed b c (show c ∈ s.ctx.htTable b from htable ▸ hc)
    exact ⟨hash.trans (calculateHash_addr (hconn c).1).symm, (hconn c).2 hl⟩
  · rw [(hconn c).1, (hconn d).1] at he
    exact h.unique c d (hlisted c hc) (hlisted d hd) he

theorem Placed.stays (h : Placed (s.among others)) (hs : Stays s s') : Placed (s'.among others) :=
  h.same hs.id (congrArg Tcp.addr hs.tcp :) hs.live hs.table

theorem Placed.moves (h : Placed (s.among others)) {f : Tcp → Tcp}
    (hm : TcpMove s.conn.tcp (f s.conn.tcp)) : Placed ((s.mapTcp f).among others) := by
  refine h.same rfl hm.addr (fun hl => ?_) rfl
  rcases hm.state with hst | hst <;> rw [St.mapTcp_tcp, hst]
  · exact hl
  · exact nofun

theorem Placed.erased (h : Placed (s.among others)) (hr : Removed s s') (c : ConnId) (b : Nat) :
    c ∈ s'.ctx.htTable b ↔ c ≠ s.conn.id ∧ c ∈ s.ctx.htTable b := by
  rw [hr.table]
  simp only [htRemove]
  split
  · rename_i hb
    exact (h.nodup b).mem_erase_iff
  · rename_i hb
    refine ⟨fun hc => ⟨fun he => hb ?_, hc⟩, fun hc => hc.2⟩
    -- a connection is in no other bucket than that of its address
    have hplace := (h.placed b c hc).1
    rwa [he, s.among_self] at hplace

theorem Placed.removed (h : Placed (s.among others)) (hr : Removed s s') :
    Placed (s'.among others) := by
  have hother : ∀ c b, c ∈ s'.ctx.htTable b →
      (s'.among others).conns c = (s.among others).conns c ∧ c ∈ s.ctx.htTable b := by
    intro c b hc
    obtain ⟨hne, hc⟩ := (h.erased hr c b).mp hc
    rw [s.among_ne hne, s'.among_ne (hr.id ▸ hne)]
    exact ⟨rfl, hc⟩
  refine ⟨fun b => ?_, fun b c hc => ?_, ?_⟩
  · show (s'.ctx.htTable b).Nodup
    rw [hr.table]
    simp only [htRemove]
    split
    · exact (h.nodup b).erase _
    · exact h.nodup b
  · obtain ⟨he, hc⟩ := hother c b hc
    rw [he]
    exact h.placed b c hc
  · rintro c d ⟨b, hc⟩ ⟨b', hd⟩ he
    obtain ⟨hec, hc⟩ := hother c b hc
    obtain ⟨hed, hd⟩ := hother d b' hd
    rw [hec, hed] at he
    exact h.unique c d ⟨b, hc⟩ ⟨b', hd⟩ he

theorem readRule_placed : ReadRule (Carries (fun _ => True) fun s => OpFacts s ∧ Placed s) where
  refl := .refl
  trans := .trans
  call rest r s := (readRule_opFacts.call rest r s).and fun _ _ hid _ _ h => h.same hid rfl (fun h => h) rfl
  complete r s := (readRule_opFacts.complete r s).and fun _ _ hid _ _ h => h.same hid rfl (fun h => h) rfl
  queues s cur q := (readRule_opFacts.queues s cur q).and fun _ _ _ _ _ h => h.stays (mapSess_stays _ s)
  frame _ _ hf := (readRule_opFacts.frame _ _ hf).and fun _ _ _ _ _ h => h.stays hf.stays
  hello _ _ r ch o hw hst hr hn hsub :=
    (readRule_opFacts.hello _ _ r ch o hw hst hr hn hsub).and fun _ _ _ _ _ h => h.stays hsub.stays
  spec s hst := (readRule_opFacts.spec s hst).and fun _ _ _ _ _ h => h.stays (mapSess_stays _ s)
  finish s hst :=
    (readRule_opFacts.finish s hst).and fun _ _ hid _ _ h => h.same hid rfl (fun h => h) rfl
  removed s s' hr := (readRule_opFacts.removed s s' hr).and fun _ _ _ _ _ h => h.removed hr

theorem closed_placed (env : Env) :
    Closed env (Carries (fun _ => True) fun s => OpFacts s ∧ Placed s) := by
  refine readRule_placed.closed (fun s x => ?_) (fun s f hm => ?_) (fun s s' hc => ?_) fun s s' hr => ?_
  · exact (emit_opFacts s x).and fun _ _ hid _ _ h => h.same hid rfl (fun h => h) rfl
  · exact (mapTcp_opFacts s f).and fun _ _ _ _ _ h => h.moves hm
  · exact ((closed_opFacts env).crypto s s' hc).and fun _ _ _ ho _ h =>
      h.stays (getProcessedCrypto_outcome ho.core.hello hc).stays
  · exact ((closed_opFacts env).remain s s' hr).and fun _ _ _ _ _ h => h.stays hr.stays

end

/-! ### The whole worker -/

section

variable {env : Env} {s s' : Sys} {c : ConnId} {p : Packet}

theorem Placed.keep (h : Placed s) (htable : s'.ctx.htTable = s.ctx.htTable)
    (htcp : ∀ c, (s'.conns c).tcp = (s.conns c).tcp) : Placed s' := by
  refine ⟨fun b => ?_, fun b c hc => ?_, ?_⟩
  · rw [htable]
    exact h.nodup b
  · rw [htcp]
    exact h.placed b c (htable ▸ hc)
  · rintro c d ⟨b, hc⟩ ⟨b', hd⟩ he
    rw [htcp, htcp] at he
    exact h.unique c d ⟨b, htable ▸ hc⟩ ⟨b', htable ▸ hd⟩ he

theorem Placed.quiet (h : Placed s) (hq : SysQuiet s s') : Placed s' := by
  obtain ⟨hconns, out, outside, hctx⟩ := hq
  exact h.keep (by rw [hctx]) fun c => by rw [hconns]

theorem setConn_tcp {f : Session → Session} (hconns : s'.conns = (s.setConn c f).conns) (i : ConnId) :
    (s'.conns i).tcp = (s.conns i).tcp := by
  rw [hconns]
  by_cases hi : i = c <;> simp [Sys.setConn, hi]

theorem Placed.submitted {priv : Operand} (h : Placed s) (hs : handleSubmittedPka priv s = .ok s') :
    Placed s' := by
  rcases handleSubmittedPka_cases hs with rfl | ⟨o, ring, d, -, -, -, -, hconns, hctx⟩
  · exact h
  · exact h.keep (by rw [hctx]; rfl) (setConn_tcp hconns)

theorem Placed.completes {o : OpId} {results : List Bytes} (h : Placed s)
    (hs : handleCompletedPka o results s = .ok s') : Placed s' := by
  rcases handleCompletedPka_cases hs with rfl | ⟨d, -, -, ⟨-, hconns, hctx⟩ | ⟨-, -, hconns, hctx⟩⟩
  · exact h
  all_goals exact h.keep (by rw [hctx]) (setConn_tcp hconns)

theorem Inserted.mem (hi : Inserted c s s') (d : ConnId) (b : Nat) : d ∈ s'.ctx.htTable b ↔
    d ∈ s.ctx.htTable b ∨ d = c ∧ b = calculateHash (s'.conns c).tcp := by
  rw [hi.ctx]
  simp only [htInsert]
  split
  · rename_i hb
    simp [hb]
  · rename_i hb
    simp [hb]

/- An inserted connection was in no bucket: it was idle. -/
theorem Placed.unlisted (h : Placed s) (hi : Inserted c s s') : ¬ Listed s.ctx c :=
  fun hc => h.live hc hi.idle

theorem Placed.inserted (h : Placed s) (hi : Inserted c s s')
    (hnew : ∀ d, Listed s.ctx d → (s.conns d).tcp.addr ≠ (s'.conns c).tcp.addr) : Placed s' := by
  have hout := h.unlisted hi
  have hold : ∀ d, Listed s.ctx d → s'.conns d = s.conns d := fun d hd =>
    hi.others d fun he => hout (he ▸ hd)
  have hlisted : ∀ d, Listed s'.ctx d → Listed s.ctx d ∨ d = c := fun d ⟨b, hb⟩ =>
    ((hi.mem d b).mp hb).imp (fun h => ⟨b, h⟩) (fun h => h.1)
  have hlive : (s'.conns c).tcp.state ≠ .idle := by
    obtain ⟨port, cookie, q, hc⟩ := hi.conn
    rw [hc]
    exact nofun
  refine ⟨fun b => ?_, fun b d hd => ?_, fun d e hd he hde => ?_⟩
  · rw [hi.ctx]
    simp only [htInsert]
    split
    · refine List.nodup_append.mpr ⟨h.nodup b, List.nodup_cons.mpr ⟨List.not_mem_nil, List.nodup_nil⟩,
        fun x hx y hy he => ?_⟩
      exact hout ⟨b, List.mem_singleton.mp hy ▸ he ▸ hx⟩
    · exact h.nodup b
  · rcases (hi.mem d b).mp hd with hd | ⟨rfl, hb⟩
    · rw [hold d ⟨b, hd⟩]
      exact h.placed b d hd
    · exact ⟨hb, hlive⟩
  · rcases hlisted d hd with hd | rfl <;> rcases hlisted e he with he | rfl
    · rw [hold d hd, hold e he] at hde
      exact h.unique d e hd he hde
    · rw [hold d hd] at hde
      exact absurd hde (hnew d hd)
    · rw [hold e he] at hde
      exact absurd hde.symm (hnew e he)
    · rfl

theorem Placed.put {t : St} (h : Carries (fun _ => True) (fun s => OpFacts s ∧ Placed s)
      ⟨s.conns c, s.ctx⟩ t) (hs : OpFacts s ∧ Placed s) :
    OpFacts (s.put c t) ∧ Placed (s.put c t) :=
  (Carries.put (fun h => h.1.ids) h).keeps (fun _ _ => trivial) hs

theorem step_placed (x : Input) (s s' : Sys) (h : step env x s = .ok s') (hs : OpFacts s ∧ Placed s) :
    OpFacts s' ∧ Placed s' := by
  refine ⟨((kept_opFacts env).keeps x s s' h).keeps (fun _ _ => trivial) hs.1, ?_⟩
  cases step_outcome h with
  | quiet hq => exact hs.2.quiet hq
  | acts _ _ ha => exact (Placed.put ((closed_placed env).acts ha) hs).2
  | serves _ _ hserve => exact (Placed.put ((closed_placed env).serve hserve) hs).2
  | inserts hi hq hsyn =>
    obtain ⟨port, cookie, p, -, hnone, htcp⟩ := hsyn
    refine (hs.2.inserted hi fun d hd => ?_).quiet hq
    rw [htcp]
    exact hs.2.search_none hnone hd
  | @replaces c d t u _ _ hr hq hi _ hsyn =>
    obtain ⟨port, cookie, p, -, hfound, htcp⟩ := hsyn
    have hrem := removeSession_removed hr
    have hput := Placed.put (readRule_placed.removed _ _ hrem) hs
    refine (hput.2.quiet hq).inserted hi fun e he => ?_
    -- whoever is left in the table was there before, under another address than the one found
    have hamong : Placed ((⟨s.conns c, s.ctx⟩ : St).among s.conns) := by
      rw [s.among_put (hs.1.ids c)]
      exact hs.2
    obtain ⟨hconns, out, outside, hctx⟩ := hq
    obtain ⟨b, hb⟩ := he
    rw [hctx] at hb
    obtain ⟨hne, hb⟩ := (hamong.erased hrem e b).mp hb
    rw [show (⟨s.conns c, s.ctx⟩ : St).conn.id = c from hs.1.ids c] at hne
    have hold : u.conns e = s.conns e := by rw [hconns]; exact if_neg hne
    rw [hold, htcp]
    intro haddr
    exact hne (hs.2.unique e c ⟨b, hb⟩ (searchTcpConnection_listed hfound)
      (haddr.trans (searchTcpConnection_addr hfound).symm))
  | submits hsub => exact hs.2.submitted hsub
  | completes hcomp => exact hs.2.completes hcomp

theorem initial_placed (n ringCnt : Nat) : Placed (initial n ringCnt) where
  nodup _ := List.nodup_nil
  placed _ _ h := absurd h List.not_mem_nil
  unique _ _ h := absurd h.choose_spec List.not_mem_nil

theorem run_placed {n ringCnt : Nat} {inputs : List Input}
    (h : run (step env) inputs (initial n ringCnt) = .ok s) : OpFacts s ∧ Placed s :=
  run_invariant step_placed inputs _ s h ⟨initial_opFacts n ringCnt, initial_placed n ringCnt⟩

end

end Xtls.Nic
