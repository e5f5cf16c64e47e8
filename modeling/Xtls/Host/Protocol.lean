import Xtls.Host.MigFin
import Xtls.Host.Handover
import Xtls.Lib.Joint
import Xtls.Nic.Migration
import Xtls.Nic.SynDuplicate

/-!
# The migration protocol

A worker of the NIC and a thread of the host, with the frames between them.  The key meta packet goes to the
host (`send_key_meta`, `tcp.c` 1771-1859), MIG_FIN comes back (`send_mig_fin_to_arm`, `meta_pkt.c` 424-481), and
the NIC sends the rest of its flight, and the client's packets to the host, only after it
(`process_host_mig_fin`, `tcp.c` 2939-3005).  A frame may get lost, arrive again or be overtaken: all that is
known of one that arrives is that it was sent at some time, and that a key meta which comes again does not find
its entry half set up: the host would answer it with a MIG_FIN at once (`migFin_unsecured`).
-/

namespace Xtls.Host

open Xtls.Nic

/-! ### The two machines -/

/-- What is fixed in a run: the configuration of both sides, and how many connections each has. -/
structure Deployment where
  env : Env
  cfg : Config
  sessions : Nat
  ringCnt : Nat
  conns : Nat
  tls13 : Bool

abbrev Both := Observed × Thread

namespace Deployment

variable (w : Deployment)

def step : Input ⊕ ThreadInput → Both → Except (Nic.Halt ⊕ Halt) Both :=
  jointStep (observedStep w.env) (threadStep w.cfg)

def start : Both := (.initial w.sessions w.ringCnt, startThread w.conns w.tls13)

abbrev Ever (es : List (Input ⊕ ThreadInput)) (Q : Both → Prop) : Prop := Sometime w.step w.start es Q

end Deployment

def Sent.packet : Sent → Packet
  | .migFin _ _ frame => parsePacket frame
  | .close frame => parsePacket frame

def carriesMeta (buf : Bytes) : Out → Prop
  | .keyMeta _ hdr => hdr.encode <+: buf
  | _ => False

/-- Every MIG_FIN and every key or reset meta that arrives was sent by the other side; the host can open its
sockets and install the keys, and a key meta does not come again before `mig_tls_conn`, nor a reset before its
entry has begun (`migReady`).  Nothing is said of the other packets. -/
def arrives : Input ⊕ ThreadInput → Both → Prop
  | .inl (.packet port p), s => validatePacketType port p = some .hostMigFin → ∃ f ∈ s.2.fins, f.packet = p
  | .inl _, _ => True
  | .inr (.wait _), _ => True
  | .inr (.next k), s => migReady (.next k) s.2 ∧ ∀ buf ∈ k.frame,
      validateMetaType buf = some .key ∨ validateMetaType buf = some .rstConn →
        ∃ o ∈ s.1.state.ctx.out, carriesMeta buf o

instance decidableCarriesMeta (buf : Bytes) : (o : Out) → Decidable (carriesMeta buf o)
  | .keyMeta _ hdr => inferInstanceAs (Decidable (hdr.encode <+: buf))
  | .tcp .. => inferInstanceAs (Decidable False)
  | .frame .. => inferInstanceAs (Decidable False)

instance decidableArrives : (e : Input ⊕ ThreadInput) → (s : Both) → Decidable (arrives e s)
  | .inl (.packet port p), s =>
    inferInstanceAs (Decidable (validatePacketType port p = some .hostMigFin → ∃ f ∈ s.2.fins, f.packet = p))
  | .inl (.serve _), _ => inferInstanceAs (Decidable True)
  | .inl (.pkaSubmit _), _ => inferInstanceAs (Decidable True)
  | .inl (.pkaComplete ..), _ => inferInstanceAs (Decidable True)
  | .inl (.outside _), _ => inferInstanceAs (Decidable True)
  | .inr (.wait _), _ => inferInstanceAs (Decidable True)
  | .inr (.next k), s => inferInstanceAs (Decidable (migReady (.next k) s.2 ∧ ∀ buf ∈ k.frame,
      validateMetaType buf = some .key ∨ validateMetaType buf = some .rstConn →
        ∃ o ∈ s.1.state.ctx.out, carriesMeta buf o))

def MetaSent (hdr : MetaHdr) (s : Both) : Prop := ∃ port, Out.keyMeta port hdr ∈ s.1.state.ctx.out

/-- The host has a connection with these numbers and keys, and its socket has the restored TCP state and the keys
of both directions. -/
def Holds (i : MetaInfo × SslCryptoInfo) (s : Both) : Prop :=
  ∃ d, s.2.InTable d ∧ s.2.ident d = i ∧ s.2.sockOf d = some ⟨true, true, true⟩

section

variable (w : Deployment) (es : List (Input ⊕ ThreadInput))

/-- The packet repeats the address and the numbers of a meta packet that the NIC has sent, and the host had a
connection with the keys of this meta packet. -/
def Deployment.Vouched (p : Packet) : Prop :=
  ∃ hdr, w.Ever es (MetaSent hdr) ∧ w.Ever es (Holds (handleMetaData w.tls13 hdr.encode))
    ∧ p.addr = (hdr.clientIp, hdr.clientPort, le32 (put32 SERVER_IP) 0, le16 (put16 SSL_PORT) 0)
    ∧ p.seq = hdr.serverSeqNum ∧ p.ack = hdr.serverAckNum

/-- A MIG_FIN from the address that has created the connection, with the numbers of `meta_hdr`, and vouched for by
the host. -/
def Deployment.Confirmed (log : List Deed) : Deed → Prop
  | .migFin p hdr => (p.seq = hdr.serverSeqNum ∧ p.ack = hdr.serverAckNum)
      ∧ (∃ seq, createdFrom log = some (p.addr, seq)) ∧ w.Vouched es p
  | _ => False

end

/-! ### A meta packet in its frame -/

section

variable {a b : Bytes} {off : Nat}

theorem be32_append_left (h : off + 4 ≤ a.length) : be32 (a ++ b) off = be32 a off := by
  rw [be32_slice, slice_append_left _ _ _ _ h, ← be32_slice]

theorem be16_append_left (h : off + 2 ≤ a.length) : be16 (a ++ b) off = be16 a off := by
  rw [be16_slice, slice_append_left _ _ _ _ h, ← be16_slice]

theorem handleMetaData_frame (tls13 : Bool) {hdr : MetaHdr} {buf : Bytes} (h : hdr.encode <+: buf) :
    handleMetaData tls13 buf = handleMetaData tls13 hdr.encode := by
  obtain ⟨rest, rfl⟩ := h
  have hlen := hdr.encode_length
  have hcrypto : ∀ key iv, key ≤ 700 → iv ≤ 700 →
      cryptoInfoAt tls13 (hdr.encode ++ rest) key iv = cryptoInfoAt tls13 hdr.encode key iv := by
    intro key iv hkey hiv
    unfold cryptoInfoAt
    rw [byteAt_append_left _ _ 40 (by omega), byteAt_append_left _ _ 41 (by omega),
      slice_append_left _ _ _ 8 (by omega), slice_append_left _ _ _ 32 (by omega),
      slice_append_left _ _ _ 4 (by omega)]
  unfold handleMetaData
  rw [be32_append_left (by omega), be32_append_left (by omega), be32_append_left (by omega),
    be16_append_left (by omega), hcrypto _ _ (by omega) (by omega), hcrypto _ _ (by omega) (by omega)]

end

/-! ### MIG_FIN on the NIC -/

section

variable {env : Env} {x : Input} {s : Sys} {c : ConnId} {p : Packet} {hdr : MetaHdr} {t : St}

theorem deeds_migFin (hd : Deed.migFin p hdr ∈ deeds env x s c) :
    ∃ port, x = .packet port p ∧ validatePacketType port p = some .hostMigFin
      ∧ searchTcpConnection p s = .ok (some c) := by
  rcases mem_deeds hd with ⟨port, q, hx, hfound, hdeed⟩ | ⟨-, hdeed⟩
  · cases hdeed with
    | migFin htype => exact ⟨port, hx, htype, hfound⟩
  · cases hdeed

end

/-! ### Every run -/

/-- What the two sides know of each other after the events `es`. -/
structure Deployment.Agreed (w : Deployment) (es : List (Input ⊕ ThreadInput)) (s : Both) : Prop where
  upkeep : Upkeep w.conns s.2
  orderly : Orderly s.2
  secured : Secured s.2
  tls13 : s.2.tls13 = w.tls13
  informed : ∀ d, s.2.InTable d →
    ∃ hdr, w.Ever es (MetaSent hdr) ∧ s.2.ident d = handleMetaData w.tls13 hdr.encode
  reported : ∀ d sock frame, .migFin d sock frame ∈ s.2.sent → w.Vouched es (parsePacket frame)
  confirmed : ∀ c p hdr, .migFin p hdr ∈ s.1.log c →
    (∃ seq, createdFrom (s.1.log c) = some (p.addr, seq)) ∧ w.Vouched es p

section

variable {w : Deployment} {es fs : List (Input ⊕ ThreadInput)} {s s' : Both} {c : ConnId} {p : Packet} {x : Input}
  {i : ThreadInput}

theorem Deployment.Vouched.later (h : w.Vouched es p) (fs : List (Input ⊕ ThreadInput)) : w.Vouched (es ++ fs) p := by
  obtain ⟨hdr, hsent, hheld, hrest⟩ := h
  exact ⟨hdr, hsent.later fs, hheld.later fs, hrest⟩

theorem Deployment.run_observed (h : run w.step es w.start = .ok s) :
    run (observedStep w.env) (es.filterMap Sum.getLeft?) (.initial w.sessions w.ringCnt) = .ok s.1 :=
  run_joint_left h

theorem Deployment.Agreed.arrives_migFin (h : w.Agreed es s) (hrun : run w.step es w.start = .ok s)
    (hx : arrives (.inl x) s) {hdr : MetaHdr} (hd : .migFin p hdr ∈ deeds w.env x s.1.state c) :
    (∃ seq, createdFrom (s.1.log c) = some (p.addr, seq)) ∧ w.Vouched es p := by
  obtain ⟨port, rfl, htype, hfound⟩ := deeds_migFin hd
  constructor
  · obtain ⟨hs, hborn⟩ := run_obeys lifeRule_born (Deployment.run_observed hrun)
    obtain ⟨seq, hcreated⟩ := hborn c (hs.listed.mpr (searchTcpConnection_listed hfound))
    have haddr : (s.1.state.conns c).tcp.addr = p.addr := searchTcpConnection_addr hfound
    rw [← haddr]
    exact ⟨seq, hcreated⟩
  · obtain ⟨f, hf, hp⟩ := hx htype
    cases f with
    | migFin d sock frame =>
      have hp : parsePacket frame = p := hp
      rw [← hp]
      exact h.reported d sock frame (Thread.mem_fins.mp hf)
    | close frame => exact absurd (List.mem_filter.mp hf).2 Bool.false_ne_true

theorem Deployment.Agreed.nic (h : w.Agreed es s) (hrun : run w.step es w.start = .ok s) (hx : arrives (.inl x) s)
    (hs : observedStep w.env x s.1 = .ok s'.1) (hsame : s'.2 = s.2) : w.Agreed (es ++ [.inl x]) s' := by
  have hlater : ∀ {Q}, w.Ever es Q → w.Ever (es ++ [.inl x]) Q := fun hq => hq.later _
  refine ⟨hsame ▸ h.upkeep, hsame ▸ h.orderly, hsame ▸ h.secured, hsame ▸ h.tls13, fun d hd => ?_,
    fun d sock frame hf => ?_, fun c p hdr hd => ?_⟩
  · rw [hsame] at hd ⊢
    obtain ⟨hdr, hsent, hident⟩ := h.informed d hd
    exact ⟨hdr, hlater hsent, hident⟩
  · rw [hsame] at hf
    exact (h.reported d sock frame hf).later _
  · obtain ⟨hok, hfresh, hold⟩ := logStep_ok hs
    have hconducted := (run_obeys lifeRule_born (Deployment.run_observed hrun)).1
    cases (step_takes w.env hconducted x).turn _ hok c with
    | goes hnot =>
      rw [hold c hnot] at hd ⊢
      have hfin : (∃ seq, createdFrom (s.1.log c) = some (p.addr, seq)) ∧ w.Vouched es p := by
        rcases List.mem_append.mp hd with hd | hd
        · exact h.confirmed c p hdr hd
        · exact h.arrives_migFin hrun hx hd
      obtain ⟨⟨seq, hcreated⟩, hvouched⟩ := hfin
      exact ⟨⟨seq, createdFrom_append hcreated _⟩, hvouched.later _⟩
    | created _ hnew =>
      rw [hfresh c _ hnew] at hd
      cases List.mem_singleton.mp hd

theorem Deployment.Agreed.vouched (h : w.Agreed es s) (hrun : run w.step es w.start = .ok s) {d : ConnRef} {r : Int}
    (hd : s.2.InTable d) (hsock : s.2.sockOf d = some ⟨true, true, true⟩) :
    w.Vouched es (parsePacket (sendMigFinToArm (s.2.conns d).metaInfo r)) := by
  obtain ⟨hdr, hsent, hident⟩ := h.informed d hd
  have hinfo : (s.2.conns d).metaInfo = (handleMetaData w.tls13 hdr.encode).1 := congrArg Prod.fst hident
  obtain ⟨-, -, haddr, hseq, hack⟩ := parsePacket_migFin w.tls13 r hdr
  rw [hinfo]
  exact ⟨hdr, hsent, .now hrun ⟨d, hd, hident, hsock⟩, haddr, hseq, hack⟩

theorem Deployment.Agreed.host (h : w.Agreed es s) (hrun : run w.step es w.start = .ok s) (hi : arrives (.inr i) s)
    (hs : threadStep w.cfg i s.2 = .ok s'.2) (hsame : s'.1 = s.1) : w.Agreed (es ++ [.inr i]) s' := by
  have hlater : ∀ {Q}, w.Ever es Q → w.Ever (es ++ [.inr i]) Q := fun hq => hq.later _
  have hready : migReady i s.2 := by
    cases i with
    | wait ready => trivial
    | next k => exact hi.1
  obtain ⟨hu, ho⟩ := threadStep_kept i h.upkeep h.orderly hs
  have hsecured := threadStep_secured i h.upkeep h.orderly h.secured hready hs
  obtain ⟨htls, hentry⟩ := threadStep_entry h.upkeep h.orderly hs
  refine ⟨hu, ho, hsecured, htls.trans h.tls13, fun d hd => ?_, fun d sock frame hf => ?_, fun c p hdr hd => ?_⟩
  · rcases hentry d hd with ⟨hin, hident⟩ | ⟨k, buf, rfl, hframe, htype, hident⟩
    · obtain ⟨hdr, hsent, hold⟩ := h.informed d hin
      exact ⟨hdr, hlater hsent, hident.trans hold⟩
    · obtain ⟨o, ho, hcarries⟩ := hi.2 buf hframe htype
      cases o with
      | keyMeta port hdr =>
        refine ⟨hdr, hlater (.now hrun ⟨port, ho⟩), ?_⟩
        rw [hident, h.tls13, handleMetaData_frame w.tls13 hcarries]
      | _ => exact absurd hcarries id
  · rcases threadStep_reports h.orderly hs hf with hold | ⟨hin, hsock, rfl⟩
    · exact (h.reported d sock frame hold).later _
    · have hkeys : sock = some ⟨true, true, true⟩ := hsecured.sent _ hf
      exact (h.vouched hrun hin (hsock.symm.trans hkeys)).later _
  · rw [hsame] at hd ⊢
    obtain ⟨hcreated, hvouched⟩ := h.confirmed c p hdr hd
    exact ⟨hcreated, hvouched.later _⟩

theorem Deployment.start_agreed (w : Deployment) : w.Agreed [] w.start :=
  ⟨startThread_upkeep .., startThread_orderly ..,
    ⟨fun _ hc => absurd hc.1 List.not_mem_nil, fun _ _ hc => absurd hc.1 List.not_mem_nil,
      fun _ hs => absurd hs List.not_mem_nil⟩, rfl,
    fun _ hd => absurd hd List.not_mem_nil, fun _ _ _ hf => absurd hf List.not_mem_nil,
    fun _ _ _ hd => absurd hd List.not_mem_nil⟩

theorem Deployment.run_agreed (hrun : run w.step es w.start = .ok s) (ha : Along w.step arrives es w.start) :
    w.Agreed es s := by
  refine along_history w.start_agreed (fun es e s s' hrun hready hs h => ?_) es s ha hrun
  cases e with
  | inl x =>
    obtain ⟨hok, hsame⟩ := jointStep_inl hs
    exact h.nic hrun hready hok hsame
  | inr i =>
    obtain ⟨hok, hsame⟩ := jointStep_inr hs
    exact h.host hrun hready hok hsame

/-- However the steps of both sides and the frames between them are ordered, a connection of the NIC sends the rest
of its flight and the packets of its client only after a MIG_FIN from its own address with the numbers of its
`meta_hdr`; the NIC had sent a key meta with these numbers, and the host had a connection with the keys of that
meta, installed on a socket with the restored state.  Behind every packet with a payload that the NIC sends to a
client, and behind every packet that it passes on to the host, stands such a deed, a flight that is sent
again, or a FIN or an RST. -/
theorem flight_after_keys (hrun : run w.step es w.start = .ok s) (ha : Along w.step arrives es w.start)
    (hx : arrives (.inl x) s) (c : ConnId) :
    EachAfter (w.Confirmed es (s.1.log c)) Deed.Waits (s.1.log c ++ deeds w.env x s.1.state c)
    ∧ ∀ t, Nic.step w.env x s.1.state = .ok t → ∃ new, Posted w.env x s.1.state t new := by
  have hagreed := Deployment.run_agreed hrun ha
  have hobserved := Deployment.run_observed hrun
  obtain ⟨v, hm⟩ := run_deeds lifeRule_migrates hobserved x c
  refine ⟨hm.after.mono fun d hd hmatched => ?_, fun t ht => step_posted (run_obeys lifeRule_migrates hobserved).1 ht⟩
  cases d with
  | migFin p hdr =>
    refine ⟨hmatched, ?_⟩
    rcases List.mem_append.mp hd with hd | hd
    · exact hagreed.confirmed c p hdr hd
    · exact hagreed.arrives_migFin hrun hx hd
  | _ => exact absurd hmatched id

def sampleMeta : MetaHdr :=
  match run (Nic.step sampleEnv) (sampleServerFlight.map toServer) (initial 2 8) with
  | .ok s => (s.conns 0).sess.metaHdr
  | .error _ => {}

/- The host takes the meta packet, migrates the connection on descriptor 5, and its MIG_FIN arrives. -/
def sampleMigration : List (Input ⊕ ThreadInput) :=
  (sampleServerFlight.map toServer).map .inl
    ++ [.inr (.wait (.single .metaSock)), .inr (.next { frame := some sampleMeta.encode, key := { socket := some 5 } }),
      .inr (.wait (.single (.sock 5 ⟨false, true⟩))), .inr (.next {}),
      .inr (.wait (.single (.sock 5 ⟨false, true⟩))), .inr (.next {}),
      .inl (.packet 1 (parsePacket (sendMigFinToArm (handleMetaData true sampleMeta.encode).1 0)))]

def sampleDeployment : Deployment :=
  { env := sampleEnv, cfg := {}, sessions := 2, ringCnt := 8, conns := 2, tls13 := true }

theorem flight_after_keys_sample : ∃ s t new,
    run sampleDeployment.step sampleMigration sampleDeployment.start = .ok s
    ∧ (deeds sampleEnv (.serve 0) s.1.state 0).any Deed.isFlight = true
    ∧ EachAfter (sampleDeployment.Confirmed sampleMigration (s.1.log 0)) Deed.Waits
      (s.1.log 0 ++ deeds sampleEnv (.serve 0) s.1.state 0)
    ∧ Nic.step sampleEnv (.serve 0) s.1.state = .ok t ∧ Posted sampleEnv (.serve 0) s.1.state t new := by
  obtain ⟨s, hs, hflight, hstep⟩ := endsIn_ok
    (fun s : Both => (deeds sampleEnv (.serve 0) s.1.state 0).any Deed.isFlight = true
      ∧ (Nic.step sampleEnv (.serve 0) s.1.state).toBool = true)
    (run sampleDeployment.step sampleMigration sampleDeployment.start) (by decide +kernel)
  have ha : Along sampleDeployment.step arrives sampleMigration sampleDeployment.start := by decide +kernel
  obtain ⟨hafter, hposted⟩ := flight_after_keys hs ha (x := .serve 0) trivial 0
  cases ht : Nic.step sampleEnv (.serve 0) s.1.state with
  | error e =>
    rw [ht] at hstep
    cases hstep
  | ok t =>
    obtain ⟨new, hnew⟩ := hposted t ht
    exact ⟨s, t, new, hs, hflight, hafter, ht, hnew⟩

end

end Xtls.Host
