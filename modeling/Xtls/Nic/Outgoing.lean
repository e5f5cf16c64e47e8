import Xtls.Nic.AppData
import Xtls.Nic.Segments
import Xtls.Nic.SynCookie

/-!
# What the deeds put on the wire

A packet with a payload leaves for a client in two places: `send_pending_records` sends the flight
(`ssl.c` 2913-2944), and a ClientHello that arrives once more is answered from `server_records`
(`ssl.c` 2124-2138).  A packet of a client goes to the host from `forward_app_data`, or at once if it is the
FIN or the RST of an onloaded connection (`tcp.c` 3133-3240, 3508-3536).
-/

namespace Xtls.Nic

/-- What has to wait for the host. -/
def Deed.Waits : Deed → Prop
  | .flight _ _ => True
  | .forwarded _ => True
  | _ => False

/-- Why a packet is sent in the step with input `x`. -/
inductive Cause (env : Env) (x : Input) (s : Sys) : Out → Prop
  | again (c : ConnId) {o : Out} (within : o.Within (s.conns c).sess.serverRecords) : Cause env x s o
  | flight {c : ConnId} {v : Stage} {b : Bytes} {o : Out} (deed : .flight v b ∈ deeds env x s c)
      (within : o.Within b) : Cause env x s o
  | forwarded {c : ConnId} {v : Stage} (deed : .forwarded v ∈ deeds env x s c) :
      Cause env x s (.frame ((s.conns c).tcp.portid + 1) v.pendingAppData)
  | ends {port : UInt16} {p : Packet} (input : x = .packet port p)
      (type : validatePacketType port p = some .tcpFin ∨ validatePacketType port p = some .tcpRst) :
      Cause env x s (.frame (port + 1) p.frame)

/-- The step sends `new`: each packet has its cause, the flight and the packets that are passed on are among
them, and `server_records` become what the flight consists of. -/
structure Posted (env : Env) (x : Input) (s s' : Sys) (new : List Out) : Prop where
  out : s'.ctx.out = s.ctx.out ++ new
  cause : ∀ o ∈ new, Cause env x s o
  flight : ∀ c v b, .flight v b ∈ deeds env x s c →
    ∃ conn segs, Segmented conn 0 b segs ∧ segs.map (.tcp conn.tcp.portid) <:+ new
  forwarded : ∀ c v, .forwarded v ∈ deeds env x s c →
    .frame ((s.conns c).tcp.portid + 1) v.pendingAppData ∈ new
  records : ∀ c, (s'.conns c).sess.serverRecords = (s.conns c).sess.serverRecords
    ∨ ∃ v, .flight v (s'.conns c).sess.serverRecords ∈ deeds env x s c

/-! ### One connection -/

structure Replays (s s' : St) : Prop where
  posts : s.ctx.Posts s.conn.sess.serverRecords s'.ctx
  records : s'.conn.sess.serverRecords = s.conn.sess.serverRecords

section

variable {env : Env} {s s' t : St} {r : Record} {type : ContentType} {msgType : HandshakeType} {body frag data : Bytes}
  {others : ConnId → Conn}

theorem Replays.refl (s : St) : Replays s s := ⟨.none rfl, rfl⟩

theorem Replays.trans (h1 : Replays s t) (h2 : Replays t s') : Replays s s' :=
  ⟨h1.posts.trans (h1.records ▸ h2.posts), h2.records.trans h1.records⟩

theorem Frame.replays (hf : Frame s s') : Replays s s' := ⟨hf.posts, hf.records⟩

theorem Removed.replays (hr : Removed s s') : Replays s s' := ⟨.none hr.out, by rw [hr.sess]; rfl⟩

theorem readRule_replays : ReadRule Replays where
  refl := .refl
  trans := .trans
  call _ _ _ := ⟨.none rfl, rfl⟩
  complete _ _ := ⟨.none rfl, rfl⟩
  queues _ _ _ := ⟨.none rfl, rfl⟩
  frame _ _ hf := hf.replays
  hello _ _ _ _ _ _ _ _ _ hsub := ⟨.none hsub.out, by rw [hsub.sess]⟩
  spec _ _ := ⟨.none rfl, rfl⟩
  finish _ _ := ⟨.none rfl, rfl⟩
  removed _ _ hr := hr.replays

theorem packetRule_replays : PacketRule Replays where
  refl := .refl
  trans := .trans
  tcp _ _ _ := ⟨.none rfl, rfl⟩
  frame _ _ hf := hf.replays

/-! ### Messages and requests -/

theorem sealRecord_replays (h : sealRecord env r type frag s = .ok (data, s')) : Replays s s' := by
  rcases sealRecord_cases h with ⟨-, rfl, -⟩ | ⟨-, -, o, t, ho, rfl, -⟩
  · exact .refl _
  · obtain ⟨pool, -, rfl⟩ := newSslCryptoOp_cases ho
    exact ⟨.none rfl, rfl⟩

theorem storeHandshake_replays {m : Byte} (h : storeHandshake m frag s = .ok s') : Replays s s' := by
  rcases storeHandshake_cases h with ⟨-, rfl⟩ | ⟨-, rfl⟩
  · exact .refl _
  · exact ⟨.none rfl, rfl⟩

theorem IsMessage.replays {f : St → Except Halt St} (hf : IsMessage env f) (h : f s = .ok s') : Replays s s' := by
  obtain ⟨type, msgType, body, hf⟩ := hf
  rw [hf] at h
  obtain ⟨⟨r, t⟩, hr, h⟩ := bind_ok h
  obtain ⟨s1, h1, h⟩ := bind_ok h
  obtain ⟨⟨data, s2⟩, h2, h⟩ := bind_ok h
  obtain ⟨buffer, -, h⟩ := bind_ok h
  cases h
  have hlast : Replays s2 (deleteRecord r (s2.mapSess fun e => { e with sendBuffer := buffer })) :=
    ⟨.none rfl, rfl⟩
  exact (newRecord_frame hr).replays.trans <| (storeHandshake_replays h1).trans <|
    (sealRecord_replays h2).trans hlast

theorem requestPka_replays {fill : Op} {ret : Int} (h : requestPka fill s = .ok (ret, s')) : Replays s s' := by
  rcases requestPka_cases h with ⟨-, o, hrej⟩ | ⟨-, o, hsub⟩
  · exact hrej.frame.replays
  · exact ⟨.none hsub.out, by rw [hsub.sess]⟩

theorem answerClientHello_replays {ch : ClientHello} (h : answerClientHello env r ch s = .ok s') : Replays s s' := by
  unfold answerClientHello at h
  split at h
  · cases h
  · rename_i off hoff
    obtain ⟨s1, h1, h⟩ := bind_ok h
    obtain ⟨⟨ret, s2⟩, h2, h⟩ := bind_ok h
    cases h
    have hhello : IsMessage env (sendServerHello env) := ⟨_, _, serverHelloBody, fun _ => rfl⟩
    have hsend := hhello.replays h1
    have hreq := requestPka_replays h2
    have hset : Replays s (setPendingSp r ch (slice r.pf off x25519KeyLen) s) := ⟨.none rfl, rfl⟩
    have hstate : Replays s1 (sharedSecretRequest (slice r.pf off x25519KeyLen) s1) := ⟨.none rfl, rfl⟩
    have hlast : Replays s2 (s2.mapSess fun e => { e with writeSp := e.pendingSp, sendSeqNum := 0 }) := ⟨.none rfl, rfl⟩
    exact hset.trans <| hsend.trans <| hstate.trans <| hreq.trans hlast

theorem handleReadRecord_replays {ch : ClientHello} {ret : Int} (hr : r.IsHello ch)
    (h : handleReadRecord env r s = .ok (ret, s')) : Replays s s' := by
  simp only [handleReadRecord, hr.1] at h
  obtain ⟨t, ht, h⟩ := bind_ok h
  have hstore := storeHandshake_replays ht
  simp only [hr.2] at h
  split at h
  · cases h
    exact hstore.trans (deleteRecord_frame r t).replays
  · obtain ⟨u, hu, h⟩ := bind_ok h
    cases h
    exact hstore.trans ((answerClientHello_replays hu).trans (deleteRecord_frame r u).replays)

theorem getProcessedCrypto_replays (hdata : ∀ o r, (s.ctx.ops o).data = some r → ∃ ch, r.IsHello ch)
    (h : getProcessedCrypto env s = .ok s') : Replays s s' := by
  unfold getProcessedCrypto at h
  split at h
  · cases h
    exact .refl s
  · split at h
    · cases h
    · rename_i o ho
      split at h
      · split at h
        · cases h
        · rename_i r hr
          obtain ⟨ch, hch⟩ := hdata o r hr
          obtain ⟨⟨ret, t⟩, ht, h⟩ := bind_ok h
          have hkey : Replays s (handleAfterEcdheKeyGen (clearPending s)) := ⟨.none rfl, rfl⟩
          have hread := hkey.trans (handleReadRecord_replays hch ht)
          dsimp only at h
          split at h <;> cases h
          · exact hread
          · exact hread.trans ⟨.none rfl, rfl⟩
      · cases h
        exact ⟨.none rfl, rfl⟩
      · cases h
        exact ⟨.none rfl, rfl⟩
      · cases h

theorem processResults_replays (hp : OpFacts (s.among others)) (h : processResults env s = .ok s') : Replays s s' := by
  obtain ⟨t, ht, h⟩ := bind_ok h
  have hremove : Replays (applyHws t) s' := by
    rcases removeHws_cases h with ⟨-, rfl⟩ | ⟨-, hr⟩
    · exact .refl _
    · exact hr.replays
  exact (getProcessedCrypto_replays hp.core.hello ht).trans ((packetRule_replays.applies t).trans hremove)

/-! ### The flight -/

theorem sendCertificateFlight_replays (h : sendCertificateFlight env s = .ok s') : Replays s s' := by
  obtain ⟨t, ht, h⟩ := bind_ok h
  obtain ⟨u, hu, h⟩ := bind_ok h
  obtain ⟨⟨ret, w⟩, hw, h⟩ := bind_ok h
  cases h
  have hee : IsMessage env (sendEncryptedExtensions env) := ⟨_, _, fun _ => put16 0, fun _ => rfl⟩
  have hcert : IsMessage env (sendCertificate env) := ⟨_, _, fun _ => certificateBody env, fun _ => rfl⟩
  have hstate : Replays t (setHandshakeState .encryptedExtensions t) := ⟨.none rfl, rfl⟩
  have hsign : Replays u (signatureRequest env u) := ⟨.none rfl, rfl⟩
  exact (hee.replays ht).trans <| hstate.trans <| (hcert.replays hu).trans <| hsign.trans (requestPka_replays hw)

theorem sendFinishedFlight_replays (h : sendFinishedFlight env s = .ok s') : Replays s s' := by
  obtain ⟨t, ht, h⟩ := bind_ok h
  obtain ⟨u, hu, h⟩ := bind_ok h
  cases h
  have hverify : IsMessage env (sendCertificateVerify env) :=
    ⟨_, _, fun t => certificateVerifyBody t.conn.sess, fun _ => rfl⟩
  have hfin : IsMessage env (sendServerFinished env) :=
    ⟨_, _, fun t => finishedMac env.crypto t.conn.sess.tls13Ctx.serverSecret t.conn.sess.handshakeMsgs,
      fun _ => rfl⟩
  have hstate : Replays t (setHandshakeState .certificateVerify t) := ⟨.none rfl, rfl⟩
  have hkeys : Replays u (handleVerifyDataCalculation env (handleAppKeysCalculation env u)) := by
    obtain ⟨k, hk, -⟩ := handleAppKeysCalculation_eq env u
    rw [hk]
    exact ⟨.none rfl, rfl⟩
  exact (hverify.replays ht).trans <| hstate.trans <| (hfin.replays hu).trans <| hkeys.trans
    (sendKeyMeta_frame env _ _).replays

theorem sendPendingRecords_segments (h : sendPendingRecords s = .ok s') :
    s'.conn.sess.serverRecords = s.conn.sess.sendBuffer
      ∧ ∃ segs, s'.ctx.out = s.ctx.out ++ segs.map (.tcp s.conn.tcp.portid)
        ∧ Segmented s.conn 0 s.conn.sess.sendBuffer segs := by
  obtain ⟨records, hb, h⟩ := bind_ok h
  cases h
  obtain ⟨segs, hout, hseg, -⟩ := sendTcpLoop_segments TCP_FLAG_ACK s.conn.sess.sendBuffer 0 (Nat.lt_succ_self _) s
  refine ⟨?_, segs, hout, hseg⟩
  unfold bounded at hb
  split at hb <;> cases hb
  rfl

/-- `send_remain_server_records` sends the flight exactly if it is on record. -/
theorem sendRemainServerRecords_posts (h : sendRemainServerRecords env s = .ok s') :
    (Replays s s' ∧ ∀ v b, .flight v b ∉ remainDeeds env s)
    ∨ ∃ v segs, remainDeeds env s = [.flight v s.conn.sess.sendBuffer]
      ∧ s'.conn.sess.serverRecords = s.conn.sess.sendBuffer
      ∧ s'.ctx.out = s.ctx.out ++ segs.map (.tcp s.conn.tcp.portid)
      ∧ Segmented s.conn 0 s.conn.sess.sendBuffer segs := by
  have hnone : ∀ {k ret} v b, .flight v b ∉ sendCall s ++ nextCall k ret := by
    intro k ret v b hd
    obtain ⟨call, hcall⟩ := mem_calls hd
    cases hcall
  unfold sendRemainServerRecords at h
  unfold remainDeeds
  dsimp only at h ⊢
  split at h <;> rename_i hhello
  · rw [if_pos hhello]
    exact .inl ⟨sendCertificateFlight_replays h, hnone⟩
  · rw [if_neg hhello]
    split at h <;> rename_i hsigned
    · rw [if_pos hsigned]
      exact .inl ⟨sendFinishedFlight_replays h, hnone⟩
    · rw [if_neg hsigned]
      split at h <;> rename_i hfin
      · rw [if_pos hfin]
        obtain ⟨t, ht, h⟩ := bind_ok h
        cases h
        obtain ⟨hrecords, segs, hout, hseg⟩ := sendPendingRecords_segments ht
        exact .inr ⟨_, segs, rfl, hrecords, hout, hseg⟩
      · rw [if_neg hfin]
        cases h
        exact .inl ⟨.refl s, fun _ _ => List.not_mem_nil⟩

theorem Segmented.within {c : Conn} {already : UInt32} {b : Bytes} {segs : List OutTcp} (h : Segmented c already b segs)
    {port : UInt16} {o : Out} (ho : o ∈ segs.map (.tcp port)) : o.Within b := by
  obtain ⟨pkt, hpkt, rfl⟩ := List.mem_map.mp ho
  show pkt.payload <:+: b
  obtain ⟨before, after, hsegs⟩ := List.append_of_mem hpkt
  refine ⟨(before.map OutTcp.payload).flatten, (after.map OutTcp.payload).flatten, ?_⟩
  rw [← h.data, hsegs]
  simp

/-! ### Turns and packets of one connection -/

structure Served (env : Env) (s s' : St) (new : List Out) : Prop where
  out : s'.ctx.out = s.ctx.out ++ new
  cause : ∀ o ∈ new, o.isFrame = true ∨ o.Within s.conn.sess.serverRecords
    ∨ ∃ v b, .flight v b ∈ serveDeeds env s ∧ o.Within b
  flight : ∀ v b, .flight v b ∈ serveDeeds env s →
    ∃ conn segs, Segmented conn 0 b segs ∧ segs.map (.tcp conn.tcp.portid) <:+ new
  records : s'.conn.sess.serverRecords = s.conn.sess.serverRecords
    ∨ ∃ v, .flight v s'.conn.sess.serverRecords ∈ serveDeeds env s

theorem forwardAppData_posts (s : St) : ∃ new, (forwardAppData s).ctx.out = s.ctx.out ++ new
    ∧ (∀ o ∈ new, o.isFrame = true) ∧ (forwardAppData s).conn.sess = s.conn.sess := by
  unfold forwardAppData
  split
  · exact ⟨_, rfl, fun o ho => List.mem_singleton.mp ho ▸ rfl, rfl⟩
  · exact ⟨[], (List.append_nil _).symm, fun o ho => absurd ho List.not_mem_nil, rfl⟩

theorem serveConnection_posts (hp : OpFacts (s.among others) ∧ Placed (s.among others)) (hv : s.stage.Sound)
    (hl : Listed s.ctx s.conn.id) (h : serveConnection env s = .ok s') : ∃ new, Served env s s' new := by
  rw [serveConnection_eq] at h
  obtain ⟨s1, h1, h⟩ := bind_ok h
  obtain ⟨s2, h2, h⟩ := bind_ok h
  have hread : Replays s s1 := processSessionReadLoop_rule readRule_replays.refl readRule_replays.trans
    (fun _ _ _ _ _ hw _ hr => readRule_replays.queued hw hr) h1
  have hconducts := processSessionRead_conducts h1
  obtain ⟨-, hp1⟩ := hconducts.carries.carries (fun _ _ => trivial) others hp
  have hv1 : s1.stage.Sound := Stage.path_sound (hconducts.lived others hp hv (.inl hl)).path hv
  have hbefore := hread.trans (processResults_replays hp1.1 h2)
  obtain ⟨new1, hout1, hin1⟩ := hbefore.posts
  obtain ⟨new2, hout2, hin2, hsess⟩ := forwardAppData_posts s2
  have hdeeds : ∀ v b, .flight v b ∈ serveDeeds env s ↔ .flight v b ∈ remainDeeds env (forwardAppData s2) := by
    intro v b
    simp only [serveDeeds, h1, h2, helloCall_nil hv1, List.nil_append, List.mem_append]
    refine ⟨fun hd => ?_, .inr⟩
    rcases hd with (hd | hd) | hd
    · obtain ⟨frame, hlost⟩ := mem_lostBy hd
      cases hlost
    · obtain ⟨w, hfwd⟩ := mem_forwardDeeds hd
      cases hfwd
    · exact hd
  rcases sendRemainServerRecords_posts h with ⟨hlast, hnone⟩ | ⟨v, segs, hflight, hrecords, hout, hseg⟩
  · obtain ⟨new3, hout3, hin3⟩ := hlast.posts
    rw [hsess] at hin3
    refine ⟨new1 ++ new2 ++ new3, ?_, fun o ho => ?_, fun v b hd => ?_, .inl ?_⟩
    · rw [hout3, hout2, hout1, List.append_assoc, List.append_assoc, List.append_assoc]
    · rcases List.mem_append.mp ho with ho | ho
      · rcases List.mem_append.mp ho with ho | ho
        · exact .inr (.inl (hin1 o ho))
        · exact .inl (hin2 o ho)
      · exact .inr (.inl (hbefore.records ▸ hin3 o ho))
    · exact absurd ((hdeeds v b).mp hd) (hnone v b)
    · rw [hlast.records, hsess, hbefore.records]
  · have hmem : .flight v (forwardAppData s2).conn.sess.sendBuffer ∈ serveDeeds env s := by
      rw [hdeeds, hflight]
      exact List.mem_singleton_self _
    refine ⟨new1 ++ new2 ++ segs.map (.tcp (forwardAppData s2).conn.tcp.portid), ?_, fun o ho => ?_, fun w b hd => ?_,
      .inr ⟨v, hrecords ▸ hmem⟩⟩
    · rw [hout, hout2, hout1, List.append_assoc, List.append_assoc, List.append_assoc]
    · rcases List.mem_append.mp ho with ho | ho
      · rcases List.mem_append.mp ho with ho | ho
        · exact .inr (.inl (hin1 o ho))
        · exact .inl (hin2 o ho)
      · exact .inr (.inr ⟨v, _, hmem, hseg.within ho⟩)
    · rw [hdeeds, hflight] at hd
      cases List.mem_singleton.mp hd
      exact ⟨_, segs, hseg, List.suffix_append _ _⟩

theorem Acts.replays {p : Packet} (h : Acts env p s s') : Replays s s' :=
  packetRule_replays.acts (fun _ _ _ => ⟨.none rfl, rfl⟩) (fun _ _ _ _ _ _ hr => readRule_replays.round hr) h

end

/-! ### Every step -/

section

variable {env : Env} {x : Input} {s s' : Sys} {c : ConnId} {p : Packet} {port : UInt16} {d : Deed}

theorem waits_serve (hw : d.Waits) (hd : d ∈ deeds env x s c) : x = .serve c := by
  rcases mem_deeds hd with ⟨port, p, -, -, hdeed⟩ | ⟨hx, -⟩
  · cases hdeed <;> exact absurd hw id
  · exact hx

/- A step that is not a turn of a connection sends nothing but parts of `server_records`, and FIN and RST. -/
theorem Posted.idle {new : List Out} (hx : ∀ c, x ≠ .serve c) (hout : s'.ctx.out = s.ctx.out ++ new)
    (hcause : ∀ o ∈ new, Cause env x s o)
    (hrecords : ∀ c, (s'.conns c).sess.serverRecords = (s.conns c).sess.serverRecords) : Posted env x s s' new where
  out := hout
  cause := hcause
  flight c v b hd := absurd (waits_serve (d := .flight v b) trivial hd) (hx c)
  forwarded c v hd := absurd (waits_serve (d := .forwarded v) trivial hd) (hx c)
  records c := .inl (hrecords c)

theorem Posted.still (hx : ∀ c, x ≠ .serve c) (hout : s'.ctx.out = s.ctx.out)
    (hrecords : ∀ c, (s'.conns c).sess.serverRecords = (s.conns c).sess.serverRecords) : Posted env x s s' [] :=
  .idle hx (hout.trans (List.append_nil _).symm) (fun _ ho => absurd ho List.not_mem_nil) hrecords

theorem put_records {t : St} (h : t.conn.sess.serverRecords = (s.conns c).sess.serverRecords) (d : ConnId) :
    ((s.put c t).conns d).sess.serverRecords = (s.conns d).sess.serverRecords := by
  by_cases hd : d = c
  · subst hd
    rw [s.put_self]
    exact h
  · have hother : (s.put c t).conns d = s.conns d := if_neg hd
    rw [hother]

theorem onConnection_posted {f : St → Except Halt St} (hf : ∀ t t', f t = .ok t' → Acts env p t t')
    (h : onConnection p f s = .ok s') : ∃ new, Posted env (.packet port p) s s' new := by
  obtain ⟨found, hfound, h⟩ := bind_ok h
  cases found with
  | none =>
    cases h
    exact ⟨[], .still nofun rfl fun _ => rfl⟩
  | some c =>
    obtain ⟨t, ht, rfl⟩ := Sys.on_ok h
    have hreplays := (hf _ _ ht).replays
    obtain ⟨new, hout, hin⟩ := hreplays.posts
    exact ⟨new, .idle nofun hout (fun o ho => .again c (hin o ho)) (put_records hreplays.records)⟩

theorem bare_cause (c : ConnId) (port : UInt16) {pkt : OutTcp} (h : pkt.payload = []) :
    Cause env x s (.tcp port pkt) := by
  refine .again c ?_
  show pkt.payload <:+: _
  rw [h]
  exact List.nil_infix

theorem emit_posted {o : Out} (ho : Cause env x s o) (hx : ∀ c, x ≠ .serve c) : Posted env x s (s.emit o) [o] :=
  .idle hx rfl (fun _ hm => List.mem_singleton.mp hm ▸ ho) fun _ => rfl

theorem processSynPacket_posted (hsyn : validatePacketType port p = some .tcpSyn)
    (h : processSynPacket env port p s = .ok s') : ∃ new, Posted env (.packet port p) s s' new := by
  obtain ⟨d, cookie, rand, -, -, hout, -⟩ := processSynPacket_reply hsyn h
  refine ⟨_, .idle nofun hout (fun o ho => List.mem_singleton.mp ho ▸ bare_cause d port rfl) fun c => ?_⟩
  have hinserted : ∀ {c' : ConnId} {u u' : Sys}, insertTcpConnection env port p u = .ok (c', u') →
      (u'.conns c).sess = (u.conns c).sess := by
    intro c' u u' hu
    obtain ⟨hi, -⟩ := insertTcpConnection_inserted hu
    by_cases hc : c = c'
    · subst hc
      obtain ⟨port', cookie', p', hconn⟩ := hi.conn
      rw [hconn]
    · rw [hi.others c hc]
  cases processSynPacket_cases h with
  | creates _ hu hq => rw [hq.1, hinserted hu]
  | answers _ _ hq => rw [hq.1]
  | replaces _ _ ht hq hv =>
    rw [hinserted hv, hq.1]
    exact put_records (removeSession_removed ht).replays.records c

theorem processFinPacket_posted (htype : validatePacketType port p = some .tcpFin)
    (h : processFinPacket port p s = .ok s') : ∃ new, Posted env (.packet port p) s s' new := by
  obtain ⟨found, -, h⟩ := bind_ok h
  cases found with
  | none =>
    cases h
    exact ⟨_, emit_posted (bare_cause 0 port rfl) nofun⟩
  | some c =>
    dsimp only at h
    split at h <;> cases h
    · exact ⟨_, emit_posted (.ends rfl (.inl htype)) nofun⟩
    · exact ⟨[], .still nofun rfl fun _ => rfl⟩

theorem processRstPacket_posted (htype : validatePacketType port p = some .tcpRst)
    (h : processRstPacket port p s = .ok s') : ∃ new, Posted env (.packet port p) s s' new := by
  obtain ⟨found, -, h⟩ := bind_ok h
  cases found with
  | none =>
    cases h
    exact ⟨[], .still nofun rfl fun _ => rfl⟩
  | some c =>
    dsimp only at h
    split at h <;> cases h
    · exact ⟨_, emit_posted (.ends rfl (.inr htype)) nofun⟩
    · exact ⟨[], .still nofun rfl fun _ => rfl⟩

theorem processPacket_posted (h : processPacket env port p s = .ok s') :
    ∃ new, Posted env (.packet port p) s s' new := by
  unfold processPacket at h
  split at h
  · exact onConnection_posted (fun _ _ ht => .handshake ht) h
  · exact processSynPacket_posted ‹_› h
  · exact onConnection_posted (fun _ _ ht => .ack ht) h
  · exact onConnection_posted (fun _ _ ht => by cases ht; exact .migFin) h
  · exact onConnection_posted (fun _ _ ht => by cases ht; exact .close) h
  · exact processFinPacket_posted ‹_› h
  · exact processRstPacket_posted ‹_› h
  · cases h
    exact ⟨[], .still nofun rfl fun _ => rfl⟩
  · cases h
    exact ⟨[], .still nofun rfl fun _ => rfl⟩

theorem serve_posted (hs : s.Conducted) (h : step env (.serve c) s = .ok s') :
    ∃ new, Posted env (.serve c) s s' new := by
  simp only [step] at h
  split at h
  · rename_i hmem
    obtain ⟨t, ht, rfl⟩ := Sys.on_ok h
    have hdeeds : ∀ d, deeds env (.serve c) s d = if c = d then serveDeeds env ⟨s.conns c, s.ctx⟩ else [] := fun d => by
      simp only [deeds, hmem, and_true]
    have hself : deeds env (.serve c) s c = serveDeeds env ⟨s.conns c, s.ctx⟩ := by rw [hdeeds, if_pos rfl]
    have hl : Listed s.ctx (s.conns c).id := hs.listed.mpr ⟨_, hmem⟩
    obtain ⟨new, hserved⟩ := serveConnection_posts (hs.among c) (hs.sound c) hl ht
    obtain ⟨hframes, -⟩ := serveConnection_frames (hs.among c) ht
    -- the frames among the packets are those that are on record
    have hfwd : new.filter Out.isFrame = (forwardedOf (serveDeeds env ⟨s.conns c, s.ctx⟩)).map
        (.frame ((s.conns c).tcp.portid + 1)) := by
      unfold Ctx.frames at hframes
      rw [hserved.out, List.filter_append] at hframes
      exact List.append_cancel_left hframes
    refine ⟨new, hserved.out, fun o ho => ?_, fun d v b hd => ?_, fun d v hd => ?_, fun d => ?_⟩
    · rcases hserved.cause o ho with hframe | hwithin | ⟨v, b, hd, hwithin⟩
      · have hmem' : o ∈ new.filter Out.isFrame := List.mem_filter.mpr ⟨ho, hframe⟩
        rw [hfwd] at hmem'
        obtain ⟨frame, hsent, rfl⟩ := List.mem_map.mp hmem'
        obtain ⟨e, he, hfe⟩ := List.mem_filterMap.mp hsent
        cases e with
        | forwarded v =>
          cases hfe
          exact .forwarded (hself ▸ he)
        | _ => cases hfe
      · exact .again c hwithin
      · exact .flight (hself ▸ hd) hwithin
    · rw [hdeeds] at hd
      split at hd
      · exact hserved.flight v b hd
      · exact absurd hd List.not_mem_nil
    · rw [hdeeds] at hd
      split at hd
      · rename_i hc
        subst hc
        refine List.mem_of_mem_filter (p := Out.isFrame) ?_
        rw [hfwd]
        exact List.mem_map_of_mem (List.mem_filterMap.mpr ⟨_, hd, rfl⟩)
      · exact absurd hd List.not_mem_nil
    · by_cases hd : d = c
      · subst hd
        rw [s.put_self, hself]
        exact hserved.records
      · have hother : (s.put c t).conns d = s.conns d := if_neg hd
        rw [hother]
        exact .inl rfl
  · rename_i hmem
    cases h
    have hdeeds : ∀ d, deeds env (.serve c) s d = [] := fun d => by simp only [deeds, hmem, and_false, if_false]
    refine ⟨[], (List.append_nil _).symm, fun _ ho => absurd ho List.not_mem_nil, fun d v b hd => ?_, fun d v hd => ?_,
      fun _ => .inl rfl⟩ <;> rw [hdeeds] at hd <;> exact absurd hd List.not_mem_nil

theorem setConn_records {f : Session → Session} (hconns : s'.conns = (s.setConn c f).conns)
    (hf : (f (s.conns c).sess).serverRecords = (s.conns c).sess.serverRecords) (d : ConnId) :
    (s'.conns d).sess.serverRecords = (s.conns d).sess.serverRecords := by
  rw [hconns]
  by_cases hd : d = c
  · subst hd
    simp only [Sys.setConn, if_true, hf]
  · simp only [Sys.setConn, if_neg hd]

/-- Behind every packet of a step stands its cause, and a deed that sends has its packets. -/
theorem step_posted (hs : s.Conducted) (h : step env x s = .ok s') : ∃ new, Posted env x s s' new := by
  cases x with
  | packet port p => exact processPacket_posted h
  | serve c => exact serve_posted hs h
  | pkaSubmit priv =>
    rcases handleSubmittedPka_cases h with rfl | ⟨o, ring, d, -, -, -, -, hconns, hctx⟩
    · exact ⟨[], .still nofun rfl fun _ => rfl⟩
    · exact ⟨[], .still nofun (by rw [hctx]; rfl) (setConn_records hconns rfl)⟩
  | pkaComplete o results =>
    rcases handleCompletedPka_cases h with rfl | ⟨d, -, -, ⟨-, hconns, hctx⟩ | ⟨-, -, hconns, hctx⟩⟩
    · exact ⟨[], .still nofun rfl fun _ => rfl⟩
    all_goals exact ⟨[], .still nofun (by rw [hctx]) (setConn_records hconns rfl)⟩
  | outside o =>
    cases h
    exact ⟨[], .still nofun rfl fun _ => rfl⟩

end

end Xtls.Nic
