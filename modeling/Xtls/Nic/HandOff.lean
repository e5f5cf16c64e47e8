import Xtls.Nic.ClientFlight

/-!
# Where the host takes over

The key meta packet tells the host to receive from the byte behind an 80-byte second flight (`tcp.c` 1815);
the ACK that `handle_application_data` sends on the Finished takes its number from the segment being read
(`tcp.c` 2617-2648) and corrects it by a constant (`tcp.c` 2179-2183).
-/

namespace Xtls.Nic

/-- `process_new_record` gets to state `t` with the bytes `pkt` of segment `p` left, and the connection
was not removed on the way. -/
inductive ReadsSegment (env : Env) (p : Packet) (s : St) : Bytes → St → Prop
  | start : ReadsSegment env p s p.payload (storeNumbers p s)
  | round {pkt pkt' : Bytes} {t t' : St} (before : ReadsSegment env p s pkt t)
      (h : newRecordRound env pkt t = .ok (pkt', t')) (live : t'.ctx.activeCnt = t.ctx.activeCnt) :
      ReadsSegment env p s pkt' t'

section

variable {env : Env} {s s' t u : St} {r : Record} {p : Packet} {pkt back : Bytes} {rest : Nat} {ret : Int}

/-! ### The numbers stay -/

structure KeepsNumbers (s s' : St) : Prop where
  cnt : s'.ctx.activeCnt ≤ s.ctx.activeCnt
  numbers : s'.ctx.activeCnt = s.ctx.activeCnt → s'.conn.tcp.lastRecvSeq = s.conn.tcp.lastRecvSeq
    ∧ s'.conn.tcp.lastRecvLen = s.conn.tcp.lastRecvLen

theorem KeepsNumbers.same (hctx : s'.ctx.activeCnt = s.ctx.activeCnt)
    (hseq : s'.conn.tcp.lastRecvSeq = s.conn.tcp.lastRecvSeq)
    (hlen : s'.conn.tcp.lastRecvLen = s.conn.tcp.lastRecvLen) : KeepsNumbers s s' :=
  ⟨Int.le_of_eq hctx, fun _ => ⟨hseq, hlen⟩⟩

theorem KeepsNumbers.trans (h : KeepsNumbers s t) (h' : KeepsNumbers t u) : KeepsNumbers s u := by
  refine ⟨Int.le_trans h'.cnt h.cnt, fun heq => ?_⟩
  have hle := h.cnt
  have hle' := h'.cnt
  obtain ⟨hseq, hlen⟩ := h.numbers (by omega)
  obtain ⟨hseq', hlen'⟩ := h'.numbers (by omega)
  exact ⟨hseq'.trans hseq, hlen'.trans hlen⟩

theorem readRule_numbers : ReadRule KeepsNumbers where
  refl s := .same rfl rfl rfl
  trans := KeepsNumbers.trans
  frame _ _ hf := .same (congrArg Ctx.activeCnt hf.ctx :) (congrArg Tcp.lastRecvSeq hf.tcp :)
    (congrArg Tcp.lastRecvLen hf.tcp :)
  hello _ _ _ _ _ _ _ _ _ hsub :=
    .same (congrArg Ctx.activeCnt hsub.ctx :) (by rw [hsub.tcp]) (by rw [hsub.tcp])
  spec _ _ := .same rfl rfl rfl
  finish _ _ := .same rfl rfl rfl
  removed _ _ hr := by
    have hcnt := hr.activeCnt
    exact ⟨by omega, fun heq => by omega⟩
  call _ _ _ := .same rfl rfl rfl
  complete _ _ := .same rfl rfl rfl
  queues _ _ _ := .same rfl rfl rfl

theorem ReadsSegment.numbers (h : ReadsSegment env p s pkt t) : t.conn.tcp.lastRecvSeq = p.seq
    ∧ t.conn.tcp.lastRecvLen = p.payloadLen.toUInt32 ∧ pkt.length ≤ p.payload.length := by
  induction h with
  | start => exact ⟨rfl, rfl, Nat.le_refl _⟩
  | round _ hround hlive ih =>
    obtain ⟨hseq, hlen⟩ := (readRule_numbers.round hround).numbers hlive
    obtain ⟨r, s1, -, rfl, -⟩ := newRecordRound_cases hround
    refine ⟨hseq.trans ih.1, hlen.trans ih.2.1, ?_⟩
    rw [List.length_drop]
    omega

/-! ### The acknowledgement of the Finished -/

theorem processReadRecord_activates (h : processReadRecord env rest r s = .ok (ret, s'))
    (hw : s.conn.sess.waitingCrypto = false) (hs : s.conn.sess.state ≠ .active)
    (ha : s'.conn.sess.state = .active) :
    ∃ t q, KeepsNumbers s t ∧ t.ctx.activeCnt = s.ctx.activeCnt
      ∧ s' = deleteRecord q (sendTcpPacket TCP_FLAG_ACK [] (finishHandshake t)) := by
  have hother : ∀ {t}, Frame (reading rest r s) t → t.conn.sess.state ≠ .active := fun hf ht =>
    hs (hf.state.symm.trans ht)
  have hremoved : ∀ {a}, Removed a s' → False := fun hr => by
    rw [hr.sess] at ha
    cases ha
  cases processReadRecord_outcome h hw with
  | dropped hf => exact absurd ha (hother hf)
  | hello _ _ _ hf _ hsub =>
    rw [hsub.sess] at ha
    exact absurd ha (hother hf)
  | @cipherSpec s1 _ _ _ _ hf hf' =>
    have hstate : s1.conn.sess.state = .active := hf'.state.symm.trans ha
    exact absurd hstate (hother hf)
  | alert _ _ _ hr => exact (hremoved (removeSession_removed hr)).elim
  | refused _ _ _ _ _ _ _ hr => exact (hremoved (removeSession_removed hr)).elim
  | finished hrd hinner hst hvd =>
    have htype : byteAt r.data 0 ≠ ContentType.handshake.code := by
      rw [hrd.code]
      decide
    rw [processReadRecord_eq htype] at h
    obtain ⟨⟨x, t⟩, hopen, -⟩ := bind_ok h
    obtain ⟨hf, hopened, -⟩ := openRecord_cases hopen
    have hx := hopened.symm.trans hrd.opened
    obtain ⟨q, rfl, rfl⟩ := Option.map_eq_some_iff.mp hx
    have hversion := hrd.version
    have hrecord := hrd.recordType
    rw [takeLength_version] at hversion
    rw [takeLength_recordType] at hrecord
    have hst' : ¬ .finished ≤ t.conn.sess.handshakeState := by
      have hh := hf.handshakeState
      rw [hh]
      exact hst
    have hvd' : t.conn.sess.tls13Ctx.calculatedVd = (takeLength q).verifyData := by
      have hk := hf.tls13Ctx
      rw [hk]
      exact hvd
    have haccept : handleApplicationData
        { takeLength q with fragment := .finished (slice (takeLength q).pf handshakeHeaderSize 48) } t = _ :=
      handleApplicationData_accepts hinner hst' hvd'
    rw [readRecord_appData hopen hversion hrecord, if_pos hinner, haccept] at h
    cases h
    exact ⟨t, _, (readRule_numbers.call rest r s).trans (readRule_numbers.frame _ _ hf),
      (congrArg Ctx.activeCnt hf.ctx :), rfl⟩

theorem newRecordRound_activates (h : newRecordRound env pkt t = .ok (back, u)) (ht : t.conn.sess.state ≠ .active)
    (hu : u.conn.sess.state = .active) :
    ∃ v, KeepsNumbers t v ∧ v.ctx.activeCnt = t.ctx.activeCnt
      ∧ u.ctx.out = (sendTcpPacket TCP_FLAG_ACK [] (finishHandshake v)).ctx.out := by
  obtain ⟨r, s1, hcur, -, hcases⟩ := newRecordRound_cases h
  have h1 : KeepsNumbers t s1 ∧ s1.ctx.activeCnt = t.ctx.activeCnt ∧ s1.conn.sess.state = t.conn.sess.state := by
    rcases currentRecord_cases hcur with ⟨-, rfl⟩ | ⟨-, -, hf, -⟩
    · exact ⟨readRule_numbers.refl _, rfl, rfl⟩
    · exact ⟨readRule_numbers.frame _ _ hf, (congrArg Ctx.activeCnt hf.ctx :), hf.state⟩
  have hinactive : s1.conn.sess.state ≠ .active := h1.2.2.trans_ne ht
  rcases hcases with ⟨-, rfl⟩ | ⟨-, s2, hs2, rfl⟩
  · exact absurd hu hinactive
  · rcases takeRecord_cases hs2 with ⟨-, rfl⟩ | ⟨hw, ret, hread⟩
    · exact absurd hu hinactive
    · obtain ⟨v, q, hkeeps, hcnt, rfl⟩ := processReadRecord_activates hread hw hinactive hu
      have hset : KeepsNumbers s1 (completing (filled r pkt) (setCurrent (some (filled r pkt)) s1)) :=
        .same rfl rfl rfl
      exact ⟨v, h1.1.trans (hset.trans hkeeps), hcnt.trans h1.2.1, rfl⟩

/-- The number in the ACK on the Finished: the end of the segment, less 126 in a segment of more bytes. -/
theorem finishedAck (h : ReadsSegment env p s pkt t) (ht : t.conn.sess.state ≠ .active)
    (hround : newRecordRound env pkt t = .ok (back, u)) (hu : u.conn.sess.state = .active) :
    ∃ out port ack, u.ctx.out = out ++ [.tcp port ack] ∧ ack.flags = TCP_FLAG_ACK ∧ ack.payload = []
      ∧ ack.recvAck = p.seq + p.payloadLen.toUInt32
        - (if p.payloadLen.toUInt32 > 126 then 126 else 0) := by
  obtain ⟨v, hkeeps, hcnt, hout⟩ := newRecordRound_activates hround ht hu
  obtain ⟨hseq, hlen⟩ := hkeeps.numbers hcnt
  obtain ⟨hseq', hlen', -⟩ := h.numbers
  refine ⟨v.ctx.out, _, _, hout, rfl, rfl, ?_⟩
  show recvAckOf (finishHandshake v).conn = _
  have hack : recvAckOf (finishHandshake v).conn
      = if v.conn.tcp.lastRecvLen > 126 then v.conn.tcp.lastRecvSeq + v.conn.tcp.lastRecvLen - 126
        else v.conn.tcp.lastRecvSeq + v.conn.tcp.lastRecvLen := by
    unfold recvAckOf
    exact if_congr (and_iff_right rfl) rfl rfl
  rw [hack, hseq, hlen, hseq', hlen']
  split
  · rfl
  · exact (UInt32.sub_zero _).symm

theorem ofNat_sub_iff {n m k : Nat} (hn : n < 65536) (hm : m ≤ n) (hk : k ≤ n) (a : UInt32) :
    a + UInt32.ofNat n - UInt32.ofNat m = a + UInt32.ofNat (n - k) ↔ m = k := by
  have hsub : a + UInt32.ofNat n - UInt32.ofNat m = a + UInt32.ofNat (n - m) := by
    rw [UInt32.ofNat_sub hm, UInt32.sub_eq_add_neg, UInt32.sub_eq_add_neg, UInt32.add_assoc]
  rw [hsub, UInt32.add_right_inj]
  constructor
  · intro h
    have hnat := congrArg UInt32.toNat h
    rw [UInt32.toNat_ofNat', UInt32.toNat_ofNat'] at hnat
    omega
  · rintro rfl
    rfl

/-- The segment that completes the Finished brings the ACK to the number in the key meta packet, the byte
behind the 80 bytes that follow the ClientHello, exactly if it ends with the Finished and has at most
126 bytes, or has 126 bytes behind the Finished. -/
theorem handOff_agrees {m : St} {port : UInt16} {hdr : MetaHdr}
    (hsent : (sendKeyMeta env port m).ctx.out = m.ctx.out ++ [.keyMeta port hdr])
    (h : ReadsSegment env p s pkt t) (ht : t.conn.sess.state ≠ .active)
    (hround : newRecordRound env pkt t = .ok (back, u)) (hu : u.conn.sess.state = .active)
    (hflight : p.seq + UInt32.ofNat (p.payload.length - back.length)
      = m.conn.tcp.lastRecvSeq + m.conn.tcp.lastRecvLen + 80) :
    hdr.serverAckNum = p.seq + UInt32.ofNat (p.payload.length - back.length)
      ∧ ∃ out port ack, u.ctx.out = out ++ [.tcp port ack] ∧ ack.flags = TCP_FLAG_ACK ∧ ack.payload = []
        ∧ (ack.recvAck = hdr.serverAckNum ↔
          p.payload.length ≤ 126 ∧ back = [] ∨ 126 < p.payload.length ∧ back.length = 126) := by
  have hhdr : hdr.serverAckNum = m.conn.tcp.lastRecvSeq + m.conn.tcp.lastRecvLen + 80 := by
    have hlast := List.append_cancel_left hsent
    cases hlast
    rfl
  have hpos := hhdr.trans hflight.symm
  refine ⟨hpos, ?_⟩
  obtain ⟨out, port', ack, hout, hflags, hempty, hack⟩ := finishedAck h ht hround hu
  refine ⟨out, port', ack, hout, hflags, hempty, ?_⟩
  have hpkt := h.numbers.2.2
  have hback : back.length ≤ p.payload.length := by
    obtain ⟨r, s1, -, rfl, -⟩ := newRecordRound_cases hround
    rw [List.length_drop]
    omega
  have hlt := p.payloadLt
  have hlen : p.payloadLen.toUInt32 = UInt32.ofNat p.payload.length := by
    apply UInt32.toNat_inj.mp
    rw [UInt16.toNat_toUInt32, Packet.payloadLen, UInt16.toNat_ofNat', UInt32.toNat_ofNat']
    omega
  have hlarge : p.payloadLen.toUInt32 > 126 ↔ 126 < p.payload.length := by
    rw [hlen, gt_iff_lt, UInt32.lt_iff_toNat_lt, UInt32.toNat_ofNat']
    show 126 < _ ↔ _
    omega
  rw [hpos, hack]
  by_cases hbig : 126 < p.payload.length
  · rw [if_pos (hlarge.mpr hbig), hlen]
    refine (ofNat_sub_iff hlt (Nat.le_of_lt hbig) hback p.seq).trans ?_
    omega
  · rw [if_neg fun h => hbig (hlarge.mp h), hlen]
    refine (ofNat_sub_iff hlt (Nat.zero_le _) hback p.seq).trans ?_
    rw [← List.length_eq_zero_iff]
    omega

end

/-! ### Two flights of the sample connection -/

/- The second flight in one segment, with `app` behind it. -/
def sampleSecond (app : Bytes) (h : (sampleCipherSpec ++ sampleFinished ++ app).length < 65536) : Packet :=
  sampleSegment 211 5 (sampleCipherSpec ++ sampleFinished ++ app) h

theorem handOff_agrees_alone : ∃ s t u out port ack,
    run (step sampleEnv) sampleMigrated (initial 2 8) = .ok s
      ∧ ReadsSegment sampleEnv (sampleSecond [] (by decide)) ⟨s.conns 0, s.ctx⟩ sampleFinished t
      ∧ newRecordRound sampleEnv sampleFinished t = .ok ([], u) ∧ u.conn.sess.state = .active
      ∧ u.ctx.out = out ++ [.tcp port ack] ∧ ack.recvAck = 291 := by
  obtain ⟨s, hs, hpos, hround⟩ := endsIn_ok (fun s : Sys =>
      (211 : UInt32) + UInt32.ofNat (80 - 0) = (s.conns 0).tcp.lastRecvSeq + (s.conns 0).tcp.lastRecvLen + 80
      ∧ endsIn (fun x : Bytes × St => x.1 = sampleFinished ∧ x.2.ctx.activeCnt = s.ctx.activeCnt
          ∧ x.2.conn.sess.state ≠ .active
          ∧ endsIn (fun y : Bytes × St => y.1 = [] ∧ y.2.conn.sess.state = .active)
            (newRecordRound sampleEnv sampleFinished x.2) = true)
        (newRecordRound sampleEnv (sampleCipherSpec ++ sampleFinished)
          (storeNumbers (sampleSecond [] (by decide)) ⟨s.conns 0, s.ctx⟩)) = true)
    (run (step sampleEnv) sampleMigrated (initial 2 8)) (by decide +kernel)
  obtain ⟨⟨pkt, t⟩, ht, hpkt, hlive, hinactive, hround⟩ := endsIn_ok _ _ hround
  obtain ⟨⟨back, u⟩, hu, hback, hactive⟩ := endsIn_ok _ _ hround
  obtain rfl : pkt = sampleFinished := hpkt
  obtain rfl : back = [] := hback
  have hreads : ReadsSegment sampleEnv (sampleSecond [] (by decide)) ⟨s.conns 0, s.ctx⟩ sampleFinished t :=
    .round .start ht hlive
  have hsent : (sendKeyMeta sampleEnv 1 ⟨s.conns 0, s.ctx⟩).ctx.out
      = s.ctx.out ++ [.keyMeta 1 (sendKeyMeta sampleEnv 1 ⟨s.conns 0, s.ctx⟩).conn.sess.metaHdr] := rfl
  obtain ⟨hnum, out, port, ack, hout, -, -, hiff⟩ :=
    handOff_agrees (p := sampleSecond [] (by decide)) (m := ⟨s.conns 0, s.ctx⟩) hsent hreads hinactive hu hactive hpos
  exact ⟨s, t, u, out, port, ack, hs, hreads, hu, hactive, hout,
    (hiff.mpr (.inl ⟨by decide, rfl⟩)).trans (hnum.trans (by decide))⟩

def Out.ackNum : Out → Option UInt32
  | .tcp _ pkt => if pkt.flags = TCP_FLAG_ACK ∧ pkt.payload = [] then some pkt.recvAck else none
  | _ => none

def Out.hostAckNum : Out → Option UInt32
  | .keyMeta _ hdr => some hdr.serverAckNum
  | _ => none

def sampleCoalesced : List Input := sampleMigrated ++ [.packet 0 (sampleSecond [0x17] (by decide))]

/-- One byte behind the Finished is acknowledged, although the host is told to receive it. -/
theorem coalescedByte_acknowledged : ∃ s, run (step sampleEnv) sampleCoalesced (initial 2 8) = .ok s
    ∧ (s.conns 0).sess.state = .active ∧ s.ctx.out.filterMap Out.hostAckNum = [291]
    ∧ s.ctx.out.getLast?.bind Out.ackNum = some 292 := by
  obtain ⟨s, hs, hacks⟩ := endsIn_ok (fun s : Sys => (s.conns 0).sess.state = .active
      ∧ s.ctx.out.filterMap Out.hostAckNum = [291] ∧ s.ctx.out.getLast?.bind Out.ackNum = some 292)
    (run (step sampleEnv) sampleCoalesced (initial 2 8)) (by decide +kernel)
  exact ⟨s, hs, hacks⟩

end Xtls.Nic
