import Xtls.Nic.Frame

/-!
# What comes back to the record pool

`Returns l c c'` says that the slots `l` were added to `record_pool` from `c` to `c'` and nothing
else, up to the order of the free list, and that `free_record_cnt` kept pace.
-/

namespace Xtls.Nic

structure Returns (l : List Nat) (c c' : Ctx) : Prop where
  pool : c'.recordPool.Perm (c.recordPool ++ l)
  cnt : c'.freeRecordCnt = c.freeRecordCnt + l.length

/-- A frame that leaves the record pool alone, too. -/
structure Still (s s' : St) : Prop extends Frame s s' where
  returns : Returns [] s.ctx s'.ctx

section

variable {s s' : St} {r : Record} {o : OpId} {env : Env} {l l' : List Nat}

theorem Returns.quiet {c c' : Ctx} (hp : c'.recordPool = c.recordPool)
    (hc : c'.freeRecordCnt = c.freeRecordCnt) : Returns [] c c' :=
  ⟨by rw [hp, List.append_nil], by rw [hc]; exact (Int.add_zero _).symm⟩

theorem Returns.refl (c : Ctx) : Returns [] c c := .quiet rfl rfl

theorem Returns.trans {a b c : Ctx} (h1 : Returns l a b) (h2 : Returns l' b c) :
    Returns (l ++ l') a c where
  pool := by
    rw [← List.append_assoc]
    exact h2.pool.trans (h1.pool.append_right l')
  cnt := by
    rw [h2.cnt, h1.cnt, List.length_append, Int.natCast_add, Int.add_assoc]

theorem Returns.balance {c c' : Ctx} (h : Returns l c c') :
    c'.freeRecordCnt - c'.recordPool.length = c.freeRecordCnt - c.recordPool.length := by
  rw [h.cnt, h.pool.length_eq, List.length_append]
  omega

theorem deleteRecord_returns (r : Record) (s : St) : Returns [r.slot] s.ctx (deleteRecord r s).ctx :=
  ⟨.refl _, rfl⟩

theorem newRecord_pool {seq : UInt64} (h : newRecord seq s = .ok (r, s')) :
    s.ctx.recordPool = r.slot :: s'.ctx.recordPool
      ∧ s.ctx.freeRecordCnt = s'.ctx.freeRecordCnt + 1 := by
  unfold newRecord at h
  split at h
  · cases h
  · rename_i slot pool hp
    cases h
    exact ⟨hp, (Int.sub_add_cancel _ _).symm⟩

/-! ### TCP output and the server flight -/

theorem sendTcpLoop_returns (flags : Byte) (fuel : Nat) (left : Bytes) (already : UInt32) (s : St) :
    Returns [] s.ctx (sendTcpLoop flags fuel left already s).ctx := by
  induction fuel generalizing left already s with
  | zero => exact .refl _
  | succ fuel ih =>
    have hseg : ∀ payload, Returns [] s.ctx (sendTcpSegment flags payload already s).ctx :=
      fun _ => .quiet rfl rfl
    unfold sendTcpLoop
    dsimp only
    split
    · exact hseg _
    · exact (hseg _).trans (ih _ _ _)

theorem sendTcpPacket_returns (flags : Byte) (payload : Bytes) (s : St) :
    Returns [] s.ctx (sendTcpPacket flags payload s).ctx := sendTcpLoop_returns ..

theorem sendTcpEmpty_still (flags : Byte) (s : St) : Still s (sendTcpPacket flags [] s) :=
  ⟨sendTcpEmpty_frame flags s, sendTcpPacket_returns flags [] s⟩

theorem sendPendingRecords_returns (h : sendPendingRecords s = .ok s') : Returns [] s.ctx s'.ctx := by
  obtain ⟨records, -, h⟩ := bind_ok h
  cases h
  exact sendTcpPacket_returns _ _ s

theorem storeHandshake_returns {m : Byte} {frag : Bytes} (h : storeHandshake m frag s = .ok s') :
    Returns [] s.ctx s'.ctx := by
  rcases storeHandshake_cases h with ⟨-, rfl⟩ | ⟨-, rfl⟩
  · exact .refl _
  · exact .quiet rfl rfl

theorem sealRecord_returns {type : ContentType} {frag data : Bytes}
    (h : sealRecord env r type frag s = .ok (data, s')) : Returns [] s.ctx s'.ctx := by
  rcases sealRecord_cases h with ⟨-, rfl, -⟩ | ⟨-, -, o, t, ho, rfl, -⟩
  · exact .refl _
  · obtain ⟨pool, -, rfl⟩ := newSslCryptoOp_cases ho
    exact .quiet rfl rfl

theorem sendRecord_returns {type : ContentType} {msgType : HandshakeType} {body : Bytes}
    (h : sendRecord env r type msgType body s = .ok s') : Returns [r.slot] s.ctx s'.ctx := by
  obtain ⟨s1, h1, h⟩ := bind_ok h
  obtain ⟨⟨data, s2⟩, h2, h⟩ := bind_ok h
  obtain ⟨buffer, -, h⟩ := bind_ok h
  cases h
  exact (storeHandshake_returns h1).trans ((sealRecord_returns h2).trans (deleteRecord_returns r _))

theorem sendMessage_returns {type : ContentType} {msgType : HandshakeType} {b : St → Bytes}
    (h : (do let (r, t) ← newSendRecord s
             sendRecord env r type msgType (b t) t) = .ok s') : Returns [] s.ctx s'.ctx := by
  obtain ⟨⟨r, t⟩, hr, h⟩ := bind_ok h
  obtain ⟨hpool, hcnt⟩ := newRecord_pool hr
  have hsend := sendRecord_returns h
  refine ⟨?_, hsend.cnt.trans ?_⟩
  · rw [hpool, List.append_nil]
    exact hsend.pool.trans (List.perm_append_singleton _ _)
  · rw [hcnt]
    exact (Int.add_zero _).symm

theorem sendServerHello_returns (h : sendServerHello env s = .ok s') : Returns [] s.ctx s'.ctx :=
  sendMessage_returns h

theorem sendEncryptedExtensions_returns (h : sendEncryptedExtensions env s = .ok s') :
    Returns [] s.ctx s'.ctx :=
  sendMessage_returns (b := fun _ => put16 0) h

theorem sendCertificate_returns (h : sendCertificate env s = .ok s') : Returns [] s.ctx s'.ctx :=
  sendMessage_returns (b := fun _ => certificateBody env) h

theorem sendCertificateVerify_returns (h : sendCertificateVerify env s = .ok s') :
    Returns [] s.ctx s'.ctx :=
  sendMessage_returns (b := fun t => certificateVerifyBody t.conn.sess) h

theorem sendServerFinished_returns (h : sendServerFinished env s = .ok s') :
    Returns [] s.ctx s'.ctx :=
  sendMessage_returns
    (b := fun t => finishedMac env.crypto t.conn.sess.tls13Ctx.serverSecret
      t.conn.sess.handshakeMsgs) h

theorem retransmittedHello_returns (env : Env) (r : Record) (s : St) :
    Returns [r.slot] s.ctx (retransmittedHello env r s).ctx := by
  unfold retransmittedHello
  extract_lets h signed s1 s2
  have h1 : Returns [] s.ctx s1.ctx := by
    unfold s1
    split
    · exact .quiet rfl rfl
    · exact .refl _
  have h2 : Returns [] s1.ctx s2.ctx := by
    unfold s2
    split
    · exact sendTcpPacket_returns _ _ _
    · exact .refl _
  exact h1.trans (h2.trans (deleteRecord_returns r _))

/-! ### PKA requests -/

theorem requestPka_returns {fill : Op} {ret : Int} (h : requestPka fill s = .ok (ret, s')) :
    Returns [] s.ctx s'.ctx := by
  obtain ⟨⟨o, t⟩, ho, h⟩ := bind_ok h
  obtain ⟨pool, -, rfl⟩ := newSslCryptoOp_cases ho
  dsimp only [submitPkaRequest] at h
  by_cases hfull : s.ctx.ringCnt ≤ s.ctx.submitPkaRing.length + 1
  · simp only [St.mapCtx_ctx, Ctx.setOp, hfull, if_true] at h
    cases h
    exact .quiet rfl rfl
  · simp only [St.mapCtx_ctx, Ctx.setOp, hfull, if_false] at h
    cases h
    exact .quiet rfl rfl

theorem calculateSharedSecret_returns {pub : Bytes} {ret : Int}
    (h : calculateSharedSecret pub s = .ok (ret, s')) : Returns [] s.ctx s'.ctx := by
  have hreq := requestPka_returns h
  exact hreq

theorem signatureCertificate_returns {ret : Int} (h : signatureCertificate env s = .ok (ret, s')) :
    Returns [] s.ctx s'.ctx := by
  have hreq := requestPka_returns h
  exact hreq

end

end Xtls.Nic
