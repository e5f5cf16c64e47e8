import Xtls.Lib.Throws
import Xtls.Nic.System

/-!
# Where the process can end

Three reasons to stop are met at one place each: `send_handshake` that fails, a PKA result in a state
without a case for it, and `pop_free_connection` on an empty queue.  The functions below stop for
other reasons only.
-/

namespace Xtls.Nic

/-- A reason other than those three. -/
def Halt.Common : Halt → Prop
  | .sendFailed => False
  | .unsupportedPkaState => False
  | .notEnoughSession => False
  | _ => True

section

variable {env : Env} {s : St} {r : Record}

theorem newSslCryptoOp_throws (s : St) : Throws Halt.Common (newSslCryptoOp s) := by
  unfold newSslCryptoOp
  split
  · exact .error trivial
  · exact .ok _

theorem newRecord_throws (seq : UInt64) (s : St) : Throws Halt.Common (newRecord seq s) := by
  unfold newRecord
  split
  · exact .error trivial
  · exact .ok _

theorem bounded_throws (n : Nat) (b : Bytes) : Throws Halt.Common (bounded n b) :=
  .ite (fun _ => .error trivial) fun _ => .ok _

theorem storeHandshake_throws (m : Byte) (frag : Bytes) (s : St) :
    Throws Halt.Common (storeHandshake m frag s) := by
  refine .ite (fun _ => .ok _) fun _ => .bind (bounded_throws _ _) fun msgs _ => ?_
  split
  · exact .error trivial
  · exact .ok _

theorem removeSession_throws (s : St) : Throws Halt.Common (removeSession s) :=
  .ite (fun _ => .error trivial) fun _ => .ok _

theorem removeHws_throws (s : St) : Throws Halt.Common (removeHws s) :=
  .ite (fun _ => removeSession_throws s) fun _ => .ok _

theorem sendPendingRecords_throws (s : St) : Throws Halt.Common (sendPendingRecords s) :=
  .bind (bounded_throws _ _) fun _ _ => .ok _

theorem requestPka_throws (fill : Op) (s : St) : Throws Halt.Common (requestPka fill s) := by
  refine .bind (newSslCryptoOp_throws s) fun _ _ => ?_
  dsimp only
  split <;> exact .ok _

/-! ### Reading -/

theorem decryptRecord_throws (env : Env) (r : Record) (s : St) :
    Throws Halt.Common (decryptRecord env r s) := by
  refine .bind (newSslCryptoOp_throws s) fun _ _ => ?_
  dsimp only
  split <;> exact .ok _

theorem unpackHandshake_throws (r : Record) (s : St) : Throws Halt.Common (unpackHandshake r s) := by
  unfold unpackHandshake
  dsimp only
  refine .ite (fun _ => .ite (fun _ => .ok _) fun _ => .bind ?_ fun ch _ => ?_) fun _ => ?_
  · refine .bind ?_ fun _ _ => .ite (fun _ => .ok _) fun _ => ?_
    · unfold unpackHelloFixed
      dsimp only
      split
      · exact .error trivial
      · exact .ok _
    · dsimp only
      split
      · exact .error trivial
      · exact .ok _
  · split
    · exact .ok _
    · exact .bind (requestPka_throws _ _) fun _ _ => .ok _
  · exact .ite (fun _ => .ok _) fun _ => .ok _

theorem unpackRecord_throws (r : Record) (s : St) : Throws Halt.Common (unpackRecord r s) := by
  refine .ite (fun _ => .ok _) fun _ => ?_
  dsimp only
  split
  · exact unpackHandshake_throws _ s
  · exact .ok _
  · exact .ok _
  · exact .ok _
  · exact .error trivial

theorem openRecord_throws (env : Env) (r : Record) (s : St) : Throws Halt.Common (openRecord env r s) := by
  unfold openRecord
  split
  · exact .ok _
  · dsimp only
    refine .ite (fun _ => .bind (.ok _) fun a _ => ?_) fun _ => .bind (decryptRecord_throws env r s) fun a _ => ?_
    all_goals
      split
      · exact .ok _
      · split
        · exact .error trivial
        · exact .ok _

theorem handleAlert_throws (r : Record) (s : St) : Throws Halt.Common (handleAlert r s) := by
  unfold handleAlert
  dsimp only
  split
  · split
    · exact .bind (removeSession_throws _) fun _ _ => .ok _
    · exact .ok _
  · exact .error trivial

theorem handleApplicationData_throws (r : Record) (s : St) :
    Throws Halt.Common (handleApplicationData r s) := by
  unfold handleApplicationData
  refine .ite (fun _ => .ok _) fun _ => .ite (fun _ => ?_) fun _ => .ok _
  split
  · exact .ok _
  · dsimp only
    split
    · exact .bind (removeHws_throws _) fun _ _ => .bind (removeSession_throws _) fun _ _ => .ok _
    · exact .ok _

theorem handleReadRecord_throws (s : St)
    (h : ¬ (r.plainText.recordType = some .handshake ∧ r.fragment.msgType = HandshakeType.clientHello.code)) :
    Throws Halt.Common (handleReadRecord env r s) := by
  unfold handleReadRecord
  split
  · rename_i ht
    refine .bind (storeHandshake_throws _ _ s) fun _ _ => ?_
    split
    · rename_i hf
      exact absurd ⟨ht, by rw [hf]; rfl⟩ h
    · exact .error trivial
  · exact .ok _
  · exact handleAlert_throws r s
  · exact handleApplicationData_throws r s
  · exact .ok _

theorem processReadRecord_throws (env : Env) (rest : Nat) (r : Record) (s : St) :
    Throws Halt.Common (processReadRecord env rest r s) := by
  refine .ite (fun _ => .ok _) fun _ => .bind (openRecord_throws env _ _) fun a _ => ?_
  split
  · exact .ok _
  · refine .bind (unpackRecord_throws _ _) fun a _ => ?_
    dsimp only
    split
    · exact .ok _
    · split
      · exact .ok _
      · rename_i hn
        exact handleReadRecord_throws _ hn

theorem processSessionReadLoop_throws (env : Env) (fuel : Nat) (s : St) :
    Throws Halt.Common (processSessionReadLoop env fuel s) := by
  induction fuel generalizing s with
  | zero => exact .ok s
  | succ fuel ih =>
    refine .ite (fun _ => .ok s) fun _ => ?_
    split
    · exact .ok s
    · exact .bind (processReadRecord_throws env _ _ _) fun a _ => ih a.2

theorem newRecordRound_throws (env : Env) (pkt : Bytes) (s : St) :
    Throws Halt.Common (newRecordRound env pkt s) := by
  refine .bind ?_ fun a _ => .bind (.ite (fun _ => ?_) fun _ => .ok _) fun _ _ => .ok _
  · unfold currentRecord
    split
    · exact .ok _
    · refine .bind (newRecord_throws 0 s) fun _ _ => ?_
      dsimp only
      split
      · exact .error trivial
      · exact .ok _
  · refine .bind (.ite (fun _ => .ok _) fun _ => ?_) fun _ _ => .ok _
    exact .bind (processReadRecord_throws env _ _ _) fun _ _ => .ok _

theorem processNewRecordLoop_throws (env : Env) (fuel : Nat) (pkt : Bytes) (s : St) :
    Throws Halt.Common (processNewRecordLoop env fuel pkt s) := by
  induction fuel generalizing pkt s with
  | zero => exact .error trivial
  | succ fuel ih =>
    refine .ite (fun _ => .ok s) fun _ => .ite (fun _ => .ok s) fun _ => ?_
    exact .bind (newRecordRound_throws env pkt s) fun a _ => ih a.1 a.2

/-! ### Packets -/

theorem keepAppData_throws (p : Packet) (s : St) : Throws Halt.Common (keepAppData p s) :=
  .bind (bounded_throws _ _) fun _ _ => .ok _

theorem processHandshakePacket_throws (env : Env) (p : Packet) (s : St) :
    Throws Halt.Common (processHandshakePacket env p s) := by
  refine .ite (fun _ => keepAppData_throws p s) fun _ => ?_
  split
  · refine .bind (.ite (fun _ => .ok _) fun _ => ?_) fun a _ => ?_
    · exact .bind (processNewRecordLoop_throws env _ _ _) fun _ _ => .ok _
    · dsimp only
      split <;> exact .ok _
  · exact .ok _
  · exact .ok _
  · exact .ok _

theorem processAckPacket_throws (p : Packet) (s : St) : Throws Halt.Common (processAckPacket p s) :=
  .ite (fun _ => .ok _) fun _ => .ite (fun _ => keepAppData_throws p s) fun _ => .ok _

end

section

variable {env : Env} {s : Sys} {p : Packet}

theorem htSearch_throws (conns : ConnId → Conn) (key : Tcp) (cs : List ConnId) :
    Throws Halt.Common (htSearch conns key cs) := by
  induction cs with
  | nil => exact .ok _
  | cons c cs ih => exact .ite (fun _ => .error trivial) fun _ => .ite (fun _ => .ok _) fun _ => ih

theorem searchTcpConnection_throws (p : Packet) (s : Sys) :
    Throws Halt.Common (searchTcpConnection p s) := htSearch_throws _ _ _

theorem onConnection_throws {E : Halt → Prop} {f : St → Except Halt St} (hE : ∀ e, e.Common → E e)
    (hf : ∀ c, searchTcpConnection p s = .ok (some c) → Throws E (f ⟨s.conns c, s.ctx⟩)) :
    Throws E (onConnection p f s) := by
  refine .bind ((searchTcpConnection_throws p s).mono hE) fun found hfound => ?_
  split
  · exact .bind (hf _ hfound) fun _ _ => .ok _
  · exact .ok _

theorem processFinPacket_throws (port : UInt16) (p : Packet) (s : Sys) :
    Throws Halt.Common (processFinPacket port p s) := by
  refine .bind (searchTcpConnection_throws p s) fun found _ => ?_
  split
  · exact .ite (fun _ => .ok _) fun _ => .ok _
  · exact .ok _

theorem processRstPacket_throws (port : UInt16) (p : Packet) (s : Sys) :
    Throws Halt.Common (processRstPacket port p s) := by
  refine .bind (searchTcpConnection_throws p s) fun found _ => ?_
  split
  · exact .ite (fun _ => .ok _) fun _ => .ok _
  · exact .ok _

theorem handleSubmittedPka_throws (priv : Operand) (s : Sys) :
    Throws Halt.Common (handleSubmittedPka priv s) := by
  refine .ite (fun _ => .ok _) fun _ => ?_
  split
  · exact .ok _
  · refine .ite (fun _ => .error trivial) fun _ => ?_
    split
    · exact .error trivial
    · exact .ok _

theorem handleCompletedPka_throws (o : OpId) (results : List Bytes) (s : Sys) :
    Throws Halt.Common (handleCompletedPka o results s) := by
  refine .ite (fun _ => .ok _) fun _ => ?_
  dsimp only
  split
  · exact .error trivial
  · exact .ite (fun _ => .ok _) fun _ => .ite (fun _ => .error trivial) fun _ => .ok _

end

end Xtls.Nic
