import Xtls.Host.Meta
import Xtls.Nic.Placement

/-!
# The migration-finish frame on the NIC

The frame that `send_mig_fin_to_arm` builds from a decoded key meta packet (`meta_pkt.c` 90-237, 425-481),
as the NIC takes it in (`tcp.c` 2458-2546, 2939-3005).  The host keeps addresses and ports in host order
and the NIC in the order of the wire; the server's address and port are constants of the host.
-/

namespace Xtls.Host

open Xtls.Nic

section

variable {env : Env} {s : Sys} {t : St} {c : ConnId} {hdr : MetaHdr} {port port' : UInt16}

theorem parsePacket_migFin (tls13 : Bool) (recvBytes : Int) (hdr : MetaHdr) :
    let p := parsePacket (sendMigFinToArm (handleMetaData tls13 hdr.encode).1 recvBytes)
    p.etherType = 0x0800 ∧ p.tos = 0xfd
      ∧ p.addr = (hdr.clientIp, hdr.clientPort, le32 (put32 SERVER_IP) 0, le16 (put16 SSL_PORT) 0)
      ∧ p.seq = hdr.serverSeqNum ∧ p.ack = hdr.serverAckNum := by
  have hinfo := handleMetaData_info hdr tls13
  generalize (handleMetaData tls13 hdr.encode).1 = m at hinfo ⊢
  intro p
  obtain ⟨htype, htos, hsrc, hdst, hsport, hdport, hseq, hack⟩ :=
    parsePacket_armFrame 0xfd (putLe32 (m.ackNum + UInt32.ofInt recvBytes)) m
  have hip : p.srcIp = hdr.clientIp := by
    refine hsrc.trans ?_
    rw [hinfo, put32_ntohl, le32_putLe32]
  have hport : p.srcPort = hdr.clientPort := by
    refine hsport.trans ?_
    rw [hinfo, put16_ntohs, le16_putLe16]
  refine ⟨htype, htos, ?_, hseq.trans (by rw [hinfo]), hack.trans (by rw [hinfo])⟩
  rw [← hip, ← hport]
  exact congrArg₂ (fun a b => (p.srcIp, p.srcPort, a, b)) hdst hdport

theorem validatePacketType_migFin {p : Packet} (htype : p.etherType = 0x0800) (htos : p.tos = 0xfd)
    (hport : port % 2 = 1) : validatePacketType port p = some .hostMigFin := by
  unfold validatePacketType
  rw [if_neg (not_not.mpr htype), htos, if_neg (by decide), if_pos hport, if_pos rfl]

theorem server_addr {tcp : Tcp} (hip : ntohl tcp.serverIp = SERVER_IP) (hport : ntohs tcp.serverPort = SSL_PORT) :
    le32 (put32 SERVER_IP) 0 = tcp.serverIp ∧ le16 (put16 SSL_PORT) 0 = tcp.serverPort := by
  rw [← hip, ← hport, put32_ntohl, put16_ntohs, le32_putLe32, le16_putLe16]
  exact ⟨rfl, rfl⟩

/- A migration-finish packet with the numbers of the header sets the flag and does nothing else. -/
theorem step_migFin {p : Packet} (htype : validatePacketType port p = some .hostMigFin)
    (hfound : searchTcpConnection p s = .ok (some c)) (hm : matchesMeta p (s.conns c).sess = true) :
    step env (.packet port p) s
      = .ok (s.put c ⟨{ s.conns c with tcp := { (s.conns c).tcp with recvMigFin := true } }, s.ctx⟩) := by
  have hfin : processHostMigFin p ⟨s.conns c, s.ctx⟩
      = ⟨{ s.conns c with tcp := { (s.conns c).tcp with recvMigFin := true } }, s.ctx⟩ := if_pos hm
  rw [step, processPacket, htype]
  show onConnection p _ s = _
  rw [onConnection, hfound]
  exact congrArg (fun t => Except.ok (s.put c t)) hfin

/-- In every run, as long as an active connection to the server keeps the header of a key meta packet that was
sent for it, the frame that the host builds from this packet is a migration-finish packet, finds this
connection and no other one, carries the two numbers of the header, and sets `recv_mig_fin` without a reset. -/
theorem migFin_arrives {n ringCnt : Nat} {inputs : List Input}
    (h : run (step env) inputs (initial n ringCnt) = .ok s) (hlisted : Listed s.ctx c)
    (hip : ntohl (s.conns c).tcp.serverIp = SERVER_IP) (hserver : ntohs (s.conns c).tcp.serverPort = SSL_PORT)
    (hsent : (sendKeyMeta env port t).ctx.out = t.ctx.out ++ [.keyMeta port hdr])
    (hconn : t.conn.tcp.addr = (s.conns c).tcp.addr) (hkept : (s.conns c).sess.metaHdr = hdr)
    (tls13 : Bool) (recvBytes : Int) (hport : port' % 2 = 1) :
    let p := parsePacket (sendMigFinToArm (handleMetaData tls13 hdr.encode).1 recvBytes)
    validatePacketType port' p = some .hostMigFin
      ∧ searchTcpConnection p s = .ok (some c)
      ∧ (∀ d, Listed s.ctx d → (s.conns d).tcp.addr = p.addr → d = c)
      ∧ p.seq = (s.conns c).sess.metaHdr.serverSeqNum ∧ p.ack = (s.conns c).sess.metaHdr.serverAckNum
      ∧ step env (.packet port' p) s
        = .ok (s.put c ⟨{ s.conns c with tcp := { (s.conns c).tcp with recvMigFin := true } }, s.ctx⟩) := by
  intro p
  obtain ⟨-, hplaced⟩ := run_placed h
  obtain ⟨htype, htos, haddr, hseq, hack⟩ := parsePacket_migFin tls13 recvBytes hdr
  have hhdr : hdr.clientIp = t.conn.tcp.clientIp ∧ hdr.clientPort = t.conn.tcp.clientPort := by
    have hlast := List.append_cancel_left hsent
    cases hlast
    exact ⟨rfl, rfl⟩
  have hsame : (s.conns c).tcp.addr = p.addr := by
    obtain ⟨hip', hport'⟩ := server_addr hip hserver
    obtain ⟨hc, hcp, -, -⟩ := (addr_eq_iff _ _).mp hconn
    rw [haddr, hip', hport', hhdr.1, hhdr.2, hc, hcp]
    rfl
  have hfound := hplaced.search hlisted hsame
  have hfin := validatePacketType_migFin htype htos hport
  have hmeta : matchesMeta p (s.conns c).sess = true := by
    rw [matchesMeta, hkept]
    exact decide_eq_true ⟨hseq, hack⟩
  refine ⟨hfin, hfound, fun d hd hda => hplaced.unique d c hd hlisted (hda.trans hsame.symm), ?_, ?_,
    step_migFin hfin hfound hmeta⟩
  · rw [hkept]
    exact hseq
  · rw [hkept]
    exact hack

def toServer : Input → Input
  | .packet port p => .packet port { p with dstIp := le32 (put32 SERVER_IP) 0 }
  | x => x

theorem migFin_arrives_sample : ∃ s s' p,
    run (step sampleEnv) (sampleServerFlight.map toServer) (initial 2 8) = .ok s
      ∧ p = parsePacket (sendMigFinToArm (handleMetaData true (s.conns 0).sess.metaHdr.encode).1 0)
      ∧ step sampleEnv (.packet 1 p) s = .ok s' ∧ (s'.conns 0).tcp.recvMigFin = true := by
  obtain ⟨s, hs, hmem, hip, hport, hkept⟩ := endsIn_ok
    (fun s : Sys => 0 ∈ s.ctx.htTable (calculateHash (s.conns 0).tcp)
      ∧ ntohl (s.conns 0).tcp.serverIp = SERVER_IP ∧ ntohs (s.conns 0).tcp.serverPort = SSL_PORT
      ∧ (s.conns 0).sess.metaHdr = (sendKeyMeta sampleEnv 1 ⟨s.conns 0, s.ctx⟩).conn.sess.metaHdr)
    (run (step sampleEnv) (sampleServerFlight.map toServer) (initial 2 8)) (by decide +kernel)
  have hsent : (sendKeyMeta sampleEnv 1 ⟨s.conns 0, s.ctx⟩).ctx.out
      = s.ctx.out ++ [.keyMeta 1 (sendKeyMeta sampleEnv 1 ⟨s.conns 0, s.ctx⟩).conn.sess.metaHdr] := rfl
  have hdone := migFin_arrives (t := ⟨s.conns 0, s.ctx⟩) hs ⟨_, hmem⟩ hip hport hsent rfl hkept true 0
    (show (1 : UInt16) % 2 = 1 by decide)
  have hstep := hdone.2.2.2.2.2
  rw [← hkept] at hstep
  exact ⟨s, _, _, hs, rfl, hstep, congrArg (fun c : Conn => c.tcp.recvMigFin) (s.put_self 0 _)⟩

end

end Xtls.Host
