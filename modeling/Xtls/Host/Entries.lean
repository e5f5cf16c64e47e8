import Xtls.Host.Loop

/-!
# Where an entry of the table comes from

What `handle_meta_data` takes from a key meta packet (`meta_pkt.c` 90-249) stays with the connection until it
leaves the table, and a MIG_FIN (`meta_pkt.c` 424-481) is built from it: no event of the loop
(`main.c` 566-682) changes the numbers or the keys of a connection.
-/

namespace Xtls.Host

open Xtls.Nic

/-- A connection of the table, with its socket, for which the frame is built. -/
structure Thread.Reports (t : Thread) (c : ConnRef) (sock : Option SockInfo) (frame : Bytes) : Prop where
  entry : t.InTable c
  sock : sock = t.sockOf c
  frame : frame = sendMigFinToArm (t.conns c).metaInfo (t.conns c).recvBytes

section

variable {n : Nat} {cfg : Config} {i : ThreadInput} {t t' : Thread} {c d : ConnRef} {sock : Option SockInfo}
  {frame : Bytes}

theorem Thread.mem_fins : Sent.migFin c sock frame ∈ t.fins ↔ Sent.migFin c sock frame ∈ t.sent := by
  rw [Thread.fins, List.mem_filter]
  exact and_iff_left rfl

theorem Thread.mem_sent_of_fins (h : t'.fins = t.fins) (hs : Sent.migFin c sock frame ∈ t'.sent) :
    Sent.migFin c sock frame ∈ t.sent := by
  rw [← Thread.mem_fins, h] at hs
  exact Thread.mem_fins.mp hs

theorem sendMigFin_reports (hc : t.InTable c) (h : Sent.migFin d sock frame ∈ (t.sendMigFin true c).sent) :
    Sent.migFin d sock frame ∈ t.sent ∨ t.Reports d sock frame := by
  rcases List.mem_append.mp h with h | h
  · exact .inl h
  · cases List.mem_singleton.mp h
    exact .inr ⟨hc, rfl, rfl⟩

/-- A MIG_FIN that a step adds is for a connection of the table, and carries its numbers. -/
theorem threadStep_reports (ho : Orderly t) (h : threadStep cfg i t = .ok t')
    (hs : Sent.migFin d sock frame ∈ t'.sent) : Sent.migFin d sock frame ∈ t.sent ∨ t.Reports d sock frame := by
  have hevents : ∀ rest : List Pending, Sent.migFin d sock frame ∈ ({ t with events := rest } : Thread).sent
      ∨ Thread.Reports { t with events := rest } d sock frame →
      Sent.migFin d sock frame ∈ t.sent ∨ t.Reports d sock frame := fun _ hor =>
    hor.imp id fun hr => ⟨hr.entry, hr.sock, hr.frame⟩
  cases threadStep_moves h with
  | idle => exact .inl hs
  | wait => exact .inl hs
  | noFrame => exact .inl hs
  | packet rest _ _ hm =>
    refine hevents rest ?_
    cases handleMetaPacket_outcome hm with
    | quiet _ hfins => exact .inl (Thread.mem_sent_of_fins hfins hs)
    | reports _ hfound heq =>
      rw [heq] at hs
      exact sendMigFin_reports (htSearch_inTable hfound) hs
    | adds _ _ hadds =>
      rw [hadds.sent] at hs
      exact .inl hs
    | replaces _ _ _ hsent hadds =>
      rw [hadds.sent, hsent] at hs
      exact .inl hs
  | @event k _ _ rest c ev hev he =>
    refine hevents rest ?_
    rcases (ho.head hev).2 with hin | ⟨-, hst⟩
    · have hin : Thread.InTable { t with events := rest } c := hin
      cases onEvent_outcome hin he with
      | touches htouch =>
        rw [htouch.sent] at hs
        exact .inl hs
      | reports _ htouch =>
        rw [htouch.sent] at hs
        exact sendMigFin_reports hin hs
      | closes _ hcl => exact .inl (Thread.mem_sent_of_fins hcl.fins hs)
    · have hst : (({ t with events := rest } : Thread).conns c).sockState = .default := hst
      rw [onEvent_default hst] at he
      cases he
      exact .inl hs

theorem Adds.entry {k : KeyCalls} {buf : Bytes} (hu : Upkeep n t) (h : Adds k buf c t t') (hd : t'.InTable d) :
    t.InTable d ∧ t'.ident d = t.ident d ∨ t'.ident d = handleMetaData t.tls13 buf := by
  by_cases hdc : d = c
  · rw [hdc]
    exact .inr h.ident
  · refine .inl ⟨h.inTable_of hu hdc hd, ?_⟩
    rw [Thread.ident, h.others d hdc]
    rfl

theorem Closes.inTable_of (h : Closes c t t') (hd : t'.InTable d) : t.InTable d := by
  rw [Thread.InTable, h.bucketOf] at hd
  exact h.mem hd

/-- A connection of the table has kept what it took from its meta packet, or a key or reset meta has put it there
in this step. -/
theorem threadStep_entry (hu : Upkeep n t) (ho : Orderly t) (h : threadStep cfg i t = .ok t') :
    t'.tls13 = t.tls13 ∧ ∀ d, t'.InTable d → t.InTable d ∧ t'.ident d = t.ident d
      ∨ ∃ k buf, i = .next k ∧ k.frame = some buf
        ∧ (validateMetaType buf = some .key ∨ validateMetaType buf = some .rstConn)
        ∧ t'.ident d = handleMetaData t.tls13 buf := by
  cases threadStep_moves h with
  | idle => exact ⟨rfl, fun d hd => .inl ⟨hd, rfl⟩⟩
  | wait => exact ⟨rfl, fun d hd => .inl ⟨hd, rfl⟩⟩
  | noFrame => exact ⟨rfl, fun d hd => .inl ⟨hd, rfl⟩⟩
  | @packet k _ _ rest buf _ hevents hframe hm =>
    have hu' := hu.setEvents rest
    cases handleMetaPacket_outcome hm with
    | quiet hsame _ =>
      obtain ⟨sent, rfl⟩ := hsame
      exact ⟨rfl, fun d hd => .inl ⟨hd, rfl⟩⟩
    | reports _ _ heq =>
      rw [heq]
      exact ⟨rfl, fun d hd => .inl ⟨hd, rfl⟩⟩
    | adds htype _ hadds =>
      refine ⟨hadds.tls13, fun d hd => ?_⟩
      rcases hadds.entry hu' hd with hold | hnew
      · exact .inl hold
      · exact .inr ⟨k, buf, rfl, hframe, .inl htype, hnew⟩
    | replaces htype hfound hcl _ hadds =>
      refine ⟨hadds.tls13.trans hcl.tls13, fun d hd => ?_⟩
      rcases hadds.entry (hu'.closes (htSearch_inTable hfound) hcl) hd with ⟨hold, hident⟩ | hnew
      · have hin := hcl.inTable_of hold
        exact .inl ⟨hin, hident.trans (hcl.ident_eq d)⟩
      · rw [hcl.tls13] at hnew
        exact .inr ⟨k, buf, rfl, hframe, .inr htype, hnew⟩
  | @event k _ _ rest c ev hevents he =>
    have hsame : t'.tls13 = t.tls13 ∧ ∀ d, t'.InTable d → t.InTable d ∧ t'.ident d = t.ident d := by
      rcases (ho.head hevents).2 with hin | ⟨-, hst⟩
      · have hin : Thread.InTable { t with events := rest } c := hin
        cases onEvent_outcome hin he with
        | touches htouch => exact ⟨htouch.tls13, fun d hd => ⟨(htouch.inTable d).mp hd, htouch.ident d⟩⟩
        | reports _ htouch => exact ⟨htouch.tls13, fun d hd => ⟨(htouch.inTable d).mp hd, htouch.ident d⟩⟩
        | closes _ hcl => exact ⟨hcl.tls13, fun d hd => ⟨hcl.inTable_of hd, hcl.ident_eq d⟩⟩
      · have hst : (({ t with events := rest } : Thread).conns c).sockState = .default := hst
        rw [onEvent_default hst] at he
        cases he
        exact ⟨rfl, fun _ hd => ⟨hd, rfl⟩⟩
    exact ⟨hsame.1, fun d hd => .inl (hsame.2 d hd)⟩

/-- Every MIG_FIN of a run was sent in a state of the run for a connection of the table. -/
theorem run_reports {n : Nat} {tls13 : Bool} (inputs : List ThreadInput)
    (hrun : run (threadStep cfg) inputs (startThread n tls13) = .ok t) (c : ConnRef) (sock : Option SockInfo)
    (frame : Bytes) (hs : Sent.migFin c sock frame ∈ t.sent) :
    ∃ pre post u, inputs = pre ++ post ∧ run (threadStep cfg) pre (startThread n tls13) = .ok u
      ∧ u.Reports c sock frame := by
  refine run_history (P := fun es t => Sent.migFin c sock frame ∈ t.sent → ∃ pre post u, es = pre ++ post
    ∧ run (threadStep cfg) pre (startThread n tls13) = .ok u ∧ u.Reports c sock frame)
    (fun hs => absurd hs List.not_mem_nil) (fun es e s s' hpre hstep ih hs => ?_) inputs t hrun hs
  rcases threadStep_reports (run_kept hpre).2 hstep hs with hold | hnew
  · obtain ⟨pre, post, u, rfl, hu, hreports⟩ := ih hold
    exact ⟨pre, post ++ [e], u, List.append_assoc .., hu, hreports⟩
  · exact ⟨es, [e], s, rfl, hpre, hnew⟩

end

end Xtls.Host
