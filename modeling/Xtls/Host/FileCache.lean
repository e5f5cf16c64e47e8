import Xtls.Host.Loop

/-!
# The descriptors of the file cache

While a file is sent, `resp_fd` is the descriptor of the cache itself (`main.c` 262-276), and
`conn_state_free` (`mempool.c` 44-56) closes what it finds there.  Every way to another state gives it back, but
for an error of `sendfile` in the middle of a file and a reset meta that comes then.
-/

namespace Xtls.Host

/-- Where `resp_fd` can be a descriptor of the cache. -/
def ConnState.Files (s : ConnState) : Prop :=
  s.respFd ≠ none → s.sockState = .httpReqRecved ∧ s.hdrSent = true ∧ 0 < s.respRemain

/- `sendfile` fails with another error than `EAGAIN`. -/
def sendfileBreaks (fcache : List FileCache) (a : RespCalls) (s : ConnState) : Bool :=
  let (ret, x) := sendHttpsHeader a.toAnswers { conn := s }
  a.hard && ret = 1 && (sendFileContent (contents fcache) a.toAnswers x).1 ≠ 1

/-- No `sendfile` breaks off, and a reset meta does not come for a connection that still has a part of a file to
send. -/
def fileReady (cfg : Config) : ThreadInput → Thread → Prop
  | .wait _, _ => True
  | .next k, t =>
    match t.events with
    | [] => True
    | .metaSock :: _ => ∀ buf ∈ k.frame, validateMetaType buf = some .rstConn →
        ∀ c ∈ t.htSearch (be32 buf 0) (be16 buf 14),
          (t.conns c).sockState = .httpReqRecved → (t.conns c).respRemain = 0
    | .conn c _ :: _ => (t.conns c).sockState = .httpReqRecved → sendfileBreaks cfg.fcache k.resp (t.conns c) = false

instance (cfg : Config) (i : ThreadInput) (t : Thread) : Decidable (fileReady cfg i t) := by
  unfold fileReady
  split <;> try split
  all_goals infer_instance

/-! ### A response -/

section

variable (fcache : Option Nat → Bytes) (a : Answers) (x : Exchange)

theorem sendHttpsHeader_file :
    (sendHttpsHeader a x).2.conn.respFd = x.conn.respFd
      ∧ (sendHttpsHeader a x).2.conn.respRemain = x.conn.respRemain
      ∧ ((sendHttpsHeader a x).1 = 1 ∧ (sendHttpsHeader a x).2.conn.hdrSent = true
        ∨ (sendHttpsHeader a x).1 = 0 ∧ x.conn.hdrSent = false) := by
  have hfits := headerText_length a.date a.dateLt x.conn
  have hpart : ∀ y, (sendHeaderPart a.send y).2.conn.respFd = y.conn.respFd
      ∧ (sendHeaderPart a.send y).2.conn.respRemain = y.conn.respRemain
      ∧ ((sendHeaderPart a.send y).1 = 1 ∧ (sendHeaderPart a.send y).2.conn.hdrSent = true
        ∨ (sendHeaderPart a.send y).1 = 0) := fun y => by
    unfold sendHeaderPart
    split
    · exact ⟨rfl, rfl, .inr rfl⟩
    · dsimp only
      split
      · exact ⟨rfl, rfl, .inl ⟨rfl, rfl⟩⟩
      · exact ⟨rfl, rfl, .inr rfl⟩
  unfold sendHttpsHeader
  split
  · rename_i hsent
    exact ⟨rfl, rfl, .inl ⟨rfl, hsent⟩⟩
  · rename_i hsent
    have hsent := Bool.eq_false_of_not_eq_true hsent
    split
    · obtain ⟨hfd, hrem, hret⟩ := hpart x
      exact ⟨hfd, hrem, hret.imp id fun h => ⟨h, hsent⟩⟩
    · rw [if_neg (Nat.not_le.mpr hfits)]
      obtain ⟨hfd, hrem, hret⟩ := hpart (buildHeader a.date x)
      exact ⟨hfd, hrem, hret.imp id fun h => ⟨h, hsent⟩⟩

theorem sendfileLoop_file (ns : List Nat) :
    (sendfileLoop fcache ns x).2.conn.hdrSent = x.conn.hdrSent
      ∧ ((sendfileLoop fcache ns x).1 = 1
        ∨ (sendfileLoop fcache ns x).1 = 0 ∧ 0 < (sendfileLoop fcache ns x).2.conn.respRemain) := by
  induction ns generalizing x with
  | nil =>
    unfold sendfileLoop
    split
    · exact ⟨rfl, .inl rfl⟩
    · rename_i hrem
      exact ⟨rfl, .inr ⟨rfl, Nat.pos_of_ne_zero hrem⟩⟩
  | cons n ns ih =>
    unfold sendfileLoop
    split
    · exact ⟨rfl, .inl rfl⟩
    · exact ih (takeFile (fcache x.conn.respFd) (max n 1) x)

theorem sendFileContent_file :
    (sendFileContent fcache a x).2.conn.hdrSent = x.conn.hdrSent
      ∧ ((sendFileContent fcache a x).1 = 1
        ∨ (sendFileContent fcache a x).1 = 0 ∧ 0 < (sendFileContent fcache a x).2.conn.respRemain) := by
  have hstart : (startFile fcache x.conn).hdrSent = x.conn.hdrSent := by
    unfold startFile
    split <;> rfl
  unfold sendFileContent
  split
  · dsimp only [Exchange.mapConn]
    split
    · rename_i hrem
      split
      · obtain ⟨hsent, hret⟩ := sendfileLoop_file fcache { x with conn := { startFile fcache x.conn with
          respFd := (startFile fcache x.conn).respFd.or (startFile fcache x.conn).fileIdx } } a.sendfile
        exact ⟨hsent.trans hstart, hret⟩
      · split
        · exact ⟨hstart, .inr ⟨rfl, hrem⟩⟩
        · exact ⟨hstart, .inl rfl⟩
    · exact ⟨hstart, .inl rfl⟩
  · exact ⟨rfl, .inl rfl⟩

theorem afterFile_none : 0 ≤ (afterFile a x).1 ∧ (afterFile a x).2.conn.respFd = none := by
  unfold afterFile handleEpheConnAfterRespSent
  dsimp only [Exchange.mapConn]
  cases x.conn.keepAlive with
  | true => exact ⟨Int.le_refl 0, rfl⟩
  | false =>
    cases a.sendmsg with
    | true => exact ⟨Int.le_refl 0, rfl⟩
    | false => exact ⟨Int.le_refl 0, rfl⟩

/- The descriptor is kept only with the header sent and a part of the file left. -/
theorem sendHttpsResp_file (h : x.conn.respFd ≠ none → x.conn.hdrSent = true ∧ 0 < x.conn.respRemain) :
    0 ≤ (sendHttpsResp fcache a x).1
      ∧ ((sendHttpsResp fcache a x).2.conn.respFd ≠ none → (sendHttpsResp fcache a x).2.conn.hdrSent = true
        ∧ 0 < (sendHttpsResp fcache a x).2.conn.respRemain) := by
  obtain ⟨hfd, hrem, hhead⟩ := sendHttpsHeader_file a x
  unfold sendHttpsResp
  dsimp only
  generalize sendHttpsHeader a x = r at *
  rcases hhead with ⟨hret, hsent⟩ | ⟨hret, hsent⟩
  · obtain ⟨hsame, hfile⟩ := sendFileContent_file fcache a r.2
    have hsent := hsame.trans hsent
    rw [hret, if_neg (by simp)]
    generalize sendFileContent fcache a r.2 = q at *
    rcases hfile with hone | ⟨hzero, hleft⟩
    · rw [hone, if_neg (by simp)]
      by_cases hzero : q.2.conn.respRemain = 0
      · rw [if_pos hzero]
        obtain ⟨hpos, hnone⟩ := afterFile_none a q.2
        exact ⟨hpos, fun hne => absurd hnone hne⟩
      · rw [if_neg hzero]
        exact ⟨Int.le_refl 0, fun _ => ⟨hsent, Nat.pos_of_ne_zero hzero⟩⟩
    · rw [hzero, if_pos (by simp)]
      exact ⟨Int.le_refl 0, fun _ => ⟨hsent, hleft⟩⟩
  · rw [hret, if_pos (by simp)]
    refine ⟨Int.le_refl 0, fun hne => ?_⟩
    rw [hfd] at hne
    rw [(h hne).1] at hsent
    cases hsent

/- Where another call than `sendfile` fails, no descriptor is kept. -/
theorem respFails_file (h : x.conn.respFd ≠ none → x.conn.hdrSent = true ∧ 0 < x.conn.respRemain)
    (hfails : respFails fcache a x = true)
    (hwhole : (sendHttpsHeader a x).1 = 1 → (sendFileContent fcache a (sendHttpsHeader a x).2).1 = 1) :
    (sendHttpsResp fcache a x).2.conn.respFd = none := by
  obtain ⟨hfd, -, hhead⟩ := sendHttpsHeader_file a x
  unfold respFails at hfails
  unfold sendHttpsResp
  dsimp only at hfails ⊢
  generalize sendHttpsHeader a x = r at *
  rcases hhead with ⟨hret, -⟩ | ⟨hret, hsent⟩
  · rw [hwhole hret, hret, if_neg (by simp), if_neg (by simp)] at hfails
    rw [hwhole hret, hret, if_neg (by simp), if_neg (by simp)]
    split at hfails
    · rename_i hzero
      rw [if_pos hzero]
      exact (afterFile_none a _).2
    · cases hfails
  · rw [hret, if_pos (by simp), hfd]
    exact Decidable.byContradiction fun hne => absurd ((h hne).1.symm.trans hsent) (by decide)

/- After an error no descriptor is kept; otherwise it is with the rest of the file to send. -/
theorem sendResponse_file {fcache : List FileCache} {a : RespCalls} {s : ConnState}
    (h : s.respFd ≠ none → s.hdrSent = true ∧ 0 < s.respRemain) (hwhole : sendfileBreaks fcache a s = false) :
    (sendResponse fcache a s).2.respFd = none
      ∨ 0 ≤ (sendResponse fcache a s).1 ∧ (sendResponse fcache a s).2.hdrSent = true
        ∧ 0 < (sendResponse fcache a s).2.respRemain := by
  obtain ⟨hpos, hkept⟩ := sendHttpsResp_file (contents fcache) a.toAnswers { conn := s } h
  unfold sendResponse
  dsimp only
  split
  · rename_i hfails
    obtain ⟨hhard, hfails⟩ := Bool.and_eq_true_iff.mp hfails
    refine .inl (respFails_file _ _ { conn := s } h hfails fun hret => ?_)
    simp only [sendfileBreaks, hhard, hret, decide_true, Bool.true_and, decide_eq_false_iff_not, not_not] at hwhole
    exact hwhole
  · by_cases hnone : (sendHttpsResp (contents fcache) a.toAnswers { conn := s }).2.conn.respFd = none
    · exact .inl hnone
    · exact .inr ⟨hpos, hkept hnone⟩

end

/-! ### The loop -/

section

variable {n : Nat} {tls13 : Bool} {cfg : Config} {inputs : List ThreadInput} {t t' : Thread} {k : Calls} {c : ConnRef}

theorem ConnState.Files.closed {s : ConnState} (h : s.Files) (hst : s.sockState = .httpReqRecved → s.respRemain = 0) :
    s.respFd = none := by
  refine Decidable.byContradiction fun hne => ?_
  obtain ⟨hreq, -, hpos⟩ := h hne
  exact absurd (hst hreq) (Nat.ne_of_gt hpos)

theorem ConnState.Files.none {s : ConnState} (h : s.respFd = none) : s.Files := fun hne => absurd h hne

theorem ConnStep.files {s s' : ConnState} (h : ConnStep cfg k s s') (hs : s.Files)
    (hwhole : s.sockState = .httpReqRecved → sendfileBreaks cfg.fcache k.resp s = false) : s'.Files := by
  have hnone : s.sockState ≠ .httpReqRecved → s.respFd = none := fun hne => hs.closed fun heq => absurd heq hne
  cases h with
  | same heq => exact heq ▸ hs
  | moves hne heq =>
    rw [heq]
    exact .none (hnone hne)
  | receives hready heq =>
    have hne : s.sockState ≠ .httpReqRecved := by
      rw [hready]
      decide
    rw [heq]
    obtain ⟨-, -, -, hfd⟩ := handleReceivedPkt_link cfg.fcache cfg.wwwMain k.value k.recv s
    exact .none (hfd.trans (hnone hne))
  | responds hreq heq hnext =>
    have hfile := sendResponse_file (fun hne => (hs hne).2) (hwhole hreq)
    generalize sendResponse cfg.fcache k.resp s = r at *
    rw [heq] at hnext ⊢
    rcases hfile with hnone | ⟨hpos, hsent, hleft⟩
    · exact .none hnone
    · rw [if_neg (Int.not_lt.mpr hpos), if_neg (Nat.ne_of_gt hleft)] at hnext
      exact fun _ => ⟨hnext, hsent, hleft⟩

/-- A step closes no descriptor of the cache, and none is kept where one would be closed. -/
theorem threadStep_files (i : ThreadInput) (ho : Orderly t) (hfiles : ∀ c, (t.conns c).Files)
    (hready : fileReady cfg i t) (h : threadStep cfg i t = .ok t') :
    (∀ c, (t'.conns c).Files) ∧ t'.closedFiles = t.closedFiles := by
  -- only `c` is different
  have hchange : ∀ {u v : Thread} {c : ConnRef}, (∀ d, (u.conns d).Files) → (∀ d, d ≠ c → v.conns d = u.conns d) →
      (v.conns c).Files → ∀ d, (v.conns d).Files := by
    intro u v c hu hothers hc d
    by_cases hd : d = c
    · exact hd ▸ hc
    · rw [hothers d hd]
      exact hu d
  cases threadStep_moves h with
  | idle => exact ⟨hfiles, rfl⟩
  | wait => exact ⟨hfiles, rfl⟩
  | noFrame => exact ⟨hfiles, rfl⟩
  | packet rest hevents hframe hs =>
    simp only [fileReady, hevents] at hready
    cases handleMetaPacket_outcome hs with
    | quiet hsame =>
      obtain ⟨sent, rfl⟩ := hsame
      exact ⟨hfiles, rfl⟩
    | reports _ _ hsame =>
      rw [hsame]
      exact ⟨hfiles, rfl⟩
    | adds _ _ hadds => exact ⟨hchange hfiles hadds.others (.none hadds.respFd), hadds.closedFiles⟩
    | replaces htype hfound hcl _ hadds =>
      have hnone := (hfiles _).closed (hready _ hframe htype _ hfound)
      refine ⟨hchange (hchange hfiles hcl.others (.none hcl.respFd)) hadds.others (.none hadds.respFd), ?_⟩
      rw [hadds.closedFiles, hcl.closedFiles]
      exact congrArg (Option.toList · ++ t.closedFiles) hnone
  | @event k _ _ rest c ev hevents hs =>
    simp only [fileReady, hevents] at hready
    rcases (ho.head hevents).2 with hin | ⟨-, hst⟩
    · have hin : Thread.InTable { t with events := rest } c := hin
      cases onEvent_outcome hin hs with
      | touches htouch =>
        exact ⟨hchange hfiles htouch.others (htouch.conn.files (hfiles c) hready), htouch.closedFiles⟩
      | reports _ htouch =>
        exact ⟨hchange hfiles htouch.others (htouch.conn.files (hfiles c) hready), htouch.closedFiles⟩
      | closes hclosing hcl =>
        have hnone := (hfiles c).closed fun hreq => by
          have hreq : (({ t with events := rest } : Thread).conns c).sockState = .httpReqRecved := hreq
          rw [hreq] at hclosing
          cases hclosing
        refine ⟨hchange hfiles hcl.others (.none hcl.respFd), ?_⟩
        rw [hcl.closedFiles]
        exact congrArg (Option.toList · ++ t.closedFiles) hnone
    · have hst : (({ t with events := rest } : Thread).conns c).sockState = .default := hst
      rw [onEvent_default hst] at hs
      cases hs
      exact ⟨hfiles, rfl⟩

/-- As long as no `sendfile` breaks off and no reset meta comes in the middle of a file, every descriptor of the
cache stays open, whatever connections are closed or replaced. -/
theorem cache_stays_open (hready : Along (threadStep cfg) (fileReady cfg) inputs (startThread n tls13))
    (hrun : run (threadStep cfg) inputs (startThread n tls13) = .ok t) : t.closedFiles = [] := by
  have hstep : ∀ i t t', fileReady cfg i t → threadStep cfg i t = .ok t' →
      (Upkeep n t ∧ Orderly t) ∧ (∀ c, (t.conns c).Files) ∧ t.closedFiles = [] →
      (Upkeep n t' ∧ Orderly t') ∧ (∀ c, (t'.conns c).Files) ∧ t'.closedFiles = [] :=
    fun i t t' hr hs ⟨⟨hu, ho⟩, hfiles, hnil⟩ => by
      obtain ⟨hfiles', hsame⟩ := threadStep_files i ho hfiles hr hs
      exact ⟨threadStep_kept i hu ho hs, hfiles', hsame.trans hnil⟩
  exact (run_along hstep inputs _ t hready hrun
    ⟨⟨startThread_upkeep n tls13, startThread_orderly n tls13⟩, fun _ => .none rfl, rfl⟩).2.2

end

def oneFile : Config where
  fcache := [{ fullname := ascii "/www/a", size := 2, file := [1, 2] }]
  wwwMain := ascii "/www"

/- The migrated connection asks for the file. -/
def requestRun : List ThreadInput :=
  migrationRun ++ [.wait (.single (.sock 5 ⟨true, false⟩)), .next { recv := .data (sampleRequest "GET") [] }]

/- `sendfile` takes the first byte and fails at the second, and the loop closes the connection. -/
def brokenResponse : List ThreadInput :=
  requestRun ++ [.wait (.single (.sock 5 ⟨false, true⟩)),
    .next { resp := { send := some 4096, sendfile := [1], hard := true } },
    .wait (.single (.sock 5 ⟨false, true⟩)), .next {}]

/- The file is sent in two parts, the client closes, and so does the server. -/
def wholeResponse : List ThreadInput :=
  requestRun ++ [.wait (.single (.sock 5 ⟨false, true⟩)), .next { resp := { send := some 4096, sendfile := [1] } },
    .wait (.single (.sock 5 ⟨false, true⟩)), .next { resp := { sendfile := [1] } },
    .wait (.single (.sock 5 ⟨true, false⟩)), .next { recv := .data [] [] },
    .wait (.single (.sock 5 ⟨false, true⟩)), .next {}]

theorem cache_stays_open_sample : ∃ t, run (threadStep oneFile) wholeResponse (startThread 2 true) = .ok t
    ∧ t.pool = [1, 0] ∧ t.closedFiles = [] := by
  have hready : Along (threadStep oneFile) (fileReady oneFile) wholeResponse (startThread 2 true) := by decide +kernel
  obtain ⟨t, ht, hpool⟩ := endsIn_ok (fun t : Thread => t.pool = [1, 0])
    (run (threadStep oneFile) wholeResponse (startThread 2 true)) (by decide +kernel)
  exact ⟨t, ht, hpool, cache_stays_open hready ht⟩

theorem brokenResponse_closes_cache : ∃ t, run (threadStep oneFile) brokenResponse (startThread 2 true) = .ok t
    ∧ t.closedFiles = [0] :=
  endsIn_ok (fun t : Thread => t.closedFiles = [0]) _ (by decide +kernel)

end Xtls.Host
