import Xtls.Lib.History
import Xtls.Nic.Steps

/-!
# One connection among the others

A function of `ssl.c` works on one connection and the core; an invariant of the worker is about all
connections.  `Carries` says that what is done to one connection carries such an invariant, and `Kept`
lists what has to be shown for it to hold along every run.
-/

namespace Xtls.Nic

def St.among (others : ConnId → Conn) (s : St) : Sys :=
  { conns := Function.update others s.conn.id s.conn, ctx := s.ctx }

/-- `P` survives from `s` to `s'` if every event on record in `s'` is good. -/
structure Carries (good : Event → Prop) (P : Sys → Prop) (s s' : St) : Prop where
  grows : s.ctx.trace <:+ s'.ctx.trace
  carries : (∀ e ∈ s'.ctx.trace, good e) → ∀ others, P (s.among others) →
    s'.conn.id = s.conn.id ∧ P (s'.among others)

structure Kept (env : Env) (good : Event → Prop) (P : Sys → Prop) : Prop where
  ids : ∀ s, P s → ∀ c, (s.conns c).id = c
  quiet : ∀ s s', SysQuiet s s' → P s → P s'
  inserted : ∀ c s s', Inserted c s s' → P s → P s'
  closed : Closed env (Carries good P)
  removed : ∀ s s', Removed s s' → Carries good P s s'
  submits : ∀ priv s s', handleSubmittedPka priv s = .ok s' → P s → P s'
  completes : ∀ o results s s', handleCompletedPka o results s = .ok s' → P s → P s'

section

variable {env : Env} {good : Event → Prop} {P Q : Sys → Prop} {s s' : St} {c : ConnId}
  {others : ConnId → Conn}

theorem St.among_self (s : St) : (s.among others).conns s.conn.id = s.conn :=
  Function.update_self ..

theorem St.among_ne (s : St) (h : c ≠ s.conn.id) : (s.among others).conns c = others c :=
  Function.update_of_ne h ..

theorem Sys.put_self (s : Sys) (c : ConnId) (t : St) : (s.put c t).conns c = t.conn := if_pos rfl

theorem Sys.put_ne (s : Sys) {c d : ConnId} (t : St) (h : d ≠ c) : (s.put c t).conns d = s.conns d :=
  if_neg h

theorem Sys.among_put (s : Sys) (hid : (s.conns c).id = c) :
    (⟨s.conns c, s.ctx⟩ : St).among s.conns = s := by
  simp [St.among, hid]

theorem Carries.refl (s : St) : Carries good P s s := ⟨List.suffix_refl _, fun _ _ h => ⟨rfl, h⟩⟩

theorem Carries.trans {a b c : St} (h1 : Carries good P a b) (h2 : Carries good P b c) :
    Carries good P a c := by
  refine ⟨h1.grows.trans h2.grows, fun hg others ha => ?_⟩
  obtain ⟨hid, hb⟩ := h1.carries (fun e he => hg e (h2.grows.subset he)) others ha
  obtain ⟨hid', hc⟩ := h2.carries hg others hb
  exact ⟨hid'.trans hid, hc⟩

theorem Carries.and (h : Carries (fun _ => True) P s s')
    (hq : (∀ e ∈ s'.ctx.trace, good e) → ∀ others, s'.conn.id = s.conn.id → P (s.among others) →
      P (s'.among others) → Q (s.among others) → Q (s'.among others)) :
    Carries good (fun t => P t ∧ Q t) s s' := by
  refine ⟨h.grows, fun hg others ⟨hp, hq'⟩ => ?_⟩
  obtain ⟨hid, hp'⟩ := h.carries (fun _ _ => trivial) others hp
  exact ⟨hid, hp', hq hg others hid hp hp' hq'⟩

/-! ### Steps and runs -/

theorem Carries.put {s : Sys} {t : St} (hids : P s → ∀ c, (s.conns c).id = c)
    (h : Carries good P ⟨s.conns c, s.ctx⟩ t) :
    Keeps (fun s : Sys => s.ctx.trace) good P s (s.put c t) := by
  refine ⟨h.grows, fun hg hs => ?_⟩
  obtain ⟨hid, ht⟩ := h.carries hg s.conns (by rw [s.among_put (hids hs c)]; exact hs)
  have hout : t.among s.conns = s.put c t := by
    have hid : t.conn.id = c := hid.trans (hids hs c)
    simp only [St.among, Sys.put, hid]
    congr 1
    funext i
    simp [Function.update_apply]
  exact hout ▸ ht

theorem Kept.keeps (h : Kept env good P) (x : Input) (s s' : Sys) (hs : step env x s = .ok s') :
    Keeps (fun s : Sys => s.ctx.trace) good P s s' := by
  have hquiet : ∀ {a b : Sys}, SysQuiet a b → Keeps (fun s : Sys => s.ctx.trace) good P a b := by
    intro a b hq
    obtain ⟨-, out, outside, hctx⟩ := id hq
    exact .quiet (by rw [hctx]) (h.quiet a b hq)
  have hinsert : ∀ {a b : Sys} {d : ConnId}, Inserted d a b →
      Keeps (fun s : Sys => s.ctx.trace) good P a b := fun hi =>
    .record hi.trace fun _ _ => h.inserted _ _ _ hi
  cases step_outcome hs with
  | quiet hq => exact hquiet hq
  | acts _ _ ha => exact (h.closed.acts ha).put (h.ids s)
  | serves _ _ hserve => exact (h.closed.serve hserve).put (h.ids s)
  | inserts hi hq => exact (hinsert hi).trans (hquiet hq)
  | replaces _ hr hq hi =>
    have hremove := (h.removed _ _ (removeSession_removed hr)).put (h.ids s)
    exact hremove.trans ((hquiet hq).trans (hinsert hi))
  | submits hsub => exact .quiet (handleSubmittedPka_trace hsub) (h.submits _ _ _ hsub)
  | completes hcomp => exact .quiet (handleCompletedPka_trace hcomp) (h.completes _ _ _ _ hcomp)

theorem Kept.holds (h : Kept env good P) {xs : List Input} {s s' : Sys}
    (hrun : run (step env) xs s = .ok s') (hgood : ∀ e ∈ s'.ctx.trace, good e) (hs : P s) : P s' :=
  (run_keeps h.keeps xs s s' hrun).keeps hgood hs

end

/-! ### Properties of single sessions -/

section

variable {env : Env} {x : Input} {s s' : Sys} {c : ConnId}

theorem Inserted.sess (hi : Inserted c s s') (i : ConnId) :
    (s'.conns i).id = (s.conns i).id ∧ (s'.conns i).sess = (s.conns i).sess := by
  obtain ⟨port, cookie, p, hc⟩ := hi.conn
  by_cases hic : i = c
  · rw [hic, hc]
    exact ⟨rfl, rfl⟩
  · rw [hi.others i hic]
    exact ⟨rfl, rfl⟩

theorem setConn_sess {R : Session → Session → Prop} {f : Session → Session} (hrefl : ∀ e, R e e)
    (hconns : s'.conns = (s.setConn c f).conns) (hf : ∀ e, R e (f e)) (i : ConnId) :
    R (s.conns i).sess (s'.conns i).sess := by
  rw [hconns]
  unfold Sys.setConn
  dsimp only
  split
  · exact hf _
  · exact hrefl _

variable {P : Session → Prop}

theorem ReadRule.moves (h : ReadRule fun s t => P s.conn.sess → P t.conn.sess) :
    MoveRule fun s t => P s.conn.sess → P t.conn.sess where
  refl := h.refl
  trans := h.trans
  tcp _ _ _ hs := hs
  emits _ _ hs := hs
  frame _ _ hf := h.frame _ _ hf.toFrame

/-- A step keeps a property of a session that reading records keeps, that does not depend on what the PKA core
writes, and that the session has after it was served. -/
theorem step_session (hread : ReadRule fun s t => P s.conn.sess → P t.conn.sess)
    (hpka : ∀ e pending priv o results completed, P e →
      P { e with pendingPkaOp := pending, ecdhePrivKey := priv, pkaOp := o, pkaResults := results
                 completedCrypto := completed })
    (hserve : ∀ t, x = .serve c → serveConnection env ⟨s.conns c, s.ctx⟩ = .ok t → s' = s.put c t → P t.conn.sess)
    (h : step env x s = .ok s') (hs : P (s.conns c).sess) : P (s'.conns c).sess := by
  have hput : ∀ {d : ConnId} {t : St}, (d = c → P t.conn.sess) → P ((s.put d t).conns c).sess := by
    intro d t ht
    by_cases hc : c = d
    · rw [hc, s.put_self]
      exact ht hc.symm
    · rw [s.put_ne t hc]
      exact hs
  cases step_outcome h with
  | quiet hq =>
    rw [hq.1]
    exact hs
  | acts _ _ ha =>
    refine hput fun hd => ?_
    subst hd
    refine hread.moves.acts (fun _ _ _ h => h) ?_ ha hs
    exact fun _ _ _ _ _ _ hr => hread.round hr
  | serves hx _ ht =>
    refine hput fun hd => ?_
    subst hd
    exact hserve _ hx ht rfl
  | inserts hi hq =>
    rw [hq.1, (hi.sess c).2]
    exact hs
  | replaces _ hr hq hi =>
    rw [(hi.sess c).2, hq.1]
    refine hput fun hd => ?_
    subst hd
    exact hread.removed _ _ (removeSession_removed hr) hs
  | submits hsub =>
    rcases handleSubmittedPka_cases hsub with rfl | ⟨o, ring, d, -, -, -, -, hconns, -⟩
    · exact hs
    · exact setConn_sess (R := fun e e' => P e → P e') (fun _ h => h) hconns
        (fun e => hpka e _ _ e.pkaOp e.pkaResults e.completedCrypto) c hs
  | completes hcomp =>
    rcases handleCompletedPka_cases hcomp with rfl | ⟨d, -, -, ⟨-, hconns, -⟩ | ⟨-, -, hconns, -⟩⟩
    · exact hs
    · exact setConn_sess (R := fun e e' => P e → P e') (fun _ h => h) hconns
        (fun e => hpka e e.pendingPkaOp e.ecdhePrivKey _ e.pkaResults e.completedCrypto) c hs
    · exact setConn_sess (R := fun e e' => P e → P e') (fun _ h => h) hconns
        (fun e => hpka e e.pendingPkaOp e.ecdhePrivKey _ _ _) c hs

theorem step_sessions (hread : ReadRule fun s t => P s.conn.sess → P t.conn.sess)
    (hpka : ∀ e pending priv o results completed, P e →
      P { e with pendingPkaOp := pending, ecdhePrivKey := priv, pkaOp := o, pkaResults := results
                 completedCrypto := completed })
    (hserve : ∀ d t, x = .serve d → serveConnection env ⟨s.conns d, s.ctx⟩ = .ok t → P t.conn.sess)
    (h : step env x s = .ok s') (hs : ∀ i, P (s.conns i).sess) (i : ConnId) : P (s'.conns i).sess :=
  step_session hread hpka (fun t hx ht _ => hserve i t hx ht) h (hs i)

end

end Xtls.Nic
