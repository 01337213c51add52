import TalerExchange.Audit.Errors

/-!
# Audits as transactions

`TALER_ARL_setup_sessions_and_run` runs an analysis in transactions of both databases, and retries.
`transact` returns `GNUNET_NO` after a soft error and `GNUNET_SYSERR` after a hard one; the loop around it
takes `GNUNET_SYSERR` for a soft error.

* `AuditSessions`: the two databases; `auditTransact`, `retry`, `setupSessionsAndRun`;
* `AllOrNothing`: success only after a complete analysis has been committed, retries exactly after soft
  errors, nothing left open, nothing incomplete committed;
* `allOrNothing_first`: only if no call of the first attempt fails;
* `AuditRun.Idle`, `AuditRun.Survives`: audits with as many calls as one likes;
* **`allOrNothing_iff`**: every audit, if and only if no call fails.
-/

namespace TalerExchange

/-! ## The transactions -/

/-- `enum GNUNET_GenericReturnValue`. -/
abbrev GenericReturn := ℤ

def gnunetOk : GenericReturn := 1
def gnunetNo : GenericReturn := 0
def gnunetSyserr : GenericReturn := -1

/-- `GNUNET_DB_STATUS_SOFT_ERROR`. -/
def softError : QueryCode := -1

/-- The process with its databases: what is committed to the database of the auditor, the transactions
that are open, what has been committed, the attempts and the statuses with which they ended (`none` if
there was no analysis). -/
structure AuditSessions where
  run : AuditRun
  saved : AuditorDb
  adbOpen : Bool := false
  edbOpen : Bool := false
  commits : List AuditBook := []
  started : ℕ := 0
  attempts : List (Option QueryCode) := []

abbrev Sessions := StateM AuditSessions

section Sessions

variable (o : CallKind → ℕ → Outcome) (env : ReserveAuditEnv) (rows : AuditRows)

/-- A call that returns `GNUNET_OK` or `GNUNET_SYSERR`. -/
def genericCall : Sessions Bool :=
  modifyGet fun s => (o .checked s.run.calls = .ok, { s with run := { s.run with
    calls := s.run.calls + 1, failed := s.run.failed || o .checked s.run.calls ≠ .ok } })

/-- A query of the auditor's process. -/
def onRun {α : Type} (x : Audit α) : Sessions α :=
  modifyGet fun s => ((x s.run).1, { s with run := (x s.run).2 })

/-- An attempt ends. -/
def endAttempt (status : Option QueryCode) (ret : GenericReturn) : Sessions (Option GenericReturn) := do
  modify fun s => { s with attempts := s.attempts ++ [status] }
  return some ret

/-- `TALER_ARL_adb->rollback`. -/
def rollbackAdb (s : AuditSessions) : AuditSessions :=
  { s with adbOpen := false, run.book.db := s.saved }

/-- The commits of both databases; the commit of a transaction has no results. -/
def commitBoth : Sessions QueryCode := do
  let qs ← onRun (call o 0)
  modify fun s => { s with edbOpen := false }
  if qs < 0 then
    modify rollbackAdb
    return qs
  let qs ← onRun (call o 0)
  if qs < 0 then modify rollbackAdb
  else modify fun s => { s with
    adbOpen := false, saved := s.run.book.db, commits := s.commits ++ [s.run.book] }
  return qs

/-- The end of `transact`. -/
def transactResult (qs : QueryCode) : GenericReturn :=
  if qs = -1 then gnunetNo else if qs = -2 then gnunetSyserr else gnunetOk

/-- The part of `transact` in which both transactions are open: the analysis, then the commits or the
rollbacks; `none` if the process dies. -/
def analyzeAndCommit : Sessions (Option GenericReturn) := do
  let qs ← onRun (analyzeReserves o env rows)
  if (← get).run.dead then return none
  let qs ← if qs = 1 then commitBoth o else do
    modify fun s => { rollbackAdb s with edbOpen := false }
    pure qs
  endAttempt (some qs) (transactResult qs)

/-- An attempt goes on with `k` only if a call succeeds. -/
def orAbort (k : Sessions (Option GenericReturn)) : Sessions (Option GenericReturn) := do
  if !(← genericCall o) then return ← endAttempt none gnunetSyserr
  k

/-- `transact` of `report-lib.c`. A transaction of the exchange's database is rolled back only if it has been started. -/
def auditTransact : Sessions (Option GenericReturn) := do
  modify fun s => { s with started := s.started + 1 }
  orAbort o do
    modify fun s => { s with adbOpen := true }
    orAbort o <| orAbort o do
      modify fun s => { s with edbOpen := true }
      analyzeAndCommit o env rows

/-- The loop: `transact` is repeated while it returns `GNUNET_DB_STATUS_SOFT_ERROR`. -/
def retry : ℕ → GenericReturn → Sessions (Option GenericReturn)
  | 0, ret => return some ret
  | n + 1, _ => do
    match ← auditTransact o env rows with
    | none => return none
    | some ret => if ret ≠ softError then return some ret else retry n ret

/-- `TALER_ARL_setup_sessions_and_run`. -/
def setupSessionsAndRun : Sessions (Option GenericReturn) := do
  if !(← genericCall o) then return some gnunetSyserr
  if !(← genericCall o) then return some gnunetSyserr
  match ← retry o env rows 3 gnunetOk with
  | none => return none
  | some ret => return some (if ret < 0 then gnunetSyserr else gnunetOk)

end Sessions

/-! ## All or nothing -/

/-- Success only after a complete analysis has been committed; another attempt exactly after a soft error,
up to the limit; nothing left open; nothing incomplete committed. -/
structure AllOrNothing (rows : AuditRows) (db : AuditorDb) (ret : Option GenericReturn)
    (t : AuditSessions) : Prop where
  committed : ret = some gnunetOk → ∃ b ∈ t.commits, b.Complete rows db
  retried : ∀ i st, t.attempts[i]? = some st →
    (i + 1 < t.started ↔ st = some softError ∧ i + 1 < 3)
  closed : ret ≠ none → t.adbOpen = false ∧ t.edbOpen = false
  complete : ∀ b ∈ t.commits, b.Complete rows db

section Attempts

variable {o : CallKind → ℕ → Outcome} {env : ReserveAuditEnv} {rows : AuditRows} {s : AuditSessions}

theorem sessions_bind {α β : Type} (x : Sessions α) (f : α → Sessions β) (s : AuditSessions) :
    (x >>= f) s = f (x s).1 (x s).2 := rfl

theorem genericCall_cases (hf : s.run.failed = false) :
    o .checked s.run.calls = Outcome.ok ∧
        genericCall o s = (true, { s with run := { s.run with calls := s.run.calls + 1 } }) ∨
      o .checked s.run.calls ≠ Outcome.ok ∧ genericCall o s = (false, { s with run := { s.run with
        calls := s.run.calls + 1, failed := true } }) := by
  have hcall : genericCall o s = (decide (o .checked s.run.calls = Outcome.ok), { s with run := { s.run with
      calls := s.run.calls + 1
      failed := s.run.failed || decide (o .checked s.run.calls ≠ Outcome.ok) } }) := rfl
  rw [hcall, hf, Bool.false_or]
  by_cases ho : o .checked s.run.calls = Outcome.ok
  · refine Or.inl ⟨ho, ?_⟩
    rw [decide_eq_true ho, decide_eq_false (not_not.2 ho), ← hf]
  · refine Or.inr ⟨ho, ?_⟩
    rw [decide_eq_false ho, decide_eq_true ho]

/-- How the first attempt ends: the process dies, a complete analysis is committed, or a call has failed
and the attempt is repeated after no soft error, or ends well with nothing complete committed. -/
inductive AttemptEnds (o : CallKind → ℕ → Outcome) (rows : AuditRows) (db : AuditorDb) (n : ℕ) :
    Option GenericReturn → AuditSessions → Prop
  | died {t : AuditSessions} (h1 : t.started = n + 1) (h2 : t.attempts = []) (h3 : t.commits = []) :
    AttemptEnds o rows db n none t
  | committed {t : AuditSessions} {b : AuditBook} (hf : t.run.failed = false)
    (h1 : t.started = n + 1) (h2 : t.attempts = [some 0]) (h3 : t.commits = [b])
    (hb : b.Complete rows db) (ha : t.adbOpen = false) (he : t.edbOpen = false) :
    AttemptEnds o rows db n (some gnunetOk) t
  | repeated {t : AuditSessions} {st : Option QueryCode} (hf : t.run.Failed o)
    (h1 : t.started = n + 1) (h2 : t.attempts = [st]) (hst : st ≠ some softError) :
    AttemptEnds o rows db n (some softError) t
  | lost {t : AuditSessions} {ret : GenericReturn} (hf : t.run.Failed o) (hret : 0 ≤ ret)
    (hb : ∀ b ∈ t.commits, ¬ b.Complete rows db) : AttemptEnds o rows db n (some ret) t

theorem call_cases (n : ℤ) (t : AuditRun) :
    call o n t = (n, { t with calls := t.calls + 1 }) ∨
      ((call o n t).1 = -1 ∨ (call o n t).1 = -2) ∧ (call o n t).2.Failed o ∧
        (call o n t).2.book = t.book := by
  have hcall : call o n t = ((o .checked t.calls).status n, { t with
      calls := t.calls + 1, failed := t.failed || decide (o .checked t.calls ≠ Outcome.ok) }) := rfl
  rw [hcall]
  cases ho : o .checked t.calls with
  | ok =>
    left
    rw [decide_eq_false (by decide), Bool.or_false]
    rfl
  | soft => exact Or.inr ⟨Or.inl rfl, ⟨by simp, t.calls, by simp [ho]⟩, rfl⟩
  | hard => exact Or.inr ⟨Or.inr rfl, ⟨by simp, t.calls, by simp [ho]⟩, rfl⟩

theorem neg_of_call {qs : QueryCode} (h : qs = -1 ∨ qs = -2) : qs < 0 := by
  rcases h with rfl | rfl <;> decide

theorem onRun_eq {α : Type} (x : Audit α) (s : AuditSessions) :
    onRun x s = ((x s.run).1, { s with run := (x s.run).2 }) := rfl

theorem modify_eq (g : AuditSessions → AuditSessions) (s : AuditSessions) :
    (modify g : Sessions PUnit) s = (⟨⟩, g s) := rfl

/-- Either commit may fail; otherwise the book is committed. -/
theorem commitBoth_cases (s : AuditSessions) :
    (((commitBoth o s).1 = -1 ∨ (commitBoth o s).1 = -2) ∧ (commitBoth o s).2.run.Failed o ∧
        (commitBoth o s).2.commits = s.commits ∧ (commitBoth o s).2.attempts = s.attempts ∧
        (commitBoth o s).2.started = s.started) ∨
      (commitBoth o s).1 = 0 ∧ (commitBoth o s).2.run.failed = s.run.failed ∧
        (commitBoth o s).2.commits = s.commits ++ [s.run.book] ∧
        (commitBoth o s).2.attempts = s.attempts ∧ (commitBoth o s).2.started = s.started ∧
        (commitBoth o s).2.adbOpen = false ∧ (commitBoth o s).2.edbOpen = false := by
  unfold commitBoth
  rw [sessions_bind, onRun_eq, sessions_bind, modify_eq]
  dsimp only
  rcases call_cases (o := o) 0 s.run with h | ⟨hq, hf, hb⟩
  · rw [h, if_neg (lt_irrefl _), sessions_bind, onRun_eq]
    dsimp only
    rcases call_cases (o := o) 0 { s.run with calls := s.run.calls + 1 } with h' | ⟨hq, hf, hb⟩
    · right
      rw [h', if_neg (lt_irrefl _)]
      exact ⟨rfl, rfl, rfl, rfl, rfl, rfl, rfl⟩
    · left
      rw [if_pos (neg_of_call hq), sessions_bind, modify_eq]
      exact ⟨hq, hf, rfl, rfl, rfl⟩
  · left
    rw [if_pos (neg_of_call hq), sessions_bind, modify_eq]
    exact ⟨hq, hf, rfl, rfl, rfl⟩

theorem pointAfter_lt {α : Type} {rowid : α → ℕ} {point : ℕ} {xs : List α} (hne : xs ≠ [])
    (h : ∀ x ∈ xs, point ≤ rowid x) : point < pointAfter rowid point xs := by
  obtain ⟨ys, y, rfl⟩ := List.eq_nil_or_concat xs |>.resolve_left hne
  unfold pointAfter
  rw [List.concat_eq_append, List.foldl_append]
  exact Nat.lt_succ_of_le (h y (by simp))

/-- Without the recoups an analysis is not complete. -/
theorem not_complete_of_skipped {db : AuditorDb} {b : AuditBook} (hp : b.db.progress = db.progress)
    (hne : (rows.after (db.progress.getD {})).recoups ≠ []) : ¬ b.Complete rows db := by
  intro h
  have h' := hp.symm.trans h.progress
  have hget : db.progress.getD {} =
      (rows.after (db.progress.getD {})).advance (db.progress.getD {}) := by
    conv_lhs => rw [h']
    rfl
  have hlt := @pointAfter_lt _ RecoupRow.rowid (db.progress.getD {}).reserveRecoup _ hne fun r hr =>
      of_decide_eq_true (List.mem_filter.1 hr).2
  exact absurd (congrArg ReserveProgress.reserveRecoup hget) hlt.ne

/-- An attempt in which a call has failed. -/
theorem ends_failed {db : AuditorDb} {n : ℕ} {t : AuditSessions} {st : QueryCode}
    (hf : t.run.Failed o) (hn : t.started = n + 1) (ha : t.attempts = [some st])
    (hb : ∀ b ∈ t.commits, ¬ b.Complete rows db) :
    AttemptEnds o rows db n (some (transactResult st)) t := by
  unfold transactResult
  by_cases h1 : st = -1
  · rw [if_pos h1]
    exact AttemptEnds.lost hf le_rfl hb
  rw [if_neg h1]
  by_cases h2 : st = -2
  · rw [if_pos h2]
    refine AttemptEnds.repeated hf hn ha ?_
    rw [h2]
    decide
  · rw [if_neg h2]
    exact AttemptEnds.lost hf zero_le_one hb

/-- An analysis that is not complete is rolled back. -/
theorem analyzeAndCommit_rollback {qs : QueryCode} {u : AuditRun}
    (h : analyzeReserves o env rows s.run = (qs, u)) (hd : ¬ u.dead = true) (hq : qs ≠ 1) :
    analyzeAndCommit o env rows s = (some (transactResult qs), { rollbackAdb { s with run := u } with
      edbOpen := false, attempts := s.attempts ++ [some qs] }) := by
  unfold analyzeAndCommit
  rw [sessions_bind, onRun_eq, h, sessions_bind,
    show (get : Sessions AuditSessions) { s with run := u } =
      ({ s with run := u }, { s with run := u }) from rfl]
  dsimp only
  rw [if_neg hd, if_neg hq]
  rfl

/-- An analysis with one result is committed. -/
theorem analyzeAndCommit_commit {u : AuditRun} (h : analyzeReserves o env rows s.run = (1, u))
    (hd : ¬ u.dead = true) :
    analyzeAndCommit o env rows s =
      (some (transactResult (commitBoth o { s with run := u }).1),
        { (commitBoth o { s with run := u }).2 with
          attempts := (commitBoth o { s with run := u }).2.attempts ++
            [some (commitBoth o { s with run := u }).1] }) := by
  unfold analyzeAndCommit
  rw [sessions_bind, onRun_eq, h, sessions_bind,
    show (get : Sessions AuditSessions) { s with run := u } =
      ({ s with run := u }, { s with run := u }) from rfl]
  dsimp only
  rw [if_neg hd, if_pos rfl]
  rfl

/-- The commits after a call has failed. -/
theorem commit_failed {u : AuditRun} {db : AuditorDb} (hfail : u.Failed o)
    (hinc : ¬ u.book.Complete rows db) (hc : s.commits = []) (ha : s.attempts = []) {n : ℕ}
    (hn : s.started = n + 1) (h : analyzeReserves o env rows s.run = (1, u))
    (hd : ¬ u.dead = true) :
    AttemptEnds o rows db n (analyzeAndCommit o env rows s).1 (analyzeAndCommit o env rows s).2 := by
  rw [analyzeAndCommit_commit h hd]
  rcases commitBoth_cases (o := o) { s with run := u } with
    ⟨hq, hf, hcom, hatt, hst⟩ | ⟨hq, hf, hcom, hatt, hst, -, -⟩
  · refine ends_failed hf (hst.trans hn) (congrArg (· ++ [_]) (hatt.trans ha)) ?_
    intro b hb
    rw [show ({ (commitBoth o { s with run := u }).2 with attempts := _ } : AuditSessions).commits =
      [] from hcom.trans hc] at hb
    exact absurd hb List.not_mem_nil
  · refine ends_failed ⟨hf.trans hfail.1, hfail.2⟩ (hst.trans hn) (congrArg (· ++ [_]) (hatt.trans ha)) ?_
    intro b hb
    rw [show ({ (commitBoth o { s with run := u }).2 with attempts := _ } : AuditSessions).commits =
      [u.book] from hcom.trans (by rw [hc]; rfl), List.mem_singleton] at hb
    rw [hb]
    exact hinc

/-- The first attempt, once both transactions are open. -/
theorem analyzeAndCommit_first (hd : s.run.crashed = false) (hf : s.run.failed = false)
    (hc : s.commits = []) (ha : s.attempts = []) {n : ℕ} (hn : s.started = n + 1)
    {db : AuditorDb} (hdb : s.run.book.db = db) :
    AttemptEnds o rows db n (analyzeAndCommit o env rows s).1 (analyzeAndCommit o env rows s).2 := by
  have hends := @analyzeReserves_ends o env rows _ hd hf
  rw [hdb] at hends
  cases hr : analyzeReserves o env rows s.run with
  | mk qs u =>
  rw [hr] at hends
  dsimp only at hends
  by_cases hcr : u.dead = true
  · unfold analyzeAndCommit
    rw [sessions_bind, onRun_eq, hr, sessions_bind,
      show (get : Sessions AuditSessions) { s with run := u } =
        ({ s with run := u }, { s with run := u }) from rfl]
    dsimp only
    rw [if_pos hcr]
    exact AttemptEnds.died hn ha hc
  cases hends with
  | died h => exact absurd (Bool.or_eq_true_iff.2 (Or.inl h)) hcr
  | error hfail hq =>
    rw [analyzeAndCommit_rollback hr hcr (fun h => absurd (h ▸ hq) (by decide))]
    exact ends_failed hfail hn (by simp [ha]) (by simp [rollbackAdb, hc])
  | skipped hfail hq hp hne =>
    by_cases h1 : qs = 1
    · subst h1
      exact commit_failed hfail (not_complete_of_skipped hp hne) hc ha hn hr hcr
    · rw [analyzeAndCommit_rollback hr hcr h1]
      exact ends_failed hfail hn (by simp [ha]) (by simp [rollbackAdb, hc])
  | complete _ hf hcomplete =>
    rw [analyzeAndCommit_commit hr hcr]
    rcases commitBoth_cases (o := o) { s with run := u } with
      ⟨hq, hf, hcom, hatt, hst⟩ | ⟨hq, hf', hcom, hatt, hst, hadb, hedb⟩
    · refine ends_failed hf (hst.trans hn) (congrArg (· ++ [_]) (hatt.trans ha)) ?_
      intro b hb
      rw [show ({ (commitBoth o { s with run := u }).2 with attempts := _ } : AuditSessions).commits =
        [] from hcom.trans hc] at hb
      exact absurd hb List.not_mem_nil
    · rw [hq]
      exact AttemptEnds.committed (hf'.trans hf) (hst.trans hn) (congrArg (· ++ [_]) (hatt.trans ha))
        (hcom.trans (by rw [hc]; rfl)) hcomplete hadb hedb

/-- A call of an attempt, and the rest. -/
theorem orAbort_ends {db : AuditorDb} {n : ℕ} {k : Sessions (Option GenericReturn)}
    (hf : s.run.failed = false) (hn : s.started = n + 1) (ha : s.attempts = [])
    (hk : AttemptEnds o rows db n
      (k { s with run := { s.run with calls := s.run.calls + 1 } }).1
      (k { s with run := { s.run with calls := s.run.calls + 1 } }).2) :
    AttemptEnds o rows db n (orAbort o k s).1 (orAbort o k s).2 := by
  unfold orAbort
  rw [sessions_bind]
  rcases genericCall_cases (o := o) hf with ⟨-, h⟩ | ⟨ho, h⟩
  · rw [h]
    exact hk
  · rw [h]
    exact AttemptEnds.repeated ⟨rfl, _, ho⟩ hn (congrArg (· ++ [none]) ha) (by decide)

/-- The first attempt. -/
theorem transact_first (hd : s.run.crashed = false) (hf : s.run.failed = false)
    (hsaved : s.saved = s.run.book.db) (hc : s.commits = []) (ha : s.attempts = []) :
    AttemptEnds o rows s.saved s.started (auditTransact o env rows s).1 (auditTransact o env rows s).2 := by
  unfold auditTransact
  rw [sessions_bind, modify_eq]
  apply orAbort_ends
  · exact hf
  · rfl
  · exact ha
  rw [sessions_bind, modify_eq]
  apply orAbort_ends
  · exact hf
  · rfl
  · exact ha
  apply orAbort_ends
  · exact hf
  · rfl
  · exact ha
  rw [sessions_bind, modify_eq]
  apply analyzeAndCommit_first
  · exact hd
  · exact hf
  · exact hc
  · exact ha
  · rfl
  · exact hsaved.symm

/-! ## The loop -/

/-- Attempts and starts are only added. -/
def AuditSessions.Extends (s t : AuditSessions) : Prop :=
  s.attempts <+: t.attempts ∧ s.started ≤ t.started

theorem AuditSessions.Extends.trans {s t u : AuditSessions} (h1 : s.Extends t) (h2 : t.Extends u) :
    s.Extends u :=
  ⟨h1.1.trans h2.1, h1.2.trans h2.2⟩

theorem AuditSessions.Extends.refl (s : AuditSessions) : s.Extends s := ⟨List.prefix_rfl, le_rfl⟩

section Extending

variable {α β : Type} {x : Sessions α} {f : α → Sessions β}

/-- A part of the process that only adds attempts and starts. -/
def Extending (x : Sessions α) : Prop := ∀ s : AuditSessions, s.Extends (x s).2

theorem Extending.bind (hx : Extending x) (hf : ∀ a, Extending (f a)) : Extending (x >>= f) :=
  fun s => (hx s).trans (hf _ _)

theorem extending_pure (a : α) : Extending (pure a : Sessions α) := fun s => .refl s

theorem extending_modify {g : AuditSessions → AuditSessions} (hg : ∀ s : AuditSessions, s.Extends (g s)) :
    Extending (modify g : Sessions PUnit) := fun s => hg s

theorem extending_genericCall : Extending (genericCall o) := fun _ => ⟨List.prefix_rfl, le_rfl⟩

theorem extending_onRun (x : Audit α) : Extending (onRun x) := fun _ => ⟨List.prefix_rfl, le_rfl⟩

theorem extending_endAttempt (st : Option QueryCode) (ret : GenericReturn) :
    Extending (endAttempt st ret) := fun s => ⟨List.prefix_append s.attempts [st], le_rfl⟩

theorem extending_get : Extending (get : Sessions AuditSessions) := fun s => .refl s

end Extending

theorem Extending.ite {α : Type} {c : Prop} [Decidable c] {x y : Sessions α} (hx : Extending x)
    (hy : Extending y) : Extending (if c then x else y) := by
  split
  · exact hx
  · exact hy

theorem extending_commitBoth : Extending (commitBoth o) := by
  unfold commitBoth
  refine Extending.bind (extending_onRun _) fun qs => Extending.bind (extending_modify ?_) fun _ => ?_
  · exact fun s => .refl s
  refine Extending.ite (Extending.bind (extending_modify ?_) fun _ => extending_pure _) ?_
  · exact fun s => .refl s
  refine Extending.bind (extending_onRun _) fun qs => ?_
  refine Extending.ite ?_ ?_
  · refine Extending.bind (extending_modify ?_) fun _ => extending_pure _
    exact fun s => .refl s
  · refine Extending.bind (extending_modify ?_) fun _ => extending_pure _
    exact fun s => .refl s

theorem extending_analyzeAndCommit : Extending (analyzeAndCommit o env rows) := by
  unfold analyzeAndCommit
  refine Extending.bind (extending_onRun _) fun qs => Extending.bind extending_get fun u => ?_
  refine Extending.ite (extending_pure _) ?_
  by_cases hq : qs = 1
  · rw [if_pos hq]
    exact Extending.bind extending_commitBoth fun qs => extending_endAttempt _ _
  · rw [if_neg hq]
    refine Extending.bind (Extending.bind (extending_modify ?_) fun _ => extending_pure _) fun _ =>
      extending_endAttempt _ _
    exact fun s => .refl s

theorem extending_orAbort {k : Sessions (Option GenericReturn)} (hk : Extending k) :
    Extending (orAbort o k) := by
  unfold orAbort
  exact Extending.bind extending_genericCall fun a => .ite (extending_endAttempt _ _) hk

theorem extending_attempt : Extending (orAbort o (do
    modify fun s => { s with adbOpen := true }
    orAbort o <| orAbort o do
      modify fun s => { s with edbOpen := true }
      analyzeAndCommit o env rows)) := by
  refine extending_orAbort (Extending.bind (extending_modify ?_) fun _ => ?_)
  · exact fun s => .refl s
  refine extending_orAbort (extending_orAbort ?_)
  refine Extending.bind (extending_modify ?_) fun _ => extending_analyzeAndCommit
  exact fun s => .refl s

theorem extending_transact : Extending (auditTransact o env rows) := by
  refine Extending.bind (extending_modify ?_) fun _ => extending_attempt
  exact fun s => ⟨List.prefix_rfl, Nat.le_succ _⟩

theorem started_transact (s : AuditSessions) : s.started < (auditTransact o env rows s).2.started :=
  (extending_attempt { s with started := s.started + 1 }).2

theorem extending_retry (n : ℕ) (ret : GenericReturn) : Extending (retry o env rows n ret) := by
  induction n generalizing ret with
  | zero => exact extending_pure _
  | succ n ih =>
    refine extending_transact.bind fun ret => ?_
    cases ret with
    | none => exact extending_pure _
    | some ret => exact .ite (extending_pure _) (ih ret)

theorem retry_succ (n : ℕ) (r : GenericReturn) : retry o env rows (n + 1) r = (do
    match ← auditTransact o env rows with
    | none => return none
    | some ret => if ret ≠ softError then return some ret else retry o env rows n ret) := rfl

theorem retry_died {n : ℕ} {r : GenericReturn} {t : AuditSessions}
    (h : auditTransact o env rows s = (none, t)) : retry o env rows (n + 1) r s = (none, t) := by
  rw [retry_succ, sessions_bind, h]
  rfl

theorem retry_returns {n : ℕ} {r ret : GenericReturn} {t : AuditSessions}
    (h : auditTransact o env rows s = (some ret, t)) (hret : ret ≠ softError) :
    retry o env rows (n + 1) r s = (some ret, t) := by
  rw [retry_succ, sessions_bind, h]
  dsimp only
  rw [if_pos hret]
  rfl

theorem retry_repeats {n : ℕ} {r : GenericReturn} {t : AuditSessions}
    (h : auditTransact o env rows s = (some softError, t)) :
    retry o env rows (n + 1) r s = retry o env rows n softError t := by
  rw [retry_succ, sessions_bind, h]
  dsimp only
  rw [if_neg (not_not.2 rfl)]

theorem started_retry (n : ℕ) (r : GenericReturn) (s : AuditSessions) :
    s.started < (retry o env rows (n + 1) r s).2.started := by
  rw [retry_succ, sessions_bind]
  refine (@started_transact o env rows s).trans_le ?_
  generalize auditTransact o env rows s = a
  obtain ⟨ret, t⟩ := a
  cases ret with
  | none => exact le_rfl
  | some ret =>
    dsimp only
    split
    · exact le_rfl
    · exact (extending_retry n ret t).2

/-- `AllOrNothing` for the loop, by how its first attempt ends. -/
theorem allOrNothing_retry (hd : s.run.crashed = false) (hf : s.run.failed = false)
    (hsaved : s.saved = s.run.book.db) (hc : s.commits = []) (ha : s.attempts = [])
    (hst : s.started = 0) :
    AllOrNothing rows s.saved
        ((retry o env rows 3 gnunetOk s).1.map fun ret => if ret < 0 then gnunetSyserr else gnunetOk)
        (retry o env rows 3 gnunetOk s).2 ↔
      ∀ ret, (auditTransact o env rows s).1 = some ret →
        ¬ (auditTransact o env rows s).2.run.Failed o := by
  have h := @transact_first o env rows _ hd hf hsaved hc ha
  rw [hst] at h
  cases ht : auditTransact o env rows s with
  | mk ret t =>
  rw [ht] at h
  dsimp only at h ⊢
  cases h with
  | died h1 h2 h3 =>
    rw [retry_died ht]
    refine iff_of_true ⟨fun h => (nomatch h), fun i st h => ?_, fun h => (h rfl).elim, fun b hb => ?_⟩
      fun ret h => nomatch h
    · rw [h2] at h
      exact nomatch h
    · rw [h3] at hb
      exact absurd hb List.not_mem_nil
  | committed hf' h1 h2 h3 hb hadb hedb =>
    rw [retry_returns ht (by decide)]
    refine iff_of_true ⟨fun _ => ?_, fun i st h => ?_, fun _ => ⟨hadb, hedb⟩, fun b' hb' => ?_⟩
      fun _ _ h => absurd (hf'.symm.trans h.1) Bool.noConfusion
    · exact ⟨_, h3 ▸ List.mem_singleton_self _, hb⟩
    · rw [h2] at h
      obtain ⟨rfl, rfl⟩ : i = 0 ∧ some 0 = st := by
        cases i with
        | zero => exact ⟨rfl, Option.some.inj h⟩
        | succ i => exact nomatch h
      rw [h1]
      decide
    · rw [h3, List.mem_singleton] at hb'
      rw [hb']
      exact hb
  | repeated hf' h1 h2 hst' =>
    rw [retry_repeats ht]
    refine iff_of_false (fun h => ?_) fun h => h _ rfl hf'
    obtain ⟨xs, hxs⟩ := (@extending_retry o env rows 2 softError t).1
    have hlt := @started_retry o env rows 1 softError t
    rw [h1] at hlt
    rw [h2] at hxs
    refine hst' ((h.retried 0 _ ?_).1 hlt).1
    rw [← hxs]
    rfl
  | lost hf' hret hb =>
    rw [retry_returns ht (fun h => absurd (h ▸ hret) (by decide))]
    refine iff_of_false (fun h => ?_) fun h => h _ rfl hf'
    obtain ⟨b, hmem, hcomplete⟩ := h.committed (congrArg some (if_neg (not_lt.2 hret)))
    exact hb b hmem hcomplete

end Attempts

/-! ## Every run -/

/-- The process when an audit starts: no call so far. -/
structure AuditRun.Ready (run : AuditRun) : Prop where
  alive : run.dead = false
  calls : run.calls = 0
  failed : run.failed = false

/-- The process and the state of the database of the auditor before an audit. -/
def startSessions (run : AuditRun) : AuditSessions := { run := run, saved := run.book.db }

/-- The process has reached both databases. -/
def reachedSessions (run : AuditRun) : AuditSessions := startSessions { run with calls := 2 }

/-- A database cannot be reached. -/
theorem allOrNothing_unreached {rows : AuditRows} {db : AuditorDb} {t : AuditSessions}
    (hc : t.commits = []) (ha : t.attempts = []) (hadb : t.adbOpen = false)
    (hedb : t.edbOpen = false) : AllOrNothing rows db (some gnunetSyserr) t where
  committed h := absurd h (by decide)
  retried i st h := by
    rw [ha] at h
    exact nomatch h
  closed _ := ⟨hadb, hedb⟩
  complete b hb := by
    rw [hc] at hb
    exact absurd hb List.not_mem_nil

section Runs

variable {o : CallKind → ℕ → Outcome} {env : ReserveAuditEnv} {rows : AuditRows} {run : AuditRun}

theorem AuditRun.Ready.not_crashed (h : run.Ready) : run.crashed = false :=
  (Bool.or_eq_false_iff.1 h.alive).1

theorem genericCall_start (hf : run.failed = false) :
    o .checked run.calls = Outcome.ok ∧
        genericCall o (startSessions run) = (true, startSessions { run with calls := run.calls + 1 }) ∨
      o .checked run.calls ≠ Outcome.ok ∧ genericCall o (startSessions run) =
        (false, startSessions { run with calls := run.calls + 1, failed := true }) :=
  genericCall_cases (s := startSessions run) hf

/-- By the first attempt: an audit is all or nothing if and only if a database cannot be reached at first,
or the process dies in the first attempt, or no call of it fails whose status is looked at. -/
theorem allOrNothing_first (h : run.Ready) :
    AllOrNothing rows run.book.db (setupSessionsAndRun o env rows (startSessions run)).1
        (setupSessionsAndRun o env rows (startSessions run)).2 ↔
      (o .checked 0 ≠ Outcome.ok ∨ o .checked 1 ≠ Outcome.ok ∨
        ∀ ret, (auditTransact o env rows (reachedSessions run)).1 = some ret →
          ¬ (auditTransact o env rows (reachedSessions run)).2.run.Failed o) := by
  obtain ⟨h1, h2⟩ : o .checked run.calls = o .checked 0 ∧ o .checked (run.calls + 1) = o .checked 1 := by
    rw [h.calls]
    exact ⟨rfl, rfl⟩
  have hreached : startSessions { run with calls := run.calls + 1 + 1 } = reachedSessions run := by
    rw [h.calls]
    rfl
  unfold setupSessionsAndRun
  rw [sessions_bind]
  rcases @genericCall_start o run h.failed with ⟨h0, hcall⟩ | ⟨h0, hcall⟩
  swap
  · rw [hcall]
    exact iff_of_true (allOrNothing_unreached rfl rfl rfl rfl) (Or.inl (h1 ▸ h0))
  rw [hcall]
  dsimp only
  rw [if_neg (by decide), sessions_bind]
  rcases @genericCall_start o { run with calls := run.calls + 1 } h.failed with
    ⟨h0', hcall⟩ | ⟨h0', hcall⟩
  swap
  · rw [hcall]
    exact iff_of_true (allOrNothing_unreached rfl rfl rfl rfl) (Or.inr (Or.inl (h2 ▸ h0')))
  rw [hcall]
  dsimp only
  rw [if_neg (by decide), or_iff_right (not_not.2 (h1 ▸ h0)), or_iff_right (not_not.2 (h2 ▸ h0')),
    sessions_bind, hreached]
  have hretry := @allOrNothing_retry o env rows (reachedSessions run) h.not_crashed h.failed rfl rfl
    rfl rfl
  refine Iff.trans ?_ hretry
  change AllOrNothing rows (reachedSessions run).saved _ _ ↔ _
  generalize retry o env rows 3 gnunetOk (reachedSessions run) = r
  obtain ⟨ret, t⟩ := r
  cases ret with
  | none => exact Iff.rfl
  | some ret => exact Iff.rfl

end Runs

/-! ## An audit with enough calls -/

namespace Unverified

/-- Nothing to know; no merge has a valid signature. -/
def env : ReserveAuditEnv where
  denomination _ := none
  revocation _ := none
  closingFee _ _ := none
  reservesGet _ := none
  withdrawVerify _ := true
  recoupVerify _ := true
  openVerify _ := true
  mergeVerify _ := false
  idleReserveExpirationTime := 1000
  closingGracePeriod := 0
  internalChecks := false
  now := 0
  order l := l
  order_perm _ := List.Perm.refl _

/-- Merges without a fee. -/
def merges (n : ℕ) : List AccountMergeRow :=
  (List.range n).map fun i =>
    { rowid := i + 1, reservePub := 1, pursePub := i, hContractTerms := 0, purseExpiration := 0,
      amount := 0, minAge := 0, flags := 0, purseFee := 0, mergeTimestamp := 0, reserveSig := 0 }

def start : AuditRun where
  book := { db := {} }

theorem start_ready : start.Ready := ⟨rfl, rfl, rfl⟩

end Unverified

section Enough

variable {o : CallKind → ℕ → Outcome} {c N : ℕ} {s : AuditRun}

/-- A process without figures and summaries after `c` calls, none of which has failed. -/
structure AuditRun.Idle (o : CallKind → ℕ → Outcome) (c : ℕ) (s : AuditRun) : Prop where
  good : s.Good s.book.progress
  running : s.exited = false
  balances : s.book.balances = {}
  summaries : s.book.summaries = []
  calls : s.calls = c
  ok : ∀ n, 2 ≤ n → n < c → o .checked n = Outcome.ok

/-- A call has failed before the `N`-th one, or none does. -/
def AuditRun.Saw (o : CallKind → ℕ → Outcome) (N : ℕ) (s : AuditRun) : Prop :=
  s.failed = true ∨ ∀ n, 2 ≤ n → n < N → o .checked n = Outcome.ok

/-- The process lives, and has seen the failing calls. -/
structure AuditRun.Survives (o : CallKind → ℕ → Outcome) (N : ℕ) (s : AuditRun) : Prop where
  alive : s.dead = false
  saw : s.Saw o N

theorem AuditRun.Idle.survives (h : s.Idle o c) (hN : N ≤ c) : s.Survives o N where
  alive := by
    unfold AuditRun.dead
    rw [h.good.alive, h.running]
    rfl
  saw := Or.inr fun n hn hlt => h.ok n hn (hlt.trans_le hN)

theorem AuditBook.inRange_of_empty {b : AuditBook} (hb : b.balances = {}) (hs : b.summaries = []) :
    b.inRange = true := by
  unfold AuditBook.inRange
  rw [hb, hs]
  decide

theorem AuditRun.Idle.written {g : AuditBook → AuditBook} (h : s.Idle o c)
    (hb : (g s.book).balances = {}) (hs : (g s.book).summaries = []) :
    (onBook g s).2.Idle o c where
  good := ⟨h.good.alive, h.good.failed, h.good.global, h.good.rc, rfl⟩
  running := by
    change (s.exited || !(g s.book).inRange) = false
    rw [h.running, AuditBook.inRange_of_empty hb hs]
    rfl
  balances := hb
  summaries := hs
  calls := h.calls
  ok := h.ok

theorem AuditRun.Idle.succ (h : s.Idle o c) (ho : o .checked s.calls = Outcome.ok) :
    AuditRun.Idle o (c + 1) { s with calls := s.calls + 1 } where
  good := ⟨h.good.alive, h.good.failed, h.good.global, h.good.rc, rfl⟩
  running := h.running
  balances := h.balances
  summaries := h.summaries
  calls := congrArg (· + 1) h.calls
  ok n hn hlt := by
    rcases Nat.lt_succ_iff_lt_or_eq.1 hlt with hlt | rfl
    · exact h.ok n hn hlt
    · exact h.calls ▸ ho

/-- A call of an idle process. -/
theorem AuditRun.Idle.called (h : s.Idle o c) (k : ℤ) :
    (call o k s).1 = k ∧ (call o k s).2.Idle o (c + 1) ∧ (call o k s).2.book = s.book ∨
      (call o k s).1 < 0 ∧ (call o k s).2.Survives o N := by
  have hcall : call o k s = ((o .checked s.calls).status k, { s with
      calls := s.calls + 1, failed := s.failed || decide (o .checked s.calls ≠ Outcome.ok) }) := rfl
  by_cases ho : o .checked s.calls = Outcome.ok
  · have hsucc := h.succ ho
    rw [hcall, decide_eq_false (not_not.2 ho), Bool.or_false, ho]
    exact Or.inl ⟨rfl, hsucc, rfl⟩
  · rw [hcall, decide_eq_true ho, Bool.or_true]
    refine Or.inr ⟨Outcome.status_neg ho, ?_, Or.inl rfl⟩
    change (s.crashed || s.exited) = false
    rw [h.good.alive, h.running]
    rfl

/-- A call, and the rest of an analysis. -/
theorem AuditRun.Idle.call_bind {β : Type} {k : ℤ} {f : QueryCode → Audit β} (h : s.Idle o c)
    (hf : ∀ t : AuditRun, t.Idle o (c + 1) → t.book = s.book → (f k t).2.Survives o N)
    (hneg : ∀ qs, qs < 0 → ∀ t : AuditRun, t.Survives o N → (f qs t).2.Survives o N) :
    ((call o k >>= f) s).2.Survives o N := by
  rw [audit_bind]
  rcases h.called (N := N) k with ⟨hk, ht, hb⟩ | ⟨hk, ht⟩
  · rw [hk]
    exact hf _ ht hb
  · exact hneg _ hk _ ht

/-- A change of the book that keeps the figures, and the rest of an analysis. -/
theorem AuditRun.Idle.book_bind {β : Type} {g : AuditBook → AuditBook} {x : Audit β} (h : s.Idle o c)
    (hb : (g s.book).balances = {}) (hs : (g s.book).summaries = [])
    (hx : ∀ t : AuditRun, t.Idle o c → t.book = g s.book → (x t).2.Survives o N) :
    ((onBook g >>= fun _ => x) s).2.Survives o N :=
  hx _ (h.written hb hs) rfl

theorem select_nil {ρ : Type} (f : ρ → Audit Bool) : select o [] f = call o 0 := by
  funext s
  unfold select
  rw [audit_bind]
  split
  · rfl
  · rfl

/-- A table without rows, and the rest of an analysis. -/
theorem AuditRun.Idle.table {ρ β : Type} {f : ρ → Audit Bool}
    {rest : QueryCode → Option QueryCode → Audit β} (h : s.Idle o c)
    (hnone : ∀ t : AuditRun, t.Idle o (c + 1) → t.book = s.book → (rest 0 none t).2.Survives o N)
    (hsome : ∀ qs e, ∀ t : AuditRun, t.Survives o N → (rest qs (some e) t).2.Survives o N) :
    ((select o [] f >>= fun qs => checkDb qs >>= rest qs) s).2.Survives o N := by
  rw [select_nil]
  refine h.call_bind (fun t ht hb => ?_) fun qs hq t ht => ?_
  · change (rest 0 (t.errorStatus 0) t).2.Survives o N
    rw [ht.good.errorStatus le_rfl]
    exact hnone t ht hb
  · change (rest qs (t.errorStatus qs) t).2.Survives o N
    unfold AuditRun.errorStatus
    rw [if_pos hq]
    exact hsome qs qs t ht

theorem handleAccountMerged_unverified {row : AccountMergeRow} (hfee : row.purseFee = 0)
    (h : s.Idle o c) :
    (handleAccountMerged o Unverified.env row s).1 = true ∧
        (handleAccountMerged o Unverified.env row s).2.Idle o (c + 1) ∨
      (handleAccountMerged o Unverified.env row s).1 = false ∧
        (handleAccountMerged o Unverified.env row s).2.Survives o N ∧
        (handleAccountMerged o Unverified.env row s).2.rcQs < 0 := by
  have h' : (onBook (fun b => { b with progress.accountMerges := row.rowid + 1 }) s).2.Idle o c :=
    h.written h.balances h.summaries
  generalize ht : (onBook (fun b => { b with progress.accountMerges := row.rowid + 1 }) s).2 = t at h'
  have hstep : handleAccountMerged o Unverified.env row s =
      badSigLoss o "account-merge" row.rowid row.purseFee t := by
    rw [← ht]
    rfl
  rw [hstep, hfee]
  unfold badSigLoss
  rw [audit_bind]
  rcases h'.called (N := N) 1 with ⟨hk, hu, -⟩ | ⟨hk, hu⟩
  · rw [hk, if_neg (by decide)]
    refine Or.inl ⟨rfl, ?_⟩
    exact AuditRun.Idle.written (g := fun b =>
      { b.report (.badSigLoss "account-merge" row.rowid 0) with
        balances.totalBadSigLoss := b.balances.totalBadSigLoss + 0 }) hu hu.balances hu.summaries
  · rw [if_pos hk]
    exact Or.inr ⟨rfl, ⟨hu.alive, hu.saw⟩, hk⟩

/-- The merges are reported until a call fails. -/
theorem iterate_unverified {ms : List AccountMergeRow} (hfee : ∀ m ∈ ms, m.purseFee = 0)
    (h : s.Idle o c) :
    (iterate (handleAccountMerged o Unverified.env) ms s).2.Idle o (c + ms.length) ∨
      (iterate (handleAccountMerged o Unverified.env) ms s).2.Survives o N ∧
        (iterate (handleAccountMerged o Unverified.env) ms s).2.rcQs < 0 := by
  induction ms generalizing c s with
  | nil => exact Or.inl h
  | cons m ms ih =>
    rw [iterate, audit_bind]
    rcases handleAccountMerged_unverified (N := N) (hfee m List.mem_cons_self) h with
      ⟨hr, ht⟩ | ⟨hr, ht, hq⟩
    · rw [hr, if_pos rfl, List.length_cons, Nat.add_comm ms.length, ← Nat.add_assoc]
      exact ih (fun m' hm => hfee m' (List.mem_cons_of_mem _ hm)) ht
    · rw [hr, if_neg (by decide)]
      exact Or.inr ⟨ht, hq⟩

/-- The progress points and the balances are stored. -/
theorem storeProgress_survives (h : s.Idle o c) (hN : N ≤ c) :
    (storeProgress o s).2.Survives o N := by
  have hneg : ∀ {x : Audit QueryCode} {qs : QueryCode}, qs < 0 → ∀ t : AuditRun, t.Survives o N →
      ((if qs < 0 then pure qs else x) t).2.Survives o N := by
    intro x qs hq t ht
    rw [if_pos hq]
    exact ht
  refine h.call_bind (fun t1 h1 _ => ?_) fun qs hq => hneg hq
  refine h1.book_bind h1.balances h1.summaries fun u1 i1 _ => ?_
  refine i1.call_bind (fun t2 h2 _ => ?_) fun qs hq => hneg hq
  refine h2.book_bind h2.balances h2.summaries fun u2 i2 _ => ?_
  refine i2.call_bind (fun t3 h3 _ => ?_) fun qs hq => hneg hq
  refine h3.book_bind h3.balances h3.summaries fun u3 i3 _ => ?_
  refine i3.call_bind (fun t4 h4 _ => ?_) fun qs hq => hneg hq
  refine h4.book_bind h4.balances h4.summaries fun u4 i4 _ => i4.survives (by omega)

/-- The progress points and the balances are loaded. -/
theorem loadProgress_idle (h : s.Idle o c) (hdb : s.book.db = {}) :
    (loadProgress o s).1 = none ∧ (loadProgress o s).2.Idle o (c + 2) ∧
        (loadProgress o s).2.book.progress = {} ∨
      (∃ e, (loadProgress o s).1 = some e) ∧ (loadProgress o s).2.Survives o N := by
  have h0 : AuditRun.Idle o c { s with
      globalQs := 0, rcQs := 1, revoked := fun _ => false, book := { s.book with summaries := [] } } :=
    ⟨⟨h.good.alive, h.good.failed, le_rfl, zero_le_one' ℤ, rfl⟩, h.running, h.balances, rfl,
      h.calls, h.ok⟩
  generalize hu : ({ s with
      globalQs := 0, rcQs := 1, revoked := fun _ => false
      book := { s.book with summaries := [] } } : AuditRun) = u at h0
  have hstep : loadProgress o s = (do
      let qs ← call o 8
      if qs < 0 then return some qs
      onBook fun b => { b with progress := b.db.progress.getD {} }
      let qs ← call o 13
      if qs < 0 then return some qs
      onBook fun b => { b with balances := b.db.balances.getD {} }
      return none : Audit (Option QueryCode)) u := by
    rw [← hu]
    rfl
  have hdbu : u.book.db = {} := by
    rw [← hu]
    exact hdb
  rw [hstep, audit_bind]
  rcases h0.called (N := N) 8 with ⟨hk, h1, hb⟩ | ⟨hk, h1⟩
  · rw [hk, if_neg (by decide), audit_bind, audit_bind]
    have h2 := h1.written (g := fun b => { b with progress := b.db.progress.getD {} }) h1.balances h1.summaries
    rcases h2.called (N := N) 13 with ⟨hk', h3, hb'⟩ | ⟨hk', h3⟩
    · rw [hk', if_neg (by decide)]
      refine Or.inl ⟨rfl, ?_, ?_⟩
      · refine AuditRun.Idle.written (g := fun b => { b with balances := b.db.balances.getD {} }) h3 ?_
          h3.summaries
        rw [hb']
        change (call o 8 u).2.book.db.balances.getD {} = {}
        rw [hb, hdbu]
        rfl
      · change (call o 13 _).2.book.progress = {}
        rw [hb']
        change (call o 8 u).2.book.db.progress.getD {} = {}
        rw [hb, hdbu]
        rfl
    · rw [if_pos hk']
      exact Or.inr ⟨⟨_, rfl⟩, h3⟩
  · rw [if_pos hk]
    exact Or.inr ⟨⟨_, rfl⟩, h1⟩

/-- The table of the merges, and the rest of an analysis. -/
theorem AuditRun.Idle.merges {β : Type} {ms : List AccountMergeRow}
    {rest : QueryCode → Option QueryCode → Audit β} (hfee : ∀ m ∈ ms, m.purseFee = 0)
    (h : s.Idle o c)
    (hnone : ∀ qs, 0 ≤ qs → ∀ t : AuditRun, t.Idle o (c + 1 + ms.length) →
      (rest qs none t).2.Survives o N)
    (hsome : ∀ qs e, ∀ t : AuditRun, t.Survives o N → (rest qs (some e) t).2.Survives o N) :
    ((select o ms (handleAccountMerged o Unverified.env) >>= fun qs => checkDb qs >>= rest qs)
      s).2.Survives o N := by
  have hcheck : ∀ (qs : QueryCode) (t : AuditRun), (checkDb qs >>= rest qs) t =
      rest qs (t.errorStatus qs) t := fun _ _ => rfl
  have herror : ∀ (qs : QueryCode) {e : QueryCode} {t : AuditRun}, t.errorStatus qs = some e →
      t.Survives o N → ((checkDb qs >>= rest qs) t).2.Survives o N := by
    intro qs e t he ht
    rw [hcheck, he]
    exact hsome qs e t ht
  change ((call o ms.length >>= fun qs =>
    (if 0 ≤ qs then iterate (handleAccountMerged o Unverified.env) ms >>= fun _ => pure qs else pure qs) >>=
      fun qs => checkDb qs >>= rest qs) s).2.Survives o N
  refine h.call_bind (fun t ht _ => ?_) fun qs hq t ht => ?_
  · rw [if_pos (Int.natCast_nonneg _), audit_bind]
    rcases iterate_unverified (N := N) hfee ht with hu | ⟨hu, hq⟩
    · change ((checkDb ms.length >>= rest ms.length)
        (iterate (handleAccountMerged o Unverified.env) ms t).2).2.Survives o N
      rw [hcheck, hu.good.errorStatus (Int.natCast_nonneg _)]
      exact hnone _ (Int.natCast_nonneg _) _ hu
    · obtain ⟨e, he⟩ : ∃ e, (iterate (handleAccountMerged o Unverified.env) ms t).2.errorStatus
          ms.length = some e := by
        unfold AuditRun.errorStatus
        rw [if_neg (not_lt.2 (Int.natCast_nonneg _)), if_pos hq]
        split <;> exact ⟨_, rfl⟩
      exact herror ms.length he hu
  · rw [if_neg (not_le.2 hq)]
    exact herror qs (if_pos hq) ht

theorem verifyAll_idle (h : s.Idle o c) : verifyAll o Unverified.env s = ((), s) := by
  unfold verifyAll
  rw [audit_bind, show (get : Audit AuditRun) s = (s, s) from rfl]
  dsimp only
  rw [h.summaries]
  rfl

theorem Unverified.purseFee_merges {n : ℕ} {m : AccountMergeRow} (hm : m ∈ Unverified.merges n) :
    m.purseFee = 0 := by
  obtain ⟨i, -, rfl⟩ := List.mem_map.1 hm
  rfl

theorem Unverified.rowsFrom_merges (n : ℕ) :
    rowsFrom (fun r => r.rowid) 0 (Unverified.merges n) = Unverified.merges n :=
  List.filter_eq_self.2 fun m _ => decide_eq_true (Nat.zero_le m.rowid)

theorem Unverified.length_merges (n : ℕ) : (Unverified.merges n).length = n := by
  simp [Unverified.merges]

/-- **An analysis of unverified merges** sees every call up to the last merge. -/
theorem analyzeReserves_survives (n : ℕ) (h : s.Idle o 5) (hdb : s.book.db = {}) :
    (analyzeReserves o Unverified.env { merges := Unverified.merges n } s).2.Survives o (14 + n) := by
  unfold analyzeReserves
  rw [audit_bind]
  rcases loadProgress_idle (N := 14 + n) h hdb with ⟨hq, ht, hp⟩ | ⟨⟨e, hq⟩, ht⟩
  swap
  · rw [hq]
    exact ht
  rw [hq]
  generalize (loadProgress o s).2 = t at ht hp
  change ((get : Audit AuditRun) >>= _) t |>.2.Survives o (14 + n)
  rw [audit_bind, show (get : Audit AuditRun) t = (t, t) from rfl]
  dsimp only
  rw [hp]
  refine ht.table (fun t1 h1 _ => ?_) fun _ _ _ h => h
  refine h1.table (fun t2 h2 _ => ?_) fun _ _ _ h => h
  refine h2.table (fun t3 h3 _ => ?_) fun _ _ _ h => h
  refine h3.table (fun t4 h4 _ => ?_) fun _ _ _ h => h
  refine h4.table (fun t5 h5 _ => ?_) fun _ _ _ h => h
  refine h5.table (fun t6 h6 _ => ?_) fun _ _ _ h => h
  dsimp only
  rw [Unverified.rowsFrom_merges]
  refine h6.merges (fun _ hm => Unverified.purseFee_merges hm) (fun qs hq t7 h7 => ?_) fun _ _ _ h => h
  rw [Unverified.length_merges] at h7
  dsimp only
  rw [audit_bind, verifyAll_idle h7, audit_bind,
    show checkDb qs t7 = (t7.errorStatus qs, t7) from rfl, h7.good.errorStatus hq]
  exact storeProgress_survives h7 (by omega)

theorem Unverified.reached_idle (o : CallKind → ℕ → Outcome) :
    AuditRun.Idle o 2 (reachedSessions Unverified.start).run where
  good := ⟨rfl, rfl, le_rfl, zero_le_one' ℤ, rfl⟩
  running := rfl
  balances := rfl
  summaries := rfl
  calls := rfl
  ok _ hn hlt := absurd hn (not_le.2 hlt)

/-- An attempt returns, and has seen the failing calls. -/
structure AttemptSaw (o : CallKind → ℕ → Outcome) (N : ℕ) (ret : Option GenericReturn)
    (t : AuditSessions) : Prop where
  returns : ret ≠ none
  saw : t.run.Saw o N

theorem orAbort_saw {t : AuditSessions} {k : Sessions (Option GenericReturn)} (h : t.run.Idle o c)
    (hk : ∀ u : AuditRun, u.Idle o (c + 1) → u.book = t.run.book →
      AttemptSaw o N (k { t with run := u }).1 (k { t with run := u }).2) :
    AttemptSaw o N (orAbort o k t).1 (orAbort o k t).2 := by
  unfold orAbort
  rw [sessions_bind]
  rcases genericCall_cases (o := o) h.good.failed with ⟨ho, hcall⟩ | ⟨-, hcall⟩
  · rw [hcall]
    exact hk _ (h.succ ho) rfl
  · rw [hcall]
    exact ⟨Option.some_ne_none _, Or.inl rfl⟩

theorem analyzeAndCommit_saw {t : AuditSessions} (n : ℕ) (h : t.run.Idle o 5)
    (hdb : t.run.book.db = {}) :
    AttemptSaw o (14 + n)
      (analyzeAndCommit o Unverified.env { merges := Unverified.merges n } t).1
      (analyzeAndCommit o Unverified.env { merges := Unverified.merges n } t).2 := by
  have hu := analyzeReserves_survives n h hdb
  cases hr : analyzeReserves o Unverified.env { merges := Unverified.merges n } t.run with
  | mk qs u =>
  rw [hr] at hu
  have hd : ¬ u.dead = true := by
    rw [hu.alive]
    decide
  by_cases hq : qs = 1
  · subst hq
    rw [analyzeAndCommit_commit hr hd]
    refine ⟨Option.some_ne_none _, hu.saw.imp_left fun hf => ?_⟩
    rcases commitBoth_cases (o := o) { t with run := u } with ⟨-, hf', -⟩ | ⟨-, hf', -⟩
    · exact hf'.1
    · exact hf'.trans hf
  · rw [analyzeAndCommit_rollback hr hd hq]
    exact ⟨Option.some_ne_none _, hu.saw⟩

/-- The first attempt sees every call up to the last merge. -/
theorem auditTransact_saw {t : AuditSessions} (n : ℕ) (h : t.run.Idle o 2)
    (hdb : t.run.book.db = {}) :
    AttemptSaw o (14 + n) (auditTransact o Unverified.env { merges := Unverified.merges n } t).1
      (auditTransact o Unverified.env { merges := Unverified.merges n } t).2 := by
  unfold auditTransact
  rw [sessions_bind, modify_eq]
  refine orAbort_saw h fun u1 h1 hb1 => ?_
  rw [sessions_bind, modify_eq]
  refine orAbort_saw h1 fun u2 h2 hb2 => ?_
  refine orAbort_saw h2 fun u3 h3 hb3 => ?_
  rw [sessions_bind, modify_eq]
  exact analyzeAndCommit_saw n h3 (by rw [hb3, hb2, hb1]; exact hdb)

end Enough

namespace SoftError

/-- The first query of the analysis ends with a soft error. -/
def firstQuery (_ : CallKind) (n : ℕ) : Outcome := if n = 5 then .soft else .ok

theorem setupSessionsAndRun_softError :
    (setupSessionsAndRun firstQuery Unverified.env {} (startSessions Unverified.start)).1 =
        some gnunetOk ∧
      (setupSessionsAndRun firstQuery Unverified.env {}
        (startSessions Unverified.start)).2.commits.length = 0 := by
  decide +kernel

end SoftError

end TalerExchange
