import TalerExchange.Audit.Pass

/-!
# Failing calls during an analysis

* `AuditRun.Good`, `AuditRun.Lost`, `AuditRun.Stopped`: no call has failed; the process has died or an
  error stays in the global status; an error is in the status of the callbacks;
* `RunKeeps`, `RunGuarded`: what a part of the analysis does with them;
* `guarded_handleReserveIn`, …: a callback goes on if no call fails, and otherwise says so;
* **`analyzeReserves_ends`**: how an analysis ends.
-/

namespace TalerExchange

/-! ## The process after failing calls -/

/-- No call has failed; the progress points are `p`. -/
structure AuditRun.Good (p : ReserveProgress) (s : AuditRun) : Prop where
  alive : s.crashed = false
  failed : s.failed = false
  global : 0 ≤ s.globalQs
  rc : 0 ≤ s.rcQs
  progress : s.book.progress = p

/-- A call has failed whose status is looked at. -/
def AuditRun.Failed (o : CallKind → ℕ → Outcome) (s : AuditRun) : Prop :=
  s.failed = true ∧ ∃ n, o .checked n ≠ .ok

/-- The process has died, or `global_qs` has an error. -/
def AuditRun.Lost (o : CallKind → ℕ → Outcome) (s : AuditRun) : Prop :=
  s.crashed = true ∨ s.Failed o ∧ s.globalQs < 0

/-- `rc.qs` has an error. -/
def AuditRun.Stopped (o : CallKind → ℕ → Outcome) (s : AuditRun) : Prop := s.Failed o ∧ s.rcQs < 0

section Rules

variable {α β : Type} {o : CallKind → ℕ → Outcome} {x : Audit α} {f : α → Audit β}

/-- A dead process stays dead, an error in `global_qs` stays, and nothing is stored. -/
structure RunKeeps (x : Audit α) : Prop where
  dead : ∀ s, s.crashed = true → (x s).2.crashed = true
  failed : ∀ s, s.failed = true → (x s).2.failed = true
  global : ∀ s, s.globalQs < 0 → (x s).2.globalQs < 0
  progress : ∀ s, (x s).2.book.db.progress = s.book.db.progress
  balances : ∀ s, (x s).2.book.db.balances = s.book.db.balances

theorem RunKeeps.lost (h : RunKeeps x) {s : AuditRun} (hs : s.Lost o) : (x s).2.Lost o :=
  hs.imp (h.dead s) fun h' => ⟨⟨h.failed s h'.1.1, h'.1.2⟩, h.global s h'.2⟩

theorem RunKeeps.bind (hx : RunKeeps x) (hf : ∀ a, RunKeeps (f a)) : RunKeeps (x >>= f) where
  dead s hs := (hf _).dead _ (hx.dead s hs)
  failed s hs := (hf _).failed _ (hx.failed s hs)
  global s hs := (hf _).global _ (hx.global s hs)
  progress s := ((hf _).progress _).trans (hx.progress s)
  balances s := ((hf _).balances _).trans (hx.balances s)

theorem keeps_pure (a : α) : RunKeeps (pure a : Audit α) :=
  ⟨fun _ h => h, fun _ h => h, fun _ h => h, fun _ => rfl, fun _ => rfl⟩

theorem keeps_get : RunKeeps (get : Audit AuditRun) :=
  ⟨fun _ h => h, fun _ h => h, fun _ h => h, fun _ => rfl, fun _ => rfl⟩

theorem keeps_call (n : ℤ) : RunKeeps (call o n) :=
  ⟨fun _ h => h, fun s h => by
    change (s.failed || _) = true
    rw [h, Bool.true_or], fun _ h => h, fun _ => rfl, fun _ => rfl⟩

theorem keeps_callUnchecked (n : ℤ) : RunKeeps (callUnchecked o n) :=
  ⟨fun _ h => h, fun _ h => h, fun _ h => h, fun _ => rfl, fun _ => rfl⟩

theorem keeps_onBook {g : AuditBook → AuditBook} (hp : ∀ b, (g b).db.progress = b.db.progress)
    (hb : ∀ b, (g b).db.balances = b.db.balances) : RunKeeps (onBook g) :=
  ⟨fun _ h => h, fun _ h => h, fun _ h => h, fun s => hp s.book, fun s => hb s.book⟩

theorem keeps_modify {g : AuditRun → AuditRun} (h1 : ∀ s, (g s).crashed = s.crashed)
    (h2 : ∀ s, (g s).failed = s.failed) (h3 : ∀ s, s.globalQs < 0 → (g s).globalQs < 0)
    (h4 : ∀ s, (g s).book = s.book) : RunKeeps (modify g : Audit PUnit) :=
  ⟨fun s h => (h1 s).trans h, fun s h => (h2 s).trans h, h3,
    fun s => congrArg (fun b : AuditBook => b.db.progress) (h4 s),
    fun s => congrArg (fun b : AuditBook => b.db.balances) (h4 s)⟩

/-- From a process without an error: it goes on with the progress points that `g` sets, or the process is
lost, or it is stopped and the result, `bad`, says so. -/
structure RunGuarded (o : CallKind → ℕ → Outcome) (bad : α → Prop)
    (g : ReserveProgress → ReserveProgress) (x : Audit α) : Prop where
  keeps : RunKeeps x
  good : ∀ p s, s.Good p →
    (x s).2.Good (g p) ∧ ¬ bad (x s).1 ∨ (x s).2.Lost o ∨ (x s).2.Stopped o ∧ bad (x s).1

theorem RunGuarded.bind {bad : α → Prop} {bad' : β → Prop} {g : ReserveProgress → ReserveProgress}
    (hx : RunGuarded o bad g x) (hf : ∀ a, ¬ bad a → RunGuarded o bad' id (f a))
    (hb : ∀ a, bad a → ∃ b, bad' b ∧ f a = pure b) : RunGuarded o bad' g (x >>= f) where
  keeps := hx.keeps.bind fun a => by
    by_cases ha : bad a
    · obtain ⟨b, _, h⟩ := hb a ha
      rw [h]
      exact keeps_pure b
    · exact (hf a ha).keeps
  good p s hs := by
    rw [audit_bind]
    rcases hx.good p s hs with ⟨h, ha⟩ | h | ⟨h, ha⟩
    · exact (hf _ ha).good _ _ h
    · refine Or.inr (Or.inl ?_)
      by_cases ha : bad (x s).1
      · obtain ⟨b, _, hfb⟩ := hb _ ha
        rw [hfb]
        exact h
      · exact (hf _ ha).keeps.lost h
    · obtain ⟨b, hbad, hfb⟩ := hb _ ha
      rw [hfb]
      exact Or.inr (Or.inr ⟨h, hbad⟩)

/-- A callback does not want to go on. -/
abbrev IsFalse (b : Bool) : Prop := b = false

/-- A part that does not stop. -/
abbrev Never {α : Type} (_ : α) : Prop := False

theorem guarded_pure {bad : α → Prop} {a : α} (h : ¬ bad a) : RunGuarded o bad id (pure a) :=
  ⟨keeps_pure a, fun _ _ hs => Or.inl ⟨hs, h⟩⟩

theorem guarded_onBook {h : AuditBook → AuditBook} {g : ReserveProgress → ReserveProgress}
    (hg : ∀ b, (h b).progress = g b.progress) (hp : ∀ b, (h b).db.progress = b.db.progress)
    (hb : ∀ b, (h b).db.balances = b.db.balances) : RunGuarded o Never g (onBook h) :=
  ⟨keeps_onBook hp hb, fun _ s hs => Or.inl ⟨⟨hs.1, hs.2, hs.3, hs.4, (hg s.book).trans
    (congrArg g hs.5)⟩, id⟩⟩

theorem RunGuarded.next {bad : β → Prop} {g : ReserveProgress → ReserveProgress}
    (hx : RunGuarded o Never g x) (hf : ∀ a, RunGuarded o bad id (f a)) : RunGuarded o bad g (x >>= f) :=
  hx.bind (fun a _ => hf a) fun _ h => h.elim

theorem guarded_get_bind {bad : β → Prop} {f : AuditRun → Audit β}
    (h : ∀ s, RunGuarded o bad id (f s)) : RunGuarded o bad id ((get : Audit AuditRun) >>= f) where
  keeps := keeps_get.bind fun s => (h s).keeps
  good p s hs := (h s).good p s hs

theorem guarded_callUnchecked_bind {bad : β → Prop} {f : QueryCode → Audit β} {n : ℤ}
    (h : ∀ qs, RunGuarded o bad id (f qs)) : RunGuarded o bad id (callUnchecked o n >>= f) where
  keeps := (keeps_callUnchecked n).bind fun qs => (h qs).keeps
  good p s hs := (h _).good p { s with calls := s.calls + 1 } ⟨hs.1, hs.2, hs.3, hs.4, hs.5⟩

theorem guarded_amountSum (a b : ℕ) : RunGuarded o Never id (amountSum a b) :=
  ⟨⟨fun _ h => h, fun _ h => h, fun _ h => h, fun _ => rfl, fun _ => rfl⟩,
    fun _ _ hs => Or.inl ⟨⟨hs.1, hs.2, hs.3, hs.4, hs.5⟩, id⟩⟩

theorem guarded_addTotals (prev curr : ReserveFeeBalance) :
    RunGuarded o Never id (addTotals prev curr) :=
  ⟨⟨fun _ h => h, fun _ h => h, fun _ h => h, fun _ => rfl, fun _ => rfl⟩,
    fun _ _ hs => Or.inl ⟨⟨hs.1, hs.2, hs.3, hs.4, hs.5⟩, id⟩⟩

theorem Outcome.status_neg {n : ℤ} {r : Outcome} (h : r ≠ .ok) : r.status n < 0 := by
  cases r with
  | ok => exact absurd rfl h
  | soft => exact Int.negSucc_lt_zero 0
  | hard => exact Int.negSucc_lt_zero 1

/-- The call of a process without an error succeeds, or its status is negative. -/
theorem call_good {n : ℤ} {p : ReserveProgress} {s : AuditRun} (hs : s.Good p) :
    call o n s = (n, { s with calls := s.calls + 1 }) ∨
      (call o n s).1 < 0 ∧ (call o n s).2.Failed o := by
  by_cases ho : o .checked s.calls = Outcome.ok
  · left
    change ((o .checked s.calls).status n, { s with
      calls := s.calls + 1, failed := s.failed || decide (o .checked s.calls ≠ Outcome.ok) }) = _
    rw [ho, hs.failed]
    rfl
  · refine Or.inr ⟨Outcome.status_neg ho, ?_, s.calls, ho⟩
    change (s.failed || decide (o .checked s.calls ≠ .ok)) = true
    rw [decide_eq_true ho, Bool.or_true]

/-- A call, and a check of its status that stops the callback. -/
theorem guarded_call {bad : β → Prop} {f : QueryCode → Audit β} {n : ℤ}
    (h : RunGuarded o bad id (f n)) (hk : ∀ qs, 0 ≤ qs → RunKeeps (f qs))
    (hstop : ∀ qs, qs < 0 → ∃ b, bad b ∧
      f qs = modify (fun s => { s with rcQs := qs }) >>= fun _ => pure b) :
    RunGuarded o bad id (call o n >>= f) where
  keeps := (keeps_call n).bind fun qs => by
    rcases lt_or_ge qs 0 with hq | hq
    · obtain ⟨b, _, hf⟩ := hstop qs hq
      rw [hf]
      refine RunKeeps.bind (keeps_modify ?_ ?_ ?_ ?_) fun _ => keeps_pure b
      · exact fun _ => rfl
      · exact fun _ => rfl
      · exact fun _ h => h
      · exact fun _ => rfl
    · exact hk qs hq
  good p s hs := by
    rw [audit_bind]
    rcases call_good (n := n) hs with hc | ⟨h1, h2⟩
    · rw [hc]
      exact h.good p _ ⟨hs.1, hs.2, hs.3, hs.4, hs.5⟩
    · obtain ⟨b, hb, hf⟩ := hstop _ h1
      rw [hf]
      exact Or.inr (Or.inr ⟨⟨h2, h1⟩, hb⟩)

theorem guarded_call_bind {bad : β → Prop} {f : QueryCode → Audit β} {n : ℤ} (hn : 0 ≤ n)
    (h : ∀ qs, 0 ≤ qs → RunGuarded o bad id (f qs))
    (hstop : ∀ qs, qs < 0 → ∃ b, bad b ∧
      f qs = modify (fun s => { s with rcQs := qs }) >>= fun _ => pure b) :
    RunGuarded o bad id (call o n >>= f) :=
  guarded_call (h n hn) (fun qs hq => (h qs hq).keeps) hstop

/-- A change of the caches. -/
theorem guarded_modify {g : AuditRun → AuditRun} (h1 : ∀ s, (g s).crashed = s.crashed)
    (h2 : ∀ s, (g s).failed = s.failed) (h3 : ∀ s, (g s).globalQs = s.globalQs)
    (h4 : ∀ s, (g s).rcQs = s.rcQs) (h5 : ∀ s, (g s).book = s.book) :
    RunGuarded o Never id (modify g : Audit PUnit) where
  keeps := keeps_modify h1 h2 (fun s hs => (h3 s).symm ▸ hs) h5
  good p s hs := by
    refine Or.inl ⟨⟨(h1 s).trans hs.1, (h2 s).trans hs.2, ?_, ?_, ?_⟩, id⟩
    · exact hs.global.trans_eq (h3 s).symm
    · exact hs.rc.trans_eq (h4 s).symm
    · exact (congrArg (fun b : AuditBook => b.progress) (h5 s)).trans hs.progress

theorem guarded_crash {bad : Bool → Prop} : RunGuarded o bad id crash :=
  ⟨⟨fun _ _ => rfl, fun _ h => h, fun _ h => h, fun _ => rfl, fun _ => rfl⟩,
    fun _ _ _ => Or.inr (Or.inl (Or.inl rfl))⟩

/-- A report whose failure goes into `global_qs`. -/
theorem guarded_reported {y : Audit Unit} (hy : RunGuarded o Never id y) : RunGuarded o Never id (do
    let qs ← call o 1
    if qs < 0 then modify fun s => { s with globalQs := qs }
    else y) where
  keeps := (keeps_call 1).bind fun qs => by
    split
    · rename_i hq
      exact keeps_modify (fun _ => rfl) (fun _ => rfl) (fun _ _ => hq) fun _ => rfl
    · exact hy.keeps
  good p s hs := by
    rw [audit_bind]
    rcases call_good (o := o) (n := 1) hs with hc | ⟨h1, h2⟩
    · rw [hc]
      exact hy.good p _ ⟨hs.1, hs.2, hs.3, hs.4, hs.5⟩
    · rw [if_pos h1]
      exact Or.inr (Or.inl (Or.inr ⟨h2, h1⟩))

theorem guarded_reportRowInconsistency (table : String) (rowid : ℕ) (diagnostic : String) :
    RunGuarded o Never id (reportRowInconsistency o table rowid diagnostic) :=
  guarded_reported (guarded_onBook (fun _ => rfl) (fun _ => rfl) fun _ => rfl)

theorem guarded_globalOk : RunGuarded o IsFalse id globalOk where
  keeps := keeps_get.bind fun _ => keeps_pure _
  good p s hs := by
    refine Or.inl ⟨hs, ?_⟩
    have h : globalOk s = (!decide (s.globalQs < 0), s) := rfl
    rw [h, decide_eq_false (not_lt.2 hs.global)]
    exact Bool.noConfusion

theorem guarded_ite {bad : β → Prop} {g : ReserveProgress → ReserveProgress} (c : Prop) [Decidable c]
    {x y : Audit β} (hx : RunGuarded o bad g x) (hy : RunGuarded o bad g y) :
    RunGuarded o bad g (if c then x else y) := by
  split
  · exact hx
  · exact hy

/-- `if (GNUNET_OK != x) return GNUNET_SYSERR`. -/
theorem RunGuarded.check {g : ReserveProgress → ReserveProgress} {x y : Audit Bool}
    (hx : RunGuarded o IsFalse g x) (hy : RunGuarded o IsFalse id y) : RunGuarded o IsFalse g (do
      if !(← x) then return false
      y) := by
  refine hx.bind (fun b hb => ?_) fun b hb => ⟨false, rfl, ?_⟩
  · rw [Bool.not_eq_false] at hb
    rw [hb]
    exact hy
  · rw [hb]
    rfl

theorem guarded_true : RunGuarded o IsFalse id (pure true) := guarded_pure Bool.noConfusion

/-- A change of the book, and the rest of a callback. -/
theorem guarded_book {g : ReserveProgress → ReserveProgress} {h : AuditBook → AuditBook}
    {x : Audit Bool} (hx : RunGuarded o IsFalse id x) (hg : ∀ b, (h b).progress = g b.progress)
    (hp : ∀ b, (h b).db.progress = b.db.progress) (hb : ∀ b, (h b).db.balances = b.db.balances) :
    RunGuarded o IsFalse g (onBook h >>= fun _ => x) :=
  (guarded_onBook hg hp hb).next fun _ => hx

end Rules

/-! ## The callbacks -/

section Callbacks

variable (o : CallKind → ℕ → Outcome) (env : ReserveAuditEnv)

theorem guarded_setupReserve (r : ReservePub) : RunGuarded o IsFalse id (setupReserve o r) := by
  refine guarded_get_bind fun s => guarded_ite _ guarded_true ?_
  refine guarded_get_bind fun t => guarded_call_bind (by split_ifs <;> decide) (fun qs hq => ?_)
    fun qs hq => ⟨false, rfl, if_pos hq⟩
  rw [if_neg (not_lt.2 hq)]
  exact guarded_book guarded_true (fun _ => rfl) (fun _ => rfl) fun _ => rfl

theorem guarded_badSigLoss (operation : String) (rowid loss : ℕ) :
    RunGuarded o IsFalse id (badSigLoss o operation rowid loss) := by
  refine guarded_call_bind (by decide) (fun qs hq => ?_) fun qs hq => ⟨false, rfl, if_pos hq⟩
  rw [if_neg (not_lt.2 hq)]
  exact guarded_book guarded_true (fun _ => rfl) (fun _ => rfl) fun _ => rfl

theorem guarded_checkWithdrawTime (issue : DenominationIssue) (row : WithdrawalRow) :
    RunGuarded o IsFalse id (checkWithdrawTime o issue row) := by
  refine guarded_ite _ ?_ guarded_true
  refine guarded_call_bind (by decide) (fun qs hq => ?_) fun qs hq => ⟨false, rfl, if_pos hq⟩
  rw [if_neg (not_lt.2 hq)]
  exact guarded_book guarded_true (fun _ => rfl) (fun _ => rfl) fun _ => rfl

theorem guarded_handleReserveIn (row : ReserveInRow) :
    RunGuarded o IsFalse (fun p => { p with reserveIn := row.rowid + 1 }) (handleReserveIn o env row) := by
  refine guarded_book ?_ (fun _ => rfl) (fun _ => rfl) fun _ => rfl
  refine (guarded_setupReserve o _).check ?_
  exact guarded_book guarded_true (fun _ => rfl) (fun _ => rfl) fun _ => rfl

theorem guarded_handleReserveOpen (row : ReserveOpenRow) :
    RunGuarded o IsFalse (fun p => { p with reserveOpen := row.rowid + 1 })
      (handleReserveOpen o env row) := by
  refine guarded_book ?_ (fun _ => rfl) (fun _ => rfl) fun _ => rfl
  refine (guarded_setupReserve o _).check ?_
  refine guarded_ite _ (guarded_badSigLoss o _ _ _) ?_
  exact guarded_book guarded_true (fun _ => rfl) (fun _ => rfl) fun _ => rfl

theorem guarded_handleAccountMerged (row : AccountMergeRow) :
    RunGuarded o IsFalse (fun p => { p with accountMerges := row.rowid + 1 })
      (handleAccountMerged o env row) := by
  refine guarded_book ?_ (fun _ => rfl) (fun _ => rfl) fun _ => rfl
  refine guarded_ite _ (guarded_badSigLoss o _ _ _) ?_
  refine guarded_ite _ guarded_true ?_
  refine (guarded_setupReserve o _).check ?_
  exact guarded_book guarded_true (fun _ => rfl) (fun _ => rfl) fun _ => rfl

theorem guarded_purseDecisionCb (row : PurseDecisionRow) :
    RunGuarded o IsFalse (fun p => { p with purseDecisions := row.rowid + 1 }) (purseDecisionCb o row) := by
  refine guarded_book ?_ (fun _ => rfl) (fun _ => rfl) fun _ => rfl
  cases row.reservePub with
  | none => exact guarded_crash
  | some r =>
    refine (guarded_setupReserve o _).check ?_
    exact guarded_book guarded_true (fun _ => rfl) (fun _ => rfl) fun _ => rfl

theorem guarded_getClosingFee (account : PaytoUri) (atime : Timestamp) :
    RunGuarded o Never id (getClosingFee o env account atime) := by
  refine guarded_callUnchecked_bind fun qs => guarded_ite _ ?_ (guarded_pure id)
  exact (guarded_reportRowInconsistency _ _ _).next fun _ => guarded_pure id

theorem guarded_reportAmountArithmetic (operation : String) (rowid x y : ℕ) (profitable : ℤ) :
    RunGuarded o Never id (reportAmountArithmeticInconsistency o operation rowid x y profitable) := by
  refine guarded_reported (RunGuarded.next (guarded_onBook ?_ ?_ ?_) fun _ => ?_)
  · exact fun _ => rfl
  · exact fun _ => rfl
  · exact fun _ => rfl
  · refine guarded_ite _ (guarded_onBook (fun _ => rfl) (fun _ => rfl) fun _ => rfl) ?_
    exact guarded_ite _ (guarded_onBook (fun _ => rfl) (fun _ => rfl) fun _ => rfl) (guarded_pure id)

/-- The end of `handle_reserve_closed`: the closure is booked, and its target account is checked. -/
theorem guarded_closedBooked (row : ReserveClosedRow) : RunGuarded o IsFalse id (do
    onBook fun b => { b.onSummary row.reservePub fun rs => { rs with
        currBalance.closeFeeBalance := rs.currBalance.closeFeeBalance + row.closingFee
        totalOut := rs.totalOut + row.amountWithFee } with
      balances.closeFeeRevenue := b.balances.closeFeeRevenue + row.closingFee }
    if row.closeRequestRow ≠ 0 then return ← crash
    match (← get).book.senderAccount row.reservePub with
    | none =>
      reportRowInconsistency o "reserves_close" row.rowid
        "target account not verified, auditor does not know reserve"
      globalOk
    | some account =>
      if account ≠ row.receiverAccount then
        reportRowInconsistency o "reserves_close" row.rowid
          "target account does not match origin account"
        return ← globalOk
      return true) := by
  have hreport : ∀ diagnostic : String, RunGuarded o IsFalse id (do
      reportRowInconsistency o "reserves_close" row.rowid diagnostic
      globalOk) := fun d => (guarded_reportRowInconsistency _ _ d).next fun _ => guarded_globalOk
  refine guarded_book ?_ (fun _ => rfl) (fun _ => rfl) fun _ => rfl
  refine guarded_ite _ guarded_crash (guarded_get_bind fun s => ?_)
  cases s.book.senderAccount row.reservePub with
  | none => exact hreport _
  | some account => exact guarded_ite _ (hreport _) guarded_true

theorem guarded_handleReserveClosed (row : ReserveClosedRow) :
    RunGuarded o IsFalse (fun p => { p with reserveClose := row.rowid + 1 })
      (handleReserveClosed o env row) := by
  refine guarded_book ?_ (fun _ => rfl) (fun _ => rfl) fun _ => rfl
  refine (guarded_setupReserve o _).check ?_
  have hrest := guarded_closedBooked o row
  refine (guarded_getClosingFee o env _ _).next fun fee => ?_
  cases fee with
  | none => exact hrest
  | some fee =>
    refine guarded_ite _ ((guarded_reportAmountArithmetic o _ _ _ _ _).next fun _ => ?_) hrest
    exact guarded_globalOk.check hrest

theorem guarded_revocation (row : RecoupRow) (cached : Bool) :
    RunGuarded o IsFalse id (match env.revocation row.denomPubHash with
      | some (false, revRowid) =>
        badSigLoss o "recoup-master" (if cached then 0 else revRowid) row.amount
      | _ => pure true) := by
  split
  · exact guarded_badSigLoss o _ _ _
  · exact guarded_true

theorem guarded_checkRevoked (row : RecoupRow) : RunGuarded o IsFalse id (checkRevoked o env row) := by
  refine guarded_get_bind fun s => ?_
  generalize s.revoked row.denomPubHash = cached
  have hend := guarded_revocation o env row cached
  refine guarded_ite _ ?_ hend
  refine guarded_call_bind (by split_ifs <;> decide) (fun qs hq => ?_) fun qs hq =>
    ⟨false, rfl, if_pos hq⟩
  rw [if_neg (not_lt.2 hq)]
  refine guarded_ite _ (RunGuarded.next (guarded_modify ?_ ?_ ?_ ?_ ?_) fun _ => hend) ?_
  · exact fun _ => rfl
  · exact fun _ => rfl
  · exact fun _ => rfl
  · exact fun _ => rfl
  · exact fun _ => rfl
  · refine (guarded_reportRowInconsistency _ _ _).next fun _ => guarded_globalOk.check ?_
    exact guarded_book hend (fun _ => rfl) (fun _ => rfl) fun _ => rfl

theorem guarded_handleRecoupByReserve (row : RecoupRow) :
    RunGuarded o IsFalse (fun p => { p with reserveRecoup := row.rowid + 1 })
      (handleRecoupByReserve o env row) := by
  refine guarded_book ?_ (fun _ => rfl) (fun _ => rfl) fun _ => rfl
  have hrest : RunGuarded o IsFalse id (do
      if !(← checkRevoked o env row) then return false
      if !(← setupReserve o row.reservePub) then return false
      onBook (·.onSummary row.reservePub fun rs => { rs with
        totalIn := rs.totalIn + row.amount
        aExpirationDate := max rs.aExpirationDate
          (row.timestamp + env.idleReserveExpirationTime) })
      return true) := by
    refine (guarded_checkRevoked o env row).check ((guarded_setupReserve o _).check ?_)
    exact guarded_book guarded_true (fun _ => rfl) (fun _ => rfl) fun _ => rfl
  exact guarded_ite _ ((guarded_badSigLoss o _ _ _).check hrest) hrest

section Answers

variable {o}

/-- An answer with the status of the call that failed. -/
structure RunAnswers (o : CallKind → ℕ → Outcome) {α : Type} (x : Audit (QueryCode × α)) : Prop where
  keeps : RunKeeps x
  good : ∀ p s, s.Good p →
    (x s).2.Good p ∧ 0 ≤ (x s).1.1 ∨ (x s).2.Failed o ∧ (x s).1.1 < 0

theorem answers_pure {α : Type} {a : QueryCode × α} (h : 0 ≤ a.1) : RunAnswers o (pure a) :=
  ⟨keeps_pure a, fun _ _ hs => Or.inl ⟨hs, h⟩⟩

theorem answers_get_bind {α : Type} {f : AuditRun → Audit (QueryCode × α)}
    (h : ∀ s, RunAnswers o (f s)) : RunAnswers o ((get : Audit AuditRun) >>= f) :=
  ⟨keeps_get.bind fun s => (h s).keeps, fun p s hs => (h s).good p s hs⟩

theorem answers_ite {α : Type} (c : Prop) [Decidable c] {x y : Audit (QueryCode × α)}
    (hx : RunAnswers o x) (hy : RunAnswers o y) : RunAnswers o (if c then x else y) := by
  split
  · exact hx
  · exact hy

end Answers

theorem answers_call_bind {α : Type} {n : ℤ} {f : QueryCode → Audit (QueryCode × α)}
    (h : RunAnswers o (f n)) (hf : ∀ qs, RunKeeps (f qs)) (hneg : ∀ qs, qs < 0 → ∀ s, (f qs s).1.1 = qs) :
    RunAnswers o (call o n >>= f) where
  keeps := (keeps_call n).bind hf
  good p s hs := by
    rw [audit_bind]
    rcases call_good (n := n) hs with hc | ⟨h1, h2⟩
    · rw [hc]
      exact h.good p _ ⟨hs.1, hs.2, hs.3, hs.4, hs.5⟩
    · exact Or.inr ⟨⟨(hf _).failed _ h2.1, h2.2⟩, (hneg _ h1 _).trans_lt h1⟩

theorem answers_getDenominationInfo (h : HashCode) : RunAnswers o (getDenominationInfo o env h) := by
  have hmod : ∀ g : AuditRun → Option (HashCode → Bool), RunKeeps (modify fun s => { s with
      denominations := g s } : Audit PUnit) := fun g =>
    ⟨fun _ h => h, fun _ h => h, fun _ h => h, fun _ => rfl, fun _ => rfl⟩
  -- the denomination is looked up on its own if it is not cached
  have hone : RunAnswers o (do
      if ((← get).denominations.getD fun _ => false) h then return (1, env.denomination h)
      let qs ← call o (if (env.denomination h).isSome then 1 else 0)
      if qs ≤ 0 then return (qs, none)
      modify fun s => { s with
        denominations := s.denominations.map fun d => Function.update d h true }
      return (1, env.denomination h)) := by
    refine answers_get_bind fun s => answers_ite _ (answers_pure (zero_le_one' ℤ)) ?_
    refine answers_call_bind o ?_ (fun qs => ?_) fun qs hq s => ?_
    · have hmod' : RunAnswers o (do
          modify fun s => { s with
            denominations := s.denominations.map fun d => Function.update d h true }
          return (1, env.denomination h)) :=
        ⟨(hmod _).bind fun _ => keeps_pure _, fun p s hs =>
          Or.inl ⟨⟨hs.1, hs.2, hs.3, hs.4, hs.5⟩, zero_le_one' ℤ⟩⟩
      refine answers_ite _ (answers_pure ?_) hmod'
      split_ifs <;> decide
    · split
      · exact keeps_pure _
      · exact (hmod _).bind fun _ => keeps_pure _
    · rw [if_pos hq.le]
      rfl
  refine answers_get_bind fun s => answers_ite _ ?_ hone
  refine answers_call_bind o ?_ (fun qs => ?_) fun qs hq s => ?_
  · rw [if_neg (by decide)]
    exact ⟨(hmod _).bind fun _ => hone.keeps, fun p s hs =>
      hone.good p _ ⟨hs.1, hs.2, hs.3, hs.4, hs.5⟩⟩
  · split
    · exact (hmod _).bind fun _ => keeps_pure _
    · exact (hmod _).bind fun _ => hone.keeps
  · rw [if_pos hq]
    rfl

theorem guarded_denomination_bind (h : HashCode)
    {f : QueryCode × Option DenominationIssue → Audit Bool}
    (hf : ∀ a, 0 ≤ a.1 → RunGuarded o IsFalse id (f a))
    (hstop : ∀ a, a.1 < 0 → f a = stopWith a.1) :
    RunGuarded o IsFalse id (getDenominationInfo o env h >>= f) where
  keeps := (answers_getDenominationInfo o env h).keeps.bind fun a => by
    rcases lt_or_ge a.1 0 with ha | ha
    · rw [hstop a ha]
      refine RunKeeps.bind (keeps_modify ?_ ?_ ?_ ?_) fun _ => keeps_pure false
      · exact fun _ => rfl
      · exact fun _ => rfl
      · exact fun _ h => h
      · exact fun _ => rfl
    · exact (hf a ha).keeps
  good p s hs := by
    rw [audit_bind]
    rcases (answers_getDenominationInfo o env h).good p s hs with ⟨h1, h2⟩ | ⟨h1, h2⟩
    · exact (hf _ h2).good p _ h1
    · rw [hstop _ h2]
      exact Or.inr (Or.inr ⟨⟨h1, h2⟩, rfl⟩)

theorem guarded_handleReserveOut (row : WithdrawalRow) :
    RunGuarded o IsFalse (fun p => { p with reserveOut := row.rowid + 1 }) (handleReserveOut o env row) := by
  refine guarded_book ?_ (fun _ => rfl) (fun _ => rfl) fun _ => rfl
  refine guarded_denomination_bind o env _ (fun ⟨qs, issue⟩ hq => ?_) fun ⟨qs, issue⟩ hq => if_pos hq
  dsimp only at hq ⊢
  rw [if_neg (not_lt.2 hq)]
  cases issue with
  | none => exact (guarded_reportRowInconsistency _ _ _).next fun _ => guarded_globalOk
  | some issue =>
    refine (guarded_checkWithdrawTime o _ _).check (guarded_ite _ (guarded_badSigLoss o _ _ _) ?_)
    refine (guarded_amountSum _ _).next fun auditorAmountWithFee => ?_
    have hrest : RunGuarded o IsFalse id (do
        if !(← setupReserve o row.reservePub) then return false
        onBook fun b => { b.onSummary row.reservePub fun rs => { rs with
            currBalance.withdrawFeeBalance := rs.currBalance.withdrawFeeBalance + issue.feeWithdraw
            totalOut := rs.totalOut + auditorAmountWithFee } with
          balances.withdrawFeeRevenue := b.balances.withdrawFeeRevenue + issue.feeWithdraw }
        return true) :=
      (guarded_setupReserve o _).check
        (guarded_book guarded_true (fun _ => rfl) (fun _ => rfl) fun _ => rfl)
    refine guarded_ite _ ?_ hrest
    exact (guarded_reportRowInconsistency _ _ _).next fun _ => guarded_globalOk.check hrest

/-! ## The balances -/

theorem guarded_checkFunded (rs : ReserveSummary) : RunGuarded o (· = none) id (checkFunded o rs) := by
  unfold checkFunded
  refine (guarded_amountSum _ _).next fun mbalance => ?_
  cases rs.newBalance with
  | some b => exact guarded_pure nofun
  | none =>
    refine (guarded_amountSum _ _).next fun reserveLoss => ?_
    refine RunGuarded.next (guarded_onBook ?_ ?_ ?_) fun _ => ?_
    · exact fun _ => rfl
    · exact fun _ => rfl
    · exact fun _ => rfl
    refine guarded_call_bind (by decide) (fun qs hq => ?_) fun qs hq => ⟨none, rfl, if_pos hq⟩
    rw [if_neg (not_lt.2 hq)]
    refine RunGuarded.next (guarded_onBook ?_ ?_ ?_) fun _ => guarded_pure nofun
    · exact fun _ => rfl
    · exact fun _ => rfl
    · exact fun _ => rfl

/-- A report whose failure stops the callback. -/
theorem guarded_report_check {h : AuditBook → AuditBook} {x : QueryCode → Audit Bool}
    (hx : ∀ qs, 0 ≤ qs → RunGuarded o IsFalse id (x qs)) (hg : ∀ b, (h b).progress = b.progress)
    (hp : ∀ b, (h b).db.progress = b.db.progress) (hb : ∀ b, (h b).db.balances = b.db.balances) :
    RunGuarded o IsFalse id (do
      let qs ← call o 1
      if qs < 0 then return ← stopWith qs
      onBook h
      x qs) := by
  refine guarded_call_bind (by decide) (fun qs hq => ?_) fun qs hq => ⟨false, rfl, if_pos hq⟩
  rw [if_neg (not_lt.2 hq)]
  exact guarded_book (hx qs hq) hg hp hb

variable {o} in
theorem guarded_setRc {qs : QueryCode} (hq : 0 ≤ qs) :
    RunGuarded o Never id (modify fun s => { s with rcQs := qs } : Audit PUnit) :=
  ⟨⟨fun _ h => h, fun _ h => h, fun _ h => h, fun _ => rfl, fun _ => rfl⟩,
    fun _ _ hs => Or.inl ⟨⟨hs.1, hs.2, hs.3, hq, hs.5⟩, id⟩⟩

theorem guarded_checkSummary (rs : ReserveSummary) (balance : ℕ) :
    RunGuarded o IsFalse id (checkSummary o env rs balance) := by
  refine guarded_callUnchecked_bind fun qs => ?_
  split
  · refine guarded_report_check o (fun qs hq => ?_) (fun _ => rfl) (fun _ => rfl) fun _ => rfl
    exact (guarded_setRc hq).next fun _ => guarded_true
  · rename_i exchangeBalance _
    refine guarded_ite _ guarded_true ?_
    have hrest : RunGuarded o IsFalse id (do
        let qs ← call o 1
        if qs < 0 then return ← stopWith qs
        onBook (·.report (.balanceInsufficient rs.reservePub (rs.newBalance.getD 0) true))
        let qs ← call o 1
        if qs < 0 then return ← stopWith qs
        onBook (·.report (.balanceSummaryWrong rs.reservePub exchangeBalance balance))
        return true) := by
      refine guarded_report_check o (fun qs hq => ?_) (fun _ => rfl) (fun _ => rfl) fun _ => rfl
      exact guarded_report_check o (fun _ _ => guarded_true) (fun _ => rfl) (fun _ => rfl) fun _ => rfl
    refine guarded_ite _ ?_ ?_
    · exact guarded_book hrest (fun _ => rfl) (fun _ => rfl) fun _ => rfl
    · exact guarded_book hrest (fun _ => rfl) (fun _ => rfl) fun _ => rfl

theorem guarded_notClosed (rs : ReserveSummary) (cfee : Option ℕ) :
    RunGuarded o IsFalse id (match cfee, rs.newBalance with
      | some _, none => crash
      | some cfee, some nbalance => do
        if nbalance ≤ cfee then return true
        onBook fun b => { b with balances.balanceReserveNotClosed :=
          b.balances.balanceReserveNotClosed + nbalance }
        let qs ← call o 1
        if qs < 0 then return ← stopWith qs
        onBook (·.report (.notClosed rs.reservePub nbalance))
        return true
      | none, nbalance => do
        let qs ← call o 1
        if qs < 0 then return ← stopWith qs
        onBook (·.report (.notClosed rs.reservePub (nbalance.getD 0)))
        return true) := by
  have hreport : ∀ n : ℕ, RunGuarded o IsFalse id (do
      let qs ← call o 1
      if qs < 0 then return ← stopWith qs
      onBook (·.report (.notClosed rs.reservePub n))
      return true) := fun n =>
    guarded_report_check o (fun _ _ => guarded_true) (fun _ => rfl) (fun _ => rfl) fun _ => rfl
  split
  · exact guarded_crash
  · refine guarded_ite _ guarded_true ?_
    exact guarded_book (hreport _) (fun _ => rfl) (fun _ => rfl) fun _ => rfl
  · exact hreport _

theorem guarded_checkClosed (rs : ReserveSummary) : RunGuarded o IsFalse id (checkClosed o env rs) := by
  refine guarded_ite _ guarded_true ?_
  cases rs.senderAccount with
  | none => exact RunGuarded.next (guarded_pure id) (guarded_notClosed o rs)
  | some account => exact (guarded_getClosingFee o env _ _).next (guarded_notClosed o rs)

theorem guarded_updateTotal (rs : ReserveSummary) : RunGuarded o IsFalse id (updateTotal o rs) := by
  refine guarded_book (guarded_get_bind fun s => ?_) (fun _ => rfl) (fun _ => rfl) fun _ => rfl
  refine guarded_ite _ ((guarded_reportAmountArithmetic o _ _ _ _ _).next fun _ => ?_) ?_
  · exact guarded_globalOk.check (guarded_book guarded_true (fun _ => rfl) (fun _ => rfl) fun _ => rfl)
  · exact guarded_book guarded_true (fun _ => rfl) (fun _ => rfl) fun _ => rfl

theorem keeps_stopWith (qs : QueryCode) : RunKeeps (stopWith qs) :=
  ⟨fun _ h => h, fun _ h => h, fun _ h => h, fun _ => rfl, fun _ => rfl⟩

theorem guarded_rememberReserve (rs : ReserveSummary) (balance : ReserveFeeBalance) :
    RunGuarded o IsFalse id (rememberReserve o rs balance) := by
  have hrest : RunGuarded o IsFalse id (do
      if balance.reserveBalance = 0 then onBook (·.setReserve rs.reservePub none)
      else if rs.hadRi then
        onBook fun b => b.setReserve rs.reservePub
          ((b.db.reserves rs.reservePub).map (·.updated balance rs.aExpirationDate))
      else
        onBook (·.setReserve rs.reservePub (some ⟨balance, rs.aExpirationDate, rs.senderAccount⟩))
      return true) := by
    refine guarded_ite _ ?_ (guarded_ite _ ?_ ?_)
    · exact guarded_book guarded_true (fun _ => rfl) (fun _ => rfl) fun _ => rfl
    · exact guarded_book guarded_true (fun _ => rfl) (fun _ => rfl) fun _ => rfl
    · exact guarded_book guarded_true (fun _ => rfl) (fun _ => rfl) fun _ => rfl
  refine guarded_ite _ guarded_true (guarded_call ?_ (fun qs _ => ?_) fun qs hq =>
    ⟨false, rfl, if_pos hq.le⟩)
  · rw [if_neg (by decide)]
    exact hrest
  · split
    · exact keeps_stopWith qs
    · exact hrest.keeps

variable {o} in
/-- The result of a check, after a change of the book. -/
theorem RunGuarded.after {x : Audit Bool} {h : AuditBook → AuditBook} (hx : RunGuarded o IsFalse id x)
    (hg : ∀ b, (h b).progress = b.progress) (hp : ∀ b, (h b).db.progress = b.db.progress)
    (hb : ∀ b, (h b).db.balances = b.db.balances) : RunGuarded o IsFalse id (do
      let ret ← x
      onBook h
      return ret) where
  keeps := hx.keeps.bind fun b => (keeps_onBook hp hb).bind fun _ => keeps_pure b
  good p s hs := by
    rcases hx.good p s hs with ⟨h1, h2⟩ | h1 | ⟨h1, h2⟩
    · exact Or.inl ⟨⟨h1.1, h1.2, h1.3, h1.4, (hg _).trans h1.5⟩, h2⟩
    · exact Or.inr (Or.inl h1)
    · exact Or.inr (Or.inr ⟨h1, h2⟩)

theorem guarded_verifyReserveBalance (rs : ReserveSummary) :
    RunGuarded o IsFalse id (verifyReserveBalance o env rs) := by
  refine (guarded_checkFunded o rs).bind (fun curr hcurr => ?_) fun curr hcurr =>
    ⟨false, rfl, by rw [hcurr]⟩
  cases curr with
  | none => exact absurd rfl hcurr
  | some curr =>
    have hrest : RunGuarded o IsFalse id (do
        if !(← checkClosed o env rs) then return false
        let prev ← addTotals rs.prevBalance curr
        if !(← updateTotal o rs) then return false
        let ret ← rememberReserve o rs prev
        onBook fun b => { b with summaries := b.summaries.filter (·.reservePub ≠ rs.reservePub) }
        return ret) := by
      refine (guarded_checkClosed o env rs).check ?_
      refine (guarded_addTotals _ _).next fun prev => (guarded_updateTotal o rs).check ?_
      exact (guarded_rememberReserve o rs _).after (fun _ => rfl) (fun _ => rfl) fun _ => rfl
    exact guarded_ite _ ((guarded_checkSummary o env rs _).check hrest) hrest

end Callbacks

/-! ## The analysis -/

section Analysis

variable {ρ : Type} {o : CallKind → ℕ → Outcome} {env : ReserveAuditEnv}

theorem keeps_iterate {f : ρ → Audit Bool} (hf : ∀ row, RunKeeps (f row)) (rows : List ρ) :
    RunKeeps (iterate f rows) := by
  induction rows with
  | nil => exact keeps_pure ()
  | cons row rows ih =>
    refine (hf row).bind fun b => ?_
    split
    · exact ih
    · exact keeps_pure ()

/-- The callbacks of a table go on to its end, or there is an error. -/
theorem iterate_good {f : ρ → Audit Bool} {g : ρ → ReserveProgress → ReserveProgress}
    (hf : ∀ row, RunGuarded o IsFalse (g row) (f row)) (rows : List ρ) {p : ReserveProgress}
    {s : AuditRun} (hs : s.Good p) :
    (iterate f rows s).2.Good (rows.foldl (fun p row => g row p) p) ∨
      rows ≠ [] ∧ ((iterate f rows s).2.Lost o ∨ (iterate f rows s).2.Stopped o) := by
  induction rows generalizing p s with
  | nil => exact Or.inl hs
  | cons row rows ih =>
    rw [iterate, audit_bind]
    rcases (hf row).good p s hs with ⟨h1, h2⟩ | h1 | ⟨h1, h2⟩
    · rw [if_pos (by simpa using h2)]
      rcases ih h1 with h | ⟨_, h⟩
      · exact Or.inl h
      · exact Or.inr ⟨List.cons_ne_nil _ _, h⟩
    · refine Or.inr ⟨List.cons_ne_nil _ _, Or.inl ?_⟩
      split
      · exact (keeps_iterate (fun r => (hf r).keeps) rows).lost h1
      · exact h1
    · rw [h2, if_neg (by decide)]
      exact Or.inr ⟨List.cons_ne_nil _ _, Or.inr h1⟩

/-- A dead process stays dead. -/
def StaysDead {α : Type} (x : Audit α) : Prop := ∀ s, s.crashed = true → (x s).2.crashed = true

theorem StaysDead.bind {α β : Type} {x : Audit α} {f : α → Audit β} (hx : StaysDead x)
    (hf : ∀ a, StaysDead (f a)) : StaysDead (x >>= f) :=
  fun s hs => hf _ _ (hx s hs)

theorem keeps_checkDb (qs : QueryCode) : RunKeeps (checkDb qs) := keeps_get.bind fun _ => keeps_pure _

theorem keeps_select {f : ρ → Audit Bool} (hf : ∀ row, RunKeeps (f row)) (rows : List ρ) :
    RunKeeps (select o rows f) := by
  refine (keeps_call _).bind fun qs => ?_
  split
  · exact (keeps_iterate hf rows).bind fun _ => keeps_pure _
  · exact keeps_pure _

/-- The status that ends an analysis. -/
def AuditRun.errorStatus (qs : QueryCode) (s : AuditRun) : Option QueryCode :=
  if qs < 0 then some qs else if s.globalQs < 0 then some s.globalQs
  else if s.rcQs < 0 then some s.rcQs else none

theorem AuditRun.Good.errorStatus {p : ReserveProgress} {s : AuditRun} (hs : s.Good p)
    {qs : QueryCode} (hq : 0 ≤ qs) : s.errorStatus qs = none := by
  unfold AuditRun.errorStatus
  rw [if_neg (not_lt.2 hq), if_neg (not_lt.2 hs.global), if_neg (not_lt.2 hs.rc)]

/-- An error is found, unless the process has died. -/
theorem errorStatus_neg {s : AuditRun} (h : s.Lost o ∨ s.Stopped o) (qs : QueryCode) :
    s.crashed = true ∨ s.Failed o ∧ ∃ c, s.errorStatus qs = some c ∧ c < 0 := by
  unfold AuditRun.errorStatus
  rcases h with (h | h) | h
  · exact Or.inl h
  · refine Or.inr ⟨h.1, ?_⟩
    split
    · exact ⟨_, rfl, ‹_›⟩
    · rw [if_pos h.2]
      exact ⟨_, rfl, h.2⟩
  · refine Or.inr ⟨h.1, ?_⟩
    split
    · exact ⟨_, rfl, ‹_›⟩
    · split
      · exact ⟨_, rfl, ‹_›⟩
      · rw [if_pos h.2]
        exact ⟨_, rfl, h.2⟩

/-- A table is done, the process has died, or `CHECK_DB` finds an error; without an error of the query
that takes a row. -/
theorem select_ends {f : ρ → Audit Bool} {g : ρ → ReserveProgress → ReserveProgress}
    (hf : ∀ row, RunGuarded o IsFalse (g row) (f row)) (rows : List ρ) {p : ReserveProgress}
    {s : AuditRun} (hs : s.Good p) :
    (select o rows f s).2.errorStatus (select o rows f s).1 = none ∧
        (select o rows f s).2.Good (rows.foldl (fun p row => g row p) p) ∨
      (select o rows f s).2.crashed = true ∨
      (select o rows f s).2.Failed o ∧
        (∃ c, (select o rows f s).2.errorStatus (select o rows f s).1 = some c ∧ c < 0) ∧
        ((select o rows f s).1 < 0 ∨ 0 < (select o rows f s).1 ∧ rows ≠ []) := by
  unfold select
  rw [audit_bind]
  rcases call_good (o := o) (n := rows.length) hs with hc | ⟨h1, h2⟩
  · rw [hc, if_pos (Int.natCast_nonneg _)]
    have hs' : AuditRun.Good p { s with calls := s.calls + 1 } := ⟨hs.1, hs.2, hs.3, hs.4, hs.5⟩
    rcases iterate_good hf rows hs' with h | ⟨hne, h⟩
    · exact Or.inl ⟨h.errorStatus (Int.natCast_nonneg _), h⟩
    · rcases errorStatus_neg h (rows.length : ℤ) with h | ⟨hfail, hc⟩
      · exact Or.inr (Or.inl h)
      · exact Or.inr (Or.inr ⟨hfail, hc, Or.inr ⟨Int.natCast_pos.2 (List.length_pos_of_ne_nil hne),
          hne⟩⟩)
  · rw [if_neg (not_le.2 h1)]
    exact Or.inr (Or.inr ⟨h2, ⟨_, if_pos h1, h1⟩, Or.inl h1⟩)

/-- The analysis is complete: all rows are processed, and progress points and balances are stored. -/
structure AuditBook.Complete (rows : AuditRows) (db : AuditorDb) (b : AuditBook) : Prop where
  progress : b.db.progress =
    some ((rows.after (db.progress.getD {})).advance (db.progress.getD {}))
  balances : b.db.balances = some b.balances

/-- How an analysis ends that starts from a database of the auditor. -/
inductive AnalysisEnds (o : CallKind → ℕ → Outcome) (rows : AuditRows) (db : AuditorDb) :
    QueryCode → AuditRun → Prop
  | died {qs : QueryCode} {t : AuditRun} (h : t.crashed = true) : AnalysisEnds o rows db qs t
  | error {qs : QueryCode} {t : AuditRun} (hf : t.Failed o) (hq : qs < 0) :
    AnalysisEnds o rows db qs t
  /-- an error after the recoups, with the number of recoups as the status -/
  | skipped {qs : QueryCode} {t : AuditRun} (hf : t.Failed o) (hq : 0 < qs)
    (hp : t.book.db.progress = db.progress)
    (hne : (rows.after (db.progress.getD {})).recoups ≠ []) : AnalysisEnds o rows db qs t
  | complete {t : AuditRun} (hd : t.crashed = false) (hf : t.failed = false)
    (hc : t.book.Complete rows db) : AnalysisEnds o rows db 1 t

/-- The rest of an analysis, from the progress points `p`, under a condition on the status so far. -/
structure Rest (o : CallKind → ℕ → Outcome) (c : Prop) (rows : AuditRows) (db : AuditorDb) (p : ReserveProgress)
    (x : Audit QueryCode) : Prop where
  dead : StaysDead x
  ends : c → ∀ t, t.Good p → t.book.db.progress = db.progress →
    AnalysisEnds o rows db (x t).1 (x t).2

theorem nonneg_of_errorStatus {qs : QueryCode} {s : AuditRun} (h : s.errorStatus qs = none) :
    0 ≤ qs := by
  by_contra hq
  unfold AuditRun.errorStatus at h
  rw [if_pos (not_le.1 hq)] at h
  exact nomatch h

/-- A table of an analysis, and the rest. -/
theorem Rest.table {c : Prop} {rows : AuditRows} {db : AuditorDb} {f : ρ → Audit Bool}
    {g : ρ → ReserveProgress → ReserveProgress} (hf : ∀ row, RunGuarded o IsFalse (g row) (f row))
    {xs : List ρ} {p : ReserveProgress} {rest : QueryCode → Option QueryCode → Audit QueryCode}
    (hnone : ∀ qs, Rest o (0 ≤ qs) rows db (xs.foldl (fun p row => g row p) p) (rest qs none))
    (hsome : ∀ qs c, rest qs (some c) = pure c) :
    Rest o c rows db p (select o xs f >>= fun qs => checkDb qs >>= rest qs) where
  dead := StaysDead.bind (keeps_select (fun row => (hf row).keeps) xs).dead fun qs =>
    StaysDead.bind (keeps_checkDb qs).dead fun e => by
      cases e with
      | none => exact (hnone qs).dead
      | some c => exact hsome qs c ▸ (keeps_pure c).dead
  ends _ t ht hdb := by
    have hstep : (select o xs f >>= fun qs => checkDb qs >>= rest qs) t =
        rest (select o xs f t).1 ((select o xs f t).2.errorStatus (select o xs f t).1)
          (select o xs f t).2 := rfl
    have hprog := ((keeps_select (o := o) (fun row => (hf row).keeps) xs).progress t).trans hdb
    rw [hstep]
    rcases select_ends (o := o) hf xs ht with ⟨h1, h2⟩ | h | ⟨h1, ⟨c, hc, hneg⟩, _⟩
    · have hq := nonneg_of_errorStatus h1
      rw [h1]
      exact (hnone _).ends hq _ h2 hprog
    · refine .died ?_
      cases (select o xs f t).2.errorStatus (select o xs f t).1 with
      | none => exact (hnone _).dead _ h
      | some c => rw [hsome]; exact h
    · rw [hc, hsome]
      exact .error h1 hneg

/-- The recoups, after which the status of the query is returned for every error. -/
theorem Rest.recoups {c : Prop} {rows : AuditRows} {db : AuditorDb} {f : ρ → Audit Bool}
    {g : ρ → ReserveProgress → ReserveProgress} (hf : ∀ row, RunGuarded o IsFalse (g row) (f row))
    {xs : List ρ} (hxs : xs ≠ [] → (rows.after (db.progress.getD {})).recoups ≠ [])
    {p : ReserveProgress} {rest : QueryCode → Option QueryCode → Audit QueryCode}
    (hnone : ∀ qs, Rest o (0 ≤ qs) rows db (xs.foldl (fun p row => g row p) p) (rest qs none))
    (hsome : ∀ qs c, rest qs (some c) = pure qs) :
    Rest o c rows db p (select o xs f >>= fun qs => checkDb qs >>= rest qs) where
  dead := StaysDead.bind (keeps_select (fun row => (hf row).keeps) xs).dead fun qs =>
    StaysDead.bind (keeps_checkDb qs).dead fun e => by
      cases e with
      | none => exact (hnone qs).dead
      | some c => exact hsome qs c ▸ (keeps_pure qs).dead
  ends _ t ht hdb := by
    have hstep : (select o xs f >>= fun qs => checkDb qs >>= rest qs) t =
        rest (select o xs f t).1 ((select o xs f t).2.errorStatus (select o xs f t).1)
          (select o xs f t).2 := rfl
    have hprog := ((keeps_select (o := o) (fun row => (hf row).keeps) xs).progress t).trans hdb
    rw [hstep]
    rcases select_ends (o := o) hf xs ht with ⟨h1, h2⟩ | h | ⟨h1, ⟨c, hc, _⟩, hq⟩
    · have hq := nonneg_of_errorStatus h1
      rw [h1]
      exact (hnone _).ends hq _ h2 hprog
    · refine .died ?_
      cases (select o xs f t).2.errorStatus (select o xs f t).1 with
      | none => exact (hnone _).dead _ h
      | some c => rw [hsome]; exact h
    · rw [hc, hsome]
      rcases hq with hq | ⟨hq, hne⟩
      · exact .error h1 hq
      · exact .skipped h1 hq hprog (hxs hne)

/-- A call whose error is returned. -/
theorem call_ends {rows : AuditRows} {db : AuditorDb} {p : ReserveProgress} {n : ℤ}
    {f : QueryCode → Audit QueryCode} (hneg : ∀ qs, qs < 0 → f qs = pure qs) {t : AuditRun}
    (ht : t.Good p) (h : ∀ t' : AuditRun, t'.Good p → t'.book = t.book →
      AnalysisEnds o rows db (f n t').1 (f n t').2) :
    AnalysisEnds o rows db ((call o n >>= f) t).1 ((call o n >>= f) t).2 := by
  rw [audit_bind]
  rcases call_good (o := o) (n := n) ht with hc | ⟨h1, h2⟩
  · rw [hc]
    exact h _ ⟨ht.1, ht.2, ht.3, ht.4, ht.5⟩ rfl
  · rw [hneg _ h1]
    exact .error h2 h1

theorem storeProgress_ends {rows : AuditRows} {db : AuditorDb} {t : AuditRun}
    (ht : t.Good ((rows.after (db.progress.getD {})).advance (db.progress.getD {}))) :
    AnalysisEnds o rows db (storeProgress o t).1 (storeProgress o t).2 := by
  have hopt : ∀ {α : Type} (x : Option α) (a : α), (x <|> some a).map (fun _ => a) = some a := by
    intro α x a
    cases x <;> rfl
  have hret : ∀ (x : Audit QueryCode) (qs : QueryCode), qs < 0 →
      (if qs < 0 then pure qs else x) = pure qs := fun x qs hq => if_pos hq
  refine call_ends (hret _) ht fun t1 h1 hb1 => ?_
  rw [if_neg (by decide)]
  refine call_ends (hret _) ⟨h1.1, h1.2, h1.3, h1.4, h1.5⟩ fun t2 h2 hb2 => ?_
  rw [if_neg (by decide)]
  refine call_ends (hret _) ⟨h2.1, h2.2, h2.3, h2.4, h2.5⟩ fun t3 h3 hb3 => ?_
  rw [if_neg (by decide)]
  refine call_ends (hret _) ⟨h3.1, h3.2, h3.3, h3.4, h3.5⟩ fun t4 h4 hb4 => ?_
  rw [if_neg (by decide)]
  refine .complete h4.alive h4.failed ⟨?_, ?_⟩
  · change t4.book.db.progress.map (fun _ => t4.book.progress) = _
    rw [h4.progress, hb4]
    change (t3.book.db.progress <|> some t3.book.progress).map (fun _ => _) = _
    rw [h3.progress, hopt]
  · change t4.book.db.balances = some t4.book.balances
    rw [hb4]
    change t3.book.db.balances = some t3.book.balances
    rw [hb3]
    change t2.book.db.balances.map (fun _ => t2.book.balances) = some t2.book.balances
    rw [hb2]
    exact hopt _ _

theorem staysDead_storeProgress : StaysDead (storeProgress o) := by
  have hcall : ∀ {f : QueryCode → Audit QueryCode}, (∀ qs, StaysDead (f qs)) →
      StaysDead (call o 1 >>= f) := fun h => StaysDead.bind (keeps_call 1).dead h
  have hbook : ∀ (g : AuditBook → AuditBook) {x : Audit QueryCode}, StaysDead x →
      StaysDead (onBook g >>= fun _ => x) := fun g x h => StaysDead.bind (fun _ hs => hs) fun _ => h
  have hite : ∀ (qs : QueryCode) {x : Audit QueryCode}, StaysDead x →
      StaysDead (if qs < 0 then pure qs else x) := by
    intro qs x h
    split
    · exact (keeps_pure qs).dead
    · exact h
  exact hcall fun qs => hite qs <| hbook _ <| hcall fun qs => hite qs <| hbook _ <|
    hcall fun qs => hite qs <| hbook _ <| hcall fun qs => hite qs <| hbook _ (keeps_pure 1).dead

theorem Rest.verifyAll {rows : AuditRows} {db : AuditorDb} {p : ReserveProgress}
    (hp : p = (rows.after (db.progress.getD {})).advance (db.progress.getD {}))
    (qs : QueryCode) {rest : Option QueryCode → Audit QueryCode} (hsome : ∀ c, rest (some c) = pure c)
    (hnone : rest none = storeProgress o) :
    Rest o (0 ≤ qs) rows db p (verifyAll o env >>= fun _ => checkDb qs >>= rest) where
  dead := by
    refine StaysDead.bind (RunKeeps.dead (keeps_get.bind fun s => keeps_iterate
      (fun rs => (guarded_verifyReserveBalance o env rs).keeps) _)) fun _ =>
      StaysDead.bind (keeps_checkDb qs).dead fun e => ?_
    cases e with
    | none => exact hnone ▸ staysDead_storeProgress
    | some c => exact hsome c ▸ (keeps_pure c).dead
  ends hq t ht _ := by
    subst hp
    have hid : ∀ (rss : List ReserveSummary) (p : ReserveProgress),
        rss.foldl (fun p _ => id p) p = p := by
      intro rss
      induction rss with
      | nil => exact fun _ => rfl
      | cons rs rss ih => exact fun p => ih p
    have hstep : (TalerExchange.verifyAll o env >>= fun _ => checkDb qs >>= rest) t =
        rest ((TalerExchange.verifyAll o env t).2.errorStatus qs)
          (TalerExchange.verifyAll o env t).2 := rfl
    rw [hstep]
    have hgood := iterate_good (fun rs => guarded_verifyReserveBalance o env rs)
      ((env.order (t.book.summaries.map (·.reservePub))).filterMap fun r =>
        t.book.summaries.find? (·.reservePub = r)) ht
    rw [hid] at hgood
    change (TalerExchange.verifyAll o env t).2.Good _ ∨ _ ∧ ((TalerExchange.verifyAll o env t).2.Lost o ∨
      (TalerExchange.verifyAll o env t).2.Stopped o) at hgood
    rcases hgood with h | ⟨_, h⟩
    · rw [h.errorStatus hq, hnone]
      exact storeProgress_ends h
    · rcases errorStatus_neg h qs with h | ⟨hfail, c, hc, hneg⟩
      · refine .died ?_
        cases (TalerExchange.verifyAll o env t).2.errorStatus qs with
        | none => rw [hnone]; exact staysDead_storeProgress _ h
        | some c => rw [hsome]; exact h
      · rw [hc, hsome]
        exact .error hfail hneg

theorem foldl_point {xs : List ρ} {rowid : ρ → ℕ} (set : ℕ → ReserveProgress → ReserveProgress)
    (get : ReserveProgress → ℕ) (hset : ∀ a b p, set b (set a p) = set b p)
    (hget : ∀ a p, get (set a p) = a) (hself : ∀ p, set (get p) p = p) (p : ReserveProgress) :
    xs.foldl (fun p row => set (rowid row + 1) p) p = set (pointAfter rowid (get p) xs) p := by
  induction xs generalizing p with
  | nil => exact (hself p).symm
  | cons x xs ih =>
    rw [List.foldl_cons, ih, hset, hget]
    rfl

theorem loadProgress_ends {s : AuditRun} (hd : s.crashed = false) (hf : s.failed = false) :
    (∃ t, loadProgress o s = (none, t) ∧ t.Good (s.book.db.progress.getD {}) ∧
      t.book.db.progress = s.book.db.progress) ∨
    ∃ qs t, loadProgress o s = (some qs, t) ∧ qs < 0 ∧ t.Failed o := by
  have h0 : AuditRun.Good s.book.progress { s with
      globalQs := 0, rcQs := 1, revoked := fun _ => false, book := { s.book with summaries := [] } } :=
    ⟨hd, hf, le_refl _, zero_le_one' ℤ, rfl⟩
  have hcall : ∀ {n : ℤ} {p : ReserveProgress} {t : AuditRun}, t.Good p → 0 ≤ n →
      ∀ x : Audit (Option QueryCode), (do
        let qs ← call o n
        if qs < 0 then return some qs
        x) t = x { t with calls := t.calls + 1 } ∨ ∃ qs u, (do
        let qs ← call o n
        if qs < 0 then return some qs
        x) t = (some qs, u) ∧ qs < 0 ∧ u.Failed o := by
    intro n p t ht hn x
    rw [audit_bind]
    rcases call_good (o := o) (n := n) ht with hc | ⟨h1, h2⟩
    · rw [hc, if_neg (not_lt.2 hn)]
      exact Or.inl rfl
    · rw [if_pos h1]
      exact Or.inr ⟨_, _, rfl, h1, h2⟩
  have h1 : AuditRun.Good (s.book.db.progress.getD {})
      (onBook (fun b => { b with progress := b.db.progress.getD {} }) { s with
        calls := s.calls + 1, globalQs := 0, rcQs := 1, revoked := fun _ => false,
        book := { s.book with summaries := [] } }).2 :=
    ⟨hd, hf, le_refl _, zero_le_one' ℤ, rfl⟩
  rcases hcall h0 (by decide : (0 : ℤ) ≤ 8) (do
      onBook fun b => { b with progress := b.db.progress.getD {} }
      let qs ← call o 13
      if qs < 0 then return some qs
      onBook fun b => { b with balances := b.db.balances.getD {} }
      return none) with h | ⟨qs, u, h, hq, hu⟩
  · rcases hcall h1 (by decide : (0 : ℤ) ≤ 13) (do
        onBook fun b => { b with balances := b.db.balances.getD {} }
        return none) with h' | ⟨qs, u, h', hq, hu⟩
    · exact Or.inl ⟨_, h.trans h', ⟨hd, hf, le_refl _, zero_le_one' ℤ, rfl⟩, rfl⟩
    · exact Or.inr ⟨qs, u, h.trans h', hq, hu⟩
  · exact Or.inr ⟨qs, u, h, hq, hu⟩

theorem get_ends {rows : AuditRows} {db : AuditorDb} {f : AuditRun → Audit QueryCode} {t : AuditRun}
    (h : AnalysisEnds o rows db (f t t).1 (f t t).2) :
    AnalysisEnds o rows db (((get : Audit AuditRun) >>= f) t).1 (((get : Audit AuditRun) >>= f) t).2 := h

/-- **How an analysis ends**, whatever calls fail. -/
theorem analyzeReserves_ends (rows : AuditRows) {s : AuditRun} (hd : s.crashed = false)
    (hf : s.failed = false) :
    AnalysisEnds o rows s.book.db (analyzeReserves o env rows s).1 (analyzeReserves o env rows s).2 := by
  unfold analyzeReserves
  rw [audit_bind]
  rcases loadProgress_ends (o := o) hd hf with ⟨t, h, ht, hdb⟩ | ⟨qs, t, h, hq, hfail⟩
  · rw [h]
    refine get_ends ?_
    dsimp only
    rw [ht.progress]
    refine Rest.ends (c := True) (p := s.book.db.progress.getD {}) ?_ trivial t ht hdb
    refine Rest.table (guarded_handleReserveIn o env) (fun _ => ?_) fun _ _ => rfl
    refine Rest.table (guarded_handleReserveOut o env) (fun _ => ?_) fun _ _ => rfl
    refine Rest.recoups (guarded_handleRecoupByReserve o env) id (fun _ => ?_) fun _ _ => rfl
    refine Rest.table (guarded_handleReserveOpen o env) (fun _ => ?_) fun _ _ => rfl
    refine Rest.table (guarded_handleReserveClosed o env) (fun _ => ?_) fun _ _ => rfl
    refine Rest.table (guarded_purseDecisionCb o) (fun _ => ?_) fun _ _ => rfl
    refine Rest.table (guarded_handleAccountMerged o env) (fun qs => ?_) fun _ _ => rfl
    refine Rest.verifyAll ?_ qs (fun _ => rfl) rfl
    generalize s.book.db.progress.getD {} = p
    rw [foldl_point (fun n p => { p with reserveIn := n }) (fun p => p.reserveIn)
        (fun _ _ _ => rfl) (fun _ _ => rfl) fun _ => rfl,
      foldl_point (fun n p => { p with reserveOut := n }) (fun p => p.reserveOut)
        (fun _ _ _ => rfl) (fun _ _ => rfl) fun _ => rfl,
      foldl_point (fun n p => { p with reserveRecoup := n }) (fun p => p.reserveRecoup)
        (fun _ _ _ => rfl) (fun _ _ => rfl) fun _ => rfl,
      foldl_point (fun n p => { p with reserveOpen := n }) (fun p => p.reserveOpen)
        (fun _ _ _ => rfl) (fun _ _ => rfl) fun _ => rfl,
      foldl_point (fun n p => { p with reserveClose := n }) (fun p => p.reserveClose)
        (fun _ _ _ => rfl) (fun _ _ => rfl) fun _ => rfl,
      foldl_point (fun n p => { p with purseDecisions := n }) (fun p => p.purseDecisions)
        (fun _ _ _ => rfl) (fun _ _ => rfl) fun _ => rfl,
      foldl_point (fun n p => { p with accountMerges := n }) (fun p => p.accountMerges)
        (fun _ _ _ => rfl) (fun _ _ => rfl) fun _ => rfl]
    rfl
  · rw [h]
    exact .error hfail hq

end Analysis

end TalerExchange
