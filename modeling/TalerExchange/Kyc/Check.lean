import TalerExchange.Kyc.Updater

/-!
# Legitimization checks

`TEH_legitimization_check` looks the rules of the account up, has them updated by a rule updater if
they are its own, tests whether they require something, and runs an instant measure after which it
starts again. The result is delivered by a scheduled task, which frees the check.

* `legitimizationCheckRun`, `currentRulesCb`, `legiCheckAmlTriggerCb`: the callbacks; what the
  database and the tests answer on the way is in `CheckAnswers`;
* `LegitimizationCheck`: the handles of a check next to what is really under way;
* `CheckProtocol`: one result, no open transaction, a bounded number of reruns, and nothing that
  calls back after the check was freed;
* `CheckOk`: the commit after the start of an instant measure succeeds, and a check is not cancelled
  while its rule updater runs;
* **`run_checkProtocol`**: then the protocol is kept.
-/

namespace TalerExchange

open Sql Transition

/-! ## The state of a check -/

/-- `MAX_LEGI_LOOPS`. -/
def maxLegiLoops : ℕ := 5

/-- The error codes that a check reports. -/
inductive LegiError
  | dbStartFailed
  | dbFetchFailed
  | dbStoreFailed
  | dbCommitFailed
  | internalInvariantFailure
  | recursiveRuleDetected
  | amlProgramFailure
  | updater (ec : ErrorCode)
  | measure (ec : ℕ)
deriving DecidableEq, Repr

/-- `struct TEH_LegitimizationCheckResult`: the status of the account, and the error that the
response is made of. -/
structure LegiResult where
  requirementRow : ℕ := 0
  ok : Bool := false
  accountPub : Option MerchantPub := none
  reservePub : Option MerchantPub := none
  badKycAuth : Bool := false
  response : Option LegiError := none
deriving DecidableEq, Repr

/-- `struct TEH_LegitimizationCheckHandle`. `asyncTask` and `kat` are the handles, of which each new
one replaces the one before; `tasks`, `kats` and `rus` count the scheduled tasks, measure runs and
rule updaters that will call back. `results` has what was delivered and whether a transaction was
open, `afterFree` counts the callbacks after the check was freed, `ran` all callbacks. -/
structure LegitimizationCheck where
  merchantPub : Option MerchantPub
  asyncTask : Bool := false
  kat : Bool := false
  rerun : ℕ := 0
  badKycAuth : Bool := false
  lcr : LegiResult := {}
  tasks : ℕ := 0
  kats : ℕ := 0
  rus : ℕ := 0
  txn : Bool := false
  freed : Bool := false
  cancelled : Bool := false
  results : List (LegiResult × Bool) := []
  afterFree : ℕ := 0
  ran : ℕ := 0
deriving DecidableEq, Repr

/-- What `TEH_PG_get_kyc_rules` stores in its parameters. -/
structure KycRulesRow where
  accountPub : Option MerchantPub := none
  reservePub : Option ReservePub := none
  jrules : Option JsonText := none
deriving DecidableEq, Repr

/-- What `TALER_KYCLOGIC_kyc_test_required` finds. -/
inductive KycTest
  | error
  | notRequired
  | instantMeasure
  | measures
deriving DecidableEq, Repr

/-- What is answered while one callback runs: `kycRules` is `none` for an error, `amountsRead` says
that the test asked for amounts, `measureRun` that `TEH_kyc_run_measure_directly` returned a
handle. -/
structure CheckAnswers where
  enableKyc : Bool := true
  start : Bool := true
  kycRules : Option KycRulesRow := some {}
  test : KycTest := .notRequired
  amountsRead : Bool := false
  measureRun : Bool := true
  trigger : QueryStatus := .oneResult
  requirementRow : ℕ := 0
  triggerBadKycAuth : Bool := false
  commit : QueryStatus := .noResults
deriving DecidableEq, Repr

/-- The status of a failed query. -/
def QueryStatus.failed (qs : QueryStatus) : Bool := qs = .hardError ∨ qs = .softError

/-- The merchant's key is neither the key of the account nor that of its last transfer. -/
def KycRulesRow.mismatch (r : KycRulesRow) (merchantPub : Option MerchantPub) : Bool :=
  merchantPub.any fun p => decide (r.accountPub ≠ some p ∧ r.reservePub ≠ some p)

/-! ## The callbacks -/

namespace LegitimizationCheck

/-- `GNUNET_SCHEDULER_add_now (&async_return_legi_result, lch)`. -/
def schedule (lch : LegitimizationCheck) : LegitimizationCheck :=
  { lch with asyncTask := true, tasks := lch.tasks + 1 }

/-- `legi_fail`. -/
def legiFail (lch : LegitimizationCheck) (ec : LegiError) : LegitimizationCheck :=
  schedule { lch with lcr := { lch.lcr with response := some ec } }

/-- `fail_kyc_auth`. -/
def failKycAuth (lch : LegitimizationCheck) : LegitimizationCheck :=
  schedule { lch with
    lcr := { lch.lcr with requirementRow := 0, ok := false, badKycAuth := true, response := none } }

/-- The transaction is over. -/
def closed (lch : LegitimizationCheck) : LegitimizationCheck := { lch with txn := false }

/-- `commit`, and what comes after it unless it fails. -/
def commitThen (a : CheckAnswers) (lch : LegitimizationCheck)
    (next : LegitimizationCheck → LegitimizationCheck) : LegitimizationCheck :=
  if a.commit.failed then legiFail lch.closed .dbCommitFailed else next lch.closed

variable (cfg : KycConfig) (a : CheckAnswers)

/-- The branch of `current_rules_cb` for an instant measure. A measure run that cannot be started does
not end the branch. -/
def runInstant (lch : LegitimizationCheck) : LegitimizationCheck :=
  let lch := if a.measureRun then { lch with kat := true, kats := lch.kats + 1 }
    else legiFail lch.closed .amlProgramFailure
  commitThen a lch id

/-- The branch of `current_rules_cb` for measures that the user has to take. -/
def requireMeasures (lch : LegitimizationCheck) : LegitimizationCheck :=
  let lch := { lch with lcr := { lch.lcr with
    ok := false, requirementRow := a.requirementRow, badKycAuth := a.triggerBadKycAuth } }
  match a.trigger with
  | .noResults => legiFail lch.closed .internalInvariantFailure
  | .hardError => legiFail lch.closed .dbStoreFailed
  | _ => commitThen a lch schedule

/-- `current_rules_cb`. -/
def currentRulesCb (lch : LegitimizationCheck) (ec : ErrorCode) : LegitimizationCheck :=
  if ec ≠ .none then legiFail lch.closed (.updater ec)
  else
    let lch := { lch with badKycAuth := lch.badKycAuth || (lch.lcr.badKycAuth && a.amountsRead) }
    if a.test = .error then legiFail lch.closed .dbFetchFailed
    else if lch.badKycAuth then commitThen a lch failKycAuth
    else
      match a.test with
      | .instantMeasure => runInstant a lch
      | .measures => requireMeasures a lch
      | _ => commitThen a lch fun lch => schedule { lch with lcr := { lch.lcr with ok := true } }

/-- `legitimization_check_run` after the look-up of the rules. -/
def withRules (lch : LegitimizationCheck) (r : KycRulesRow) : LegitimizationCheck :=
  let lch := { lch with lcr := { lch.lcr with accountPub := r.accountPub, reservePub := r.reservePub } }
  match r.jrules with
  | none =>
    currentRulesCb a { lch with
      lcr := { lch.lcr with badKycAuth := lch.lcr.badKycAuth || r.mismatch lch.merchantPub } } .none
  | some j =>
    if r.mismatch lch.merchantPub then failKycAuth lch.closed
    else if (cfg.rulesParse j).isSome then { lch.closed with rus := lch.rus + 1 }
    else currentRulesCb a lch .none

/-- `legitimization_check_run`. -/
def legitimizationCheckRun (lch : LegitimizationCheck) : LegitimizationCheck :=
  if a.enableKyc = false then
    schedule { lch with lcr := { lch.lcr with
      requirementRow := 0, ok := true, badKycAuth := false, response := none } }
  else if a.start = false then legiFail lch .dbStartFailed
  else
    let lch := { lch with txn := true }
    match a.kycRules with
    | none => legiFail lch.closed .dbFetchFailed
    | some r => withRules cfg a lch r

/-- `legi_check_aml_trigger_cb`. -/
def legiCheckAmlTriggerCb (lch : LegitimizationCheck) (ec : ℕ) : LegitimizationCheck :=
  let lch := { lch with kat := false }
  if ec ≠ 0 then legiFail lch (.measure ec)
  else if maxLegiLoops < lch.rerun then legiFail lch .recursiveRuleDetected
  else legitimizationCheckRun cfg a { lch with rerun := lch.rerun + 1 }

/-- `TEH_legitimization_check_cancel`: the rule updater is not among what it cancels. -/
def cancel (lch : LegitimizationCheck) : LegitimizationCheck :=
  { lch with
    tasks := if lch.asyncTask then lch.tasks - 1 else lch.tasks
    asyncTask := false
    kats := if lch.kat then lch.kats - 1 else lch.kats
    kat := false
    freed := true }

/-- `async_return_legi_result`. -/
def asyncReturnLegiResult (lch : LegitimizationCheck) : LegitimizationCheck :=
  cancel { lch with asyncTask := false, results := lch.results ++ [(lch.lcr, lch.txn)] }

end LegitimizationCheck

/-- `TEH_legitimization_check2`, with a merchant's key or without. -/
def legitimizationCheck (cfg : KycConfig) (merchantPub : Option MerchantPub) (a : CheckAnswers) :
    LegitimizationCheck :=
  LegitimizationCheck.legitimizationCheckRun cfg a { merchantPub := merchantPub }

/-- The events: a scheduled task runs, a rule updater or a measure run calls back, the check is
cancelled. -/
inductive CheckEvent
  | task
  | rules (ec : ErrorCode) (a : CheckAnswers)
  | measure (ec : ℕ) (a : CheckAnswers)
  | cancel
deriving DecidableEq, Repr

/-- A callback runs: with the check, or on what was freed. -/
def LegitimizationCheck.callback (lch : LegitimizationCheck)
    (f : LegitimizationCheck → LegitimizationCheck) : LegitimizationCheck :=
  let lch := { lch with ran := lch.ran + 1 }
  if lch.freed then { lch with afterFree := lch.afterFree + 1 } else f lch

/-- **One event.** What is not under way does not call back. -/
def checkStep (cfg : KycConfig) (lch : LegitimizationCheck) : CheckEvent → LegitimizationCheck
  | .task =>
    if 0 < lch.tasks then
      LegitimizationCheck.callback { lch with tasks := lch.tasks - 1 }
        LegitimizationCheck.asyncReturnLegiResult
    else lch
  | .rules ec a =>
    if 0 < lch.rus then
      LegitimizationCheck.callback { lch with rus := lch.rus - 1 } fun lch =>
        LegitimizationCheck.currentRulesCb a { lch with txn := ec = .none } ec
    else lch
  | .measure ec a =>
    if 0 < lch.kats then
      LegitimizationCheck.callback { lch with kats := lch.kats - 1 } fun lch =>
        LegitimizationCheck.legiCheckAmlTriggerCb cfg a lch ec
    else lch
  | .cancel => if lch.freed then lch else LegitimizationCheck.cancel { lch with cancelled := true }

/-! ## The protocol -/

/-- What is under way for a check. -/
def LegitimizationCheck.underWay (lch : LegitimizationCheck) : ℕ := lch.tasks + lch.kats + lch.rus

/-- **The protocol**: one result at most, delivered without an open transaction; the check reruns
itself at most `MAX_LEGI_LOOPS + 1` times; as long as it is there, there is exactly one thing under way
and no more than `15` callbacks have run; when it is gone, it has delivered its result or was
cancelled, and nothing calls back any more. -/
structure CheckProtocol (lch : LegitimizationCheck) : Prop where
  once : lch.results.length ≤ 1
  txn : ∀ r ∈ lch.results, r.2 = false
  reruns : lch.rerun ≤ maxLegiLoops + 1
  afterFree : lch.afterFree = 0
  underWay : lch.freed = false → lch.results = [] ∧ lch.underWay = 1 ∧ lch.ran < 15
  freed : lch.freed = true →
    lch.underWay = 0 ∧ (lch.cancelled = false → lch.results.length = 1)

namespace LegitimizationCheck

/-- Where `current_rules_cb` gets to an instant measure, with a key that is not bad, the commit
succeeds. -/
def CommitOk (lch : LegitimizationCheck) (a : CheckAnswers) : Prop :=
  a.test = .instantMeasure → (lch.badKycAuth || (lch.lcr.badKycAuth && a.amountsRead)) = false →
    a.commit.failed = false

/-- The same for `legitimization_check_run`, which tests the key where there are no custom rules. -/
def RunCommitOk (lch : LegitimizationCheck) (a : CheckAnswers) : Prop :=
  ∀ r ∈ a.kycRules, CommitOk { lch with lcr := { lch.lcr with
    badKycAuth := lch.lcr.badKycAuth || (r.jrules.isNone && r.mismatch lch.merchantPub) } } a

instance decidableCommitOk (lch : LegitimizationCheck) (a : CheckAnswers) :
    Decidable (lch.CommitOk a) :=
  inferInstanceAs (Decidable (_ → _ → _))

instance decidableRunCommitOk (lch : LegitimizationCheck) (a : CheckAnswers) :
    Decidable (lch.RunCommitOk a) :=
  inferInstanceAs (Decidable (∀ r ∈ a.kycRules, _))

end LegitimizationCheck

/-- Commits after the start of an instant measure succeed, and nothing is cancelled while the rule
updater runs. -/
def CheckOk (lch : LegitimizationCheck) : CheckEvent → Prop
  | .task => True
  | .rules ec a => ec = .none → lch.CommitOk a
  | .measure ec a => ec = 0 → lch.RunCommitOk a
  | .cancel => lch.freed = false → lch.rus = 0

instance (lch : LegitimizationCheck) (e : CheckEvent) : Decidable (CheckOk lch e) :=
  match e with
  | .task => .isTrue trivial
  | .rules ec a => inferInstanceAs (Decidable (ec = .none → lch.CommitOk a))
  | .measure ec a => inferInstanceAs (Decidable (ec = 0 → lch.RunCommitOk a))
  | .cancel => inferInstanceAs (Decidable (lch.freed = false → lch.rus = 0))

/-! ## What a callback starts -/

namespace LegitimizationCheck

/-- What a check that continues to exist leaves alone. -/
structure Frame (lch lch' : LegitimizationCheck) : Prop where
  rerun : lch'.rerun = lch.rerun
  results : lch'.results = lch.results
  freed : lch'.freed = lch.freed
  afterFree : lch'.afterFree = lch.afterFree
  ran : lch'.ran = lch.ran
  txn : lch'.txn = false

/-- A callback that runs on starts exactly one thing: the task, a measure run from level `1` on, a rule
updater from level `2` on. -/
inductive Starts (n : ℕ) (lch lch' : LegitimizationCheck) : Prop
  | task (hf : Frame lch lch') (ht : lch'.tasks = lch.tasks + 1 ∧ lch'.asyncTask = true)
      (hk : lch'.kats = lch.kats ∧ lch'.kat = lch.kat) (hu : lch'.rus = lch.rus)
  | measure (hf : Frame lch lch') (ht : lch'.tasks = lch.tasks ∧ lch'.asyncTask = lch.asyncTask)
      (hk : lch'.kats = lch.kats + 1 ∧ lch'.kat = true) (hu : lch'.rus = lch.rus) (hn : 1 ≤ n)
  | updater (hf : Frame lch lch') (ht : lch'.tasks = lch.tasks ∧ lch'.asyncTask = lch.asyncTask)
      (hk : lch'.kats = lch.kats ∧ lch'.kat = lch.kat) (hu : lch'.rus = lch.rus + 1)
      (hn : 2 ≤ n)

variable {cfg : KycConfig} {a : CheckAnswers} {n : ℕ} {lch lch' : LegitimizationCheck}

/-- The result under construction and the transaction do not matter. -/
theorem Starts.of_lcr (lcr : LegiResult) (bad t : Bool)
    (h : Starts n { lch with lcr := lcr, badKycAuth := bad, txn := t } lch') :
    Starts n lch lch' := by
  cases h with
  | task hf ht hk hu =>
    exact .task ⟨hf.rerun, hf.results, hf.freed, hf.afterFree, hf.ran, hf.txn⟩ ht hk hu
  | measure hf ht hk hu hn =>
    exact .measure ⟨hf.rerun, hf.results, hf.freed, hf.afterFree, hf.ran, hf.txn⟩ ht hk hu hn
  | updater hf ht hk hu hn =>
    exact .updater ⟨hf.rerun, hf.results, hf.freed, hf.afterFree, hf.ran, hf.txn⟩ ht hk hu hn

/-- A branch that ends with a scheduled result. -/
theorem starts_schedule (lch : LegitimizationCheck) (lcr : LegiResult) (bad : Bool) :
    Starts n lch { lch with
      asyncTask := true, tasks := lch.tasks + 1, lcr := lcr, badKycAuth := bad, txn := false } :=
  .task ⟨rfl, rfl, rfl, rfl, rfl, rfl⟩ ⟨rfl, rfl⟩ ⟨rfl, rfl⟩ rfl

theorem starts_legiFail (ht : lch.txn = false) (ec : LegiError) : Starts n lch (legiFail lch ec) :=
  .task ⟨rfl, rfl, rfl, rfl, rfl, ht⟩ ⟨rfl, rfl⟩ ⟨rfl, rfl⟩ rfl

theorem starts_commitThen {next : LegitimizationCheck → LegitimizationCheck}
    (h : a.commit.failed = false → Starts n lch (next lch.closed)) :
    Starts n lch (commitThen a lch next) := by
  unfold commitThen
  split_ifs with hc
  · exact starts_schedule lch _ _
  · exact h (by simpa using hc)

theorem starts_runInstant (hn : 1 ≤ n) (hc : a.commit.failed = false) : Starts n lch (runInstant a lch) := by
  unfold runInstant commitThen
  rw [hc]
  cases a.measureRun with
  | true => exact .measure ⟨rfl, rfl, rfl, rfl, rfl, rfl⟩ ⟨rfl, rfl⟩ ⟨rfl, rfl⟩ rfl hn
  | false => exact starts_schedule lch _ _

theorem starts_requireMeasures : Starts n lch (requireMeasures a lch) := by
  have hcommit : ∀ lch' : LegitimizationCheck, Starts n lch' (commitThen a lch' schedule) :=
    fun lch' => starts_commitThen fun _ => starts_schedule lch' _ _
  unfold requireMeasures
  cases a.trigger with
  | hardError => exact starts_schedule lch _ _
  | noResults => exact starts_schedule lch _ _
  | softError => exact (hcommit { lch with lcr := _ }).of_lcr _ _ _
  | oneResult => exact (hcommit { lch with lcr := _ }).of_lcr _ _ _

theorem starts_currentRulesCb (hn : 1 ≤ n) (ec : ErrorCode) (ha : ec = .none → lch.CommitOk a) :
    Starts n lch (currentRulesCb a lch ec) := by
  unfold currentRulesCb
  split
  · exact starts_schedule lch _ _
  next hec =>
  simp only
  refine Starts.of_lcr lch.lcr (lch.badKycAuth || (lch.lcr.badKycAuth && a.amountsRead)) lch.txn ?_
  split
  · exact starts_schedule _ _ _
  split
  · exact starts_commitThen fun _ => starts_schedule _ _ _
  · next hbad =>
    cases ht : a.test with
    | error => exact starts_commitThen fun _ => starts_schedule _ _ _
    | notRequired => exact starts_commitThen fun _ => starts_schedule _ _ _
    | instantMeasure =>
      exact starts_runInstant hn (ha (not_not.mp hec) ht (Bool.eq_false_of_not_eq_true hbad))
    | measures => exact starts_requireMeasures

theorem starts_legitimizationCheckRun (ha : lch.RunCommitOk a) (ht : lch.txn = false) :
    Starts 2 lch (legitimizationCheckRun cfg a lch) := by
  unfold legitimizationCheckRun
  split_ifs
  · exact .task ⟨rfl, rfl, rfl, rfl, rfl, ht⟩ ⟨rfl, rfl⟩ ⟨rfl, rfl⟩ rfl
  · exact starts_legiFail ht _
  simp only
  split
  · exact starts_schedule lch _ _
  · next r hr =>
    have hok := ha r hr
    unfold withRules
    simp only
    split
    · next hj =>
      rw [hj] at hok
      refine (starts_currentRulesCb (Nat.le_succ 1) .none fun _ => ?_).of_lcr _ _ _
      simpa [CommitOk] using hok
    · next j hj =>
      rw [hj] at hok
      split_ifs
      · exact starts_schedule lch _ _
      · exact .updater ⟨rfl, rfl, rfl, rfl, rfl, rfl⟩ ⟨rfl, rfl⟩ ⟨rfl, rfl⟩ rfl le_rfl
      · refine (starts_currentRulesCb (Nat.le_succ 1) .none fun _ => ?_).of_lcr _ _ _
        simpa [CommitOk] using hok

end LegitimizationCheck

/-! ## The invariant -/

/-- A check that exists: one thing is under way and the handles are right about it. -/
structure Alive (lch : LegitimizationCheck) : Prop where
  results : lch.results = []
  freed : lch.freed = false
  afterFree : lch.afterFree = 0
  txn : lch.txn = false
  rerun : lch.rerun ≤ maxLegiLoops + 1
  one : lch.underWay = 1
  asyncTask : lch.asyncTask = decide (0 < lch.tasks)
  kat : lch.kat = decide (0 < lch.kats)
  -- a rule updater and a measure run can come before each rerun
  ran : lch.ran + 2 * (maxLegiLoops + 1 - lch.rerun) + lch.kats + 2 * lch.rus ≤ 14

/-- A check that is gone. -/
structure Gone (lch : LegitimizationCheck) : Prop where
  freed : lch.freed = true
  afterFree : lch.afterFree = 0
  rerun : lch.rerun ≤ maxLegiLoops + 1
  nothing : lch.tasks = 0 ∧ lch.kats = 0 ∧ lch.rus = 0
  once : lch.results.length ≤ 1
  txn : ∀ r ∈ lch.results, r.2 = false
  delivered : lch.cancelled = false → lch.results.length = 1

section Invariants

variable {cfg : KycConfig} {a : CheckAnswers} {n : ℕ} {lch lch' : LegitimizationCheck}

/-- A callback with nothing else under way leaves one thing under way. -/
theorem alive_of_starts (h : LegitimizationCheck.Starts n lch lch') (hr : lch.results = [])
    (hf : lch.freed = false) (ha : lch.afterFree = 0)
    (hn : lch.tasks = 0 ∧ lch.kats = 0 ∧ lch.rus = 0) (ht : lch.asyncTask = false)
    (hk : lch.kat = false) (hre : lch.rerun ≤ maxLegiLoops + 1)
    (hran : lch.ran + 2 * (maxLegiLoops + 1 - lch.rerun) + n ≤ 14) : Alive lch' := by
  obtain ⟨hn₁, hn₂, hn₃⟩ := hn
  cases h with
  | task hfr ht' hk' hu =>
    refine ⟨hfr.results.trans hr, hfr.freed.trans hf, hfr.afterFree.trans ha, hfr.txn,
      hfr.rerun ▸ hre, ?_, ?_, ?_, ?_⟩
    · simp only [LegitimizationCheck.underWay]
      omega
    · simp [ht'.1, ht'.2]
    · simp [hk'.1, hk'.2, hk, hn₂]
    · rw [hfr.ran, hfr.rerun]
      omega
  | measure hfr ht' hk' hu hle =>
    refine ⟨hfr.results.trans hr, hfr.freed.trans hf, hfr.afterFree.trans ha, hfr.txn,
      hfr.rerun ▸ hre, ?_, ?_, ?_, ?_⟩
    · simp only [LegitimizationCheck.underWay]
      omega
    · simp [ht'.1, ht'.2, ht, hn₁]
    · simp [hk'.1, hk'.2]
    · rw [hfr.ran, hfr.rerun]
      omega
  | updater hfr ht' hk' hu hle =>
    refine ⟨hfr.results.trans hr, hfr.freed.trans hf, hfr.afterFree.trans ha, hfr.txn,
      hfr.rerun ▸ hre, ?_, ?_, ?_, ?_⟩
    · simp only [LegitimizationCheck.underWay]
      omega
    · simp [ht'.1, ht'.2, ht, hn₁]
    · simp [hk'.1, hk'.2, hk, hn₂]
    · rw [hfr.ran, hfr.rerun]
      omega

theorem alive_legitimizationCheck (cfg : KycConfig) (merchantPub : Option MerchantPub)
    (ha : LegitimizationCheck.RunCommitOk { merchantPub := merchantPub } a) : Alive (legitimizationCheck cfg merchantPub a) :=
  alive_of_starts (LegitimizationCheck.starts_legitimizationCheckRun ha rfl) rfl rfl rfl
    ⟨rfl, rfl, rfl⟩ rfl rfl (Nat.zero_le _) (by simp [maxLegiLoops])

/-- The task delivers the result and frees the check. -/
theorem Alive.task (h : Alive lch) (ht : 0 < lch.tasks) : Gone (checkStep cfg lch .task) := by
  have hone := h.one
  simp only [LegitimizationCheck.underWay] at hone
  have hk : lch.kat = false := by simp [h.kat]; omega
  simp only [checkStep, ht, if_true, LegitimizationCheck.callback, h.freed, Bool.false_eq_true,
    if_false, LegitimizationCheck.asyncReturnLegiResult, LegitimizationCheck.cancel, hk]
  refine ⟨rfl, h.afterFree, h.rerun, ⟨?_, ?_, ?_⟩, ?_, ?_, ?_⟩
  · simp only
    omega
  · simp only
    omega
  · simp only
    omega
  · simp [h.results]
  · simp [h.results, h.txn]
  · simp [h.results]

/-- The rules come from the rule updater. -/
theorem Alive.rules {ec : ErrorCode} (h : Alive lch) (hu : 0 < lch.rus)
    (ha : ec = .none → lch.CommitOk a) :
    Alive (checkStep cfg lch (.rules ec a)) := by
  have hone := h.one
  have hran := h.ran
  simp only [LegitimizationCheck.underWay] at hone
  simp only [checkStep, hu, if_true, LegitimizationCheck.callback, h.freed, Bool.false_eq_true,
    if_false]
  refine alive_of_starts (LegitimizationCheck.starts_currentRulesCb le_rfl ec ha) h.results
    rfl h.afterFree ⟨?_, ?_, ?_⟩ ?_ ?_ h.rerun ?_
  · simp only
    omega
  · simp only
    omega
  · simp only
    omega
  · simp only [h.asyncTask, decide_eq_false_iff_not]
    omega
  · simp only [h.kat, decide_eq_false_iff_not]
    omega
  · simp only
    omega

/-- The measure run is done: the check fails or starts again. -/
theorem Alive.measure {ec : ℕ} (h : Alive lch) (hk : 0 < lch.kats)
    (ha : ec = 0 → lch.RunCommitOk a) :
    Alive (checkStep cfg lch (.measure ec a)) := by
  have hone := h.one
  have hran := h.ran
  simp only [LegitimizationCheck.underWay] at hone
  have htask : lch.asyncTask = false := by
    simp only [h.asyncTask, decide_eq_false_iff_not]
    omega
  have hnone : lch.tasks = 0 ∧ lch.kats - 1 = 0 ∧ lch.rus = 0 := by omega
  simp only [checkStep, hk, if_true, LegitimizationCheck.callback, h.freed, Bool.false_eq_true,
    if_false, LegitimizationCheck.legiCheckAmlTriggerCb]
  have hfail : ∀ e, Alive (LegitimizationCheck.legiFail { lch with
      kat := false, kats := lch.kats - 1, ran := lch.ran + 1, freed := false } e) := by
    intro e
    have hs := @LegitimizationCheck.starts_legiFail 0 { lch with
      kat := false, kats := lch.kats - 1, ran := lch.ran + 1, freed := false } h.txn e
    refine alive_of_starts hs h.results rfl h.afterFree hnone htask rfl h.rerun ?_
    simp only
    omega
  split_ifs with hec hdeep
  · exact hfail _
  · exact hfail _
  · refine alive_of_starts
      (LegitimizationCheck.starts_legitimizationCheckRun (ha (not_not.mp hec)) h.txn) h.results rfl h.afterFree
      hnone htask rfl ?_ ?_
    · simp only
      omega
    · simp only
      omega

/-- A check is cancelled. -/
theorem Alive.cancel (h : Alive lch) (hu : lch.rus = 0) : Gone (checkStep cfg lch .cancel) := by
  have hone := h.one
  simp only [LegitimizationCheck.underWay] at hone
  have ht := h.asyncTask
  have hk := h.kat
  simp only [checkStep, h.freed, Bool.false_eq_true, if_false, LegitimizationCheck.cancel]
  refine ⟨rfl, h.afterFree, h.rerun, ⟨?_, ?_, hu⟩, by simp [h.results], by simp [h.results],
    fun e => (nomatch e)⟩
  · simp only [ht, decide_eq_true_eq]
    split_ifs <;> omega
  · simp only [hk, decide_eq_true_eq]
    split_ifs <;> omega

/-- After a check is gone nothing calls back. -/
theorem Gone.step (h : Gone lch) (e : CheckEvent) : checkStep cfg lch e = lch := by
  obtain ⟨ht, hk, hu⟩ := h.nothing
  cases e with
  | task => simp [checkStep, ht]
  | rules ec a => simp [checkStep, hu]
  | measure ec a => simp [checkStep, hk]
  | cancel => simp [checkStep, h.freed]

/-- **One event keeps the invariant.** -/
theorem checkStep_inv (cfg : KycConfig) (lch : LegitimizationCheck) (e : CheckEvent)
    (ho : CheckOk lch e) (h : Alive lch ∨ Gone lch) :
    Alive (checkStep cfg lch e) ∨ Gone (checkStep cfg lch e) := by
  rcases h with h | h
  · cases e with
    | task =>
      by_cases ht : 0 < lch.tasks
      · exact .inr (h.task ht)
      · simp only [checkStep, ht, if_false]
        exact .inl h
    | rules ec a =>
      by_cases hu : 0 < lch.rus
      · exact .inl (h.rules hu ho)
      · simp only [checkStep, hu, if_false]
        exact .inl h
    | measure ec a =>
      by_cases hk : 0 < lch.kats
      · exact .inl (h.measure hk ho)
      · simp only [checkStep, hk, if_false]
        exact .inl h
    | cancel => exact .inr (h.cancel (ho h.freed))
  · rw [h.step]
    exact .inr h

theorem CheckProtocol.of_inv (h : Alive lch ∨ Gone lch) : CheckProtocol lch := by
  rcases h with h | h
  · have hran := h.ran
    refine ⟨by simp [h.results], by simp [h.results], h.rerun, h.afterFree, fun _ =>
      ⟨h.results, h.one, by omega⟩, fun e => ?_⟩
    exact absurd (h.freed.symm.trans e) (by simp)
  · obtain ⟨ht, hk, hu⟩ := h.nothing
    refine ⟨h.once, h.txn, h.rerun, h.afterFree, fun e => ?_, fun _ => ⟨?_, h.delivered⟩⟩
    · exact absurd (h.freed.symm.trans e) (by simp)
    · simp [LegitimizationCheck.underWay, ht, hk, hu]

end Invariants

/-- **The protocol of legitimization checks**, for any results of the database, the rule updaters and
the AML programs that meet the conditions. -/
theorem run_checkProtocol (cfg : KycConfig) (merchantPub : Option MerchantPub) (a : CheckAnswers)
    (ha : LegitimizationCheck.RunCommitOk { merchantPub := merchantPub } a) (events : List CheckEvent)
    (he : Admits (checkStep cfg) CheckOk (legitimizationCheck cfg merchantPub a) events) :
    CheckProtocol (run (checkStep cfg) (legitimizationCheck cfg merchantPub a) events) :=
  CheckProtocol.of_inv
    (run_invariant (checkStep_inv cfg) he (.inl (alive_legitimizationCheck cfg merchantPub ha)))

/-! ## Runs that break the protocol -/

/-- The rules of the account are its own, so a rule updater is started. -/
def ownRules : CheckAnswers := { kycRules := some { jrules := some "frozen" } }

/-- An instant measure runs, the check starts again and passes. -/
def measureRuns : List CheckEvent :=
  [.rules .none { test := .instantMeasure }, .measure 0 {}, .task]

theorem measureRuns_checkProtocol : CheckProtocol
    (run (checkStep sampleKyc) (legitimizationCheck sampleKyc none ownRules) measureRuns) :=
  run_checkProtocol sampleKyc none ownRules (by decide) measureRuns (by decide +kernel)

/-- The instant measure cannot be started, and then the commit fails. -/
def failsTwice : List CheckEvent :=
  [.rules .none { test := .instantMeasure, measureRun := false, commit := .hardError }, .task, .task]

/-- The measure runs, but the commit has failed: the check starts again and has a result besides. -/
def runsOn : List CheckEvent :=
  [.rules .none { test := .instantMeasure, commit := .softError }, .measure 0 {}, .task, .task]

/-- The check is cancelled while the rule updater is at work. -/
def cancelledUpdate : List CheckEvent := [.cancel, .rules .none {}]

/-- **Legitimization checks do not keep the protocol in general.** -/
theorem not_checkProtocol :
    ¬ CheckProtocol
        (run (checkStep sampleKyc) (legitimizationCheck sampleKyc none ownRules) failsTwice) ∧
      ¬ CheckProtocol
        (run (checkStep sampleKyc) (legitimizationCheck sampleKyc none ownRules) runsOn) ∧
      ¬ CheckProtocol
        (run (checkStep sampleKyc) (legitimizationCheck sampleKyc none ownRules) cancelledUpdate) := by
  have hafter : ∀ events ∈ [failsTwice, runsOn, cancelledUpdate],
      (run (checkStep sampleKyc) (legitimizationCheck sampleKyc none ownRules) events).afterFree ≠
        0 := by
    decide +kernel
  exact ⟨fun hp => hafter _ (by simp) hp.afterFree, fun hp => hafter _ (by simp) hp.afterFree,
    fun hp => hafter _ (by simp) hp.afterFree⟩

end TalerExchange
