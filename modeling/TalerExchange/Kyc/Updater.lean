import TalerExchange.Kyc.Schema
import TalerExchange.Sql.Serial
import TalerExchange.Transition.Path

/-!
# The rule updater

`TALER_EXCHANGEDB_update_rules` finds the rules in force for an account and replaces rules that
have expired by running their successor measure. Its callbacks go on from one another over a
scheduled task, a database event and an AML program; each takes the transaction over as the one
before it left it.

* `RuleSet`, `Measure`, `KycConfig`: what the KYC logic knows;
* `fetchLatestRules`, `checkRules`, `runMeasure`, `amlResultCallback`: the callbacks, one event at a
  time; everything the database answers on the way is in `Answers`;
* `Protocol`: the result is delivered once, until then there is one way to go on, and what is
  delivered fits the transaction and the row;
* `UpdaterOk`: AML programs are configured, rules that were waited for exist, and no AML program
  returns rules that are in force;
* **`run_protocol`**: then the protocol is kept;
* **`run_bounded`**: the parts of the protocol that need no condition.
-/

namespace TalerExchange

open Sql Transition

/-! ## Rules and measures -/

/-- `struct TALER_KYCLOGIC_Measure`. -/
structure Measure where
  measureName : String
  progName : String
  checkName : Option String
deriving DecidableEq, Repr

/-- The check is skipped: it has no name, or the name `SKIP` in any case. -/
def Measure.skips (m : Measure) : Bool :=
  match m.checkName with
  | none => true
  | some c => c.toUpper = "SKIP"

/-- `struct TALER_KYCLOGIC_LegitimizationRuleSet`, as far as rule sets are updated. -/
structure RuleSet where
  expirationTime : Timestamp
  successorMeasure : Option String
  customMeasures : List Measure
deriving DecidableEq, Repr

/-- The configuration of the KYC logic, and for each row of `legitimization_outcomes` its rules,
a column that is never updated. -/
structure KycConfig where
  defaultMeasures : List Measure
  amlPrograms : List String
  rulesParse : JsonText → Option RuleSet
  jnewRules : ℕ → Option JsonText

namespace KycConfig

variable (cfg : KycConfig)

/-- `find_measure`: custom measures first, then the default ones. -/
def findMeasure (lrs : Option RuleSet) (name : String) : Option Measure :=
  ((lrs.map RuleSet.customMeasures).getD [] ++ cfg.defaultMeasures).find? fun m =>
    m.measureName.toUpper = name.toUpper

/-- `TALER_KYCLOGIC_rules_get_successor`. -/
def successor (lrs : RuleSet) : Option Measure :=
  lrs.successorMeasure.bind (cfg.findMeasure (some lrs))

/-- `find_program`: whether `TALER_KYCLOGIC_run_aml_program3` returns a handle. -/
def findProgram (name : String) : Bool :=
  cfg.amlPrograms.any fun p => p.toUpper = name.toUpper

/-- The rules of an outcome, parsed; `none` for the default rules. -/
def rulesOf (row : ℕ) : Option RuleSet := (cfg.jnewRules row).bind cfg.rulesParse

end KycConfig

/-! ## The state of a rule updater -/

/-- The error codes that a rule updater reports. -/
inductive ErrorCode
  | none
  | dbStartFailed
  | dbFetchFailed
  | dbStoreFailed
  | dbSoftFailure
  | dbCommitFailed
  | amlProgramRecursionDetected
  | bankAccountUnknown
deriving DecidableEq, Repr

/-- `MAX_DEPTH`. -/
def maxDepth : ℕ := 16

/-- A call of the callback: what it is given, and whether a transaction is open at that time. -/
structure RuleUpdaterResult where
  legitimizationOutcomeLastRow : ℕ
  lrs : Option RuleSet
  ec : ErrorCode
  txn : Bool
deriving DecidableEq, Repr

/-- `struct TALER_EXCHANGEDB_RuleUpdater` with the handles as flags. `txn` is the transaction of the
connection, `results` the calls of the callback, `checks` counts the rule checks and measures that
were run, `ran` the continuations. -/
structure RuleUpdater where
  lrs : Option RuleSet := none
  t : Bool := false
  eh : Bool := false
  amlh : Bool := false
  legitimizationOutcomeLastRow : ℕ := 0
  ec : ErrorCode := .none
  depth : ℕ := 0
  txn : Bool := false
  results : List RuleUpdaterResult := []
  checks : ℕ := 0
  ran : ℕ := 0
deriving DecidableEq, Repr

/-- `TALER_EXCHANGEDB_update_rules`. -/
def updateRules : RuleUpdater := { t := true }

/-- What `insert_successor_measure` returns. -/
inductive SuccessorStatus
  | hardError
  | softError
  | unknownAccount
  | done
deriving DecidableEq, Repr

/-- What the database and the clock answer while one callback runs. `lookup` is `none` for an error
and inside it `none` for no results; `xlock` is what `set_aml_lock` leaves behind, which is any
value if it fails. -/
structure Answers where
  now : Timestamp := 0
  start : Bool := true
  lookup : Option (Option ℕ) := some none
  persist : QueryStatus := .oneResult
  xlock : Timestamp := 0
  commit : QueryStatus := .noResults
  successor : SuccessorStatus := .done
deriving DecidableEq, Repr

/-- `struct TALER_KYCLOGIC_AmlProgramResult`, as far as the rule updater reads it. -/
inductive AmlOutcome
  | success (newRules : JsonText)
  | failure (fallbackMeasure : String)
deriving DecidableEq, Repr

/-! ## The callbacks -/

namespace RuleUpdater

/-- `return_result`, with the cancellation at its end. -/
def returnResult (ru : RuleUpdater) : RuleUpdater :=
  { ru with
    results := ru.results ++ [⟨ru.legitimizationOutcomeLastRow, ru.lrs, ru.ec, ru.txn⟩]
    lrs := none
    t := false
    eh := false
    amlh := false }

/-- `fail_update`. -/
def failUpdate (ru : RuleUpdater) (ec : ErrorCode) : RuleUpdater :=
  returnResult { ru with txn := false, ec := ec }

variable (cfg : KycConfig) (a : Answers)

/-- The branch of `run_measure` for a check that is skipped. -/
def runSkipped (ru : RuleUpdater) (m : Measure) : RuleUpdater :=
  if a.now < a.xlock then { ru with txn := false, eh := true }
  else
    match a.commit with
    | .softError => failUpdate ru .dbSoftFailure
    | .hardError => failUpdate ru .dbCommitFailed
    | _ => { ru with txn := false, amlh := cfg.findProgram m.progName }

/-- The branch of `run_measure` for a check that the user must pass. -/
def runInteractive (ru : RuleUpdater) : RuleUpdater :=
  match a.successor with
  | .softError => failUpdate ru .dbSoftFailure
  | .hardError => failUpdate ru .dbStoreFailed
  | .unknownAccount => failUpdate ru .bankAccountUnknown
  | .done => returnResult ru

/-- `run_measure`. -/
def runMeasure (ru : RuleUpdater) : Option Measure → RuleUpdater
  | none => returnResult { ru with lrs := none }
  | some m =>
    if maxDepth < ru.depth + 1 then
      failUpdate { ru with depth := ru.depth + 1 } .amlProgramRecursionDetected
    else
      let ru := { ru with depth := ru.depth + 1, checks := ru.checks + 1 }
      if m.skips then runSkipped cfg a ru m else runInteractive a ru

/-- `check_rules`, with `update_rules` for rules that have expired. -/
def checkRules (ru : RuleUpdater) : RuleUpdater :=
  if maxDepth < ru.depth + 1 then
    failUpdate { ru with depth := ru.depth + 1 } .amlProgramRecursionDetected
  else
    let ru := { ru with depth := ru.depth + 1, checks := ru.checks + 1 }
    match ru.lrs with
    | none => returnResult ru
    | some lrs =>
      if lrs.expirationTime < a.now then runMeasure cfg a ru (cfg.successor lrs) else returnResult ru

/-- What `fetch_latest_rules` takes over from the row that was looked up. Where the row has no rules
of its own, `lrs` stays as it is. -/
def fetched (ru : RuleUpdater) : Option ℕ → RuleUpdater
  | none => ru
  | some row =>
    match cfg.jnewRules row with
    | none => { ru with legitimizationOutcomeLastRow := row }
    | some j => { ru with legitimizationOutcomeLastRow := row, lrs := cfg.rulesParse j }

/-- `fetch_latest_rules`. -/
def fetchLatestRules (ru : RuleUpdater) : RuleUpdater :=
  let ru := { ru with t := false, eh := false }
  if a.start then
    match a.lookup with
    | none => failUpdate { ru with txn := true } .dbFetchFailed
    | some row => checkRules cfg a (fetched cfg { ru with txn := true } row)
  else failUpdate ru .dbStartFailed

/-- `aml_result_callback` once the result of the program is stored. -/
def resume (ru : RuleUpdater) : AmlOutcome → RuleUpdater
  | .success newRules => checkRules cfg a { ru with lrs := cfg.rulesParse newRules }
  | .failure fallback =>
    match cfg.findMeasure ru.lrs fallback with
    | none => returnResult { ru with lrs := none }
    | some m => runMeasure cfg a ru (some m)

/-- `aml_result_callback`. -/
def amlResultCallback (ru : RuleUpdater) (apr : AmlOutcome) : RuleUpdater :=
  let ru := { ru with amlh := false }
  if a.start then
    let ru := { ru with txn := true }
    match a.persist with
    | .hardError => failUpdate ru .dbStoreFailed
    | .softError => failUpdate ru .dbSoftFailure
    | _ => resume cfg a ru apr
  else failUpdate ru .dbStartFailed

end RuleUpdater

/-- The events: the scheduler runs the task, the database event or its timeout comes, the AML
program ends. -/
inductive UpdaterEvent
  | task (a : Answers)
  | notify
  | program (apr : AmlOutcome) (a : Answers)
deriving DecidableEq, Repr

/-- **One event.** What is not registered does not happen; a database event is ignored while the
task is scheduled. -/
def updaterStep (cfg : KycConfig) (ru : RuleUpdater) : UpdaterEvent → RuleUpdater
  | .task a =>
    if ru.t then RuleUpdater.fetchLatestRules cfg a { ru with ran := ru.ran + 1 } else ru
  | .notify => if ru.eh ∧ ru.t = false then { ru with t := true, ran := ru.ran + 1 } else ru
  | .program apr a =>
    if ru.amlh then RuleUpdater.amlResultCallback cfg a { ru with ran := ru.ran + 1 } apr else ru

/-! ## The protocol -/

/-- The ways to go on. A listener is one until its event has scheduled the task. -/
def RuleUpdater.continuations (ru : RuleUpdater) : ℕ :=
  ru.t.toNat + (ru.eh && !ru.t).toNat + ru.amlh.toNat

/-- With a result comes an open transaction, and the rules are the default rules or those of the row;
with an error the transaction is over. -/
def RuleUpdaterResult.Sound (cfg : KycConfig) (r : RuleUpdaterResult) : Prop :=
  (r.ec = .none → r.txn = true ∧
    (r.lrs = none ∨ r.lrs = cfg.rulesOf r.legitimizationOutcomeLastRow)) ∧
  (r.ec ≠ .none → r.txn = false)

instance (cfg : KycConfig) (r : RuleUpdaterResult) : Decidable (r.Sound cfg) :=
  inferInstanceAs (Decidable (_ ∧ _))

/-- **The protocol**: the callback is called at most once and within `49` continuations; until then
there is exactly one continuation; results are sound; and no more than `MAX_DEPTH` rule checks and
measures are run. -/
structure Protocol (cfg : KycConfig) (ru : RuleUpdater) : Prop where
  once : ru.results.length ≤ 1
  pending : ru.results = [] → ru.continuations = 1
  returns : ru.results = [] → ru.ran ≤ 48
  sound : ∀ r ∈ ru.results, r.Sound cfg
  bounded : ru.checks ≤ maxDepth

/-- The AML program of a measure is configured, if it is run at all. -/
def KycConfig.Startable (cfg : KycConfig) (m : Measure) : Prop :=
  m.skips = true → cfg.findProgram m.progName = true

/-- The successor measure of expired rules can be started. -/
def KycConfig.Succeeds (cfg : KycConfig) (now : Timestamp) (lrs : Option RuleSet) : Prop :=
  ∀ l ∈ lrs, l.expirationTime < now → ∀ m ∈ cfg.successor l, cfg.Startable m

/-- AML programs that are to be run are configured; a row that is looked up when rules were fetched
before has rules of its own; rules from an AML program have expired and have no successor. -/
def UpdaterOk (cfg : KycConfig) (ru : RuleUpdater) : UpdaterEvent → Prop
  | .task a => (∀ row ∈ a.lookup, cfg.Succeeds a.now (RuleUpdater.fetched cfg ru row).lrs) ∧
      ∀ row ∈ a.lookup, ∀ i ∈ row, ru.lrs = none ∨ (cfg.jnewRules i).isSome = true
  | .notify => True
  | .program (.success newRules) a => ∀ l ∈ cfg.rulesParse newRules,
      l.expirationTime < a.now ∧ cfg.successor l = none
  | .program (.failure fallback) _ => ∀ m ∈ cfg.findMeasure ru.lrs fallback, cfg.Startable m

/-! ## What a callback ends with -/

namespace RuleUpdater

/-- How a callback can end that has entered with `ru`: with a result for the rules at hand or the
default rules, with an error, with a listener, or with a program for a measure that `M` admits. -/
inductive Exit (cfg : KycConfig) (M : Measure → Prop) (ru : RuleUpdater) : RuleUpdater → Prop
  | result (d k : ℕ) (lrs : Option RuleSet) (hk : k ≤ maxDepth) (hl : lrs = none ∨ lrs = ru.lrs) :
      Exit cfg M ru (returnResult { ru with depth := d, checks := k, lrs := lrs })
  | error (d k : ℕ) (lrs : Option RuleSet) (ec : ErrorCode) (hk : k ≤ maxDepth) (hec : ec ≠ .none) :
      Exit cfg M ru (failUpdate { ru with depth := d, checks := k, lrs := lrs } ec)
  | listener (d k : ℕ) (hd : ru.depth < d ∧ d ≤ maxDepth) (hk : k ≤ d) :
      Exit cfg M ru { ru with depth := d, checks := k, txn := false, eh := true }
  | program (d k : ℕ) (m : Measure) (hd : ru.depth < d ∧ d ≤ maxDepth) (hk : k ≤ d) (hM : M m)
      (hs : m.skips = true) :
      Exit cfg M ru { ru with
        depth := d, checks := k, txn := false, amlh := cfg.findProgram m.progName }

section Exits

variable {cfg : KycConfig} {M : Measure → Prop} {a : Answers} {ru : RuleUpdater}

/-- A callback that has counted something goes on from a larger depth. -/
theorem Exit.of_counted {d k : ℕ} {ru' : RuleUpdater} (hd : ru.depth ≤ d)
    (h : Exit cfg M { ru with depth := d, checks := k } ru') : Exit cfg M ru ru' := by
  cases h with
  | result d' k' lrs hk hl => exact .result d' k' lrs hk hl
  | error d' k' lrs ec hk hec => exact .error d' k' lrs ec hk hec
  | listener d' k' hd' hk => exact .listener d' k' ⟨hd.trans_lt hd'.1, hd'.2⟩ hk
  | program d' k' m hd' hk hM hs => exact .program d' k' m ⟨hd.trans_lt hd'.1, hd'.2⟩ hk hM hs

theorem runSkipped_exit {d k : ℕ} {m : Measure} (hd : ru.depth < d ∧ d ≤ maxDepth) (hk : k ≤ d)
    (hM : M m) (hs : m.skips = true) :
    Exit cfg M ru (runSkipped cfg a { ru with depth := d, checks := k } m) := by
  unfold runSkipped
  split_ifs
  · exact .listener d k hd hk
  · cases a.commit with
    | softError => exact .error d k ru.lrs .dbSoftFailure (hk.trans hd.2) (by simp)
    | hardError => exact .error d k ru.lrs .dbCommitFailed (hk.trans hd.2) (by simp)
    | noResults => exact .program d k m hd hk hM hs
    | oneResult => exact .program d k m hd hk hM hs

theorem runInteractive_exit {d k : ℕ} (hk : k ≤ maxDepth) :
    Exit cfg M ru (runInteractive a { ru with depth := d, checks := k }) := by
  unfold runInteractive
  cases a.successor with
  | softError => exact .error d k ru.lrs .dbSoftFailure hk (by simp)
  | hardError => exact .error d k ru.lrs .dbStoreFailed hk (by simp)
  | unknownAccount => exact .error d k ru.lrs .bankAccountUnknown hk (by simp)
  | done => exact .result d k ru.lrs hk (.inr rfl)

theorem runMeasure_exit (m : Option Measure) (hM : ∀ x ∈ m, M x) (hk : ru.checks ≤ ru.depth)
    (hd : ru.depth ≤ maxDepth) : Exit cfg M ru (runMeasure cfg a ru m) := by
  cases m with
  | none => exact .result ru.depth ru.checks none (hk.trans hd) (.inl rfl)
  | some m =>
    unfold runMeasure
    split_ifs with hdeep
    · exact .error (ru.depth + 1) ru.checks ru.lrs _ (hk.trans hd) (by simp)
    · have hd' : ru.depth < ru.depth + 1 ∧ ru.depth + 1 ≤ maxDepth := by omega
      simp only
      split_ifs with hs
      · exact runSkipped_exit hd' (Nat.succ_le_succ hk) (hM m rfl) hs
      · exact runInteractive_exit (by omega)

theorem checkRules_exit
    (hM : ∀ l ∈ ru.lrs, l.expirationTime < a.now → ∀ m ∈ cfg.successor l, M m)
    (hk : ru.checks ≤ ru.depth) (hd : ru.depth ≤ maxDepth) :
    Exit cfg M ru (checkRules cfg a ru) := by
  unfold checkRules
  split_ifs with hdeep
  · exact .error (ru.depth + 1) ru.checks ru.lrs _ (hk.trans hd) (by simp)
  · simp only
    split
    · next hl =>
      exact .result (ru.depth + 1) (ru.checks + 1) ru.lrs (by omega) (.inr rfl)
    · next l hl =>
      split_ifs with hexp
      · refine Exit.of_counted (d := ru.depth + 1) (k := ru.checks + 1) (Nat.le_succ _) ?_
        exact runMeasure_exit _ (hM l hl hexp) (Nat.succ_le_succ hk) (by simp only; omega)
      · exact .result (ru.depth + 1) (ru.checks + 1) ru.lrs (by omega) (.inr rfl)

/-- Rules that have expired and have no successor give way to the default rules. -/
theorem checkRules_default (hl : ∀ l ∈ ru.lrs, l.expirationTime < a.now ∧ cfg.successor l = none)
    (hk : ru.checks ≤ ru.depth) (hd : ru.depth ≤ maxDepth) :
    Exit cfg M { ru with lrs := none } (checkRules cfg a ru) := by
  unfold checkRules
  split_ifs with hdeep
  · exact .error (ru.depth + 1) ru.checks ru.lrs _ (hk.trans hd) (by simp)
  · have hk' : ru.checks + 1 ≤ maxDepth := by omega
    have hnone : Exit cfg M { ru with lrs := none }
        (returnResult { ru with depth := ru.depth + 1, checks := ru.checks + 1, lrs := none }) :=
      .result (ru.depth + 1) (ru.checks + 1) none hk' (.inl rfl)
    simp only
    split
    · next e => exact e ▸ hnone
    · next l e =>
      obtain ⟨hexp, hsucc⟩ := hl l e
      rw [if_pos hexp, hsucc]
      exact hnone

end Exits

end RuleUpdater

/-! ## The invariants -/

/-- Between two events, before the result is delivered. -/
structure Pending (ru : RuleUpdater) : Prop where
  results : ru.results = []
  ec : ru.ec = .none
  txn : ru.txn = false
  depth : ru.depth ≤ maxDepth
  checks : ru.checks ≤ ru.depth
  task : ru.t = true → ru.amlh = false
  listener : ru.eh = true → ru.amlh = false
  -- each continuation but that of a listener goes at least one deeper
  ran : ru.ran + 3 * (17 - ru.depth) + (!ru.t).toNat ≤ 51

/-- Inside a callback, with a transaction open. -/
structure Entered (ru : RuleUpdater) : Prop where
  results : ru.results = []
  ec : ru.ec = .none
  txn : ru.txn = true
  depth : ru.depth ≤ maxDepth
  checks : ru.checks ≤ ru.depth
  handles : ru.t = false ∧ ru.eh = false ∧ ru.amlh = false
  ran : ru.ran + 3 * (17 - ru.depth) ≤ 52

/-- The result has been delivered. -/
structure Ended (ru : RuleUpdater) : Prop where
  handles : ru.t = false ∧ ru.eh = false ∧ ru.amlh = false
  checks : ru.checks ≤ maxDepth
  result : ∃ r, ru.results = [r] ∧ (r.ec = .none → r.txn = true) ∧ (r.ec ≠ .none → r.txn = false)

/-- The rules at hand are those of the row at hand, and as long as there is no result there is a way
to go on. -/
structure Fits (cfg : KycConfig) (ru : RuleUpdater) : Prop where
  lrs : ru.lrs = none ∨ ru.lrs = cfg.rulesOf ru.legitimizationOutcomeLastRow
  goesOn : ru.results = [] → ru.t = true ∨ ru.eh = true ∨ ru.amlh = true
  sound : ∀ r ∈ ru.results, r.ec = .none →
    r.lrs = none ∨ r.lrs = cfg.rulesOf r.legitimizationOutcomeLastRow

section Invariants

variable {cfg : KycConfig} {M : Measure → Prop} {a : Answers} {ru ru' : RuleUpdater}

theorem ended_returnResult (hr : ru.results = []) (hc : ru.checks ≤ maxDepth)
    (ht : ru.ec = .none → ru.txn = true) (hf : ru.ec ≠ .none → ru.txn = false) :
    Ended ru.returnResult :=
  ⟨⟨rfl, rfl, rfl⟩, hc, ⟨_, by simp [RuleUpdater.returnResult, hr]; rfl, ht, hf⟩⟩

theorem ended_failUpdate {ec : ErrorCode} (hr : ru.results = []) (hc : ru.checks ≤ maxDepth)
    (hec : ec ≠ .none) : Ended (ru.failUpdate ec) :=
  ended_returnResult hr hc (fun e => absurd e hec) fun _ => rfl

theorem Entered.exit (he : Entered ru) (h : RuleUpdater.Exit cfg M ru ru') :
    Pending ru' ∨ Ended ru' := by
  have hran := he.ran
  obtain ⟨ht, heh, hamlh⟩ := he.handles
  cases h with
  | result d k lrs hk hl =>
    exact .inr (ended_returnResult he.results hk (fun _ => he.txn) fun e => absurd he.ec e)
  | error d k lrs ec hk hec => exact .inr (ended_failUpdate he.results hk hec)
  | listener d k hd hk =>
    refine .inl ⟨he.results, he.ec, rfl, hd.2, hk, fun _ => hamlh, fun _ => hamlh, ?_⟩
    have := Bool.toNat_le (!ru.t)
    simp only [maxDepth] at hd ⊢
    omega
  | program d k m hd hk hM hs =>
    refine .inl ⟨he.results, he.ec, rfl, hd.2, hk, fun e => ?_, fun e => ?_, ?_⟩
    · exact absurd (ht.symm.trans e) (by simp)
    · exact absurd (heh.symm.trans e) (by simp)
    · have := Bool.toNat_le (!ru.t)
      simp only [maxDepth] at hd ⊢
      omega

theorem fits_returnResult (hr : ru.results = []) (hl : ru.ec = .none →
    ru.lrs = none ∨ ru.lrs = cfg.rulesOf ru.legitimizationOutcomeLastRow) :
    Fits cfg ru.returnResult := by
  refine ⟨.inl rfl, fun e => ?_, fun r hm hec => ?_⟩
  · simp [RuleUpdater.returnResult] at e
  · simp only [RuleUpdater.returnResult, hr, List.nil_append, List.mem_singleton] at hm
    subst hm
    exact hl hec

theorem fits_failUpdate {ec : ErrorCode} (hr : ru.results = []) (hec : ec ≠ .none) :
    Fits cfg (ru.failUpdate ec) :=
  fits_returnResult hr fun e => absurd e hec

/-- A callback keeps rules and row together, and goes on if its programs are configured. -/
theorem Fits.exit (hr : ru.results = [])
    (hl : ru.lrs = none ∨ ru.lrs = cfg.rulesOf ru.legitimizationOutcomeLastRow)
    (hM : ∀ m, M m → cfg.Startable m) (h : RuleUpdater.Exit cfg M ru ru') : Fits cfg ru' := by
  cases h with
  | result d k lrs hk hlrs =>
    refine fits_returnResult hr fun _ => ?_
    rcases hlrs with e | e
    · exact .inl e
    · exact e ▸ hl
  | error d k lrs ec hk hec => exact fits_failUpdate hr hec
  | listener d k hd hk => exact ⟨hl, fun _ => .inr (.inl rfl), by simp [hr]⟩
  | program d k m hd hk hm hs => exact ⟨hl, fun _ => .inr (.inr (hM m hm hs)), by simp [hr]⟩

/-! ## Events -/

/-- The task has failed, or rules are checked that were looked up. -/
theorem fetchLatestRules_cases (cfg : KycConfig) (a : Answers) (ru : RuleUpdater) :
    (∃ (ru₀ : RuleUpdater) (ec : ErrorCode),
      RuleUpdater.fetchLatestRules cfg a ru = ru₀.failUpdate ec ∧ ec ≠ .none ∧
      ru₀.results = ru.results ∧ ru₀.checks = ru.checks) ∨
    ∃ row ∈ a.lookup, RuleUpdater.fetchLatestRules cfg a ru = RuleUpdater.checkRules cfg a
      (RuleUpdater.fetched cfg { ru with t := false, eh := false, txn := true } row) := by
  unfold RuleUpdater.fetchLatestRules
  simp only
  split_ifs
  · split
    · exact .inl ⟨_, _, rfl, by simp, rfl, rfl⟩
    · next row hrow => exact .inr ⟨row, hrow, rfl⟩
  · exact .inl ⟨_, _, rfl, by simp, rfl, rfl⟩

theorem Entered.fetched (cfg : KycConfig) (he : Entered ru) (row : Option ℕ) :
    Entered (RuleUpdater.fetched cfg ru row) := by
  unfold RuleUpdater.fetched
  split
  · exact he
  · split
    · exact ⟨he.results, he.ec, he.txn, he.depth, he.checks, he.handles, he.ran⟩
    · exact ⟨he.results, he.ec, he.txn, he.depth, he.checks, he.handles, he.ran⟩

/-- A row without rules of its own leaves the rules of an earlier row in place. -/
theorem fetched_fits {row : Option ℕ}
    (hl : ru.lrs = none ∨ ru.lrs = cfg.rulesOf ru.legitimizationOutcomeLastRow)
    (hrow : ∀ i ∈ row, ru.lrs = none ∨ (cfg.jnewRules i).isSome = true) :
    (RuleUpdater.fetched cfg ru row).lrs = none ∨ (RuleUpdater.fetched cfg ru row).lrs =
      cfg.rulesOf (RuleUpdater.fetched cfg ru row).legitimizationOutcomeLastRow := by
  unfold RuleUpdater.fetched
  split
  · exact hl
  · next i =>
    split
    · next hj =>
      rcases hrow i rfl with e | e
      · exact .inl e
      · simp [hj] at e
    · next j hj => exact .inr (by simp [KycConfig.rulesOf, hj])

theorem resume_failure (ru : RuleUpdater) (fallback : String) :
    RuleUpdater.resume cfg a ru (.failure fallback) =
      RuleUpdater.runMeasure cfg a ru (cfg.findMeasure ru.lrs fallback) := by
  simp only [RuleUpdater.resume]
  split
  · next e =>
    rw [e]
    rfl
  · next m e => rw [e]

/-- The result of the AML program could not be stored, or the updater goes on with it. -/
theorem amlResultCallback_cases (cfg : KycConfig) (a : Answers) (ru : RuleUpdater)
    (apr : AmlOutcome) :
    (∃ (ru₀ : RuleUpdater) (ec : ErrorCode),
      RuleUpdater.amlResultCallback cfg a ru apr = ru₀.failUpdate ec ∧ ec ≠ .none ∧
      ru₀.results = ru.results ∧ ru₀.checks = ru.checks) ∨
    RuleUpdater.amlResultCallback cfg a ru apr =
      RuleUpdater.resume cfg a { ru with amlh := false, txn := true } apr := by
  unfold RuleUpdater.amlResultCallback
  simp only
  split_ifs
  · cases a.persist with
    | hardError => exact .inl ⟨_, _, rfl, by simp, rfl, rfl⟩
    | softError => exact .inl ⟨_, _, rfl, by simp, rfl, rfl⟩
    | noResults => exact .inr rfl
    | oneResult => exact .inr rfl
  · exact .inl ⟨_, _, rfl, by simp, rfl, rfl⟩

theorem resume_exit (cfg : KycConfig) (a : Answers) (apr : AmlOutcome) (ru : RuleUpdater)
    (hk : ru.checks ≤ ru.depth) (hd : ru.depth ≤ maxDepth) :
    ∃ lrs, RuleUpdater.Exit cfg (fun _ => True) { ru with lrs := lrs }
      (RuleUpdater.resume cfg a ru apr) := by
  cases apr with
  | success newRules =>
    exact ⟨cfg.rulesParse newRules, RuleUpdater.checkRules_exit (fun _ _ _ _ _ => trivial) hk hd⟩
  | failure fallback =>
    rw [resume_failure]
    exact ⟨ru.lrs, RuleUpdater.runMeasure_exit _ (fun _ _ => trivial) hk hd⟩

/-- The task enters from between two events. -/
theorem Pending.entered_task (hp : Pending ru) (ht : ru.t = true) :
    Entered { ru with t := false, eh := false, txn := true, ran := ru.ran + 1 } := by
  have hran := hp.ran
  rw [ht] at hran
  exact ⟨hp.results, hp.ec, rfl, hp.depth, hp.checks, ⟨rfl, rfl, hp.task ht⟩,
    by simp only [Bool.not_true, Bool.toNat_false] at hran ⊢; omega⟩

/-- The result of an AML program enters from between two events. -/
theorem Pending.entered_program (hp : Pending ru) (hamlh : ru.amlh = true) (lrs : Option RuleSet) :
    Entered { ru with amlh := false, txn := true, ran := ru.ran + 1, lrs := lrs } := by
  have ht : ru.t = false := by
    by_contra ht
    exact absurd ((hp.task (Bool.eq_true_of_not_eq_false ht)).symm.trans hamlh) (by simp)
  have heh : ru.eh = false := by
    by_contra heh
    exact absurd ((hp.listener (Bool.eq_true_of_not_eq_false heh)).symm.trans hamlh) (by simp)
  have hran := hp.ran
  rw [ht] at hran
  exact ⟨hp.results, hp.ec, rfl, hp.depth, hp.checks, ⟨ht, heh, rfl⟩,
    by simp only [Bool.not_false, Bool.toNat_true] at hran ⊢; omega⟩

/-- **One event, without conditions.** -/
theorem updaterStep_pending (cfg : KycConfig) (ru : RuleUpdater) (e : UpdaterEvent)
    (hp : Pending ru) : Pending (updaterStep cfg ru e) ∨ Ended (updaterStep cfg ru e) := by
  cases e with
  | task a =>
    simp only [updaterStep]
    split_ifs with ht
    · have hck : ru.checks ≤ maxDepth := hp.checks.trans hp.depth
      rcases fetchLatestRules_cases cfg a { ru with ran := ru.ran + 1 } with
        ⟨ru₀, ec, h, hec, hr, hc⟩ | ⟨row, -, h⟩
      · rw [h]
        exact .inr (ended_failUpdate (hr.trans hp.results) (hc ▸ hck) hec)
      · rw [h]
        have he := (hp.entered_task ht).fetched cfg row
        exact he.exit (M := fun _ => True)
          (RuleUpdater.checkRules_exit (fun _ _ _ _ _ => trivial) he.checks he.depth)
    · exact .inl hp
  | notify =>
    simp only [updaterStep]
    split_ifs with heh
    · have hran := hp.ran
      rw [heh.2] at hran
      exact .inl ⟨hp.results, hp.ec, hp.txn, hp.depth, hp.checks, fun _ => hp.listener heh.1,
        hp.listener, by simp only [Bool.not_true, Bool.not_false, Bool.toNat_true,
          Bool.toNat_false] at hran ⊢; omega⟩
    · exact .inl hp
  | program apr a =>
    simp only [updaterStep]
    split_ifs with hamlh
    · have hck : ru.checks ≤ maxDepth := hp.checks.trans hp.depth
      rcases amlResultCallback_cases cfg a { ru with ran := ru.ran + 1 } apr with
        ⟨ru₀, ec, h, hec, hr, hc⟩ | h
      · rw [h]
        exact .inr (ended_failUpdate (hr.trans hp.results) (hc ▸ hck) hec)
      · rw [h]
        obtain ⟨lrs, hexit⟩ := resume_exit cfg a apr
          { ru with amlh := false, txn := true, ran := ru.ran + 1 } hp.checks hp.depth
        exact (hp.entered_program hamlh lrs).exit hexit
    · exact .inl hp

theorem updaterStep_ended (cfg : KycConfig) (ru : RuleUpdater) (e : UpdaterEvent)
    (he : Ended ru) : updaterStep cfg ru e = ru := by
  obtain ⟨ht, heh, hamlh⟩ := he.handles
  cases e with
  | task a => simp [updaterStep, ht]
  | notify => simp [updaterStep, heh]
  | program apr a => simp [updaterStep, hamlh]

theorem fetched_lrs (cfg : KycConfig) (ru ru' : RuleUpdater) (h : ru'.lrs = ru.lrs)
    (row : Option ℕ) :
    (RuleUpdater.fetched cfg ru' row).lrs = (RuleUpdater.fetched cfg ru row).lrs := by
  unfold RuleUpdater.fetched
  split
  · exact h
  · split
    · exact h
    · rfl

/-- **One event keeps rules and row together**, under the conditions. -/
theorem updaterStep_fits (cfg : KycConfig) (ru : RuleUpdater) (e : UpdaterEvent)
    (ho : UpdaterOk cfg ru e) (hp : Pending ru) (hf : Fits cfg ru) :
    Fits cfg (updaterStep cfg ru e) := by
  cases e with
  | task a =>
    simp only [updaterStep]
    split_ifs with ht
    · rcases fetchLatestRules_cases cfg a { ru with ran := ru.ran + 1 } with
        ⟨ru₀, ec, h, hec, hr, hc⟩ | ⟨row, hrow, h⟩
      · rw [h]
        exact fits_failUpdate (hr.trans hp.results) hec
      · rw [h]
        obtain ⟨hsucc, hown⟩ := ho
        have he := (hp.entered_task ht).fetched cfg row
        refine Fits.exit (M := cfg.Startable) he.results
          (fetched_fits hf.lrs fun i hi => hown row hrow i hi) (fun _ hm => hm)
          (RuleUpdater.checkRules_exit (fun l hl => ?_) he.checks he.depth)
        have e := fetched_lrs cfg ru
          { ru with t := false, eh := false, txn := true, ran := ru.ran + 1 } rfl row
        exact hsucc row hrow l (e ▸ hl)
    · exact hf
  | notify =>
    simp only [updaterStep]
    split_ifs with heh
    · exact ⟨hf.lrs, fun _ => .inl rfl, hf.sound⟩
    · exact hf
  | program apr a =>
    simp only [updaterStep]
    split_ifs with hamlh
    · rcases amlResultCallback_cases cfg a { ru with ran := ru.ran + 1 } apr with
        ⟨ru₀, ec, h, hec, hr, hc⟩ | h
      · rw [h]
        exact fits_failUpdate (hr.trans hp.results) hec
      · rw [h]
        cases apr with
        | success newRules =>
          have hexit := @RuleUpdater.checkRules_default cfg cfg.Startable a
            { ru with amlh := false, txn := true, ran := ru.ran + 1, lrs := cfg.rulesParse newRules }
            ho hp.checks hp.depth
          refine Fits.exit ?_ (.inl ?_) (fun _ hm => hm) hexit
          · exact hp.results
          · rfl
        | failure fallback =>
          rw [resume_failure]
          have hexit := @RuleUpdater.runMeasure_exit cfg cfg.Startable a
            { ru with amlh := false, txn := true, ran := ru.ran + 1 }
            (cfg.findMeasure ru.lrs fallback) ho hp.checks hp.depth
          refine Fits.exit ?_ ?_ (fun _ hm => hm) hexit
          · exact hp.results
          · exact hf.lrs
    · exact hf

end Invariants

/-! ## Runs -/

section Runs

variable {cfg : KycConfig} {ru : RuleUpdater}

theorem Pending.continuations_le (hp : Pending ru) : ru.continuations ≤ 1 := by
  have ht := hp.task
  have heh := hp.listener
  unfold RuleUpdater.continuations
  cases h : ru.t <;> cases h' : ru.eh <;> cases h'' : ru.amlh <;> simp_all

theorem pending_updateRules : Pending updateRules :=
  ⟨rfl, rfl, rfl, by decide, by decide, fun _ => rfl, fun _ => rfl, by decide⟩

theorem fits_updateRules : Fits cfg updateRules :=
  ⟨.inl rfl, fun _ => .inl rfl, fun _ h => (nomatch h)⟩

theorem updaterStep_inv (cfg : KycConfig) (ru : RuleUpdater) (e : UpdaterEvent)
    (h : Pending ru ∨ Ended ru) : Pending (updaterStep cfg ru e) ∨ Ended (updaterStep cfg ru e) := by
  rcases h with hp | he
  · exact updaterStep_pending cfg ru e hp
  · rw [updaterStep_ended cfg ru e he]
    exact .inr he

/-- **What needs no condition**: in every state that is reached the callback has been called at most
once, with an open transaction if and only if there is no error, there is at most one continuation,
and no more than `MAX_DEPTH` rule checks and measures were run. -/
theorem run_bounded (cfg : KycConfig) (events : List UpdaterEvent) :
    let ru := run (updaterStep cfg) updateRules events
    ru.results.length ≤ 1 ∧ (∀ r ∈ ru.results, r.ec = .none ↔ r.txn = true) ∧
      ru.continuations ≤ 1 ∧ ru.checks ≤ maxDepth := by
  have hinv := run_invariant (fun ru e (_ : True) h => updaterStep_inv cfg ru e h)
    (admits_true events) (.inl pending_updateRules)
  rcases hinv with hp | he
  · refine ⟨by simp [hp.results], by simp [hp.results], hp.continuations_le, ?_⟩
    exact hp.checks.trans hp.depth
  · obtain ⟨r, hr, hok, hfail⟩ := he.result
    obtain ⟨ht, heh, hamlh⟩ := he.handles
    refine ⟨by simp [hr], fun r' hr' => ?_, by simp [RuleUpdater.continuations, ht, heh, hamlh],
      he.checks⟩
    rw [hr, List.mem_singleton] at hr'
    subst hr'
    refine ⟨hok, fun htxn => ?_⟩
    by_contra hec
    exact absurd ((hfail hec).symm.trans htxn) (by simp)

/-- Under the conditions the invariants are the protocol. -/
theorem Protocol.of_inv (h : Pending ru ∨ Ended ru) (hf : Fits cfg ru) : Protocol cfg ru := by
  rcases h with hp | he
  · have hran := hp.ran
    have hdepth := hp.depth
    refine ⟨by simp [hp.results], fun hr => ?_, fun _ => ?_, by simp [hp.results],
      hp.checks.trans hp.depth⟩
    · have hle := hp.continuations_le
      rcases hf.goesOn hr with e | e | e
      · simp [RuleUpdater.continuations, e] at hle ⊢
        omega
      · cases ht : ru.t <;> simp [RuleUpdater.continuations, e, ht] at hle ⊢ <;> omega
      · simp [RuleUpdater.continuations, e] at hle ⊢
        omega
    · simp only [maxDepth] at hdepth
      omega
  · obtain ⟨r, hr, hok, hfail⟩ := he.result
    refine ⟨by simp [hr], by simp [hr], by simp [hr], fun r' hr' => ?_, he.checks⟩
    have hfit := hf.sound r' hr'
    rw [hr, List.mem_singleton] at hr'
    subst hr'
    exact ⟨fun hec => ⟨hok hec, hfit hec⟩, hfail⟩

/-- **The protocol of rule updaters**, for any answers of the database and the AML programs that
meet the conditions. -/
theorem run_protocol (cfg : KycConfig) (events : List UpdaterEvent)
    (ha : Admits (updaterStep cfg) (UpdaterOk cfg) updateRules events) :
    Protocol cfg (run (updaterStep cfg) updateRules events) := by
  have hinv := run_invariant (I := fun ru => (Pending ru ∨ Ended ru) ∧ Fits cfg ru)
    (fun ru e ho h => ⟨updaterStep_inv cfg ru e h.1, ?_⟩) ha
    ⟨.inl pending_updateRules, fits_updateRules⟩
  · exact Protocol.of_inv hinv.1 hinv.2
  · rcases h.1 with hp | he
    · exact updaterStep_fits cfg ru e ho hp h.2
    · rw [updaterStep_ended cfg ru e he]
      exact h.2

end Runs

/-! ## Runs that break the protocol -/

/-- Two measures that run AML programs, one of them not configured, and one that asks the user. Row `1`
has rules that run the first when they expire, row `2` the second; row `3` has the default rules. -/
def sampleKyc : KycConfig where
  defaultMeasures := [⟨"verify", "freeze", some "SKIP"⟩, ⟨"retired", "thaw", none⟩,
    ⟨"ask", "freeze", some "form"⟩]
  amlPrograms := ["freeze"]
  rulesParse j :=
    match j with
    | "verified" => some ⟨10, some "verify", []⟩
    | "retiring" => some ⟨10, some "retired", []⟩
    | "frozen" => some ⟨100, none, []⟩
    | _ => none
  jnewRules row :=
    match row with
    | 1 => some "verified"
    | 2 => some "retiring"
    | _ => none

/-- The AML program fails and its fallback asks the user. -/
def fallbackAsks : List UpdaterEvent :=
  [.task { now := 20, lookup := some (some 1) }, .program (.failure "ask") { now := 21 }]

theorem fallbackAsks_protocol :
    Protocol sampleKyc (run (updaterStep sampleKyc) updateRules fallbackAsks) := by
  refine run_protocol sampleKyc fallbackAsks ⟨⟨?_, ?_⟩, ?_, trivial⟩
  · rintro _ ⟨⟩ l hl - m hm -
    revert l m
    decide +kernel
  · exact fun _ _ _ _ => .inl rfl
  · rintro m hm -
    revert m
    decide +kernel

/-- The AML program of the successor measure is not configured. -/
def unknownProgram : List UpdaterEvent := [.task { now := 20, lookup := some (some 2) }]

/-- The AML program succeeds: its rules are reported with the row of the old ones. -/
def newRules : List UpdaterEvent :=
  [.task { now := 20, lookup := some (some 1) }, .program (.success "frozen") { now := 21 }]

/-- The lock is held; meanwhile the account goes back to the default rules. -/
def staleRules : List UpdaterEvent :=
  [.task { now := 20, lookup := some (some 1), xlock := 50 }, .notify,
    .task { now := 30, lookup := some (some 3) }, .program (.failure "ask") { now := 31 }]

/-- **Rule updaters do not keep the protocol in general.** -/
theorem not_protocol :
    ¬ Protocol sampleKyc (run (updaterStep sampleKyc) updateRules unknownProgram) ∧
      ¬ Protocol sampleKyc (run (updaterStep sampleKyc) updateRules newRules) ∧
      ¬ Protocol sampleKyc (run (updaterStep sampleKyc) updateRules staleRules) := by
  have hbroken : ∀ events ∈ [unknownProgram, newRules, staleRules],
      ((run (updaterStep sampleKyc) updateRules events).results = [] ∧
        (run (updaterStep sampleKyc) updateRules events).continuations ≠ 1) ∨
      ∃ r ∈ (run (updaterStep sampleKyc) updateRules events).results, ¬ r.Sound sampleKyc := by
    decide +kernel
  have hall : ∀ events ∈ [unknownProgram, newRules, staleRules],
      ¬ Protocol sampleKyc (run (updaterStep sampleKyc) updateRules events) := by
    intro events hevents hp
    rcases hbroken events hevents with ⟨hr, hc⟩ | ⟨r, hr, hs⟩
    · exact hc (hp.pending hr)
    · exact hs (hp.sound r hr)
  exact ⟨hall _ (by simp), hall _ (by simp), hall _ (by simp)⟩

end TalerExchange
