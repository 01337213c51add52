import TalerExchange.Kyc.Check
import TalerExchange.Kyc.Rules

/-!
# The balance of a wallet

`/kyc-wallet` runs a legitimization check with the balance as the only amount and answers with the
threshold that the check left in its result. A check without a merchant's key is run in rounds: a rule
with an instant measure leads to the next one.

* `LegitimizationRules`, `WalletRound`: the rules, and what is answered in one round;
* `walletRound`, `walletRun`: one round, and the check;
* `walletReply`: the response of the handler;
* `SmallestThreshold`: what the response is to tell;
* **`walletThreshold_iff`**: it does only where there is nothing to tell.
-/

namespace TalerExchange

open Sql

/-! ## The check -/

/-- `struct TALER_KYCLOGIC_LegitimizationRuleSet`, as far as checks read it. -/
structure LegitimizationRules where
  expirationTime : ℕ
  kycRules : List KycRule
deriving DecidableEq, Repr

/-- `GNUNET_TIME_UNIT_FOREVER_TS`. -/
def foreverTs : ℕ := 2 ^ 64 - 1

/-- `TALER_KYCLOGIC_rules_get_expiration`. -/
def rulesGetExpiration (lrs : Option LegitimizationRules) : ℕ :=
  (lrs.map LegitimizationRules.expirationTime).getD foreverTs

/-- `struct TEH_LegitimizationCheckResult`, as far as the wallet is told of it. -/
structure WalletResult where
  requirementRow : ℕ := 0
  ok : Bool := false
  nextThreshold : Option Amount := none
  expirationDate : ℕ := 0
  response : Option LegiError := none
deriving DecidableEq, Repr

/-- How an instant measure ends. -/
inductive MeasureRun
  | notStarted
  | finished (ec : ℕ)
deriving DecidableEq, Repr

/-- What is answered in one round: `rules` are those of the account, `none` for the default rules,
`date` is the time that the balance is reported with. -/
structure WalletRound where
  enableKyc : Bool := true
  start : Bool := true
  kycRules : Bool := true
  updater : ErrorCode := .none
  rules : Option LegitimizationRules := none
  date : ℕ := 0
  now : ℕ := 0
  measure : MeasureRun := .finished 0
  trigger : QueryStatus := .oneResult
  requirementRow : ℕ := 0
  commit : QueryStatus := .noResults
deriving DecidableEq, Repr

/-- The default rules, and the rules whose measure is instant. -/
structure WalletConfig where
  defaultRules : List KycRule
  instantMeasure : KycRule → Bool

/-- The rules that apply. -/
def WalletConfig.applicable (cfg : WalletConfig) (rules : Option LegitimizationRules) :
    List KycRule :=
  (rules.map LegitimizationRules.kycRules).getD cfg.defaultRules

/-- `balance_iterator`. -/
def balanceIterator (balance : Amount) (date : ℕ) : KycAmountIterator :=
  fun _ => ([(balance, date)], .oneResult)

/-- `legi_fail`. -/
def WalletResult.fail (lcr : WalletResult) (ec : LegiError) : WalletResult :=
  { lcr with response := some ec }

/-- `current_rules_cb` after the test: the result, or the next round. -/
def currentRules (cfg : WalletConfig) (a : WalletRound) (rerun : ℕ) (lcr : WalletResult) :
    Option KycRule → WalletResult ⊕ WalletResult
  | none =>
    if a.commit.failed then .inl (lcr.fail .dbCommitFailed)
    else .inl { lcr with
      ok := true, expirationDate := rulesGetExpiration a.rules, nextThreshold := none }
  | some requirement =>
    if cfg.instantMeasure requirement then
      match a.measure with
      | .notStarted =>
        .inl (if a.commit.failed then lcr.fail .dbCommitFailed else lcr.fail .amlProgramFailure)
      | .finished ec =>
        if a.commit.failed then .inl (lcr.fail .dbCommitFailed)
        else if ec ≠ 0 then .inl (lcr.fail (.measure ec))
        else if maxLegiLoops < rerun then .inl (lcr.fail .recursiveRuleDetected)
        else .inr lcr
    else
      let lcr := { lcr with ok := false, requirementRow := a.requirementRow }
      match a.trigger with
      | .noResults => .inl (lcr.fail .internalInvariantFailure)
      | .hardError => .inl (lcr.fail .dbStoreFailed)
      | _ => .inl (if a.commit.failed then lcr.fail .dbCommitFailed else lcr)

/-- `legitimization_check_run`, up to the result or the next round; `none` for a failed assertion. -/
def walletRound (cfg : WalletConfig) (balance : Amount) (a : WalletRound) (rerun : ℕ)
    (lcr : WalletResult) : Option (WalletResult ⊕ WalletResult) :=
  if a.enableKyc = false then
    some (.inl { requirementRow := 0, ok := true, nextThreshold := none,
                 expirationDate := foreverTs, response := none })
  else if a.start = false then some (.inl (lcr.fail .dbStartFailed))
  else if a.kycRules = false then some (.inl (lcr.fail .dbFetchFailed))
  else if a.updater ≠ .none then some (.inl (lcr.fail (.updater a.updater)))
  else
    (kycTestRequired .walletBalance cfg.defaultRules (a.rules.map LegitimizationRules.kycRules)
      (balanceIterator balance a.date) a.now).map fun test =>
        if test.status.failed then
          .inl ({ lcr with nextThreshold := test.nextThreshold }.fail .dbFetchFailed)
        else
          currentRules cfg a rerun { lcr with nextThreshold := test.nextThreshold } test.triggeredRule

/-- The rounds of a check, up to its result and the round that it comes from. -/
def walletRun (cfg : WalletConfig) (balance : Amount) :
    ℕ → WalletResult → List WalletRound → Option (WalletRound × WalletResult)
  | _, _, [] => none
  | rerun, lcr, a :: rounds =>
    match walletRound cfg balance a rerun lcr with
    | none => none
    | some (.inl lcr) => some (a, lcr)
    | some (.inr lcr) => walletRun cfg balance (rerun + 1) lcr rounds

/-! ## The response -/

/-- The responses of `/kyc-wallet`. -/
inductive WalletReply
  | error (ec : LegiError)
  | kycOk (expirationTime : ℕ) (nextThreshold : Option Amount)
  | kycRequired (requirementRow : ℕ)
deriving DecidableEq, Repr

/-- `legi_result_cb`, and `TEH_handler_kyc_wallet` after it. -/
def walletReply (lcr : WalletResult) : WalletReply :=
  match lcr.response with
  | some ec => .error ec
  | none =>
    if lcr.ok then .kycOk lcr.expirationDate lcr.nextThreshold else .kycRequired lcr.requirementRow

/-- **What the wallet is to be told**: the smallest threshold of a rule for balances, and nothing only
where there is no such rule. -/
structure SmallestThreshold (rules : List KycRule) (t : Option Amount) : Prop where
  absent : t = none ↔ ∀ rule ∈ rules, rule.trigger ≠ .walletBalance
  least : ∀ a, t = some a →
    (∃ rule ∈ rules, rule.trigger = .walletBalance ∧ rule.threshold = a) ∧
      ∀ rule ∈ rules, rule.trigger = .walletBalance → a.units ≤ rule.threshold.units

section Check

variable {cfg : WalletConfig} {balance : Amount} {a : WalletRound} {rerun : ℕ}
  {lcr lcr' : WalletResult}

/-- A result that passes has no threshold. -/
def WalletResult.Bare (lcr : WalletResult) : Prop :=
  lcr.response = none → lcr.ok = true → lcr.nextThreshold = none

theorem WalletResult.bare_fail (ec : LegiError) : (lcr.fail ec).Bare := fun h => nomatch h

theorem currentRules_spec (requirement : Option KycRule) :
    (∃ r, currentRules cfg a rerun lcr requirement = .inl r ∧ r.Bare) ∨
      currentRules cfg a rerun lcr requirement = .inr lcr := by
  unfold currentRules
  split
  · split
    · exact Or.inl ⟨_, rfl, WalletResult.bare_fail _⟩
    · exact Or.inl ⟨_, rfl, fun _ _ => rfl⟩
  · split
    · split
      · refine Or.inl ⟨_, rfl, ?_⟩
        split <;> exact WalletResult.bare_fail _
      · split
        · exact Or.inl ⟨_, rfl, WalletResult.bare_fail _⟩
        · split
          · exact Or.inl ⟨_, rfl, WalletResult.bare_fail _⟩
          · split
            · exact Or.inl ⟨_, rfl, WalletResult.bare_fail _⟩
            · exact Or.inr rfl
    · dsimp only
      split
      · exact Or.inl ⟨_, rfl, WalletResult.bare_fail _⟩
      · exact Or.inl ⟨_, rfl, WalletResult.bare_fail _⟩
      · refine Or.inl ⟨_, rfl, ?_⟩
        split
        · exact WalletResult.bare_fail _
        · exact fun _ h => nomatch h

/-- A round ends with a result without a threshold, or leads to the next without success. -/
theorem walletRound_spec (hok : lcr.ok = false) {r : WalletResult ⊕ WalletResult}
    (h : walletRound cfg balance a rerun lcr = some r) :
    (∃ lcr', r = .inl lcr' ∧ lcr'.Bare) ∨ ∃ lcr', r = .inr lcr' ∧ lcr'.ok = false := by
  unfold walletRound at h
  split_ifs at h
  · cases h
    exact Or.inl ⟨_, rfl, fun _ _ => rfl⟩
  · cases h
    exact Or.inl ⟨_, rfl, WalletResult.bare_fail _⟩
  · cases h
    exact Or.inl ⟨_, rfl, WalletResult.bare_fail _⟩
  · cases h
    exact Or.inl ⟨_, rfl, WalletResult.bare_fail _⟩
  · obtain ⟨test, -, rfl⟩ := Option.map_eq_some_iff.mp h
    split
    · exact Or.inl ⟨_, rfl, WalletResult.bare_fail _⟩
    · rcases @currentRules_spec cfg a rerun { lcr with nextThreshold := test.nextThreshold }
        test.triggeredRule with ⟨r, hr, hbare⟩ | hr
      · exact Or.inl ⟨r, hr, hbare⟩
      · exact Or.inr ⟨_, hr, hok⟩

/-- **The result of a check**: where it passes there is no threshold. -/
theorem walletRun_bare {rounds : List WalletRound} (hok : lcr.ok = false)
    (h : walletRun cfg balance rerun lcr rounds = some (a, lcr')) : lcr'.Bare := by
  induction rounds generalizing rerun lcr with
  | nil => cases h
  | cons b rounds ih =>
    rw [walletRun] at h
    cases hr : walletRound cfg balance b rerun lcr with
    | none => rw [hr] at h; cases h
    | some r =>
      rw [hr] at h
      rcases walletRound_spec hok hr with ⟨r, rfl, hbare⟩ | ⟨r, rfl, hr'⟩
      · cases h
        exact hbare
      · exact ih hr' h

/-- **The wallet is told the smallest threshold only where there is none.** -/
theorem walletThreshold_iff {rounds : List WalletRound} {expiration : ℕ} {t : Option Amount}
    (hrun : walletRun cfg balance 0 {} rounds = some (a, lcr'))
    (hreply : walletReply lcr' = .kycOk expiration t) :
    SmallestThreshold (cfg.applicable a.rules) t ↔
      ∀ rule ∈ cfg.applicable a.rules, rule.trigger ≠ .walletBalance := by
  have ht : t = none := by
    unfold walletReply at hreply
    split at hreply
    · cases hreply
    · next hresponse =>
      split at hreply
      · next hok =>
        cases hreply
        exact walletRun_bare rfl hrun hresponse hok
      · cases hreply
  subst ht
  exact ⟨fun h => h.absent.mp rfl,
    fun h => ⟨iff_of_true rfl h, fun _ hnone => nomatch hnone⟩⟩

end Check

/-- A wallet may hold `1000` before anything is asked of it. -/
def balanceRule : KycRule where
  timeframe := 0
  threshold := Amount.whole 1000
  nextMeasures := ["kyc"]
  displayPriority := 1
  trigger := .walletBalance

/-- An exchange with this rule only. -/
def balanceConfig : WalletConfig := ⟨[balanceRule], fun _ => false⟩

theorem walletRun_balanceRule : walletRun balanceConfig (Amount.whole 10) 0 {} [{}] =
    some ({}, { ok := true, expirationDate := foreverTs }) := by
  decide +kernel

theorem walletThreshold_iff_balanceRule :
    SmallestThreshold (balanceConfig.applicable none) none ↔
      ∀ rule ∈ balanceConfig.applicable none, rule.trigger ≠ .walletBalance :=
  walletThreshold_iff walletRun_balanceRule rfl

/-- The wallet is not told of the rule. -/
theorem not_walletThreshold : ¬ ∀ (cfg : WalletConfig) (balance : Amount)
    (rounds : List WalletRound) (a : WalletRound) (lcr : WalletResult) (expiration : ℕ)
    (t : Option Amount), walletRun cfg balance 0 {} rounds = some (a, lcr) →
      walletReply lcr = .kycOk expiration t → SmallestThreshold (cfg.applicable a.rules) t := by
  intro h
  have hs := h balanceConfig (Amount.whole 10) [{}] _ _ _ _ walletRun_balanceRule rfl
  exact hs.absent.mp rfl balanceRule List.mem_cons_self rfl

end TalerExchange
