import TalerExchange.Audit.Reserves
import TalerExchange.Machine.Assoc

/-!
# The coin auditor

`analyze_coins` adds up the rows of eight tables of the exchange, denomination by denomination, next
to a global balance sheet, and stores both in the database of the auditor. It goes on from where it
stopped; coins whose history was checked are remembered by the process.

* `CoinAuditRows`: what the queries return; `CoinAuditEnv`: what else the exchange knows;
* `AuditorCoinDb`, `CoinCore`: what the auditor stores and computes;
* `checkKnownCoin`, `reduceDenomBalance`, `syncDenomination`: helpers;
* `withdrawCb`, …, `recoupCb`: the callbacks; `coinStep`: one row;
* `analyzeCoins`: one pass; `coinAuditStep`: passes of a process.

Amounts are counted in the smallest unit. A call to a database that fails has its transaction
undone, and so the pass.
-/

namespace TalerExchange

open Assoc

/-! ## What the exchange has -/

/-- A row of `select_coin_deposits_above_serial_id`. -/
structure CoinDepositRow where
  rowid : ℕ
  coinPub : CoinPub
  hDenomPub : HashCode
  amountWithFee : ℕ
  refundDeadline : Timestamp
  wireDeadline : Timestamp
  csig : Signature
deriving DecidableEq, Repr

/-- A row of `select_purse_deposits_above_serial_id`, or of `select_purse_deposits_by_purse`. -/
structure PurseDepositRow where
  rowid : ℕ
  coinPub : CoinPub
  hDenomPub : HashCode
  amount : ℕ
  coinSig : Signature
deriving DecidableEq, Repr

/-- A row of `select_refunds_above_serial_id`. -/
structure CoinRefundRow where
  rowid : ℕ
  hDenomPub : HashCode
  coinPub : CoinPub
  merchantPub : MerchantPub
  merchantSig : Signature
  hContractTerms : HashCode
  rtransactionId : ℕ
  fullRefund : Bool
  amountWithFee : ℕ
deriving DecidableEq, Repr

/-- A row of `select_purse_decisions_above_serial_id` for a purse that was refunded. -/
structure PurseRefundRow where
  rowid : ℕ
  pursePub : PursePub
deriving DecidableEq, Repr

/-- A row of `select_refreshes_above_serial_id`. -/
structure MeltRow where
  rowid : ℕ
  hDenomPub : HashCode
  coinPub : CoinPub
  coinSig : Signature
  amountWithFee : ℕ
  rc : HashCode
deriving DecidableEq, Repr

/-- A row of `select_recoup_refresh_above_serial_id`. -/
structure RecoupRefreshRow where
  rowid : ℕ
  amount : ℕ
  oldDenomPubHash : HashCode
  coinPub : CoinPub
  denomPubHash : HashCode
  coinSig : Signature
  coinBlind : ℕ
deriving DecidableEq, Repr

/-- The tables that are audited, each in the order of its serials. -/
structure CoinAuditRows where
  withdrawals : List WithdrawalRow := []
  recoupRefreshes : List RecoupRefreshRow := []
  deposits : List CoinDepositRow := []
  purseDeposits : List PurseDepositRow := []
  refunds : List CoinRefundRow := []
  purseRefunds : List PurseRefundRow := []
  melts : List MeltRow := []
  recoups : List RecoupRow := []

/-- `struct TALER_EXCHANGEDB_DenominationKeyInformation`, as far as it is read here. -/
structure CoinDenomination where
  expireDeposit : ℕ
  value : ℕ
  feeWithdraw : ℕ
  feeDeposit : ℕ
  feeRefresh : ℕ
  feeRefund : ℕ
deriving DecidableEq, Repr

/-- `struct TALER_EXCHANGEDB_TransactionList`. -/
inductive AuditedTransaction
  | deposit (amountWithFee depositFee : ℕ)
  | melt (amountWithFee : ℕ)
  | refund (refundAmount refundFee : ℕ)
  | oldCoinRecoup (value : ℕ)
  | recoup (value : ℕ)
  | recoupRefresh (value : ℕ)
  | purseDeposit (amount : ℕ)
  | purseRefund (refundAmount refundFee : ℕ)
  | reserveOpen (coinContribution : ℕ)
deriving DecidableEq, Repr

/-! ## What the auditor has -/

/-- `struct TALER_AUDITORDB_DenominationCirculationData`. -/
structure DenominationCirculation where
  denomBalance : ℕ := 0
  denomLoss : ℕ := 0
  denomRisk : ℕ := 0
  recoupLoss : ℕ := 0
  numIssued : ℕ := 0
deriving DecidableEq, Repr

/-- `struct DenominationSummary`. -/
structure DenominationSummary where
  dcd : DenominationCirculation := {}
  issue : CoinDenomination
  inDb : Bool := false
  reportEmergency : Bool := false
  wasRevoked : Bool := false
deriving DecidableEq, Repr

/-- The global balance sheet. -/
structure CoinSheet where
  coinBalanceRisk : ℕ := 0
  totalEscrowed : ℕ := 0
  coinIrregularLoss : ℕ := 0
  coinMeltFeeRevenue : ℕ := 0
  coinDepositFeeRevenue : ℕ := 0
  coinDepositFeeLoss : ℕ := 0
  coinRefundFeeRevenue : ℕ := 0
  totalRecoupLoss : ℕ := 0
  totalArithmeticDeltaPlus : ℕ := 0
  totalArithmeticDeltaMinus : ℕ := 0
  reportedEmergencyRiskByCount : ℕ := 0
  reportedEmergencyRiskByAmount : ℕ := 0
  emergenciesLoss : ℕ := 0
  emergenciesLossByCount : ℕ := 0
  totalRefreshHanging : ℕ := 0
deriving DecidableEq, Repr

/-- The progress points: the next row of each table. -/
structure CoinProgress where
  withdraw : ℕ := 0
  deposit : ℕ := 0
  melt : ℕ := 0
  refund : ℕ := 0
  recoup : ℕ := 0
  recoupRefresh : ℕ := 0
  purseDeposits : ℕ := 0
  purseRefunds : ℕ := 0
deriving DecidableEq, Repr

/-- The inconsistencies that are reported. -/
inductive CoinReport
  | row (table : String) (rowid : ℕ) (diagnostic : String)
  | amountArithmetic (operation : String) (rowid exchangeAmount auditorAmount : ℕ) (profitable : ℤ)
  | badSigLoss (operation : String) (rowid : ℕ) (coinPub : CoinPub) (loss : ℕ)
  | refreshesHanging (rowid amount : ℕ)
  | emergency (denompubH : HashCode) (risk loss : ℕ)
  | emergencyByCount (denompubH : HashCode) (numIssued numKnown risk : ℕ)
  | denominationWithoutSig (denompubH : HashCode)
deriving DecidableEq, Repr

/-- A row of `auditor_historic_denomination_revenue`. -/
structure DenomRevenue where
  revenueTimestamp : ℕ
  revenueBalance : ℕ
  lossBalance : ℕ
deriving DecidableEq, Repr

/-- The database of the auditor, as far as coins are concerned. -/
structure AuditorCoinDb where
  denominationPending : List (HashCode × DenominationCirculation) := []
  historicDenominationRevenue : List (HashCode × DenomRevenue) := []
  balances : Option CoinSheet := none
  progress : Option CoinProgress := none
  reports : List CoinReport := []

/-- `coin_histories`: the coin in each slot. -/
abbrev CoinHistories := ℕ → Option CoinPub

/-- Denominations, revocations (whether the master signature is valid, and the row), coins and their
histories, reveals and purses of the exchange, signature checks, the time, and the order in which a
hash map is walked through. -/
structure CoinAuditEnv where
  rows : CoinAuditRows := {}
  denomination : HashCode → Option CoinDenomination
  withoutSigs : List HashCode := []
  revocation : HashCode → Option (Bool × ℕ) := fun _ => none
  coinTransactions : CoinPub → List AuditedTransaction := fun _ => []
  coinValid : CoinPub → HashCode → Bool := fun _ _ => true
  refreshReveal : HashCode → List HashCode := fun _ => []
  purseDepositsByPurse : PursePub → List PurseDepositRow := fun _ => []
  countKnownCoins : HashCode → ℕ := fun _ => 0
  meltVerify : MeltRow → Bool := fun _ => true
  depositVerify : CoinDepositRow → Bool := fun _ => true
  purseDepositVerify : PurseDepositRow → Bool := fun _ => true
  refundVerify : CoinRefundRow → Bool := fun _ => true
  recoupVerify : HashCode → ℕ → CoinPub → Signature → Bool := fun _ _ _ _ => true
  recoupRefreshVerify : HashCode → ℕ → CoinPub → Signature → Bool := fun _ _ _ _ => true
  now : ℕ := 0
  order : List (HashCode × DenominationSummary) → List (HashCode × DenominationSummary) := id
  order_perm : ∀ l, (order l).Perm l := by exact fun l => List.Perm.refl l

/-- What a pass computes and stores: the globals of the process, `cc.denom_summaries`, the caches
and the database. -/
structure CoinCore where
  sheet : CoinSheet := {}
  progress : CoinProgress := {}
  summaries : List (HashCode × DenominationSummary) := []
  histories : CoinHistories
  db : AuditorCoinDb

/-- Why a pass does not end: a sum or a difference out of range, an assertion or a pointer that is
not valid, a statement that breaks a constraint. -/
inductive CoinAbort
  | overflow
  | negative
  | assertion
  | constraint
deriving DecidableEq, Repr

/-- A step of a pass. -/
abbrev CoinAudit := Except CoinAbort CoinCore

/-! ## Amounts -/

/-- `TALER_ARL_amount_add`. -/
def amountAdd (a b : ℕ) : Except CoinAbort ℕ :=
  if a + b < amountLimit then .ok (a + b) else .error .overflow

/-- `TALER_ARL_amount_subtract`. -/
def amountSubtract (a b : ℕ) : Except CoinAbort ℕ :=
  if b ≤ a then .ok (a - b) else .error .negative

/-! ## Reports -/

def CoinCore.report (k : CoinCore) (r : CoinReport) : CoinCore :=
  { k with db.reports := k.db.reports ++ [r] }

/-- The end of `report_amount_arithmetic_inconsistency`: the difference is booked. -/
def CoinCore.bookDelta (k : CoinCore) (delta : ℕ) (profitable : ℤ) : CoinAudit :=
  if profitable = 0 then .ok k
  else if profitable = 1 then do
    let plus ← amountAdd k.sheet.totalArithmeticDeltaPlus delta
    return { k with sheet.totalArithmeticDeltaPlus := plus }
  else do
    let minus ← amountAdd k.sheet.totalArithmeticDeltaMinus delta
    return { k with sheet.totalArithmeticDeltaMinus := minus }

/-- `report_amount_arithmetic_inconsistency`. -/
def CoinCore.amountArithmeticInconsistency (k : CoinCore) (operation : String)
    (rowid exchangeAmount auditorAmount : ℕ) (profitable : ℤ) : CoinAudit :=
  let delta := if auditorAmount < exchangeAmount then exchangeAmount - auditorAmount
    else auditorAmount - exchangeAmount
  let profitable := if auditorAmount < exchangeAmount then profitable else -profitable
  CoinCore.bookDelta
    (k.report (.amountArithmetic operation rowid exchangeAmount auditorAmount profitable)) delta
    profitable

/-- A loss by an invalid signature. -/
def CoinCore.badSigLoss (k : CoinCore) (operation : String) (rowid : ℕ) (coinPub : CoinPub)
    (loss : ℕ) : CoinAudit := do
  let total ← amountAdd k.sheet.coinIrregularLoss loss
  return { k.report (.badSigLoss operation rowid coinPub loss) with
    sheet.coinIrregularLoss := total }

/-! ## The history of a coin -/

/-- The sums of `check_coin_history`. -/
structure HistorySums where
  spent : ℕ := 0
  refunded : ℕ := 0
  depositFee : ℕ := 0
  haveRefund : Bool := false
deriving DecidableEq, Repr

/-- The loop body of `check_coin_history`. -/
def historyStep (s : HistorySums) : AuditedTransaction → Except CoinAbort HistorySums
  | .deposit amountWithFee depositFee => do
    let spent ← amountAdd s.spent amountWithFee
    return { s with spent := spent, depositFee := depositFee }
  | .refund refundAmount refundFee | .purseRefund refundAmount refundFee => do
    let refunded ← amountAdd s.refunded refundAmount
    let spent ← amountAdd s.spent refundFee
    return { s with refunded := refunded, spent := spent, haveRefund := true }
  | .oldCoinRecoup value => do
    let refunded ← amountAdd s.refunded value
    return { s with refunded := refunded }
  | .melt amount | .recoup amount | .recoupRefresh amount | .purseDeposit amount
  | .reserveOpen amount => do
    let spent ← amountAdd s.spent amount
    return { s with spent := spent }

/-- `MAX_COIN_HISTORIES`. -/
def maxCoinHistories : ℕ := 16 * 1024 * 1024

/-- `coin_history_index`, from the first four bytes of the key. -/
def coinHistoryIndex (coinPub : CoinPub) : ℕ := coinPub % 2 ^ 32 % maxCoinHistories

/-- `cache_history`; what is cached is `NULL` for an empty history. -/
def CoinCore.cacheHistory (k : CoinCore) (coinPub : CoinPub) (tl : List AuditedTransaction) :
    CoinCore :=
  let entry := if tl.isEmpty then none else some coinPub
  { k with histories := Function.update k.histories (coinHistoryIndex coinPub) entry }

/-- `check_coin_history`. -/
def checkCoinHistory (env : CoinAuditEnv) (k : CoinCore) (coinPub : CoinPub) (rowid : ℕ)
    (operation : String) (value : ℕ) : CoinAudit := do
  let tl := env.coinTransactions coinPub
  let s ← tl.foldlM historyStep {}
  let refunded ← amountAdd s.refunded (if s.haveRefund then s.depositFee else 0)
  let total ← amountAdd refunded value
  let k ← (if total < s.spent then
      k.amountArithmeticInconsistency operation rowid s.spent total (-1)
    else .ok k)
  return k.cacheHistory coinPub tl

/-- `check_known_coin`; the coin of a row is known, and so is its history. -/
def checkKnownCoin (env : CoinAuditEnv) (k : CoinCore) (operation : String)
    (issue : CoinDenomination) (rowid : ℕ) (coinPub : CoinPub) (hDenomPub : HashCode)
    (lossPotential : ℕ) : CoinAudit := do
  let k ← (if k.histories (coinHistoryIndex coinPub) = some coinPub then .ok k
    else checkCoinHistory env k coinPub rowid operation issue.value)
  if env.coinValid coinPub hDenomPub then .ok k
  else k.badSigLoss operation rowid coinPub lossPotential

/-! ## Denominations -/

/-- `init_denomination`: what is stored of the denomination. -/
def AuditorCoinDb.loadDenomination (db : AuditorCoinDb) (issue : CoinDenomination)
    (hDenomPub : HashCode) : DenominationSummary :=
  match get db.denominationPending hDenomPub with
  | none => { issue := issue }
  | some dcd => { dcd := dcd, issue := issue, inDb := true }

/-- The summary of a denomination is changed. -/
def CoinCore.setSummary (k : CoinCore) (hDenomPub : HashCode) (ds : DenominationSummary) :
    CoinCore :=
  { k with summaries := set k.summaries hDenomPub ds }

/-- `get_denomination_summary`. -/
def getDenominationSummary (env : CoinAuditEnv) (k : CoinCore) (issue : CoinDenomination)
    (hDenomPub : HashCode) : CoinCore × DenominationSummary :=
  match get k.summaries hDenomPub with
  | some ds => (k, ds)
  | none =>
    let ds := k.db.loadDenomination issue hDenomPub
    match env.revocation hDenomPub with
    | none => (k.setSummary hDenomPub ds, ds)
    | some (true, _) =>
      let ds := { ds with wasRevoked := true }
      (k.setSummary hDenomPub ds, ds)
    | some (false, rowid) =>
      let k := k.report (.row "denomination revocations" rowid "revocation signature invalid")
      (k.setSummary hDenomPub ds, ds)

/-- The first part of `reduce_denom_balance`: an amount is taken from the balance, or it is lost. -/
def DenominationSummary.reduce (dso : DenominationSummary) (amountWithFee : ℕ) :
    Except CoinAbort DenominationSummary :=
  if amountWithFee ≤ dso.dcd.denomBalance then
    .ok { dso with dcd.denomBalance := dso.dcd.denomBalance - amountWithFee }
  else do
    let loss ← amountAdd dso.dcd.denomLoss amountWithFee
    return { dso with dcd.denomLoss := loss, reportEmergency := true }

/-- `reduce_denom_balance`. -/
def reduceDenomBalance (env : CoinAuditEnv) (k : CoinCore) (issue : CoinDenomination)
    (hDenomPub : HashCode) (rowid amountWithFee : ℕ) : CoinAudit := do
  let (k, dso) := getDenominationSummary env k issue hDenomPub
  let dso ← dso.reduce amountWithFee
  let k := k.setSummary hDenomPub dso
  if k.sheet.totalEscrowed < amountWithFee then
    k.amountArithmeticInconsistency "subtracting amount from escrow balance" rowid
      k.sheet.totalEscrowed amountWithFee 0
  else return { k with sheet.totalEscrowed := k.sheet.totalEscrowed - amountWithFee }

/-- A value is in circulation: it is added to the balance and the risk of the denomination, to the
escrow and to the risk. -/
def CoinCore.circulate (k : CoinCore) (hDenomPub : HashCode) (ds : DenominationSummary)
    (value : ℕ) : CoinAudit := do
  let denomBalance ← amountAdd ds.dcd.denomBalance value
  let denomRisk ← amountAdd ds.dcd.denomRisk value
  let totalEscrowed ← amountAdd k.sheet.totalEscrowed value
  let coinBalanceRisk ← amountAdd k.sheet.coinBalanceRisk value
  let k := k.setSummary hDenomPub
    { ds with dcd.denomBalance := denomBalance, dcd.denomRisk := denomRisk }
  return { k with sheet.totalEscrowed := totalEscrowed, sheet.coinBalanceRisk := coinBalanceRisk }

/-- A coin is issued. -/
def issueCoin (env : CoinAuditEnv) (k : CoinCore) (hDenomPub : HashCode)
    (issue : CoinDenomination) : CoinAudit :=
  let (k, ds) := getDenominationSummary env k issue hDenomPub
  k.circulate hDenomPub { ds with dcd.numIssued := ds.dcd.numIssued + 1 } issue.value

/-- A value comes back to a coin. -/
def restoreCoin (env : CoinAuditEnv) (k : CoinCore) (hDenomPub : HashCode)
    (issue : CoinDenomination) (amount : ℕ) : CoinAudit :=
  let (k, ds) := getDenominationSummary env k issue hDenomPub
  k.circulate hDenomPub ds amount

/-! ## The callbacks -/

/-- `withdraw_cb`. -/
def withdrawCb (env : CoinAuditEnv) (k : CoinCore) (row : WithdrawalRow) : CoinAudit :=
  let k := { k with progress.withdraw := row.rowid + 1 }
  match env.denomination row.hDenomPub with
  | none => .ok (k.report (.row "withdraw" row.rowid "denomination key not found"))
  | some issue => issueCoin env k row.hDenomPub issue

/-- The part of `refresh_session_cb` for a melt that was revealed: the cost is checked, the fresh
coins are issued, the old one is melted. -/
def refreshRevealed (env : CoinAuditEnv) (k : CoinCore) (row : MeltRow) (issue : CoinDenomination)
    (fresh : List (HashCode × CoinDenomination)) : CoinAudit := do
  let refreshCost ← fresh.foldlM (fun cost ni => do
    let cost ← amountAdd cost ni.2.feeWithdraw
    amountAdd cost ni.2.value) 0
  let amountWithoutFee := row.amountWithFee - issue.feeRefresh
  let k ← (if row.amountWithFee ≤ issue.feeRefresh then
      k.amountArithmeticInconsistency "melt contribution vs. fee" row.rowid row.amountWithFee
        issue.feeRefresh (-1)
    else .ok k)
  let k ← (if amountWithoutFee < refreshCost then
      k.amountArithmeticInconsistency "melt (cost)" row.rowid amountWithoutFee refreshCost 1
    else .ok k)
  let k ← fresh.foldlM (fun k ni => issueCoin env k ni.1 ni.2) k
  let k ← reduceDenomBalance env k issue row.hDenomPub row.rowid row.amountWithFee
  let revenue ← amountAdd k.sheet.coinMeltFeeRevenue issue.feeRefresh
  return { k with sheet.coinMeltFeeRevenue := revenue }

/-- `refresh_session_cb`. -/
def refreshSessionCb (env : CoinAuditEnv) (k : CoinCore) (row : MeltRow) : CoinAudit :=
  let k := { k with progress.melt := row.rowid + 1 }
  match env.denomination row.hDenomPub with
  | none => .ok (k.report (.row "melt" row.rowid "denomination key not found"))
  | some issue => do
    let k ← checkKnownCoin env k "melt" issue row.rowid row.coinPub row.hDenomPub row.amountWithFee
    let k ← (if env.meltVerify row then .ok k
      else k.badSigLoss "melt" row.rowid row.coinPub row.amountWithFee)
    let revealed := env.refreshReveal row.rc
    if revealed.isEmpty then do
      let hanging ← amountAdd k.sheet.totalRefreshHanging row.amountWithFee
      return { k.report (.refreshesHanging row.rowid row.amountWithFee) with
        sheet.totalRefreshHanging := hanging }
    else
      let unknown := revealed.filter fun h => (env.denomination h).isNone
      if unknown.isEmpty then
        refreshRevealed env k row issue
          (revealed.filterMap fun h => (env.denomination h).map fun ni => (h, ni))
      else
        .ok (unknown.foldl (fun k _ =>
          k.report (.row "refresh_reveal" row.rowid "denomination key not found")) k)

/-- `deposit_cb`. -/
def depositCb (env : CoinAuditEnv) (k : CoinCore) (row : CoinDepositRow) : CoinAudit :=
  let k := { k with progress.deposit := row.rowid + 1 }
  match env.denomination row.hDenomPub with
  | none => .ok (k.report (.row "deposits" row.rowid "denomination key not found"))
  | some issue => do
    let k := if row.wireDeadline < row.refundDeadline then
        k.report (.row "deposits" row.rowid "refund deadline past wire deadline")
      else k
    let k ← checkKnownCoin env k "deposit" issue row.rowid row.coinPub row.hDenomPub
      row.amountWithFee
    if env.depositVerify row then do
      let k ← reduceDenomBalance env k issue row.hDenomPub row.rowid row.amountWithFee
      let revenue ← amountAdd k.sheet.coinDepositFeeRevenue issue.feeDeposit
      return { k with sheet.coinDepositFeeRevenue := revenue }
    else k.badSigLoss "deposit" row.rowid row.coinPub row.amountWithFee

/-- `refund_cb`. For an amount that does not cover the fee, a difference that is not valid is
compared. -/
def refundCb (env : CoinAuditEnv) (k : CoinCore) (row : CoinRefundRow) : CoinAudit :=
  let k := { k with progress.refund := row.rowid + 1 }
  match env.denomination row.hDenomPub with
  | none => .ok (k.report (.row "refunds" row.rowid "denomination key not found"))
  | some issue =>
    if env.refundVerify row = false then
      k.badSigLoss "refund" row.rowid row.coinPub row.amountWithFee
    else if row.amountWithFee < issue.feeRefund then .error .assertion
    else do
      let k ← restoreCoin env k row.hDenomPub issue (row.amountWithFee - issue.feeRefund)
      let revenue ← amountAdd k.sheet.coinRefundFeeRevenue issue.feeRefund
      let loss ← amountAdd k.sheet.coinDepositFeeLoss
        (if row.fullRefund then issue.feeDeposit else 0)
      return { k with sheet.coinRefundFeeRevenue := revenue, sheet.coinDepositFeeLoss := loss }

/-- `purse_refund_coin_cb`. -/
def purseRefundCoinCb (env : CoinAuditEnv) (k : CoinCore) (row : PurseDepositRow) : CoinAudit :=
  match env.denomination row.hDenomPub with
  | none => .ok (k.report (.row "purse-refunds" row.rowid "denomination key not found"))
  | some issue => do
    let k ← restoreCoin env k row.hDenomPub issue row.amount
    let loss ← amountAdd k.sheet.coinDepositFeeLoss issue.feeDeposit
    return { k with sheet.coinDepositFeeLoss := loss }

/-- `purse_refund_cb`. -/
def purseRefundCb (env : CoinAuditEnv) (k : CoinCore) (row : PurseRefundRow) : CoinAudit :=
  (env.purseDepositsByPurse row.pursePub).foldlM (purseRefundCoinCb env)
    { k with progress.purseRefunds := row.rowid + 1 }

/-- The end of `check_recoup`: the loss is booked. -/
def bookRecoup (env : CoinAuditEnv) (k : CoinCore) (operation : String) (rowid amount : ℕ)
    (coinPub : CoinPub) (issue : CoinDenomination) (denomPubHash : HashCode) : CoinAudit := do
  let (k, ds) := getDenominationSummary env k issue denomPubHash
  let k ← (if ds.wasRevoked then .ok k else k.badSigLoss operation rowid coinPub amount)
  let recoupLoss ← amountAdd ds.dcd.recoupLoss amount
  let totalRecoupLoss ← amountAdd k.sheet.totalRecoupLoss amount
  return { k.setSummary denomPubHash { ds with dcd.recoupLoss := recoupLoss } with
    sheet.totalRecoupLoss := totalRecoupLoss }

/-- `check_recoup`. -/
def checkRecoup (env : CoinAuditEnv) (k : CoinCore) (operation : String) (rowid amount : ℕ)
    (coinPub : CoinPub) (denomPubHash : HashCode) (coinSig : Signature) (coinBlind : ℕ) :
    CoinAudit := do
  let k := if env.recoupVerify denomPubHash coinBlind coinPub coinSig then k
    else k.report (.row operation rowid "recoup signature invalid")
  let k ← (if env.coinValid coinPub denomPubHash then .ok k
    else k.badSigLoss operation rowid coinPub amount)
  match env.denomination denomPubHash with
  | none => return k.report (.row operation rowid "denomination key not found")
  | some issue => do
    let k ← checkKnownCoin env k operation issue rowid coinPub denomPubHash amount
    bookRecoup env k operation rowid amount coinPub issue denomPubHash

/-- `recoup_cb`. -/
def recoupCb (env : CoinAuditEnv) (k : CoinCore) (row : RecoupRow) : CoinAudit :=
  let k := { k with progress.recoup := row.rowid + 1 }
  if env.recoupVerify row.denomPubHash row.coinBlind row.coinPub row.coinSig then
    checkRecoup env k "recoup" row.rowid row.amount row.coinPub row.denomPubHash row.coinSig
      row.coinBlind
  else k.badSigLoss "recoup" row.rowid row.coinPub row.amount

/-- The start of `recoup_refresh_cb`: the old coin gets its value back. A summary without a
denomination is not survived. -/
def recoupOldCoin (env : CoinAuditEnv) (k : CoinCore) (row : RecoupRefreshRow) : CoinAudit :=
  match env.denomination row.oldDenomPubHash with
  | none => .error .assertion
  | some issue => do
    let (k, dso) := getDenominationSummary env k issue row.oldDenomPubHash
    let denomBalance ← amountAdd dso.dcd.denomBalance row.amount
    return k.setSummary row.oldDenomPubHash { dso with dcd.denomBalance := denomBalance }

/-- `recoup_refresh_cb`. -/
def recoupRefreshCb (env : CoinAuditEnv) (k : CoinCore) (row : RecoupRefreshRow) : CoinAudit := do
  let k ← recoupOldCoin env { k with progress.recoupRefresh := row.rowid + 1 } row
  if env.recoupRefreshVerify row.denomPubHash row.coinBlind row.coinPub row.coinSig then
    checkRecoup env k "recoup-refresh" row.rowid row.amount row.coinPub row.denomPubHash row.coinSig
      row.coinBlind
  else k.badSigLoss "recoup-refresh" row.rowid row.coinPub row.amount

/-- `purse_deposit_cb`. -/
def purseDepositCb (env : CoinAuditEnv) (k : CoinCore) (row : PurseDepositRow) : CoinAudit :=
  let k := { k with progress.purseDeposits := row.rowid + 1 }
  match env.denomination row.hDenomPub with
  | none => .ok (k.report (.row "purse-deposits" row.rowid "denomination key not found"))
  | some issue => do
    let k ← checkKnownCoin env k "purse-deposit" issue row.rowid row.coinPub row.hDenomPub
      row.amount
    if env.purseDepositVerify row then do
      let k ← reduceDenomBalance env k issue row.hDenomPub row.rowid row.amount
      let revenue ← amountAdd k.sheet.coinDepositFeeRevenue issue.feeDeposit
      return { k with sheet.coinDepositFeeRevenue := revenue }
    else k.badSigLoss "purse-deposit" row.rowid row.coinPub row.amount

/-- A row of one of the tables. -/
inductive CoinRow
  | withdraw (row : WithdrawalRow)
  | recoupRefresh (row : RecoupRefreshRow)
  | deposit (row : CoinDepositRow)
  | purseDeposit (row : PurseDepositRow)
  | refund (row : CoinRefundRow)
  | purseRefund (row : PurseRefundRow)
  | melt (row : MeltRow)
  | recoup (row : RecoupRow)
deriving DecidableEq, Repr

/-- The callback for a row. -/
def coinStep (env : CoinAuditEnv) (k : CoinCore) : CoinRow → CoinAudit
  | .withdraw row => withdrawCb env k row
  | .recoupRefresh row => recoupRefreshCb env k row
  | .deposit row => depositCb env k row
  | .purseDeposit row => purseDepositCb env k row
  | .refund row => refundCb env k row
  | .purseRefund row => purseRefundCb env k row
  | .melt row => refreshSessionCb env k row
  | .recoup row => recoupCb env k row

/-! ## The end of a pass -/

/-- `DEPOSIT_GRACE_PERIOD`: a day in microseconds. -/
def depositGracePeriod : ℕ := 24 * 60 * 60 * 1000000

/-- The part of `sync_denomination` for a denomination that has expired. -/
def bookExpired (k : CoinCore) (hDenomPub : HashCode) (ds : DenominationSummary) : CoinAudit := do
  let pending := if ds.inDb then del k.db.denominationPending hDenomPub
    else k.db.denominationPending
  let risk ← (if ds.dcd.denomRisk = 0 then .ok k.sheet.coinBalanceRisk
    else amountSubtract k.sheet.coinBalanceRisk ds.dcd.denomRisk)
  let k := { k with sheet.coinBalanceRisk := risk, db.denominationPending := pending }
  if ds.dcd.denomBalance = 0 then return k
  else if (get k.db.historicDenominationRevenue hDenomPub).isSome then .error .constraint
  else
    let revenue : DenomRevenue := ⟨ds.issue.expireDeposit, ds.dcd.denomBalance, ds.dcd.recoupLoss⟩
    return { k with
      db.historicDenominationRevenue := set k.db.historicDenominationRevenue hDenomPub revenue }

/-- `report_emergency_by_count`. -/
def reportEmergencyByCount (k : CoinCore) (hDenomPub : HashCode) (ds : DenominationSummary)
    (numKnown : ℕ) : CoinAudit := do
  let risk ← amountAdd k.sheet.reportedEmergencyRiskByCount ds.dcd.denomRisk
  let loss ← amountAdd k.sheet.emergenciesLossByCount
    ((numKnown - ds.dcd.numIssued) * ds.issue.value)
  return { k.report (.emergencyByCount hDenomPub ds.dcd.numIssued numKnown ds.dcd.denomRisk) with
    sheet.reportedEmergencyRiskByCount := risk
    sheet.emergenciesLossByCount := loss }

/-- `report_emergency_by_amount`. -/
def reportEmergencyByAmount (k : CoinCore) (hDenomPub : HashCode) (ds : DenominationSummary) :
    CoinAudit := do
  let risk ← amountAdd k.sheet.reportedEmergencyRiskByAmount ds.dcd.denomRisk
  let loss ← amountAdd k.sheet.emergenciesLoss ds.dcd.denomLoss
  return { k.report (.emergency hDenomPub ds.dcd.denomRisk ds.dcd.denomLoss) with
    sheet.reportedEmergencyRiskByAmount := risk
    sheet.emergenciesLoss := loss }

/-- The part of `sync_denomination` for a denomination that has not expired. -/
def storeDenomination (env : CoinAuditEnv) (k : CoinCore) (hDenomPub : HashCode)
    (ds : DenominationSummary) : CoinAudit := do
  let cnt := env.countKnownCoins hDenomPub
  let k ← (if ds.dcd.numIssued < cnt then reportEmergencyByCount k hDenomPub ds cnt else .ok k)
  let k ← (if ds.reportEmergency then reportEmergencyByAmount k hDenomPub ds else .ok k)
  return { k with db.denominationPending := set k.db.denominationPending hDenomPub ds.dcd }

/-- `sync_denomination`. -/
def syncDenomination (env : CoinAuditEnv) (k : CoinCore) (e : HashCode × DenominationSummary) :
    CoinAudit :=
  if e.2.issue.expireDeposit + depositGracePeriod < env.now then bookExpired k e.1 e.2
  else storeDenomination env k e.1 e.2

/-- The denomination keys without a valid signature of the auditor are reported, progress points and
balances are loaded. -/
def loadCoins (env : CoinAuditEnv) (db : AuditorCoinDb) (histories : CoinHistories) : CoinCore where
  sheet := db.balances.getD {}
  progress := db.progress.getD {}
  histories := histories
  db := { db with reports := db.reports ++ env.withoutSigs.map .denominationWithoutSig }

/-- The rows from the progress points on, in the order in which they are processed. -/
def CoinAuditRows.after (rows : CoinAuditRows) (p : CoinProgress) : List CoinRow :=
  (rowsFrom (·.rowid) p.withdraw rows.withdrawals).map .withdraw ++
    (rowsFrom (·.rowid) p.recoupRefresh rows.recoupRefreshes).map .recoupRefresh ++
    (rowsFrom (·.rowid) p.deposit rows.deposits).map .deposit ++
    (rowsFrom (·.rowid) p.purseDeposits rows.purseDeposits).map .purseDeposit ++
    (rowsFrom (·.rowid) p.refund rows.refunds).map .refund ++
    (rowsFrom (·.rowid) p.purseRefunds rows.purseRefunds).map .purseRefund ++
    (rowsFrom (·.rowid) p.melt rows.melts).map .melt ++
    (rowsFrom (·.rowid) p.recoup rows.recoups).map .recoup

/-- Progress points and balances are stored. -/
def CoinCore.store (k : CoinCore) : CoinCore :=
  { k with db.balances := some k.sheet, db.progress := some k.progress }

/-- `analyze_coins`. -/
def analyzeCoins (env : CoinAuditEnv) (db : AuditorCoinDb) (histories : CoinHistories) :
    CoinAudit := do
  let k := loadCoins env db histories
  let k ← (env.rows.after k.progress).foldlM (coinStep env) k
  let k ← (env.order k.summaries).foldlM (syncDenomination env) k
  return k.store

/-! ## Passes -/

/-- The database of the auditor and what its process remembers. -/
structure CoinAuditor where
  db : AuditorCoinDb := {}
  histories : CoinHistories := fun _ => none

/-- A pass, or one that is rolled back after it changed the caches. -/
inductive CoinAuditEvent
  | pass (env : CoinAuditEnv)
  | rolledBack (histories : CoinHistories)

/-- A pass that does not end leaves the database as it was. -/
def coinAuditStep (a : CoinAuditor) : CoinAuditEvent → CoinAuditor
  | .pass env =>
    match analyzeCoins env a.db a.histories with
    | .ok k => ⟨k.db, k.histories⟩
    | .error _ => { a with histories := fun _ => none }
  | .rolledBack histories => { a with histories := histories }

end TalerExchange
