import TalerExchange.Schema

/-!
# The reserve auditor

`analyze_reserves` adds up the rows of seven tables of the exchange, reserve by reserve, and compares
and remembers the balances in the database of the auditor. It goes on from where it stopped.

* `CallKind`, `Outcome`, `Audit`: calls to a database and how they end; `amountSum`: a sum;
* `AuditRows`: what the queries return; `ReserveAuditEnv`: what else the exchange knows;
* `AuditBook`: what the auditor computes and stores; `AuditRun`: the process;
* `handleReserveIn`, …, `purseDecisionCb`: the callbacks; `verifyReserveBalance`: the comparison;
* `analyzeReserves`: one analysis.

Amounts are counted in the smallest unit. `TALER_ARL_amount_add` ends the process with a sum that is out
of range. A process that has died is marked as dead, and what is computed for it afterwards is not used.
-/

namespace TalerExchange

/-! ## Calls -/

/-- `enum GNUNET_DB_QueryStatus`: the number of results, or an error. -/
abbrev QueryCode := ℤ

/-- Whether the code tells an error of a call from another number of results: not for `get_wire_fee` and
`reserves_get`. -/
inductive CallKind
  | checked
  | unchecked
deriving DecidableEq, Repr

/-- How a call to a database ends. -/
inductive Outcome
  | ok
  | soft
  | hard
deriving DecidableEq, Repr

/-- The status of a call that has `n` results if it succeeds. -/
def Outcome.status (n : ℤ) : Outcome → QueryCode
  | .ok => n
  | .soft => -1
  | .hard => -2

/-- `TALER_AMOUNT_MAX_VALUE` in the smallest unit, and less than one more. -/
def amountLimit : ℕ := (2 ^ 52 + 1) * 100000000

/-! ## What the exchange has -/

abbrev PaytoUri := ℕ

/-- A row of `select_reserves_in_above_serial_id`. -/
structure ReserveInRow where
  rowid : ℕ
  reservePub : ReservePub
  credit : ℕ
  senderAccount : PaytoUri
  executionDate : Timestamp
deriving DecidableEq, Repr

/-- A row of `select_withdrawals_above_serial_id`. -/
structure WithdrawalRow where
  rowid : ℕ
  hBlindEv : HashCode
  hDenomPub : HashCode
  reservePub : ReservePub
  reserveSig : Signature
  executionDate : Timestamp
  amountWithFee : ℕ
deriving DecidableEq, Repr

/-- A row of `select_recoup_above_serial_id`. -/
structure RecoupRow where
  rowid : ℕ
  timestamp : Timestamp
  amount : ℕ
  reservePub : ReservePub
  coinPub : CoinPub
  denomPubHash : HashCode
  coinSig : Signature
  coinBlind : ℕ
deriving DecidableEq, Repr

/-- A row of `select_reserve_open_above_serial_id`. -/
structure ReserveOpenRow where
  rowid : ℕ
  reservePayment : ℕ
  requestTimestamp : Timestamp
  reserveExpiration : Timestamp
  purseLimit : ℕ
  reservePub : ReservePub
  reserveSig : Signature
deriving DecidableEq, Repr

/-- A row of `select_reserve_closed_above_serial_id`. -/
structure ReserveClosedRow where
  rowid : ℕ
  executionDate : Timestamp
  amountWithFee : ℕ
  closingFee : ℕ
  reservePub : ReservePub
  receiverAccount : PaytoUri
  closeRequestRow : ℕ
deriving DecidableEq, Repr

/-- A row of `select_purse_decisions_above_serial_id`; there may be no merge. -/
structure PurseDecisionRow where
  rowid : ℕ
  pursePub : PursePub
  reservePub : Option ReservePub
  purseValue : ℕ
deriving DecidableEq, Repr

/-- A row of `select_account_merges_above_serial_id`. -/
structure AccountMergeRow where
  rowid : ℕ
  reservePub : ReservePub
  pursePub : PursePub
  hContractTerms : HashCode
  purseExpiration : Timestamp
  amount : ℕ
  minAge : ℕ
  flags : ℕ
  purseFee : ℕ
  mergeTimestamp : Timestamp
  reserveSig : Signature
deriving DecidableEq, Repr

/-- The tables that are audited, each in the order of its serials. -/
structure AuditRows where
  reservesIn : List ReserveInRow := []
  withdrawals : List WithdrawalRow := []
  recoups : List RecoupRow := []
  opens : List ReserveOpenRow := []
  closes : List ReserveClosedRow := []
  decisions : List PurseDecisionRow := []
  merges : List AccountMergeRow := []

/-- `struct TALER_EXCHANGEDB_DenominationKeyInformation`, as far as it is read. -/
structure DenominationIssue where
  start : Timestamp
  expireWithdraw : Timestamp
  value : ℕ
  feeWithdraw : ℕ
deriving DecidableEq, Repr

/-- Denominations, revocations (whether the master signature is valid, and the row), closing fees and
balances of the exchange, signature checks, the configuration, the time, and the order in which a hash
map is walked through. -/
structure ReserveAuditEnv where
  denomination : HashCode → Option DenominationIssue
  revocation : HashCode → Option (Bool × ℕ)
  closingFee : PaytoUri → Timestamp → Option ℕ
  reservesGet : ReservePub → Option ℕ
  withdrawVerify : WithdrawalRow → Bool
  recoupVerify : RecoupRow → Bool
  openVerify : ReserveOpenRow → Bool
  mergeVerify : AccountMergeRow → Bool
  idleReserveExpirationTime : Timestamp
  closingGracePeriod : Timestamp
  internalChecks : Bool
  now : Timestamp
  order : List ReservePub → List ReservePub
  order_perm : ∀ l, (order l).Perm l

/-- `flags & TALER_WAMF_MERGE_MODE_MASK`. -/
def mergeMode (flags : ℕ) : ℕ := flags % 4

/-- `TALER_WAMF_MODE_CREATE_WITH_PURSE_FEE`. -/
def modeCreateWithPurseFee : ℕ := 3

/-! ## What the auditor has -/

/-- `struct TALER_AUDITORDB_ReserveFeeBalance`. -/
structure ReserveFeeBalance where
  reserveBalance : ℕ := 0
  reserveLoss : ℕ := 0
  withdrawFeeBalance : ℕ := 0
  closeFeeBalance : ℕ := 0
  purseFeeBalance : ℕ := 0
  openFeeBalance : ℕ := 0
  historyFeeBalance : ℕ := 0
deriving DecidableEq, Repr

/-- A row of `auditor_reserves`. -/
structure ReserveInfo where
  balance : ReserveFeeBalance
  expirationDate : Timestamp
  originAccount : Option PaytoUri
deriving DecidableEq, Repr

/-- `struct ReserveSummary`. -/
structure ReserveSummary where
  reservePub : ReservePub
  totalIn : ℕ := 0
  totalOut : ℕ := 0
  currBalance : ReserveFeeBalance := {}
  prevBalance : ReserveFeeBalance := {}
  aExpirationDate : Timestamp := 0
  senderAccount : Option PaytoUri := none
  hadRi : Bool := false
deriving DecidableEq, Repr

/-- The balances that are tracked globally. -/
structure ReserveBalances where
  reserveTotalBalance : ℕ := 0
  reserveLoss : ℕ := 0
  withdrawFeeRevenue : ℕ := 0
  closeFeeRevenue : ℕ := 0
  purseFeeRevenue : ℕ := 0
  openFeeRevenue : ℕ := 0
  historyFeeRevenue : ℕ := 0
  totalBadSigLoss : ℕ := 0
  balanceReserveNotClosed : ℕ := 0
  arithmeticDeltaPlus : ℕ := 0
  arithmeticDeltaMinus : ℕ := 0
  summaryDeltaPlus : ℕ := 0
  summaryDeltaMinus : ℕ := 0
deriving DecidableEq, Repr

/-- The progress points: the next row of each table. -/
structure ReserveProgress where
  reserveIn : ℕ := 0
  reserveOut : ℕ := 0
  reserveRecoup : ℕ := 0
  reserveOpen : ℕ := 0
  reserveClose : ℕ := 0
  purseDecisions : ℕ := 0
  accountMerges : ℕ := 0
  historyRequests : ℕ := 0
deriving DecidableEq, Repr

/-- The inconsistencies that are reported. -/
inductive ReserveReport
  | row (table : String) (rowid : ℕ) (diagnostic : String)
  | amountArithmetic (operation : String) (rowid exchangeAmount auditorAmount : ℕ)
  | badSigLoss (operation : String) (rowid loss : ℕ)
  | denominationValidityWithdraw (rowid : ℕ)
  | balanceInsufficient (reservePub : ReservePub) (amount : ℕ) (gain : Bool)
  | balanceSummaryWrong (reservePub : ReservePub) (exchangeAmount auditorAmount : ℕ)
  | notClosed (reservePub : ReservePub) (balance : ℕ)
deriving DecidableEq, Repr

/-- The database of the auditor. -/
structure AuditorDb where
  reserves : ReservePub → Option ReserveInfo := fun _ => none
  balances : Option ReserveBalances := none
  progress : Option ReserveProgress := none
  reports : List ReserveReport := []

/-- What an analysis computes and stores: the globals of the process, `rc.reserves`, the database. -/
structure AuditBook where
  progress : ReserveProgress := {}
  balances : ReserveBalances := {}
  summaries : List ReserveSummary := []
  db : AuditorDb

/-- The process: the number of calls so far, whether one has failed whose status is looked at, the status
variables, whether it has crashed, whether a sum has ended it, the keys in the caches of the denominations
and of the revocations. -/
structure AuditRun where
  calls : ℕ := 0
  failed : Bool := false
  globalQs : QueryCode := 0
  rcQs : QueryCode := 1
  crashed : Bool := false
  exited : Bool := false
  denominations : Option (HashCode → Bool) := none
  revoked : HashCode → Bool := fun _ => false
  book : AuditBook

/-- The process has died. -/
def AuditRun.dead (s : AuditRun) : Bool := s.crashed || s.exited

abbrev Audit := StateM AuditRun

/-! ## Figures in range -/

/-- The fees and losses that are added up. -/
def ReserveFeeBalance.inRange (b : ReserveFeeBalance) : Bool :=
  b.reserveLoss < amountLimit ∧ b.withdrawFeeBalance < amountLimit ∧
    b.closeFeeBalance < amountLimit ∧ b.purseFeeBalance < amountLimit ∧
    b.openFeeBalance < amountLimit ∧ b.historyFeeBalance < amountLimit

def ReserveSummary.inRange (rs : ReserveSummary) : Bool :=
  rs.totalIn < amountLimit ∧ rs.totalOut < amountLimit ∧ rs.currBalance.inRange

def ReserveBalances.inRange (b : ReserveBalances) : Bool :=
  b.reserveTotalBalance < amountLimit ∧ b.reserveLoss < amountLimit ∧
    b.withdrawFeeRevenue < amountLimit ∧ b.closeFeeRevenue < amountLimit ∧
    b.purseFeeRevenue < amountLimit ∧ b.openFeeRevenue < amountLimit ∧
    b.historyFeeRevenue < amountLimit ∧ b.totalBadSigLoss < amountLimit ∧
    b.balanceReserveNotClosed < amountLimit ∧ b.arithmeticDeltaPlus < amountLimit ∧
    b.arithmeticDeltaMinus < amountLimit ∧ b.summaryDeltaPlus < amountLimit ∧
    b.summaryDeltaMinus < amountLimit

namespace AuditBook

/-- Every figure that is a sum is in range. -/
def inRange (b : AuditBook) : Bool := b.balances.inRange && b.summaries.all (·.inRange)

variable (b : AuditBook)

def report (r : ReserveReport) : AuditBook := { b with db.reports := b.db.reports ++ [r] }

/-- The summary of a reserve is changed. -/
def onSummary (r : ReservePub) (f : ReserveSummary → ReserveSummary) : AuditBook :=
  { b with summaries := b.summaries.map fun rs => if rs.reservePub = r then f rs else rs }

/-- A new summary, with what is remembered of the reserve. -/
def newSummary (r : ReservePub) : ReserveSummary :=
  match b.db.reserves r with
  | none => { reservePub := r }
  | some ri =>
    { reservePub := r
      prevBalance := ri.balance
      aExpirationDate := ri.expirationDate
      senderAccount := ri.originAccount
      hadRi := true }

def hasSummary (r : ReservePub) : Bool := b.summaries.any (·.reservePub = r)

end AuditBook

section Analysis

variable (o : CallKind → ℕ → Outcome) (env : ReserveAuditEnv)

/-- A call with `n` results. -/
def call (n : ℤ) : Audit QueryCode :=
  modifyGet fun s => ((o .checked s.calls).status n,
    { s with calls := s.calls + 1, failed := s.failed || o .checked s.calls ≠ .ok })

/-- A call with `n` results; an error is not told from another number of results. -/
def callUnchecked (n : ℤ) : Audit QueryCode :=
  modifyGet fun s => ((o .unchecked s.calls).status n, { s with calls := s.calls + 1 })

/-- The book is changed. `TALER_ARL_amount_add` stores its sum in a figure of the book, and ends the
process if it is out of range. -/
def onBook (f : AuditBook → AuditBook) : Audit Unit :=
  modify fun s => { s with book := f s.book, exited := s.exited || !(f s.book).inRange }

/-- `TALER_ARL_amount_add` into a variable. -/
def amountSum (a b : ℕ) : Audit ℕ :=
  modifyGet fun s => (a + b, { s with exited := s.exited || decide (amountLimit ≤ a + b) })

/-- A callback ends with an error: `rc->qs = qs; return GNUNET_SYSERR`. -/
def stopWith (qs : QueryCode) : Audit Bool := do
  modify fun s => { s with rcQs := qs }
  return false

/-- The process dies. -/
def crash : Audit Bool := do
  modify fun s => { s with crashed := true }
  return false

/-- `report_row_inconsistency`. -/
def reportRowInconsistency (table : String) (rowid : ℕ) (diagnostic : String) : Audit Unit := do
  let qs ← call o 1
  if qs < 0 then modify fun s => { s with globalQs := qs }
  else onBook (·.report (.row table rowid diagnostic))

/-- `if (global_qs < 0) return GNUNET_SYSERR`. -/
def globalOk : Audit Bool := do return !decide ((← get).globalQs < 0)

/-- `report_amount_arithmetic_inconsistency`, for differences that profit the exchange if `plus`. -/
def reportAmountArithmeticInconsistency (operation : String) (rowid exchangeAmount auditorAmount : ℕ)
    (profitable : ℤ) : Audit Unit := do
  let delta := if auditorAmount < exchangeAmount then exchangeAmount - auditorAmount
    else auditorAmount - exchangeAmount
  let profitable := if auditorAmount < exchangeAmount then profitable else -profitable
  let qs ← call o 1
  if qs < 0 then modify fun s => { s with globalQs := qs }
  else
    onBook (·.report (.amountArithmetic operation rowid exchangeAmount auditorAmount))
    if profitable = 1 then
      onBook fun b => { b with balances.arithmeticDeltaPlus := b.balances.arithmeticDeltaPlus + delta }
    else if profitable ≠ 0 then
      onBook fun b =>
        { b with balances.arithmeticDeltaMinus := b.balances.arithmeticDeltaMinus + delta }

/-- `TALER_ARL_get_denomination_info_by_hash`: the first use fills the cache. -/
def getDenominationInfo (h : HashCode) : Audit (QueryCode × Option DenominationIssue) := do
  if (← get).denominations.isNone then
    let qs ← call o 1
    if qs < 0 then
      modify fun s => { s with denominations := some fun _ => false }
      return (qs, none)
    modify fun s => { s with denominations := some fun h => (env.denomination h).isSome }
  if ((← get).denominations.getD fun _ => false) h then return (1, env.denomination h)
  let qs ← call o (if (env.denomination h).isSome then 1 else 0)
  if qs ≤ 0 then return (qs, none)
  modify fun s => { s with denominations := s.denominations.map fun d => Function.update d h true }
  return (1, env.denomination h)

/-- `setup_reserve`, `load_auditor_reserve_summary`: whether there is a summary. -/
def setupReserve (r : ReservePub) : Audit Bool := do
  if (← get).book.hasSummary r then return true
  let qs ← call o (if ((← get).book.db.reserves r).isSome then 1 else 0)
  if qs < 0 then return ← stopWith qs
  onBook fun b => { b with summaries := b.summaries ++ [b.newSummary r] }
  return true

/-! ## The callbacks -/

/-- `handle_reserve_in`. -/
def handleReserveIn (row : ReserveInRow) : Audit Bool := do
  onBook fun b => { b with progress.reserveIn := row.rowid + 1 }
  if !(← setupReserve o row.reservePub) then return false
  onBook (·.onSummary row.reservePub fun rs => { rs with
    senderAccount := rs.senderAccount <|> some row.senderAccount
    aExpirationDate := max rs.aExpirationDate (row.executionDate + env.idleReserveExpirationTime)
    totalIn := rs.totalIn + row.credit })
  return true

/-- A loss by an invalid signature; whether it could be reported. -/
def badSigLoss (operation : String) (rowid loss : ℕ) : Audit Bool := do
  let qs ← call o 1
  if qs < 0 then return ← stopWith qs
  onBook fun b => { b.report (.badSigLoss operation rowid loss) with
    balances.totalBadSigLoss := b.balances.totalBadSigLoss + loss }
  return true

/-- The check of `handle_reserve_out` that a coin was withdrawn when its denomination was valid. -/
def checkWithdrawTime (issue : DenominationIssue) (row : WithdrawalRow) : Audit Bool := do
  if row.executionDate < issue.start ∨ issue.expireWithdraw < row.executionDate then
    let qs ← call o 1
    if qs < 0 then return ← stopWith qs
    onBook (·.report (.denominationValidityWithdraw row.rowid))
  return true

/-- `handle_reserve_out`. -/
def handleReserveOut (row : WithdrawalRow) : Audit Bool := do
  onBook fun b => { b with progress.reserveOut := row.rowid + 1 }
  let (qs, issue) ← getDenominationInfo o env row.hDenomPub
  if qs < 0 then return ← stopWith qs
  match issue with
  | none =>
    reportRowInconsistency o "withdraw" row.rowid "denomination key not found"
    globalOk
  | some issue =>
    if !(← checkWithdrawTime o issue row) then return false
    if !env.withdrawVerify row then return ← badSigLoss o "withdraw" row.rowid row.amountWithFee
    let auditorAmountWithFee ← amountSum issue.value issue.feeWithdraw
    if auditorAmountWithFee ≠ row.amountWithFee then
      reportRowInconsistency o "withdraw" row.rowid
        "amount with fee from exchange does not match denomination value plus fee"
      if !(← globalOk) then return false
    if !(← setupReserve o row.reservePub) then return false
    onBook fun b => { b.onSummary row.reservePub fun rs => { rs with
        currBalance.withdrawFeeBalance := rs.currBalance.withdrawFeeBalance + issue.feeWithdraw
        totalOut := rs.totalOut + auditorAmountWithFee } with
      balances.withdrawFeeRevenue := b.balances.withdrawFeeRevenue + issue.feeWithdraw }
    return true

/-- The check of `handle_recoup_by_reserve` that the denomination was revoked. -/
def checkRevoked (row : RecoupRow) : Audit Bool := do
  let cached := (← get).revoked row.denomPubHash
  if !cached then
    let qs ← call o (if (env.revocation row.denomPubHash).isSome then 1 else 0)
    if qs < 0 then return ← stopWith qs
    if (env.revocation row.denomPubHash).isSome then
      modify fun s => { s with revoked := Function.update s.revoked row.denomPubHash true }
    else
      reportRowInconsistency o "recoup" row.rowid "denomination key not in revocation set"
      if !(← globalOk) then return false
      onBook fun b => { b with balances.reserveLoss := b.balances.reserveLoss + row.amount }
  match env.revocation row.denomPubHash with
  | some (false, revRowid) =>
    badSigLoss o "recoup-master" (if cached then 0 else revRowid) row.amount
  | _ => return true

/-- `handle_recoup_by_reserve`. -/
def handleRecoupByReserve (row : RecoupRow) : Audit Bool := do
  onBook fun b => { b with progress.reserveRecoup := row.rowid + 1 }
  if !env.recoupVerify row then
    if !(← badSigLoss o "recoup" row.rowid row.amount) then return false
  if !(← checkRevoked o env row) then return false
  if !(← setupReserve o row.reservePub) then return false
  onBook (·.onSummary row.reservePub fun rs => { rs with
    totalIn := rs.totalIn + row.amount
    aExpirationDate := max rs.aExpirationDate (row.timestamp + env.idleReserveExpirationTime) })
  return true

/-- `get_closing_fee`. -/
def getClosingFee (account : PaytoUri) (atime : Timestamp) : Audit (Option ℕ) := do
  let qs ← callUnchecked o (if (env.closingFee account atime).isSome then 1 else 0)
  if qs ≠ 1 then
    reportRowInconsistency o "closing-fee" atime.toNat "closing fee unavailable"
    return none
  return env.closingFee account atime

/-- `handle_reserve_open`. -/
def handleReserveOpen (row : ReserveOpenRow) : Audit Bool := do
  onBook fun b => { b with progress.reserveOpen := row.rowid + 1 }
  if !(← setupReserve o row.reservePub) then return false
  if !env.openVerify row then
    return ← badSigLoss o "reserve-open" row.rowid row.reservePayment
  onBook fun b => { b.onSummary row.reservePub fun rs => { rs with
      currBalance.openFeeBalance := rs.currBalance.openFeeBalance + row.reservePayment
      totalOut := rs.totalOut + row.reservePayment } with
    balances.openFeeRevenue := b.balances.openFeeRevenue + row.reservePayment }
  return true

/-- The account that a reserve was filled from, as far as its summary knows. -/
def AuditBook.senderAccount (b : AuditBook) (r : ReservePub) : Option PaytoUri :=
  (b.summaries.find? (·.reservePub = r)).bind (·.senderAccount)

/-- `handle_reserve_closed`. For a close that was requested it calls `select_reserve_close_request_info`,
which the plugin of the exchange's database does not have. -/
def handleReserveClosed (row : ReserveClosedRow) : Audit Bool := do
  onBook fun b => { b with progress.reserveClose := row.rowid + 1 }
  if !(← setupReserve o row.reservePub) then return false
  match ← getClosingFee o env row.receiverAccount row.executionDate with
  | none => pure ()
  | some expectedFee =>
    if expectedFee ≠ row.closingFee then
      reportAmountArithmeticInconsistency o "closing aggregation fee" row.rowid row.closingFee
        expectedFee 1
      if !(← globalOk) then return false
  onBook fun b => { b.onSummary row.reservePub fun rs => { rs with
      currBalance.closeFeeBalance := rs.currBalance.closeFeeBalance + row.closingFee
      totalOut := rs.totalOut + row.amountWithFee } with
    balances.closeFeeRevenue := b.balances.closeFeeRevenue + row.closingFee }
  if row.closeRequestRow ≠ 0 then return ← crash
  match (← get).book.senderAccount row.reservePub with
  | none =>
    reportRowInconsistency o "reserves_close" row.rowid
      "target account not verified, auditor does not know reserve"
    globalOk
  | some account =>
    if account ≠ row.receiverAccount then
      reportRowInconsistency o "reserves_close" row.rowid
        "target account does not match origin account"
      return ← globalOk
    return true

/-- `handle_account_merged`. -/
def handleAccountMerged (row : AccountMergeRow) : Audit Bool := do
  onBook fun b => { b with progress.accountMerges := row.rowid + 1 }
  if !env.mergeVerify row then return ← badSigLoss o "account-merge" row.rowid row.purseFee
  if mergeMode row.flags ≠ modeCreateWithPurseFee then return true
  if !(← setupReserve o row.reservePub) then return false
  onBook fun b => { b.onSummary row.reservePub fun rs => { rs with
      currBalance.purseFeeBalance := rs.currBalance.purseFeeBalance + row.purseFee
      totalOut := rs.totalOut + row.purseFee } with
    balances.purseFeeRevenue := b.balances.purseFeeRevenue + row.purseFee }
  return true

/-- `purse_decision_cb`. Without a merge there is no key to look up. -/
def purseDecisionCb (row : PurseDecisionRow) : Audit Bool := do
  onBook fun b => { b with progress.purseDecisions := row.rowid + 1 }
  match row.reservePub with
  | none => crash
  | some r =>
    if !(← setupReserve o r) then return false
    onBook (·.onSummary r fun rs => { rs with totalIn := rs.totalIn + row.purseValue })
    return true

/-! ## The balances -/

/-- The new balance of a reserve, `none` if it is negative. -/
def ReserveSummary.newBalance (rs : ReserveSummary) : Option ℕ :=
  if rs.totalOut ≤ rs.totalIn + rs.prevBalance.reserveBalance then
    some (rs.totalIn + rs.prevBalance.reserveBalance - rs.totalOut)
  else none

/-- The start of `verify_reserve_balance`: the balance is not negative. -/
def checkFunded (rs : ReserveSummary) : Audit (Option ReserveFeeBalance) := do
  let mbalance ← amountSum rs.totalIn rs.prevBalance.reserveBalance
  match rs.newBalance with
  | some nbalance => return some { rs.currBalance with reserveBalance := nbalance }
  | none =>
    let loss := rs.totalOut - mbalance
    let reserveLoss ← amountSum rs.prevBalance.reserveLoss loss
    onBook fun b => { b with balances.reserveLoss := b.balances.reserveLoss + loss }
    let qs ← call o 1
    if qs < 0 then
      let _ ← stopWith qs
      return none
    onBook (·.report (.balanceInsufficient rs.reservePub loss false))
    return some { rs.currBalance with
      reserveLoss := reserveLoss
      reserveBalance := 0 }

/-- The internal check: the exchange has the same balance. -/
def checkSummary (rs : ReserveSummary) (balance : ℕ) : Audit Bool := do
  let nbalance := rs.newBalance.getD 0
  let qs ← callUnchecked o (if (env.reservesGet rs.reservePub).isSome then 1 else 0)
  match if qs = 1 then env.reservesGet rs.reservePub else none with
  | none =>
    let qs ← call o 1
    if qs < 0 then return ← stopWith qs
    onBook (·.report (.balanceInsufficient rs.reservePub nbalance true))
    modify fun s => { s with rcQs := qs }
    return true
  | some exchangeBalance =>
    if balance = exchangeBalance then return true
    if exchangeBalance < balance then
      onBook fun b => { b with balances.summaryDeltaPlus :=
        b.balances.summaryDeltaPlus + (balance - exchangeBalance) }
    else
      onBook fun b => { b with balances.summaryDeltaMinus :=
        b.balances.summaryDeltaMinus + (exchangeBalance - balance) }
    let qs ← call o 1
    if qs < 0 then return ← stopWith qs
    onBook (·.report (.balanceInsufficient rs.reservePub nbalance true))
    let qs ← call o 1
    if qs < 0 then return ← stopWith qs
    onBook (·.report (.balanceSummaryWrong rs.reservePub exchangeBalance balance))
    return true

/-- The check that a reserve that has expired is closed, if the closing fee leaves something. A negative
balance cannot be compared. -/
def checkClosed (rs : ReserveSummary) : Audit Bool := do
  if env.now - rs.aExpirationDate ≤ env.closingGracePeriod then return true
  let cfee ← match rs.senderAccount with
    | none => pure none
    | some account => getClosingFee o env account rs.aExpirationDate
  match cfee, rs.newBalance with
  | some _, none => crash
  | some cfee, some nbalance =>
    if nbalance ≤ cfee then return true
    onBook fun b => { b with balances.balanceReserveNotClosed :=
      b.balances.balanceReserveNotClosed + nbalance }
    let qs ← call o 1
    if qs < 0 then return ← stopWith qs
    onBook (·.report (.notClosed rs.reservePub nbalance))
    return true
  | none, nbalance =>
    let qs ← call o 1
    if qs < 0 then return ← stopWith qs
    onBook (·.report (.notClosed rs.reservePub (nbalance.getD 0)))
    return true

/-- What is remembered of a reserve: the new balance, and the totals added up. -/
def ReserveFeeBalance.plus (prev curr : ReserveFeeBalance) : ReserveFeeBalance where
  reserveBalance := curr.reserveBalance
  reserveLoss := prev.reserveLoss + curr.reserveLoss
  withdrawFeeBalance := prev.withdrawFeeBalance + curr.withdrawFeeBalance
  closeFeeBalance := prev.closeFeeBalance + curr.closeFeeBalance
  purseFeeBalance := prev.purseFeeBalance + curr.purseFeeBalance
  openFeeBalance := prev.openFeeBalance + curr.openFeeBalance
  historyFeeBalance := prev.historyFeeBalance + curr.historyFeeBalance

/-- The new totals are added to the previous ones. -/
def addTotals (prev curr : ReserveFeeBalance) : Audit ReserveFeeBalance :=
  modifyGet fun s =>
    (prev.plus curr, { s with exited := s.exited || !(prev.plus curr).inRange })

/-- The update of the total balance: what came in first, then what went out. -/
def updateTotal (rs : ReserveSummary) : Audit Bool := do
  onBook fun b => { b with balances.reserveTotalBalance := b.balances.reserveTotalBalance + rs.totalIn }
  let total := (← get).book.balances.reserveTotalBalance
  if total < rs.totalOut then
    reportAmountArithmeticInconsistency o "global escrow balance" 0 total rs.totalOut 0
    if !(← globalOk) then return false
    onBook fun b => { b with balances.reserveTotalBalance := 0 }
  else
    onBook fun b => { b with balances.reserveTotalBalance := total - rs.totalOut }
  return true

/-- `auditor_update_reserve_info`: `close_fee_balance` is not among the columns. -/
def ReserveInfo.updated (ri : ReserveInfo) (rfb : ReserveFeeBalance) (expiration : Timestamp) :
    ReserveInfo :=
  { ri with
    balance := { rfb with closeFeeBalance := ri.balance.closeFeeBalance }
    expirationDate := expiration }

/-- The row of a reserve is inserted, updated or deleted. -/
def AuditBook.setReserve (b : AuditBook) (r : ReservePub) (ri : Option ReserveInfo) : AuditBook :=
  { b with db.reserves := Function.update b.db.reserves r ri }

/-- The end of `verify_reserve_balance`: a reserve with a balance is remembered. -/
def rememberReserve (rs : ReserveSummary) (balance : ReserveFeeBalance) : Audit Bool := do
  if balance.reserveBalance = 0 ∧ !rs.hadRi then return true
  let qs ← call o 1
  if qs ≤ 0 then return ← stopWith qs
  if balance.reserveBalance = 0 then onBook (·.setReserve rs.reservePub none)
  else if rs.hadRi then
    onBook fun b => b.setReserve rs.reservePub
      ((b.db.reserves rs.reservePub).map (·.updated balance rs.aExpirationDate))
  else
    onBook (·.setReserve rs.reservePub (some ⟨balance, rs.aExpirationDate, rs.senderAccount⟩))
  return true

/-- `verify_reserve_balance`. -/
def verifyReserveBalance (rs : ReserveSummary) : Audit Bool := do
  match ← checkFunded o rs with
  | none => return false
  | some curr =>
    if env.internalChecks then
      if !(← checkSummary o env rs curr.reserveBalance) then return false
    if !(← checkClosed o env rs) then return false
    let prev ← addTotals rs.prevBalance curr
    if !(← updateTotal o rs) then return false
    let ret ← rememberReserve o rs prev
    onBook fun b => { b with summaries := b.summaries.filter (·.reservePub ≠ rs.reservePub) }
    return ret

/-! ## The analysis -/

/-- A loop of callbacks; the first one that does not want to go on ends it. -/
def iterate {α : Type} (f : α → Audit Bool) : List α → Audit Unit
  | [] => pure ()
  | x :: xs => do
    if ← f x then iterate f xs

/-- A query, with a callback for every row. -/
def select {α : Type} (rows : List α) (f : α → Audit Bool) : Audit QueryCode := do
  let qs ← call o rows.length
  if 0 ≤ qs then iterate f rows
  return qs

/-- `CHECK_DB`: the status that ends the analysis, if any. -/
def checkDb (qs : QueryCode) : Audit (Option QueryCode) := do
  let s ← get
  return if qs < 0 then some qs else if s.globalQs < 0 then some s.globalQs
    else if s.rcQs < 0 then some s.rcQs else none

/-- The rows from a progress point on. -/
def rowsFrom {α : Type} (rowid : α → ℕ) (point : ℕ) (rows : List α) : List α :=
  rows.filter fun r => point ≤ rowid r

/-- The walk through `rc.reserves`. -/
def verifyAll : Audit Unit := do
  let summaries := (← get).book.summaries
  iterate (verifyReserveBalance o env) <|
    (env.order (summaries.map (·.reservePub))).filterMap fun r =>
      summaries.find? (·.reservePub = r)

/-- The progress points and the balances are loaded. -/
def loadProgress : Audit (Option QueryCode) := do
  modify fun s => { s with
    globalQs := 0
    rcQs := 1
    revoked := fun _ => false
    book := { s.book with summaries := [] } }
  let qs ← call o 8
  if qs < 0 then return some qs
  onBook fun b => { b with progress := b.db.progress.getD {} }
  let qs ← call o 13
  if qs < 0 then return some qs
  onBook fun b => { b with balances := b.db.balances.getD {} }
  return none

/-- The progress points and the balances are stored: inserted if there are none yet, then updated. -/
def storeProgress : Audit QueryCode := do
  let qs ← call o 1
  if qs < 0 then return qs
  onBook fun b => { b with db.balances := b.db.balances <|> some b.balances }
  let qs ← call o 1
  if qs < 0 then return qs
  onBook fun b => { b with db.balances := b.db.balances.map fun _ => b.balances }
  let qs ← call o 1
  if qs < 0 then return qs
  onBook fun b => { b with db.progress := b.db.progress <|> some b.progress }
  let qs ← call o 1
  if qs < 0 then return qs
  onBook fun b => { b with db.progress := b.db.progress.map fun _ => b.progress }
  return 1

/-- `analyze_reserves`. After the recoups the status of the query is returned, whatever the error. -/
def analyzeReserves (rows : AuditRows) : Audit QueryCode := do
  if let some qs ← loadProgress o then return qs
  let p := (← get).book.progress
  let qs ← select o (rowsFrom (fun r => r.rowid) p.reserveIn rows.reservesIn) (handleReserveIn o env)
  if let some e ← checkDb qs then return e
  let qs ← select o (rowsFrom (fun r => r.rowid) p.reserveOut rows.withdrawals) (handleReserveOut o env)
  if let some e ← checkDb qs then return e
  let qs ← select o (rowsFrom (fun r => r.rowid) p.reserveRecoup rows.recoups) (handleRecoupByReserve o env)
  if let some _ ← checkDb qs then return qs
  let qs ← select o (rowsFrom (fun r => r.rowid) p.reserveOpen rows.opens) (handleReserveOpen o env)
  if let some e ← checkDb qs then return e
  let qs ← select o (rowsFrom (fun r => r.rowid) p.reserveClose rows.closes) (handleReserveClosed o env)
  if let some e ← checkDb qs then return e
  let qs ← select o (rowsFrom (fun r => r.rowid) p.purseDecisions rows.decisions) (purseDecisionCb o)
  if let some e ← checkDb qs then return e
  let qs ← select o (rowsFrom (fun r => r.rowid) p.accountMerges rows.merges) (handleAccountMerged o env)
  if let some e ← checkDb qs then return e
  verifyAll o env
  if let some e ← checkDb qs then return e
  storeProgress o

end Analysis

end TalerExchange
