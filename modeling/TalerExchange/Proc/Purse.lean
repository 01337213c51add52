import TalerExchange.Proc.Statements

/-!
# The purse procedures

`TEH_PG_insert_purse_request` with its trigger, `exchange_do_purse_deposit`,
`exchange_do_purse_merge`, `exchange_do_reserve_purse`, `exchange_do_purse_delete` and
`exchange_do_expire_purse`.

`exchange_do_purse_deposit` and `exchange_do_purse_merge` release the purse quota through a
variable `my_purse_pub` that neither declares: the statement raises (`undefinedColumn`). Encrypted
contracts are not modelled; no balance depends on them.
-/

namespace TalerExchange

open Sql

/-! ## Purse requests -/

/-- The arguments of `TEH_PG_insert_purse_request`; `now` is read from the clock. -/
structure PurseRequestArgs where
  pursePub : PursePub
  mergePub : ℕ
  now : Timestamp
  purseExpiration : Timestamp
  hContractTerms : HashCode
  ageLimit : ℕ
  flags : ℕ
  inReserveQuota : Bool
  purseFee : Amount
  amount : Amount
  purseSig : Signature
deriving DecidableEq, Repr

/-- The row of `purse_requests` for the arguments. -/
def PurseRequestArgs.row (a : PurseRequestArgs) (i : ℕ) : PurseRequest where
  purseRequestsSerialId := i
  pursePub := a.pursePub
  mergePub := a.mergePub
  purseCreation := a.now
  purseExpiration := a.purseExpiration
  hContractTerms := a.hContractTerms
  ageLimit := a.ageLimit
  flags := a.flags
  inReserveQuota := a.inReserveQuota
  amountWithFee := a.amount
  purseFee := a.purseFee
  purseSig := a.purseSig

/-- What `TEH_PG_insert_purse_request` reports. -/
inductive PurseRequestStatus
  | inserted
  | identical
  | conflict
deriving DecidableEq, Repr

/-- `TEH_PG_insert_purse_request`; the trigger enters the expiration into `purse_actions`. -/
def insertPurseRequest (db : Database) (a : PurseRequestArgs) :
    Exec (Database × PurseRequestStatus) :=
  match db.purseRequests.insert? a.row with
  | some t => do
    let acts ← orUnique (db.purseActions.insert? fun i => ⟨i, a.pursePub, a.purseExpiration, none⟩)
    return ({ db with purseRequests := t, purseActions := acts }, .inserted)
  | none =>
    match db.purseRequests.lookup a.pursePub with
    | some r =>
      if r.ageLimit = a.ageLimit ∧ r.amountWithFee = a.amount ∧
          r.hContractTerms = a.hContractTerms ∧ r.mergePub = a.mergePub then
        .ok (db, .identical)
      else .ok (db, .conflict)
    | none => .error .assertFailure

/-! ## `exchange_do_purse_deposit` -/

/-- The arguments of `exchange_do_purse_deposit`. -/
structure PurseDepositArgs where
  partnerId : Option ℕ
  pursePub : PursePub
  amountWithFee : Amount
  coinPub : CoinPub
  coinSig : Signature
  amountWithoutFee : Amount
  reserveExpiration : Timestamp
  now : Timestamp
deriving DecidableEq, Repr

/-- The `OUT` parameters of `exchange_do_purse_deposit`. -/
structure PurseDepositOut where
  balanceOk : Bool
  late : Bool
  conflict : Bool
deriving DecidableEq, Repr

/-- The row of `purse_deposits` for the arguments. -/
def PurseDepositArgs.row (a : PurseDepositArgs) (i : ℕ) : PurseDeposit :=
  ⟨i, a.partnerId, a.pursePub, a.coinPub, a.amountWithFee, a.coinSig⟩

/-- `INSERT INTO purse_deposits … ON CONFLICT DO NOTHING`. -/
def insertPurseDeposit (db : Database) (a : PurseDepositArgs) : Exec (Option Database) :=
  match db.purseDeposits.insert? a.row with
  | none => .ok none
  | some t => do
    let n := db.purseDeposits.nextSerial
    require (a.partnerId.all fun i => (db.partners.lookupSerial i).isSome)
    require (db.knownCoins.hasKey a.coinPub)
    return some (← { db with purseDeposits := t }.addCoinHistory a.coinPub .purseDeposits n)

/-- The test of `exchange_do_purse_deposit` that a purse is full. -/
def PurseRequest.isFull (r : PurseRequest) : Bool :=
  ((r.amountWithFee.toTaler.val ≤ r.balance.val ∧ r.amountWithFee.toTaler.frac ≤ r.balance.frac) ∨
    r.amountWithFee.toTaler.val < r.balance.val)

/-- A reserve credited with a merge. -/
def Reserve.merged (x : Reserve) (amount : TalerAmount) (expiration : Timestamp) : Reserve :=
  { x with
    currentBalance := x.currentBalance.plus amount
    expirationDate := max x.expirationDate expiration
    gcDate := max x.gcDate expiration }

/-- A local merge credits the reserve, which is created if it does not exist. -/
def creditMergedReserve (db : Database) (r : ReservePub) (amount : TalerAmount)
    (expiration : Timestamp) : Database :=
  match db.reserves.insert? fun i => { reserveUuid := i, reservePub := r, currentBalance := amount,
                                        expirationDate := expiration, gcDate := expiration } with
  | some t => { db with reserves := t }
  | none =>
    { db with reserves := db.setReserve r fun x => x.merged amount expiration }

/-- `UPDATE purse_actions SET action_date=0, partner_serial_id=…`. -/
def scheduleWad (db : Database) (p : PursePub) (partner : ℕ) : Database :=
  { db with purseActions := db.purseActions.update (fun x => x.pursePub = p) fun x =>
      { x with actionDate := 0, partnerSerialId := some partner } }

/-- The end of `exchange_do_purse_deposit`: finish the merge if there is one and the purse has
become full. The result is `out_late`. -/
def finishMerge (db : Database) (a : PurseDepositArgs) : Exec (Database × Bool) :=
  match db.purseMerges.lookup a.pursePub with
  | none => .ok (db, false)
  | some m =>
    match db.purseRequests.lookup a.pursePub with
    | none => .ok (db, false)
    | some r =>
      if r.isFull then do
        match ← db.insertPurseDecision a.pursePub a.now false with
        | none => return (db, true)
        | some db =>
          if r.inReserveQuota then .error .undefinedColumn
          else if m.partnerSerialId.getD 0 ≠ 0 then
            return (scheduleWad db a.pursePub (m.partnerSerialId.getD 0), false)
          else
            return (creditMergedReserve db m.reservePub r.amountWithFee a.reserveExpiration, false)
      else .ok (db, false)

/-- The purse after a deposit. -/
def creditPurse (db : Database) (p : PursePub) (a : TalerAmount) : Database :=
  { db with purseRequests := db.setPurse p fun r => { r with balance := r.balance.plus a } }

/-- `exchange_do_purse_deposit`. -/
def exchangeDoPurseDeposit (db : Database) (a : PurseDepositArgs) :
    Exec (Database × PurseDepositOut) := do
  match ← insertPurseDeposit db a with
  | none =>
    match db.purseDeposits.lookup (a.pursePub, a.coinPub) with
    | some d =>
      if d.coinSig = a.coinSig then return (db, ⟨true, false, false⟩)
      else return (db, ⟨false, false, true⟩)
    | none => return (db, ⟨false, false, true⟩)
  | some db =>
    if db.isDeleted a.pursePub then
      return (db, ⟨false, true, false⟩)
    else
      match db.debitCoin a.coinPub a.amountWithFee with
      | none => return (db, ⟨false, false, false⟩)
      | some db =>
        let (db, late) ← finishMerge (creditPurse db a.pursePub a.amountWithoutFee) a
        return (db, ⟨true, late, false⟩)

/-! ## `exchange_do_purse_merge` -/

/-- The arguments of `exchange_do_purse_merge`. -/
structure PurseMergeArgs where
  pursePub : PursePub
  mergeSig : Signature
  mergeTimestamp : Timestamp
  reserveSig : Signature
  partnerUrl : Option String
  reservePub : ReservePub
  walletHPayto : HashCode
  expirationDate : Timestamp
deriving DecidableEq, Repr

/-- The `OUT` parameters of `exchange_do_purse_merge`. -/
structure PurseMergeOut where
  noPartner : Bool
  noBalance : Bool
  conflict : Bool
deriving DecidableEq, Repr

/-- A reserve that does not exist yet starts empty. -/
def initReserve (db : Database) (r : ReservePub) (expiration gc : Timestamp) : Database :=
  match db.reserves.insert? fun i => { reserveUuid := i, reservePub := r,
                                        expirationDate := expiration, gcDate := gc } with
  | some t => { db with reserves := t }
  | none => db

/-- The partner to send a wad to: `none` if the URL names no partner active at that time. -/
def findPartner (db : Database) (a : PurseMergeArgs) : Option (Option ℕ) :=
  match a.partnerUrl with
  | none => some none
  | some url =>
    (db.partners.rows.find? fun p =>
      p.partnerBaseUrl = url ∧ p.startDate ≤ a.mergeTimestamp ∧ p.endDate > a.mergeTimestamp).map
        fun p => some p.partnerSerialId

/-- The test of `exchange_do_purse_merge` that a purse is full. -/
def PurseRequest.isPaid (r : PurseRequest) : Bool :=
  r.balance.val ≥ r.amountWithFee.toTaler.val ∧
    (r.balance.frac ≥ r.amountWithFee.toTaler.frac ∨ r.balance.val > r.amountWithFee.toTaler.val)

/-- `INSERT INTO purse_merges … ON CONFLICT DO NOTHING`. -/
def insertPurseMerge (db : Database) (partner : Option ℕ) (r : ReservePub) (p : PursePub)
    (sig : Signature) (ts : Timestamp) : Exec (Option Database) :=
  match db.purseMerges.insert? fun i => ⟨i, partner, r, p, sig, ts⟩ with
  | none => .ok none
  | some t => do
    require (partner.all fun i => (db.partners.lookupSerial i).isSome)
    require (db.purseRequests.hasKey p)
    return some { db with purseMerges := t }

/-- `INSERT INTO account_merges`. -/
def insertAccountMerge (db : Database) (r : ReservePub) (sig : Signature) (p : PursePub)
    (hPayto : HashCode) : Exec Database := do
  let t ← orUnique (db.accountMerges.insert? fun i => ⟨i, r, sig, p, hPayto⟩)
  require (db.reserves.hasKey r)
  require (db.purseRequests.hasKey p)
  return { db with accountMerges := t }

/-- A merge request with this signature is recorded for the purse. -/
def mergeRecorded (db : Database) (p : PursePub) (sig : Signature) : Bool :=
  (db.purseMerges.lookup p).any fun m => m.mergeSig = sig

/-- The end of `exchange_do_purse_merge`, after the decision: quota, account merge, credit. -/
def creditMerge (db : Database) (a : PurseMergeArgs) (r : PurseRequest) (partner : Option ℕ) :
    Exec Database :=
  if r.inReserveQuota then .error .undefinedColumn
  else do
    let db ← insertAccountMerge db a.reservePub a.reserveSig a.pursePub a.walletHPayto
    -- `0 != NULL` is not true: without a partner the reserve is a local one
    if partner.getD 0 ≠ 0 then return scheduleWad db a.pursePub (partner.getD 0)
    else return { db with reserves := db.setReserve a.reservePub fun x =>
      { x with currentBalance :=
          x.currentBalance.plus (r.amountWithFee.toTaler.addRaw r.purseFee).normalize } }

/-- `exchange_do_purse_merge`. -/
def exchangeDoPurseMerge (db : Database) (a : PurseMergeArgs) : Exec (Database × PurseMergeOut) :=
  let db := initReserve db a.reservePub a.expirationDate a.expirationDate
  match findPartner db a with
  | none => .ok (db, ⟨true, false, false⟩)
  | some partner =>
    match db.purseRequests.lookup a.pursePub with
    | none => .ok (db, ⟨false, true, false⟩)
    | some r =>
      if r.isPaid then do
        match ← insertPurseMerge db partner a.reservePub a.pursePub a.mergeSig a.mergeTimestamp with
        | none => return (db, ⟨false, false, !mergeRecorded db a.pursePub a.mergeSig⟩)
        | some db =>
          match ← db.insertPurseDecision a.pursePub a.mergeTimestamp false with
          | none => return (db, ⟨false, false, true⟩)
          | some db => return (← creditMerge db a r partner, ⟨false, false, false⟩)
      else .ok (db, ⟨false, true, false⟩)

/-! ## `exchange_do_reserve_purse` -/

/-- The arguments of `exchange_do_reserve_purse`. -/
structure ReservePurseArgs where
  pursePub : PursePub
  mergeSig : Signature
  mergeTimestamp : Timestamp
  reserveExpiration : Timestamp
  reserveGc : Timestamp
  reserveSig : Signature
  reserveQuota : Bool
  purseFee : Amount
  reservePub : ReservePub
  walletHPayto : HashCode
deriving DecidableEq, Repr

/-- The `OUT` parameters of `exchange_do_reserve_purse`. -/
structure ReservePurseOut where
  noFunds : Bool
  noReserve : Bool
  conflict : Bool
deriving DecidableEq, Repr

/-- Pay for the purse from the quota or from the balance; `none` if neither suffices. -/
def payForPurse (db : Database) (a : ReservePurseArgs) : Option Database :=
  match db.reserves.lookup a.reservePub with
  | none =>
    if a.reserveQuota then none
    else if a.purseFee.toTaler.val ≠ 0 ∨ a.purseFee.toTaler.frac ≠ 0 then none
    else some (initReserve db a.reservePub a.reserveExpiration a.reserveGc)
  | some r =>
    if a.reserveQuota then
      if r.pursesActive < r.pursesAllowed then
        some { db with reserves := db.setReserve a.reservePub fun x =>
          { x with pursesActive := x.pursesActive + 1 } }
      else none
    else if r.currentBalance.covers a.purseFee then
      some { db with reserves := db.setReserve a.reservePub fun x =>
        { x with currentBalance := x.currentBalance.minus a.purseFee } }
    else none

/-- `exchange_do_reserve_purse`. -/
def exchangeDoReservePurse (db : Database) (a : ReservePurseArgs) :
    Exec (Database × ReservePurseOut) := do
  match ← insertPurseMerge db none a.reservePub a.pursePub a.mergeSig a.mergeTimestamp with
  | none => return (db, ⟨false, false, !mergeRecorded db a.pursePub a.mergeSig⟩)
  | some db =>
    let noReserve := !db.reserves.hasKey a.reservePub
    match payForPurse db a with
    | none => return (db, ⟨true, noReserve, false⟩)
    | some db =>
      let db ← insertAccountMerge db a.reservePub a.reserveSig a.pursePub a.walletHPayto
      return (db, ⟨false, noReserve, false⟩)

/-! ## `exchange_do_purse_delete` and `exchange_do_expire_purse` -/

/-- The arguments of `exchange_do_purse_delete`. -/
structure PurseDeleteArgs where
  pursePub : PursePub
  purseSig : Signature
  now : Timestamp
deriving DecidableEq, Repr

/-- The `OUT` parameters of `exchange_do_purse_delete`. -/
structure PurseDeleteOut where
  decided : Bool
  found : Bool
deriving DecidableEq, Repr

/-- Decide a purse as refunded: the decision, the quota and the coins. -/
def refundPurse (db : Database) (r : PurseRequest) (now : Timestamp) : Exec Database := do
  match ← db.insertPurseDecision r.pursePub now true with
  | none => .error .uniqueViolation
  | some db =>
    let db := { db with
      reserves := if r.inReserveQuota then db.releaseQuota r.pursePub else db.reserves }
    return db.restoreCoins (db.depositsOf r.pursePub)

/-- `exchange_do_purse_delete`. -/
def exchangeDoPurseDelete (db : Database) (a : PurseDeleteArgs) :
    Exec (Database × PurseDeleteOut) :=
  if db.purseDecision.hasKey a.pursePub then .ok (db, ⟨true, true⟩)
  else
    match db.purseRequests.lookup a.pursePub with
    | none => .ok (db, ⟨false, false⟩)
    | some r =>
      match db.purseDeletion.insert? fun i => ⟨i, a.pursePub, a.purseSig⟩ with
      | none => .ok (db, ⟨false, true⟩)
      | some t => do
        let db ← refundPurse { db with purseDeletion := t } r a.now
        return (db, ⟨false, true⟩)

/-- The arguments of `exchange_do_expire_purse`. -/
structure ExpirePurseArgs where
  startTime : Timestamp
  endTime : Timestamp
  now : Timestamp
deriving DecidableEq, Repr

/-- The undecided purse that expires first in the interval. -/
def expiringPurse (db : Database) (a : ExpirePurseArgs) : Option PurseRequest :=
  (db.purseRequests.rows.filter fun r =>
    a.startTime ≤ r.purseExpiration ∧ r.purseExpiration < a.endTime ∧ !r.wasDecided).minOn?
      PurseRequest.purseExpiration

/-- `exchange_do_expire_purse`: the database and `out_found`. -/
def exchangeDoExpirePurse (db : Database) (a : ExpirePurseArgs) : Exec (Database × Bool) :=
  match expiringPurse db a with
  | none => .ok (db, false)
  | some r => do
    let db ← refundPurse db r a.now
    return (db, true)

end TalerExchange
