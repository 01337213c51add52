import TalerExchange.Proc.Coin

/-!
# The reserve procedures

Wire transfers in (`exchange_do_array_reserves_insert`, `exchange_do_batch_reserves_update` and the
two transactions of `TEH_PG_reserves_in_insert` around them), withdrawals
(`exchange_do_batch_withdraw`, `exchange_do_batch_withdraw_insert`, `exchange_do_age_withdraw`),
`exchange_do_recoup_to_reserve`, `exchange_do_reserve_open`, `TEH_PG_insert_reserve_closed` and
`TEH_PG_insert_close_request`.

`IF NOT NULL cs_nonce` in `exchange_do_batch_withdraw_insert` is never true, as in
`exchange_do_melt`.
-/

namespace TalerExchange

open Sql

/-! ## Incoming wire transfers -/

/-- `struct TALER_EXCHANGEDB_ReserveInInfo`, with the hashes of the sender's account. -/
structure ReserveInInfo where
  reservePub : ReservePub
  balance : Amount
  executionTime : Timestamp
  hFullPayto : HashCode
  hNormalizedPayto : HashCode
  senderAccountDetails : String
  exchangeAccountName : String
  wireReference : ℤ
deriving DecidableEq, Repr

/-- The row of `reserves_in` for a transfer. -/
def ReserveInInfo.row (x : ReserveInInfo) (executionDate : Timestamp) (i : ℕ) : ReserveIn :=
  ⟨i, x.reservePub, x.wireReference, x.balance, x.hFullPayto, x.exchangeAccountName, executionDate⟩

/-- `INSERT INTO reserves_in … ON CONFLICT DO NOTHING`. -/
def insertReserveIn (db : Database) (x : ReserveInInfo) (executionDate : Timestamp) :
    Exec (Option Database) :=
  match db.reservesIn.insert? (x.row executionDate) with
  | none => .ok none
  | some t => do
    let n := db.reservesIn.nextSerial
    require (db.reserves.hasKey x.reservePub)
    require (db.wireTargets.hasKey x.hFullPayto)
    return some (← { db with reservesIn := t }.addReserveHistory x.reservePub .reservesIn n)

/-- One result of `exchange_do_array_reserves_insert`. -/
structure ArrayInsertResult where
  transactionDuplicate : Bool
  ruuid : Option ℕ
deriving DecidableEq, Repr

/-- The body of the loop of `exchange_do_array_reserves_insert`. -/
def arrayInsertOne (db : Database) (gc expiration : Timestamp) (x : ReserveInInfo) :
    Exec (Database × ArrayInsertResult) := do
  let db := db.addWireTarget x.hFullPayto x.hNormalizedPayto x.senderAccountDetails
  match db.reserves.insert? fun i => { reserveUuid := i, reservePub := x.reservePub,
                                        currentBalance := x.balance, expirationDate := expiration,
                                        gcDate := gc } with
  | some t =>
    let uuid := db.reserves.nextSerial
    let db := { db with reserves := t }
    match ← insertReserveIn db x x.executionTime with
    | none => return (db, ⟨false, some uuid⟩)
    | some db => return (db, ⟨false, some uuid⟩)
  | none =>
    match ← insertReserveIn db x x.executionTime with
    | none => return (db, ⟨true, none⟩)
    | some db => return (db, ⟨false, none⟩)

/-- The loop of `exchange_do_array_reserves_insert`. -/
def arrayInsertLoop (db : Database) (gc expiration : Timestamp) :
    List ReserveInInfo → Exec (Database × List ArrayInsertResult)
  | [] => .ok (db, [])
  | x :: xs => do
    let (db, r) ← arrayInsertOne db gc expiration x
    let (db, rs) ← arrayInsertLoop db gc expiration xs
    return (db, r :: rs)

/-- `exchange_do_array_reserves_insert`. -/
def exchangeDoArrayReservesInsert (db : Database) (gc expiration : Timestamp)
    (xs : List ReserveInInfo) : Exec (Database × List ArrayInsertResult) :=
  if xs = [] then .error .nullLoopBound else arrayInsertLoop db gc expiration xs

/-- `exchange_do_batch_reserves_update`: the database and `out_duplicate`. The execution date it
stores is the reserve's expiration, and a fraction that does not carry loses a unit. -/
def exchangeDoBatchReservesUpdate (db : Database) (expiration : Timestamp) (x : ReserveInInfo) :
    Exec (Database × Bool) := do
  match ← insertReserveIn db x expiration with
  | none => return (db, true)
  | some db =>
    let credit := x.balance.toTaler
    return ({ db with reserves := db.setReserve x.reservePub fun r =>
      { r with
        currentBalance :=
          { frac := r.currentBalance.frac + credit.frac -
              if r.currentBalance.frac + credit.frac ≥ 100000000 then 100000000 else 1
            val := r.currentBalance.val + credit.val +
              if r.currentBalance.frac + credit.frac ≥ 100000000 then 1 else 0 }
        expirationDate := max r.expirationDate expiration
        gcDate := max r.gcDate expiration } }, false)

/-- What is reported for a transfer: `GNUNET_DB_STATUS_SUCCESS_ONE_RESULT` or
`GNUNET_DB_STATUS_SUCCESS_NO_RESULTS`. -/
inductive ImportStatus
  | imported
  | duplicate
deriving DecidableEq, Repr

/-- The status after the first transaction. -/
def ArrayInsertResult.status (r : ArrayInsertResult) : ImportStatus :=
  if r.transactionDuplicate then .duplicate else .imported

/-- The loop of the second transaction. -/
def updateLoop (db : Database) (expiration : Timestamp) :
    List (ReserveInInfo × ArrayInsertResult) → Exec (Database × List ImportStatus)
  | [] => .ok (db, [])
  | (x, r) :: xs => do
    if r.transactionDuplicate || r.ruuid.isSome then
      let (db, ss) ← updateLoop db expiration xs
      return (db, r.status :: ss)
    else
      let (db, dup) ← exchangeDoBatchReservesUpdate db expiration x
      let (db, ss) ← updateLoop db expiration xs
      return (db, (if dup then .duplicate else .imported) :: ss)

/-- `TEH_PG_reserves_in_insert`: an array insert, committed, then the updates for reserves that
existed before, in a transaction of their own. -/
def reservesInInsert (db : Database) (gc expiration : Timestamp) (xs : List ReserveInInfo) :
    Database × Option (List ImportStatus) :=
  match exchangeDoArrayReservesInsert db gc expiration xs with
  | .error _ => (db, none)
  | .ok (db, rs) =>
    if rs.any fun r => !r.transactionDuplicate && r.ruuid.isNone then
      match updateLoop db expiration (xs.zip rs) with
      | .error _ => (db, some (rs.map ArrayInsertResult.status))
      | .ok (db, ss) => (db, some ss)
    else (db, some (rs.map ArrayInsertResult.status))

/-! ## Withdrawals -/

/-- The arguments of `exchange_do_batch_withdraw`. -/
structure BatchWithdrawArgs where
  amount : Amount
  reservePub : ReservePub
  now : Timestamp
  minReserveGc : Timestamp
  doAgeCheck : Bool
deriving DecidableEq, Repr

/-- The `OUT` parameters of `exchange_do_batch_withdraw` that the caller acts on. -/
structure BatchWithdrawOut where
  reserveFound : Bool
  balanceOk : Bool
  reserveBalance : TalerAmount
  ageOk : Bool
  ruuid : ℕ
deriving DecidableEq, Repr

/-- `exchange_do_batch_withdraw`. -/
def exchangeDoBatchWithdraw (db : Database) (a : BatchWithdrawArgs) :
    Database × BatchWithdrawOut :=
  match db.reserves.lookup a.reservePub with
  | none => (db, ⟨false, false, TalerAmount.zero, false, 2⟩)
  | some r =>
    if !a.doAgeCheck || r.birthday = 0 then
      match r.currentBalance.leftMinusRight a.amount with
      | none => (db, ⟨true, false, r.currentBalance, true, r.reserveUuid⟩)
      | some balance =>
        ({ db with reserves := db.setReserve a.reservePub fun x =>
            { x with gcDate := max a.minReserveGc r.gcDate, currentBalance := balance } },
          ⟨true, true, r.currentBalance, true, r.reserveUuid⟩)
    else (db, ⟨true, false, r.currentBalance, false, r.reserveUuid⟩)

/-- One planchet of a batch withdrawal. -/
structure PlanchetArgs where
  amount : Amount
  hDenomPub : HashCode
  reserveSig : Signature
  hCoinEnvelope : HashCode
  denomSig : Signature
deriving DecidableEq, Repr

/-- `exchange_do_batch_withdraw_insert`: the database and `out_conflict`. -/
def exchangeDoBatchWithdrawInsert (db : Database) (ruuid : ℕ) (now : Timestamp) (x : PlanchetArgs) :
    Exec (Database × Bool) :=
  match db.denominations.lookup x.hDenomPub with
  | none => .error .assertFailure
  | some d =>
    match db.reservesOut.insert? fun i => ⟨i, x.hCoinEnvelope, d.denominationsSerial, x.denomSig,
        ruuid, x.reserveSig, now, x.amount⟩ with
    | none => .ok (db, true)
    | some t =>
      match db.reserves.lookupSerial ruuid with
      | none => .error .foreignKeyViolation
      | some r => do
        let n := db.reservesOut.nextSerial
        let db ← { db with reservesOut := t }.addReserveHistory r.reservePub .reservesOut n
        return (db, false)

/-- The arguments of `exchange_do_age_withdraw`. `earliestDate` stands for
`current_date - make_interval(maximum_age_committed)`, in days. -/
structure AgeWithdrawArgs where
  amountWithFee : Amount
  reservePub : ReservePub
  reserveSig : Signature
  minReserveGc : Timestamp
  hCommitment : HashCode
  maximumAgeCommitted : ℕ
  earliestDate : ℤ
  noRevealIndex : ℕ
  planchets : List (HashCode × ℕ × Signature)
deriving DecidableEq, Repr

/-- The `OUT` parameters of `exchange_do_age_withdraw` that the caller acts on. -/
structure AgeWithdrawOut where
  reserveFound : Bool
  balanceOk : Bool
  reserveBalance : TalerAmount
  ageOk : Bool
  conflict : Bool
deriving DecidableEq, Repr

/-- The row of `age_withdraw` for the arguments. -/
def AgeWithdrawArgs.row (a : AgeWithdrawArgs) (i : ℕ) : AgeWithdraw :=
  ⟨i, a.hCommitment, a.maximumAgeCommitted, a.amountWithFee, a.reservePub, a.reserveSig,
    a.noRevealIndex, a.planchets⟩

/-- `exchange_do_age_withdraw`: the balance is reduced before the commitment is inserted. -/
def exchangeDoAgeWithdraw (db : Database) (a : AgeWithdrawArgs) : Database × AgeWithdrawOut :=
  match db.reserves.lookup a.reservePub with
  | none => (db, ⟨false, false, TalerAmount.zero, false, false⟩)
  | some r =>
    if r.birthday ≠ 0 ∧ a.earliestDate < r.birthday then
      (db, ⟨true, true, r.currentBalance, false, false⟩)
    else
      match r.currentBalance.leftMinusRight a.amountWithFee with
      | none => (db, ⟨true, false, r.currentBalance, true, false⟩)
      | some balance =>
        let db := { db with reserves := db.setReserve a.reservePub fun x =>
          { x with gcDate := max a.minReserveGc r.gcDate, currentBalance := balance } }
        match db.ageWithdraw.insert? a.row with
        | none => (db, ⟨true, true, r.currentBalance, true, true⟩)
        | some t => ({ db with ageWithdraw := t }, ⟨true, true, r.currentBalance, true, false⟩)

/-! ## `exchange_do_recoup_to_reserve` -/

/-- The arguments of `exchange_do_recoup_to_reserve`. -/
structure RecoupToReserveArgs where
  reservePub : ReservePub
  reserveOutSerialId : ℕ
  coinBlind : ℕ
  coinPub : CoinPub
  coinSig : Signature
  reserveGc : Timestamp
  reserveExpiration : Timestamp
  recoupTimestamp : Timestamp
deriving DecidableEq, Repr

/-- The row of `recoup` for the arguments and the amount recouped. -/
def RecoupToReserveArgs.row (a : RecoupToReserveArgs) (amount : TalerAmount) (i : ℕ) : Recoup :=
  ⟨i, a.coinPub, a.coinSig, a.coinBlind, amount, a.recoupTimestamp, a.reserveOutSerialId⟩

/-- The reserve that a withdrawal was made from (`JOIN reserves USING (reserve_uuid)`). -/
def ReserveTables.reserveOfOut (db : ReserveTables) (n : ℕ) : Option ReservePub := do
  let out ← db.reservesOut.lookupSerial n
  let r ← db.reserves.lookupSerial out.reserveUuid
  return r.reservePub

/-- `INSERT INTO recoup`; the trigger adds an entry for the coin and one for the reserve. -/
def insertRecoup (db : Database) (a : RecoupToReserveArgs) (amount : TalerAmount) :
    Exec Database := do
  let t ← orUnique (db.recoup.insert? (a.row amount))
  require (db.reservesOut.lookupSerial a.reserveOutSerialId).isSome
  require (db.knownCoins.hasKey a.coinPub)
  let n := db.recoup.nextSerial
  let db ← { db with recoup := t }.addCoinHistory a.coinPub .recoup n
  match db.reserveOfOut a.reserveOutSerialId with
  | some r => db.addReserveHistory r .recoup n
  | none => return db

/-- `exchange_do_recoup_to_reserve`. -/
def exchangeDoRecoupToReserve (db : Database) (a : RecoupToReserveArgs) :
    Exec (Database × RecoupOut) :=
  match db.knownCoins.lookup a.coinPub with
  | none => .ok (db, ⟨false, true, none⟩)
  | some kc =>
    let tmp := kc.remaining
    if tmp.val + tmp.frac = 0 then
      match db.recoup.rows.find? fun r => r.coinPub = a.coinPub with
      | some r => .ok (db, ⟨true, false, some r.recoupTimestamp⟩)
      | none => .ok (db, ⟨false, false, none⟩)
    else
      let db := { db with knownCoins := db.setRemaining a.coinPub fun _ => TalerAmount.zero }
      if db.reserves.hasKey a.reservePub then do
        let db := { db with reserves := db.setReserve a.reservePub fun r =>
          { r with
            currentBalance := r.currentBalance.plus tmp
            gcDate := max r.gcDate a.reserveGc
            expirationDate := max r.expirationDate a.reserveExpiration } }
        let db ← insertRecoup db a tmp
        return (db, ⟨true, false, some a.recoupTimestamp⟩)
      else .ok (db, ⟨true, true, none⟩)

/-! ## `exchange_do_reserve_open` -/

/-- The arguments of `exchange_do_reserve_open`. -/
structure ReserveOpenArgs where
  reservePub : ReservePub
  totalPaid : Amount
  reservePayment : Amount
  minPurseLimit : ℤ
  defaultPurseLimit : ℤ
  reserveSig : Signature
  desiredExpiration : Timestamp
  reserveGcDelay : ℤ
  now : Timestamp
  openFee : Amount
deriving DecidableEq, Repr

/-- The `OUT` parameters of `exchange_do_reserve_open`. -/
structure ReserveOpenOut where
  openCost : TalerAmount
  finalExpiration : Timestamp
  noReserve : Bool
  noFunds : Bool
  reserveBalance : TalerAmount
deriving DecidableEq, Repr

/-- The years to pay for, the new expiration and the new purse limit. -/
structure OpenTerms where
  years : ℤ
  expirationDate : Timestamp
  pursesAllowed : ℤ
deriving DecidableEq, Repr

/-- The terms from the desired expiration. -/
def ReserveOpenArgs.expirationTerms (a : ReserveOpenArgs) (r : Reserve) : OpenTerms :=
  let start := if r.expirationDate < a.now then a.now else r.expirationDate
  if start < a.desiredExpiration then
    let years := (31535999999999 + a.desiredExpiration - start).tdiv 31536000000000
    ⟨years, start + 31536000000000 * years, a.defaultPurseLimit⟩
  else ⟨0, start, r.pursesAllowed⟩

/-- The terms after more years for the purses requested. -/
def ReserveOpenArgs.terms (a : ReserveOpenArgs) (r : Reserve) : Exec OpenTerms :=
  let t := a.expirationTerms r
  if t.pursesAllowed < a.minPurseLimit then
    if a.defaultPurseLimit = 0 then .error .divisionByZero
    else
      let years := (31535999999999 + a.desiredExpiration - a.now).tdiv 31536000000000
      let more := (a.minPurseLimit + a.defaultPurseLimit - t.pursesAllowed - 1).tdiv
        a.defaultPurseLimit
      .ok ⟨years + more, a.now + 31536000000000 * years,
        t.pursesAllowed + a.defaultPurseLimit * more⟩
  else .ok t

/-- The annual fees for the terms. -/
def ReserveOpenArgs.cost (a : ReserveOpenArgs) (years : ℤ) : TalerAmount where
  val := years * a.openFee.toTaler.val + (years * a.openFee.toTaler.frac).tdiv 100000000
  frac := (years * a.openFee.toTaler.frac).tmod 100000000

/-- `exchange_do_reserve_open`. It takes the payment and stores no row of
`reserves_open_requests`. -/
def exchangeDoReserveOpen (db : Database) (a : ReserveOpenArgs) : Exec (Database × ReserveOpenOut) :=
  match db.reserves.lookup a.reservePub with
  | none => .ok (db, ⟨TalerAmount.zero, 0, true, true, TalerAmount.zero⟩)
  | some r => do
    let t ← a.terms r
    let cost := a.cost t.years
    if t.years ≤ 0 then
      return (db, ⟨TalerAmount.zero, r.expirationDate, false, false, r.currentBalance⟩)
    else if a.totalPaid.toTaler.val < cost.val ∨
        (a.totalPaid.toTaler.val = cost.val ∧ a.totalPaid.toTaler.frac < cost.frac) then
      return (db, ⟨cost, if r.expirationDate ≥ a.desiredExpiration then 0 else r.expirationDate,
        false, false, r.currentBalance⟩)
    else
      match r.currentBalance.leftMinusRight a.reservePayment with
      | none => return (db, ⟨cost, r.expirationDate, false, true, r.currentBalance⟩)
      | some balance =>
        return ({ db with reserves := db.setReserve a.reservePub fun x =>
            { x with
              currentBalance := balance
              gcDate := r.expirationDate + a.reserveGcDelay
              expirationDate := t.expirationDate
              pursesAllowed := t.pursesAllowed } },
          ⟨cost, t.expirationDate, false, false, r.currentBalance⟩)

/-! ## Closing -/

/-- The arguments of `TEH_PG_insert_reserve_closed`. -/
structure ReserveClosedArgs where
  reservePub : ReservePub
  executionDate : Timestamp
  hPayto : HashCode
  wtid : ℕ
  amountWithFee : Amount
  closingFee : Amount
  closeRequestRow : ℕ
deriving DecidableEq, Repr

/-- The row of `reserves_close` for the arguments. -/
def ReserveClosedArgs.row (a : ReserveClosedArgs) (i : ℕ) : ReserveClose :=
  ⟨i, a.reservePub, a.executionDate, a.wtid, a.hPayto, a.amountWithFee, a.closingFee,
    a.closeRequestRow⟩

/-- `TEH_PG_insert_reserve_closed`; the hard errors of the C code are `assertFailure`. -/
def insertReserveClosed (db : Database) (a : ReserveClosedArgs) : Exec Database := do
  let t ← orUnique (db.reservesClose.insert? a.row)
  require (db.reserves.hasKey a.reservePub)
  let n := db.reservesClose.nextSerial
  let db ← { db with reservesClose := t }.addReserveHistory a.reservePub .reservesClose n
  match db.reserves.lookup a.reservePub with
  | none => .error .assertFailure
  | some r =>
    match (Amount.ofTaler? r.currentBalance).bind fun b => b.subtract? a.amountWithFee with
    | none => .error .assertFailure
    | some balance =>
      return { db with reserves := db.setReserve a.reservePub fun x =>
        { x with currentBalance := balance } }

/-- The arguments of `TEH_PG_insert_close_request`. -/
structure CloseRequestArgs where
  reservePub : ReservePub
  paytoUri : String
  reserveSig : Signature
  requestTimestamp : Timestamp
  balance : Amount
  closingFee : Amount
deriving DecidableEq, Repr

/-- The row of `close_requests` for the arguments. -/
def CloseRequestArgs.row (a : CloseRequestArgs) (i : ℕ) : CloseRequest where
  closeRequestSerialId := i
  reservePub := a.reservePub
  closeTimestamp := a.requestTimestamp
  reserveSig := a.reserveSig
  close := a.balance
  closeFee := a.closingFee
  paytoUri := a.paytoUri

/-- `TEH_PG_insert_close_request`. -/
def insertCloseRequest (db : Database) (a : CloseRequestArgs) : Exec Database :=
  match db.closeRequests.insert? a.row with
  | none => .ok db
  | some t => do
    require (db.reserves.hasKey a.reservePub)
    let n := db.closeRequests.nextSerial
    { db with closeRequests := t }.addReserveHistory a.reservePub .closeRequests n

end TalerExchange
