import TalerExchange.Proc.Statements

/-!
# The coin procedures

`exchange_do_deposit`, `exchange_do_refund`, `exchange_do_melt`,
`exchange_do_reserve_open_deposit` and `exchange_do_recoup_to_coin`, each with its arguments and
its `OUT` parameters under their names, and the inserts that make denominations, coins and revealed
coins known.

`IF NOT NULL in_cs_rms` in `exchange_do_melt` is the operator `NOT` on `NULL` with an alias and
thus never true, so the branch that locks the nonce is not taken.
-/

namespace TalerExchange

open Sql

/-! ## Denominations and coins -/

/-- A denomination as the administrator announces it. -/
structure DenominationArgs where
  denomPubHash : HashCode
  coin : Amount
  feeWithdraw : Amount
  feeDeposit : Amount
  feeRefresh : Amount
  feeRefund : Amount
deriving DecidableEq, Repr

/-- The row of a denomination. -/
def DenominationArgs.row (a : DenominationArgs) (i : ℕ) : Denomination :=
  ⟨i, a.denomPubHash, a.coin, a.feeWithdraw, a.feeDeposit, a.feeRefresh, a.feeRefund⟩

/-- `TEH_PG_insert_denomination_info`. -/
def insertDenominationInfo (db : Database) (a : DenominationArgs) : Exec Database := do
  let t ← orUnique (db.denominations.insert? a.row)
  return { db with denominations := t }

/-- `TEH_PG_ensure_coin_known`: a new coin starts with the value of its denomination; `false` if
the coin is known with another denomination. -/
def ensureCoinKnown (db : Database) (c : CoinPub) (h : HashCode) : Exec (Database × Bool) :=
  match db.denominations.lookup h with
  | none => .error .assertFailure
  | some d =>
    match db.knownCoins.insert? fun i => ⟨i, d.denominationsSerial, c, d.coin⟩ with
    | some t => .ok ({ db with knownCoins := t }, true)
    | none => .ok (db, (db.knownCoins.lookup c).any
        fun kc => kc.denominationsSerial = d.denominationsSerial)

/-! ## `exchange_do_deposit` -/

/-- One coin of a batch deposit. -/
structure DepositedCoin where
  coinPub : CoinPub
  coinSig : Signature
  amountWithFee : Amount
deriving DecidableEq, Repr

/-- The arguments of `exchange_do_deposit`; the three arrays are one list. -/
structure DepositArgs where
  shard : ℤ
  merchantPub : MerchantPub
  merchantSig : Option Signature
  walletTimestamp : Timestamp
  exchangeTimestamp : Timestamp
  refundDeadline : Timestamp
  wireDeadline : Timestamp
  hContractTerms : HashCode
  walletDataHash : Option HashCode
  wireSalt : ℕ
  wireTargetHPayto : HashCode
  hNormalizedPayto : HashCode
  policyDetailsSerialId : Option ℕ
  policyBlocked : Bool
  receiverWireAccount : String
  coins : List DepositedCoin
deriving DecidableEq, Repr

/-- The row of `batch_deposits` for the arguments. -/
def DepositArgs.row (a : DepositArgs) (i : ℕ) : BatchDeposit where
  batchDepositSerialId := i
  shard := a.shard
  merchantPub := a.merchantPub
  merchantSig := a.merchantSig
  walletTimestamp := a.walletTimestamp
  exchangeTimestamp := a.exchangeTimestamp
  refundDeadline := a.refundDeadline
  wireDeadline := a.wireDeadline
  hContractTerms := a.hContractTerms
  walletDataHash := a.walletDataHash
  wireSalt := a.wireSalt
  wireTargetHPayto := a.wireTargetHPayto
  policyDetailsSerialId := a.policyDetailsSerialId
  policyBlocked := a.policyBlocked

/-- The idempotency check on an existing batch. -/
def DepositArgs.matches (a : DepositArgs) (b : BatchDeposit) : Bool :=
  b.wireTargetHPayto = a.wireTargetHPayto ∧ b.walletDataHash = a.walletDataHash ∧
    b.wireSalt = a.wireSalt ∧ b.walletTimestamp = a.walletTimestamp ∧
    b.refundDeadline = a.refundDeadline ∧ b.wireDeadline = a.wireDeadline ∧
    b.policyDetailsSerialId = a.policyDetailsSerialId

/-- The `OUT` parameters of `exchange_do_deposit`. -/
structure DepositOut where
  exchangeTimestamp : Option Timestamp
  insufficientBalanceCoinIndex : Option ℕ
  conflict : Bool
deriving DecidableEq, Repr

/-- `INSERT INTO coin_deposits … ON CONFLICT DO NOTHING`. -/
def insertCoinDeposit (db : Database) (bdsi : ℕ) (c : DepositedCoin) : Exec (Option Database) :=
  match db.coinDeposits.insert? fun i => ⟨i, bdsi, c.coinPub, c.coinSig, c.amountWithFee⟩ with
  | none => .ok none
  | some t => do
    let n := db.coinDeposits.nextSerial
    require (db.knownCoins.hasKey c.coinPub)
    return some (← { db with coinDeposits := t }.addCoinHistory c.coinPub .coinDeposits n)

/-- The loop over the coins: the index of the coin with too little left, if any. -/
def depositCoins (db : Database) (bdsi : ℕ) : ℕ → List DepositedCoin → Exec (Database × Option ℕ)
  | _, [] => .ok (db, none)
  | i, c :: cs => do
    match ← insertCoinDeposit db bdsi c with
    | none => depositCoins db bdsi (i + 1) cs
    | some db =>
      match db.debitCoin c.coinPub c.amountWithFee with
      | none => return (db, some i)
      | some db => depositCoins db bdsi (i + 1) cs

/-- The deposits into batch `bdsi`; a loop up to `array_length` of an empty array raises. -/
def depositBatch (db : Database) (bdsi : ℕ) (ts : Option Timestamp) (cs : List DepositedCoin) :
    Exec (Database × DepositOut) :=
  if cs = [] then .error .nullLoopBound
  else do
    let (db, bad) ← depositCoins db bdsi 0 cs
    return (db, ⟨ts, bad, false⟩)

/-- `exchange_do_deposit`. -/
def exchangeDoDeposit (db : Database) (a : DepositArgs) : Exec (Database × DepositOut) :=
  let db := db.addWireTarget a.wireTargetHPayto a.hNormalizedPayto a.receiverWireAccount
  match db.batchDeposits.insert? a.row with
  | some t => depositBatch { db with batchDeposits := t } db.batchDeposits.nextSerial none a.coins
  | none =>
    match db.batchDeposits.lookup (a.shard, a.merchantPub, a.hContractTerms) with
    | some b =>
      if a.matches b then
        depositBatch db b.batchDepositSerialId (some b.exchangeTimestamp) a.coins
      else .ok (db, ⟨none, none, true⟩)
    | none => .ok (db, ⟨none, none, true⟩)

/-! ## `exchange_do_refund` -/

/-- The arguments of `exchange_do_refund`. -/
structure RefundArgs where
  amountWithFee : Amount
  amount : Amount
  depositFee : Amount
  hContractTerms : HashCode
  rtransactionId : ℤ
  depositShard : ℤ
  coinPub : CoinPub
  merchantPub : MerchantPub
  merchantSig : Signature
deriving DecidableEq, Repr

/-- The `OUT` parameters of `exchange_do_refund`. -/
structure RefundOut where
  notFound : Bool
  refundOk : Bool
  gone : Bool
  conflict : Bool
deriving DecidableEq, Repr

/-- The deposit of coin `c` in batch `b`; of several the one that was stored first. -/
def CoinTables.depositIn (db : CoinTables) (c : CoinPub) (b : ℕ) : Option CoinDeposit :=
  db.coinDeposits.rows.find? fun d => d.coinPub = c ∧ d.batchDepositSerialId = b

/-- The refunds of coin `c` in batch `b`: sums of the integer parts and of the fractions. -/
def CoinTables.refundSums (db : CoinTables) (c : CoinPub) (b : ℕ) : TalerAmount :=
  sumParts ((db.refunds.rows.filter fun r => r.coinPub = c ∧ r.batchDepositSerialId = b).map
    (·.amountWithFee))

/-- The row of `refunds` for the arguments. -/
def RefundArgs.row (a : RefundArgs) (bdsi i : ℕ) : Refund :=
  ⟨i, bdsi, a.coinPub, a.merchantSig, a.rtransactionId, a.amountWithFee⟩

/-- The amount to credit: with the deposit fee when the refunds reach the deposit. -/
def RefundArgs.credit (a : RefundArgs) (sum deposit : TalerAmount) : TalerAmount :=
  if sum.val = deposit.val ∧ sum.frac = deposit.frac then
    (a.amount.toTaler.addRaw a.depositFee).normalize
  else a.amount

/-- The check that the deposit suffices for the refunds. -/
def refundFits (sum deposit : TalerAmount) : Bool :=
  sum.val < deposit.val ∨ (sum.val = deposit.val ∧ sum.frac ≤ deposit.frac)

/-- `exchange_do_refund`. -/
def exchangeDoRefund (db : Database) (a : RefundArgs) : Exec (Database × RefundOut) :=
  match db.batchDeposits.lookup (a.depositShard, a.merchantPub, a.hContractTerms) with
  | none => .ok (db, ⟨true, false, false, false⟩)
  | some b =>
    match db.depositIn a.coinPub b.batchDepositSerialId with
    | none => .ok (db, ⟨true, false, false, false⟩)
    | some d =>
      match db.refunds.insert? (a.row b.batchDepositSerialId) with
      | none =>
        match db.refunds.lookup (b.batchDepositSerialId, a.coinPub, a.rtransactionId) with
        | some r =>
          if r.amountWithFee = a.amountWithFee then .ok (db, ⟨false, true, false, false⟩)
          else .ok (db, ⟨false, false, b.done, true⟩)
        | none => .ok (db, ⟨false, false, b.done, true⟩)
      | some t => do
        let n := db.refunds.nextSerial
        require (db.knownCoins.hasKey a.coinPub)
        let db ← { db with refunds := t }.addCoinHistory a.coinPub .refunds n
        if b.done then return (db, ⟨false, false, true, false⟩)
        let sum := (db.refundSums a.coinPub b.batchDepositSerialId).normalize
        let deposit := d.amountWithFee.toTaler
        return (db.creditCoin a.coinPub (a.credit sum deposit),
          ⟨false, refundFits sum deposit, false, false⟩)

/-! ## `exchange_do_melt` -/

/-- The arguments of `exchange_do_melt`. -/
structure MeltArgs where
  amountWithFee : Amount
  rc : HashCode
  oldCoinPub : CoinPub
  oldCoinSig : Signature
  noRevealIndex : ℤ
  zombieRequired : Bool
deriving DecidableEq, Repr

/-- The `OUT` parameters of `exchange_do_melt`. -/
structure MeltOut where
  balanceOk : Bool
  zombieBad : Bool
  noRevealIndex : Option ℤ
deriving DecidableEq, Repr

/-- The row of `refresh_commitments` for the arguments. -/
def MeltArgs.row (a : MeltArgs) (i : ℕ) : RefreshCommitment :=
  ⟨i, a.rc, a.oldCoinPub, a.oldCoinSig, a.amountWithFee, a.noRevealIndex⟩

/-- The coin that a revealed coin was refreshed from. -/
def CoinTables.oldCoinOf (db : CoinTables) (rrcSerial : ℕ) : Option CoinPub := do
  let rrc ← db.refreshRevealedCoins.lookupSerial rrcSerial
  let melt ← db.refreshCommitments.lookupSerial rrc.meltSerialId
  return melt.oldCoinPub

/-- A coin refreshed from `c` has been recouped. -/
def CoinTables.isZombie (db : CoinTables) (c : CoinPub) : Bool :=
  db.recoupRefresh.rows.any fun r => db.oldCoinOf r.rrcSerial = some c

/-- `exchange_do_melt`. -/
def exchangeDoMelt (db : Database) (a : MeltArgs) : Exec (Database × MeltOut) :=
  match db.refreshCommitments.insert? a.row with
  | none =>
    match db.refreshCommitments.lookup a.rc with
    | some m => .ok (db, ⟨true, false, some m.noRevealIndex⟩)
    | none => .ok (db, ⟨false, false, none⟩)
  | some t => do
    let n := db.refreshCommitments.nextSerial
    require (db.knownCoins.hasKey a.oldCoinPub)
    let db ← { db with refreshCommitments := t }.addCoinHistory a.oldCoinPub .refreshCommitments n
    if a.zombieRequired && !db.isZombie a.oldCoinPub then return (db, ⟨false, true, none⟩)
    match db.debitCoin a.oldCoinPub a.amountWithFee with
    | none => return (db, ⟨false, false, some (-1)⟩)
    | some db => return (db, ⟨true, false, some a.noRevealIndex⟩)

/-- One coin of `TEH_PG_insert_refresh_reveal`. -/
structure RevealArgs where
  meltSerialId : ℕ
  freshcoinIndex : ℤ
  denominationsSerial : ℕ
  hCoinEv : HashCode
deriving DecidableEq, Repr

/-- `TEH_PG_insert_refresh_reveal` for one coin: `h_coin_ev` is unique as well. -/
def insertRefreshReveal (db : Database) (a : RevealArgs) : Exec Database :=
  if db.refreshRevealedCoins.rows.any fun r => r.hCoinEv = a.hCoinEv then .error .uniqueViolation
  else do
    let t ← orUnique (db.refreshRevealedCoins.insert? fun i =>
      ⟨i, a.meltSerialId, a.freshcoinIndex, a.denominationsSerial, a.hCoinEv⟩)
    require (db.refreshCommitments.lookupSerial a.meltSerialId).isSome
    require (db.denominations.lookupSerial a.denominationsSerial).isSome
    return { db with refreshRevealedCoins := t }

/-! ## `exchange_do_reserve_open_deposit` -/

/-- The arguments of `exchange_do_reserve_open_deposit`. -/
structure ReserveOpenDepositArgs where
  coinPub : CoinPub
  coinSig : Signature
  reserveSig : Signature
  reservePub : ReservePub
  coinTotal : Amount
deriving DecidableEq, Repr

/-- The row of `reserves_open_deposits` for the arguments. -/
def ReserveOpenDepositArgs.row (a : ReserveOpenDepositArgs) (i : ℕ) : ReserveOpenDeposit :=
  ⟨i, a.reserveSig, a.reservePub, a.coinPub, a.coinSig, a.coinTotal⟩

/-- `exchange_do_reserve_open_deposit`: the database and `out_insufficient_funds`. -/
def exchangeDoReserveOpenDeposit (db : Database) (a : ReserveOpenDepositArgs) :
    Exec (Database × Bool) :=
  match db.reservesOpenDeposits.insert? a.row with
  | none => .ok (db, false)
  | some t => do
    let n := db.reservesOpenDeposits.nextSerial
    let db ← { db with reservesOpenDeposits := t }.addCoinHistory a.coinPub .reservesOpenDeposits n
    match db.debitCoin a.coinPub a.coinTotal with
    | none => return (db, true)
    | some db => return (db, false)

/-! ## `exchange_do_recoup_to_coin` -/

/-- The arguments of `exchange_do_recoup_to_coin`. -/
structure RecoupToCoinArgs where
  oldCoinPub : CoinPub
  rrcSerial : ℕ
  coinBlind : ℕ
  coinPub : CoinPub
  knownCoinId : ℕ
  coinSig : Signature
  recoupTimestamp : Timestamp
deriving DecidableEq, Repr

/-- The `OUT` parameters of both recoup procedures. -/
structure RecoupOut where
  recoupOk : Bool
  internalFailure : Bool
  recoupTimestamp : Option Timestamp
deriving DecidableEq, Repr

/-- The row of `recoup_refresh` for the arguments and the amount recouped. -/
def RecoupToCoinArgs.row (a : RecoupToCoinArgs) (amount : TalerAmount) (i : ℕ) : RecoupRefresh :=
  ⟨i, a.coinPub, a.knownCoinId, a.coinSig, a.coinBlind, amount, a.recoupTimestamp, a.rrcSerial⟩

/-- `INSERT INTO recoup_refresh`; the trigger adds one entry for each of the two coins. -/
def insertRecoupRefresh (db : Database) (a : RecoupToCoinArgs) (amount : TalerAmount) :
    Exec Database := do
  let t ← orUnique (db.recoupRefresh.insert? (a.row amount))
  require (db.knownCoins.hasKey a.coinPub)
  require (db.knownCoins.lookupSerial a.knownCoinId).isSome
  require (db.refreshRevealedCoins.lookupSerial a.rrcSerial).isSome
  let n := db.recoupRefresh.nextSerial
  let db ← { db with recoupRefresh := t }.addCoinHistory a.coinPub .recoupRefreshNew n
  match db.oldCoinOf a.rrcSerial with
  | some old => db.addCoinHistory old .recoupRefreshOld n
  | none => return db

/-- `exchange_do_recoup_to_coin`. -/
def exchangeDoRecoupToCoin (db : Database) (a : RecoupToCoinArgs) : Exec (Database × RecoupOut) :=
  match db.knownCoins.lookup a.coinPub with
  | none => .ok (db, ⟨false, true, none⟩)
  | some kc =>
    let tmp := kc.remaining
    if tmp.val + tmp.frac = 0 then
      match db.recoupRefresh.rows.find? fun r => r.coinPub = a.coinPub with
      | some r => .ok (db, ⟨true, false, some r.recoupTimestamp⟩)
      | none => .ok (db, ⟨false, false, none⟩)
    else
      let db := { db with knownCoins := db.setRemaining a.coinPub fun _ => TalerAmount.zero }
      if db.knownCoins.hasKey a.oldCoinPub then do
        let db ← insertRecoupRefresh (db.creditCoin a.oldCoinPub tmp) a tmp
        return (db, ⟨true, false, some a.recoupTimestamp⟩)
      else .ok (db, ⟨true, true, none⟩)

end TalerExchange
