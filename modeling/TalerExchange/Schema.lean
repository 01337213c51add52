import TalerExchange.Sql.Totals
import TalerExchange.Amount.Arith

/-!
# The exchange database

The tables that the coin, purse and reserve procedures read and write, one row type each with the
columns under their names in the schema. Fixed-length `BYTEA` columns (public keys, signatures,
hashes) are only ever compared, so they are numbers here; `INT8` times are integers.

* the rows and their `Record` instances: the unique key of a table is the one its
  `ON CONFLICT DO NOTHING` inserts run into;
* `HistoryTable`: the values of the column `table_name` of `coin_history` and `reserve_history`;
* `Database`: the tables; identity columns and unique keys hold in every value of this type.
-/

namespace TalerExchange

open Sql

abbrev CoinPub := ℕ
abbrev ReservePub := ℕ
abbrev PursePub := ℕ
abbrev MerchantPub := ℕ
abbrev Signature := ℕ
abbrev HashCode := ℕ
abbrev Timestamp := ℤ

/-! ## Coins -/

/-- `denominations`: the value and the fees of a kind of coin. -/
structure Denomination where
  denominationsSerial : ℕ
  denomPubHash : HashCode
  coin : Amount
  feeWithdraw : Amount
  feeDeposit : Amount
  feeRefresh : Amount
  feeRefund : Amount
deriving DecidableEq, Repr

instance : Record Denomination HashCode := ⟨Denomination.denomPubHash, Denomination.denominationsSerial⟩

/-- `known_coins`. -/
structure KnownCoin where
  knownCoinId : ℕ
  denominationsSerial : ℕ
  coinPub : CoinPub
  remaining : TalerAmount
deriving DecidableEq, Repr

instance : Record KnownCoin CoinPub := ⟨KnownCoin.coinPub, KnownCoin.knownCoinId⟩

/-- `batch_deposits`. -/
structure BatchDeposit where
  batchDepositSerialId : ℕ
  shard : ℤ
  merchantPub : MerchantPub
  merchantSig : Option Signature
  walletTimestamp : Timestamp
  exchangeTimestamp : Timestamp
  refundDeadline : Timestamp
  wireDeadline : Timestamp
  hContractTerms : HashCode
  walletDataHash : Option HashCode
  wireSalt : ℕ
  wireTargetHPayto : HashCode
  policyDetailsSerialId : Option ℕ
  policyBlocked : Bool
  done : Bool := false
deriving DecidableEq, Repr

instance : Record BatchDeposit (ℤ × MerchantPub × HashCode) :=
  ⟨fun r => (r.shard, r.merchantPub, r.hContractTerms), BatchDeposit.batchDepositSerialId⟩

/-- `coin_deposits`. -/
structure CoinDeposit where
  coinDepositSerialId : ℕ
  batchDepositSerialId : ℕ
  coinPub : CoinPub
  coinSig : Signature
  amountWithFee : Amount
deriving DecidableEq, Repr

instance : Record CoinDeposit (CoinPub × Signature) :=
  ⟨fun r => (r.coinPub, r.coinSig), CoinDeposit.coinDepositSerialId⟩

/-- `refunds`. -/
structure Refund where
  refundSerialId : ℕ
  batchDepositSerialId : ℕ
  coinPub : CoinPub
  merchantSig : Signature
  rtransactionId : ℤ
  amountWithFee : Amount
deriving DecidableEq, Repr

instance : Record Refund (ℕ × CoinPub × ℤ) :=
  ⟨fun r => (r.batchDepositSerialId, r.coinPub, r.rtransactionId), Refund.refundSerialId⟩

/-- `refresh_commitments`. -/
structure RefreshCommitment where
  meltSerialId : ℕ
  rc : HashCode
  oldCoinPub : CoinPub
  oldCoinSig : Signature
  amountWithFee : Amount
  noRevealIndex : ℤ
deriving DecidableEq, Repr

instance : Record RefreshCommitment HashCode :=
  ⟨RefreshCommitment.rc, RefreshCommitment.meltSerialId⟩

/-- `refresh_revealed_coins`: the fresh coins of a melt. -/
structure RefreshRevealedCoin where
  rrcSerial : ℕ
  meltSerialId : ℕ
  freshcoinIndex : ℤ
  denominationsSerial : ℕ
  hCoinEv : HashCode
deriving DecidableEq, Repr

instance : Record RefreshRevealedCoin (ℕ × ℤ) :=
  ⟨fun r => (r.meltSerialId, r.freshcoinIndex), RefreshRevealedCoin.rrcSerial⟩

/-- `recoup`: a coin emptied into the reserve it was withdrawn from. -/
structure Recoup where
  recoupUuid : ℕ
  coinPub : CoinPub
  coinSig : Signature
  coinBlind : ℕ
  amount : TalerAmount
  recoupTimestamp : Timestamp
  reserveOutSerialId : ℕ
deriving DecidableEq, Repr

instance : Record Recoup ℕ := ⟨Recoup.recoupUuid, Recoup.recoupUuid⟩

/-- `recoup_refresh`: a coin emptied into the coin it was refreshed from. -/
structure RecoupRefresh where
  recoupRefreshUuid : ℕ
  coinPub : CoinPub
  knownCoinId : ℕ
  coinSig : Signature
  coinBlind : ℕ
  amount : TalerAmount
  recoupTimestamp : Timestamp
  rrcSerial : ℕ
deriving DecidableEq, Repr

instance : Record RecoupRefresh ℕ :=
  ⟨RecoupRefresh.recoupRefreshUuid, RecoupRefresh.recoupRefreshUuid⟩

/-- `reserves_open_deposits`. -/
structure ReserveOpenDeposit where
  reserveOpenDepositUuid : ℕ
  reserveSig : Signature
  reservePub : ReservePub
  coinPub : CoinPub
  coinSig : Signature
  contribution : Amount
deriving DecidableEq, Repr

instance : Record ReserveOpenDeposit (CoinPub × Signature) :=
  ⟨fun r => (r.coinPub, r.coinSig), ReserveOpenDeposit.reserveOpenDepositUuid⟩

/-! ## Purses -/

/-- `partners`: exchanges that wads are sent to. -/
structure Partner where
  partnerSerialId : ℕ
  partnerMasterPub : ℕ
  startDate : Timestamp
  endDate : Timestamp
  partnerBaseUrl : String
deriving DecidableEq, Repr

instance : Record Partner (ℕ × Timestamp) :=
  ⟨fun r => (r.partnerMasterPub, r.startDate), Partner.partnerSerialId⟩

/-- `purse_requests`. -/
structure PurseRequest where
  purseRequestsSerialId : ℕ
  pursePub : PursePub
  mergePub : ℕ
  purseCreation : Timestamp
  purseExpiration : Timestamp
  hContractTerms : HashCode
  ageLimit : ℕ
  flags : ℕ
  inReserveQuota : Bool
  wasDecided : Bool := false
  amountWithFee : Amount
  purseFee : Amount
  balance : TalerAmount := TalerAmount.zero
  purseSig : Signature
deriving DecidableEq, Repr

instance : Record PurseRequest PursePub :=
  ⟨PurseRequest.pursePub, PurseRequest.purseRequestsSerialId⟩

/-- `purse_deposits`. -/
structure PurseDeposit where
  purseDepositSerialId : ℕ
  partnerSerialId : Option ℕ
  pursePub : PursePub
  coinPub : CoinPub
  amountWithFee : Amount
  coinSig : Signature
deriving DecidableEq, Repr

instance : Record PurseDeposit (PursePub × CoinPub) :=
  ⟨fun r => (r.pursePub, r.coinPub), PurseDeposit.purseDepositSerialId⟩

/-- `purse_decision`: how a purse ended. -/
structure PurseDecision where
  purseDecisionSerialId : ℕ
  pursePub : PursePub
  actionTimestamp : Timestamp
  refunded : Bool
deriving DecidableEq, Repr

instance : Record PurseDecision PursePub :=
  ⟨PurseDecision.pursePub, PurseDecision.purseDecisionSerialId⟩

/-- `purse_merges`: the reserve a purse is to be merged into. -/
structure PurseMerge where
  purseMergeRequestSerialId : ℕ
  partnerSerialId : Option ℕ
  reservePub : ReservePub
  pursePub : PursePub
  mergeSig : Signature
  mergeTimestamp : Timestamp
deriving DecidableEq, Repr

instance : Record PurseMerge PursePub :=
  ⟨PurseMerge.pursePub, PurseMerge.purseMergeRequestSerialId⟩

/-- `account_merges`. -/
structure AccountMerge where
  accountMergeRequestSerialId : ℕ
  reservePub : ReservePub
  reserveSig : Signature
  pursePub : PursePub
  walletHPayto : HashCode
deriving DecidableEq, Repr

instance : Record AccountMerge PursePub :=
  ⟨AccountMerge.pursePub, AccountMerge.accountMergeRequestSerialId⟩

/-- `purse_deletion`: no unique key besides the identity. -/
structure PurseDeletion where
  purseDeletionSerialId : ℕ
  pursePub : PursePub
  purseSig : Signature
deriving DecidableEq, Repr

instance : Record PurseDeletion ℕ :=
  ⟨PurseDeletion.purseDeletionSerialId, PurseDeletion.purseDeletionSerialId⟩

/-- `purse_actions`, without an identity column in the schema. -/
structure PurseAction where
  row : ℕ
  pursePub : PursePub
  actionDate : Timestamp
  partnerSerialId : Option ℕ := none
deriving DecidableEq, Repr

instance : Record PurseAction PursePub := ⟨PurseAction.pursePub, PurseAction.row⟩

/-! ## Reserves -/

/-- `reserves`. -/
structure Reserve where
  reserveUuid : ℕ
  reservePub : ReservePub
  currentBalance : TalerAmount := TalerAmount.zero
  pursesActive : ℤ := 0
  pursesAllowed : ℤ := 0
  birthday : ℤ := 0
  expirationDate : Timestamp
  gcDate : Timestamp
deriving DecidableEq, Repr

instance : Record Reserve ReservePub := ⟨Reserve.reservePub, Reserve.reserveUuid⟩

/-- `reserves_in`: the primary key is the reserve. -/
structure ReserveIn where
  reserveInSerialId : ℕ
  reservePub : ReservePub
  wireReference : ℤ
  credit : Amount
  wireSourceHPayto : HashCode
  exchangeAccountSection : String
  executionDate : Timestamp
deriving DecidableEq, Repr

instance : Record ReserveIn ReservePub := ⟨ReserveIn.reservePub, ReserveIn.reserveInSerialId⟩

/-- `reserves_out`. -/
structure ReserveOut where
  reserveOutSerialId : ℕ
  hBlindEv : HashCode
  denominationsSerial : ℕ
  denomSig : Signature
  reserveUuid : ℕ
  reserveSig : Signature
  executionDate : Timestamp
  amountWithFee : Amount
deriving DecidableEq, Repr

instance : Record ReserveOut HashCode := ⟨ReserveOut.hBlindEv, ReserveOut.reserveOutSerialId⟩

/-- `age_withdraw`: the primary key is the commitment alone. The arrays `h_blind_evs`,
`denom_serials` and `denom_sigs`, of one length by a check of the table, are one list. -/
structure AgeWithdraw where
  ageWithdrawId : ℕ
  hCommitment : HashCode
  maxAge : ℕ
  amountWithFee : Amount
  reservePub : ReservePub
  reserveSig : Signature
  noRevealIndex : ℕ
  planchets : List (HashCode × ℕ × Signature)
deriving DecidableEq, Repr

instance : Record AgeWithdraw HashCode := ⟨AgeWithdraw.hCommitment, AgeWithdraw.ageWithdrawId⟩

/-- `reserves_close`. -/
structure ReserveClose where
  closeUuid : ℕ
  reservePub : ReservePub
  executionDate : Timestamp
  wtid : ℕ
  wireTargetHPayto : HashCode
  amount : Amount
  closingFee : Amount
  closeRequestRow : ℕ
deriving DecidableEq, Repr

instance : Record ReserveClose ℕ := ⟨ReserveClose.closeUuid, ReserveClose.closeUuid⟩

/-- `close_requests`. -/
structure CloseRequest where
  closeRequestSerialId : ℕ
  reservePub : ReservePub
  closeTimestamp : Timestamp
  reserveSig : Signature
  close : Amount
  closeFee : Amount
  paytoUri : String
  done : Bool := false
deriving DecidableEq, Repr

instance : Record CloseRequest (ReservePub × Timestamp) :=
  ⟨fun r => (r.reservePub, r.closeTimestamp), CloseRequest.closeRequestSerialId⟩

/-- `reserves_open_requests`. -/
structure ReserveOpenRequest where
  openRequestUuid : ℕ
  reservePub : ReservePub
  requestTimestamp : Timestamp
  expirationDate : Timestamp
  reserveSig : Signature
  reservePayment : Amount
  requestedPurseLimit : ℤ
deriving DecidableEq, Repr

instance : Record ReserveOpenRequest (ReservePub × Timestamp) :=
  ⟨fun r => (r.reservePub, r.requestTimestamp), ReserveOpenRequest.openRequestUuid⟩

/-- `wire_targets`. -/
structure WireTarget where
  wireTargetSerialId : ℕ
  wireTargetHPayto : HashCode
  hNormalizedPayto : HashCode
  paytoUri : String
deriving DecidableEq, Repr

instance : Record WireTarget HashCode := ⟨WireTarget.wireTargetHPayto, WireTarget.wireTargetSerialId⟩

/-- `aggregation_tracking`. -/
structure AggregationTracking where
  aggregationSerialId : ℕ
  batchDepositSerialId : ℕ
  wtidRaw : ℕ
deriving DecidableEq, Repr

instance : Record AggregationTracking ℕ :=
  ⟨AggregationTracking.batchDepositSerialId, AggregationTracking.aggregationSerialId⟩

/-! ## Histories -/

/-- The column `table_name` of the two histories. -/
inductive HistoryTable
  | coinDeposits
  | refunds
  | refreshCommitments
  | recoup
  | recoupRefreshNew
  | recoupRefreshOld
  | purseDeposits
  | purseDecision
  | reservesOpenDeposits
  | reservesIn
  | reservesOut
  | reservesClose
  | closeRequests
  | reservesOpenRequests
deriving DecidableEq, Repr

/-- `coin_history`: a pointer to a row that affected a coin. -/
structure CoinHistory where
  coinHistorySerialId : ℕ
  coinPub : CoinPub
  tableName : HistoryTable
  serialId : ℕ
deriving DecidableEq, Repr

instance : Record CoinHistory (CoinPub × HistoryTable × ℕ) :=
  ⟨fun r => (r.coinPub, r.tableName, r.serialId), CoinHistory.coinHistorySerialId⟩

/-- `reserve_history`: a pointer to a row that affected a reserve. -/
structure ReserveHistory where
  reserveHistorySerialId : ℕ
  reservePub : ReservePub
  tableName : HistoryTable
  serialId : ℕ
deriving DecidableEq, Repr

instance : Record ReserveHistory (ReservePub × HistoryTable × ℕ) :=
  ⟨fun r => (r.reservePub, r.tableName, r.serialId), ReserveHistory.reserveHistorySerialId⟩

/-! ## The database -/

/-- The tables that a coin's balance and history depend on. -/
structure CoinTables where
  denominations : Table Denomination := Table.empty
  knownCoins : Table KnownCoin := Table.empty
  coinHistory : Table CoinHistory := Table.empty
  batchDeposits : Table BatchDeposit := Table.empty
  coinDeposits : Table CoinDeposit := Table.empty
  refunds : Table Refund := Table.empty
  refreshCommitments : Table RefreshCommitment := Table.empty
  refreshRevealedCoins : Table RefreshRevealedCoin := Table.empty
  recoup : Table Recoup := Table.empty
  recoupRefresh : Table RecoupRefresh := Table.empty
  reservesOpenDeposits : Table ReserveOpenDeposit := Table.empty
  purseDeposits : Table PurseDeposit := Table.empty
  purseDecision : Table PurseDecision := Table.empty

/-- The other tables about purses. -/
structure PurseTables where
  partners : Table Partner := Table.empty
  purseRequests : Table PurseRequest := Table.empty
  purseMerges : Table PurseMerge := Table.empty
  accountMerges : Table AccountMerge := Table.empty
  purseDeletion : Table PurseDeletion := Table.empty
  purseActions : Table PurseAction := Table.empty

/-- The tables about reserves. -/
structure ReserveTables where
  reserves : Table Reserve := Table.empty
  reserveHistory : Table ReserveHistory := Table.empty
  reservesIn : Table ReserveIn := Table.empty
  reservesOut : Table ReserveOut := Table.empty
  ageWithdraw : Table AgeWithdraw := Table.empty
  reservesClose : Table ReserveClose := Table.empty
  closeRequests : Table CloseRequest := Table.empty
  reservesOpenRequests : Table ReserveOpenRequest := Table.empty

/-- The tables about wire transfers. -/
structure WireTables where
  wireTargets : Table WireTarget := Table.empty
  aggregationTracking : Table AggregationTracking := Table.empty

/-- **The database.** -/
structure Database extends CoinTables, PurseTables, ReserveTables, WireTables

/-- The database after `exchange-dbinit`. -/
def Database.empty : Database := {}

/-- The denomination of a known coin (`JOIN denominations USING (denominations_serial)`). -/
def CoinTables.denominationOf (db : CoinTables) (c : CoinPub) : Option Denomination := do
  let kc ← db.knownCoins.lookup c
  db.denominations.lookupSerial kc.denominationsSerial

end TalerExchange
