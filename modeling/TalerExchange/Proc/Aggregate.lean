import TalerExchange.Proc.Coin

/-!
# Aggregation

`TEH_PG_aggregate`: one query marks the batches of a merchant account that are due as done,
tracks them, and returns the sums of their deposits, their refunds and the deposit fees.
-/

namespace TalerExchange

open Sql

/-- The arguments of `TEH_PG_aggregate`; `now` is read from the clock and `shard` computed from
the merchant. -/
structure AggregateArgs where
  hPayto : HashCode
  merchantPub : MerchantPub
  wtid : ℕ
  now : Timestamp
  shard : ℤ
deriving DecidableEq, Repr

/-- The condition on `batch_deposits` of the query. -/
def AggregateArgs.selects (a : AggregateArgs) (b : BatchDeposit) : Bool :=
  !(b.done || b.policyBlocked) ∧ b.refundDeadline < a.now ∧ b.shard = a.shard ∧
    b.merchantPub = a.merchantPub ∧ b.wireTargetHPayto = a.hPayto

/-- `bdep`: the batches that are marked. -/
def aggregatedBatches (db : Database) (a : AggregateArgs) : List BatchDeposit :=
  db.batchDeposits.rows.filter a.selects

/-- `batch_deposit_serial_id IN (SELECT … FROM bdep)`. -/
def inAggregate (db : Database) (a : AggregateArgs) (n : ℕ) : Bool :=
  (aggregatedBatches db a).any fun b => b.batchDepositSerialId = n

/-- `cdep`: the coin deposits of these batches. -/
def aggregatedDeposits (db : Database) (a : AggregateArgs) : List CoinDeposit :=
  db.coinDeposits.rows.filter fun d => inAggregate db a d.batchDepositSerialId

/-- `ref`: the refunds of these batches. -/
def aggregatedRefunds (db : Database) (a : AggregateArgs) : List Refund :=
  db.refunds.rows.filter fun r =>
    (aggregatedDeposits db a).any (fun d => d.coinPub = r.coinPub) ∧
      inAggregate db a r.batchDepositSerialId

/-- `norm_ref_by_coin`: the refunds of one coin in one batch. -/
def refundByCoin (db : Database) (a : AggregateArgs) (c : CoinPub) (b : ℕ) : List Refund :=
  (aggregatedRefunds db a).filter fun r => r.coinPub = c ∧ r.batchDepositSerialId = b

/-- `c` is in `fully_refunded_coins`: some deposit of it equals the refunds in its batch. -/
def inFullyRefundedCoins (db : Database) (a : AggregateArgs) (c : CoinPub) : Bool :=
  (aggregatedDeposits db a).any fun d =>
    d.coinPub = c ∧ refundByCoin db a c d.batchDepositSerialId ≠ [] ∧
      (sumParts ((refundByCoin db a c d.batchDepositSerialId).map (·.amountWithFee))).normalize =
        d.amountWithFee.toTaler

/-- `fees`: the deposit fees of the deposits whose coin is not fully refunded. -/
def aggregatedFees (db : Database) (a : AggregateArgs) : List Amount :=
  ((aggregatedDeposits db a).filter fun d => !inFullyRefundedCoins db a d.coinPub).filterMap
    fun d => (db.denominationOf d.coinPub).map (·.feeDeposit)

/-- A sum as the C code assembles it, `none` where `TALER_amount_subtract` calls it invalid. -/
def assembleSum (s : TalerAmount) : Option Amount :=
  let v := s.frac.toNat / 100000000 + s.val.toNat
  if h : v ≤ 2 ^ 52 then some ⟨v, s.frac.toNat % 100000000, h, Nat.mod_lt _ (by norm_num)⟩ else none

/-- `INSERT INTO aggregation_tracking … SELECT … FROM bdep`. -/
def trackBatches (t : Table AggregationTracking) (wtid : ℕ) :
    List BatchDeposit → Exec (Table AggregationTracking)
  | [] => .ok t
  | b :: bs => do
    let t ← orUnique (t.insert? fun i => ⟨i, b.batchDepositSerialId, wtid⟩)
    trackBatches t wtid bs

/-- The total that `TEH_PG_aggregate` computes, `none` where one of its assertions fails. -/
def aggregateTotal (db : Database) (a : AggregateArgs) : Option Amount := do
  let deposit ← assembleSum (sumParts ((aggregatedDeposits db a).map (·.amountWithFee)))
  let refund ← assembleSum (sumParts ((aggregatedRefunds db a).map (·.amountWithFee)))
  let fee ← assembleSum (sumParts (aggregatedFees db a))
  let delta ← deposit.subtract? refund
  delta.subtract? fee

/-- `TEH_PG_aggregate`. -/
def aggregate (db : Database) (a : AggregateArgs) : Exec (Database × Amount) := do
  let t ← trackBatches db.aggregationTracking a.wtid (aggregatedBatches db a)
  match aggregateTotal db a with
  | none => .error .assertFailure
  | some total =>
    return ({ db with
      batchDeposits := db.batchDeposits.update a.selects fun b => { b with done := true }
      aggregationTracking := t }, total)

end TalerExchange
