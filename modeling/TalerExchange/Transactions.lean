import TalerExchange.Proc.Aggregate
import TalerExchange.Proc.Purse
import TalerExchange.Proc.Reserve
import TalerExchange.Transition.Path

/-!
# Transactions

What the exchange's processes do with the procedures: each operation is one request handler, run
as a transaction that is committed if it succeeds and rolled back if the procedure raises or
reports a failure. Requests of the wallet and the merchant, the closing, expiration and
aggregation daemons and the administrator are all operations, with any arguments, so a run of
`step` is any interleaving of them.

* `createPurse`, `reservePurse`, `batchWithdraw`, `ageWithdraw`: handlers that call several
  procedures in one transaction;
* `Op`, `transact`, `step`: the operations and what they leave in the database.
-/

namespace TalerExchange

open Sql Transition

/-- Commit a result that meets `ok`, roll back otherwise. -/
def commitIf {α : Type} (r : Exec (Database × α)) (ok : α → Bool) : Option Database :=
  match r with
  | .ok (db, out) => if ok out then some db else none
  | .error _ => none

theorem commitIf_eq_some {α : Type} {r : Exec (Database × α)} {ok : α → Bool} {db : Database} :
    commitIf r ok = some db ↔ ∃ out, r = .ok (db, out) ∧ ok out = true := by
  unfold commitIf
  match r with
  | .error e => exact ⟨fun h => (nomatch h), fun ⟨_, h, _⟩ => (nomatch h)⟩
  | .ok (db', out) =>
    by_cases h : ok out = true
    · simp only [h, if_true]
      exact ⟨fun e => ⟨out, by rw [Option.some.inj e], h⟩, fun ⟨_, e, _⟩ => by cases e; rfl⟩
    · simp only [h]
      exact ⟨fun e => (nomatch e), fun ⟨_, e, h'⟩ => by cases e; exact absurd h' h⟩

/-! ## Handlers -/

/-- The transaction's view of a purse deposit: `none` on any failure flag. -/
def depositIntoPurse (db : Database) (a : PurseDepositArgs) : Option Database :=
  commitIf (exchangeDoPurseDeposit db a) fun o => o.balanceOk && !o.late && !o.conflict

/-- The deposits of `create_transaction`. -/
def depositAllIntoPurse (db : Database) : List PurseDepositArgs → Option Database
  | [] => some db
  | a :: as => do
    let db ← depositIntoPurse db a
    depositAllIntoPurse db as

/-- The request that `/purses/$PID/create` stores: the purse fee is zero. -/
def PurseRequestArgs.byCoins (a : PurseRequestArgs) : PurseRequestArgs :=
  { a with purseFee := Amount.zero, inReserveQuota := false }

/-- A deposit into the purse of the request. -/
def PurseDepositArgs.into (d : PurseDepositArgs) (p : PursePub) : PurseDepositArgs :=
  { d with pursePub := p }

/-- `create_transaction` of `/purses/$PID/create`. A purse that exists with the same terms gets
the deposits. -/
def createPurse (db : Database) (a : PurseRequestArgs) (ds : List PurseDepositArgs) :
    Option Database :=
  match insertPurseRequest db a.byCoins with
  | .error _ => none
  | .ok (_, .conflict) => none
  | .ok (db, _) => depositAllIntoPurse db (ds.map (·.into a.pursePub))

/-- The request that `/reserves/$RID/purse` stores: without a fee it counts against the quota. -/
def PurseRequestArgs.byReserve (a : PurseRequestArgs) (fee : Option Amount) : PurseRequestArgs :=
  { a with purseFee := fee.getD Amount.zero, inReserveQuota := fee.isNone }

/-- The arguments for `exchange_do_reserve_purse` that go with a request. -/
def ReservePurseArgs.forRequest (b : ReservePurseArgs) (p : PursePub) (fee : Option Amount) :
    ReservePurseArgs :=
  { b with pursePub := p, reserveQuota := fee.isNone, purseFee := fee.getD Amount.zero }

/-- `purse_transaction` of `/reserves/$RID/purse`. A purse that exists with the same terms is left
as it is. -/
def reservePurse (db : Database) (a : PurseRequestArgs) (fee : Option Amount)
    (b : ReservePurseArgs) : Option Database :=
  match insertPurseRequest db (a.byReserve fee) with
  | .error _ => none
  | .ok (_, .conflict) => none
  | .ok (_, .identical) => none
  | .ok (db, .inserted) =>
    commitIf (exchangeDoReservePurse db (b.forRequest a.pursePub fee)) fun o =>
      !o.conflict && !o.noFunds &&
        !(o.noReserve && (fee.isNone || fee.getD Amount.zero ≠ Amount.zero))

/-- The planchets of `batch_withdraw_transaction`. -/
def withdrawAll (db : Database) (ruuid : ℕ) (now : Timestamp) : List PlanchetArgs → Option Database
  | [] => some db
  | x :: xs => do
    let db ← commitIf (exchangeDoBatchWithdrawInsert db ruuid now x) (!·)
    withdrawAll db ruuid now xs

/-- `batch_withdraw_transaction`. -/
def batchWithdraw (db : Database) (a : BatchWithdrawArgs) (xs : List PlanchetArgs) :
    Option Database :=
  let r := exchangeDoBatchWithdraw db a
  if r.2.reserveFound && r.2.ageOk && r.2.balanceOk then withdrawAll r.1 r.2.ruuid a.now xs
  else none

/-- `age_withdraw_transaction`: a conflict is rolled back only if the commitment is found for the
same reserve (`check_idempotency`). -/
def ageWithdraw (db : Database) (a : AgeWithdrawArgs) : Option Database :=
  let r := exchangeDoAgeWithdraw db a
  if r.2.reserveFound && r.2.ageOk && r.2.balanceOk then
    if r.2.conflict && (r.1.ageWithdraw.lookup a.hCommitment).any (·.reservePub = a.reservePub) then
      none
    else some r.1
  else none

/-! ## Operations -/

/-- A partner exchange as the administrator announces it. -/
structure PartnerArgs where
  partnerMasterPub : ℕ
  startDate : Timestamp
  endDate : Timestamp
  partnerBaseUrl : String
deriving DecidableEq, Repr

/-- The operations on the database. -/
inductive Op
  | denomination (a : DenominationArgs)
  | partner (a : PartnerArgs)
  | coin (c : CoinPub) (h : HashCode)
  | deposit (a : DepositArgs)
  | refund (a : RefundArgs)
  | melt (a : MeltArgs)
  | reveal (a : RevealArgs)
  | reserveOpenDeposit (a : ReserveOpenDepositArgs)
  | recoupToReserve (a : RecoupToReserveArgs)
  | recoupToCoin (a : RecoupToCoinArgs)
  | createPurse (a : PurseRequestArgs) (ds : List PurseDepositArgs)
  | purseDeposit (a : PurseDepositArgs)
  | purseMerge (a : PurseMergeArgs)
  | reservePurse (a : PurseRequestArgs) (fee : Option Amount) (b : ReservePurseArgs)
  | purseDelete (a : PurseDeleteArgs)
  | expirePurse (a : ExpirePurseArgs)
  | reservesIn (gc expiration : Timestamp) (xs : List ReserveInInfo)
  | batchWithdraw (a : BatchWithdrawArgs) (xs : List PlanchetArgs)
  | ageWithdraw (a : AgeWithdrawArgs)
  | reserveOpen (a : ReserveOpenArgs)
  | reserveClosed (a : ReserveClosedArgs)
  | closeRequest (a : CloseRequestArgs)
  | aggregate (a : AggregateArgs)

/-- `TEH_PG_insert_partner`. -/
def insertPartner (db : Database) (a : PartnerArgs) : Exec Database := do
  let t ← orUnique (db.partners.insert? fun i =>
    ⟨i, a.partnerMasterPub, a.startDate, a.endDate, a.partnerBaseUrl⟩)
  return { db with partners := t }

/-- The database that an operation commits, `none` if it is rolled back. -/
def transact (db : Database) : Op → Option Database
  | .denomination a => (insertDenominationInfo db a).toOption
  | .partner a => (insertPartner db a).toOption
  | .coin c h => commitIf (ensureCoinKnown db c h) id
  | .deposit a => commitIf (exchangeDoDeposit db a) fun o =>
      !o.conflict && o.insufficientBalanceCoinIndex.isNone
  | .refund a => commitIf (exchangeDoRefund db a) fun o =>
      !o.notFound && !o.conflict && !o.gone && o.refundOk
  | .melt a => commitIf (exchangeDoMelt db a) fun o => o.balanceOk && !o.zombieBad
  | .reveal a => (insertRefreshReveal db a).toOption
  | .reserveOpenDeposit a => commitIf (exchangeDoReserveOpenDeposit db a) (!·)
  | .recoupToReserve a => commitIf (exchangeDoRecoupToReserve db a) fun o =>
      o.recoupOk && !o.internalFailure
  | .recoupToCoin a => commitIf (exchangeDoRecoupToCoin db a) fun o =>
      o.recoupOk && !o.internalFailure
  | .createPurse a ds => TalerExchange.createPurse db a ds
  | .purseDeposit a => depositIntoPurse db a
  | .purseMerge a => commitIf (exchangeDoPurseMerge db a) fun o =>
      !o.noPartner && !o.noBalance && !o.conflict
  | .reservePurse a fee b => TalerExchange.reservePurse db a fee b
  | .purseDelete a => commitIf (exchangeDoPurseDelete db a) fun o => o.found && !o.decided
  | .expirePurse a => commitIf (exchangeDoExpirePurse db a) id
  | .reservesIn gc expiration xs => some (reservesInInsert db gc expiration xs).1
  | .batchWithdraw a xs => TalerExchange.batchWithdraw db a xs
  | .ageWithdraw a => TalerExchange.ageWithdraw db a
  | .reserveOpen a => commitIf (exchangeDoReserveOpen db a) fun o => !o.noReserve && !o.noFunds
  | .reserveClosed a => (insertReserveClosed db a).toOption
  | .closeRequest a => (insertCloseRequest db a).toOption
  | .aggregate a => commitIf (TalerExchange.aggregate db a) fun _ => true

/-- **One operation**: the database it commits, or the one before. -/
def step (db : Database) (o : Op) : Database := (transact db o).getD db

theorem step_eq (db : Database) (o : Op) :
    step db o = db ∨ transact db o = some (step db o) := by
  unfold step
  cases transact db o with
  | none => exact Or.inl rfl
  | some db' => exact Or.inr rfl

end TalerExchange
