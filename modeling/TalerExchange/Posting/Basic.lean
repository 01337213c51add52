import TalerExchange.Transactions

/-!
# Postings

The abstract view of the exchange's books: a *posting* is one entry that a committed transaction
makes, together with everything that changes with it. A deposit of three coins is a batch and three
coin deposits; a deposit that fills a merged purse is a purse deposit and a merge.

`Posts db p db'` says when posting `p` can be made and what it leaves. It lists all the writes of
the procedures, so that an invariant is proved once per posting and never by unfolding a procedure.
-/

namespace TalerExchange

open Sql

/-- The entries in the exchange's books. -/
inductive Posting
  | denomination (a : DenominationArgs)
  | partner (a : PartnerArgs)
  | coin (c : CoinPub) (d : Denomination)
  | wireTarget (hPayto hNormalized : HashCode) (uri : String)
  | batch (a : DepositArgs)
  | coinDeposit (bdsi : ℕ) (c : DepositedCoin)
  | refund (a : RefundArgs)
  | melt (a : MeltArgs)
  | reveal (a : RevealArgs)
  | openDeposit (a : ReserveOpenDepositArgs)
  | recoupToReserve (a : RecoupToReserveArgs)
  | recoupToCoin (a : RecoupToCoinArgs)
  | purseRequest (a : PurseRequestArgs)
  | reservePurse (a : PurseRequestArgs) (b : ReservePurseArgs)
  | purseDeposit (a : PurseDepositArgs)
  | finishMerge (a : PurseDepositArgs)
  | initReserve (r : ReservePub) (expiration : Timestamp)
  | purseMerge (a : PurseMergeArgs)
  | purseDeletion (a : PurseDeleteArgs)
  | purseRefund (p : PursePub)
  | importNew (x : ReserveInInfo)
  | importRow (x : ReserveInInfo)
  | importReserve (x : ReserveInInfo)
  | withdraw (a : BatchWithdrawArgs) (xs : List PlanchetArgs)
  | ageWithdraw (a : AgeWithdrawArgs)
  | ageDebit (a : AgeWithdrawArgs)
  | reserveOpen (a : ReserveOpenArgs)
  | reserveClosed (a : ReserveClosedArgs)
  | closeRequest (a : CloseRequestArgs)
  | aggregate (a : AggregateArgs)

/-- The planchets of a withdrawal are recorded one by one, each with its history entry. -/
inductive Withdrawn (db : Database) (r : Reserve) (now : Timestamp) :
    List PlanchetArgs → Table ReserveOut → Table ReserveHistory → Prop
  | nil : Withdrawn db r now [] db.reservesOut db.reserveHistory
  | snoc {xs : List PlanchetArgs} {x : PlanchetArgs} {d : Denomination}
      {ro ro' : Table ReserveOut} {rh rh' : Table ReserveHistory} :
      Withdrawn db r now xs ro rh → db.denominations.lookup x.hDenomPub = some d →
      ro.insert? (fun i => ⟨i, x.hCoinEnvelope, d.denominationsSerial, x.denomSig, r.reserveUuid,
        x.reserveSig, now, x.amount⟩) = some ro' →
      rh.insert? (fun i => ⟨i, r.reservePub, .reservesOut, ro.nextSerial⟩) = some rh' →
      Withdrawn db r now (xs ++ [x]) ro' rh'

/-- One entry for each coin of a list, in order. -/
inductive CoinEntries (t : HistoryTable) (n : ℕ) :
    Table CoinHistory → List CoinPub → Table CoinHistory → Prop
  | nil (h : Table CoinHistory) : CoinEntries t n h [] h
  | cons {h h₁ h₂ : Table CoinHistory} {c : CoinPub} {cs : List CoinPub} :
      h.insert? (fun i => ⟨i, c, t, n⟩) = some h₁ → CoinEntries t n h₁ cs h₂ →
      CoinEntries t n h (c :: cs) h₂

/-- An entry for a reserve that a join may not find. -/
def Database.reserveEntry (db : Database) (r : Option ReservePub) (t : HistoryTable) (n : ℕ) :
    Option (Table ReserveHistory) :=
  match r with
  | some r => db.reserveHistory.insert? fun i => ⟨i, r, t, n⟩
  | none => some db.reserveHistory

/-- An entry for a coin that a join may not find. -/
def coinEntry (h : Table CoinHistory) (c : Option CoinPub) (t : HistoryTable) (n : ℕ) :
    Option (Table CoinHistory) :=
  match c with
  | some c => h.insert? fun i => ⟨i, c, t, n⟩
  | none => some h

/-- `known_coins` after the coins of some purse deposits have got their money back. -/
def restored (t : Table KnownCoin) (ds : List PurseDeposit) : Table KnownCoin :=
  ds.foldl (fun t d => t.update (fun kc => kc.coinPub = d.coinPub) fun kc =>
    { kc with remaining := kc.remaining.plus d.amountWithFee }) t

theorem PurseRequest.key_decided (r : PurseRequest) :
    Record.key { r with wasDecided := true } = Record.key r := rfl

theorem PurseRequest.serial_decided (r : PurseRequest) :
    Record.serial { r with wasDecided := true } = Record.serial r := rfl

/-- A purse marked as decided. -/
def Database.markDecided (db : Database) (p : PursePub) : Table PurseRequest :=
  db.setPurse p (fun r => { r with wasDecided := true }) PurseRequest.key_decided
    PurseRequest.serial_decided

@[simp] theorem Database.hasKey_markDecided (db : Database) (p q : PursePub) :
    (db.markDecided p).hasKey q = db.purseRequests.hasKey q :=
  db.hasKey_setPurse ..

/-- The deposit fills a purse that is to be merged. -/
def PurseDepositArgs.fills (a : PurseDepositArgs) (db : Database) : Bool :=
  db.purseMerges.hasKey a.pursePub && (db.purseRequests.lookup a.pursePub).any fun r =>
    { r with balance := r.balance.plus a.amountWithoutFee }.isFull

theorem PurseDepositArgs.fills_iff {a : PurseDepositArgs} {db : Database} : a.fills db = true ↔
    ∃ m r, db.purseMerges.lookup a.pursePub = some m ∧ db.purseRequests.lookup a.pursePub = some r ∧
      { r with balance := r.balance.plus a.amountWithoutFee }.isFull = true := by
  unfold PurseDepositArgs.fills
  rw [Bool.and_eq_true, Option.any_eq_true]
  refine ⟨fun ⟨hk, r, hr, hf⟩ => ?_, fun ⟨m, r, hm, hr, hf⟩ => ⟨Table.hasKey_of_lookup hm, r, hr, hf⟩⟩
  obtain ⟨m, hm⟩ := Table.exists_lookup hk
  exact ⟨m, r, hm, hr, hf⟩

/-- A merge credits the local reserve, or schedules the transfer to a partner. -/
inductive Credits (db : Database) (partner : ℕ) (p : PursePub) (r : ReservePub)
    (amount : TalerAmount) : Table Reserve → Table PurseAction → Prop
  | wad (h : partner ≠ 0) :
      Credits db partner p r amount db.reserves (scheduleWad db p partner).purseActions
  | reserve (h : partner = 0) (f : Reserve → Reserve)
      (hk : ∀ x, Record.key (f x) = Record.key x) (hs : ∀ x, Record.serial (f x) = Record.serial x)
      (hf : ∀ x, (f x).currentBalance = x.currentBalance.plus amount ∧
        (f x).pursesActive = x.pursesActive ∧ (f x).pursesAllowed = x.pursesAllowed) :
      Credits db partner p r amount (db.setReserve r f hk hs) db.purseActions

/-- **When a posting can be made and what it leaves.** -/
inductive Posts : Database → Posting → Database → Prop
  | denomination {db : Database} {a : DenominationArgs} {t : Table Denomination} :
      db.denominations.insert? a.row = some t →
      Posts db (.denomination a) { db with denominations := t }
  | partner {db : Database} {a : PartnerArgs} {t : Table Partner} :
      db.partners.insert? (fun i => ⟨i, a.partnerMasterPub, a.startDate, a.endDate,
        a.partnerBaseUrl⟩) = some t →
      Posts db (.partner a) { db with partners := t }
  | coin {db : Database} {c : CoinPub} {d : Denomination} {t : Table KnownCoin} :
      d ∈ db.denominations.rows →
      db.knownCoins.insert? (fun i => ⟨i, d.denominationsSerial, c, d.coin⟩) = some t →
      Posts db (.coin c d) { db with knownCoins := t }
  | wireTarget {db : Database} (hPayto hNormalized : HashCode) (uri : String) :
      Posts db (.wireTarget hPayto hNormalized uri) (db.addWireTarget hPayto hNormalized uri)
  | batch {db : Database} {a : DepositArgs} {t : Table BatchDeposit} :
      db.batchDeposits.insert? a.row = some t →
      Posts db (.batch a) { db with batchDeposits := t }
  | coinDeposit {db : Database} {bdsi : ℕ} {c : DepositedCoin} {t : Table CoinDeposit}
      {h : Table CoinHistory} {kc : KnownCoin} :
      db.coinDeposits.insert? (fun i => ⟨i, bdsi, c.coinPub, c.coinSig, c.amountWithFee⟩) = some t →
      db.coinHistory.insert? (fun i => ⟨i, c.coinPub, .coinDeposits, db.coinDeposits.nextSerial⟩) =
        some h →
      (∃ b ∈ db.batchDeposits.rows, b.batchDepositSerialId = bdsi) →
      db.knownCoins.lookup c.coinPub = some kc → kc.remaining.covers c.amountWithFee = true →
      Posts db (.coinDeposit bdsi c) { db with
        coinDeposits := t
        coinHistory := h
        knownCoins := db.setRemaining c.coinPub (·.minus c.amountWithFee) }
  | refund {db : Database} {a : RefundArgs} {b : BatchDeposit} {d : CoinDeposit} {t : Table Refund}
      {h : Table CoinHistory} {sum : TalerAmount} :
      db.batchDeposits.lookup (a.depositShard, a.merchantPub, a.hContractTerms) = some b →
      b.done = false → db.knownCoins.hasKey a.coinPub = true →
      db.depositIn a.coinPub b.batchDepositSerialId = some d →
      db.refunds.insert? (a.row b.batchDepositSerialId) = some t →
      db.coinHistory.insert? (fun i => ⟨i, a.coinPub, .refunds, db.refunds.nextSerial⟩) = some h →
      sum = ({ db with refunds := t }.refundSums a.coinPub b.batchDepositSerialId).normalize →
      refundFits sum d.amountWithFee = true →
      Posts db (.refund a) { db with
        refunds := t
        coinHistory := h
        knownCoins := db.setRemaining a.coinPub (·.plus (a.credit sum d.amountWithFee)) }
  | melt {db : Database} {a : MeltArgs} {t : Table RefreshCommitment} {h : Table CoinHistory}
      {kc : KnownCoin} :
      db.refreshCommitments.insert? a.row = some t →
      db.coinHistory.insert? (fun i =>
        ⟨i, a.oldCoinPub, .refreshCommitments, db.refreshCommitments.nextSerial⟩) = some h →
      db.knownCoins.lookup a.oldCoinPub = some kc → kc.remaining.covers a.amountWithFee = true →
      Posts db (.melt a) { db with
        refreshCommitments := t
        coinHistory := h
        knownCoins := db.setRemaining a.oldCoinPub (·.minus a.amountWithFee) }
  | reveal {db : Database} {a : RevealArgs} {t : Table RefreshRevealedCoin} :
      db.refreshRevealedCoins.insert? (fun i =>
        ⟨i, a.meltSerialId, a.freshcoinIndex, a.denominationsSerial, a.hCoinEv⟩) = some t →
      (db.refreshCommitments.lookupSerial a.meltSerialId).isSome = true →
      Posts db (.reveal a) { db with refreshRevealedCoins := t }
  | openDeposit {db : Database} {a : ReserveOpenDepositArgs} {t : Table ReserveOpenDeposit}
      {h : Table CoinHistory} {kc : KnownCoin} :
      db.reservesOpenDeposits.insert? a.row = some t →
      db.coinHistory.insert? (fun i =>
        ⟨i, a.coinPub, .reservesOpenDeposits, db.reservesOpenDeposits.nextSerial⟩) = some h →
      db.knownCoins.lookup a.coinPub = some kc → kc.remaining.covers a.coinTotal = true →
      Posts db (.openDeposit a) { db with
        reservesOpenDeposits := t
        coinHistory := h
        knownCoins := db.setRemaining a.coinPub (·.minus a.coinTotal) }
  | recoupToReserve {db : Database} {a : RecoupToReserveArgs} {kc : KnownCoin} {t : Table Recoup}
      {h : Table CoinHistory} {rh : Table ReserveHistory} :
      db.knownCoins.lookup a.coinPub = some kc →
      db.recoup.insert? (a.row kc.remaining) = some t →
      db.coinHistory.insert? (fun i => ⟨i, a.coinPub, .recoup, db.recoup.nextSerial⟩) = some h →
      db.reserves.hasKey a.reservePub = true →
      db.reserveEntry (db.reserveOfOut a.reserveOutSerialId) .recoup db.recoup.nextSerial = some rh →
      Posts db (.recoupToReserve a) { db with
        recoup := t
        coinHistory := h
        knownCoins := db.setRemaining a.coinPub fun _ => TalerAmount.zero
        reserves := db.setReserve a.reservePub fun r =>
          { r with
            currentBalance := r.currentBalance.plus kc.remaining
            gcDate := max r.gcDate a.reserveGc
            expirationDate := max r.expirationDate a.reserveExpiration }
        reserveHistory := rh }
  | recoupToCoin {db : Database} {a : RecoupToCoinArgs} {kc : KnownCoin} {t : Table RecoupRefresh}
      {h h' : Table CoinHistory} :
      db.knownCoins.lookup a.coinPub = some kc →
      db.knownCoins.hasKey a.oldCoinPub = true →
      db.recoupRefresh.insert? (a.row kc.remaining) = some t →
      db.coinHistory.insert? (fun i =>
        ⟨i, a.coinPub, .recoupRefreshNew, db.recoupRefresh.nextSerial⟩) = some h →
      coinEntry h (db.oldCoinOf a.rrcSerial) .recoupRefreshOld db.recoupRefresh.nextSerial =
        some h' →
      Posts db (.recoupToCoin a) { db with
        recoupRefresh := t
        coinHistory := h'
        knownCoins := (db.setRemaining a.coinPub fun _ => TalerAmount.zero).update
          (fun x => x.coinPub = a.oldCoinPub)
          fun x => { x with remaining := x.remaining.plus kc.remaining } }
  | purseRequest {db : Database} {a : PurseRequestArgs} {t : Table PurseRequest}
      {acts : Table PurseAction} :
      a.purseFee = Amount.zero → a.inReserveQuota = false →
      db.purseRequests.insert? a.row = some t →
      db.purseActions.insert? (fun i => ⟨i, a.pursePub, a.purseExpiration, none⟩) = some acts →
      Posts db (.purseRequest a) { db with purseRequests := t, purseActions := acts }
  | reservePurse {db db' : Database} {a : PurseRequestArgs} {b : ReservePurseArgs}
      {t : Table PurseRequest} {acts : Table PurseAction} {m : Table PurseMerge}
      {am : Table AccountMerge} :
      a.pursePub = b.pursePub → a.purseFee = b.purseFee → a.inReserveQuota = b.reserveQuota →
      (b.reserveQuota = true → b.purseFee = Amount.zero) →
      db.purseRequests.insert? a.row = some t →
      db.purseActions.insert? (fun i => ⟨i, a.pursePub, a.purseExpiration, none⟩) = some acts →
      db.purseMerges.insert? (fun i =>
        ⟨i, none, b.reservePub, b.pursePub, b.mergeSig, b.mergeTimestamp⟩) = some m →
      payForPurse { db with purseRequests := t, purseActions := acts, purseMerges := m } b =
        some db' →
      db.accountMerges.insert? (fun i =>
        ⟨i, b.reservePub, b.reserveSig, b.pursePub, b.walletHPayto⟩) = some am →
      db'.reserves.hasKey b.reservePub = true →
      Posts db (.reservePurse a b) { db' with accountMerges := am }
  | purseDeposit {db : Database} {a : PurseDepositArgs} {t : Table PurseDeposit}
      {h : Table CoinHistory} {kc : KnownCoin} :
      db.purseDeposits.insert? a.row = some t →
      db.coinHistory.insert? (fun i => ⟨i, a.coinPub, .purseDeposits, db.purseDeposits.nextSerial⟩) =
        some h →
      (∀ d ∈ db.purseDeletion.rows, d.pursePub ≠ a.pursePub) →
      db.knownCoins.lookup a.coinPub = some kc → kc.remaining.covers a.amountWithFee = true →
      (a.fills db = true → db.purseDecision.hasKey a.pursePub = false) →
      Posts db (.purseDeposit a) { db with
        purseDeposits := t
        coinHistory := h
        knownCoins := db.setRemaining a.coinPub (·.minus a.amountWithFee)
        purseRequests := db.setPurse a.pursePub fun r =>
          { r with balance := r.balance.plus a.amountWithoutFee } }
  | finishMerge {db : Database} {a : PurseDepositArgs} {m : PurseMerge} {r : PurseRequest}
      {t : Table PurseDecision} {rh : Table ReserveHistory} {rs : Table Reserve}
      {acts : Table PurseAction} :
      db.purseMerges.lookup a.pursePub = some m →
      db.purseRequests.lookup a.pursePub = some r → r.isFull = true → r.inReserveQuota = false →
      db.purseDecision.insert? (fun i => ⟨i, a.pursePub, a.now, false⟩) = some t →
      db.reserveHistory.insert? (fun i =>
        ⟨i, m.reservePub, .purseDecision, db.purseDecision.nextSerial⟩) = some rh →
      db.reserves.hasKey m.reservePub = true →
      Credits db (m.partnerSerialId.getD 0) a.pursePub m.reservePub r.amountWithFee rs acts →
      Posts db (.finishMerge a) { db with
        purseDecision := t
        purseRequests := db.markDecided a.pursePub
        reserveHistory := rh
        reserves := rs
        purseActions := acts }
  | initReserve {db : Database} (r : ReservePub) (expiration : Timestamp) :
      Posts db (.initReserve r expiration) (initReserve db r expiration expiration)
  | purseMerge {db : Database} {a : PurseMergeArgs} {partner : Option ℕ} {r : PurseRequest}
      {m : Table PurseMerge} {t : Table PurseDecision} {rh : Table ReserveHistory}
      {am : Table AccountMerge} {rs : Table Reserve} {acts : Table PurseAction} :
      (partner = none ∨ ∃ i, partner = some i ∧ i ≠ 0) →
      db.purseRequests.lookup a.pursePub = some r → r.isPaid = true → r.inReserveQuota = false →
      db.purseMerges.insert? (fun i =>
        ⟨i, partner, a.reservePub, a.pursePub, a.mergeSig, a.mergeTimestamp⟩) = some m →
      db.purseDecision.insert? (fun i => ⟨i, a.pursePub, a.mergeTimestamp, false⟩) = some t →
      db.reserveHistory.insert? (fun i =>
        ⟨i, a.reservePub, .purseDecision, db.purseDecision.nextSerial⟩) = some rh →
      db.reserves.hasKey a.reservePub = true →
      db.accountMerges.insert? (fun i =>
        ⟨i, a.reservePub, a.reserveSig, a.pursePub, a.walletHPayto⟩) = some am →
      Credits db (partner.getD 0) a.pursePub a.reservePub
        (r.amountWithFee.toTaler.addRaw r.purseFee).normalize rs acts →
      Posts db (.purseMerge a) { db with
        purseMerges := m
        purseDecision := t
        purseRequests := db.markDecided a.pursePub
        reserveHistory := rh
        accountMerges := am
        reserves := rs
        purseActions := acts }
  | purseDeletion {db : Database} {a : PurseDeleteArgs} {t : Table PurseDeletion} :
      db.purseDeletion.insert? (fun i => ⟨i, a.pursePub, a.purseSig⟩) = some t →
      Posts db (.purseDeletion a) { db with purseDeletion := t }
  | purseRefund {db : Database} {r : PurseRequest} {now : Timestamp} {t : Table PurseDecision}
      {h : Table CoinHistory} :
      r ∈ db.purseRequests.rows →
      db.purseDecision.insert? (fun i => ⟨i, r.pursePub, now, true⟩) = some t →
      CoinEntries .purseDecision db.purseDecision.nextSerial db.coinHistory
        ((db.depositsOf r.pursePub).map (·.coinPub)) h →
      Posts db (.purseRefund r.pursePub) { db with
        purseDecision := t
        purseRequests := db.markDecided r.pursePub
        coinHistory := h
        reserves := if r.inReserveQuota then db.releaseQuota r.pursePub else db.reserves
        knownCoins := restored db.knownCoins (db.depositsOf r.pursePub) }
  | importNew {db : Database} {x : ReserveInInfo} {gc expiration : Timestamp} {t : Table Reserve}
      {ri : Table ReserveIn} {rh : Table ReserveHistory} :
      db.reserves.insert? (fun i => { reserveUuid := i, reservePub := x.reservePub,
                                      currentBalance := x.balance, expirationDate := expiration,
                                      gcDate := gc }) = some t →
      db.reservesIn.insert? (x.row x.executionTime) = some ri →
      db.reserveHistory.insert? (fun i =>
        ⟨i, x.reservePub, .reservesIn, db.reservesIn.nextSerial⟩) = some rh →
      Posts db (.importNew x) { db with reserves := t, reservesIn := ri, reserveHistory := rh }
  | importRow {db : Database} {x : ReserveInInfo} {ri : Table ReserveIn}
      {rh : Table ReserveHistory} :
      db.reserves.hasKey x.reservePub = true →
      db.reservesIn.insert? (x.row x.executionTime) = some ri →
      db.reserveHistory.insert? (fun i =>
        ⟨i, x.reservePub, .reservesIn, db.reservesIn.nextSerial⟩) = some rh →
      Posts db (.importRow x) { db with reservesIn := ri, reserveHistory := rh }
  | importReserve {db : Database} {x : ReserveInInfo} {gc expiration : Timestamp}
      {t : Table Reserve} :
      db.reserves.insert? (fun i => { reserveUuid := i, reservePub := x.reservePub,
                                      currentBalance := x.balance, expirationDate := expiration,
                                      gcDate := gc }) = some t →
      db.reservesIn.hasKey x.reservePub = true →
      Posts db (.importReserve x) { db with reserves := t }
  | withdraw {db : Database} {a : BatchWithdrawArgs} {xs : List PlanchetArgs} {r : Reserve}
      {ro : Table ReserveOut} {rh : Table ReserveHistory} :
      db.reserves.lookup a.reservePub = some r → r.currentBalance.covers a.amount = true →
      Withdrawn db r a.now xs ro rh →
      Posts db (.withdraw a xs) { db with
        reserves := db.setReserve a.reservePub fun x =>
          { x with
            gcDate := max a.minReserveGc r.gcDate
            currentBalance := r.currentBalance.minus a.amount }
        reservesOut := ro
        reserveHistory := rh }
  | ageWithdraw {db : Database} {a : AgeWithdrawArgs} {r : Reserve} {t : Table AgeWithdraw} :
      db.reserves.lookup a.reservePub = some r → r.currentBalance.covers a.amountWithFee = true →
      db.ageWithdraw.insert? a.row = some t →
      Posts db (.ageWithdraw a) { db with
        reserves := db.setReserve a.reservePub fun x =>
          { x with
            gcDate := max a.minReserveGc r.gcDate
            currentBalance := r.currentBalance.minus a.amountWithFee }
        ageWithdraw := t }
  | ageDebit {db : Database} {a : AgeWithdrawArgs} {r : Reserve} :
      db.reserves.lookup a.reservePub = some r → r.currentBalance.covers a.amountWithFee = true →
      db.ageWithdraw.hasKey a.hCommitment = true →
      (db.ageWithdraw.lookup a.hCommitment).any (·.reservePub = a.reservePub) = false →
      Posts db (.ageDebit a) { db with
        reserves := db.setReserve a.reservePub fun x =>
          { x with
            gcDate := max a.minReserveGc r.gcDate
            currentBalance := r.currentBalance.minus a.amountWithFee } }
  | reserveOpen {db : Database} {a : ReserveOpenArgs} {r : Reserve} {t : OpenTerms} :
      db.reserves.lookup a.reservePub = some r → a.terms r = .ok t →
      r.currentBalance.covers a.reservePayment = true →
      Posts db (.reserveOpen a) { db with
        reserves := db.setReserve a.reservePub fun x =>
          { x with
            currentBalance := r.currentBalance.minus a.reservePayment
            gcDate := r.expirationDate + a.reserveGcDelay
            expirationDate := t.expirationDate
            pursesAllowed := t.pursesAllowed } }
  | reserveClosed {db : Database} {a : ReserveClosedArgs} {r : Reserve} {b : Amount}
      {t : Table ReserveClose} {rh : Table ReserveHistory} :
      db.reservesClose.insert? a.row = some t →
      db.reserveHistory.insert? (fun i =>
        ⟨i, a.reservePub, .reservesClose, db.reservesClose.nextSerial⟩) = some rh →
      db.reserves.lookup a.reservePub = some r →
      b.units = r.currentBalance.units - a.amountWithFee.units →
      Posts db (.reserveClosed a) { db with
        reservesClose := t
        reserveHistory := rh
        reserves := db.setReserve a.reservePub fun x => { x with currentBalance := b } }
  | closeRequest {db : Database} {a : CloseRequestArgs} {t : Table CloseRequest}
      {rh : Table ReserveHistory} :
      db.reserves.hasKey a.reservePub = true →
      db.closeRequests.insert? a.row = some t →
      db.reserveHistory.insert? (fun i =>
        ⟨i, a.reservePub, .closeRequests, db.closeRequests.nextSerial⟩) = some rh →
      Posts db (.closeRequest a) { db with closeRequests := t, reserveHistory := rh }
  | aggregate {db : Database} {a : AggregateArgs} {t : Table AggregationTracking} {total : Amount} :
      trackBatches db.aggregationTracking a.wtid (aggregatedBatches db a) = .ok t →
      aggregateTotal db a = some total →
      Posts db (.aggregate a) { db with
        batchDeposits := db.batchDeposits.update a.selects fun b => { b with done := true }
        aggregationTracking := t }

end TalerExchange
