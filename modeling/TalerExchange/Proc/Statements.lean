import TalerExchange.Machine.Word
import TalerExchange.Schema

/-!
# Statements

The statements that the stored procedures share, with the triggers that fire on them. A statement
returns `none` where plpgsql reports `NOT FOUND`, and an error where the server raises an
exception and the transaction is lost.

* `debitCoin`, `creditCoin`: the two updates of `known_coins.remaining`;
* `addCoinHistory`, `addReserveHistory`: the inserts of the history triggers;
* `insertPurseDecision`: with its trigger, which marks the purse and writes both histories;
* the `…_eq_ok` lemmas: what a statement that succeeded has written.
-/

namespace TalerExchange

open Sql

/-- The exceptions that a procedure can raise. -/
inductive SqlError
  | foreignKeyViolation
  | uniqueViolation
  | undefinedColumn
  | nullLoopBound
  | divisionByZero
  | assertFailure
deriving DecidableEq, Repr

/-- A computation that may raise. -/
abbrev Exec := Except SqlError

theorem pure_eq_ok {α : Type} {a b : α} : (pure a : Exec α) = .ok b ↔ b = a :=
  ⟨fun h => (Except.ok.inj h).symm, fun h => congrArg Except.ok h.symm⟩

/-- An insert without `ON CONFLICT`: a taken key raises. -/
def orUnique {α : Type} : Option α → Exec α
  | some a => .ok a
  | none => .error .uniqueViolation

@[simp] theorem orUnique_eq_ok {α : Type} {x : Option α} {a : α} :
    orUnique x = .ok a ↔ x = some a := by
  cases x <;> simp [orUnique]

/-- A foreign key that must hold. -/
def require (b : Bool) : Exec Unit := if b then .ok () else .error .foreignKeyViolation

@[simp] theorem require_eq_ok {b : Bool} {u : Unit} : require b = .ok u ↔ b = true := by
  cases b <;> simp [require]

/-! ## Coins -/

namespace CoinTables

/-- `known_coins` after `remaining` of coin `c` has become `f remaining`. -/
def setRemaining (db : CoinTables) (c : CoinPub) (f : TalerAmount → TalerAmount) : Table KnownCoin :=
  db.knownCoins.update (fun kc => kc.coinPub = c) fun kc => { kc with remaining := f kc.remaining }

theorem lookup_setRemaining (db : CoinTables) (c x : CoinPub) (f : TalerAmount → TalerAmount) :
    (db.setRemaining c f).lookup x = (db.knownCoins.lookup x).map fun kc =>
      if kc.coinPub = c then { kc with remaining := f kc.remaining } else kc := by
  unfold setRemaining
  rw [Table.lookup_update]
  simp only [decide_eq_true_eq]

@[simp] theorem hasKey_setRemaining (db : CoinTables) (c x : CoinPub)
    (f : TalerAmount → TalerAmount) : (db.setRemaining c f).hasKey x = db.knownCoins.hasKey x :=
  Table.hasKey_update ..

/-- The purse has been decided as refunded. -/
def isRefunded (db : CoinTables) (p : PursePub) : Bool :=
  (db.purseDecision.lookup p).any (·.refunded)

end CoinTables

namespace Database

/-- Debit a coin; `none` if it is unknown or has too little left. -/
def debitCoin (db : Database) (c : CoinPub) (a : TalerAmount) : Option Database :=
  match db.knownCoins.lookup c with
  | none => none
  | some kc =>
    if kc.remaining.covers a then some { db with knownCoins := db.setRemaining c (·.minus a) }
    else none

theorem debitCoin_eq_some {db db' : Database} {c : CoinPub} {a : TalerAmount} :
    db.debitCoin c a = some db' ↔ ∃ kc, db.knownCoins.lookup c = some kc ∧
      kc.remaining.covers a = true ∧ db' = { db with knownCoins := db.setRemaining c (·.minus a) } := by
  unfold debitCoin
  cases hl : db.knownCoins.lookup c with
  | none => exact ⟨fun h => (nomatch h), fun ⟨_, h, _⟩ => (nomatch h)⟩
  | some kc =>
    by_cases hc : kc.remaining.covers a = true
    · simp only [hc, if_true]
      exact ⟨fun h => ⟨kc, rfl, hc, (Option.some.inj h).symm⟩, fun ⟨_, _, _, h⟩ => congrArg some h.symm⟩
    · simp only [hc]
      exact ⟨fun h => (nomatch h), fun ⟨_, h, h', _⟩ => absurd (Option.some.inj h ▸ h') hc⟩

/-- Credit a coin. -/
def creditCoin (db : Database) (c : CoinPub) (a : TalerAmount) : Database :=
  { db with knownCoins := db.setRemaining c (·.plus a) }

/-- The insert of the coin history triggers. -/
def addCoinHistory (db : Database) (c : CoinPub) (t : HistoryTable) (n : ℕ) : Exec Database := do
  let h ← orUnique (db.coinHistory.insert? fun i => ⟨i, c, t, n⟩)
  require (db.knownCoins.hasKey c)
  return { db with coinHistory := h }

theorem addCoinHistory_eq_ok {db db' : Database} {c : CoinPub} {t : HistoryTable} {n : ℕ} :
    db.addCoinHistory c t n = .ok db' ↔ ∃ h, db.coinHistory.insert? (fun i => ⟨i, c, t, n⟩) = some h ∧
      db.knownCoins.hasKey c = true ∧ db' = { db with coinHistory := h } := by
  simp only [addCoinHistory, bind_eq_ok, pure_eq_ok, orUnique_eq_ok, require_eq_ok, exists_const]

/-- One history entry per coin of a list. -/
def addCoinHistories (db : Database) (t : HistoryTable) (n : ℕ) : List CoinPub → Exec Database
  | [] => .ok db
  | c :: cs => do
    let db ← db.addCoinHistory c t n
    db.addCoinHistories t n cs

/-- `wire_targets`: insert on conflict do nothing. -/
def addWireTarget (db : Database) (hPayto hNormalized : HashCode) (uri : String) : Database :=
  match db.wireTargets.insert? fun i => ⟨i, hPayto, hNormalized, uri⟩ with
  | some t => { db with wireTargets := t }
  | none => db

/-! ## Reserves -/

/-- The insert of the reserve history triggers. -/
def addReserveHistory (db : Database) (r : ReservePub) (t : HistoryTable) (n : ℕ) :
    Exec Database := do
  let h ← orUnique (db.reserveHistory.insert? fun i => ⟨i, r, t, n⟩)
  require (db.reserves.hasKey r)
  return { db with reserveHistory := h }

theorem addReserveHistory_eq_ok {db db' : Database} {r : ReservePub} {t : HistoryTable} {n : ℕ} :
    db.addReserveHistory r t n = .ok db' ↔
      ∃ h, db.reserveHistory.insert? (fun i => ⟨i, r, t, n⟩) = some h ∧
        db.reserves.hasKey r = true ∧ db' = { db with reserveHistory := h } := by
  simp only [addReserveHistory, bind_eq_ok, pure_eq_ok, orUnique_eq_ok, require_eq_ok, exists_const]

/-- `reserves` after the row of `r` has become `f row`. -/
def setReserve (db : Database) (r : ReservePub) (f : Reserve → Reserve)
    (hk : ∀ x, Record.key (f x) = Record.key x := by intro; rfl)
    (hs : ∀ x, Record.serial (f x) = Record.serial x := by intro; rfl) : Table Reserve :=
  db.reserves.update (fun x => x.reservePub = r) f hk hs

section SetReserve

variable (db : Database) (r x : ReservePub) (f : Reserve → Reserve)
  (hk : ∀ x, Record.key (f x) = Record.key x) (hs : ∀ x, Record.serial (f x) = Record.serial x)

theorem lookup_setReserve : (db.setReserve r f hk hs).lookup x =
    (db.reserves.lookup x).map fun y => if y.reservePub = r then f y else y := by
  unfold setReserve
  rw [Table.lookup_update]
  simp only [decide_eq_true_eq]

@[simp] theorem hasKey_setReserve : (db.setReserve r f hk hs).hasKey x = db.reserves.hasKey x :=
  Table.hasKey_update ..

theorem lookupSerial_setReserve (n : ℕ) : (db.setReserve r f hk hs).lookupSerial n =
    (db.reserves.lookupSerial n).map fun y => if y.reservePub = r then f y else y := by
  unfold setReserve
  rw [Table.lookupSerial_update]
  simp only [decide_eq_true_eq]

end SetReserve

/-- `reserves` after `purses_active = purses_active - 1` for the reserve that a purse was merged
into. -/
def releaseQuota (db : Database) (p : PursePub) : Table Reserve :=
  match db.purseMerges.lookup p with
  | some m => db.setReserve m.reservePub fun r => { r with pursesActive := r.pursesActive - 1 }
  | none => db.reserves

/-! ## Purses -/

/-- `purse_requests` after the row of `p` has become `f row`. -/
def setPurse (db : Database) (p : PursePub) (f : PurseRequest → PurseRequest)
    (hk : ∀ x, Record.key (f x) = Record.key x := by intro; rfl)
    (hs : ∀ x, Record.serial (f x) = Record.serial x := by intro; rfl) : Table PurseRequest :=
  db.purseRequests.update (fun x => x.pursePub = p) f hk hs

section SetPurse

variable (db : Database) (p q : PursePub) (f : PurseRequest → PurseRequest)
  (hk : ∀ x, Record.key (f x) = Record.key x) (hs : ∀ x, Record.serial (f x) = Record.serial x)

theorem lookup_setPurse : (db.setPurse p f hk hs).lookup q =
    (db.purseRequests.lookup q).map fun y => if y.pursePub = p then f y else y := by
  unfold setPurse
  rw [Table.lookup_update]
  simp only [decide_eq_true_eq]

@[simp] theorem hasKey_setPurse : (db.setPurse p f hk hs).hasKey q = db.purseRequests.hasKey q :=
  Table.hasKey_update ..

end SetPurse

/-- The owner of the purse has deleted it. -/
def isDeleted (db : Database) (p : PursePub) : Bool :=
  db.purseDeletion.rows.any fun d => d.pursePub = p

/-- The deposits of a purse. -/
def depositsOf (db : Database) (p : PursePub) : List PurseDeposit :=
  db.purseDeposits.rows.filter fun d => d.pursePub = p

/-- `INSERT INTO purse_decision`, `none` if the purse has been decided; the trigger marks the
purse and records the refund with each coin, or the merge with the reserve. -/
def insertPurseDecision (db : Database) (p : PursePub) (now : Timestamp) (refunded : Bool) :
    Exec (Option Database) :=
  match db.purseDecision.insert? fun i => ⟨i, p, now, refunded⟩ with
  | none => .ok none
  | some t => do
    let n := db.purseDecision.nextSerial
    let db := { db with
      purseDecision := t
      purseRequests := db.setPurse p fun r => { r with wasDecided := true } }
    if refunded then
      return some (← db.addCoinHistories .purseDecision n ((db.depositsOf p).map (·.coinPub)))
    else
      match db.purseMerges.lookup p with
      | some m => return some (← db.addReserveHistory m.reservePub .purseDecision n)
      | none => return some db

/-- The loop of the refunds: restore the balance of each coin deposited into the purse. -/
def restoreCoins (db : Database) (ds : List PurseDeposit) : Database :=
  ds.foldl (fun db d => db.creditCoin d.coinPub d.amountWithFee) db

end Database

end TalerExchange
