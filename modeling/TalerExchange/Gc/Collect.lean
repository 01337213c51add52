import TalerExchange.Proc.Nonces
import Mathlib.Data.List.MinMax

/-!
# Garbage collection

`exchange_do_gc` deletes old rows table by table. Unless the tables are partitioned, foreign keys
let a deletion go on to the rows that refer to the deleted ones, or forbid it. The tables that
nothing else depends on (`prewire`, `wire_fee`) are left out. No reserve is deleted: the comparison
of its balance fails.

* `GcDatabase`: the tables that the procedure reads or deletes from;
* `deleteReserves`, …, `deleteBatchDeposits`: deletions with what follows from them;
* `collectWithdrawals`, …, `collectNonces`: the parts of the procedure; `exchangeDoGc`: all of it;
* `WithdrawalStays`, `RecoupStays`, `DenominationGoes`: what stays and goes of the first tables;
* **`gc_eq`**: what the procedure does, and when it fails.
-/

namespace TalerExchange

/-- A row of `denominations` with its `expire_legal`. -/
structure DatedDenomination extends Denomination where
  expireLegal : Timestamp
deriving DecidableEq, Repr

/-- `refresh_transfer_keys`. -/
structure RefreshTransferKeys where
  rtcSerial : ℕ
  meltSerialId : ℕ
deriving DecidableEq, Repr

/-- The tables of the procedure. -/
structure GcDatabase where
  reserves : List Reserve := []
  reservesOut : List ReserveOut := []
  recoup : List Recoup := []
  denominations : List DatedDenomination := []
  knownCoins : List KnownCoin := []
  refreshCommitments : List RefreshCommitment := []
  refreshRevealedCoins : List RefreshRevealedCoin := []
  refreshTransferKeys : List RefreshTransferKeys := []
  recoupRefresh : List RecoupRefresh := []
  batchDeposits : List BatchDeposit := []
  coinDeposits : List CoinDeposit := []
  refunds : List Refund := []
  aggregationTracking : List AggregationTracking := []
  csNonceLocks : List CsNonceLock := []

/-- `SELECT … ORDER BY … ASC LIMIT 1`: the smallest number, `NULL` if there is none. -/
def minimumOf (l : List ℕ) : Option ℕ := l.min?

/-- `x < m`, where nothing is smaller than `NULL`. -/
def below (x : ℕ) : Option ℕ → Bool
  | some m => x < m
  | none => false

/-- `x <= m`. -/
def upTo (x : ℕ) : Option ℕ → Bool
  | some m => x ≤ m
  | none => false

/-- A row refers to one that is deleted, and a foreign key says so. -/
def refersTo (fk : Bool) (gone : List ℕ) (key : ℕ) : Bool := fk && decide (key ∈ gone)

namespace GcDatabase

variable (fk : Bool)

/-! ## Deletions -/

/-- `DELETE FROM reserves WHERE gc_date < in_now AND current_balance = (0, 0)`. For a row that meets
the first condition the second one fails: a balance of the types INT8 and INT4 is not compared with
two values of type INT4. -/
def deleteReserves (now : Timestamp) (db : GcDatabase) : Option GcDatabase :=
  if db.reserves.any fun r => r.gcDate < now then none else some db

/-- `DELETE FROM reserves_out`; the recoups of the withdrawals go as well. -/
def deleteReservesOut (p : ReserveOut → Bool) (db : GcDatabase) : GcDatabase :=
  { db with
    reservesOut := db.reservesOut.filter fun w => !p w
    recoup := db.recoup.filter fun r =>
      !refersTo fk ((db.reservesOut.filter p).map ReserveOut.reserveOutSerialId)
        r.reserveOutSerialId }

/-- `DELETE FROM refresh_revealed_coins`. -/
def deleteRevealedCoins (p : RefreshRevealedCoin → Bool) (db : GcDatabase) : GcDatabase :=
  { db with
    refreshRevealedCoins := db.refreshRevealedCoins.filter fun c => !p c
    recoupRefresh := db.recoupRefresh.filter fun r =>
      !refersTo fk ((db.refreshRevealedCoins.filter p).map RefreshRevealedCoin.rrcSerial)
        r.rrcSerial }

/-- `DELETE FROM refresh_commitments`. -/
def deleteCommitments (p : RefreshCommitment → Bool) (db : GcDatabase) : GcDatabase :=
  let gone := (db.refreshCommitments.filter p).map RefreshCommitment.meltSerialId
  deleteRevealedCoins fk (fun c => refersTo fk gone c.meltSerialId)
    { db with
      refreshCommitments := db.refreshCommitments.filter fun m => !p m
      refreshTransferKeys := db.refreshTransferKeys.filter fun t =>
        !refersTo fk gone t.meltSerialId }

/-- `DELETE FROM known_coins`. -/
def deleteKnownCoins (p : KnownCoin → Bool) (db : GcDatabase) : GcDatabase :=
  let gone := (db.knownCoins.filter p).map KnownCoin.coinPub
  deleteCommitments fk (fun m => refersTo fk gone m.oldCoinPub)
    { db with
      knownCoins := db.knownCoins.filter fun k => !p k
      coinDeposits := db.coinDeposits.filter fun c => !refersTo fk gone c.coinPub
      refunds := db.refunds.filter fun f => !refersTo fk gone f.coinPub
      recoupRefresh := db.recoupRefresh.filter fun r =>
        !refersTo fk ((db.knownCoins.filter p).map KnownCoin.knownCoinId) r.knownCoinId }

/-- The denominations, their coins, and what goes with those. -/
def dropDenominations (p : DatedDenomination → Bool) (db : GcDatabase) : GcDatabase :=
  let gone := (db.denominations.filter p).map fun d => d.denominationsSerial
  deleteRevealedCoins fk (fun c => refersTo fk gone c.denominationsSerial)
    (deleteKnownCoins fk (fun k => refersTo fk gone k.denominationsSerial)
      { db with denominations := db.denominations.filter fun d => !p d })

/-- `DELETE FROM denominations`. The withdrawals of a denomination and the recoups of its coins
forbid it. -/
def deleteDenominations (p : DatedDenomination → Bool) (db : GcDatabase) : Option GcDatabase :=
  let gone := (db.denominations.filter p).map fun d => d.denominationsSerial
  let coins := (db.knownCoins.filter fun k => refersTo fk gone k.denominationsSerial).map
    KnownCoin.coinPub
  let db' := db.dropDenominations fk p
  if (db'.reservesOut.any fun w => refersTo fk gone w.denominationsSerial) ∨
      (db'.recoup.any fun r => refersTo fk coins r.coinPub) ∨
      (db'.recoupRefresh.any fun r => refersTo fk coins r.coinPub) then none
  else some db'

/-- `DELETE FROM batch_deposits`; their coin deposits, refunds and aggregations go as well. -/
def deleteBatchDeposits (p : BatchDeposit → Bool) (db : GcDatabase) : GcDatabase :=
  let gone := (db.batchDeposits.filter p).map BatchDeposit.batchDepositSerialId
  { db with
    batchDeposits := db.batchDeposits.filter fun b => !p b
    coinDeposits := db.coinDeposits.filter fun c => !refersTo fk gone c.batchDepositSerialId
    refunds := db.refunds.filter fun f => !refersTo fk gone f.batchDepositSerialId
    aggregationTracking := db.aggregationTracking.filter fun t =>
      !refersTo fk gone t.batchDepositSerialId }

/-! ## The procedure -/

/-- The rest of the first part: withdrawals and recoups, by their numbers. -/
def collectWithdrawals (db : GcDatabase) : GcDatabase :=
  let reserveOutMin := minimumOf (db.reservesOut.map ReserveOut.reserveOutSerialId)
  let db := { db with
    recoup := db.recoup.filter fun r => !below r.reserveOutSerialId reserveOutMin }
  let reserveUuidMin := minimumOf (db.reserves.map Reserve.reserveUuid)
  db.deleteReservesOut fk fun w => below w.reserveUuid reserveUuidMin

/-- The condition of the second part: an expired denomination without withdrawals, none of whose
coins was recouped. -/
def unused (now : Timestamp) (db : GcDatabase) (d : DatedDenomination) : Bool :=
  d.expireLegal < now ∧
    d.denominationsSerial ∉ db.reservesOut.map ReserveOut.denominationsSerial ∧
    d.denominationsSerial ∉
      (db.knownCoins.filter fun k => k.coinPub ∈ db.recoup.map Recoup.coinPub).map
        KnownCoin.denominationsSerial ∧
    d.denominationsSerial ∉
      (db.knownCoins.filter fun k => k.coinPub ∈ db.recoupRefresh.map RecoupRefresh.coinPub).map
        KnownCoin.denominationsSerial

/-- The second part. -/
def collectDenominations (now : Timestamp) (db : GcDatabase) : Option GcDatabase :=
  db.deleteDenominations fk (db.unused now)

/-- The third part: what belongs to melts and coins, by their numbers. -/
def collectRefreshes (db : GcDatabase) : GcDatabase :=
  let meltMin := minimumOf (db.refreshCommitments.map RefreshCommitment.meltSerialId)
  let db := db.deleteRevealedCoins fk fun c => below c.meltSerialId meltMin
  let coinMin := minimumOf (db.knownCoins.map KnownCoin.knownCoinId)
  { db with
    refreshTransferKeys := db.refreshTransferKeys.filter fun t => !below t.meltSerialId meltMin
    recoupRefresh := db.recoupRefresh.filter fun r => !below r.knownCoinId coinMin }

/-- What belongs to deposits, by their numbers. -/
def collectByDeposit (db : GcDatabase) : GcDatabase :=
  let batchDepositMin := minimumOf (db.coinDeposits.map CoinDeposit.batchDepositSerialId)
  { db with
    refunds := db.refunds.filter fun f => !below f.batchDepositSerialId batchDepositMin
    aggregationTracking := db.aggregationTracking.filter fun t =>
      !below t.batchDepositSerialId batchDepositMin
    coinDeposits := db.coinDeposits.filter fun c => !below c.batchDepositSerialId batchDepositMin }

/-- The fourth part. -/
def collectDeposits (ancient : Timestamp) (db : GcDatabase) : GcDatabase :=
  (db.deleteBatchDeposits fk fun b => b.wireDeadline < ancient).collectByDeposit

/-- The last part: the locks up to the smallest denomination, that one included. -/
def collectNonces (db : GcDatabase) : GcDatabase :=
  let denomMin := minimumOf (db.denominations.map fun d => d.denominationsSerial)
  { db with
    csNonceLocks := db.csNonceLocks.filter fun l => !upTo l.maxDenominationSerial denomMin }

/-- `exchange_do_gc`; `none` if a statement fails. `fk`: the tables are not partitioned. -/
def exchangeDoGc (ancient now : Timestamp) (db : GcDatabase) : Option GcDatabase := do
  let db ← db.deleteReserves now
  let db ← (db.collectWithdrawals fk).collectDenominations fk now
  pure ((db.collectRefreshes fk).collectDeposits fk ancient).collectNonces

/-- The database after the call: a statement that fails rolls everything back. -/
def gc (ancient now : Timestamp) (db : GcDatabase) : GcDatabase :=
  (db.exchangeDoGc fk ancient now).getD db

/-! ## What the first part deletes -/

variable {fk}

section Keys

variable {gone l : List ℕ} {key x : ℕ}

theorem refersTo_eq_true : refersTo fk gone key = true ↔ fk = true ∧ key ∈ gone := by
  simp [refersTo]

theorem refersTo_eq_false : refersTo fk gone key = false ↔ (fk → key ∉ gone) := by
  cases fk <;> simp [refersTo]

theorem minimumOf_eq_some : minimumOf l = some x ↔ x ∈ l ∧ ∀ y ∈ l, x ≤ y :=
  List.min?_eq_some_iff

theorem minimumOf_eq_none : minimumOf l = none ↔ l = [] := List.min?_eq_none_iff

/-- A bound that the smallest number of some rows meets, if there are any. -/
theorem forall_minimumOf_filter {ρ : Type} {rows : List ρ} {p : ρ → Bool} {num : ρ → ℕ}
    {Q : ℕ → Prop} (hQ : ∀ y z, y ≤ z → Q z → Q y) :
    (∀ m, minimumOf ((rows.filter p).map num) = some m → Q m) ↔
      ((∃ r ∈ rows, p r = true) → ∃ r ∈ rows, p r = true ∧ Q (num r)) := by
  constructor
  · rintro h ⟨r, hr, hp⟩
    have hmem : num r ∈ (rows.filter p).map num :=
      List.mem_map.mpr ⟨r, List.mem_filter.mpr ⟨hr, hp⟩, rfl⟩
    cases hm : minimumOf ((rows.filter p).map num) with
    | none =>
      rw [minimumOf_eq_none.mp hm] at hmem
      exact absurd hmem List.not_mem_nil
    | some m =>
      obtain ⟨r', hr', heq⟩ := List.mem_map.mp (minimumOf_eq_some.mp hm).1
      obtain ⟨hr', hp'⟩ := List.mem_filter.mp hr'
      exact ⟨r', hr', hp', heq ▸ h m hm⟩
  · intro h m hm
    obtain ⟨hmem, hle⟩ := minimumOf_eq_some.mp hm
    obtain ⟨r, hr, rfl⟩ := List.mem_map.mp hmem
    obtain ⟨hr, hp⟩ := List.mem_filter.mp hr
    obtain ⟨r', hr', hp', hq⟩ := h ⟨r, hr, hp⟩
    exact hQ _ _ (hle _ (List.mem_map.mpr ⟨r', List.mem_filter.mpr ⟨hr', hp'⟩, rfl⟩)) hq

/-- What does not lie below the smallest number of some rows. -/
theorem not_below_filter {ρ : Type} {rows : List ρ} {p : ρ → Bool} {num : ρ → ℕ} :
    (!below x (minimumOf ((rows.filter p).map num))) = true ↔
      ((∃ r ∈ rows, p r = true) → ∃ r ∈ rows, p r = true ∧ num r ≤ x) := by
  rw [← forall_minimumOf_filter fun y z hyz hz => hyz.trans hz]
  cases minimumOf ((rows.filter p).map num) <;> simp [below]

theorem not_below_of_mem (h : x ∈ l) : (!below x (minimumOf l)) = true := by
  cases hm : minimumOf l with
  | none => rfl
  | some m =>
    have hle := (minimumOf_eq_some.mp hm).2 x h
    simpa [below] using hle

/-- What lies above the smallest number of some rows. -/
theorem not_upTo_filter {ρ : Type} {rows : List ρ} {p : ρ → Bool} {num : ρ → ℕ} :
    (!upTo x (minimumOf ((rows.filter p).map num))) = true ↔
      ((∃ r ∈ rows, p r = true) → ∃ r ∈ rows, p r = true ∧ num r < x) := by
  rw [← forall_minimumOf_filter fun y z hyz hz => hyz.trans_lt hz]
  cases minimumOf ((rows.filter p).map num) <;> simp [upTo]

/-- The rows whose key is not among those of deleted rows. -/
theorem not_refersTo_filter {ρ : Type} {rows : List ρ} {p : ρ → Bool} {num : ρ → ℕ} :
    (!refersTo fk ((rows.filter p).map num) key) = true ↔
      (fk → ∀ r ∈ rows, num r = key → p r = false) := by
  rw [Bool.not_eq_true', refersTo_eq_false]
  refine imp_congr_right fun _ => ?_
  simp only [List.mem_map, List.mem_filter, not_exists, not_and]
  constructor
  · intro h r hr heq
    by_contra hp
    exact h r ⟨hr, by simpa using hp⟩ heq
  · intro h r hr heq
    rw [h r hr.1 heq] at hr
    exact absurd hr.2 (by simp)

end Keys

/-- A withdrawal stays if it is not older than all reserves. -/
def WithdrawalStays (db : GcDatabase) (w : ReserveOut) : Prop :=
  (∃ r, r ∈ db.reserves) → ∃ r ∈ db.reserves, r.reserveUuid ≤ w.reserveUuid

variable (fk) in
/-- A recoup stays with its withdrawal, and if it is not older than all withdrawals. -/
def RecoupStays (db : GcDatabase) (r : Recoup) : Prop :=
  (fk → ∀ w ∈ db.reservesOut, w.reserveOutSerialId = r.reserveOutSerialId →
    WithdrawalStays db w) ∧
    ((∃ w, w ∈ db.reservesOut) →
      ∃ w ∈ db.reservesOut, w.reserveOutSerialId ≤ r.reserveOutSerialId)

variable (fk) in
/-- An expired denomination goes if it has no withdrawal that stays and no coin that was recouped,
unless that recoup goes too. -/
def DenominationGoes (now : Timestamp) (db : GcDatabase) (d : DatedDenomination) : Prop :=
  d.expireLegal < now ∧
    (∀ w ∈ db.reservesOut, WithdrawalStays db w →
      w.denominationsSerial ≠ d.denominationsSerial) ∧
    ∀ k ∈ db.knownCoins, k.denominationsSerial = d.denominationsSerial →
      (∀ r ∈ db.recoup, RecoupStays fk db r → r.coinPub ≠ k.coinPub) ∧
        ∀ r ∈ db.recoupRefresh, r.coinPub ≠ k.coinPub

section First

variable {now : Timestamp} {db : GcDatabase}

/-- What does not lie below the smallest number of all rows. -/
theorem not_below_map {ρ : Type} {rows : List ρ} {num : ρ → ℕ} {x : ℕ} :
    (!below x (minimumOf (rows.map num))) = true ↔
      ((∃ r, r ∈ rows) → ∃ r ∈ rows, num r ≤ x) := by
  have h := @not_below_filter x ρ rows (fun _ => true) num
  rw [List.filter_true] at h
  simpa using h

theorem mem_collectWithdrawals_reservesOut {w : ReserveOut} :
    w ∈ (db.collectWithdrawals fk).reservesOut ↔ w ∈ db.reservesOut ∧ WithdrawalStays db w := by
  have hstep : w ∈ (db.collectWithdrawals fk).reservesOut ↔ w ∈ db.reservesOut ∧
      (!below w.reserveUuid (minimumOf (db.reserves.map Reserve.reserveUuid))) = true :=
    List.mem_filter
  rw [hstep, not_below_map]
  rfl

/-- The recoups are deleted by number, and with old withdrawals. -/
theorem mem_collectWithdrawals_recoup {r : Recoup} :
    r ∈ (db.collectWithdrawals fk).recoup ↔ r ∈ db.recoup ∧ RecoupStays fk db r := by
  have hstep : r ∈ (db.collectWithdrawals fk).recoup ↔
      r ∈ (db.recoup.filter fun r => !below r.reserveOutSerialId (minimumOf (db.reservesOut.map
        ReserveOut.reserveOutSerialId))) ∧
        (!refersTo fk ((db.reservesOut.filter fun w => below w.reserveUuid (minimumOf
          (db.reserves.map Reserve.reserveUuid))).map ReserveOut.reserveOutSerialId)
            r.reserveOutSerialId) = true := List.mem_filter
  have hold : ∀ w : ReserveOut, below w.reserveUuid (minimumOf (db.reserves.map
      Reserve.reserveUuid)) = false ↔ WithdrawalStays db w := fun w => by
    rw [← Bool.not_eq_true', not_below_map]
    rfl
  rw [hstep, List.mem_filter, not_refersTo_filter, not_below_map, and_assoc]
  simp only [hold, RecoupStays]
  exact and_congr_right fun _ => and_comm

theorem unused_iff {d : DatedDenomination} :
    (db.collectWithdrawals fk).unused now d = true ↔ DenominationGoes fk now db d := by
  have hcoins : (db.collectWithdrawals fk).knownCoins = db.knownCoins := rfl
  have hrefresh : (db.collectWithdrawals fk).recoupRefresh = db.recoupRefresh := rfl
  simp only [unused, hcoins, hrefresh, decide_eq_true_eq, List.mem_map, List.mem_filter,
    mem_collectWithdrawals_reservesOut, mem_collectWithdrawals_recoup, not_exists, not_and,
    DenominationGoes]
  refine and_congr_right fun _ => ?_
  constructor
  · rintro ⟨hout, hrec, href⟩
    refine ⟨fun w hw hs => hout w ⟨hw, hs⟩, fun k hk heq => ⟨fun r hr hs hpub => ?_,
      fun r hr hpub => ?_⟩⟩
    · exact hrec k ⟨hk, r, ⟨hr, hs⟩, hpub⟩ heq
    · exact href k ⟨hk, r, hr, hpub⟩ heq
  · rintro ⟨hout, hall⟩
    refine ⟨fun w hw => hout w hw.1 hw.2, ?_, ?_⟩
    · rintro k ⟨hk, r, ⟨hr, hs⟩, hpub⟩ heq
      exact (hall k hk heq).1 r hr hs hpub
    · rintro k ⟨hk, r, hr, hpub⟩ heq
      exact (hall k hk heq).2 r hr hpub

end First

/-! ## The whole procedure -/

variable {ancient now : Timestamp} {db : GcDatabase}

/-- The deletion of denominations does not fail: what forbids it is what `unused` asks for. -/
theorem collectDenominations_eq :
    db.collectDenominations fk now = some (db.dropDenominations fk (db.unused now)) := by
  unfold collectDenominations deleteDenominations
  rw [if_neg]
  simp only [List.any_eq_true, refersTo_eq_true, List.mem_map, List.mem_filter]
  have hunused : ∀ d, db.unused now d = true → d.denominationsSerial ∉
      db.reservesOut.map ReserveOut.denominationsSerial ∧
      (∀ k ∈ db.knownCoins, k.denominationsSerial = d.denominationsSerial →
        k.coinPub ∉ db.recoup.map Recoup.coinPub ∧
          k.coinPub ∉ db.recoupRefresh.map RecoupRefresh.coinPub) := by
    intro d hd
    simp only [unused, decide_eq_true_eq, List.mem_map, List.mem_filter, not_exists, not_and] at hd
    obtain ⟨-, hout, hrec, href⟩ := hd
    refine ⟨?_, fun k hk heq => ⟨?_, ?_⟩⟩
    · rintro hmem
      obtain ⟨w, hw, heq⟩ := List.mem_map.mp hmem
      exact hout w hw heq
    · intro hmem
      obtain ⟨r, hr, hpub⟩ := List.mem_map.mp hmem
      exact hrec k ⟨hk, r, hr, hpub⟩ heq
    · intro hmem
      obtain ⟨r, hr, hpub⟩ := List.mem_map.mp hmem
      exact href k ⟨hk, r, hr, hpub⟩ heq
  rintro (⟨w, hw, -, d, ⟨-, hd⟩, heq⟩ | ⟨r, hr, -, k, ⟨hk, -, d, ⟨-, hd⟩, heq⟩, hpub⟩ |
    ⟨r, hr, -, k, ⟨hk, -, d, ⟨-, hd⟩, heq⟩, hpub⟩)
  · exact (hunused d hd).1 (List.mem_map.mpr ⟨w, hw, heq.symm⟩)
  · exact ((hunused d hd).2 k hk heq.symm).1 (List.mem_map.mpr ⟨r, hr, hpub.symm⟩)
  · have hr : r ∈ db.recoupRefresh := (List.mem_filter.mp (List.mem_filter.mp
      (List.mem_filter.mp hr).1).1).1
    exact ((hunused d hd).2 k hk heq.symm).2 (List.mem_map.mpr ⟨r, hr, hpub.symm⟩)

/-- A reserve has come to its time. -/
def Aborts (now : Timestamp) (db : GcDatabase) : Prop := ∃ r ∈ db.reserves, r.gcDate < now

instance Aborts.decidable (db : GcDatabase) : Decidable (Aborts now db) :=
  inferInstanceAs (Decidable (∃ r ∈ db.reserves, _))

variable (fk) in
/-- The database after all deletions. -/
def collected (ancient now : Timestamp) (db : GcDatabase) : GcDatabase :=
  let db := db.collectWithdrawals fk
  let db := (db.dropDenominations fk (db.unused now)).collectRefreshes fk
  (db.collectDeposits fk ancient).collectNonces

/-- **What the procedure does**: it deletes all it can, or fails on a reserve that has come to its
time. -/
theorem gc_eq : db.gc fk ancient now =
    if Aborts now db then db else db.collected fk ancient now := by
  have habort : (db.reserves.any fun r => r.gcDate < now) = true ↔ Aborts now db := by
    simp only [List.any_eq_true, decide_eq_true_eq, Aborts]
  unfold gc exchangeDoGc deleteReserves
  by_cases hab : Aborts now db
  · rw [if_pos hab, if_pos (habort.mpr hab)]
    rfl
  · rw [if_neg hab, if_neg fun h => hab (habort.mp h), Option.bind_eq_bind, Option.bind_some,
      collectDenominations_eq]
    rfl

/-! ## What is left -/

variable (fk) in
/-- A coin stays with its denomination. -/
def CoinStays (now : Timestamp) (db : GcDatabase) (k : KnownCoin) : Prop :=
  fk → ∀ d ∈ db.denominations, d.denominationsSerial = k.denominationsSerial →
    ¬ DenominationGoes fk now db d

variable (fk) in
/-- What refers to a coin stays with it. -/
def PubStays (now : Timestamp) (db : GcDatabase) (coinPub : CoinPub) : Prop :=
  fk → ∀ k ∈ db.knownCoins, k.coinPub = coinPub → CoinStays fk now db k

variable (fk) in
/-- What refers to a batch deposit stays with it. -/
def DepositStays (ancient : Timestamp) (db : GcDatabase) (serial : ℕ) : Prop :=
  fk → ∀ b ∈ db.batchDeposits, b.batchDepositSerialId = serial → ¬ b.wireDeadline < ancient

variable (fk) in
/-- A fresh coin of a melt stays with the melted coin and its own denomination, and if it is not
older than all melts that stay. -/
def RevealedStays (now : Timestamp) (db : GcDatabase) (c : RefreshRevealedCoin) : Prop :=
  (fk → ∀ m ∈ db.refreshCommitments, m.meltSerialId = c.meltSerialId →
    PubStays fk now db m.oldCoinPub) ∧
    (fk → ∀ d ∈ db.denominations, d.denominationsSerial = c.denominationsSerial →
      ¬ DenominationGoes fk now db d) ∧
    ((∃ m ∈ db.refreshCommitments, PubStays fk now db m.oldCoinPub) →
      ∃ m ∈ db.refreshCommitments, PubStays fk now db m.oldCoinPub ∧
        m.meltSerialId ≤ c.meltSerialId)

variable (fk) in
/-- The serial numbers of the denominations that are deleted. -/
def serialsGone (now : Timestamp) (db : GcDatabase) : List ℕ :=
  (db.denominations.filter ((db.collectWithdrawals fk).unused now)).map
    fun d => d.denominationsSerial

variable (fk) in
/-- The coins that are deleted. -/
def coinsGone (now : Timestamp) (db : GcDatabase) : List KnownCoin :=
  db.knownCoins.filter fun k => refersTo fk (serialsGone fk now db) k.denominationsSerial

variable (fk) in
/-- The melts are deleted with their coins. -/
def meltGoes (now : Timestamp) (db : GcDatabase) (m : RefreshCommitment) : Bool :=
  refersTo fk ((coinsGone fk now db).map KnownCoin.coinPub) m.oldCoinPub

/-- The numbers of the batch deposits that are deleted. -/
def depositsGone (ancient : Timestamp) (db : GcDatabase) : List ℕ :=
  (db.batchDeposits.filter fun b => b.wireDeadline < ancient).map
    BatchDeposit.batchDepositSerialId

section Keys

variable {key : ℕ}

/-- What refers to the denominations that go. -/
theorem refersTo_serialsGone : refersTo fk (serialsGone fk now db) key = false ↔
    (fk → ∀ d ∈ db.denominations, d.denominationsSerial = key →
      ¬ DenominationGoes fk now db d) := by
  rw [serialsGone, ← Bool.not_eq_true', not_refersTo_filter]
  simp only [← unused_iff, Bool.not_eq_true]

/-- What refers to the coins that go. -/
theorem refersTo_coinsGone {num : KnownCoin → ℕ} :
    refersTo fk ((coinsGone fk now db).map num) key = false ↔
      (fk → ∀ k ∈ db.knownCoins, num k = key → CoinStays fk now db k) := by
  rw [coinsGone, ← Bool.not_eq_true', not_refersTo_filter]
  simp only [refersTo_serialsGone, CoinStays]

theorem meltGoes_eq_false {m : RefreshCommitment} :
    meltGoes fk now db m = false ↔ PubStays fk now db m.oldCoinPub := refersTo_coinsGone

/-- What refers to the melts that go. -/
theorem refersTo_meltGoes :
    refersTo fk ((db.refreshCommitments.filter (meltGoes fk now db)).map
      RefreshCommitment.meltSerialId) key = false ↔
      (fk → ∀ m ∈ db.refreshCommitments, m.meltSerialId = key →
        PubStays fk now db m.oldCoinPub) := by
  rw [← Bool.not_eq_true', not_refersTo_filter]
  simp only [meltGoes_eq_false]

/-- What refers to the batch deposits that go. -/
theorem refersTo_depositsGone :
    refersTo fk (depositsGone ancient db) key = false ↔ DepositStays fk ancient db key := by
  rw [depositsGone, ← Bool.not_eq_true', not_refersTo_filter]
  simp only [decide_eq_false_iff_not, DepositStays]

end Keys

theorem mem_collected_reservesOut {w : ReserveOut} :
    w ∈ (db.collected fk ancient now).reservesOut ↔
      w ∈ db.reservesOut ∧ WithdrawalStays db w :=
  @mem_collectWithdrawals_reservesOut fk _ w

theorem mem_collected_recoup {r : Recoup} :
    r ∈ (db.collected fk ancient now).recoup ↔ r ∈ db.recoup ∧ RecoupStays fk db r :=
  mem_collectWithdrawals_recoup

theorem mem_collected_denominations {d : DatedDenomination} :
    d ∈ (db.collected fk ancient now).denominations ↔
      d ∈ db.denominations ∧ ¬ DenominationGoes fk now db d := by
  change d ∈ db.denominations.filter (fun d => !(db.collectWithdrawals fk).unused now d) ↔ _
  rw [List.mem_filter, ← unused_iff, Bool.not_eq_true', Bool.not_eq_true]

theorem mem_collected_knownCoins {k : KnownCoin} :
    k ∈ (db.collected fk ancient now).knownCoins ↔ k ∈ db.knownCoins ∧ CoinStays fk now db k := by
  change k ∈ db.knownCoins.filter (fun k =>
    !refersTo fk (serialsGone fk now db) k.denominationsSerial) ↔ _
  rw [List.mem_filter, Bool.not_eq_true', refersTo_serialsGone]
  rfl

theorem mem_collected_batchDeposits {b : BatchDeposit} :
    b ∈ (db.collected fk ancient now).batchDeposits ↔
      b ∈ db.batchDeposits ∧ ¬ b.wireDeadline < ancient := by
  change b ∈ db.batchDeposits.filter (fun b => !decide (b.wireDeadline < ancient)) ↔ _
  rw [List.mem_filter, Bool.not_eq_true', decide_eq_false_iff_not]

/-- The locks at or below the smallest denomination that stays are deleted. -/
theorem mem_collected_csNonceLocks {l : CsNonceLock} :
    l ∈ (db.collected fk ancient now).csNonceLocks ↔ l ∈ db.csNonceLocks ∧
      ((∃ d ∈ db.denominations, ¬ DenominationGoes fk now db d) →
        ∃ d ∈ db.denominations, ¬ DenominationGoes fk now db d ∧
          d.denominationsSerial < l.maxDenominationSerial) := by
  change l ∈ db.csNonceLocks.filter (fun l => !upTo l.maxDenominationSerial (minimumOf
    ((db.denominations.filter fun d => !(db.collectWithdrawals fk).unused now d).map
      fun d => d.denominationsSerial))) ↔ _
  rw [List.mem_filter, not_upTo_filter]
  simp only [Bool.not_eq_true', ← Bool.not_eq_true, unused_iff]

variable (fk) in
/-- The coin deposits that are left before they are deleted by number. -/
def depositsLeft (ancient now : Timestamp) (db : GcDatabase) : List CoinDeposit :=
  (db.coinDeposits.filter fun c =>
    !refersTo fk ((coinsGone fk now db).map KnownCoin.coinPub) c.coinPub).filter fun c =>
      !refersTo fk (depositsGone ancient db) c.batchDepositSerialId

theorem mem_depositsLeft {c : CoinDeposit} : c ∈ depositsLeft fk ancient now db ↔
    c ∈ db.coinDeposits ∧ PubStays fk now db c.coinPub ∧
      DepositStays fk ancient db c.batchDepositSerialId := by
  simp only [depositsLeft, List.mem_filter, Bool.not_eq_true', refersTo_coinsGone,
    refersTo_depositsGone, and_assoc, PubStays]

/-- No coin deposit lies below the smallest one. -/
theorem mem_collected_coinDeposits {c : CoinDeposit} :
    c ∈ (db.collected fk ancient now).coinDeposits ↔
      c ∈ db.coinDeposits ∧ PubStays fk now db c.coinPub ∧
        DepositStays fk ancient db c.batchDepositSerialId := by
  change c ∈ (depositsLeft fk ancient now db).filter (fun c => !below c.batchDepositSerialId
    (minimumOf ((depositsLeft fk ancient now db).map CoinDeposit.batchDepositSerialId))) ↔ _
  rw [List.mem_filter, ← mem_depositsLeft, and_iff_left_iff_imp]
  exact fun hc => not_below_of_mem (List.mem_map_of_mem hc)

/-- Nor does a refund whose coin deposit is left. -/
theorem mem_collected_refunds {f : Refund} (hf : ∃ c ∈ db.coinDeposits,
      c.batchDepositSerialId = f.batchDepositSerialId ∧ c.coinPub = f.coinPub) :
    f ∈ (db.collected fk ancient now).refunds ↔
      f ∈ db.refunds ∧ PubStays fk now db f.coinPub ∧
        DepositStays fk ancient db f.batchDepositSerialId := by
  obtain ⟨c, hc, hbatch, hpub⟩ := hf
  change f ∈ ((db.refunds.filter fun f =>
    !refersTo fk ((coinsGone fk now db).map KnownCoin.coinPub) f.coinPub).filter fun f =>
      !refersTo fk (depositsGone ancient db) f.batchDepositSerialId).filter (fun f =>
        !below f.batchDepositSerialId (minimumOf ((depositsLeft fk ancient now db).map
          CoinDeposit.batchDepositSerialId))) ↔ _
  simp only [List.mem_filter, Bool.not_eq_true', refersTo_coinsGone, refersTo_depositsGone,
    and_assoc, PubStays]
  refine and_congr_right fun _ => ?_
  rw [← and_assoc, and_iff_left_iff_imp, ← Bool.not_eq_true']
  rintro ⟨hp, hd⟩
  refine not_below_of_mem (List.mem_map.mpr ⟨c, mem_depositsLeft.mpr ⟨hc, ?_, ?_⟩, hbatch⟩)
  · exact hpub ▸ hp
  · exact hbatch ▸ hd

theorem mem_collected_refreshCommitments {m : RefreshCommitment} :
    m ∈ (db.collected fk ancient now).refreshCommitments ↔
      m ∈ db.refreshCommitments ∧ PubStays fk now db m.oldCoinPub := by
  change m ∈ db.refreshCommitments.filter (fun m => !meltGoes fk now db m) ↔ _
  rw [List.mem_filter, Bool.not_eq_true', meltGoes_eq_false]

variable (fk) in
/-- The fresh coins that are left before they are deleted by number. -/
def revealedLeft (now : Timestamp) (db : GcDatabase) : List RefreshRevealedCoin :=
  (db.refreshRevealedCoins.filter fun c => !refersTo fk ((db.refreshCommitments.filter
    (meltGoes fk now db)).map RefreshCommitment.meltSerialId) c.meltSerialId).filter fun c =>
      !refersTo fk (serialsGone fk now db) c.denominationsSerial

variable (fk) in
/-- A fresh coin is older than all melts that stay. -/
def revealedOld (now : Timestamp) (db : GcDatabase) (c : RefreshRevealedCoin) : Bool :=
  below c.meltSerialId (minimumOf ((db.refreshCommitments.filter fun m =>
    !meltGoes fk now db m).map RefreshCommitment.meltSerialId))

theorem revealedStays_iff {c : RefreshRevealedCoin} : RevealedStays fk now db c ↔
    (refersTo fk ((db.refreshCommitments.filter (meltGoes fk now db)).map
        RefreshCommitment.meltSerialId) c.meltSerialId = false ∧
      refersTo fk (serialsGone fk now db) c.denominationsSerial = false) ∧
        revealedOld fk now db c = false := by
  rw [refersTo_meltGoes, refersTo_serialsGone, revealedOld, ← Bool.not_eq_true', not_below_filter,
    and_assoc]
  simp only [Bool.not_eq_true', meltGoes_eq_false, RevealedStays]

theorem mem_collected_refreshRevealedCoins {c : RefreshRevealedCoin} :
    c ∈ (db.collected fk ancient now).refreshRevealedCoins ↔
      c ∈ db.refreshRevealedCoins ∧ RevealedStays fk now db c := by
  change c ∈ (revealedLeft fk now db).filter (fun c => !revealedOld fk now db c) ↔ _
  rw [revealedStays_iff]
  simp only [revealedLeft, List.mem_filter, Bool.not_eq_true', and_assoc]

/-- A refreshed recoup is deleted with its melted coin or its fresh one, or by number. -/
theorem mem_collected_recoupRefresh {r : RecoupRefresh} :
    r ∈ (db.collected fk ancient now).recoupRefresh ↔ r ∈ db.recoupRefresh ∧
      (fk → ∀ k ∈ db.knownCoins, k.knownCoinId = r.knownCoinId → CoinStays fk now db k) ∧
      (fk → ∀ c ∈ db.refreshRevealedCoins, c.rrcSerial = r.rrcSerial →
        RevealedStays fk now db c) ∧
      ((∃ k ∈ db.knownCoins, CoinStays fk now db k) →
        ∃ k ∈ db.knownCoins, CoinStays fk now db k ∧ k.knownCoinId ≤ r.knownCoinId) := by
  set byMelt : RefreshRevealedCoin → Bool := fun c => refersTo fk ((db.refreshCommitments.filter
    (meltGoes fk now db)).map RefreshCommitment.meltSerialId) c.meltSerialId with hbyMelt
  set bySerial : RefreshRevealedCoin → Bool := fun c =>
    refersTo fk (serialsGone fk now db) c.denominationsSerial with hbySerial
  have hstep : r ∈ (db.collected fk ancient now).recoupRefresh ↔
      r ∈ ((((db.recoupRefresh.filter fun r =>
        !refersTo fk ((coinsGone fk now db).map KnownCoin.knownCoinId) r.knownCoinId).filter
        fun r => !refersTo fk ((db.refreshRevealedCoins.filter byMelt).map
          RefreshRevealedCoin.rrcSerial) r.rrcSerial).filter fun r =>
        !refersTo fk (((db.refreshRevealedCoins.filter fun c => !byMelt c).filter bySerial).map
          RefreshRevealedCoin.rrcSerial) r.rrcSerial).filter fun r =>
        !refersTo fk (((revealedLeft fk now db).filter (revealedOld fk now db)).map
          RefreshRevealedCoin.rrcSerial) r.rrcSerial).filter fun r =>
        !below r.knownCoinId (minimumOf ((db.knownCoins.filter fun k =>
          !refersTo fk (serialsGone fk now db) k.denominationsSerial).map KnownCoin.knownCoinId)) :=
    Iff.rfl
  have hleft : ∀ c, c ∈ revealedLeft fk now db ↔
      (c ∈ db.refreshRevealedCoins ∧ byMelt c = false) ∧ bySerial c = false := fun c => by
    simp only [revealedLeft, List.mem_filter, Bool.not_eq_true', hbyMelt, hbySerial]
  have hcoin : ∀ k : KnownCoin, CoinStays fk now db k ↔
      refersTo fk (serialsGone fk now db) k.denominationsSerial = false := fun k =>
    refersTo_serialsGone.symm
  rw [hstep]
  simp only [List.mem_filter, not_refersTo_filter, not_below_filter]
  simp only [Bool.not_eq_true', refersTo_coinsGone, revealedStays_iff, and_assoc]
  simp only [hcoin]
  refine and_congr_right fun _ => and_congr_right fun _ => ?_
  rw [← and_assoc, ← and_assoc]
  refine and_congr ?_ Iff.rfl
  constructor
  · rintro ⟨⟨hmelt, hserial⟩, hold⟩ h c hc heq
    have hm := hmelt h c hc heq
    have hs := hserial h c ⟨hc, hm⟩ heq
    exact ⟨hm, hs, hold h c ((hleft c).mpr ⟨⟨hc, hm⟩, hs⟩) heq⟩
  · intro hall
    refine ⟨⟨fun h c hc heq => (hall h c hc heq).1, fun h c hc heq => ?_⟩, fun h c hc heq => ?_⟩
    · exact (hall h c hc.1 heq).2.1
    · exact (hall h c ((hleft c).mp hc).1.1 heq).2.2

end GcDatabase

end TalerExchange
