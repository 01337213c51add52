import TalerExchange.Coin.Ledger
import TalerExchange.Deposit.Precheck
import TalerExchange.Reserve.Ledger

/-!
# The history of a coin

`TEH_PG_get_coin_transactions` follows the entries of `coin_history` to the rows they point to, with
one query for each table.

* `CoinTransaction`, `entryTransactions`, `getCoinTransactions`: the list and the queries;
* `HistoryComplete`: every row that concerns a coin has its entry, and every entry its row;
* `HistoryJoins`: the joins of the queries find what they look for;
* **`run_history`**: both hold in every state that a run reaches;
* **`rowSum_transactionRows`**: a sum over the list is a sum over the tables.
-/

namespace TalerExchange

open Sql Transition

/-! ## The list -/

/-- `struct TALER_EXCHANGEDB_TransactionList`: what the totals are computed from. -/
inductive CoinTransaction
  | deposit (amountWithFee depositFee : Amount)
  | melt (amountWithFee meltFee : Amount)
  | refund (refundAmount refundFee : Amount)
  | oldCoinRecoup (value : Amount)
  | recoup (value : Amount)
  | recoupRefresh (value : Amount)
  | purseDeposit (amount depositFee : Amount) (refunded : Bool)
  | purseRefund (refundAmount refundFee : Amount)
  | reserveOpen (coinContribution : Amount)
deriving DecidableEq, Repr

/-! What the queries return is read row by row; `none` if an amount cannot be read. -/

def addCoinDeposit (d : CoinDeposit) (den : Denomination) : Option CoinTransaction := do
  return .deposit (← Amount.ofTaler? d.amountWithFee) (← Amount.ofTaler? den.feeDeposit)

def addCoinMelt (m : RefreshCommitment) (den : Denomination) : Option CoinTransaction := do
  return .melt (← Amount.ofTaler? m.amountWithFee) (← Amount.ofTaler? den.feeRefresh)

def addCoinPurseDeposit (d : PurseDeposit) (den : Denomination) (refunded : Bool) :
    Option CoinTransaction := do
  return .purseDeposit (← Amount.ofTaler? d.amountWithFee) (← Amount.ofTaler? den.feeDeposit) refunded

def addCoinPurseDecision (d : PurseDeposit) (den : Denomination) : Option CoinTransaction := do
  return .purseRefund (← Amount.ofTaler? d.amountWithFee) (← Amount.ofTaler? den.feeRefund)

def addCoinRefund (r : Refund) (den : Denomination) : Option CoinTransaction := do
  return .refund (← Amount.ofTaler? r.amountWithFee) (← Amount.ofTaler? den.feeRefund)

def addOldCoinRecoup (r : RecoupRefresh) : Option CoinTransaction := do
  return .oldCoinRecoup (← Amount.ofTaler? r.amount)

def addCoinRecoup (r : Recoup) : Option CoinTransaction := do
  return .recoup (← Amount.ofTaler? r.amount)

def addCoinRecoupRefresh (r : RecoupRefresh) : Option CoinTransaction := do
  return .recoupRefresh (← Amount.ofTaler? r.amount)

def addCoinReserveOpen (d : ReserveOpenDeposit) : Option CoinTransaction := do
  return .reserveOpen (← Amount.ofTaler? d.contribution)

/-- The deposits of coin `c` in batch `b`. -/
def CoinTables.depositsIn (db : CoinTables) (c : CoinPub) (b : ℕ) : List CoinDeposit :=
  db.coinDeposits.rows.filter fun d => d.coinPub = c ∧ d.batchDepositSerialId = b

namespace Database

variable (db : Database) (c : CoinPub) (n : ℕ)

/-- `get_deposit_with_coin_pub`. -/
def getDepositWithCoinPub : List (Option CoinTransaction) :=
  match db.coinDeposits.lookupSerial n with
  | some d =>
    match db.batchDeposits.lookupSerial d.batchDepositSerialId, db.denominationOf c with
    | some b, some den =>
      if d.coinPub = c ∧ db.wireTargets.hasKey b.wireTargetHPayto = true then
        [addCoinDeposit d den]
      else []
    | _, _ => []
  | none => []

/-- `get_refresh_session_by_coin`. -/
def getRefreshSessionByCoin : List (Option CoinTransaction) :=
  match db.refreshCommitments.lookupSerial n, db.denominationOf c with
  | some m, some den =>
    if m.oldCoinPub = c then [addCoinMelt m den] else []
  | _, _ => []

/-- `get_purse_deposit_by_coin_pub`; without a decision the deposit counts as not refunded. -/
def getPurseDepositByCoinPub : List (Option CoinTransaction) :=
  match db.purseDeposits.lookupSerial n, db.denominationOf c with
  | some d, some den =>
    if d.coinPub = c ∧ db.purseRequests.hasKey d.pursePub = true then
      [addCoinPurseDeposit d den (db.isRefunded d.pursePub)]
    else []
  | _, _ => []

/-- `get_purse_decision_by_coin_pub`. -/
def getPurseDecisionByCoinPub : List (Option CoinTransaction) :=
  match db.purseDecision.lookupSerial n with
  | some p =>
    match db.purseDeposits.lookup (p.pursePub, c), db.denominationOf c with
    | some d, some den =>
      if p.refunded then [addCoinPurseDecision d den] else []
    | _, _ => []
  | none => []

/-- `get_refunds_by_coin`: the join with `coin_deposits` finds every deposit of the coin in the
batch. -/
def getRefundsByCoin : List (Option CoinTransaction) :=
  match db.refunds.lookupSerial n with
  | some r =>
    match db.batchDeposits.lookupSerial r.batchDepositSerialId, db.denominationOf c with
    | some _, some den =>
      if r.coinPub = c then
        (db.depositsIn c r.batchDepositSerialId).map fun _ => addCoinRefund r den
      else []
    | _, _ => []
  | none => []

/-- `recoup_by_old_coin`. -/
def recoupByOldCoin : List (Option CoinTransaction) :=
  match db.recoupRefresh.lookupSerial n with
  | some r =>
    match db.denominationOf r.coinPub with
    | some _ =>
      if db.oldCoinOf r.rrcSerial = some c then [addOldCoinRecoup r]
      else []
    | none => []
  | none => []

/-- `recoup_by_coin`. -/
def recoupByCoin : List (Option CoinTransaction) :=
  match db.recoup.lookupSerial n with
  | some r =>
    match db.reserveOfOut r.reserveOutSerialId, db.denominationOf c with
    | some _, some _ => if r.coinPub = c then [addCoinRecoup r] else []
    | _, _ => []
  | none => []

/-- `recoup_by_refreshed_coin`. -/
def recoupByRefreshedCoin : List (Option CoinTransaction) :=
  match db.recoupRefresh.lookupSerial n with
  | some r =>
    match db.oldCoinOf r.rrcSerial, db.denominationOf c with
    | some old, some _ =>
      if r.coinPub = c ∧ db.knownCoins.hasKey old = true then
        [addCoinRecoupRefresh r]
      else []
    | _, _ => []
  | none => []

/-- `reserve_open_by_coin`. -/
def reserveOpenByCoin : List (Option CoinTransaction) :=
  match db.reservesOpenDeposits.lookupSerial n with
  | some d => if d.coinPub = c then [addCoinReserveOpen d] else []
  | none => []

/-- The queries of `handle_history_entry` by table; another table is an error. -/
def entryTransactions : HistoryTable → List (Option CoinTransaction)
  | .coinDeposits => db.getDepositWithCoinPub c n
  | .refreshCommitments => db.getRefreshSessionByCoin c n
  | .purseDeposits => db.getPurseDepositByCoinPub c n
  | .purseDecision => db.getPurseDecisionByCoinPub c n
  | .refunds => db.getRefundsByCoin c n
  | .recoupRefreshOld => db.recoupByOldCoin c n
  | .recoup => db.recoupByCoin c n
  | .recoupRefreshNew => db.recoupByRefreshedCoin c n
  | .reservesOpenDeposits => db.reserveOpenByCoin c n
  | _ => [none]

/-- `get_coin_history`. -/
def coinEntries : List CoinHistory := db.coinHistory.rows.filter fun h => h.coinPub = c

/-- `TEH_PG_get_coin_transactions` from the start of the history: the list, `none` if an amount
cannot be read. The entries are visited backwards and each is put at the head of the list. Without
entries the list is empty. -/
def getCoinTransactions : Option (List CoinTransaction) :=
  match db.knownCoins.lookup c, db.denominationOf c with
  | some kc, some _ =>
    if db.coinEntries c = [] then some []
    else do
      let _ ← Amount.ofTaler? kc.remaining
      ((db.coinEntries c).flatMap fun h => db.entryTransactions c h.serialId h.tableName).mapM id
  | _, _ => some []

end Database

/-! ## Entries and rows -/

/-- The coin that row `n` of a table concerns. -/
def CoinTables.rowCoin (db : CoinTables) (n : ℕ) : HistoryTable → Option CoinPub
  | .coinDeposits => (db.coinDeposits.lookupSerial n).map (·.coinPub)
  | .refunds => (db.refunds.lookupSerial n).map (·.coinPub)
  | .refreshCommitments => (db.refreshCommitments.lookupSerial n).map (·.oldCoinPub)
  | .recoup => (db.recoup.lookupSerial n).map (·.coinPub)
  | .recoupRefreshNew => (db.recoupRefresh.lookupSerial n).map (·.coinPub)
  | .recoupRefreshOld => (db.recoupRefresh.lookupSerial n).bind fun r => db.oldCoinOf r.rrcSerial
  | .purseDeposits => (db.purseDeposits.lookupSerial n).map (·.coinPub)
  | .reservesOpenDeposits => (db.reservesOpenDeposits.lookupSerial n).map (·.coinPub)
  | _ => none

/-- The entries of a history are those of the rows. A decision about a purse concerns several coins
and is left to `KnownRows.decision`. -/
def Indexes (t : Table CoinHistory) (row : ℕ → HistoryTable → Option CoinPub) : Prop :=
  ∀ c u n, u ≠ .purseDecision → (t.hasKey (c, u, n) = true ↔ row n u = some c)

/-- **The history is complete.** -/
def HistoryComplete (db : CoinTables) : Prop := Indexes db.coinHistory db.rowCoin

section Indexes

variable {t t' : Table CoinHistory} {row row' : ℕ → HistoryTable → Option CoinPub}

theorem Indexes.congr (hi : Indexes t row) (hr : ∀ n u, row' n u = row n u) : Indexes t row' := by
  intro c u n hu
  rw [hr]
  exact hi c u n hu

/-- A new row and its entry. -/
theorem Indexes.insert (hi : Indexes t row) {c : CoinPub} {u : HistoryTable} {n : ℕ}
    (ht : t.insert? (fun i => ⟨i, c, u, n⟩) = some t') (hnew : row n u = none)
    (hself : ∀ m, row' m u = if m = n then some c else row m u)
    (hother : ∀ m v, v ≠ u → row' m v = row m v) : Indexes t' row' := by
  intro x v m hv
  rw [Table.hasKey_insert? ht, Bool.or_eq_true, hi x v m hv, decide_eq_true_eq]
  by_cases hu : v = u
  · subst hu
    rw [hself]
    by_cases hm : m = n
    · subst hm
      rw [hnew, if_pos rfl]
      exact ⟨fun h => h.elim (fun h => (nomatch h)) fun h => congrArg some (Prod.mk.inj h).1,
        fun h => Or.inr (by rw [← Option.some.inj h]; rfl)⟩
    · rw [if_neg hm]
      exact or_iff_left fun h => hm (Prod.mk.inj (Prod.mk.inj h).2).2.symm
  · rw [hother m v hu]
    exact or_iff_left fun h => hu (Prod.mk.inj (Prod.mk.inj h).2).1.symm

/-- Entries about decisions do not count. -/
theorem Indexes.decision (hi : Indexes t row) {n : ℕ} {cs : List CoinPub}
    (hc : CoinEntries .purseDecision n t cs t') : Indexes t' row := by
  induction hc with
  | nil => exact hi
  | cons ht _ ih =>
    apply ih
    intro c u m hu
    rw [Table.hasKey_insert?_ne ht fun e => hu (Prod.mk.inj (Prod.mk.inj e).2).1]
    exact hi c u m hu

end Indexes

theorem historyComplete_empty : HistoryComplete Database.empty.toCoinTables := by
  intro c u n _
  cases u <;> exact ⟨fun h => (nomatch h), fun h => (nomatch h)⟩

/-- **Every posting enters what it does to coins.** -/
theorem Posts.historyComplete {db db' : Database} {p : Posting} (h : Posts db p db')
    (hC : CoinArgsOk db p) (hr : CoinRows db.toCoinTables) (hi : HistoryComplete db.toCoinTables) :
    HistoryComplete db'.toCoinTables := by
  have hold : ∀ n, ((db.recoupRefresh.lookupSerial n).bind fun r => db'.oldCoinOf r.rrcSerial) =
      (db.recoupRefresh.lookupSerial n).bind fun r => db.oldCoinOf r.rrcSerial := by
    intro n
    cases hn : db.recoupRefresh.lookupSerial n with
    | none => rfl
    | some r =>
      obtain ⟨c, hc⟩ := hr.oldCoin r (Table.lookupSerial_eq_some.mp hn).1
      exact (h.grows.oldCoinOf hc).trans hc.symm
  cases h with
  | wireTarget =>
    rw [addWireTarget_frame]
    exact hi
  | initReserve =>
    rw [initReserve_frame]
    exact hi
  | reservePurse _ _ _ _ _ _ _ hpay =>
    rw [payForPurse_frame hpay]
    exact hi
  | coinDeposit ht hh =>
    refine Indexes.insert hi hh (by simp [CoinTables.rowCoin, Table.lookupSerial_nextSerial])
      (Table.column_insert? ht fun _ => rfl) fun m v hv => ?_
    cases v <;> first | rfl | exact absurd rfl hv
  | refund _ _ _ _ ht hh =>
    refine Indexes.insert hi hh (by simp [CoinTables.rowCoin, Table.lookupSerial_nextSerial])
      (Table.column_insert? ht fun _ => rfl) fun m v hv => ?_
    cases v <;> first | rfl | exact absurd rfl hv
  | melt ht hh =>
    refine Indexes.insert hi hh (by simp [CoinTables.rowCoin, Table.lookupSerial_nextSerial])
      (Table.column_insert? ht fun _ => rfl) fun m v hv => ?_
    cases v <;> first | rfl | exact absurd rfl hv | exact hold m
  | openDeposit ht hh =>
    refine Indexes.insert hi hh (by simp [CoinTables.rowCoin, Table.lookupSerial_nextSerial])
      (Table.column_insert? ht fun _ => rfl) fun m v hv => ?_
    cases v <;> first | rfl | exact absurd rfl hv
  | purseDeposit ht hh =>
    refine Indexes.insert hi hh (by simp [CoinTables.rowCoin, Table.lookupSerial_nextSerial])
      (Table.column_insert? ht fun _ => rfl) fun m v hv => ?_
    cases v <;> first | rfl | exact absurd rfl hv
  | recoupToReserve _ ht hh =>
    refine Indexes.insert hi hh (by simp [CoinTables.rowCoin, Table.lookupSerial_nextSerial])
      (Table.column_insert? ht fun _ => rfl) fun m v hv => ?_
    cases v <;> first | rfl | exact absurd rfl hv
  | @recoupToCoin a kc t h h' hc ho ht hh hh' =>
    -- the row gets two entries, first the one of the recouped coin
    have hnew : Indexes h fun m v =>
        if v = .recoupRefreshNew then (t.lookupSerial m).map (·.coinPub) else db.rowCoin m v := by
      refine Indexes.insert hi hh (by simp [CoinTables.rowCoin, Table.lookupSerial_nextSerial])
        (fun m => ?_) fun m v hv => if_neg hv
      rw [if_pos rfl]
      exact Table.column_insert? ht (fun _ => rfl) m
    -- then the one of the coin it was refreshed from
    have hC : db.oldCoinOf a.rrcSerial = some a.oldCoinPub := hC
    rw [hC] at hh'
    refine Indexes.insert hnew hh' (by simp [CoinTables.rowCoin, Table.lookupSerial_nextSerial])
      (fun m => ?_) fun m v hv => ?_
    · change ((t.lookupSerial m).bind fun r => db.oldCoinOf r.rrcSerial) = _
      rw [Table.lookupSerial_insert? ht, if_neg (show ¬ HistoryTable.recoupRefreshOld = _ by simp)]
      split_ifs
      · exact hC
      · rfl
    · cases v <;> first | rfl | exact absurd rfl hv
  | purseRefund _ _ hh => exact Indexes.decision hi hh
  | reveal =>
    refine Indexes.congr hi fun m v => ?_
    cases v <;> first | rfl | exact hold m
  | _ => exact hi

/-! ## Joins -/

/-- The arguments of the coin procedures are those that the request handlers compute: the fees and
the coin as in `CoinArgsOk`, the reserve that a recouped coin was withdrawn from, a purse that
exists. -/
def HistoryArgsOk (db : Database) : Posting → Prop
  | .recoupToReserve a => db.reserveOfOut a.reserveOutSerialId = some a.reservePub
  | .purseDeposit a => db.purseRequests.hasKey a.pursePub = true
  | p => CoinArgsOk db p

/-- The same for operations. -/
def HistoryCallerOk (db : Database) : Op → Prop
  | .recoupToReserve a => db.reserveOfOut a.reserveOutSerialId = some a.reservePub
  | .purseDeposit a => db.purseRequests.hasKey a.pursePub = true
  | o => CoinCallerOk db o

theorem HistoryArgsOk.coin {db : Database} {p : Posting} (h : HistoryArgsOk db p) :
    CoinArgsOk db p := by
  cases p with
  | refund => exact h
  | recoupToCoin => exact h
  | _ => trivial

theorem historyArgsOk_of_emits {db s : Database} {o : Op} {p : Posting} (ho : HistoryCallerOk db o)
    (he : Emits db o s p) : HistoryArgsOk s p := by
  cases p with
  | refund a =>
    obtain ⟨rfl, rfl⟩ := emits_refund he
    exact ho
  | recoupToCoin a =>
    obtain ⟨rfl, rfl⟩ := emits_recoupToCoin he
    exact ho
  | recoupToReserve a =>
    obtain ⟨rfl, rfl⟩ := emits_recoupToReserve he
    exact ho
  | purseDeposit a =>
    obtain ⟨rfl, rfl⟩ | ⟨b, ds, rfl, ⟨d, hd, rfl⟩, -, hk⟩ := emits_purseDeposit he
    · exact ho
    · exact hk
  | _ => trivial

/-- The joins of the queries find their rows; those with batches and accounts are in
`DepositRows`. -/
structure HistoryJoins (db : Database) : Prop where
  known : ∀ h ∈ db.coinHistory.rows, db.knownCoins.hasKey h.coinPub = true
  refunded : ∀ h ∈ db.coinHistory.rows, h.tableName = .purseDecision →
    ∃ p, db.purseDecision.lookupSerial h.serialId = some p ∧ p.refunded = true
  recoup : ∀ r ∈ db.recoup.rows, ∃ x, db.reserveOfOut r.reserveOutSerialId = some x
  purse : ∀ d ∈ db.purseDeposits.rows, ∃ t, db.purseTerms d.pursePub = some t

theorem historyJoins_empty : HistoryJoins Database.empty :=
  ⟨fun _ h => (nomatch h), fun _ h => (nomatch h), fun _ h => (nomatch h), fun _ h => (nomatch h)⟩

section Joins

variable {db db' : Database} {p : Posting}

/-- Old rows keep what they refer to; only the new ones are to be checked. -/
theorem HistoryJoins.step (hi : HistoryJoins db) (hg : Grows db.toCoinTables db'.toCoinTables)
    (hrg : ReserveGrows db db')
    (hdec : ∀ {n x}, db.purseDecision.lookupSerial n = some x →
      db'.purseDecision.lookupSerial n = some x)
    (hh : ∀ e ∈ db'.coinHistory.rows, e ∈ db.coinHistory.rows ∨
      (db'.knownCoins.hasKey e.coinPub = true ∧ (e.tableName = .purseDecision →
        ∃ x, db'.purseDecision.lookupSerial e.serialId = some x ∧ x.refunded = true)))
    (hc : ∀ r ∈ db'.recoup.rows, r ∈ db.recoup.rows ∨
      ∃ x, db'.reserveOfOut r.reserveOutSerialId = some x)
    (hp : ∀ d ∈ db'.purseDeposits.rows, d ∈ db.purseDeposits.rows ∨
      ∃ t, db'.purseTerms d.pursePub = some t) : HistoryJoins db' where
  known e he := (hh e he).elim (fun h => hg.known _ (hi.known e h)) And.left
  refunded e he ht := (hh e he).elim
    (fun h => (hi.refunded e h ht).imp fun _ hx => ⟨hdec hx.1, hx.2⟩) fun h => h.2 ht
  recoup r hr := (hc r hr).elim (fun h => (hi.recoup r h).imp fun _ hx => hrg.reserveOfOut hx) id
  purse d hd := (hp d hd).elim (fun h => (hi.purse d h).imp fun _ ht => hrg.terms ht) id

/-- An entry that is not about a decision. -/
theorem HistoryJoins.entry_cases {t t' : Table CoinHistory} {c : CoinPub} {u : HistoryTable} {n : ℕ}
    (ht : t.insert? (fun i => ⟨i, c, u, n⟩) = some t') (hu : u ≠ .purseDecision)
    (hk : db'.knownCoins.hasKey c = true) : ∀ e ∈ t'.rows, e ∈ t.rows ∨
      (db'.knownCoins.hasKey e.coinPub = true ∧ (e.tableName = .purseDecision →
        ∃ x, db'.purseDecision.lookupSerial e.serialId = some x ∧ x.refunded = true)) := by
  intro e he
  rcases (Table.mem_insert? ht).mp he with he | rfl
  · exact Or.inl he
  · exact Or.inr ⟨hk, fun h => absurd h hu⟩

/-- **Postings keep the joins.** -/
theorem Posts.historyJoins (h : Posts db p db') (hC : HistoryArgsOk db p)
    (hr : CoinRows db.toCoinTables) (hs : CoinsSound db.toCoinTables) (hi : HistoryJoins db) :
    HistoryJoins db' := by
  have hg := h.grows
  have hrg := h.reserveGrows hs
  have key : ∀ {c kc}, db.knownCoins.lookup c = some kc → db'.knownCoins.hasKey c = true :=
    fun hc => hg.known _ (Table.hasKey_of_lookup hc)
  cases h with
  | wireTarget =>
    rw [addWireTarget_frame] at hg hrg ⊢
    exact hi.step hg hrg (fun h => h) (fun _ => .inl) (fun _ => .inl) fun _ => .inl
  | initReserve =>
    rw [initReserve_frame] at hg hrg ⊢
    exact hi.step hg hrg (fun h => h) (fun _ => .inl) (fun _ => .inl) fun _ => .inl
  | reservePurse _ _ _ _ _ _ _ hpay =>
    rw [payForPurse_frame hpay] at hg hrg ⊢
    exact hi.step hg hrg (fun h => h) (fun _ => .inl) (fun _ => .inl) fun _ => .inl
  | coinDeposit _ hh _ hc =>
    exact hi.step hg hrg (fun h => h) (HistoryJoins.entry_cases hh (by simp) (key hc)) (fun _ => .inl)
      fun _ => .inl
  | refund _ _ hk _ _ hh =>
    exact hi.step hg hrg (fun h => h) (HistoryJoins.entry_cases hh (by simp) (hg.known _ hk))
      (fun _ => .inl) fun _ => .inl
  | melt _ hh hc =>
    exact hi.step hg hrg (fun h => h) (HistoryJoins.entry_cases hh (by simp) (key hc)) (fun _ => .inl)
      fun _ => .inl
  | openDeposit _ hh hc =>
    exact hi.step hg hrg (fun h => h) (HistoryJoins.entry_cases hh (by simp) (key hc)) (fun _ => .inl)
      fun _ => .inl
  | recoupToReserve hc ht hh =>
    refine hi.step hg hrg (fun h => h) (HistoryJoins.entry_cases hh (by simp) (key hc)) (fun r hr => ?_)
      fun _ => .inl
    rcases (Table.mem_insert? ht).mp hr with hr | rfl
    · exact Or.inl hr
    · exact Or.inr ⟨_, hrg.reserveOfOut hC⟩
  | recoupToCoin hc ho _ hh hh' =>
    refine hi.step hg hrg (fun h => h) (fun e he => ?_) (fun _ => .inl) fun _ => .inl
    have hC : db.oldCoinOf _ = some _ := hC
    rw [hC] at hh'
    exact (HistoryJoins.entry_cases hh' (by simp) (hg.known _ ho) e he).elim
      (HistoryJoins.entry_cases hh (by simp) (key hc) e) Or.inr
  | purseDeposit ht hh _ hc =>
    refine hi.step hg hrg (fun h => h) (HistoryJoins.entry_cases hh (by simp) (key hc)) (fun _ => .inl)
      fun d hd => ?_
    rcases (Table.mem_insert? ht).mp hd with hd | rfl
    · exact Or.inl hd
    · obtain ⟨q, hq⟩ := Table.exists_lookup hC
      exact Or.inr ⟨_, hrg.terms (purseTerms_of_lookup hq)⟩
  | finishMerge _ _ _ _ ht =>
    exact hi.step hg hrg (Table.lookupSerial_insert?_of_some ht) (fun _ => .inl) (fun _ => .inl)
      fun _ => .inl
  | purseMerge _ _ _ _ _ ht =>
    exact hi.step hg hrg (Table.lookupSerial_insert?_of_some ht) (fun _ => .inl) (fun _ => .inl)
      fun _ => .inl
  | purseRefund _ ht hh =>
    refine hi.step hg hrg (Table.lookupSerial_insert?_of_some ht) (fun e he => ?_) (fun _ => .inl)
      fun _ => .inl
    refine (hh.mem he).imp id fun ⟨hc, hn⟩ => ?_
    obtain ⟨d, hd, e'⟩ := List.mem_map.mp hc
    refine ⟨e' ▸ hg.known _ (hr.pursed d (mem_depositsOf.mp hd).1), fun _ => ?_⟩
    rw [hn]
    exact ⟨_, Table.lookupSerial_insert?_self ht, rfl⟩
  | _ => exact hi.step hg hrg (fun h => h) (fun _ => .inl) (fun _ => .inl) fun _ => .inl

end Joins

/-! ## Runs -/

/-- What the queries rely on. -/
structure HistoryRows (db : Database) : Prop extends CoinRows db.toCoinTables, HistoryJoins db where
  complete : HistoryComplete db.toCoinTables
  ledger : CoinLedger db.toCoinTables
  sound : CoinsSound db.toCoinTables

theorem Posts.historyRows {db db' : Database} {p : Posting} (h : Posts db p db')
    (hC : HistoryArgsOk db p) (hi : HistoryRows db) : HistoryRows db' where
  toCoinRows := h.coinRows hC.coin hi.toCoinRows
  toHistoryJoins := h.historyJoins hC hi.toCoinRows hi.sound hi.toHistoryJoins
  complete := h.historyComplete hC.coin hi.toCoinRows hi.complete
  ledger := h.coinLedger hC.coin hi.toCoinRows hi.ledger
  sound := h.coinsSound hi.sound

/-- **In every state that a run reaches the history is complete and the joins find their rows.** -/
theorem run_history {ops : List Op} (h : Admits step HistoryCallerOk Database.empty ops) :
    HistoryRows (run step Database.empty ops) ∧
      DepositRows (fun _ _ _ _ => True) (run step Database.empty ops) := by
  refine ⟨run_posting_invariant (fun _ _ ho _ _ he => historyArgsOk_of_emits ho he) ?_
    (fun _ _ _ hC hp hi => hp.historyRows hC hi) h, run_depositRows ?_⟩
  · exact ⟨coinRows_empty, historyJoins_empty, historyComplete_empty, fun _ => rfl,
      fun _ h => (nomatch h)⟩
  · refine h.mono fun _ o _ => ?_
    cases o <;> simp [SignedOp]

/-! ## Sums over the list -/

/-- What `f` adds up to over the rows of a query. -/
def rowSum (f : Option CoinTransaction → ℤ) (l : List (Option CoinTransaction)) : ℤ :=
  (l.map f).sum

/-- What `f` adds up to over everything that the tables say about coin `c`. -/
def Database.recordSum (db : Database) (c : CoinPub) (den : Denomination)
    (f : Option CoinTransaction → ℤ) : ℤ :=
  db.coinDeposits.total (onlyIf (fun d => d.coinPub = c)
      fun d => f (addCoinDeposit d den)) +
    db.refreshCommitments.total (onlyIf (fun m => m.oldCoinPub = c)
      fun m => f (addCoinMelt m den)) +
    db.purseDeposits.total (onlyIf (fun d => d.coinPub = c)
      fun d => f (addCoinPurseDeposit d den (db.isRefunded d.pursePub))) +
    db.coinHistory.total (onlyIf (fun h => CoinTables.isEntry c .purseDecision h = true)
      fun h => (db.decisionDeposit h.serialId c).elim 0
        fun d => f (addCoinPurseDecision d den)) +
    db.refunds.total (onlyIf (fun r => r.coinPub = c) fun r =>
      (db.depositsIn c r.batchDepositSerialId).length * f (addCoinRefund r den)) +
    db.recoupRefresh.total (onlyIf (fun r => db.oldCoinOf r.rrcSerial = some c)
      fun r => f (addOldCoinRecoup r)) +
    db.recoup.total (onlyIf (fun r => r.coinPub = c)
      fun r => f (addCoinRecoup r)) +
    db.recoupRefresh.total (onlyIf (fun r => r.coinPub = c)
      fun r => f (addCoinRecoupRefresh r)) +
    db.reservesOpenDeposits.total (onlyIf (fun d => d.coinPub = c)
      fun d => f (addCoinReserveOpen d))

section Sums

variable {db : Database} {c : CoinPub} {den : Denomination} {f : Option CoinTransaction → ℤ}

@[simp] theorem rowSum_singleton (x : Option CoinTransaction) : rowSum f [x] = f x :=
  List.sum_singleton

/-- Every entry of a coin is about one of the tables with a query. -/
theorem HistoryComplete.tableName (hi : HistoryComplete db.toCoinTables) {h : CoinHistory}
    (hh : h ∈ db.coinHistory.rows) (ht : h.tableName ≠ .purseDecision) :
    db.rowCoin h.serialId h.tableName = some h.coinPub :=
  (hi _ _ _ ht).mp (Table.hasKey_iff.mpr ⟨h, hh, rfl⟩)

/-- The entries of one table, through the rows they point to. -/
theorem total_entries {α κ : Type} [Record α κ] (hi : HistoryComplete db.toCoinTables)
    {u : HistoryTable} (hu : u ≠ .purseDecision) {t : Table α} {q : α → Prop} [DecidablePred q]
    (hrow : ∀ n, db.rowCoin n u = some c ↔ ∃ r, t.lookupSerial n = some r ∧ q r) {g : α → ℤ}
    (hg : ∀ r ∈ t.rows, q r → rowSum f (db.entryTransactions c (Record.serial r) u) = g r) :
    db.coinHistory.total (onlyIf (fun h => CoinTables.isEntry c u h = true)
      fun h => rowSum f (db.entryTransactions c h.serialId h.tableName)) = t.total (onlyIf q g) := by
  refine Table.total_eq_of_pointers (·.serialId) (fun h hh he => ?_) (fun r hr hq => ?_)
    fun h hh h' hh' he he' e => ?_
  · simp only [CoinTables.isEntry, decide_eq_true_eq] at he
    obtain ⟨r, hr, hq⟩ := (hrow _).mp (he.2 ▸ he.1 ▸ hi.tableName hh (he.2 ▸ hu))
    obtain ⟨hmem, hser⟩ := Table.lookupSerial_eq_some.mp hr
    refine ⟨r, hr, hq, ?_⟩
    rw [← hser, he.2]
    exact hg r hmem hq
  · have hk : db.coinHistory.hasKey (c, u, Record.serial r) = true := (hi _ _ _ hu).mpr
      ((hrow _).mpr ⟨r, Table.lookupSerial_eq_some.mpr ⟨hr, rfl⟩, hq⟩)
    obtain ⟨h, hh, e⟩ := Table.hasKey_iff.mp hk
    obtain ⟨h₁, h₂⟩ := Prod.mk.inj e
    obtain ⟨h₂, h₃⟩ := Prod.mk.inj h₂
    exact ⟨h, hh, decide_eq_true ⟨h₁, h₂⟩, h₃⟩
  · simp only [CoinTables.isEntry, decide_eq_true_eq] at he he'
    exact Table.eq_of_key hh hh' (Prod.ext (he.1.trans he'.1.symm)
      (Prod.ext (he.2.trans he'.2.symm) e))

/-! ### The rows of each query -/

theorem rowSum_deposit (hd : DepositRows (fun _ _ _ _ => True) db)
    (hden : db.denominationOf c = some den)
    {d : CoinDeposit} (hm : d ∈ db.coinDeposits.rows) (hc : d.coinPub = c) :
    rowSum f (db.getDepositWithCoinPub c d.coinDepositSerialId) =
      f (addCoinDeposit d den) := by
  have hrow : db.coinDeposits.lookupSerial d.coinDepositSerialId = some d :=
    Table.lookupSerial_eq_some.mpr ⟨hm, rfl⟩
  obtain ⟨b, hb, -⟩ := hd.signed d hm
  have hw := hd.target b (Table.lookupSerial_eq_some.mp hb).1
  simp [Database.getDepositWithCoinPub, hrow, hb, hden, hc, hw]

theorem rowSum_refund (hr : HistoryRows db) (hd : DepositRows (fun _ _ _ _ => True) db)
    (hden : db.denominationOf c = some den)
    {r : Refund} (hm : r ∈ db.refunds.rows) (hc : r.coinPub = c) :
    rowSum f (db.getRefundsByCoin c r.refundSerialId) =
      (db.depositsIn c r.batchDepositSerialId).length *
        f (addCoinRefund r den) := by
  have hrow : db.refunds.lookupSerial r.refundSerialId = some r :=
    Table.lookupSerial_eq_some.mpr ⟨hm, rfl⟩
  obtain ⟨-, d, hdep⟩ := hr.refund r hm
  have hmem := List.mem_of_find?_eq_some hdep
  have hbatch : d.batchDepositSerialId = r.batchDepositSerialId := by
    have := List.find?_some hdep
    simp only [decide_eq_true_eq] at this
    exact this.2
  obtain ⟨b, hb, -⟩ := hd.signed d hmem
  rw [hbatch] at hb
  simp [Database.getRefundsByCoin, hrow, hb, hden, hc, rowSum]

theorem rowSum_melt (hden : db.denominationOf c = some den)
    {m : RefreshCommitment} (hm : m ∈ db.refreshCommitments.rows)
    (hc : m.oldCoinPub = c) : rowSum f (db.getRefreshSessionByCoin c m.meltSerialId) =
      f (addCoinMelt m den) := by
  have hrow : db.refreshCommitments.lookupSerial m.meltSerialId = some m :=
    Table.lookupSerial_eq_some.mpr ⟨hm, rfl⟩
  simp [Database.getRefreshSessionByCoin, hrow, hden, hc]

theorem rowSum_purseDeposit (hr : HistoryRows db) (hden : db.denominationOf c = some den)
    {d : PurseDeposit} (hm : d ∈ db.purseDeposits.rows)
    (hc : d.coinPub = c) : rowSum f (db.getPurseDepositByCoinPub c d.purseDepositSerialId) =
      f (addCoinPurseDeposit d den (db.isRefunded d.pursePub)) := by
  have hrow : db.purseDeposits.lookupSerial d.purseDepositSerialId = some d :=
    Table.lookupSerial_eq_some.mpr ⟨hm, rfl⟩
  obtain ⟨t, ht⟩ := hr.purse d hm
  obtain ⟨q, hq, -⟩ := Option.map_eq_some_iff.mp ht
  have hk := Table.hasKey_of_lookup hq
  simp [Database.getPurseDepositByCoinPub, hrow, hden, hc, hk]

theorem rowSum_purseRefund (hr : HistoryRows db) (hden : db.denominationOf c = some den)
    {h : CoinHistory} (hm : h ∈ db.coinHistory.rows)
    (he : CoinTables.isEntry c .purseDecision h = true) :
    rowSum f (db.getPurseDecisionByCoinPub c h.serialId) =
      (db.decisionDeposit h.serialId c).elim 0
        fun d => f (addCoinPurseDecision d den) := by
  simp only [CoinTables.isEntry, decide_eq_true_eq] at he
  obtain ⟨p, hp, href⟩ := hr.refunded h hm he.2
  obtain ⟨d, hdep⟩ := hr.decision h hm he.2
  rw [he.1] at hdep
  obtain ⟨p', hp', hlook⟩ := Option.bind_eq_some_iff.mp hdep
  cases hp.symm.trans hp'
  rw [hdep]
  simp [Database.getPurseDecisionByCoinPub, hp, hlook, hden, href]

theorem rowSum_oldCoinRecoup (hr : HistoryRows db)
    {r : RecoupRefresh} (hm : r ∈ db.recoupRefresh.rows)
    (hc : db.oldCoinOf r.rrcSerial = some c) :
    rowSum f (db.recoupByOldCoin c r.recoupRefreshUuid) =
      f (addOldCoinRecoup r) := by
  have hrow : db.recoupRefresh.lookupSerial r.recoupRefreshUuid = some r :=
    Table.lookupSerial_eq_some.mpr ⟨hm, rfl⟩
  -- the recouped coin has an entry of its own, so it is known
  have hkey : db.coinHistory.hasKey (r.coinPub, .recoupRefreshNew, r.recoupRefreshUuid) = true :=
    (hr.complete _ _ _ (by simp)).mpr (by simp [CoinTables.rowCoin, hrow])
  obtain ⟨h, hh, e⟩ := Table.hasKey_iff.mp hkey
  obtain ⟨den', hden'⟩ := hr.denomination _ (hr.known h hh)
  rw [(Prod.mk.inj e).1] at hden'
  simp only [Database.recoupByOldCoin, hrow, hden', hc, if_true, rowSum_singleton]

theorem rowSum_recoup (hr : HistoryRows db) (hden : db.denominationOf c = some den)
    {r : Recoup} (hm : r ∈ db.recoup.rows) (hc : r.coinPub = c) :
    rowSum f (db.recoupByCoin c r.recoupUuid) =
      f (addCoinRecoup r) := by
  have hrow : db.recoup.lookupSerial r.recoupUuid = some r :=
    Table.lookupSerial_eq_some.mpr ⟨hm, rfl⟩
  obtain ⟨x, hx⟩ := hr.toHistoryJoins.recoup r hm
  simp only [Database.recoupByCoin, hrow, hx, hden, hc, if_true, rowSum_singleton]

theorem rowSum_recoupRefresh (hr : HistoryRows db) (hden : db.denominationOf c = some den)
    {r : RecoupRefresh} (hm : r ∈ db.recoupRefresh.rows)
    (hc : r.coinPub = c) : rowSum f (db.recoupByRefreshedCoin c r.recoupRefreshUuid) =
      f (addCoinRecoupRefresh r) := by
  have hrow : db.recoupRefresh.lookupSerial r.recoupRefreshUuid = some r :=
    Table.lookupSerial_eq_some.mpr ⟨hm, rfl⟩
  obtain ⟨old, hold⟩ := hr.oldCoin r hm
  have hkey : db.coinHistory.hasKey (old, .recoupRefreshOld, r.recoupRefreshUuid) = true :=
    (hr.complete _ _ _ (by simp)).mpr (by simp [CoinTables.rowCoin, hrow, hold])
  obtain ⟨h, hh, e⟩ := Table.hasKey_iff.mp hkey
  have hk := hr.known h hh
  rw [(Prod.mk.inj e).1] at hk
  simp only [Database.recoupByRefreshedCoin, hrow, hold, hden, hc, hk, and_self, if_true,
    rowSum_singleton]

theorem rowSum_reserveOpen {d : ReserveOpenDeposit} (hm : d ∈ db.reservesOpenDeposits.rows)
    (hc : d.coinPub = c) : rowSum f (db.reserveOpenByCoin c d.reserveOpenDepositUuid) =
      f (addCoinReserveOpen d) := by
  have hrow : db.reservesOpenDeposits.lookupSerial d.reserveOpenDepositUuid = some d :=
    Table.lookupSerial_eq_some.mpr ⟨hm, rfl⟩
  simp [Database.reserveOpenByCoin, hrow, hc]

/-- The tables that have a query. -/
def queriedTables : List HistoryTable :=
  [.coinDeposits, .refreshCommitments, .purseDeposits, .purseDecision, .refunds, .recoupRefreshOld,
    .recoup, .recoupRefreshNew, .reservesOpenDeposits]

/-- Every entry is about a table that has a query. -/
theorem HistoryComplete.queried (hi : HistoryComplete db.toCoinTables) {h : CoinHistory}
    (hh : h ∈ db.coinHistory.rows) : h.tableName ∈ queriedTables := by
  have hrow := hi.tableName hh
  cases ht : h.tableName <;> simp [queriedTables, CoinTables.rowCoin, ht] at hrow ⊢

/-- An entry counts with its table. -/
theorem sum_isEntry {h : CoinHistory} (hh : h.tableName ∈ queriedTables) (g : CoinHistory → ℤ) :
    (queriedTables.map fun u => onlyIf (fun h => CoinTables.isEntry c u h = true) g h).sum =
      onlyIf (fun h => h.coinPub = c) g h := by
  cases ht : h.tableName <;>
    simp [queriedTables, onlyIf, CoinTables.isEntry, ht] at hh ⊢

/-- **A sum over the entries is a sum over the tables.** -/
theorem sum_entries (hr : HistoryRows db) (hd : DepositRows (fun _ _ _ _ => True) db)
    (hden : db.denominationOf c = some den) :
    ((db.coinEntries c).map fun h =>
      rowSum f (db.entryTransactions c h.serialId h.tableName)).sum = db.recordSum c den f := by
  rw [Database.coinEntries, Table.sum_filter, Table.total_congr fun h hh =>
    (sum_isEntry (hr.complete.queried hh) _).symm]
  simp only [queriedTables, List.map_cons, List.map_nil, List.sum_cons, List.sum_nil,
    Table.total_add]
  have hdec : db.coinHistory.total (onlyIf (fun h => CoinTables.isEntry c .purseDecision h = true)
      fun h => rowSum f (db.entryTransactions c h.serialId h.tableName)) =
      db.coinHistory.total (onlyIf (fun h => CoinTables.isEntry c .purseDecision h = true)
        fun h => (db.decisionDeposit h.serialId c).elim 0
          fun d => f (addCoinPurseDecision d den)) := by
    refine Table.total_congr fun h hh => ?_
    simp only [onlyIf]
    split_ifs with he
    · rw [← rowSum_purseRefund hr hden hh he]
      simp only [CoinTables.isEntry, decide_eq_true_eq] at he
      rw [he.2]
      rfl
    · rfl
  rw [hdec,
    total_entries hr.complete (u := .coinDeposits) (by simp) (t := db.coinDeposits)
      (q := fun d => d.coinPub = c) (fun _ => Option.map_eq_some_iff) fun _ hm hc => rowSum_deposit hd hden hm hc,
    total_entries hr.complete (u := .refreshCommitments) (by simp) (t := db.refreshCommitments)
      (q := fun m => m.oldCoinPub = c) (fun _ => Option.map_eq_some_iff) fun _ hm hc => rowSum_melt hden hm hc,
    total_entries hr.complete (u := .purseDeposits) (by simp) (t := db.purseDeposits)
      (q := fun d => d.coinPub = c) (fun _ => Option.map_eq_some_iff) fun _ hm hc => rowSum_purseDeposit hr hden hm hc,
    total_entries hr.complete (u := .refunds) (by simp) (t := db.refunds)
      (q := fun r => r.coinPub = c) (fun _ => Option.map_eq_some_iff) fun _ hm hc => rowSum_refund hr hd hden hm hc,
    total_entries hr.complete (u := .recoupRefreshOld) (by simp) (t := db.recoupRefresh)
      (q := fun r => db.oldCoinOf r.rrcSerial = some c) (fun _ => Option.bind_eq_some_iff) fun _ hm hc => rowSum_oldCoinRecoup hr hm hc,
    total_entries hr.complete (u := .recoup) (by simp) (t := db.recoup)
      (q := fun r => r.coinPub = c) (fun _ => Option.map_eq_some_iff) fun _ hm hc => rowSum_recoup hr hden hm hc,
    total_entries hr.complete (u := .recoupRefreshNew) (by simp) (t := db.recoupRefresh)
      (q := fun r => r.coinPub = c) (fun _ => Option.map_eq_some_iff) fun _ hm hc => rowSum_recoupRefresh hr hden hm hc,
    total_entries hr.complete (u := .reservesOpenDeposits) (by simp) (t := db.reservesOpenDeposits)
      (q := fun d => d.coinPub = c) (fun _ => Option.map_eq_some_iff) fun _ hm hc => rowSum_reserveOpen hm hc]
  have hzero : db.coinHistory.total (fun _ => 0) = 0 := Table.total_eq_zero fun _ _ => rfl
  unfold Database.recordSum
  omega

/-! ### The list -/

theorem mapM_id_eq_some {α : Type} {l : List (Option α)} {xs : List α} :
    l.mapM id = some xs ↔ l = xs.map some := by
  induction l generalizing xs with
  | nil => cases xs <;> simp
  | cons x l ih =>
    rw [List.mapM_cons]
    cases x with
    | none => cases xs <;> simp
    | some x =>
      cases hl : l.mapM id with
      | none =>
        have hne : ∀ ys : List α, l ≠ ys.map some := fun ys e => by
          rw [← ih] at e
          rw [hl] at e
          cases e
        cases xs <;> simp [hne]
      | some ys =>
        cases ih.mp hl
        cases xs with
        | nil => simp
        | cons y xs => simp [List.map_inj_right]

/-- The rows of all queries. -/
def Database.transactionRows (db : Database) (c : CoinPub) : List (Option CoinTransaction) :=
  (db.coinEntries c).flatMap fun h => db.entryTransactions c h.serialId h.tableName

/-- **When there is a list, and which.** -/
theorem getCoinTransactions_eq_some {kc : KnownCoin} (hkc : db.knownCoins.lookup c = some kc)
    (hden : db.denominationOf c = some den) {tl : List CoinTransaction} :
    db.getCoinTransactions c = some tl ↔
      (db.coinEntries c = [] ∨ (Amount.ofTaler? kc.remaining).isSome = true) ∧
        db.transactionRows c = tl.map some := by
  unfold Database.getCoinTransactions Database.transactionRows
  simp only [hkc, hden]
  split_ifs with he
  · rw [he]
    cases tl <;> simp
  · cases hv : Amount.ofTaler? kc.remaining with
    | none => simp [he]
    | some v =>
      simp only [Option.bind_eq_bind, Option.bind_some, Option.isSome_some, or_true, true_and]
      exact mapM_id_eq_some

/-- **A sum over the list is a sum over the tables.** -/
theorem rowSum_transactionRows (hr : HistoryRows db) (hd : DepositRows (fun _ _ _ _ => True) db)
    (hden : db.denominationOf c = some den) (f : Option CoinTransaction → ℤ) :
    rowSum f (db.transactionRows c) = db.recordSum c den f := by
  rw [← sum_entries hr hd hden]
  unfold rowSum Database.transactionRows
  induction db.coinEntries c with
  | nil => rfl
  | cons h l ih =>
    rw [List.flatMap_cons, List.map_append, List.sum_append, ih, List.map_cons, List.sum_cons]

/-- `1` for a row that cannot be read. -/
def unreadable (x : Option CoinTransaction) : ℤ := if x.isNone then 1 else 0

theorem exists_list_iff {l : List (Option CoinTransaction)} :
    (∃ tl : List CoinTransaction, l = tl.map some) ↔ rowSum unreadable l = 0 := by
  unfold rowSum
  induction l with
  | nil => exact ⟨fun _ => rfl, fun _ => ⟨[], rfl⟩⟩
  | cons x l ih =>
    have hl : 0 ≤ (l.map unreadable).sum := List.sum_nonneg fun y hy => by
      obtain ⟨z, -, rfl⟩ := List.mem_map.mp hy
      unfold unreadable
      split_ifs <;> omega
    rw [List.map_cons, List.sum_cons]
    cases x with
    | none =>
      have hx : unreadable none = 1 := rfl
      refine ⟨fun ⟨tl, h⟩ => ?_, fun h => by omega⟩
      cases tl <;> simp at h
    | some x =>
      have hx : unreadable (some x) = 0 := rfl
      rw [hx, zero_add, ← ih]
      constructor
      · rintro ⟨tl, h⟩
        cases tl with
        | nil => cases h
        | cons y tl => exact ⟨tl, (List.cons.inj h).2⟩
      · rintro ⟨tl, rfl⟩
        exact ⟨x :: tl, rfl⟩

end Sums

/-! ## Amounts that can be read -/

/-- Every amount in the records of a coin can be read. -/
structure Database.Readable (db : Database) (c : CoinPub) (den : Denomination) : Prop where
  deposit : ∀ d ∈ db.coinDeposits.rows, d.coinPub = c → (addCoinDeposit d den).isSome = true
  melt : ∀ m ∈ db.refreshCommitments.rows, m.oldCoinPub = c → (addCoinMelt m den).isSome = true
  purseDeposit : ∀ d ∈ db.purseDeposits.rows, d.coinPub = c →
    (addCoinPurseDeposit d den (db.isRefunded d.pursePub)).isSome = true
  purseRefund : ∀ h ∈ db.coinHistory.rows, CoinTables.isEntry c .purseDecision h = true →
    ∀ d, db.decisionDeposit h.serialId c = some d → (addCoinPurseDecision d den).isSome = true
  refund : ∀ r ∈ db.refunds.rows, r.coinPub = c → (addCoinRefund r den).isSome = true
  oldCoinRecoup : ∀ r ∈ db.recoupRefresh.rows, db.oldCoinOf r.rrcSerial = some c →
    (addOldCoinRecoup r).isSome = true
  recoup : ∀ r ∈ db.recoup.rows, r.coinPub = c → (addCoinRecoup r).isSome = true
  recoupRefresh : ∀ r ∈ db.recoupRefresh.rows, r.coinPub = c →
    (addCoinRecoupRefresh r).isSome = true
  reserveOpen : ∀ d ∈ db.reservesOpenDeposits.rows, d.coinPub = c →
    (addCoinReserveOpen d).isSome = true

section Readable

variable {db : Database} {c : CoinPub} {den : Denomination}

theorem unreadable_nonneg (x : Option CoinTransaction) : 0 ≤ unreadable x := by
  unfold unreadable
  split_ifs <;> omega

theorem unreadable_eq_zero {x : Option CoinTransaction} : unreadable x = 0 ↔ x.isSome = true := by
  cases x <;> simp [unreadable]

/-- A refund is in the list at least once. -/
theorem depositsIn_pos (hr : KnownRows db.toCoinTables) {r : Refund} (hm : r ∈ db.refunds.rows) :
    0 < (db.depositsIn r.coinPub r.batchDepositSerialId).length := by
  obtain ⟨-, d, hd⟩ := hr.refund r hm
  refine List.length_pos_of_mem (a := d) (List.mem_filter.mpr ⟨List.mem_of_find?_eq_some hd, ?_⟩)
  have := List.find?_some hd
  exact this

theorem exists_decisionDeposit (hr : KnownRows db.toCoinTables) {h : CoinHistory}
    (hh : h ∈ db.coinHistory.rows) (he : CoinTables.isEntry c .purseDecision h = true) :
    ∃ d, db.decisionDeposit h.serialId c = some d := by
  simp only [CoinTables.isEntry, decide_eq_true_eq] at he
  exact he.1 ▸ hr.decision h hh he.2

theorem recordSum_unreadable (hr : KnownRows db.toCoinTables) :
    db.recordSum c den unreadable = 0 ↔ db.Readable c den := by
  have hdec : ∀ h ∈ db.coinHistory.rows, 0 ≤ (db.decisionDeposit h.serialId c).elim 0
      fun d => unreadable (addCoinPurseDecision d den) := by
    intro h _
    cases db.decisionDeposit h.serialId c with
    | none => exact le_rfl
    | some d =>
      rw [Option.elim_some]
      exact unreadable_nonneg (addCoinPurseDecision d den)
  have href : ∀ r ∈ db.refunds.rows, 0 ≤ ((db.depositsIn c r.batchDepositSerialId).length : ℤ) *
      unreadable (addCoinRefund r den) := by
    intro r _
    have hu := unreadable_nonneg (addCoinRefund r den)
    generalize unreadable (addCoinRefund r den) = u at hu
    positivity
  have hpos : ∀ {α κ : Type} [Record α κ] {t : Table α} {g : α → Option CoinTransaction},
      ∀ r ∈ t.rows, 0 ≤ unreadable (g r) := fun r _ => unreadable_nonneg _
  have split : ∀ {x₁ x₂ x₃ x₄ x₅ x₆ x₇ x₈ x₉ : ℤ},
      x₁ + x₂ + x₃ + x₄ + x₅ + x₆ + x₇ + x₈ + x₉ = 0 → 0 ≤ x₁ → 0 ≤ x₂ → 0 ≤ x₃ → 0 ≤ x₄ → 0 ≤ x₅ →
      0 ≤ x₆ → 0 ≤ x₇ → 0 ≤ x₈ → 0 ≤ x₉ → x₁ = 0 ∧ x₂ = 0 ∧ x₃ = 0 ∧ x₄ = 0 ∧ x₅ = 0 ∧ x₆ = 0 ∧
        x₇ = 0 ∧ x₈ = 0 ∧ x₉ = 0 := by
    intros
    omega
  unfold Database.recordSum
  constructor
  · intro h
    obtain ⟨h₁, h₂, h₃, h₄, h₅, h₆, h₇, h₈, h₉⟩ := split h
      (Table.total_onlyIf_nonneg hpos) (Table.total_onlyIf_nonneg hpos) (Table.total_onlyIf_nonneg hpos)
      (Table.total_onlyIf_nonneg hdec) (Table.total_onlyIf_nonneg href) (Table.total_onlyIf_nonneg hpos)
      (Table.total_onlyIf_nonneg hpos) (Table.total_onlyIf_nonneg hpos) (Table.total_onlyIf_nonneg hpos)
    refine ⟨fun d hd hc => ?_, fun d hd hc => ?_, fun d hd hc => ?_, fun e he hc d hdep => ?_,
      fun r hm hc => ?_, fun d hd hc => ?_, fun d hd hc => ?_, fun d hd hc => ?_, fun d hd hc => ?_⟩
    · exact unreadable_eq_zero.mp ((Table.total_onlyIf_eq_zero hpos).mp h₁ d hd hc)
    · exact unreadable_eq_zero.mp ((Table.total_onlyIf_eq_zero hpos).mp h₂ d hd hc)
    · exact unreadable_eq_zero.mp ((Table.total_onlyIf_eq_zero hpos).mp h₃ d hd hc)
    · have h0 := (Table.total_onlyIf_eq_zero hdec).mp h₄ e he hc
      rw [hdep, Option.elim_some] at h0
      exact unreadable_eq_zero.mp h0
    · have h0 := (Table.total_onlyIf_eq_zero href).mp h₅ r hm hc
      have hlen := depositsIn_pos hr hm
      rw [hc] at hlen
      exact unreadable_eq_zero.mp ((mul_eq_zero.mp h0).resolve_left (by omega))
    · exact unreadable_eq_zero.mp ((Table.total_onlyIf_eq_zero hpos).mp h₆ d hd hc)
    · exact unreadable_eq_zero.mp ((Table.total_onlyIf_eq_zero hpos).mp h₇ d hd hc)
    · exact unreadable_eq_zero.mp ((Table.total_onlyIf_eq_zero hpos).mp h₈ d hd hc)
    · exact unreadable_eq_zero.mp ((Table.total_onlyIf_eq_zero hpos).mp h₉ d hd hc)
  · intro h
    rw [(Table.total_onlyIf_eq_zero hpos).mpr fun d hd hc => unreadable_eq_zero.mpr (h.deposit d hd hc),
      (Table.total_onlyIf_eq_zero hpos).mpr fun d hd hc => unreadable_eq_zero.mpr (h.melt d hd hc),
      (Table.total_onlyIf_eq_zero hpos).mpr fun d hd hc =>
        unreadable_eq_zero.mpr (h.purseDeposit d hd hc),
      (Table.total_onlyIf_eq_zero hdec).mpr fun e he hc => ?_,
      (Table.total_onlyIf_eq_zero href).mpr fun r hm hc => ?_,
      (Table.total_onlyIf_eq_zero hpos).mpr fun d hd hc =>
        unreadable_eq_zero.mpr (h.oldCoinRecoup d hd hc),
      (Table.total_onlyIf_eq_zero hpos).mpr fun d hd hc => unreadable_eq_zero.mpr (h.recoup d hd hc),
      (Table.total_onlyIf_eq_zero hpos).mpr fun d hd hc =>
        unreadable_eq_zero.mpr (h.recoupRefresh d hd hc),
      (Table.total_onlyIf_eq_zero hpos).mpr fun d hd hc =>
        unreadable_eq_zero.mpr (h.reserveOpen d hd hc)]
    · rfl
    · rw [unreadable_eq_zero.mpr (h.refund r hm hc), mul_zero]
    · cases hdep : db.decisionDeposit e.serialId c with
      | none => rfl
      | some d =>
        rw [Option.elim_some]
        exact unreadable_eq_zero.mpr (h.purseRefund e he hc d hdep)

/-- The value of a stored amount that can be read. -/
def storedValue (a : TalerAmount) : Amount := (Amount.ofTaler? a).getD Amount.zero

theorem ofTaler?_of_isSome {a : TalerAmount} (h : (Amount.ofTaler? a).isSome = true) :
    Amount.ofTaler? a = some (storedValue a) := by
  obtain ⟨v, hv⟩ := Option.isSome_iff_exists.mp h
  rw [storedValue, hv]
  rfl

theorem units_storedValue {a : TalerAmount} (h : (Amount.ofTaler? a).isSome = true) :
    (storedValue a).units = a.units :=
  Amount.units_ofTaler? (ofTaler?_of_isSome h)

/-- What is read from two amounts is readable with both. -/
theorem read₂ {a b : Amount} {k : Amount → Amount → CoinTransaction}
    (h : (do return k (← Amount.ofTaler? a) (← Amount.ofTaler? b) : Option CoinTransaction).isSome) :
    (do return k (← Amount.ofTaler? a) (← Amount.ofTaler? b) : Option CoinTransaction) =
      some (k a b) := by
  cases ha : Amount.ofTaler? a with
  | none => simp [ha] at h
  | some x =>
    cases hb : Amount.ofTaler? b with
    | none => simp [ha, hb] at h
    | some y =>
      rw [← Amount.ext_units (Amount.units_ofTaler? ha), ← Amount.ext_units (Amount.units_ofTaler? hb)]
      rfl

theorem read₁ {a : TalerAmount} {k : Amount → CoinTransaction}
    (h : (do return k (← Amount.ofTaler? a) : Option CoinTransaction).isSome) :
    (do return k (← Amount.ofTaler? a) : Option CoinTransaction) = some (k (storedValue a)) ∧
      (storedValue a).units = a.units := by
  cases ha : Amount.ofTaler? a with
  | none => simp [ha] at h
  | some x => exact ⟨by simp [storedValue, ha], units_storedValue (by rw [ha]; rfl)⟩

/-- **The sum over records that can be read.** -/
theorem Database.Readable.recordSum (h : db.Readable c den) (g : CoinTransaction → ℤ) :
    db.recordSum c den (fun x => x.elim 0 g) =
      db.coinDeposits.total (onlyIf (fun d => d.coinPub = c)
          fun d => g (.deposit d.amountWithFee den.feeDeposit)) +
        db.refreshCommitments.total (onlyIf (fun m => m.oldCoinPub = c)
          fun m => g (.melt m.amountWithFee den.feeRefresh)) +
        db.purseDeposits.total (onlyIf (fun d => d.coinPub = c) fun d =>
          g (.purseDeposit d.amountWithFee den.feeDeposit (db.isRefunded d.pursePub))) +
        db.coinHistory.total (onlyIf (fun h => CoinTables.isEntry c .purseDecision h = true)
          fun h => (db.decisionDeposit h.serialId c).elim 0
            fun d => g (.purseRefund d.amountWithFee den.feeRefund)) +
        db.refunds.total (onlyIf (fun r => r.coinPub = c) fun r =>
          (db.depositsIn c r.batchDepositSerialId).length *
            g (.refund r.amountWithFee den.feeRefund)) +
        db.recoupRefresh.total (onlyIf (fun r => db.oldCoinOf r.rrcSerial = some c)
          fun r => g (.oldCoinRecoup (storedValue r.amount))) +
        db.recoup.total (onlyIf (fun r => r.coinPub = c)
          fun r => g (.recoup (storedValue r.amount))) +
        db.recoupRefresh.total (onlyIf (fun r => r.coinPub = c)
          fun r => g (.recoupRefresh (storedValue r.amount))) +
        db.reservesOpenDeposits.total (onlyIf (fun d => d.coinPub = c)
          fun d => g (.reserveOpen d.contribution)) := by
  simp only [Database.recordSum]
  refine congrArg₂ _ (congrArg₂ _ (congrArg₂ _ (congrArg₂ _ (congrArg₂ _ (congrArg₂ _ (congrArg₂ _
    (congrArg₂ _ ?_ ?_) ?_) ?_) ?_) ?_) ?_) ?_) ?_ <;> refine Table.total_onlyIf_congr ?_
  · intro d hd hc
    rw [addCoinDeposit, read₂ (h.deposit d hd hc), Option.elim_some]
  · intro m hm hc
    rw [addCoinMelt, read₂ (h.melt m hm hc), Option.elim_some]
  · intro d hd hc
    rw [addCoinPurseDeposit, read₂ (k := fun x y => .purseDeposit x y _) (h.purseDeposit d hd hc),
      Option.elim_some]
  · intro e he hc
    cases hdep : db.decisionDeposit e.serialId c with
    | none => rw [Option.elim_none, Option.elim_none]
    | some d =>
      rw [Option.elim_some, Option.elim_some, addCoinPurseDecision,
        read₂ (h.purseRefund e he hc d hdep), Option.elim_some]
  · intro r hr hc
    rw [addCoinRefund, read₂ (h.refund r hr hc), Option.elim_some]
  · intro r hr hc
    rw [addOldCoinRecoup, (read₁ (h.oldCoinRecoup r hr hc)).1, Option.elim_some]
  · intro r hr hc
    rw [addCoinRecoup, (read₁ (h.recoup r hr hc)).1, Option.elim_some]
  · intro r hr hc
    rw [addCoinRecoupRefresh, (read₁ (h.recoupRefresh r hr hc)).1, Option.elim_some]
  · intro d hd hc
    have hv := read₁ (h.reserveOpen d hd hc)
    rw [addCoinReserveOpen, hv.1, Option.elim_some, Amount.ext_units hv.2]

end Readable

end TalerExchange
