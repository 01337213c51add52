import Mathlib.Data.List.Chain
import TalerExchange.Reserve.Figures
import TalerExchange.Sql.Session

/-!
# The closer

`taler-exchange-closer` pays out the reserves that their owners asked to close and those that have
expired. One round runs in one transaction, in which a single query marks all close requests as done
and hands them to a callback, one after the other. The callback commits when there is nothing to
transfer, and the round decides by the number of requests how to go on.

* `closurePlan`, `expiredReserveCb`, `runReserveClosures`: the daemon;
* `closerStep`: rounds of the daemon between the operations of everybody else;
* **`run_closures`**: a run in which no round finds more than one request, and only requests that
  the reserve still covers, keeps going and accounts for what it debits;
* `twoRequests`, `lateRequest`: rounds that hang, and rounds that fail.
-/

namespace TalerExchange

open Sql Transition

/-! ## The daemon -/

/-- A transfer in `prewire`, as `TALER_BANK_prepare_transfer` packs it. -/
structure PreparedTransfer where
  wireMethod : String
  accountPaytoUri : String
  amount : Amount
  wtid : ℕ
deriving DecidableEq, Repr

/-- The database with the transfers that the closer has prepared. -/
structure CloserState where
  db : Database
  prewire : List PreparedTransfer

/-- What a round reads besides the database: the configuration, the wire fees, and the clock. -/
structure CloserEnv where
  findAccount : String → Option String
  closingFee : String → Timestamp → Option Amount
  fullPaytoHash : String → HashCode
  currencyRoundUnit : Amount
  testMode : Bool
  now : Timestamp

/-- The arguments of `expired_reserve_cb`. -/
structure ToClose where
  reservePub : ReservePub
  left : Amount
  accountPaytoUri : String
  expirationDate : Timestamp
  closeRequestRow : ℕ
deriving DecidableEq, Repr

/-- What the callback is about to do. -/
structure ClosurePlan where
  wireMethod : String
  closingFee : Amount
  amountWithoutFee : Amount
deriving DecidableEq, Repr

/-- The fee, which is at most what is left, and the transfer; `none` where the callback gives up. -/
def closurePlan (e : CloserEnv) (x : ToClose) : Option ClosurePlan := do
  let method ← e.findAccount x.accountPaytoUri
  let fee ← e.closingFee method x.expirationDate
  let (fee, rest) := match x.left.subtract? fee with
    | none => (x.left, Amount.zero)
    | some rest => if rest = Amount.zero then (x.left, rest) else (fee, rest)
  let amount ← rest.roundDown? e.currencyRoundUnit
  return ⟨method, fee, amount⟩

/-- The arguments for `TEH_PG_insert_reserve_closed`; the reserve is the transfer identifier. -/
def ToClose.closedArgs (e : CloserEnv) (x : ToClose) (p : ClosurePlan) : ReserveClosedArgs where
  reservePub := x.reservePub
  executionDate := e.now
  hPayto := e.fullPaytoHash x.accountPaytoUri
  wtid := x.reservePub
  amountWithFee := x.left
  closingFee := p.closingFee
  closeRequestRow := x.closeRequestRow

theorem ReserveClosedArgs.serial_row (a : ReserveClosedArgs) (i : ℕ) : Record.serial (a.row i) = i :=
  rfl

theorem Reserve.key_balance (balance : TalerAmount) (x : Reserve) :
    Record.key { x with currentBalance := balance } = Record.key x := rfl

theorem Reserve.serial_balance (balance : TalerAmount) (x : Reserve) :
    Record.serial { x with currentBalance := balance } = Record.serial x := rfl

/-- The first statement of `TEH_PG_insert_reserve_closed`. -/
def reservesCloseInsert (db : Database) (a : ReserveClosedArgs) : Exec Database := do
  let t ← orUnique (db.reservesClose.insert? a.row a.serial_row)
  require (db.reserves.hasKey a.reservePub)
  { db with reservesClose := t }.addReserveHistory a.reservePub .reservesClose
    db.reservesClose.nextSerial

/-- The rest of `TEH_PG_insert_reserve_closed`. -/
def debitClosed (db : Database) (a : ReserveClosedArgs) : Exec Database :=
  match db.reserves.lookup a.reservePub with
  | none => .error .assertFailure
  | some r =>
    match (Amount.ofTaler? r.currentBalance).bind fun b => b.subtract? a.amountWithFee with
    | none => .error .assertFailure
    | some balance =>
      return { db with
        reserves := db.setReserve a.reservePub (fun x => { x with currentBalance := balance })
          (Reserve.key_balance balance) (Reserve.serial_balance balance) }

/-- A statement on the database of the closer. -/
def CloserState.onDb (f : Database → Exec Database) (s : CloserState) : Option CloserState :=
  (f s.db).toOption.map fun db => { s with db := db }

/-- `wire_prepare_data_insert`. -/
def CloserState.prepare (p : PreparedTransfer) (s : CloserState) : CloserState :=
  { s with prewire := s.prewire ++ [p] }

/-- `expired_reserve_cb`: the connection afterwards, and whether the callback returns `GNUNET_OK`. -/
def expiredReserveCb (e : CloserEnv) (c : Session CloserState) (x : ToClose) :
    Session CloserState × Bool :=
  match closurePlan e x with
  | none => (c, false)
  | some p =>
    match c.exec (CloserState.onDb fun db => reservesCloseInsert db (x.closedArgs e p)) with
    | none => (c, false)
    | some c =>
      match c.exec (CloserState.onDb fun db => debitClosed db (x.closedArgs e p)) with
      | none => (c, false)
      | some c =>
        if p.amountWithoutFee = Amount.zero then (c.commit, true)
        else
          (c.apply (CloserState.prepare
            ⟨p.wireMethod, x.accountPaytoUri, p.amountWithoutFee, x.reservePub⟩), true)

/-- The loop over the rows of a query; a row that cannot be read stops it. -/
def closeAll (e : CloserEnv) : Session CloserState → List (Option ToClose) →
    Session CloserState × Bool
  | c, [] => (c, true)
  | c, none :: _ => (c, false)
  | c, some x :: xs =>
    match expiredReserveCb e c x with
    | (c, true) => closeAll e c xs
    | (c, false) => (c, false)

/-- The account that a reserve was filled from. -/
def accountDetails (db : Database) (r : ReservePub) : Option String := do
  let ri ← db.reservesIn.lookup r
  let wt ← db.wireTargets.lookup ri.wireSourceHPayto
  return wt.paytoUri

/-- The requests that are not done. -/
def unfinishedRequests (db : Database) : List CloseRequest :=
  db.closeRequests.rows.filter fun q => !q.done

/-- A row of `get_unfinished_close_requests`. -/
def CloseRequest.toClose (db : Database) (q : CloseRequest) : Option ToClose := do
  let uri ← accountDetails db q.reservePub
  let left ← Amount.ofTaler? q.close
  return ⟨q.reservePub, left, uri, q.closeTimestamp, q.closeRequestSerialId⟩

/-- The update of `get_unfinished_close_requests`. -/
def CloserState.markDone (s : CloserState) : CloserState :=
  { s with db := { s.db with
    closeRequests := s.db.closeRequests.update (fun q => !q.done) fun q => { q with done := true } } }

/-- `ORDER BY expiration_date ASC LIMIT 1`. -/
def earliest : List Reserve → Option Reserve
  | [] => none
  | r :: rs =>
    match earliest rs with
    | none => some r
    | some r' => if r.expirationDate ≤ r'.expirationDate then some r else some r'

/-- The reserve that `get_expired_reserves` finds. -/
def expiredReserve (db : Database) (now : Timestamp) : Option Reserve :=
  earliest (db.reserves.rows.filter fun r =>
    db.reservesIn.hasKey r.reservePub ∧ r.expirationDate ≤ now ∧
      (r.currentBalance.val ≠ 0 ∨ r.currentBalance.frac ≠ 0))

/-- The rows of `get_expired_reserves`. -/
def expiredRows (db : Database) (now : Timestamp) : List (Option ToClose) :=
  match expiredReserve db now with
  | none => []
  | some r =>
    match accountDetails db r.reservePub with
    | none => []
    | some uri =>
      [(Amount.ofTaler? r.currentBalance).map fun left =>
        ⟨r.reservePub, left, uri, r.expirationDate, 0⟩]

/-- What the scheduler has after a round: the next round at once or later, an exit, an exit with an
error, or nothing at all, with the transaction left open. -/
inductive ClosuresNext
  | again
  | sleep
  | exit
  | failure
  | nothing
deriving DecidableEq, Repr

/-- A round: the states it has committed, and what comes next. -/
structure ClosuresRound where
  commits : List CloserState
  next : ClosuresNext

/-- The switch of `run_reserve_closures` over the status of the query that found rows. -/
def finishRound (e : CloserEnv) (n : ℕ) : Session CloserState × Bool → ClosuresRound
  | (c, false) => ⟨c.commits, .failure⟩
  | (c, true) =>
    match n with
    | 0 => ⟨c.commits, if e.testMode then .exit else .sleep⟩
    | 1 => ⟨c.commit.commits, .again⟩
    | _ => ⟨c.commits, .nothing⟩

/-- `run_reserve_closures`. -/
def runReserveClosures (e : CloserEnv) (s : CloserState) : ClosuresRound :=
  let c := (Session.start s).apply CloserState.markDone
  match unfinishedRequests s.db with
  | [] => finishRound e (expiredRows s.db e.now).length (closeAll e c (expiredRows s.db e.now))
  | qs => finishRound e qs.length (closeAll e c (qs.map (CloseRequest.toClose s.db)))

/-! ## Runs -/

/-- A round of the closer, or an operation of somebody else. -/
inductive CloserOp
  | closures (e : CloserEnv)
  | other (o : Op)

/-- **One step.** -/
def closerStep (s : CloserState) : CloserOp → CloserState
  | .closures e => Session.last s (runReserveClosures e s).commits
  | .other o => { s with db := step s.db o }

/-- The empty database. -/
def CloserState.init : CloserState := ⟨Database.empty, []⟩

/-! ## What is to hold -/

/-- The closing fees charged to a reserve. -/
def Database.closingFees (db : Database) (r : ReservePub) : ℤ :=
  db.reservesClose.total (onlyIf (fun x => x.reservePub = r) fun x => x.closingFee.units)

/-- How often a reserve was closed. -/
def Database.closures (db : Database) (r : ReservePub) : ℤ :=
  db.reservesClose.total (onlyIf (fun x => x.reservePub = r) fun _ => 1)

/-- The transfers prepared for a reserve. -/
def CloserState.transferred (s : CloserState) (r : ReservePub) : ℤ :=
  (s.prewire.map (onlyIf (fun p => p.wtid = r) fun p => p.amount.units)).sum

/-- What closures debit goes to the fees and the transfers, up to a rounding unit for each. -/
def Accounted (unit : Amount) (s : CloserState) : Prop :=
  ∀ r, s.db.closingFees r + s.transferred r ≤ s.db.closed r ∧
    s.db.closed r ≤ s.db.closingFees r + s.transferred r + unit.units * s.db.closures r

/-- From one committed state to the next: a request that is done now is debited now, and closures
debit what they record and no more than was there. -/
structure ClosedTogether (s t : CloserState) : Prop where
  done : ∀ q ∈ unfinishedRequests s.db, q ∉ t.db.closeRequests.rows →
    ∃ x ∈ t.db.reservesClose.rows, x ∉ s.db.reservesClose.rows ∧
      x.closeRequestRow = q.closeRequestSerialId ∧ x.reservePub = q.reservePub ∧ x.amount = q.close
  debited : ∀ r, t.db.balanceOf r = s.db.balanceOf r - (t.db.closed r - s.db.closed r)
  covered : ∀ r, t.db.closed r ≠ s.db.closed r →
    t.db.closed r - s.db.closed r ≤ s.db.balanceOf r

/-- A round goes on, and what it commits is complete and accounted for. -/
structure ClosuresSound (unit : Amount) (s : CloserState) (c : ClosuresRound) : Prop where
  continues : c.next = .again ∨ c.next = .sleep
  together : List.IsChain ClosedTogether (s :: c.commits)
  accounted : ∀ t ∈ c.commits, Accounted unit t

/-! ## The condition -/

/-- A round finds at most one request, whose reserve has an account and still holds the amount, or
an expired reserve; account, fees and rounding unit are configured. -/
structure Serviceable (e : CloserEnv) (s : CloserState) : Prop where
  production : e.testMode = false
  single : (unfinishedRequests s.db).length ≤ 1
  request : ∀ q ∈ unfinishedRequests s.db, ∃ x, q.toClose s.db = some x ∧
    (closurePlan e x).isSome = true ∧ ∃ r b, s.db.reserves.lookup q.reservePub = some r ∧
      Amount.ofTaler? r.currentBalance = some b ∧ q.close.units ≤ b.units
  expired : unfinishedRequests s.db = [] →
    ∀ y ∈ expiredRows s.db e.now, ∃ x, y = some x ∧ (closurePlan e x).isSome = true

/-- The operation records a closure. -/
def Op.isClosing : Op → Bool
  | .reserveClosed _ => true
  | _ => false

/-- Rounds are serviceable and only they record closures. -/
def CloserOk (unit : Amount) (s : CloserState) : CloserOp → Prop
  | .closures e => e.currencyRoundUnit = unit ∧ Serviceable e s
  | .other o => o.isClosing = false

/-! ## Operations of others -/

/-- The entries of the history for closures are about closures that exist. -/
def ClosingFresh (db : Database) : Prop :=
  ∀ h ∈ db.reserveHistory.rows, h.tableName = .reservesClose → h.serialId < db.reservesClose.nextSerial

section Others

variable {db db' : Database}

/-- The posting records a closure. -/
def Posting.isClosing : Posting → Bool
  | .reserveClosed _ => true
  | _ => false

theorem isClosing_of_emits {s : Database} {o : Op} {p : Posting} (h : Emits db o s p)
    (ho : o.isClosing = false) : p.isClosing = false := by
  cases p with
  | reserveClosed a =>
    cases o with
    | reserveClosed b => cases ho
    | _ => cases kind_of_emits h
  | _ => rfl

/-- An entry for another table keeps the entries for closures. -/
theorem ClosingFresh.entry {rh : Table ReserveHistory} {r : ReservePub} {t : HistoryTable} {n : ℕ}
    (hi : ClosingFresh db) (h : db.reserveHistory.insert? (fun i => ⟨i, r, t, n⟩) = some rh)
    (ht : t ≠ .reservesClose) (hh : db'.reserveHistory = rh)
    (hc : db'.reservesClose = db.reservesClose) : ClosingFresh db' := by
  intro x hx htab
  rw [hh] at hx
  rw [hc]
  rcases (Table.mem_insert? h).mp hx with hx | rfl
  · exact hi x hx htab
  · exact absurd htab ht

theorem Withdrawn.history {r : Reserve} {now : Timestamp} {xs : List PlanchetArgs}
    {ro : Table ReserveOut} {rh : Table ReserveHistory} (h : Withdrawn db r now xs ro rh)
    {x : ReserveHistory} (hx : x ∈ rh.rows) :
    x ∈ db.reserveHistory.rows ∨ x.tableName = .reservesOut := by
  induction h with
  | nil => exact Or.inl hx
  | snoc _ _ _ hrh ih =>
    rcases (Table.mem_insert? hrh).mp hx with hx | rfl
    · exact ih hx
    · exact Or.inr rfl

/-- **Postings that record no closure** leave the closures and their entries. -/
theorem Posts.closingFresh {p : Posting} (h : Posts db p db') (hp : p.isClosing = false)
    (hi : ClosingFresh db) : ClosingFresh db' ∧ db'.reservesClose = db.reservesClose := by
  cases h with
  | wireTarget =>
    rw [addWireTarget_frame]
    exact ⟨hi, rfl⟩
  | initReserve =>
    rw [initReserve_frame]
    exact ⟨hi, rfl⟩
  | reservePurse _ _ _ _ _ _ _ hpay =>
    rw [payForPurse_frame hpay]
    exact ⟨hi, rfl⟩
  | recoupToReserve _ _ _ _ hrh =>
    refine ⟨?_, rfl⟩
    unfold Database.reserveEntry at hrh
    split at hrh
    · exact hi.entry hrh (by simp) rfl rfl
    · cases hrh
      exact hi
  | finishMerge _ _ _ _ _ hrh => exact ⟨hi.entry hrh (by simp) rfl rfl, rfl⟩
  | purseMerge _ _ _ _ _ _ hrh => exact ⟨hi.entry hrh (by simp) rfl rfl, rfl⟩
  | importNew _ _ hrh => exact ⟨hi.entry hrh (by simp) rfl rfl, rfl⟩
  | importRow _ _ hrh => exact ⟨hi.entry hrh (by simp) rfl rfl, rfl⟩
  | closeRequest _ _ hrh => exact ⟨hi.entry hrh (by simp) rfl rfl, rfl⟩
  | withdraw _ _ hw =>
    refine ⟨fun x hx htab => ?_, rfl⟩
    rcases hw.history hx with hx | hx
    · exact hi x hx htab
    · rw [hx] at htab
      cases htab
  | reserveClosed => cases hp
  | _ => exact ⟨hi, rfl⟩

end Others

/-! ## One closure -/

/-- What a closure leaves in the database. -/
structure Closing (db : Database) (a : ReserveClosedArgs) (db' : Database) : Prop where
  purses : db'.toPurseTables = db.toPurseTables
  requests : db'.closeRequests = db.closeRequests
  rows : db.reservesClose.insert? a.row = some db'.reservesClose
  history : db.reserveHistory.insert? (fun i =>
    ⟨i, a.reservePub, .reservesClose, db.reservesClose.nextSerial⟩) = some db'.reserveHistory
  balance : ∀ r, db'.balanceOf r =
    db.balanceOf r - if r = a.reservePub then a.amountWithFee.units else 0
  covered : a.amountWithFee.units ≤ db.balanceOf a.reservePub

section Closure

variable {db db' : Database} {a : ReserveClosedArgs}

/-- The next identity of a table without another key is free. -/
theorem insert?_reservesClose (db : Database) (a : ReserveClosedArgs) :
    ∃ t, db.reservesClose.insert? a.row = some t := by
  cases h : db.reservesClose.insert? a.row with
  | some t => exact ⟨t, rfl⟩
  | none =>
    obtain ⟨x, hx, hk⟩ := Table.hasKey_iff.mp (Table.insert?_eq_none.mp h)
    exact absurd hk (Table.serial_le hx).ne

theorem ClosingFresh.insert? (hi : ClosingFresh db) (r : ReservePub) :
    ∃ rh, db.reserveHistory.insert? (fun i =>
      ⟨i, r, .reservesClose, db.reservesClose.nextSerial⟩) = some rh := by
  cases h : db.reserveHistory.insert? (fun i =>
      ⟨i, r, .reservesClose, db.reservesClose.nextSerial⟩) with
  | some rh => exact ⟨rh, rfl⟩
  | none =>
    obtain ⟨x, hx, hk⟩ := Table.hasKey_iff.mp (Table.insert?_eq_none.mp h)
    have htab : x.tableName = .reservesClose := congrArg (fun k => k.2.1) hk
    have hser : x.serialId = db.reservesClose.nextSerial := congrArg (fun k => k.2.2) hk
    exact absurd hser (hi x hx htab).ne

/-- **A reserve that holds the amount is closed.** -/
theorem closing_ok (hi : ClosingFresh db) {r : Reserve} {b : Amount}
    (hr : db.reserves.lookup a.reservePub = some r) (hb : Amount.ofTaler? r.currentBalance = some b)
    (hle : a.amountWithFee.units ≤ b.units) :
    ∃ db₁ db₂, reservesCloseInsert db a = .ok db₁ ∧ debitClosed db₁ a = .ok db₂ ∧
      Closing db a db₂ := by
  obtain ⟨t, ht⟩ := insert?_reservesClose db a
  obtain ⟨rh, hrh⟩ := hi.insert? a.reservePub
  obtain ⟨d, hd⟩ : ∃ d, b.subtract? a.amountWithFee = some d := by
    rw [← Option.isSome_iff_exists, Option.isSome_iff_ne_none, Ne, Amount.subtract?_eq_none]
    exact not_lt.mpr hle
  have hunits := Amount.subtract?_eq_some.mp hd
  have hbal : db.balanceOf a.reservePub = b.units := by
    unfold Database.balanceOf
    rw [Table.valueAt_of_lookup hr, Amount.units_ofTaler? hb]
  refine ⟨{ db with reservesClose := t, reserveHistory := rh },
    { db with
      reservesClose := t
      reserveHistory := rh
      reserves := db.setReserve a.reservePub fun x => { x with currentBalance := d } },
    ?_, ?_, ⟨rfl, rfl, ht, hrh, fun q => ?_, by rw [hbal]; exact hle⟩⟩
  · simp only [reservesCloseInsert, bind_eq_ok, orUnique_eq_ok, require_eq_ok,
      Database.addReserveHistory_eq_ok]
    have hk := Table.hasKey_of_lookup hr
    exact ⟨t, ht, (), hk, rh, hrh, hk, rfl⟩
  · simp only [debitClosed, hr, hb, Option.bind_some, hd]
    rfl
  · have hk : r.reservePub = a.reservePub := Table.key_of_lookup hr
    by_cases hq : q = a.reservePub
    · subst hq
      rw [if_pos rfl, hbal, ← hunits]
      unfold Database.balanceOf
      simp only [Table.valueAt, Database.lookup_setReserve, hr, Option.map_some, Option.elim_some, hk,
        if_true]
      rfl
    · rw [if_neg hq, sub_zero]
      unfold Database.balanceOf
      simp only [Table.valueAt, Database.lookup_setReserve]
      cases hl : db.reserves.lookup q with
      | none => rfl
      | some y =>
        have hy : y.reservePub = q := Table.key_of_lookup hl
        simp only [Option.map_some, Option.elim_some, hy, hq, if_false]

end Closure

/-! ## The callback -/

section Callback

variable {e : CloserEnv} {x : ToClose} {p : ClosurePlan}

/-- **Fee and transfer come to what is left**, up to a rounding unit. -/
theorem closurePlan_spec (h : closurePlan e x = some p) :
    p.closingFee.units + p.amountWithoutFee.units ≤ x.left.units ∧
      x.left.units ≤ p.closingFee.units + p.amountWithoutFee.units + e.currencyRoundUnit.units := by
  simp only [closurePlan, Option.bind_eq_bind, Option.bind_eq_some_iff, Option.pure_def,
    Option.some.injEq] at h
  obtain ⟨method, -, fee, -, amount, hround, rfl⟩ := h
  obtain ⟨hle, hcut⟩ := Amount.units_roundDown? hround
  have hunit := e.currencyRoundUnit.units_nonneg
  simp only
  have hsum : ∀ q : Amount × Amount, q.1.units + q.2.units = x.left.units → amount.units ≤ q.2.units →
      (q.2.units < amount.units + e.currencyRoundUnit.units ∨ amount = q.2) →
      q.1.units + amount.units ≤ x.left.units ∧
        x.left.units ≤ q.1.units + amount.units + e.currencyRoundUnit.units := by
    intro q hq hle hcut
    rcases hcut with hcut | rfl <;> constructor <;> omega
  refine hsum _ ?_ hle hcut
  split
  · rw [Amount.units_zero, add_zero]
  · next rest hrest =>
    split_ifs with hz
    · rw [hz, Amount.units_zero, add_zero]
    · have := Amount.subtract?_eq_some.mp hrest
      simp only
      omega

/-- The transfers of a closure: one, unless there is nothing to transfer. -/
def ClosurePlan.transfers (p : ClosurePlan) (x : ToClose) : List PreparedTransfer :=
  if p.amountWithoutFee = Amount.zero then []
  else [⟨p.wireMethod, x.accountPaytoUri, p.amountWithoutFee, x.reservePub⟩]

theorem transferred_append (s : CloserState) (db : Database) (r : ReservePub) :
    (CloserState.mk db (s.prewire ++ p.transfers x)).transferred r =
      s.transferred r + if r = x.reservePub then p.amountWithoutFee.units else 0 := by
  unfold CloserState.transferred ClosurePlan.transfers
  rw [List.map_append, List.sum_append]
  congr 1
  by_cases hz : p.amountWithoutFee = Amount.zero
  · rw [if_pos hz, hz]
    simp
  · rw [if_neg hz, List.map_singleton, List.sum_singleton]
    unfold onlyIf
    simp only [eq_comm]

/-- **The callback closes a reserve**: after the commit, by itself or by the round, the closure and
its transfer are there. -/
theorem expiredReserveCb_ok {c : Session CloserState} {db₁ db₂ : Database} (ho : c.isOpen = true)
    (hp : closurePlan e x = some p)
    (h₁ : reservesCloseInsert c.view.db (x.closedArgs e p) = .ok db₁)
    (h₂ : debitClosed db₁ (x.closedArgs e p) = .ok db₂) :
    ∃ c', expiredReserveCb e c x = (c', true) ∧
      c'.commit.commits = c.commits ++ [⟨db₂, c.view.prewire ++ p.transfers x⟩] := by
  have hexec₁ : c.exec (CloserState.onDb fun db => reservesCloseInsert db (x.closedArgs e p)) =
      some (c.apply fun _ => ⟨db₁, c.view.prewire⟩) :=
    Session.exec_of_some (by simp [CloserState.onDb, h₁, Except.toOption])
  have hexec₂ : (c.apply fun _ => (⟨db₁, c.view.prewire⟩ : CloserState)).exec
      (CloserState.onDb fun db => debitClosed db (x.closedArgs e p)) =
      some ((c.apply fun _ => ⟨db₁, c.view.prewire⟩).apply fun _ => ⟨db₂, c.view.prewire⟩) :=
    Session.exec_of_some (by simp [CloserState.onDb, h₂, Except.toOption])
  unfold expiredReserveCb ClosurePlan.transfers
  simp only [hp, hexec₁, hexec₂]
  by_cases hz : p.amountWithoutFee = Amount.zero
  · refine ⟨_, by rw [if_pos hz], ?_⟩
    rw [Session.commit_commit, Session.commits_commit (by exact ho), if_pos hz, List.append_nil]
    simp [Session.commits_apply, ho]
  · refine ⟨_, by rw [if_neg hz], ?_⟩
    rw [Session.commits_commit (by exact ho), if_neg hz]
    simp [Session.commits_apply, ho, CloserState.prepare]

end Callback

/-! ## A round -/

/-- The two ways a serviceable round ends: there is nothing to do, or one reserve is closed, that of
the one request if there is one. -/
inductive RoundDone (e : CloserEnv) (s : CloserState) : ClosuresRound → Prop
  | idle : RoundDone e s ⟨[], .sleep⟩
  | closed {x : ToClose} {p : ClosurePlan} {db : Database} : closurePlan e x = some p →
      Closing s.markDone.db (x.closedArgs e p) db →
      (∀ q ∈ unfinishedRequests s.db, x.closeRequestRow = q.closeRequestSerialId ∧
        x.reservePub = q.reservePub ∧ x.left = q.close) →
      RoundDone e s ⟨[⟨db, s.prewire ++ p.transfers x⟩], .again⟩

section Round

variable {e : CloserEnv} {s : CloserState}

theorem earliest_mem {rs : List Reserve} {r : Reserve} (h : earliest rs = some r) : r ∈ rs := by
  induction rs generalizing r with
  | nil => cases h
  | cons y ys ih =>
    unfold earliest at h
    split at h
    · cases h
      exact List.mem_cons_self
    · next r' hr' =>
      split_ifs at h
      · cases h
        exact List.mem_cons_self
      · cases h
        exact List.mem_cons_of_mem _ (ih hr')

theorem expiredRows_cases (db : Database) (now : Timestamp) : expiredRows db now = [] ∨
    ∃ r ∈ db.reserves.rows, ∃ uri, expiredRows db now =
      [(Amount.ofTaler? r.currentBalance).map fun left =>
        ⟨r.reservePub, left, uri, r.expirationDate, 0⟩] := by
  unfold expiredRows
  split
  · exact Or.inl rfl
  · next r hr =>
    split
    · exact Or.inl rfl
    · next uri _ => exact Or.inr ⟨r, (List.mem_filter.mp (earliest_mem hr)).1, uri, rfl⟩

/-- A round with one reserve to close that holds the amount. -/
theorem closeAll_single (hi : ClosingFresh s.db) {x : ToClose} {p : ClosurePlan} {r : Reserve}
    {b : Amount} (hp : closurePlan e x = some p) (hr : s.db.reserves.lookup x.reservePub = some r)
    (hb : Amount.ofTaler? r.currentBalance = some b) (hle : x.left.units ≤ b.units) :
    ∃ db, Closing s.markDone.db (x.closedArgs e p) db ∧
      finishRound e 1 (closeAll e ((Session.start s).apply CloserState.markDone) [some x]) =
        ⟨[⟨db, s.prewire ++ p.transfers x⟩], .again⟩ := by
  have hi' : ClosingFresh s.markDone.db := hi
  obtain ⟨db₁, db₂, h₁, h₂, hc⟩ := closing_ok (a := x.closedArgs e p) hi' hr hb hle
  obtain ⟨c', hcb, hcommits⟩ := expiredReserveCb_ok
    (c := (Session.start s).apply CloserState.markDone) rfl hp h₁ h₂
  refine ⟨db₂, hc, ?_⟩
  simp only [closeAll, hcb, finishRound, hcommits]
  rfl

theorem toClose_fields {db : Database} {q : CloseRequest} {x : ToClose} (h : q.toClose db = some x) :
    x.closeRequestRow = q.closeRequestSerialId ∧ x.reservePub = q.reservePub ∧ x.left = q.close := by
  simp only [CloseRequest.toClose, Option.bind_eq_bind, Option.bind_eq_some_iff, Option.pure_def,
    Option.some.injEq] at h
  obtain ⟨uri, -, left, hleft, rfl⟩ := h
  exact ⟨rfl, rfl, Amount.ext_units (Amount.units_ofTaler? hleft)⟩

/-- **A serviceable round does its work.** -/
theorem runReserveClosures_ok (hi : ClosingFresh s.db) (hs : Serviceable e s) :
    RoundDone e s (runReserveClosures e s) := by
  unfold runReserveClosures
  cases hq : unfinishedRequests s.db with
  | nil =>
    simp only
    rcases expiredRows_cases s.db e.now with hrows | ⟨r, hr, uri, hrows⟩
    · rw [hrows]
      simp only [closeAll, finishRound, hs.production, List.length_nil]
      exact .idle
    · obtain ⟨x, hx, hplan⟩ := hs.expired hq _ (by rw [hrows]; exact List.mem_singleton_self _)
      obtain ⟨p, hp⟩ := Option.isSome_iff_exists.mp hplan
      obtain ⟨b, hb, rfl⟩ := Option.map_eq_some_iff.mp hx
      have hl : s.db.reserves.lookup r.reservePub = some r := Table.lookup_eq_some.mpr ⟨hr, rfl⟩
      obtain ⟨db, hc, hround⟩ := closeAll_single hi hp hl hb le_rfl
      rw [hrows, hx, List.length_singleton, hround]
      exact .closed hp hc (by rw [hq]; exact fun _ h => nomatch h)
  | cons q qs =>
    have hone := hs.single
    rw [hq, List.length_cons] at hone
    obtain rfl : qs = [] := List.eq_nil_of_length_eq_zero (by omega)
    obtain ⟨x, hx, hplan, r, b, hr, hb, hle⟩ := hs.request q (by rw [hq]; exact List.mem_cons_self)
    obtain ⟨p, hp⟩ := Option.isSome_iff_exists.mp hplan
    obtain ⟨hrow, hpub, hleft⟩ := toClose_fields hx
    obtain ⟨db, hc, hround⟩ := closeAll_single hi hp (by rw [hpub]; exact hr) hb
      (by rw [hleft]; exact hle)
    simp only [List.map_cons, List.map_nil, hx, List.length_singleton, hround]
    refine .closed hp hc fun q' hq' => ?_
    rw [hq] at hq'
    rw [List.mem_singleton.mp hq']
    exact ⟨hrow, hpub, hleft⟩

/-! ## The invariant -/

/-- What holds between the steps. -/
structure CloserInv (unit : Amount) (s : CloserState) : Prop where
  purses : MergesHavePurse s.db
  fresh : ClosingFresh s.db
  accounted : Accounted unit s

variable {unit : Amount}

theorem CloserInv.other (hi : CloserInv unit s) {o : Op} (ho : o.isClosing = false) :
    CloserInv unit (closerStep s (.other o)) := by
  have hpath := step_path (C := fun _ p => p.isClosing = false) hi.purses
    fun _ _ he => isClosing_of_emits he ho
  have hkeep := hpath.invariant (I := fun db => MergesHavePurse db ∧ ClosingFresh db ∧
      db.reservesClose = s.db.reservesClose)
    (fun _ _ _ hp h ⟨h₁, h₂, h₃⟩ =>
      ⟨h.mergesHavePurse h₁, (h.closingFresh hp h₂).1, (h.closingFresh hp h₂).2.trans h₃⟩)
    ⟨hi.purses, hi.fresh, rfl⟩
  refine ⟨hkeep.1, hkeep.2.1, fun r => ?_⟩
  have hacc := hi.accounted r
  simp only [Database.closed, Database.closingFees, Database.closures, CloserState.transferred,
    closerStep, hkeep.2.2] at hacc ⊢
  exact hacc

/-- The totals after a closure. -/
theorem Closing.totals {db db' : Database} {a : ReserveClosedArgs} (h : Closing db a db')
    (r : ReservePub) :
    db'.closed r = db.closed r + (if r = a.reservePub then a.amountWithFee.units else 0) ∧
      db'.closingFees r = db.closingFees r + (if r = a.reservePub then a.closingFee.units else 0) ∧
      db'.closures r = db.closures r + if r = a.reservePub then 1 else 0 := by
  unfold Database.closed Database.closingFees Database.closures
  simp only [Table.total_insert? h.rows, onlyIf, ReserveClosedArgs.row]
  refine ⟨?_, ?_, ?_⟩ <;> congr 1 <;> simp only [eq_comm]

theorem Closing.accounted {x : ToClose} {p : ClosurePlan} {db : Database}
    (hp : closurePlan e x = some p) (hc : Closing s.markDone.db (x.closedArgs e p) db)
    (hu : e.currencyRoundUnit = unit) (ha : Accounted unit s) :
    Accounted unit ⟨db, s.prewire ++ p.transfers x⟩ := by
  intro r
  have h₁ : db.closed r = s.db.closed r + if r = x.reservePub then x.left.units else 0 :=
    (hc.totals r).1
  have h₂ : db.closingFees r = s.db.closingFees r +
      if r = x.reservePub then p.closingFee.units else 0 := (hc.totals r).2.1
  have h₃ : db.closures r = s.db.closures r + if r = x.reservePub then 1 else 0 :=
    (hc.totals r).2.2
  obtain ⟨hle, hge⟩ := closurePlan_spec hp
  obtain ⟨hold₁, hold₂⟩ := ha r
  rw [transferred_append s db r]
  simp only [h₁, h₂, h₃]
  rw [hu] at hge
  by_cases hr : r = x.reservePub
  · simp only [if_pos hr, mul_add, mul_one]
    constructor <;> omega
  · simp only [if_neg hr, add_zero]
    exact ⟨hold₁, hold₂⟩

/-- A closure is one step from committed state to committed state. -/
theorem Closing.together {x : ToClose} {p : ClosurePlan} {db : Database}
    (hc : Closing s.markDone.db (x.closedArgs e p) db)
    (hq : ∀ q ∈ unfinishedRequests s.db, x.closeRequestRow = q.closeRequestSerialId ∧
      x.reservePub = q.reservePub ∧ x.left = q.close) :
    ClosedTogether s ⟨db, s.prewire ++ p.transfers x⟩ := by
  have hclosed : ∀ r, db.closed r = s.db.closed r +
      if r = x.reservePub then x.left.units else 0 := fun r => (hc.totals r).1
  have hbalance : ∀ r, db.balanceOf r = s.db.balanceOf r -
      if r = x.reservePub then x.left.units else 0 := hc.balance
  refine ⟨fun q hmem _ => ?_, fun r => ?_, fun r hne => ?_⟩
  · obtain ⟨hrow, hpub, hleft⟩ := hq q hmem
    have hrows := Table.rows_insert? hc.rows
    refine ⟨(x.closedArgs e p).row s.db.reservesClose.nextSerial, ?_, fun hold => ?_, hrow, hpub,
      hleft⟩
    · exact (Table.mem_insert? hc.rows).mpr (Or.inr rfl)
    · exact absurd rfl (Table.serial_le hold).ne
  · simp only [hclosed r, hbalance r]
    omega
  · simp only [hclosed r] at hne ⊢
    by_cases hr : r = x.reservePub
    · rw [if_pos hr, hr]
      have hcov : x.left.units ≤ s.db.balanceOf x.reservePub := hc.covered
      omega
    · rw [if_neg hr] at hne
      omega

theorem RoundDone.sound {c : ClosuresRound} (h : RoundDone e s c) (hu : e.currencyRoundUnit = unit)
    (hi : CloserInv unit s) : ClosuresSound unit s c := by
  cases h with
  | idle => exact ⟨Or.inr rfl, .singleton _, fun _ h => nomatch h⟩
  | closed hp hc hq =>
    refine ⟨Or.inl rfl, .cons_cons (hc.together hq) (.singleton _), fun t ht => ?_⟩
    rw [List.mem_singleton.mp ht]
    exact hc.accounted hp hu hi.accounted

theorem CloserInv.closures (hi : CloserInv unit s) (hu : e.currencyRoundUnit = unit)
    (hs : Serviceable e s) : CloserInv unit (closerStep s (.closures e)) := by
  have hround := runReserveClosures_ok hi.fresh hs
  simp only [closerStep]
  generalize runReserveClosures e s = c at hround
  cases hround with
  | idle => exact hi
  | @closed x p db hp hc =>
    rw [Session.last_singleton]
    refine ⟨fun q hm => ?_, fun h hmem htab => ?_, hc.accounted hp hu hi.accounted⟩
    · rw [hc.purses] at hm ⊢
      exact hi.purses q hm
    · have hnext : db.reservesClose.nextSerial = s.db.reservesClose.nextSerial + 1 := by
        unfold Table.nextSerial
        rw [Table.rows_insert? hc.rows, List.length_append]
        rfl
      rw [hnext]
      rcases (Table.mem_insert? hc.history).mp hmem with hmem | rfl
      · exact (hi.fresh h hmem htab).trans (Nat.lt_succ_self _)
      · exact Nat.lt_succ_self _

end Round

theorem closerInv_run {unit : Amount} {ops : List CloserOp}
    (h : Admits closerStep (CloserOk unit) CloserState.init ops) :
    CloserInv unit (run closerStep CloserState.init ops) := by
  refine run_invariant (I := CloserInv unit) (fun s o ho hi => ?_) h
    ⟨fun _ hx => (nomatch hx), fun _ hx => (nomatch hx), fun r => ⟨le_rfl, ?_⟩⟩
  · cases o with
    | closures e => exact hi.closures ho.1 ho.2
    | other o => exact hi.other ho
  · simp [CloserState.init, CloserState.transferred, Database.closed, Database.closingFees,
      Database.closures, Database.empty]

/-- **Closing reserves.** As long as every round is serviceable, every round goes on, a request is
done in the transaction that debits its reserve, closures never debit more than a reserve holds, and
what they debit is the closing fees and the prepared transfers up to the rounding unit. -/
theorem run_closures {unit : Amount} {ops : List CloserOp} {e : CloserEnv}
    (h : Admits closerStep (CloserOk unit) CloserState.init ops)
    (he : CloserOk unit (run closerStep CloserState.init ops) (.closures e)) :
    ClosuresSound unit (run closerStep CloserState.init ops)
      (runReserveClosures e (run closerStep CloserState.init ops)) := by
  have hi := closerInv_run h
  exact (runReserveClosures_ok hi.fresh he.2).sound he.1 hi

/-! ## Samples -/

/-- Every account is served, the closing fee is one, and transfers are in whole units. -/
def sampleCloser : CloserEnv where
  findAccount := fun _ => some "iban"
  closingFee := fun _ _ => some (.whole 1)
  fullPaytoHash := fun _ => 4
  currencyRoundUnit := .whole 1
  testMode := false
  now := 0

/-- A reserve that holds twenty and expires at `100`. -/
def filledReserve (r : ReservePub) : CloserOp :=
  .other (.reservesIn 200 100 [⟨r, .whole 20, 0, 4, 4, "payto://iban/a", "", 1⟩])

/-- A request to close a reserve that holds twenty. -/
def closeTwenty (r : ReservePub) : CloserOp :=
  .other (.closeRequest ⟨r, "payto://iban/b", 0, 5, .whole 20, .whole 1⟩)

/-- The one request of a reserve that still holds the amount. -/
theorem run_closures_request :
    Admits closerStep (CloserOk (.whole 1)) CloserState.init [filledReserve 3, closeTwenty 3] ∧
    ClosuresSound (.whole 1) (run closerStep CloserState.init [filledReserve 3, closeTwenty 3])
      (runReserveClosures sampleCloser
        (run closerStep CloserState.init [filledReserve 3, closeTwenty 3])) := by
  have hq : unfinishedRequests
      (run closerStep CloserState.init [filledReserve 3, closeTwenty 3]).db =
      [⟨1, 3, 5, 0, .whole 20, .whole 1, "payto://iban/b", false⟩] := by decide +kernel
  have hadmits : Admits closerStep (CloserOk (.whole 1)) CloserState.init
      [filledReserve 3, closeTwenty 3] := ⟨rfl, rfl, trivial⟩
  refine ⟨hadmits, run_closures hadmits ⟨rfl, rfl, ?_, fun q hmem => ?_, fun hnone => ?_⟩⟩
  · rw [hq]
    exact le_rfl
  · rw [hq] at hmem
    rw [List.mem_singleton.mp hmem]
    refine ⟨⟨3, .whole 20, "payto://iban/a", 5, 1⟩, by decide +kernel, by decide +kernel,
      ⟨1, 3, ⟨20, 0⟩, 0, 0, 0, 100, 200⟩, .whole 20, by decide +kernel, by decide +kernel,
      by decide +kernel⟩
  · rw [hq] at hnone
    cases hnone

/-- Two requests, for two reserves. -/
def twoRequests : List CloserOp := [filledReserve 3, filledReserve 6, closeTwenty 3, closeTwenty 6]

/-- A withdrawal from the reserve after the request. -/
def lateRequest : List CloserOp :=
  [filledReserve 3, closeTwenty 3, .other (.batchWithdraw ⟨.whole 5, 3, 0, 0, false⟩ [])]

/-- With two requests nothing is committed and no task is left; a request that the balance does not
cover ends the daemon. -/
theorem not_closures_sound :
    ¬ ClosuresSound (.whole 1) (run closerStep CloserState.init twoRequests)
        (runReserveClosures sampleCloser (run closerStep CloserState.init twoRequests)) ∧
      ¬ ClosuresSound (.whole 1) (run closerStep CloserState.init lateRequest)
        (runReserveClosures sampleCloser (run closerStep CloserState.init lateRequest)) := by
  constructor
  · intro h
    have hnext : (runReserveClosures sampleCloser
        (run closerStep CloserState.init twoRequests)).next = .nothing := by decide +kernel
    have hcont := h.continues
    rw [hnext] at hcont
    simp at hcont
  · intro h
    have hnext : (runReserveClosures sampleCloser
        (run closerStep CloserState.init lateRequest)).next = .failure := by decide +kernel
    have hcont := h.continues
    rw [hnext] at hcont
    simp at hcont

end TalerExchange
