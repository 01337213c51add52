import TalerExchange.Aggregation.Once

/-!
# The aggregator

`taler-exchange-aggregator`, any number of processes on one database. A process reads the transient
aggregation of an account, aggregates what is due, and either remembers the sum in the transient
row or pays it. With KYC checks it does both: the row is committed first, the rules are evaluated
after that, and then a second transaction pays what the process has in memory.

* `selectUnit`, `doAggregate`, `evaluateRules`: the parts of a run, one transaction or one read each;
* `aggregatorStep`: the processes, the KYC drain and all other operations on the database, in any
  order;
* `PayoutsExact`: every batch that is done is tracked under one transfer, transfers and transient
  rows have the value of what is tracked, and nothing tracked is without either;
* `AggregatorOk`: a process finds its transient row as it left it;
* **`run_payouts`**: then the payouts are exact;
* `staleTotal`: a run in which a process pays a sum that is no longer the current one.
-/

namespace TalerExchange

open Sql Transition

/-! ## Tables and configuration -/

/-- `aggregation_transient`, a table without a unique key. -/
structure AggregationTransient where
  amount : Amount
  wireTargetHPayto : HashCode
  merchantPub : MerchantPub
  exchangeAccountSection : ℕ
  wtidRaw : ℕ
deriving DecidableEq, Repr

/-- `wire_out`. -/
structure WireOut where
  wireoutUuid : ℕ
  executionDate : Timestamp
  wtidRaw : ℕ
  wireTargetHPayto : HashCode
  exchangeAccountSection : ℕ
  amount : Amount
deriving DecidableEq, Repr

instance : Record WireOut ℕ := ⟨WireOut.wtidRaw, WireOut.wireoutUuid⟩

/-- What a process finds outside the database: the account for a payto URI, the wire fee of an
account at a time, the shard of a merchant, the unit of wire transfers and whether KYC is off. -/
structure AggregatorConfig where
  findAccount : HashCode → Option ℕ
  wireFee : ℕ → Timestamp → Option Amount
  computeShard : MerchantPub → ℤ
  currencyRoundUnit : Amount
  kycOff : Bool

/-- `struct AggregationUnit`. -/
structure AggregationUnit where
  hFullPayto : HashCode
  merchantPub : MerchantPub
  sectionName : ℕ
  executionTime : Timestamp
  wireFee : Amount
  wtid : ℕ
  haveTransient : Bool
  trans : Amount := Amount.zero
  totalAmount : Amount := Amount.zero
  finalAmount : Amount := Amount.zero
deriving DecidableEq, Repr

/-- Where a process is: at no unit, in the transaction of `do_aggregate` after the read of the
transient row, or waiting for `evaluate_rules`. -/
inductive AggregatorPhase
  | idle
  | selected (u : AggregationUnit)
  | checking (u : AggregationUnit)
deriving DecidableEq, Repr

/-- The unit that a process is at. -/
def AggregatorPhase.unit? : AggregatorPhase → Option AggregationUnit
  | .idle => none
  | .selected u => some u
  | .checking u => some u

/-- The database with the tables of the aggregator, and the processes. -/
structure AggregatorState where
  db : Database
  transients : List AggregationTransient
  wireOut : Table WireOut
  phases : List AggregatorPhase

/-- Some processes, an empty database. -/
def AggregatorState.initial (n : ℕ) : AggregatorState :=
  ⟨Database.empty, [], Table.empty, List.replicate n .idle⟩

/-! ## A run of the aggregator -/

/-- The row of the unit's transient aggregation. -/
def AggregationUnit.isRow (u : AggregationUnit) (r : AggregationTransient) : Bool :=
  r.wireTargetHPayto = u.hFullPayto ∧ r.wtidRaw = u.wtid

/-- `do_aggregate` up to `select_aggregation_transient`: no row starts a new transfer, several rows
are a hard error. -/
def selectUnit (cfg : AggregatorConfig) (s : AggregatorState) (m : MerchantPub) (h : HashCode)
    (t : Timestamp) (nonce : ℕ) : Option AggregationUnit := do
  let acc ← cfg.findAccount h
  let fee ← cfg.wireFee acc t
  match s.transients.filter fun r => r.wireTargetHPayto = h ∧ r.merchantPub = m ∧
      r.exchangeAccountSection = acc with
  | [] => some ⟨h, m, acc, t, fee, nonce, false, .zero, .zero, .zero⟩
  | [r] => do
    let x ← Amount.ofTaler? r.amount
    some ⟨h, m, acc, t, fee, r.wtidRaw, true, x, .zero, .zero⟩
  | _ => none

/-- The final amount; `none` where nothing is left to transfer. -/
def AggregatorConfig.finalAmount (cfg : AggregatorConfig) (u : AggregationUnit) : Option Amount := do
  let x ← u.totalAmount.subtract? u.wireFee
  let x ← x.roundDown? cfg.currencyRoundUnit
  if x = Amount.zero then none else some x

/-- `update_aggregation_transient`, or `create_aggregation_transient` for a new transfer. -/
def saveTransient (ts : List AggregationTransient) (u : AggregationUnit) :
    List AggregationTransient :=
  if u.haveTransient then ts.map fun r => if u.isRow r then { r with amount := u.totalAmount } else r
  else ts ++ [⟨u.totalAmount, u.hFullPayto, u.merchantPub, u.sectionName, u.wtid⟩]

/-- `trigger_wire_transfer`; `none` where the transfer is in `wire_out` already and the transaction
is rolled back. -/
def triggerWireTransfer (s : AggregatorState) (u : AggregationUnit) : Option AggregatorState :=
  (s.wireOut.insert? fun i =>
    ⟨i, u.executionTime, u.wtid, u.hFullPayto, u.sectionName, u.finalAmount⟩).map fun t =>
      { s with
        wireOut := t
        transients := if u.haveTransient then s.transients.filter (!u.isRow ·) else s.transients }

/-- The arguments of `TEH_PG_aggregate` for a unit. -/
def AggregationUnit.args (u : AggregationUnit) (cfg : AggregatorConfig) (now : Timestamp) :
    AggregateArgs :=
  ⟨u.hFullPayto, u.merchantPub, u.wtid, now, cfg.computeShard u.merchantPub⟩

/-- The sum with what the transient row has. -/
def AggregationUnit.addTransient (u : AggregationUnit) (sum : Amount) : Option Amount :=
  if u.haveTransient then sum.add? u.trans else some sum

/-- The rest of `do_aggregate` with its commit: the state, and the unit if its rules are to be
evaluated. The statements from `TEH_PG_aggregate` on are one step: a batch that one transaction
marks is locked for the others until the commit. -/
def doAggregate (cfg : AggregatorConfig) (s : AggregatorState) (u : AggregationUnit)
    (now : Timestamp) : Option (AggregatorState × Option AggregationUnit) :=
  match aggregate s.db (u.args cfg now) with
  | .error _ => none
  | .ok (db, sum) => do
    let total ← u.addTransient sum
    let s := { s with db := db }
    let u := { u with totalAmount := total }
    match cfg.finalAmount u with
    | none => return ({ s with transients := saveTransient s.transients u }, none)
    | some x =>
      let u := { u with finalAmount := x }
      if cfg.kycOff then
        let s ← triggerWireTransfer s u
        return (s, none)
      else
        return ({ s with transients := saveTransient s.transients u },
          some { u with haveTransient := true })

/-- `evaluate_rules`: pay, or remember the sum until the account is cleared. -/
def evaluateRules (s : AggregatorState) (u : AggregationUnit) (clear : Bool) : AggregatorState :=
  if clear then (triggerWireTransfer s u).getD s
  else { s with transients := saveTransient s.transients u }

/-! ## Steps -/

/-- The steps. `rollback` is any failure on the way: of a statement, of a commit or of the process. -/
inductive AggregatorOp
  | other (o : Op)
  | select (i : ℕ) (m : MerchantPub) (h : HashCode) (t : Timestamp) (nonce : ℕ)
  | aggregate (i : ℕ) (now : Timestamp)
  | drain (i : ℕ) (m : MerchantPub) (h : HashCode) (t : Timestamp) (nonce : ℕ) (now : Timestamp)
  | evaluateRules (i : ℕ) (clear : Bool)
  | rollback (i : ℕ)

/-- Process `i` goes on to phase `p`. -/
def AggregatorState.goto (s : AggregatorState) (i : ℕ) (p : AggregatorPhase) : AggregatorState :=
  { s with phases := s.phases.set i p }

/-- `do_aggregate` has ended, with or without success. -/
def AggregatorState.conclude (s : AggregatorState) (i : ℕ) :
    Option (AggregatorState × Option AggregationUnit) → AggregatorState
  | none => s.goto i .idle
  | some (s', none) => s'.goto i .idle
  | some (s', some u) => s'.goto i (.checking u)

/-- **One step.** `drain` is `drain_kyc_alerts` for an account with a transient row, a serializable
transaction that nothing comes between; aggregations happen in no other way. -/
def aggregatorStep (cfg : AggregatorConfig) (s : AggregatorState) : AggregatorOp → AggregatorState
  | .other (.aggregate _) => s
  | .other o => { s with db := step s.db o }
  | .select i m h t nonce =>
    match s.phases[i]?, selectUnit cfg s m h t nonce with
    | some .idle, some u => s.goto i (.selected u)
    | _, _ => s
  | .aggregate i now =>
    match s.phases[i]? with
    | some (.selected u) => s.conclude i (doAggregate cfg s u now)
    | _ => s
  | .drain i m h t nonce now =>
    match s.phases[i]?, selectUnit cfg s m h t nonce with
    | some .idle, some u =>
      if s.transients.any fun r => r.wireTargetHPayto = h ∧ r.merchantPub = m then
        s.conclude i (doAggregate cfg s u now)
      else s
    | _, _ => s
  | .evaluateRules i clear =>
    match s.phases[i]? with
    | some (.checking u) => (evaluateRules s u clear).goto i .idle
    | _ => s
  | .rollback i => s.goto i .idle

/-! ## Payouts -/

/-- The transfer that a batch is tracked under. -/
def Database.trackedUnder (db : Database) (n : ℕ) : Option ℕ :=
  (db.aggregationTracking.lookup n).map (·.wtidRaw)

/-- **The net value of the deposits tracked under a transfer.** -/
def Database.trackedValue (db : Database) (w : ℕ) : ℤ :=
  db.coinDeposits.total (onlyIf (fun d => db.trackedUnder d.batchDepositSerialId = some w) db.netOf)

/-- `v` less the wire fee, rounded down. -/
def AggregatorConfig.Pays (cfg : AggregatorConfig) (v : ℤ) (r : WireOut) : Prop :=
  ∃ fee x, cfg.wireFee r.exchangeAccountSection r.executionDate = some fee ∧
    x.units = v - fee.units ∧ Amount.roundDown? x cfg.currencyRoundUnit = some r.amount

/-- **Exact payouts.** -/
structure PayoutsExact (cfg : AggregatorConfig) (s : AggregatorState) : Prop where
  tracked : ∀ b ∈ s.db.batchDeposits.rows, b.done = true → ∃! w, ∃ r ∈ s.db.aggregationTracking.rows,
    r.batchDepositSerialId = b.batchDepositSerialId ∧ r.wtidRaw = w
  paid : ∀ r ∈ s.wireOut.rows, cfg.Pays (s.db.trackedValue r.wtidRaw) r
  pending : ∀ r ∈ s.transients, r.amount.units = s.db.trackedValue r.wtidRaw
  unpaid : ∀ r ∈ s.transients, s.wireOut.hasKey r.wtidRaw = false
  single : (s.transients.map (·.wtidRaw)).Nodup
  kept : ∀ r ∈ s.db.aggregationTracking.rows,
    s.wireOut.hasKey r.wtidRaw = true ∨ ∃ x ∈ s.transients, x.wtidRaw = r.wtidRaw

/-- A transfer that nothing has to do with yet. -/
structure UnusedWtid (s : AggregatorState) (w : ℕ) : Prop where
  tracking : ∀ r ∈ s.db.aggregationTracking.rows, r.wtidRaw ≠ w
  wireOut : s.wireOut.hasKey w = false
  transients : ∀ r ∈ s.transients, r.wtidRaw ≠ w

/-- The transient row of the unit is there, with amount `x`. -/
def AggregatorState.Holds (s : AggregatorState) (u : AggregationUnit) (x : Amount) : Prop :=
  ∃ r ∈ s.transients, u.isRow r = true ∧ r.amount = x

/-- **The condition on steps**: random transfer identifiers are new, aggregates are fair, nothing is
deposited late, and where a process writes, its transient row is as the process last saw it or paid
already. -/
def AggregatorOk (cfg : AggregatorConfig) (s : AggregatorState) : AggregatorOp → Prop
  | .other o => NotLate s.db o
  | .select _ _ _ _ nonce => UnusedWtid s nonce ∧
      ∀ p ∈ s.phases, ∀ u, p.unit? = some u → u.wtid ≠ nonce
  | .aggregate i now => ∀ u, s.phases[i]? = some (.selected u) →
      AggregateFair s.db (u.args cfg now) ∧ (u.haveTransient = true → s.Holds u u.trans)
  | .drain _ m h t nonce now => UnusedWtid s nonce ∧
      (∀ p ∈ s.phases, ∀ u, p.unit? = some u → u.wtid ≠ nonce) ∧
      ∀ u, selectUnit cfg s m h t nonce = some u → AggregateFair s.db (u.args cfg now)
  | .evaluateRules i _ => ∀ u, s.phases[i]? = some (.checking u) →
      s.wireOut.hasKey u.wtid = true ∨ s.Holds u u.totalAmount
  | .rollback _ => True

/-! ## What is tracked -/

section Tracked

variable {db db' : Database} {a : AggregateArgs} {total : Amount} {w : ℕ}

theorem trackedUnder_of_mem {r : AggregationTracking} (h : r ∈ db.aggregationTracking.rows) :
    db.trackedUnder r.batchDepositSerialId = some r.wtidRaw := by
  have hl : db.aggregationTracking.lookup r.batchDepositSerialId = some r :=
    Table.lookup_eq_some.mpr ⟨h, rfl⟩
  rw [Database.trackedUnder, hl, Option.map_some]

theorem exists_of_trackedUnder {n : ℕ} (h : db.trackedUnder n = some w) :
    ∃ r ∈ db.aggregationTracking.rows, r.batchDepositSerialId = n ∧ r.wtidRaw = w := by
  obtain ⟨r, hr, hw⟩ := Option.map_eq_some_iff.mp h
  exact ⟨r, Table.mem_of_lookup hr, Table.key_of_lookup hr, hw⟩

/-- Batches that are not done are not tracked. -/
theorem trackedUnder_of_not_done (hi : TrackedDone db) {n : ℕ} (h : db.isDone n = false) :
    db.trackedUnder n ≠ some w := by
  intro hw
  obtain ⟨r, hr, rfl, -⟩ := exists_of_trackedUnder hw
  rw [hi.done r hr] at h
  cases h

theorem trackedValue_of_unused (h : ∀ r ∈ db.aggregationTracking.rows, r.wtidRaw ≠ w) :
    db.trackedValue w = 0 := by
  refine Table.total_eq_zero fun d _ => onlyIf_neg fun hw => ?_
  obtain ⟨r, hr, -, e⟩ := exists_of_trackedUnder hw
  exact h r hr e

/-- Quiet operations leave the value of what is tracked. -/
theorem Quiet.trackedValue (h : Quiet db db') (hi : TrackedDone db) (w : ℕ) :
    db'.trackedValue w = db.trackedValue w := by
  have htr : ∀ n, db'.trackedUnder n = db.trackedUnder n := by
    intro n
    rw [Database.trackedUnder, h.tracking, Database.trackedUnder]
  obtain ⟨new, e, hnew⟩ := h.deposits
  unfold Database.trackedValue Table.total
  rw [e, List.map_append, List.sum_append]
  have hzero : (new.map (onlyIf (fun d => db'.trackedUnder d.batchDepositSerialId = some w)
      db'.netOf)).sum = 0 := by
    refine List.sum_eq_zero fun x hx => ?_
    obtain ⟨d, hd, rfl⟩ := List.mem_map.mp hx
    refine onlyIf_neg ?_
    rw [htr]
    exact trackedUnder_of_not_done hi (hnew d hd)
  rw [hzero, add_zero]
  congr 1
  refine List.map_congr_left fun d hd => ?_
  simp only [onlyIf, htr]
  refine ite_congr rfl (fun hw => ?_) fun _ => rfl
  obtain ⟨r, hr, hb, -⟩ := exists_of_trackedUnder hw
  exact h.net d hd (hb ▸ hi.done r hr)

/-- What an aggregation does to the tracking. -/
theorem trackedUnder_aggregate (h : aggregate db a = .ok (db', total)) (n : ℕ) :
    db'.trackedUnder n = if inAggregate db a n then some a.wtid else db.trackedUnder n := by
  obtain ⟨-, t, ht, rfl⟩ := aggregate_eq_ok.mp h
  exact lookup_tracked ht n

theorem wtid_aggregate (h : aggregate db a = .ok (db', total)) {r : AggregationTracking}
    (hr : r ∈ db'.aggregationTracking.rows) :
    r.wtidRaw = a.wtid ∨ ∃ r' ∈ db.aggregationTracking.rows, r'.wtidRaw = r.wtidRaw := by
  have hu := trackedUnder_of_mem hr
  rw [trackedUnder_aggregate h] at hu
  split_ifs at hu
  · exact Or.inl (Option.some.inj hu).symm
  · obtain ⟨r', hr', -, e⟩ := exists_of_trackedUnder hu
    exact Or.inr ⟨r', hr', e⟩

/-- **A fair aggregate adds its total to the value of its transfer.** -/
theorem trackedValue_aggregate (hi : AggregationRows db) (hf : AggregateFair db a)
    (h : aggregate db a = .ok (db', total)) (w : ℕ) :
    db'.trackedValue w = db.trackedValue w + if w = a.wtid then total.units else 0 := by
  have hu : total.units = aggregateSum db a db.netOf := by
    have := ((aggregateTotal_eq_some hi.toKnownRows).mp (aggregate_eq_ok.mp h).1).2
    rw [waived_eq_zero.mpr hf.fees] at this
    omega
  have htr := trackedUnder_aggregate h
  have hrows : db'.coinDeposits = db.coinDeposits ∧ db'.netOf = db.netOf := by
    obtain ⟨-, t, -, rfl⟩ := aggregate_eq_ok.mp h
    exact ⟨rfl, rfl⟩
  have hif : (if w = a.wtid then total.units else 0) = db.coinDeposits.total
      (onlyIf (fun d => inAggregate db a d.batchDepositSerialId = true ∧ w = a.wtid) db.netOf) := by
    by_cases hw : w = a.wtid
    · rw [if_pos hw, hu]
      refine Table.total_congr fun d _ => ?_
      simp only [onlyIf, hw, and_true]
    · rw [if_neg hw]
      exact (Table.total_eq_zero fun d _ => onlyIf_neg fun e => hw e.2).symm
  unfold Database.trackedValue
  rw [hrows.1, hrows.2, hif, ← Table.total_add]
  refine Table.total_congr fun d _ => ?_
  simp only [onlyIf, htr]
  by_cases hin : inAggregate db a d.batchDepositSerialId = true
  · have hno : db.trackedUnder d.batchDepositSerialId ≠ some w :=
      trackedUnder_of_not_done hi.toTrackedDone (isDone_of_inAggregate hin)
    by_cases hw : w = a.wtid
    · simp [hin, hw, hw ▸ hno]
    · simp [hin, hw, hno, Ne.symm hw]
  · simp [hin]

theorem tracked_of_rows (hi : TrackedDone db) : ∀ b ∈ db.batchDeposits.rows, b.done = true →
    ∃! w, ∃ r ∈ db.aggregationTracking.rows,
      r.batchDepositSerialId = b.batchDepositSerialId ∧ r.wtidRaw = w := by
  intro b hb hdone
  rw [← isDone_of_mem hb] at hdone
  obtain ⟨r, hr, e⟩ := Table.hasKey_iff.mp (hi.tracked _ hdone)
  refine ⟨r.wtidRaw, ⟨r, hr, e, rfl⟩, ?_⟩
  rintro w ⟨r', hr', e', rfl⟩
  rw [Table.eq_of_key hr' hr (e'.trans e.symm)]

end Tracked

/-! ## One transaction -/

/-- What a process relies on when it writes: its transient row, or a transfer of its own. -/
def Working (s : AggregatorState) (u : AggregationUnit) (x : Amount) : Prop :=
  (u.haveTransient = true ∧ s.Holds u x) ∨ (u.haveTransient = false ∧ UnusedWtid s u.wtid)

/-- What has been aggregated under transfer `w` has value `δ`. -/
structure AddsTo (db db' : Database) (w : ℕ) (δ : ℤ) : Prop where
  value : ∀ w', db'.trackedValue w' = db.trackedValue w' + if w' = w then δ else 0
  wtids : ∀ r ∈ db'.aggregationTracking.rows,
    r.wtidRaw = w ∨ ∃ r' ∈ db.aggregationTracking.rows, r'.wtidRaw = r.wtidRaw

section Transaction

variable {cfg : AggregatorConfig} {s s' : AggregatorState} {u : AggregationUnit} {x : Amount}
  {db' : Database} {δ : ℤ}

theorem AddsTo.refl (db : Database) (w : ℕ) : AddsTo db db w 0 :=
  ⟨fun _ => by simp, fun r hr => Or.inr ⟨r, hr, rfl⟩⟩

theorem AddsTo.value_of_ne (ha : AddsTo s.db db' u.wtid δ) {w : ℕ} (h : w ≠ u.wtid) :
    db'.trackedValue w = s.db.trackedValue w := by
  rw [ha.value, if_neg h, add_zero]

theorem addsTo_aggregate (hi : AggregationRows s.db) {now : Timestamp} {sum : Amount}
    (hf : AggregateFair s.db (u.args cfg now))
    (h : aggregate s.db (u.args cfg now) = .ok (db', sum)) : AddsTo s.db db' u.wtid sum.units :=
  ⟨trackedValue_aggregate hi hf h, fun _ hr => wtid_aggregate h hr⟩

theorem isRow_iff {r : AggregationTransient} : u.isRow r = true ↔
    r.wireTargetHPayto = u.hFullPayto ∧ r.wtidRaw = u.wtid := by
  simp [AggregationUnit.isRow]

/-- No other transient row is for the transfer. -/
theorem PayoutsExact.isRow (hp : PayoutsExact cfg s) (hh : s.Holds u x) {r : AggregationTransient}
    (hr : r ∈ s.transients) : u.isRow r = true ↔ r.wtidRaw = u.wtid := by
  obtain ⟨r₀, hr₀, hrow, -⟩ := hh
  refine ⟨fun h => (isRow_iff.mp h).2, fun e => ?_⟩
  rw [List.inj_on_of_nodup_map hp.single hr hr₀ (e.trans (isRow_iff.mp hrow).2.symm)]
  exact hrow

/-- What a process works on has not been paid. -/
theorem PayoutsExact.not_paid (hp : PayoutsExact cfg s) (hw : Working s u x) :
    s.wireOut.hasKey u.wtid = false := by
  obtain ⟨-, r, hr, hrow, -⟩ | ⟨-, hun⟩ := hw
  · rw [← (isRow_iff.mp hrow).2]
    exact hp.unpaid r hr
  · exact hun.wireOut

/-- The sum in the row, or nothing, is what is tracked so far. -/
theorem PayoutsExact.value (hp : PayoutsExact cfg s) (hw : Working s u x) :
    s.db.trackedValue u.wtid = if u.haveTransient then x.units else 0 := by
  obtain ⟨hh, r, hr, hrow, rfl⟩ | ⟨hh, hun⟩ := hw
  · rw [if_pos hh, hp.pending r hr, (isRow_iff.mp hrow).2]
  · rw [trackedValue_of_unused hun.tracking, hh]
    rfl

/-- **The sum is remembered.** -/
theorem PayoutsExact.save (hp : PayoutsExact cfg s) (hi : TrackedDone db') (hw : Working s u x)
    (ha : AddsTo s.db db' u.wtid δ) (htot : u.totalAmount.units = db'.trackedValue u.wtid) :
    PayoutsExact cfg { s with db := db', transients := saveTransient s.transients u } := by
  have hpaid : ∀ r ∈ s.wireOut.rows, cfg.Pays (db'.trackedValue r.wtidRaw) r := by
    intro r hr
    rw [ha.value_of_ne (u := u)]
    · exact hp.paid r hr
    · exact Table.hasKey_eq_false.mp (hp.not_paid hw) r hr
  obtain ⟨hh, hhold⟩ | ⟨hh, hun⟩ := id hw
  · have hsave : saveTransient s.transients u = s.transients.map fun r =>
        if u.isRow r then { r with amount := u.totalAmount } else r := if_pos hh
    have hwtid : ∀ r : AggregationTransient,
        (if u.isRow r then { r with amount := u.totalAmount } else r).wtidRaw = r.wtidRaw := by
      intro r
      split_ifs <;> rfl
    refine ⟨tracked_of_rows hi, hpaid, ?_, ?_, ?_, ?_⟩
    · intro r' hr'
      rw [hsave] at hr'
      obtain ⟨r, hr, rfl⟩ := List.mem_map.mp hr'
      split_ifs with hrow
      · rw [htot, (isRow_iff.mp hrow).2]
      · rw [hp.pending r hr, ha.value_of_ne (fun e => hrow ((hp.isRow hhold hr).mpr e))]
    · intro r' hr'
      rw [hsave] at hr'
      obtain ⟨r, hr, rfl⟩ := List.mem_map.mp hr'
      rw [hwtid]
      exact hp.unpaid r hr
    · simp only [hsave, List.map_map, Function.comp_def, hwtid]
      exact hp.single
    · intro r hr
      have hmem : ∀ q ∈ s.transients, ∃ q' ∈ saveTransient s.transients u, q'.wtidRaw = q.wtidRaw := by
        intro q hq
        rw [hsave]
        exact ⟨_, List.mem_map_of_mem hq, hwtid q⟩
      rcases ha.wtids r hr with e | ⟨r', hr', e⟩
      · obtain ⟨r₀, hr₀, hrow, -⟩ := hhold
        obtain ⟨q, hq, eq⟩ := hmem r₀ hr₀
        exact Or.inr ⟨q, hq, eq.trans ((isRow_iff.mp hrow).2.trans e.symm)⟩
      · rcases hp.kept r' hr' with hk | ⟨q, hq, eq⟩
        · exact Or.inl (e ▸ hk)
        · obtain ⟨q', hq', eq'⟩ := hmem q hq
          exact Or.inr ⟨q', hq', eq'.trans (eq.trans e)⟩
  · have hsave : saveTransient s.transients u = s.transients ++
        [⟨u.totalAmount, u.hFullPayto, u.merchantPub, u.sectionName, u.wtid⟩] := by
      rw [saveTransient, hh]
      rfl
    refine ⟨tracked_of_rows hi, hpaid, ?_, ?_, ?_, ?_⟩
    · intro r hr
      simp only [hsave, List.mem_append, List.mem_singleton] at hr
      rcases hr with hr | rfl
      · rw [hp.pending r hr, ha.value_of_ne (hun.transients r hr)]
      · exact htot
    · intro r hr
      simp only [hsave, List.mem_append, List.mem_singleton] at hr
      rcases hr with hr | rfl
      · exact hp.unpaid r hr
      · exact hun.wireOut
    · simp only [hsave, List.map_append, List.map_singleton]
      refine List.nodup_append.mpr ⟨hp.single, List.nodup_singleton _, fun w hw' w' hw'' e => ?_⟩
      obtain ⟨r, hr, rfl⟩ := List.mem_map.mp hw'
      exact hun.transients r hr (e.trans (List.mem_singleton.mp hw''))
    · intro r hr
      simp only [hsave, List.mem_append, List.mem_singleton]
      rcases ha.wtids r hr with e | ⟨r', hr', e⟩
      · exact Or.inr ⟨_, Or.inr rfl, e.symm⟩
      · rcases hp.kept r' hr' with hk | ⟨q, hq, eq⟩
        · exact Or.inl (e ▸ hk)
        · exact Or.inr ⟨q, Or.inl hq, eq.trans e⟩

/-- The final amount is the total less the fee, rounded. -/
theorem pays_of_final {v : ℤ} {i : ℕ} (htot : u.totalAmount.units = v)
    (hfee : cfg.wireFee u.sectionName u.executionTime = some u.wireFee)
    (hfin : cfg.finalAmount u = some u.finalAmount) :
    cfg.Pays v ⟨i, u.executionTime, u.wtid, u.hFullPayto, u.sectionName, u.finalAmount⟩ := by
  simp only [AggregatorConfig.finalAmount, Option.bind_eq_bind, Option.bind_eq_some_iff,
    Amount.subtract?_eq_some] at hfin
  obtain ⟨y, hy, z, hz, hfin⟩ := hfin
  split_ifs at hfin
  cases hfin
  exact ⟨u.wireFee, y, hfee, by omega, hz⟩

/-- **The sum is paid.** -/
theorem PayoutsExact.pay (hp : PayoutsExact cfg s) (hi : TrackedDone db') (hw : Working s u x)
    (ha : AddsTo s.db db' u.wtid δ) (htot : u.totalAmount.units = db'.trackedValue u.wtid)
    (hfee : cfg.wireFee u.sectionName u.executionTime = some u.wireFee)
    (hfin : cfg.finalAmount u = some u.finalAmount)
    (h : triggerWireTransfer { s with db := db' } u = some s') : PayoutsExact cfg s' := by
  obtain ⟨t, ht, rfl⟩ := Option.map_eq_some_iff.mp h
  have hkey : ∀ w, t.hasKey w = (s.wireOut.hasKey w || decide (u.wtid = w)) :=
    Table.hasKey_insert? ht
  have hout := Table.hasKey_eq_false.mp (hp.not_paid hw)
  -- the rows that stay are those of other transfers
  have hrest : ∀ r, r ∈ (if u.haveTransient then s.transients.filter (!u.isRow ·)
      else s.transients) ↔ r ∈ s.transients ∧ r.wtidRaw ≠ u.wtid := by
    intro r
    obtain ⟨hh, hhold⟩ | ⟨hh, hun⟩ := hw
    · rw [if_pos hh, List.mem_filter]
      refine and_congr_right fun hr => ?_
      rw [Bool.not_eq_true', ← Bool.not_eq_true, hp.isRow hhold hr]
    · rw [hh]
      exact ⟨fun hr => ⟨hr, hun.transients r hr⟩, fun hr => hr.1⟩
  refine ⟨tracked_of_rows hi, ?_, ?_, ?_, ?_, ?_⟩
  · intro r hr
    rcases (Table.mem_insert? ht).mp hr with hr | rfl
    · have hne : r.wtidRaw ≠ u.wtid := hout r hr
      change cfg.Pays (db'.trackedValue r.wtidRaw) r
      rw [ha.value_of_ne hne]
      exact hp.paid r hr
    · exact pays_of_final htot hfee hfin
  · intro r hr
    obtain ⟨hr, hne⟩ := (hrest r).mp hr
    exact (hp.pending r hr).trans (ha.value_of_ne hne).symm
  · intro r hr
    obtain ⟨hr, hne⟩ := (hrest r).mp hr
    rw [hkey, hp.unpaid r hr, decide_eq_false hne.symm, Bool.or_false]
  · have hsub : (if u.haveTransient then s.transients.filter (!u.isRow ·) else s.transients).Sublist
        s.transients := by
      split_ifs
      · exact List.filter_sublist
      · exact List.Sublist.refl _
    exact hp.single.sublist (hsub.map _)
  · intro r hr
    simp only [hkey, Bool.or_eq_true, decide_eq_true_eq]
    by_cases e : u.wtid = r.wtidRaw
    · exact Or.inl (Or.inr e)
    · rcases ha.wtids r hr with e' | ⟨r', hr', e'⟩
      · exact absurd e'.symm e
      · rcases hp.kept r' hr' with hk | ⟨q, hq, eq⟩
        · exact Or.inl (Or.inl (e' ▸ hk))
        · exact Or.inr ⟨q, (hrest q).mpr ⟨hq, fun h => e (h.symm.trans (eq.trans e'))⟩, eq.trans e'⟩

/-- Transfers that others have picked stay unused. -/
theorem UnusedWtid.of_addsTo {w : ℕ} (hun : UnusedWtid s w) (ha : AddsTo s.db db' u.wtid δ)
    (hne : u.wtid ≠ w) : ∀ r ∈ db'.aggregationTracking.rows, r.wtidRaw ≠ w := by
  intro r hr e
  rcases ha.wtids r hr with h | ⟨r', hr', h⟩
  · exact hne (h.symm.trans e)
  · exact hun.tracking r' hr' (h.trans e)

theorem UnusedWtid.save {w : ℕ} (hun : UnusedWtid s w) (ha : AddsTo s.db db' u.wtid δ)
    (hne : u.wtid ≠ w) :
    UnusedWtid { s with db := db', transients := saveTransient s.transients u } w := by
  refine ⟨hun.of_addsTo ha hne, hun.wireOut, fun r hr => ?_⟩
  simp only [saveTransient] at hr
  split_ifs at hr
  · obtain ⟨q, hq, rfl⟩ := List.mem_map.mp hr
    have := hun.transients q hq
    split_ifs <;> exact this
  · rcases List.mem_append.mp hr with hr | hr
    · exact hun.transients r hr
    · rw [List.mem_singleton.mp hr]
      exact hne

theorem UnusedWtid.pay {w : ℕ} (hun : UnusedWtid s w) (ha : AddsTo s.db db' u.wtid δ)
    (hne : u.wtid ≠ w) (h : triggerWireTransfer { s with db := db' } u = some s') :
    UnusedWtid s' w := by
  obtain ⟨t, ht, rfl⟩ := Option.map_eq_some_iff.mp h
  refine ⟨hun.of_addsTo ha hne, ?_, fun r hr => hun.transients r ?_⟩
  · rw [Table.hasKey_insert? ht, decide_eq_false (by exact hne), Bool.or_false]
    exact hun.wireOut
  · simp only at hr
    split_ifs at hr
    · exact (List.mem_filter.mp hr).1
    · exact hr

end Transaction

/-! ## The processes -/

/-- What the processes have in memory: the fee of their account, a transfer of their own, and the
amount that follows from the total. -/
structure PhasesOk (cfg : AggregatorConfig) (s : AggregatorState) : Prop where
  fees : ∀ p ∈ s.phases, ∀ u, p.unit? = some u →
    cfg.wireFee u.sectionName u.executionTime = some u.wireFee
  fresh : ∀ (i : ℕ) u, s.phases[i]? = some (.selected u) → u.haveTransient = false →
    UnusedWtid s u.wtid ∧
      ∀ (j : ℕ) p v, j ≠ i → s.phases[j]? = some p → p.unit? = some v → v.wtid ≠ u.wtid
  final : ∀ u, .checking u ∈ s.phases →
    u.haveTransient = true ∧ cfg.finalAmount u = some u.finalAmount

/-- The transfer is not one that another process has just picked. -/
def AggregatorState.Apart (s : AggregatorState) (i w : ℕ) : Prop :=
  ∀ (j : ℕ) v, j ≠ i → s.phases[j]? = some (.selected v) → v.haveTransient = false → w ≠ v.wtid

/-- **The invariant.** -/
structure AggregatorInv (cfg : AggregatorConfig) (s : AggregatorState) : Prop where
  rows : AggregationRows s.db
  merges : MergesHavePurse s.db
  payouts : PayoutsExact cfg s
  phases : PhasesOk cfg s

section Processes

variable {cfg : AggregatorConfig} {s s' : AggregatorState} {u : AggregationUnit} {i : ℕ}
  {p : AggregatorPhase}

/-- Process `i` moves on, the others stay where they are. -/
theorem PhasesOk.set (hi : PhasesOk cfg s) (hs : s'.phases = s.phases.set i p)
    (hun : ∀ (j : ℕ) v, j ≠ i → s.phases[j]? = some (.selected v) → v.haveTransient = false →
      UnusedWtid s v.wtid → UnusedWtid s' v.wtid)
    (hsep : ∀ u, p.unit? = some u → s.Apart i u.wtid ∧
      cfg.wireFee u.sectionName u.executionTime = some u.wireFee)
    (hnew : ∀ u, p = .selected u → u.haveTransient = false → UnusedWtid s' u.wtid ∧
      ∀ q ∈ s.phases, ∀ v, q.unit? = some v → v.wtid ≠ u.wtid)
    (hfin : ∀ u, p = .checking u →
      u.haveTransient = true ∧ cfg.finalAmount u = some u.finalAmount) : PhasesOk cfg s' where
  fees q hq v hv := by
    rw [hs] at hq
    rcases List.mem_or_eq_of_mem_set hq with hq | rfl
    · exact hi.fees q hq v hv
    · exact (hsep v hv).2
  fresh j v hj hh := by
    rw [hs] at hj
    by_cases e : j = i
    · subst e
      rw [List.getElem?_set] at hj
      simp only [if_true] at hj
      split_ifs at hj
      obtain ⟨hu, hne⟩ := hnew v (Option.some.inj hj) hh
      refine ⟨hu, fun k q w hk hq hw => ?_⟩
      rw [hs, List.getElem?_set_ne (Ne.symm hk)] at hq
      exact hne q (List.mem_of_getElem? hq) w hw
    · rw [List.getElem?_set_ne (Ne.symm e)] at hj
      obtain ⟨hu, hne⟩ := hi.fresh j v hj hh
      refine ⟨hun j v e hj hh hu, fun k q w hk hq hw => ?_⟩
      rw [hs] at hq
      by_cases e' : k = i
      · subst e'
        rw [List.getElem?_set] at hq
        simp only [if_true] at hq
        split_ifs at hq
        cases hq
        exact (hsep w hw).1 j v e hj hh
      · rw [List.getElem?_set_ne (Ne.symm e')] at hq
        exact hne k q w hk hq hw
  final v hv := by
    rw [hs] at hv
    rcases List.mem_or_eq_of_mem_set hv with hv | hv
    · exact hi.final v hv
    · exact hfin v hv.symm

/-- A process that gives up leaves everything else as it is. -/
theorem AggregatorInv.idle (hi : AggregatorInv cfg s) (i : ℕ) : AggregatorInv cfg (s.goto i .idle) where
  rows := hi.rows
  merges := hi.merges
  payouts := ⟨hi.payouts.tracked, hi.payouts.paid, hi.payouts.pending, hi.payouts.unpaid,
    hi.payouts.single, hi.payouts.kept⟩
  phases := hi.phases.set rfl (fun _ _ _ _ _ h => ⟨h.tracking, h.wireOut, h.transients⟩)
    (fun _ h => (nomatch h)) (fun _ h => (nomatch h)) fun _ h => (nomatch h)

/-- A unit that was selected: its fee, and what it works on. -/
theorem selectUnit_spec {m : MerchantPub} {h : HashCode} {t : Timestamp} {nonce : ℕ}
    (hn : UnusedWtid s nonce) (hu : selectUnit cfg s m h t nonce = some u) :
    cfg.wireFee u.sectionName u.executionTime = some u.wireFee ∧ Working s u u.trans ∧
      (u.haveTransient = true ∨ u.wtid = nonce) := by
  simp only [selectUnit, Option.bind_eq_bind, Option.bind_eq_some_iff] at hu
  obtain ⟨acc, -, fee, hfee, hu⟩ := hu
  split at hu
  · cases hu
    exact ⟨hfee, Or.inr ⟨rfl, hn⟩, Or.inr rfl⟩
  · next r hr =>
    obtain ⟨x, hx, hu⟩ := Option.bind_eq_some_iff.mp hu
    cases hu
    have hmem : r ∈ s.transients.filter fun r => r.wireTargetHPayto = h ∧ r.merchantPub = m ∧
        r.exchangeAccountSection = acc := by
      rw [hr]
      exact List.mem_singleton_self r
    obtain ⟨hmem, hp⟩ := List.mem_filter.mp hmem
    simp only [decide_eq_true_eq] at hp
    refine ⟨hfee, Or.inl ⟨rfl, r, hmem, isRow_iff.mpr ⟨hp.1, rfl⟩, ?_⟩, Or.inl rfl⟩
    exact (Amount.ext_units (Amount.units_ofTaler? hx)).symm
  · cases hu

theorem apart_of_working (hi : PhasesOk cfg s) {x : Amount} (hw : Working s u x)
    (hne : u.haveTransient = false → ∀ q ∈ s.phases, ∀ v, q.unit? = some v → v.wtid ≠ u.wtid) :
    s.Apart i u.wtid := by
  intro j v _ hj hv e
  obtain ⟨-, r, hr, hrow, -⟩ | ⟨hh, -⟩ := hw
  · exact ((hi.fresh j v hj hv).1.transients r hr) ((isRow_iff.mp hrow).2.trans e)
  · exact hne hh _ (List.mem_of_getElem? hj) v rfl e.symm

theorem phases_triggerWireTransfer (h : triggerWireTransfer s u = some s') :
    s'.phases = s.phases ∧ s'.db = s.db := by
  obtain ⟨t, -, rfl⟩ := Option.map_eq_some_iff.mp h
  exact ⟨rfl, rfl⟩

/-- **What `do_aggregate` can do** once it has aggregated: remember the sum, pay it, or remember it
and have the rules evaluated. -/
theorem doAggregate_cases {now : Timestamp} {o : Option AggregationUnit}
    (h : doAggregate cfg s u now = some (s', o)) : ∃ db' sum total,
      aggregate s.db (u.args cfg now) = .ok (db', sum) ∧
      u.addTransient sum = some total ∧
      ((o = none ∧ s' = { s with
          db := db', transients := saveTransient s.transients { u with totalAmount := total } }) ∨
        ∃ x, cfg.finalAmount { u with totalAmount := total } = some x ∧
          ((o = none ∧ triggerWireTransfer { s with db := db' }
              { u with totalAmount := total, finalAmount := x } = some s') ∨
            (o = some { u with totalAmount := total, finalAmount := x, haveTransient := true } ∧
              s' = { s with
                db := db'
                transients := saveTransient s.transients
                  { u with totalAmount := total, finalAmount := x } }))) := by
  unfold doAggregate at h
  split at h
  · cases h
  · next db' sum hagg =>
    simp only [Option.bind_eq_bind, Option.bind_eq_some_iff] at h
    obtain ⟨total, htot, h⟩ := h
    refine ⟨db', sum, total, hagg, htot, ?_⟩
    split at h
    · cases h
      exact Or.inl ⟨rfl, rfl⟩
    · next x hx =>
      refine Or.inr ⟨x, hx, ?_⟩
      split_ifs at h
      · obtain ⟨s₁, hs₁, h⟩ := Option.bind_eq_some_iff.mp h
        cases h
        exact Or.inl ⟨rfl, hs₁⟩
      · cases h
        exact Or.inr ⟨rfl, rfl⟩

/-- **The transaction of `do_aggregate`.** -/
theorem AggregatorInv.conclude (hi : AggregatorInv cfg s) {now : Timestamp}
    (hw : Working s u u.trans) (hap : s.Apart i u.wtid)
    (hfee : cfg.wireFee u.sectionName u.executionTime = some u.wireFee)
    (hf : AggregateFair s.db (u.args cfg now)) :
    AggregatorInv cfg (s.conclude i (doAggregate cfg s u now)) := by
  cases h : doAggregate cfg s u now with
  | none => exact hi.idle i
  | some r =>
    obtain ⟨s', o⟩ := r
    obtain ⟨db', sum, total, hagg, htot, hcase⟩ := doAggregate_cases h
    have hrows : AggregationRows db' ∧ MergesHavePurse db' :=
      (aggregate_path (C := fun _ _ => True) trivial hagg).invariant
        (I := fun db => AggregationRows db ∧ MergesHavePurse db)
        (fun _ _ _ _ hp hi => ⟨hp.aggregationRows hi.1, hp.mergesHavePurse hi.2⟩) ⟨hi.rows, hi.merges⟩
    have ha := addsTo_aggregate hi.rows hf hagg
    have hval : total.units = db'.trackedValue u.wtid := by
      rw [ha.value, if_pos rfl, hi.payouts.value hw]
      unfold AggregationUnit.addTransient at htot
      by_cases hh : u.haveTransient = true
      · rw [if_pos hh] at htot ⊢
        rw [Amount.add?_eq_some.mp htot]
        omega
      · rw [if_neg hh] at htot ⊢
        cases htot
        omega
    have hun : ∀ (j : ℕ) v, j ≠ i → s.phases[j]? = some (.selected v) → v.haveTransient = false →
        u.wtid ≠ v.wtid := hap
    obtain ⟨rfl, rfl⟩ | ⟨x, hx, ⟨rfl, hs⟩ | ⟨rfl, rfl⟩⟩ := hcase
    · have hp := hi.payouts.save (u := { u with totalAmount := total }) hrows.1.toTrackedDone hw ha hval
      refine ⟨hrows.1, hrows.2, ⟨hp.tracked, hp.paid, hp.pending, hp.unpaid, hp.single, hp.kept⟩, ?_⟩
      refine hi.phases.set rfl (fun j v hj hv hh hu => ?_) (fun _ h => (nomatch h))
        (fun _ h => (nomatch h)) fun _ h => (nomatch h)
      have := hu.save (u := { u with totalAmount := total }) ha (hun j v hj hv hh)
      exact ⟨this.tracking, this.wireOut, this.transients⟩
    · have hp := hi.payouts.pay (u := { u with totalAmount := total, finalAmount := x })
        hrows.1.toTrackedDone hw ha hval hfee hx hs
      obtain ⟨hph, hdb⟩ := phases_triggerWireTransfer hs
      have hset : (s'.goto i .idle).phases = s.phases.set i .idle :=
        congrArg (List.set · i AggregatorPhase.idle) hph
      refine ⟨?_, ?_, ⟨hp.tracked, hp.paid, hp.pending, hp.unpaid, hp.single, hp.kept⟩, ?_⟩
      · change AggregationRows s'.db
        rw [hdb]
        exact hrows.1
      · change MergesHavePurse s'.db
        rw [hdb]
        exact hrows.2
      · refine hi.phases.set hset (fun j v hj hv hh hu => ?_)
          (fun _ h => (nomatch h)) (fun _ h => (nomatch h)) fun _ h => (nomatch h)
        have := hu.pay (u := { u with totalAmount := total, finalAmount := x }) ha
          (hun j v hj hv hh) hs
        exact ⟨this.tracking, this.wireOut, this.transients⟩
    · have hp := hi.payouts.save (u := { u with totalAmount := total, finalAmount := x })
        hrows.1.toTrackedDone hw ha hval
      refine ⟨hrows.1, hrows.2, ⟨hp.tracked, hp.paid, hp.pending, hp.unpaid, hp.single, hp.kept⟩, ?_⟩
      refine hi.phases.set rfl (fun j v hj hv hh hu => ?_) (fun v hv => ?_) (fun _ h => (nomatch h))
        fun v hv => ?_
      · have := hu.save (u := { u with totalAmount := total, finalAmount := x }) ha
          (hun j v hj hv hh)
        exact ⟨this.tracking, this.wireOut, this.transients⟩
      · cases hv
        exact ⟨hap, hfee⟩
      · cases hv
        exact ⟨rfl, hx⟩

/-- **The transaction of `evaluate_rules`.** -/
theorem AggregatorInv.evaluate (hi : AggregatorInv cfg s) {clear : Bool}
    (hu : s.phases[i]? = some (.checking u))
    (hok : s.wireOut.hasKey u.wtid = true ∨ s.Holds u u.totalAmount) :
    AggregatorInv cfg ((evaluateRules s u clear).goto i .idle) := by
  obtain ⟨hh, hfin⟩ := hi.phases.final u (List.mem_of_getElem? hu)
  have hfee := hi.phases.fees _ (List.mem_of_getElem? hu) u rfl
  have hap : s.Apart i u.wtid := fun j v hj hv hv' e =>
    (hi.phases.fresh j v hv hv').2 i _ u (Ne.symm hj) hu rfl e
  cases clear with
  | false =>
    -- the row has the total already, or there is none any more
    have hsame : saveTransient s.transients u = s.transients := by
      rw [saveTransient, if_pos hh]
      refine (List.map_congr_left fun r hr => ?_).trans (List.map_id _)
      split_ifs with hrow
      · rcases hok with hk | ⟨r₀, hr₀, hrow₀, hx⟩
        · have := hi.payouts.unpaid r hr
          rw [(isRow_iff.mp hrow).2, hk] at this
          cases this
        · have e : r = r₀ := List.inj_on_of_nodup_map hi.payouts.single hr hr₀
            ((isRow_iff.mp hrow).2.trans (isRow_iff.mp hrow₀).2.symm)
          rw [e, ← hx]
          rfl
      · rfl
    have hstate : evaluateRules s u false = s := by
      change { s with transients := saveTransient s.transients u } = s
      rw [hsame]
    rw [hstate]
    exact hi.idle i
  | true =>
    change AggregatorInv cfg (((triggerWireTransfer s u).getD s).goto i .idle)
    cases ht : triggerWireTransfer s u with
    | none => exact hi.idle i
    | some s' =>
      have hno : s.wireOut.hasKey u.wtid = false := by
        obtain ⟨t, ht, -⟩ := Option.map_eq_some_iff.mp ht
        exact (Table.insert?_eq_some.mp ht).1
      rw [hno] at hok
      have hhold := hok.resolve_left (by decide)
      have hw : Working s u u.totalAmount := Or.inl ⟨hh, hhold⟩
      have hval := hi.payouts.value hw
      rw [if_pos hh] at hval
      have hp := hi.payouts.pay hi.rows.toTrackedDone hw (.refl s.db u.wtid) hval.symm hfee hfin ht
      obtain ⟨hph, hdb⟩ := phases_triggerWireTransfer ht
      have hset : (s'.goto i .idle).phases = s.phases.set i .idle :=
        congrArg (List.set · i AggregatorPhase.idle) hph
      refine ⟨?_, ?_, ⟨hp.tracked, hp.paid, hp.pending, hp.unpaid, hp.single, hp.kept⟩, ?_⟩
      · change AggregationRows s'.db
        rw [hdb]
        exact hi.rows
      · change MergesHavePurse s'.db
        rw [hdb]
        exact hi.merges
      · refine hi.phases.set hset (fun j v hj hv hv' hun => ?_)
          (fun _ h => (nomatch h)) (fun _ h => (nomatch h)) fun _ h => (nomatch h)
        have := hun.pay (.refl s.db u.wtid) (hap j v hj hv hv') ht
        exact ⟨this.tracking, this.wireOut, this.transients⟩

/-- Other operations leave what has been aggregated. -/
theorem AggregatorInv.other (hi : AggregatorInv cfg s) {o : Op} (ho : ∀ a, o ≠ .aggregate a)
    (hl : NotLate s.db o) : AggregatorInv cfg { s with db := step s.db o } := by
  have hq := step_quiet hi.merges hi.rows hl ho
  have hrows : AggregationRows (step s.db o) ∧ MergesHavePurse (step s.db o) :=
    (step_path (C := fun _ _ => True) hi.merges fun _ _ _ => trivial).invariant
      (I := fun db => AggregationRows db ∧ MergesHavePurse db)
      (fun _ _ _ _ hp hi => ⟨hp.aggregationRows hi.1, hp.mergesHavePurse hi.2⟩) ⟨hi.rows, hi.merges⟩
  have hv := hq.trackedValue hi.rows.toTrackedDone
  have hp := hi.payouts
  have hun : ∀ w, UnusedWtid s w → UnusedWtid { s with db := step s.db o } w := fun w h =>
    ⟨fun r hr => h.tracking r (hq.tracking ▸ hr), h.wireOut, h.transients⟩
  refine ⟨hrows.1, hrows.2, ⟨tracked_of_rows hrows.1.toTrackedDone, fun r hr => ?_, fun r hr => ?_,
    hp.unpaid, hp.single, fun r hr => hp.kept r (hq.tracking ▸ hr)⟩,
    ⟨hi.phases.fees, fun i u hu hh => ?_, hi.phases.final⟩⟩
  · change cfg.Pays ((step s.db o).trackedValue r.wtidRaw) r
    rw [hv]
    exact hp.paid r hr
  · change r.amount.units = (step s.db o).trackedValue r.wtidRaw
    rw [hv]
    exact hp.pending r hr
  · obtain ⟨h₁, h₂⟩ := hi.phases.fresh i u hu hh
    exact ⟨hun _ h₁, h₂⟩

/-- **One step keeps the invariant.** -/
theorem aggregatorStep_inv {o : AggregatorOp} (hi : AggregatorInv cfg s) (ho : AggregatorOk cfg s o) :
    AggregatorInv cfg (aggregatorStep cfg s o) := by
  cases o with
  | other o =>
    by_cases hagg : ∃ a, o = .aggregate a
    · obtain ⟨a, rfl⟩ := hagg
      exact hi
    · have hstep : aggregatorStep cfg s (.other o) = { s with db := step s.db o } := by
        cases o with
        | aggregate a => exact absurd ⟨a, rfl⟩ hagg
        | _ => rfl
      rw [hstep]
      exact hi.other (fun a e => hagg ⟨a, e⟩) ho
  | select i m h t nonce =>
    simp only [aggregatorStep]
    split
    · next u hidle hu =>
      obtain ⟨hn, hne⟩ := ho
      obtain ⟨hfee, hw, hor⟩ := selectUnit_spec hn hu
      have hnew : u.haveTransient = false → u.wtid = nonce := fun h =>
        hor.resolve_left (by rw [h]; decide)
      have hap : s.Apart i u.wtid := apart_of_working hi.phases hw fun hh => hnew hh ▸ hne
      have hp := hi.payouts
      refine ⟨hi.rows, hi.merges, ⟨hp.tracked, hp.paid, hp.pending, hp.unpaid, hp.single, hp.kept⟩,
        ?_⟩
      refine hi.phases.set rfl (fun _ _ _ _ _ h => ⟨h.tracking, h.wireOut, h.transients⟩)
        (fun v hv => ?_) (fun v hv hh => ?_) fun _ h => (nomatch h)
      · cases hv
        exact ⟨hap, hfee⟩
      · cases hv
        rw [hnew hh]
        exact ⟨⟨hn.tracking, hn.wireOut, hn.transients⟩, hne⟩
    · exact hi
  | aggregate i now =>
    simp only [aggregatorStep]
    split
    · next u hu =>
      obtain ⟨hf, hhold⟩ := ho u hu
      have hfee := hi.phases.fees _ (List.mem_of_getElem? hu) u rfl
      have hap : s.Apart i u.wtid := fun j v hj hv hv' e =>
        (hi.phases.fresh j v hv hv').2 i _ u (Ne.symm hj) hu rfl e
      refine hi.conclude ?_ hap hfee hf
      cases hh : u.haveTransient with
      | true => exact Or.inl ⟨hh, hhold hh⟩
      | false => exact Or.inr ⟨hh, (hi.phases.fresh i u hu hh).1⟩
    · exact hi
  | drain i m h t nonce now =>
    simp only [aggregatorStep]
    split
    · next u hidle hu =>
      obtain ⟨hn, hne, hf⟩ := ho
      obtain ⟨hfee, hw, hor⟩ := selectUnit_spec hn hu
      have hap : s.Apart i u.wtid := apart_of_working hi.phases hw fun hh =>
        hor.resolve_left (by rw [hh]; decide) ▸ hne
      split_ifs
      · exact hi.conclude hw hap hfee (hf u hu)
      · exact hi
    · exact hi
  | evaluateRules i clear =>
    simp only [aggregatorStep]
    split
    · next u hu => exact hi.evaluate hu (ho u hu)
    · exact hi
  | rollback i => exact hi.idle i

end Processes

theorem aggregatorInv_initial (cfg : AggregatorConfig) (n : ℕ) :
    AggregatorInv cfg (.initial n) where
  rows := aggregationRows_empty
  merges := fun _ h => (nomatch h)
  payouts := ⟨fun _ h => (nomatch h), fun _ h => (nomatch h), fun _ h => (nomatch h),
    fun _ h => (nomatch h), List.nodup_nil, fun _ h => (nomatch h)⟩
  phases := by
    have hidle : ∀ {p}, p ∈ (AggregatorState.initial n).phases → p = .idle :=
      fun h => List.eq_of_mem_replicate h
    refine ⟨fun p hp u hu => ?_, fun i u hu _ => ?_, fun u hu => ?_⟩
    · rw [hidle hp] at hu
      cases hu
    · cases hidle (List.mem_of_getElem? hu)
    · cases hidle hu

/-- **Payout conservation.** In every interleaving of aggregator processes, KYC drains, failures and
other operations that meets the condition, every batch that is done is tracked under one transfer,
every transfer in `wire_out` pays the net value of what is tracked under it less one wire fee,
rounded down, and whatever else is tracked is in one transient row with its value. -/
theorem run_payouts {cfg : AggregatorConfig} {n : ℕ} {ops : List AggregatorOp}
    (h : Admits (aggregatorStep cfg) (AggregatorOk cfg) (.initial n) ops) :
    PayoutsExact cfg (run (aggregatorStep cfg) (.initial n) ops) :=
  (run_invariant (I := AggregatorInv cfg) (fun _ _ ho hi => aggregatorStep_inv hi ho) h
    (aggregatorInv_initial cfg n)).payouts

/-! ## Sample runs -/

/-- One account, a wire fee of one, KYC checks on. -/
def sampleAggregator : AggregatorConfig where
  findAccount _ := some 1
  wireFee _ _ := some (.whole 1)
  computeShard _ := 0
  currencyRoundUnit := .part 1000000
  kycOff := false

/-- A coin of value ten with a deposit fee of one, four of it deposited. -/
def depositOfFour : List AggregatorOp :=
  (coinOfTen (.whole 1) .zero ++
    [Op.deposit { sampleBatch with coins := [⟨7, 1, .whole 4⟩] }]).map .other

/-- The deposit is aggregated, cleared and paid. -/
def paidOnce : List AggregatorOp :=
  depositOfFour ++ [.select 0 5 4 0 1, .aggregate 0 100, .evaluateRules 0 true]

/-- The state after the first steps of a sample run. -/
def sampleState (n k : ℕ) (ops : List AggregatorOp) : AggregatorState :=
  run (aggregatorStep sampleAggregator) (.initial n) (ops.take k)

theorem paidOnce_exact : PayoutsExact sampleAggregator
    (run (aggregatorStep sampleAggregator) (.initial 1) paidOnce) := by
  refine run_payouts ⟨trivial, trivial, ?_, ⟨⟨?_, ?_, ?_⟩, ?_⟩, ?_, ?_, trivial⟩
  · refine (?_ : NotLate _ (.deposit _))
    decide +kernel
  · exact of_decide_eq_true (by decide +kernel)
  · decide +kernel
  · exact of_decide_eq_true (by decide +kernel)
  · have hidle : (sampleState 1 3 paidOnce).phases = [.idle] := by decide +kernel
    change ∀ p ∈ (sampleState 1 3 paidOnce).phases, _
    rw [hidle]
    intro p hp u hu
    rw [List.mem_singleton.mp hp] at hu
    cases hu
  · have hsel : (sampleState 1 4 paidOnce).phases =
        [.selected ⟨4, 5, 1, 0, .whole 1, 1, false, .zero, .zero, .zero⟩] := by decide +kernel
    change ∀ u, (sampleState 1 4 paidOnce).phases[0]? = _ → _
    rw [hsel]
    intro u hu
    cases hu
    exact ⟨⟨by decide +kernel, by decide +kernel, by decide +kernel⟩, fun h => (nomatch h)⟩
  · have hchk : (sampleState 1 5 paidOnce).phases =
        [.checking ⟨4, 5, 1, 0, .whole 1, 1, true, .zero, .whole 3, .whole 2⟩] := by decide +kernel
    change ∀ u, (sampleState 1 5 paidOnce).phases[0]? = _ → _
    rw [hchk]
    intro u hu
    cases hu
    exact Or.inr ⟨⟨.whole 3, 4, 5, 1, 1⟩, by decide +kernel, by decide +kernel, rfl⟩

/-- While process `0` waits for the rules, process `1` drains a KYC alert and adds a second deposit
to the transient row; then process `0` pays its old total and deletes the row. -/
def staleTotal : List AggregatorOp :=
  depositOfFour ++
  [.select 0 5 4 0 1, .aggregate 0 100,
   .other (.deposit { sampleBatch with hContractTerms := 9, coins := [⟨7, 2, .whole 4⟩] }),
   .drain 1 5 4 0 2 100, .evaluateRules 0 true, .evaluateRules 1 true]

theorem not_payouts : ¬ PayoutsExact sampleAggregator
    (run (aggregatorStep sampleAggregator) (.initial 2) staleTotal) := by
  intro h
  obtain ⟨fee, x, hfee, hx, hr⟩ := h.paid ⟨1, 0, 1, 4, 1, .whole 2⟩ (by decide +kernel)
  cases hfee
  have hv : (run (aggregatorStep sampleAggregator) (.initial 2) staleTotal).db.trackedValue 1 =
      600000000 := by decide +kernel
  have hx' : x = .whole 5 := Amount.ext_units (hx.trans (by rw [hv]; rfl))
  subst hx'
  exact absurd hr (by decide +kernel)

end TalerExchange
