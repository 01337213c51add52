import TalerExchange.Aggregation.Asserts

/-!
# Progress of the aggregator

`TEH_PG_get_ready_deposit` selects a batch deposit whose wire deadline has passed,
`TEH_PG_aggregate` processes those of the same account whose refund deadline lies before the clock,
rounded down. The selected one is among them only if its refund deadline lies before the rounded
clock.

* `readyDeposits`: the rows that the selection may return;
* `absoluteRoundDown`: the clock that the aggregation uses;
* `Processes`: the aggregation that follows marks the selected batch deposit as done;
* **`run_progress`**: when it does, in every reachable state;
* `sameInstant`: both deadlines at the moment of the selection, the aggregation leaves the deposit.
-/

namespace TalerExchange

open Sql Transition

/-! ## Selection -/

/-- The condition of `TEH_PG_get_ready_deposit`. -/
def BatchDeposit.ready (b : BatchDeposit) (now : Timestamp) (startShard endShard : ℤ) : Bool :=
  !(b.done || b.policyBlocked) ∧ b.wireDeadline ≤ now ∧ startShard ≤ b.shard ∧ b.shard ≤ endShard

/-- `ORDER BY wire_deadline ASC, shard ASC`: `b` may come before `b'`. -/
def BatchDeposit.mayPrecede (b b' : BatchDeposit) : Bool :=
  b.wireDeadline < b'.wireDeadline ∨ b.wireDeadline = b'.wireDeadline ∧ b.shard ≤ b'.shard

/-- `batch_deposits JOIN wire_targets` with the condition of the query. -/
def joinedReady (db : Database) (now : Timestamp) (startShard endShard : ℤ) :
    List (BatchDeposit × WireTarget) :=
  (db.batchDeposits.rows.filter (·.ready now startShard endShard)).filterMap fun b =>
    (db.wireTargets.lookup b.wireTargetHPayto).map fun w => (b, w)

/-- The rows that `TEH_PG_get_ready_deposit` may return: of several that come first, the database
picks one. -/
def readyDeposits (db : Database) (now : Timestamp) (startShard endShard : ℤ) :
    List (BatchDeposit × WireTarget) :=
  (joinedReady db now startShard endShard).filter fun r =>
    (joinedReady db now startShard endShard).all fun r' => r.1.mayPrecede r'.1

/-! ## Processing -/

/-- `GNUNET_TIME_absolute_round_down`, which asserts that the unit is not zero. -/
def absoluteRoundDown (t : Timestamp) (rt : ℕ) : Option Timestamp :=
  if rt = 0 then none else some (t - t % rt)

section Processing

variable (fullPaytoHash : String → HashCode) (computeShard : MerchantPub → ℤ)

/-- The arguments of `TEH_PG_aggregate` for a row that was selected. -/
def aggregateArgs (r : BatchDeposit × WireTarget) (wtid : ℕ) (now : Timestamp) : AggregateArgs :=
  ⟨fullPaytoHash r.2.paytoUri, r.1.merchantPub, wtid, now, computeShard r.1.merchantPub⟩

/-- The aggregation at time `now` marks the selected batch deposit as done. -/
def Processes (db : Database) (r : BatchDeposit × WireTarget) (wtid : ℕ) (now : Timestamp)
    (aggregatorShift : ℕ) : Prop :=
  ∃ rounded db' total, absoluteRoundDown now aggregatorShift = some rounded ∧
    aggregate db (aggregateArgs fullPaytoHash computeShard r wtid rounded) = .ok (db', total) ∧
    db'.isDone r.1.batchDepositSerialId = true

/-- The handlers compute hashes and shards. -/
def Hashed : Op → Prop
  | .deposit a => a.wireTargetHPayto = fullPaytoHash a.receiverWireAccount ∧
      a.shard = computeShard a.merchantPub ∧ a.refundDeadline ≤ a.wireDeadline
  | .reservesIn _ _ xs => ∀ x ∈ xs, x.hFullPayto = fullPaytoHash x.senderAccountDetails
  | _ => True

/-- What the selection and the aggregation rely on. -/
structure HashedRows (db : Database) : Prop where
  target : ∀ w ∈ db.wireTargets.rows, w.wireTargetHPayto = fullPaytoHash w.paytoUri
  batch : ∀ b ∈ db.batchDeposits.rows, b.shard = computeShard b.merchantPub ∧
    b.refundDeadline ≤ b.wireDeadline

end Processing

section Rows

variable {fullPaytoHash : String → HashCode} {computeShard : MerchantPub → ℤ} {db db' : Database}
  {p : Posting}

theorem hashedRows_empty : HashedRows fullPaytoHash computeShard Database.empty :=
  ⟨fun _ h => (nomatch h), fun _ h => (nomatch h)⟩

/-- The condition on postings. -/
def PostingHashed (fullPaytoHash : String → HashCode) (computeShard : MerchantPub → ℤ) :
    Posting → Prop
  | .wireTarget h _ uri => h = fullPaytoHash uri
  | .batch a => a.shard = computeShard a.merchantPub ∧ a.refundDeadline ≤ a.wireDeadline
  | _ => True

theorem postingHashed_of_emits {o : Op} {s : Database} (ho : Hashed fullPaytoHash computeShard o)
    (he : Emits db o s p) : PostingHashed fullPaytoHash computeShard p := by
  cases o with
  | deposit a =>
    rcases he with rfl | rfl | ⟨n, c, -, rfl⟩
    · exact ho.1
    · exact ho.2
    · trivial
  | reservesIn gc e xs =>
    obtain ⟨x, hx, rfl | rfl | rfl | ⟨rfl, -⟩⟩ := he
    · exact ho x hx
    · trivial
    · trivial
    · trivial
  | createPurse a ds =>
    obtain ⟨-, rfl⟩ | ⟨d, -, ⟨rfl, -⟩ | rfl⟩ := he <;> trivial
  | purseDeposit a => obtain ⟨-, rfl⟩ | rfl := he <;> trivial
  | purseMerge a => obtain rfl | rfl := he <;> trivial
  | purseDelete a => obtain rfl | rfl := he <;> trivial
  | ageWithdraw a => obtain ⟨-, rfl | rfl⟩ := he <;> trivial
  | coin c h => obtain ⟨-, d, -, rfl⟩ := he; trivial
  | expirePurse a => obtain ⟨-, r, -, rfl⟩ := he; trivial
  | _ => obtain ⟨-, rfl⟩ := he; trivial

theorem HashedRows.addWireTarget (hi : HashedRows fullPaytoHash computeShard db) {h hn : HashCode}
    {uri : String} (hh : h = fullPaytoHash uri) :
    HashedRows fullPaytoHash computeShard (db.addWireTarget h hn uri) := by
  unfold Database.addWireTarget
  split
  · next t ht =>
    refine ⟨fun w hw => ?_, hi.batch⟩
    rcases (Table.mem_insert? ht).mp hw with hw | rfl
    · exact hi.target w hw
    · exact hh
  · exact hi

theorem Posts.hashedRows (h : Posts db p db') (hp : PostingHashed fullPaytoHash computeShard p)
    (hi : HashedRows fullPaytoHash computeShard db) :
    HashedRows fullPaytoHash computeShard db' := by
  cases h with
  | wireTarget => exact hi.addWireTarget hp
  | initReserve =>
    rw [initReserve_frame]
    exact ⟨hi.target, hi.batch⟩
  | reservePurse _ _ _ _ _ _ _ hpay =>
    rw [payForPurse_frame hpay]
    exact ⟨hi.target, hi.batch⟩
  | batch ht =>
    refine ⟨hi.target, fun b hb => ?_⟩
    rcases (Table.mem_insert? ht).mp hb with hb | rfl
    · exact hi.batch b hb
    · exact hp
  | aggregate =>
    refine ⟨hi.target, fun b hb => ?_⟩
    rw [Table.rows_update] at hb
    obtain ⟨b', hb', rfl⟩ := List.mem_map.mp hb
    have := hi.batch b' hb'
    split_ifs <;> exact this
  | _ => exact ⟨hi.target, hi.batch⟩

theorem run_hashedRows {ops : List Op}
    (h : Admits step (fun _ o => Hashed fullPaytoHash computeShard o) Database.empty ops) :
    HashedRows fullPaytoHash computeShard (run step Database.empty ops) :=
  run_posting_invariant (C := fun _ p => PostingHashed fullPaytoHash computeShard p)
    (fun _ _ ho _ _ he => postingHashed_of_emits ho he) hashedRows_empty
    (fun _ _ _ hC hp hi => hp.hashedRows hC hi) h

end Rows

/-! ## Progress -/

/-- The sums of the aggregation allow its two subtractions. -/
def SumsAllow (db : Database) (a : AggregateArgs) : Prop :=
  aggregateSum db a (fun d => d.amountWithFee.units) < Amount.unitsBound ∧
    0 ≤ aggregateSum db a db.netOf + aggregateSum db a fun d =>
      if waivedElsewhere db a d then db.figure (·.feeDeposit) d.coinPub else 0

section Progress

variable {fullPaytoHash : String → HashCode} {computeShard : MerchantPub → ℤ} {db : Database}
  {r : BatchDeposit × WireTarget} {t : Timestamp} {startShard endShard : ℤ}

/-- A row that is selected. -/
theorem mem_readyDeposits (h : r ∈ readyDeposits db t startShard endShard) :
    r.1 ∈ db.batchDeposits.rows ∧ r.1.ready t startShard endShard = true ∧
      r.2 ∈ db.wireTargets.rows ∧ r.2.wireTargetHPayto = r.1.wireTargetHPayto := by
  obtain ⟨hj, -⟩ := List.mem_filter.mp h
  obtain ⟨b, hb, hmap⟩ := List.mem_filterMap.mp hj
  obtain ⟨w, hw, rfl⟩ := Option.map_eq_some_iff.mp hmap
  obtain ⟨hrow, hready⟩ := List.mem_filter.mp hb
  obtain ⟨hwrow, hkey⟩ := Table.lookup_eq_some.mp hw
  exact ⟨hrow, hready, hwrow, hkey⟩

/-- **The two filters**: a selected row is one of those that are aggregated if its refund deadline
lies before the clock of the aggregation. -/
theorem inAggregate_of_ready (hi : HashedRows fullPaytoHash computeShard db)
    (h : r ∈ readyDeposits db t startShard endShard) (wtid : ℕ) (now : Timestamp) :
    inAggregate db (aggregateArgs fullPaytoHash computeShard r wtid now)
      r.1.batchDepositSerialId = true ↔ r.1.refundDeadline < now := by
  obtain ⟨hrow, hready, hw, hkey⟩ := mem_readyDeposits h
  have hl : db.batchDeposits.lookupSerial r.1.batchDepositSerialId = some r.1 :=
    Table.lookupSerial_eq_some.mpr ⟨hrow, rfl⟩
  simp only [BatchDeposit.ready, decide_eq_true_eq] at hready
  rw [inAggregate_iff, hl]
  simp only [Option.some.injEq, exists_eq_left', AggregateArgs.selects, aggregateArgs,
    decide_eq_true_eq, (hi.batch r.1 hrow).1, ← hi.target r.2 hw, hkey, and_true, hready.1, true_and]

theorem processes_iff (hr : AggregationRows db) (hi : HashedRows fullPaytoHash computeShard db)
    (h : r ∈ readyDeposits db t startShard endShard) (wtid : ℕ) (now : Timestamp) (shift : ℕ) :
    Processes fullPaytoHash computeShard db r wtid now shift ↔ shift ≠ 0 ∧
      r.1.refundDeadline < now - now % shift ∧
        SumsAllow db (aggregateArgs fullPaytoHash computeShard r wtid (now - now % shift)) := by
  have hnot : db.isDone r.1.batchDepositSerialId = false := by
    obtain ⟨hrow, hready, -⟩ := mem_readyDeposits h
    rw [isDone_of_mem hrow]
    simp only [BatchDeposit.ready, decide_eq_true_eq, Bool.not_eq_true', Bool.or_eq_false_iff]
      at hready
    exact hready.1.1
  unfold Processes absoluteRoundDown
  by_cases hs : shift = 0
  · simp [hs]
  · simp only [hs, if_false, Option.some.injEq, exists_and_left, exists_eq_left', ne_eq,
      not_false_eq_true, true_and]
    constructor
    · rintro ⟨db', total, hok, hdone⟩
      rw [isDone_aggregate hok, hnot, Bool.false_or, inAggregate_of_ready hi h] at hdone
      refine ⟨hdone, (aggregateTotal_isSome_iff hr.toKnownRows _).mp ?_⟩
      rw [(aggregate_eq_ok.mp hok).1]
      rfl
    · rintro ⟨hlt, hsums⟩
      obtain ⟨x, hx⟩ := Option.isSome_iff_exists.mp
        ((aggregateTotal_isSome_iff hr.toKnownRows _).mpr hsums)
      obtain ⟨tr, htr⟩ := hr.toTrackedDone.exists_tracked
        (aggregateArgs fullPaytoHash computeShard r wtid (now - now % shift))
      have hok := aggregate_eq_ok.mpr ⟨hx, tr, htr, rfl⟩
      refine ⟨_, x, hok, ?_⟩
      rw [isDone_aggregate hok, hnot, Bool.false_or]
      exact (inAggregate_of_ready hi h wtid _).mpr hlt

end Progress

/-- **Progress**: in every reachable state the aggregation that follows a selection marks the
selected batch deposit as done if and only if its refund deadline lies before the rounded clock and
the sums allow it. -/
theorem run_progress (fullPaytoHash : String → HashCode) (computeShard : MerchantPub → ℤ)
    {ops : List Op}
    (hops : Admits step (fun _ o => Hashed fullPaytoHash computeShard o) Database.empty ops)
    {t : Timestamp} {startShard endShard : ℤ} {r : BatchDeposit × WireTarget}
    (hr : r ∈ readyDeposits (run step Database.empty ops) t startShard endShard)
    (wtid : ℕ) (t' : Timestamp) (aggregatorShift : ℕ) :
    Processes fullPaytoHash computeShard (run step Database.empty ops) r wtid t' aggregatorShift ↔
      aggregatorShift ≠ 0 ∧ r.1.refundDeadline < t' - t' % aggregatorShift ∧
        SumsAllow (run step Database.empty ops)
          (aggregateArgs fullPaytoHash computeShard r wtid (t' - t' % aggregatorShift)) :=
  processes_iff (run_aggregationRows ops) (run_hashedRows hops) hr wtid t' aggregatorShift

/-! ## Sample runs -/

/-- A deposit of five with the given deadlines. -/
def depositUntil (refundDeadline wireDeadline : Timestamp) : List Op :=
  coinOfTen .zero .zero ++
  [.deposit { sampleBatch with
    refundDeadline := refundDeadline, wireDeadline := wireDeadline, coins := [⟨7, 1, .whole 5⟩] }]

/-- The deposit and its account. -/
def depositedUntil (refundDeadline wireDeadline : Timestamp) : BatchDeposit × WireTarget :=
  (({ sampleBatch with refundDeadline := refundDeadline, wireDeadline := wireDeadline } :
    DepositArgs).row 1, ⟨1, 4, 4, ""⟩)

theorem depositUntil_hashed {refundDeadline wireDeadline : Timestamp}
    (h : refundDeadline ≤ wireDeadline) :
    Admits step (fun _ o => Hashed (fun _ => 4) (fun _ => 0) o) Database.empty
      (depositUntil refundDeadline wireDeadline) :=
  ⟨trivial, trivial, ⟨rfl, rfl, h⟩, trivial⟩

/-- A refund deadline of two seconds, a wire deadline of three seconds, and a shift of one second. -/
theorem run_progress_later :
    Processes (fun _ => 4) (fun _ => 0)
      (run step Database.empty (depositUntil 2000000 3000000)) (depositedUntil 2000000 3000000) 1
      3000000 1000000 := by
  have hready : depositedUntil 2000000 3000000 ∈ readyDeposits
      (run step Database.empty (depositUntil 2000000 3000000)) 3000000 0 0 := by decide +kernel
  refine (run_progress (fun _ => 4) (fun _ => 0) (depositUntil_hashed (by decide)) hready 1 3000000
    1000000).mpr ⟨by decide, ?_, ?_⟩
  · decide
  · exact ⟨by decide +kernel, by decide +kernel⟩

/-- Both deadlines at the moment of the selection and of the aggregation. -/
theorem sameInstant :
    ¬ ∀ ops, Admits step (fun _ o => Hashed (fun _ => 4) (fun _ => 0) o) Database.empty ops →
      ∀ t t', t ≤ t' → ∀ r ∈ readyDeposits (run step Database.empty ops) t 0 0,
        Processes (fun _ => 4) (fun _ => 0) (run step Database.empty ops) r 1 t' 1000000 := by
  intro h
  have hops := depositUntil_hashed (le_refl 5000000)
  have hready : depositedUntil 5000000 5000000 ∈
      readyDeposits (run step Database.empty (depositUntil 5000000 5000000)) 5000000 0 0 := by
    decide +kernel
  have hp := h _ hops 5000000 5000000 le_rfl _ hready
  have hlt := ((processes_iff (run_aggregationRows _) (run_hashedRows hops) hready 1 5000000
    1000000).mp hp).2.1
  exact absurd hlt (by decide)

end TalerExchange
