import TalerExchange.Coin.Conservation
import TalerExchange.Deposit.Precheck

/-!
# The value of an aggregate

`TEH_PG_aggregate` sums deposits, refunds and fees by three joins. Here the same total is written
deposit by deposit.

* `netOf`: what the merchant gets for one deposit;
* `waivedElsewhere`: the deposits whose fee the query leaves out although they were not refunded in
  full, because another deposit of the coin was;
* **`aggregateTotal_eq_some`**: the total is the sum of the net values plus these fees.
-/

namespace TalerExchange

open Sql Transition

namespace CoinTables

variable (db : CoinTables)

/-- The refunds recorded for a deposit. Of several deposits of a coin in one batch they count
against the first. -/
def refundedFor (d : CoinDeposit) : ℤ :=
  if db.depositIn d.coinPub d.batchDepositSerialId = some d then
    db.refundedIn d.coinPub d.batchDepositSerialId
  else 0

/-- **The net value of a deposit**: the fee is waived if it was refunded in full. -/
def netOf (d : CoinDeposit) : ℤ :=
  d.amountWithFee.units - db.refundedFor d -
    if db.fullyRefunded d then 0 else db.figure (·.feeDeposit) d.coinPub

end CoinTables

/-- Not refunded in full itself, but in the set of `fully_refunded_coins`. -/
def waivedElsewhere (db : Database) (a : AggregateArgs) (d : CoinDeposit) : Bool :=
  inFullyRefundedCoins db a d.coinPub && !db.fullyRefunded d

/-- The column `f` summed over the deposits that are aggregated. -/
def aggregateSum (db : Database) (a : AggregateArgs) (f : CoinDeposit → ℤ) : ℤ :=
  db.coinDeposits.total (onlyIf (fun d => inAggregate db a d.batchDepositSerialId = true) f)

theorem refundedFor_nonneg (db : CoinTables) (d : CoinDeposit) : 0 ≤ db.refundedFor d := by
  unfold CoinTables.refundedFor
  split_ifs
  · exact Table.total_nonneg fun r _ => onlyIf_nonneg r.amountWithFee.units_nonneg
  · exact le_rfl

/-! ## Sums of amounts -/

theorem val_sumParts_nonneg (as : List Amount) : 0 ≤ (sumParts as).val := by
  induction as with
  | nil => exact le_rfl
  | cons a as ih => exact add_nonneg (Int.natCast_nonneg a.value) ih

/-- **An assembled sum is exact and fails only above the largest amount.** -/
theorem assembleSum_eq_some {as : List Amount} {x : Amount} :
    assembleSum (sumParts as) = some x ↔ x.units = (as.map Amount.units).sum := by
  rw [← units_sumParts]
  have hv := val_sumParts_nonneg as
  have hf := frac_sumParts_nonneg as
  generalize sumParts as = s at hv hf
  have hx := x.units_lt
  unfold assembleSum
  simp only
  split_ifs with h
  · rw [Option.some.injEq]
    constructor
    · rintro rfl
      simp only [Amount.units_eq, TalerAmount.units]
      omega
    · intro e
      refine Amount.ext_units ?_
      rw [e]
      simp only [Amount.units_eq, TalerAmount.units]
      omega
  · refine ⟨False.elim, fun e => absurd e ?_⟩
    unfold Amount.unitsBound at hx
    unfold TalerAmount.units
    omega

/-! ## The three sums -/

section Sums

variable {db : Database} {a : AggregateArgs}

theorem aggregateSum_eq (f : CoinDeposit → ℤ) :
    ((aggregatedDeposits db a).map f).sum = aggregateSum db a f := by
  unfold aggregateSum aggregatedDeposits
  rw [← Table.sum_filter]
  simp only [Bool.decide_eq_true]

theorem mem_aggregatedDeposits {d : CoinDeposit} : d ∈ aggregatedDeposits db a ↔
    d ∈ db.coinDeposits.rows ∧ inAggregate db a d.batchDepositSerialId = true := by
  simp [aggregatedDeposits]

/-- A refund in an aggregated batch is of a coin deposited there. -/
theorem aggregatedRefunds_eq (hr : KnownRows db.toCoinTables) :
    aggregatedRefunds db a =
      db.refunds.rows.filter fun r => inAggregate db a r.batchDepositSerialId := by
  refine List.filter_congr fun r hrow => ?_
  by_cases hb : inAggregate db a r.batchDepositSerialId = true
  · obtain ⟨-, d, hd⟩ := hr.refund r hrow
    obtain ⟨hmem, hc, hbd⟩ := mem_of_depositIn hd
    simp only [hb, and_true, decide_eq_true_eq, List.any_eq_true]
    exact ⟨d, mem_aggregatedDeposits.mpr ⟨hmem, hbd ▸ hb⟩, hc⟩
  · simp [hb]

/-- The refunds that the query sums, deposit by deposit. -/
theorem sum_aggregatedRefunds (hr : KnownRows db.toCoinTables) :
    ((aggregatedRefunds db a).map fun r => r.amountWithFee.units).sum =
      aggregateSum db a db.refundedFor := by
  rw [aggregatedRefunds_eq hr]
  have h := Table.sum_filter db.refunds (fun r => inAggregate db a r.batchDepositSerialId = true)
    fun r => r.amountWithFee.units
  simp only [Bool.decide_eq_true] at h
  rw [h]
  refine Table.total_eq_of_fibers (fun r => (r.coinPub, r.batchDepositSerialId))
    (fun d => (d.coinPub, d.batchDepositSerialId)) ?_
  rintro ⟨c, b⟩
  have hl : db.refunds.total (onlyIf (fun r => (r.coinPub, r.batchDepositSerialId) = (c, b))
      (onlyIf (fun r => inAggregate db a r.batchDepositSerialId = true)
        fun r => r.amountWithFee.units)) = if inAggregate db a b then db.refundedIn c b else 0 := by
    by_cases hb : inAggregate db a b = true
    · rw [if_pos hb]
      refine Table.total_congr fun r _ => ?_
      by_cases h₁ : r.coinPub = c <;> by_cases h₂ : r.batchDepositSerialId = b <;>
        simp [onlyIf, h₁, h₂, hb]
    · rw [if_neg hb]
      refine Table.total_eq_zero fun r _ => ?_
      by_cases h₂ : r.batchDepositSerialId = b <;> simp [onlyIf, h₂, hb]
  rw [hl]
  cases hd : db.depositIn c b with
  | none =>
    rw [refundedIn_of_none hr hd, ite_self]
    refine (Table.total_eq_zero fun d hrow => ?_).symm
    refine onlyIf_neg fun e => ?_
    obtain ⟨rfl, rfl⟩ := Prod.mk.inj e
    obtain ⟨d', hd'⟩ := exists_depositIn hrow
    rw [hd] at hd'
    cases hd'
  | some d₀ =>
    obtain ⟨hrow, rfl, rfl⟩ := mem_of_depositIn hd
    -- only the first deposit of the coin in the batch carries refunds
    rw [Table.total_eq_add_of_ne (f := fun _ => 0) hrow fun d _ hne => ?_]
    · simp [Table.total, onlyIf, CoinTables.refundedFor, hd]
    · refine ite_eq_right_iff.mpr fun e => ?_
      obtain ⟨hc, hb⟩ := Prod.mk.inj e
      refine ite_eq_right_iff.mpr fun _ => if_neg fun hself => hne ?_
      rw [hc, hb, hd] at hself
      exact (Option.some.inj hself).symm

theorem refundByCoin_eq (hr : KnownRows db.toCoinTables) {c : CoinPub} {b : ℕ}
    (hb : inAggregate db a b = true) : refundByCoin db a c b =
      db.refunds.rows.filter fun r => r.coinPub = c ∧ r.batchDepositSerialId = b := by
  unfold refundByCoin
  rw [aggregatedRefunds_eq hr, List.filter_filter]
  refine List.filter_congr fun r _ => ?_
  by_cases h : r.batchDepositSerialId = b <;> simp [h, hb]

/-- **The coins that the query takes as refunded in full.** -/
theorem inFullyRefundedCoins_iff (hr : KnownRows db.toCoinTables) {c : CoinPub} :
    inFullyRefundedCoins db a c = true ↔ ∃ d ∈ aggregatedDeposits db a, d.coinPub = c ∧
      0 < db.refundsIn c d.batchDepositSerialId ∧
      db.refundedIn c d.batchDepositSerialId = d.amountWithFee.units := by
  unfold inFullyRefundedCoins
  simp only [List.any_eq_true, decide_eq_true_eq]
  refine exists_congr fun d => and_congr_right fun hd => and_congr_right fun _ => ?_
  rw [refundByCoin_eq hr (mem_aggregatedDeposits.mp hd).2]
  refine and_congr ?_ ?_
  · constructor
    · intro hne
      obtain ⟨r, hmem⟩ := List.exists_mem_of_ne_nil _ hne
      obtain ⟨hrow, hp⟩ := List.mem_filter.mp hmem
      simp only [decide_eq_true_eq] at hp
      have hle := Table.single_le_total
        (f := onlyIf (fun r => r.coinPub = c ∧ r.batchDepositSerialId = d.batchDepositSerialId)
          fun _ => 1) hrow fun r' _ _ => onlyIf_nonneg zero_le_one
      rw [onlyIf_pos (by exact hp)] at hle
      unfold CoinTables.refundsIn
      omega
    · intro hpos
      obtain ⟨r, hrow, hc, hb⟩ := exists_refund hpos
      exact List.ne_nil_of_mem (List.mem_filter.mpr ⟨hrow, decide_eq_true ⟨hc, hb⟩⟩)
  · have hu : (sumParts ((db.refunds.rows.filter fun r => r.coinPub = c ∧
        r.batchDepositSerialId = d.batchDepositSerialId).map (·.amountWithFee))).normalize.units =
        db.refundedIn c d.batchDepositSerialId := units_refundSums ..
    rw [← hu]
    refine ⟨fun e => congrArg TalerAmount.units e, fun e => ?_⟩
    exact TalerAmount.eq_of_units (normal_refundSums ..) d.amountWithFee.normal_toTaler e

/-- A deposit that was refunded in full has its coin in the set. -/
theorem inFullyRefundedCoins_of_fullyRefunded (hr : KnownRows db.toCoinTables) {d : CoinDeposit}
    (hd : d ∈ aggregatedDeposits db a) (h : db.fullyRefunded d = true) :
    inFullyRefundedCoins db a d.coinPub = true := by
  simp only [CoinTables.fullyRefunded, decide_eq_true_eq] at h
  exact (inFullyRefundedCoins_iff hr).mpr ⟨d, hd, rfl, h.2⟩

/-- The fees that the query sums. -/
theorem sum_aggregatedFees : ((aggregatedFees db a).map Amount.units).sum =
    aggregateSum db a fun d =>
      if inFullyRefundedCoins db a d.coinPub then 0 else db.figure (·.feeDeposit) d.coinPub := by
  rw [← aggregateSum_eq]
  unfold aggregatedFees
  induction aggregatedDeposits db a with
  | nil => rfl
  | cons d ds ih =>
    rw [List.map_cons, List.sum_cons, ← ih]
    by_cases h : inFullyRefundedCoins db a d.coinPub = true
    · simp [h]
    · cases hden : db.denominationOf d.coinPub <;> simp [h, hden, CoinTables.figure]

/-- **The total deposit by deposit.** -/
theorem aggregateTotal_eq_some (hr : KnownRows db.toCoinTables) {x : Amount} :
    aggregateTotal db a = some x ↔
      aggregateSum db a (fun d => d.amountWithFee.units) < Amount.unitsBound ∧
      x.units = aggregateSum db a db.netOf + aggregateSum db a fun d =>
        if waivedElsewhere db a d then db.figure (·.feeDeposit) d.coinPub else 0 := by
  have hdep := @aggregateSum_eq db a fun d => d.amountWithFee.units
  have href := sum_aggregatedRefunds (a := a) hr
  have hfee := @sum_aggregatedFees db a
  have hfee0 : 0 ≤ aggregateSum db a fun d =>
      if inFullyRefundedCoins db a d.coinPub then 0 else db.figure (·.feeDeposit) d.coinPub := by
    refine Table.total_nonneg fun d _ => onlyIf_nonneg ?_
    split_ifs
    · exact le_rfl
    · exact figure_nonneg ..
  have href0 : 0 ≤ aggregateSum db a db.refundedFor := by
    rw [← href]
    refine List.sum_nonneg fun n hn => ?_
    obtain ⟨r, -, rfl⟩ := List.mem_map.mp hn
    exact r.amountWithFee.units_nonneg
  -- the net values and the fees left out make up the three sums
  have hsplit : aggregateSum db a db.netOf + (aggregateSum db a fun d =>
        if waivedElsewhere db a d then db.figure (·.feeDeposit) d.coinPub else 0) =
      aggregateSum db a (fun d => d.amountWithFee.units) - aggregateSum db a db.refundedFor -
        aggregateSum db a fun d =>
          if inFullyRefundedCoins db a d.coinPub then 0 else db.figure (·.feeDeposit) d.coinPub := by
    unfold aggregateSum
    rw [← Table.total_add, ← Table.total_sub, ← Table.total_sub]
    refine Table.total_congr fun d hrow => ?_
    by_cases hin : inAggregate db a d.batchDepositSerialId = true
    · have hfull := inFullyRefundedCoins_of_fullyRefunded hr
        (mem_aggregatedDeposits.mpr ⟨hrow, hin⟩)
      simp only [onlyIf, hin, if_true, CoinTables.netOf, waivedElsewhere]
      by_cases h₁ : db.fullyRefunded d = true
      · simp [h₁, hfull h₁]
      · by_cases h₂ : inFullyRefundedCoins db a d.coinPub = true <;> simp [h₁, h₂]
    · simp [onlyIf, hin]
  rw [hsplit]
  unfold aggregateTotal
  simp only [Option.bind_eq_bind, Option.bind_eq_some_iff, assembleSum_eq_some,
    Amount.subtract?_eq_some, List.map_map, Function.comp_def, hdep, href, hfee]
  constructor
  · rintro ⟨s, hs, r, hr, f, hf, d, hd, hx⟩
    have := s.units_lt
    omega
  · rintro ⟨hlt, hx⟩
    have hx0 := x.units_nonneg
    obtain ⟨s, hs⟩ := Amount.exists_units (n := aggregateSum db a fun d => d.amountWithFee.units)
      (by omega) hlt
    obtain ⟨r, hr⟩ := Amount.exists_units href0 (by omega)
    obtain ⟨f, hf⟩ := Amount.exists_units hfee0 (by omega)
    obtain ⟨d, hd⟩ := Amount.exists_units (n := s.units - r.units) (by omega) (by omega)
    exact ⟨s, hs, r, hr, f, hf, d, hd, by omega⟩

end Sums

/-! ## Batches that are done -/

/-- The batch has been aggregated. -/
def CoinTables.isDone (db : CoinTables) (n : ℕ) : Bool :=
  (db.batchDeposits.lookupSerial n).any (·.done)

/-- The batches that are done are the ones that are tracked. -/
structure TrackedDone (db : Database) : Prop where
  done : ∀ t ∈ db.aggregationTracking.rows, db.isDone t.batchDepositSerialId = true
  tracked : ∀ n, db.isDone n = true → db.aggregationTracking.hasKey n = true

section Done

variable {db db' : Database} {a : AggregateArgs}

theorem isDone_of_mem {db : CoinTables} {b : BatchDeposit} (hb : b ∈ db.batchDeposits.rows) :
    db.isDone b.batchDepositSerialId = b.done := by
  have hl : db.batchDeposits.lookupSerial b.batchDepositSerialId = some b :=
    Table.lookupSerial_eq_some.mpr ⟨hb, rfl⟩
  rw [CoinTables.isDone, hl, Option.any_some]

theorem isDone_insert_batch {t : Table BatchDeposit} {b : DepositArgs}
    (ht : db.batchDeposits.insert? b.row = some t) (n : ℕ) :
    { db with batchDeposits := t }.isDone n = db.isDone n := by
  unfold CoinTables.isDone
  cases h : db.batchDeposits.lookupSerial n with
  | some q => rw [show t.lookupSerial n = some q from Table.lookupSerial_insert?_of_some ht h]
  | none =>
    change (t.lookupSerial n).any _ = _
    cases h' : t.lookupSerial n with
    | none => rfl
    | some q =>
      obtain ⟨hm, hs⟩ := Table.lookupSerial_eq_some.mp h'
      rcases (Table.mem_insert? ht).mp hm with hm | rfl
      · rw [Table.lookupSerial_eq_some.mpr ⟨hm, hs⟩] at h
        cases h
      · rfl

/-- The batches that the query marks. -/
theorem inAggregate_iff {n : ℕ} : inAggregate db a n = true ↔
    ∃ b, db.batchDeposits.lookupSerial n = some b ∧ a.selects b = true := by
  simp only [inAggregate, aggregatedBatches, List.any_eq_true, List.mem_filter, decide_eq_true_eq,
    Table.lookupSerial_eq_some]
  exact ⟨fun ⟨b, ⟨hm, hsel⟩, hn⟩ => ⟨b, ⟨hm, hn⟩, hsel⟩, fun ⟨b, ⟨hm, hn⟩, hsel⟩ => ⟨b, ⟨hm, hsel⟩, hn⟩⟩

theorem isDone_of_inAggregate {n : ℕ} (h : inAggregate db a n = true) : db.isDone n = false := by
  obtain ⟨b, hb, hsel⟩ := inAggregate_iff.mp h
  simp only [AggregateArgs.selects, decide_eq_true_eq, Bool.not_eq_true', Bool.or_eq_false_iff]
    at hsel
  simp [CoinTables.isDone, hb, hsel.1.1]

/-- What is done after the query. -/
theorem isDone_marked (n : ℕ) :
    { db with batchDeposits :=
        db.batchDeposits.update a.selects fun b => { b with done := true } }.isDone n =
      (db.isDone n || inAggregate db a n) := by
  unfold CoinTables.isDone
  simp only [Table.lookupSerial_update]
  rw [Bool.eq_iff_iff, Bool.or_eq_true, inAggregate_iff]
  cases h : db.batchDeposits.lookupSerial n with
  | none => simp
  | some b =>
    by_cases hsel : a.selects b = true <;> simp [hsel]

/-- **When batches can be tracked**, and what is tracked then. -/
theorem trackBatches_eq_ok {t t' : Table AggregationTracking} {w : ℕ} {bs : List BatchDeposit}
    (h : trackBatches t w bs = .ok t') : ∀ n,
      ((t'.lookup n).map (·.wtidRaw) = if bs.any (·.batchDepositSerialId = n) then some w
        else (t.lookup n).map (·.wtidRaw)) ∧
      (bs.any (·.batchDepositSerialId = n) = true → t.hasKey n = false) := by
  induction bs generalizing t with
  | nil =>
    cases h
    exact fun n => ⟨by simp, fun h => (nomatch h)⟩
  | cons b bs ih =>
    simp only [trackBatches, bind_eq_ok, orUnique_eq_ok] at h
    obtain ⟨t₁, ht, h⟩ := h
    intro n
    obtain ⟨hl, hk⟩ := ih h n
    rw [Table.hasKey_insert? ht] at hk
    rw [hl, Table.lookup_insert? ht]
    change (_ → (t.hasKey n || decide (b.batchDepositSerialId = n)) = false) at hk
    by_cases hn : b.batchDepositSerialId = n
    · have hno : bs.any (·.batchDepositSerialId = n) = false := by
        rw [← Bool.not_eq_true]
        intro hany
        have := hk hany
        simp [hn] at this
      refine ⟨by simp [hn, hno, Record.key], fun _ => ?_⟩
      have := (Table.insert?_eq_some.mp ht).1
      exact hn ▸ this
    · refine ⟨by simp [hn, Record.key], fun hany => ?_⟩
      simp only [List.any_cons, hn, decide_false, Bool.false_or] at hany
      have := hk hany
      simp only [hn, decide_false, Bool.or_false] at this
      exact this

theorem exists_trackBatches {t : Table AggregationTracking} {w : ℕ} {bs : List BatchDeposit}
    (hk : ∀ b ∈ bs, t.hasKey b.batchDepositSerialId = false)
    (hn : (bs.map (·.batchDepositSerialId)).Nodup) : ∃ t', trackBatches t w bs = .ok t' := by
  induction bs generalizing t with
  | nil => exact ⟨t, rfl⟩
  | cons b bs ih =>
    rw [List.map_cons, List.nodup_cons] at hn
    obtain ⟨t₁, ht⟩ : ∃ t₁, t.insert? (fun i => (⟨i, b.batchDepositSerialId, w⟩ :
        AggregationTracking)) = some t₁ := by
      rw [← Option.ne_none_iff_exists', Ne, Table.insert?_eq_none, Bool.not_eq_true]
      exact hk b (by simp)
    have hk' : ∀ b' ∈ bs, t₁.hasKey b'.batchDepositSerialId = false := by
      intro b' hb'
      rw [Table.hasKey_insert?_ne ht]
      · exact hk b' (by simp [hb'])
      · exact fun e => hn.1 (List.mem_map.mpr ⟨b', hb', e⟩)
    obtain ⟨t', ht'⟩ := ih hk' hn.2
    refine ⟨t', ?_⟩
    simp only [trackBatches, bind_eq_ok, orUnique_eq_ok]
    exact ⟨t₁, ht, ht'⟩

end Done

end TalerExchange
