import TalerExchange.Aggregation.Value

/-!
# Aggregates over a run

* `AggregationRows`: a batch is tracked when it is done, in every state that a run reaches;
* `Quiet`: what every operation but an aggregation leaves of the batches that are done, unless it
  deposits into one of them;
* `AggregatesExactly`, `AggregateFair`: an aggregate of the right value, and when it is;
* `NotLate`: no deposit into a batch that is done;
* **`run_aggregates`**: in every reachable state the value is right exactly if the aggregate is fair,
  and without late deposits each deposit is in one aggregate;
* `refundedElsewhere`: a run that leads to an aggregate of the wrong value.
-/

namespace TalerExchange

open Sql Transition

/-! ## Tracking -/

/-- The references that the aggregation relies on resolve, and a batch is tracked when it is done. -/
structure AggregationRows (db : Database) : Prop extends KnownRows db.toCoinTables,
    TrackedDone db where
  deposited : ∀ d ∈ db.coinDeposits.rows, db.knownCoins.hasKey d.coinPub = true

section Tracking

variable {db db' : Database} {p : Posting} {a : AggregateArgs}

theorem aggregationRows_empty : AggregationRows Database.empty where
  toKnownRows := knownRows_empty
  toTrackedDone := ⟨fun _ h => (nomatch h), fun _ h => (nomatch h)⟩
  deposited := fun _ h => (nomatch h)

theorem TrackedDone.congr (hi : TrackedDone db) (hb : ∀ n, db'.isDone n = db.isDone n)
    (ht : db'.aggregationTracking = db.aggregationTracking) : TrackedDone db' := by
  refine ⟨fun t h => ?_, fun n h => ?_⟩
  · rw [hb]
    exact hi.done t (ht ▸ h)
  · rw [ht]
    exact hi.tracked n (hb n ▸ h)

/-- What is tracked after an aggregation. -/
theorem lookup_tracked {t : Table AggregationTracking}
    (ht : trackBatches db.aggregationTracking a.wtid (aggregatedBatches db a) = .ok t) (n : ℕ) :
    (t.lookup n).map (·.wtidRaw) = if inAggregate db a n then some a.wtid
      else (db.aggregationTracking.lookup n).map (·.wtidRaw) :=
  (trackBatches_eq_ok ht n).1

theorem hasKey_iff_wtid {t : Table AggregationTracking} {n : ℕ} :
    t.hasKey n = true ↔ ((t.lookup n).map (·.wtidRaw)).isSome = true := by
  rw [Option.isSome_map, ← Bool.not_eq_false, ← Table.lookup_eq_none_iff_hasKey]
  cases t.lookup n <;> simp

theorem TrackedDone.aggregate (hi : TrackedDone db) {t : Table AggregationTracking}
    (ht : trackBatches db.aggregationTracking a.wtid (aggregatedBatches db a) = .ok t) :
    TrackedDone { db with
      batchDeposits := db.batchDeposits.update a.selects fun b => { b with done := true }
      aggregationTracking := t } := by
  have hkey : ∀ n, t.hasKey n = true ↔
      inAggregate db a n = true ∨ db.aggregationTracking.hasKey n = true := by
    intro n
    rw [hasKey_iff_wtid, lookup_tracked ht, hasKey_iff_wtid]
    by_cases h : inAggregate db a n = true <;> simp [h]
  refine ⟨fun r hr => ?_, fun n hn => ?_⟩
  · rw [isDone_marked, Bool.or_eq_true]
    have := (hkey r.batchDepositSerialId).mp (Table.hasKey_iff.mpr ⟨r, hr, rfl⟩)
    refine this.symm.imp_left fun h => ?_
    obtain ⟨r', hr', e⟩ := Table.hasKey_iff.mp h
    exact e ▸ hi.done r' hr'
  · rw [isDone_marked, Bool.or_eq_true] at hn
    exact (hkey n).mpr (hn.symm.imp_right (hi.tracked n))

theorem Posts.trackedDone (h : Posts db p db') (hi : TrackedDone db) : TrackedDone db' := by
  cases h with
  | wireTarget =>
    rw [addWireTarget_frame]
    exact hi.congr (fun _ => rfl) rfl
  | initReserve =>
    rw [initReserve_frame]
    exact hi.congr (fun _ => rfl) rfl
  | reservePurse _ _ _ _ _ _ _ hpay =>
    rw [payForPurse_frame hpay]
    exact hi.congr (fun _ => rfl) rfl
  | batch ht => exact hi.congr (isDone_insert_batch ht) rfl
  | aggregate ht => exact hi.aggregate ht
  | _ => exact hi.congr (fun _ => rfl) rfl

/-- The coins of deposits are known. -/
theorem Posts.deposited (h : Posts db p db')
    (hi : ∀ d ∈ db.coinDeposits.rows, db.knownCoins.hasKey d.coinPub = true) :
    ∀ d ∈ db'.coinDeposits.rows, db'.knownCoins.hasKey d.coinPub = true := by
  have hg := h.grows.known
  suffices hrow : ∀ d ∈ db'.coinDeposits.rows, db.knownCoins.hasKey d.coinPub = true from
    fun d hd => hg _ (hrow d hd)
  cases h with
  | wireTarget =>
    rw [addWireTarget_frame]
    exact hi
  | initReserve =>
    rw [initReserve_frame]
    exact hi
  | reservePurse _ _ _ _ _ _ _ hpay =>
    rw [payForPurse_frame hpay]
    exact hi
  | coinDeposit ht _ _ hkc =>
    intro d hd
    rcases (Table.mem_insert? ht).mp hd with hd | rfl
    · exact hi d hd
    · exact Table.hasKey_of_lookup hkc
  | _ => exact hi

theorem Posts.aggregationRows (h : Posts db p db') (hi : AggregationRows db) :
    AggregationRows db' :=
  ⟨h.knownRows hi.toKnownRows, h.trackedDone hi.toTrackedDone, h.deposited hi.deposited⟩

/-- **In every run.** -/
theorem run_aggregationRows (ops : List Op) : AggregationRows (run step Database.empty ops) :=
  run_posting_invariant (C := fun _ _ => True) (fun _ _ _ _ _ _ => trivial) aggregationRows_empty
    (fun _ _ _ _ hp hi => hp.aggregationRows hi) (admits_true ops)

end Tracking

/-! ## What stays of the batches that are done -/

/-- No batch becomes done, none that is done gets deposits or refunds, and the tracking stays. -/
structure Quiet (db db' : Database) : Prop where
  done : ∀ n, db'.isDone n = db.isDone n
  deposits : ∃ new, db'.coinDeposits.rows = db.coinDeposits.rows ++ new ∧
    ∀ d ∈ new, db.isDone d.batchDepositSerialId = false
  net : ∀ d ∈ db.coinDeposits.rows, db.isDone d.batchDepositSerialId = true →
    db'.netOf d = db.netOf d
  tracking : db'.aggregationTracking = db.aggregationTracking

section Quiet

variable {db db' db'' : Database} {p : Posting}

theorem Quiet.refl (db : Database) : Quiet db db :=
  ⟨fun _ => rfl, ⟨[], by simp, fun _ h => (nomatch h)⟩, fun _ _ _ => rfl, rfl⟩

theorem Quiet.mem (h : Quiet db db') {d : CoinDeposit} (hd : d ∈ db.coinDeposits.rows) :
    d ∈ db'.coinDeposits.rows := by
  obtain ⟨new, e, -⟩ := h.deposits
  rw [e]
  exact List.mem_append_left _ hd

theorem Quiet.trans (h : Quiet db db') (h' : Quiet db' db'') : Quiet db db'' where
  done n := (h'.done n).trans (h.done n)
  deposits := by
    obtain ⟨new, e, hn⟩ := h.deposits
    obtain ⟨new', e', hn'⟩ := h'.deposits
    refine ⟨new ++ new', by rw [e', e, List.append_assoc], fun d hd => ?_⟩
    rcases List.mem_append.mp hd with hd | hd
    · exact hn d hd
    · exact (h.done _).symm.trans (hn' d hd)
  net d hd hdone := by
    rw [h'.net d (h.mem hd) ((h.done _).trans hdone), h.net d hd hdone]
  tracking := h'.tracking.trans h.tracking

/-- The net value of a deposit depends on the refunds recorded for it. -/
theorem netOf_of_grows (hr : KnownRows db.toCoinTables)
    (hg : Grows db.toCoinTables db'.toCoinTables) {d : CoinDeposit}
    (hd : d ∈ db.coinDeposits.rows) (hk : db.knownCoins.hasKey d.coinPub = true)
    (h : db'.refundedIn d.coinPub d.batchDepositSerialId =
        db.refundedIn d.coinPub d.batchDepositSerialId ∧
      db'.refundsIn d.coinPub d.batchDepositSerialId =
        db.refundsIn d.coinPub d.batchDepositSerialId) : db'.netOf d = db.netOf d := by
  obtain ⟨d', hd'⟩ := exists_depositIn hd
  unfold CoinTables.netOf CoinTables.refundedFor
  rw [fullyRefunded_of_grows hg hd h.2 h.1, figure_of_known hr hg hk, hd', hg.depositIn hd', h.1]

/-- Refunds go to batches that are not done. -/
theorem Posts.refunds_done (h : Posts db p db') {n : ℕ} (hn : db.isDone n = true) (c : CoinPub) :
    db'.refundedIn c n = db.refundedIn c n ∧ db'.refundsIn c n = db.refundsIn c n := by
  cases h with
  | wireTarget =>
    rw [addWireTarget_frame]
    exact ⟨rfl, rfl⟩
  | initReserve =>
    rw [initReserve_frame]
    exact ⟨rfl, rfl⟩
  | reservePurse _ _ _ _ _ _ _ hpay =>
    rw [payForPurse_frame hpay]
    exact ⟨rfl, rfl⟩
  | @refund a b _ _ _ _ hb hnd _ _ ht =>
    have hne : b.batchDepositSerialId ≠ n := by
      rintro rfl
      rw [isDone_of_mem (Table.mem_of_lookup hb), hnd] at hn
      cases hn
    have := @refundsIn_insert? _ { db.toCoinTables with refunds := _ } _ _ ht c n
    simp only [hne, and_false, if_false, add_zero] at this
    exact this
  | _ => exact ⟨rfl, rfl⟩

/-- **Postings are quiet**, aggregates and deposits into batches that are done apart. -/
theorem Posts.quiet (h : Posts db p db') (hi : AggregationRows db) (ha : ∀ a, p ≠ .aggregate a)
    (hp : ∀ n c, p = .coinDeposit n c → db.isDone n = false) : Quiet db db' := by
  have hnet : ∀ d ∈ db.coinDeposits.rows, db.isDone d.batchDepositSerialId = true →
      db'.netOf d = db.netOf d := fun d hd hdone =>
    netOf_of_grows hi.toKnownRows h.grows hd (hi.deposited d hd) (h.refunds_done hdone _)
  have hsame : ∀ {db' : Database}, db'.coinDeposits = db.coinDeposits →
      ∃ new, db'.coinDeposits.rows = db.coinDeposits.rows ++ new ∧
        ∀ d ∈ new, db.isDone d.batchDepositSerialId = false := fun e =>
    ⟨[], by rw [e, List.append_nil], fun _ h => (nomatch h)⟩
  cases h with
  | wireTarget =>
    rw [addWireTarget_frame] at hnet ⊢
    exact ⟨fun _ => rfl, hsame rfl, hnet, rfl⟩
  | initReserve =>
    rw [initReserve_frame] at hnet ⊢
    exact ⟨fun _ => rfl, hsame rfl, hnet, rfl⟩
  | reservePurse _ _ _ _ _ _ _ hpay =>
    rw [payForPurse_frame hpay] at hnet ⊢
    exact ⟨fun _ => rfl, hsame rfl, hnet, rfl⟩
  | batch ht => exact ⟨isDone_insert_batch ht, hsame rfl, hnet, rfl⟩
  | coinDeposit ht =>
    refine ⟨fun _ => rfl, ⟨_, Table.rows_insert? ht, fun d hd => ?_⟩, hnet, rfl⟩
    rw [List.mem_singleton.mp hd]
    exact hp _ _ rfl
  | aggregate => exact absurd rfl (ha _)
  | _ => exact ⟨fun _ => rfl, hsame rfl, hnet, rfl⟩

/-- A path of such postings is quiet. -/
theorem quiet_of_path {C : Database → Posting → Prop} (h : Path Posts C db db')
    (hi : AggregationRows db) (hC : ∀ s p, C s p → (∀ a, p ≠ .aggregate a) ∧
      ∀ n c, p = .coinDeposit n c → s.isDone n = false) : Quiet db db' :=
  (h.invariant (I := fun s => AggregationRows s ∧ Quiet db s)
    (fun s p _ hc hp hs => ⟨hp.aggregationRows hs.1,
      hs.2.trans (hp.quiet hs.1 (hC s p hc).1 (hC s p hc).2)⟩) ⟨hi, .refl db⟩).2

end Quiet

/-! ## Late deposits -/

/-- A batch deposit adds no coin to a batch that is done. -/
def NotLate (db : Database) : Op → Prop
  | .deposit a => ∀ b,
      db.batchDeposits.lookup (a.shard, a.merchantPub, a.hContractTerms) = some b →
        a.matches b = true → b.done = true → ∀ c ∈ a.coins, db.coinDeposits.hasKey c.key = true
  | _ => True

section Late

variable {db db' : Database} {o : Op}

/-- A batch that is opened anew is not done, one that is found is as it was. -/
theorem openBatch_done {a : DepositArgs} {db₁ : Database} {n : ℕ} {ts : Option Timestamp}
    (ho : openBatch db a = some (db₁, n, ts)) (hi : AggregationRows db) :
    AggregationRows db₁ ∧ Quiet db db₁ ∧ (db₁.isDone n = true → db₁ = db.addWireTarget a.wireTargetHPayto
      a.hNormalizedPayto a.receiverWireAccount ∧ ∃ b,
        db.batchDeposits.lookup (a.shard, a.merchantPub, a.hContractTerms) = some b ∧
          a.matches b = true ∧ b.done = true) := by
  have hw : Posts db (.wireTarget a.wireTargetHPayto a.hNormalizedPayto a.receiverWireAccount) _ :=
    Posts.wireTarget ..
  have hq := hw.quiet hi (fun _ h => by cases h) fun _ _ h => by cases h
  have hi₀ := hw.aggregationRows hi
  have hb₀ : (db.addWireTarget a.wireTargetHPayto a.hNormalizedPayto
      a.receiverWireAccount).batchDeposits = db.batchDeposits := by
    rw [addWireTarget_frame]
  unfold openBatch at ho
  simp only at ho
  generalize db.addWireTarget _ _ _ = db₀ at ho hq hi₀ hb₀
  split at ho
  · next t ht =>
    cases ho
    refine ⟨(Posts.batch ht).aggregationRows hi₀, hq.trans ((Posts.batch ht).quiet hi₀
      (fun _ h => by cases h) fun _ _ h => by cases h), fun hdone => ?_⟩
    rw [CoinTables.isDone, show t.lookupSerial _ = _ from Table.lookupSerial_insert?_self ht] at hdone
    cases hdone
  · split at ho
    · next b hb =>
      split_ifs at ho with hm
      cases ho
      refine ⟨hi₀, hq, fun hdone => ⟨rfl, b, hb₀ ▸ hb, hm, ?_⟩⟩
      rwa [isDone_of_mem (Table.mem_of_lookup hb)] at hdone
    · cases ho

/-- **Operations are quiet**, aggregates and late deposits apart. -/
theorem step_quiet (hm : MergesHavePurse db) (hi : AggregationRows db) (hl : NotLate db o)
    (ho : ∀ a, o ≠ .aggregate a) : Quiet db (step db o) := by
  by_cases hdep : ∃ a, o = .deposit a
  · obtain ⟨a, rfl⟩ := hdep
    rcases step_eq db (.deposit a) with e | e
    · rw [e]
      exact .refl db
    generalize step db (.deposit a) = db' at e
    obtain ⟨-, db₁, n, ts, hopen, hd⟩ := transact_deposit.mp e
    obtain ⟨hi₁, hq, hdone⟩ := openBatch_done hopen hi
    by_cases hn : db₁.isDone n = true
    · obtain ⟨rfl, b, hb, hmatch, hbd⟩ := hdone hn
      have hk := hl b hb hmatch hbd
      rw [depositCoins_known fun c hc => by rw [addWireTarget_frame]; exact hk c hc] at hd
      cases hd
      exact hq
    · obtain ⟨-, b, hb, hbn, -⟩ := openBatch_spec hopen
      have hpath := depositCoins_path (C := fun _ p => ∃ c, p = .coinDeposit n c)
        (fun _ c _ => ⟨c, rfl⟩) ⟨b, Table.mem_of_lookup hb, hbn⟩ hd
      refine hq.trans ?_
      refine (hpath.invariant (I := fun s => AggregationRows s ∧ Quiet db₁ s) ?_
        ⟨hi₁, .refl db₁⟩).2
      rintro s _ t ⟨c, rfl⟩ hpost ⟨hs, hsq⟩
      refine ⟨hpost.aggregationRows hs, hsq.trans (hpost.quiet hs (fun _ h => (nomatch h)) ?_)⟩
      rintro _ _ h
      cases h
      rw [hsq.done]
      simpa using hn
  · refine quiet_of_path (step_path (C := fun _ p => (∀ a, p ≠ .aggregate a) ∧ p.isDeposit = false)
      hm fun s p he => ⟨?_, ?_⟩) hi fun s p hc => ⟨hc.1, ?_⟩
    · rintro a rfl
      cases o with
      | aggregate b => exact ho b rfl
      | _ => cases kind_of_emits he
    · rw [← Bool.not_eq_true]
      exact fun hp => hdep (isDeposit_of_emits he hp)
    · rintro n c rfl
      cases hc.2

end Late

/-! ## The value -/

/-- **An exact aggregate**: the call marks the batches that are due, and it returns the net value of
the deposits in the batches that it marks. -/
def AggregatesExactly (db : Database) (a : AggregateArgs) : Prop :=
  ∃ db' total, aggregate db a = .ok (db', total) ∧
    (∀ n, db'.isDone n = (db.isDone n || inAggregate db a n)) ∧
    total.units = db.coinDeposits.total (onlyIf
      (fun d => db.isDone d.batchDepositSerialId = false ∧
        db'.isDone d.batchDepositSerialId = true) db.netOf)

/-- No fee is left out because of another deposit of the coin, and the sums are amounts. -/
structure AggregateFair (db : Database) (a : AggregateArgs) : Prop where
  fees : ∀ d ∈ aggregatedDeposits db a, waivedElsewhere db a d = true →
    db.figure (·.feeDeposit) d.coinPub = 0
  range : aggregateSum db a (fun d => d.amountWithFee.units) < Amount.unitsBound
  nonneg : 0 ≤ aggregateSum db a db.netOf

section Value

variable {db db' : Database} {a : AggregateArgs} {total : Amount}

/-- Batches that are due can be tracked. -/
theorem TrackedDone.exists_tracked (hi : TrackedDone db) (a : AggregateArgs) :
    ∃ t, trackBatches db.aggregationTracking a.wtid (aggregatedBatches db a) = .ok t := by
  refine exists_trackBatches (fun b hb => ?_) ?_
  · rw [← Bool.not_eq_true]
    intro hk
    obtain ⟨r, hr, e⟩ := Table.hasKey_iff.mp hk
    have hdone := hi.done r hr
    rw [show r.batchDepositSerialId = _ from e] at hdone
    have hin : inAggregate db a b.batchDepositSerialId = true :=
      List.any_eq_true.mpr ⟨b, hb, decide_eq_true rfl⟩
    rw [isDone_of_inAggregate hin] at hdone
    cases hdone
  · have hn : (db.batchDeposits.rows.map (·.batchDepositSerialId)).Nodup := by
      have := db.batchDeposits.serials
      exact this ▸ List.nodup_range'
    exact hn.sublist (List.filter_sublist.map _)

/-- What an aggregation returns and leaves. -/
theorem aggregate_eq_ok : aggregate db a = .ok (db', total) ↔
    aggregateTotal db a = some total ∧ ∃ t,
      trackBatches db.aggregationTracking a.wtid (aggregatedBatches db a) = .ok t ∧
      db' = { db with
        batchDeposits := db.batchDeposits.update a.selects fun b => { b with done := true }
        aggregationTracking := t } := by
  simp only [aggregate, bind_eq_ok]
  cases aggregateTotal db a with
  | none => simp
  | some x =>
    simp only [pure_eq_ok, Prod.mk.injEq, Option.some.injEq]
    constructor
    · rintro ⟨t, ht, h, e⟩
      exact ⟨e.symm, t, ht, h⟩
    · rintro ⟨e, t, ht, h⟩
      exact ⟨t, ht, h, e.symm⟩

theorem isDone_aggregate (h : aggregate db a = .ok (db', total)) (n : ℕ) :
    db'.isDone n = (db.isDone n || inAggregate db a n) := by
  obtain ⟨-, t, -, rfl⟩ := aggregate_eq_ok.mp h
  exact isDone_marked n

/-- The fees left out are none exactly if each of them is zero. -/
theorem waived_eq_zero : (aggregateSum db a fun d =>
      if waivedElsewhere db a d then db.figure (·.feeDeposit) d.coinPub else 0) = 0 ↔
    ∀ d ∈ aggregatedDeposits db a, waivedElsewhere db a d = true →
      db.figure (·.feeDeposit) d.coinPub = 0 := by
  have h0 : ∀ d, 0 ≤ onlyIf (fun d => inAggregate db a d.batchDepositSerialId = true)
      (fun d => if waivedElsewhere db a d then db.figure (·.feeDeposit) d.coinPub else 0) d := by
    intro d
    refine onlyIf_nonneg ?_
    split_ifs
    · exact figure_nonneg ..
    · exact le_rfl
  constructor
  · intro h d hd hw
    obtain ⟨hrow, hin⟩ := mem_aggregatedDeposits.mp hd
    have hle := Table.single_le_total hrow fun d' _ _ => h0 d'
    rw [onlyIf_pos (by exact hin), if_pos hw] at hle
    have := figure_nonneg db.toCoinTables (·.feeDeposit) d.coinPub
    unfold aggregateSum at h
    omega
  · intro h
    refine Table.total_eq_zero fun d hrow => ?_
    refine ite_eq_right_iff.mpr fun hin => ite_eq_right_iff.mpr fun hw => ?_
    exact h d (mem_aggregatedDeposits.mpr ⟨hrow, hin⟩) hw

/-- The deposits in the batches that a call marks are the ones it sums. -/
theorem marked_eq (hdone : ∀ n, db'.isDone n = (db.isDone n || inAggregate db a n))
    (f : CoinDeposit → ℤ) :
    db.coinDeposits.total (onlyIf (fun d => db.isDone d.batchDepositSerialId = false ∧
      db'.isDone d.batchDepositSerialId = true) f) = aggregateSum db a f := by
  refine Table.total_congr fun d _ => ?_
  have hnot : inAggregate db a d.batchDepositSerialId = true →
      db.isDone d.batchDepositSerialId = false := isDone_of_inAggregate
  unfold onlyIf
  refine if_congr ?_ rfl rfl
  simp only [hdone, Bool.or_eq_true]
  constructor
  · rintro ⟨h₁, h₂ | h₂⟩
    · rw [h₁] at h₂
      cases h₂
    · exact h₂
  · exact fun h => ⟨hnot h, Or.inr h⟩

/-- **When an aggregate is exact.** -/
theorem aggregatesExactly_iff (hi : AggregationRows db) :
    AggregatesExactly db a ↔ AggregateFair db a := by
  have hr := hi.toKnownRows
  constructor
  · rintro ⟨db', total, h, hdone, hv⟩
    obtain ⟨hlt, hu⟩ := (aggregateTotal_eq_some hr).mp (aggregate_eq_ok.mp h).1
    rw [marked_eq hdone] at hv
    refine ⟨waived_eq_zero.mp (by omega), hlt, ?_⟩
    rw [← hv]
    exact total.units_nonneg
  · rintro ⟨hfees, hlt, h0⟩
    rw [← waived_eq_zero] at hfees
    have hle : aggregateSum db a db.netOf ≤ aggregateSum db a fun d => d.amountWithFee.units := by
      refine Table.total_mono fun d _ => ?_
      unfold onlyIf
      split_ifs
      · have h₁ := refundedFor_nonneg db.toCoinTables d
        have h₂ := figure_nonneg db.toCoinTables (·.feeDeposit) d.coinPub
        simp only [CoinTables.netOf]
        split_ifs <;> omega
      · exact le_rfl
    obtain ⟨x, hx⟩ := Amount.exists_units h0 (by omega)
    obtain ⟨t, ht⟩ := hi.toTrackedDone.exists_tracked a
    have hsome : aggregateTotal db a = some x := (aggregateTotal_eq_some hr).mpr ⟨hlt, by omega⟩
    have hok := aggregate_eq_ok.mpr ⟨hsome, t, ht, rfl⟩
    refine ⟨_, x, hok, isDone_aggregate hok, ?_⟩
    rw [marked_eq (isDone_aggregate hok), hx]

end Value

/-! ## Counting -/

/-- The operation is an aggregation that is committed and that sums the deposit with identity `n`. -/
def counts (n : ℕ) (db : Database) : Op → Bool
  | .aggregate a => (transact db (.aggregate a)).isSome &&
      (aggregatedDeposits db a).any (·.coinDepositSerialId = n)
  | _ => false

/-- How many aggregates of a run sum the deposit with identity `n`. -/
def timesCounted (ops : List Op) (n : ℕ) : ℤ :=
  tally step (fun db o => if counts n db o then 1 else 0) Database.empty ops

/-- The deposit with identity `n` is in a batch that is done. -/
def CoinTables.isCounted (db : CoinTables) (n : ℕ) : Bool :=
  (db.coinDeposits.lookupSerial n).any fun d => db.isDone d.batchDepositSerialId

section Counting

variable {db db' : Database} {n : ℕ}

theorem Quiet.isCounted (h : Quiet db db') : db'.isCounted n = db.isCounted n := by
  obtain ⟨new, e, hnew⟩ := h.deposits
  rw [Bool.eq_iff_iff]
  simp only [CoinTables.isCounted, Option.any_eq_true, Table.lookupSerial_eq_some, h.done]
  refine exists_congr fun d => and_congr_left fun hd => and_congr_left fun _ => ?_
  rw [e, List.mem_append]
  refine or_iff_left fun hmem => ?_
  rw [hnew d hmem] at hd
  cases hd

/-- An aggregation counts the deposits of the batches it marks. -/
theorem isCounted_aggregate {a : AggregateArgs}
    (h : transact db (.aggregate a) = some db') :
    db'.isCounted n = (db.isCounted n || counts n db (.aggregate a)) ∧
      (counts n db (.aggregate a) = true → db.isCounted n = false) := by
  have hc : counts n db (.aggregate a) = true ↔ ∃ d, db.coinDeposits.lookupSerial n = some d ∧
      inAggregate db a d.batchDepositSerialId = true := by
    simp only [counts, h, Option.isSome_some, Bool.true_and, List.any_eq_true,
      mem_aggregatedDeposits, decide_eq_true_eq, Table.lookupSerial_eq_some]
    exact ⟨fun ⟨d, ⟨hm, hin⟩, hs⟩ => ⟨d, ⟨hm, hs⟩, hin⟩, fun ⟨d, ⟨hm, hs⟩, hin⟩ => ⟨d, ⟨hm, hin⟩, hs⟩⟩
  obtain ⟨total, h, -⟩ := commitIf_eq_some.mp h
  have hdone := isDone_aggregate h
  have hrows : db'.coinDeposits = db.coinDeposits := by
    obtain ⟨-, t, -, rfl⟩ := aggregate_eq_ok.mp h
    rfl
  constructor
  · rw [Bool.eq_iff_iff, Bool.or_eq_true, hc]
    unfold CoinTables.isCounted
    rw [hrows]
    cases db.coinDeposits.lookupSerial n with
    | none => simp
    | some d => simp [hdone]
  · intro hcount
    obtain ⟨d, hd, hin⟩ := hc.mp hcount
    rw [CoinTables.isCounted, hd, Option.any_some, isDone_of_inAggregate hin]

/-- **One step**: what becomes done is what an aggregation counts. -/
theorem step_isCounted {o : Op} (hm : MergesHavePurse db) (hi : AggregationRows db)
    (hl : NotLate db o) : (if (step db o).isCounted n then 1 else 0 : ℤ) =
      (if db.isCounted n then 1 else 0) + if counts n db o then 1 else 0 := by
  by_cases ho : ∃ a, o = .aggregate a
  · obtain ⟨a, rfl⟩ := ho
    cases h : transact db (.aggregate a) with
    | none =>
      have hno : counts n db (.aggregate a) = false := by simp [counts, h]
      rw [show step db (.aggregate a) = db by simp [step, h], hno]
      simp
    | some db' =>
      obtain ⟨h₁, h₂⟩ := isCounted_aggregate (n := n) h
      rw [show step db (.aggregate a) = db' by simp [step, h], h₁]
      cases hc : counts n db (.aggregate a) with
      | false => simp
      | true => simp [h₂ hc]
  · have hq := (step_quiet hm hi hl fun a e => ho ⟨a, e⟩).isCounted (n := n)
    have hno : counts n db o = false := by
      cases o with
      | aggregate a => exact absurd ⟨a, rfl⟩ ho
      | _ => rfl
    rw [hq, hno]
    simp

/-- **Each deposit is in one aggregate** once its batch is done, and in none before. -/
theorem timesCounted_eq {ops : List Op} (h : Admits step NotLate Database.empty ops) (n : ℕ) :
    timesCounted ops n = if (run step Database.empty ops).isCounted n then 1 else 0 := by
  have ht := tally_eq (I := fun db => MergesHavePurse db ∧ AggregationRows db)
    (w := fun db o => if counts n db o then 1 else 0)
    (g := fun db => if db.isCounted n then 1 else 0) (fun db o _ hi => ?_)
    (fun db o ho hi => step_isCounted hi.1 hi.2 ho) h ⟨fun _ h => (nomatch h), aggregationRows_empty⟩
  · unfold timesCounted
    rw [ht]
    exact sub_zero _
  · exact (step_path (C := fun _ _ => True) hi.1 fun _ _ _ => trivial).invariant
      (I := fun db => MergesHavePurse db ∧ AggregationRows db)
      (fun _ _ _ _ hp hi => ⟨hp.mergesHavePurse hi.1, hp.aggregationRows hi.2⟩) hi

end Counting

/-- **Aggregation.** In every reachable state and for every account, an aggregate is exact if and
only if it is fair; and in a run without late deposits, each deposit is in exactly one aggregate
when its batch is done, and in none as long as it is not. -/
theorem run_aggregates (ops : List Op) :
    (∀ a, AggregatesExactly (run step Database.empty ops) a ↔
      AggregateFair (run step Database.empty ops) a) ∧
    (Admits step NotLate Database.empty ops →
      ∀ d ∈ (run step Database.empty ops).coinDeposits.rows,
        timesCounted ops d.coinDepositSerialId =
          if (run step Database.empty ops).isDone d.batchDepositSerialId then 1 else 0) := by
  refine ⟨fun a => aggregatesExactly_iff (run_aggregationRows ops), fun h d hd => ?_⟩
  rw [timesCounted_eq h]
  have hl : (run step Database.empty ops).coinDeposits.lookupSerial d.coinDepositSerialId = some d :=
    Table.lookupSerial_eq_some.mpr ⟨hd, rfl⟩
  rw [CoinTables.isCounted, hl, Option.any_some]

/-! ## Sample runs -/

/-- A coin of value ten with a deposit fee of one, and deposits of four in two batches. -/
def twoBatches : List Op :=
  coinOfTen (.whole 1) .zero ++
  [.deposit { sampleBatch with coins := [⟨7, 1, .whole 4⟩] },
   .deposit { sampleBatch with hContractTerms := 9, coins := [⟨7, 2, .whole 4⟩] }]

/-- The account of the merchant, after the refund deadline. -/
def sampleAccount : AggregateArgs := ⟨4, 5, 1, 100, 0⟩

/-- Both batches, aggregated. -/
def aggregatedOnce : List Op := twoBatches ++ [.aggregate sampleAccount]

instance (db : Database) (o : Op) : Decidable (NotLate db o) :=
  match o with
  | .deposit a =>
    match h : db.batchDeposits.lookup (a.shard, a.merchantPub, a.hContractTerms) with
    | none => .isTrue fun _ hb => by rw [h] at hb; cases hb
    | some b =>
      decidable_of_iff (a.matches b = true → b.done = true →
        ∀ c ∈ a.coins, db.coinDeposits.hasKey c.key = true)
        ⟨fun hb b' e => by rw [h] at e; cases e; exact hb, fun hb => hb b h⟩
  | .denomination _ | .partner _ | .coin .. | .refund _ | .melt _ | .reveal _
  | .reserveOpenDeposit _ | .recoupToReserve _ | .recoupToCoin _ | .createPurse .. | .purseDeposit _
  | .purseMerge _ | .reservePurse .. | .purseDelete _ | .expirePurse _ | .reservesIn ..
  | .batchWithdraw .. | .ageWithdraw _ | .reserveOpen _ | .reserveClosed _ | .closeRequest _
  | .aggregate _ => .isTrue trivial

theorem aggregatedOnce_exact :
    AggregatesExactly (run step Database.empty twoBatches) sampleAccount ∧
    ∀ d ∈ (run step Database.empty aggregatedOnce).coinDeposits.rows,
      timesCounted aggregatedOnce d.coinDepositSerialId =
        if (run step Database.empty aggregatedOnce).isDone d.batchDepositSerialId then 1 else 0 := by
  refine ⟨((run_aggregates twoBatches).1 sampleAccount).mpr ⟨?_, ?_, ?_⟩,
    (run_aggregates aggregatedOnce).2 (by decide +kernel)⟩
  · decide +kernel
  · decide +kernel
  · decide +kernel

/-- One of the two deposits is refunded in full. -/
def refundedElsewhere : List Op :=
  twoBatches ++
  [.refund { amountWithFee := .whole 4, amount := .whole 4, depositFee := .whole 1,
             hContractTerms := 3, rtransactionId := 1, depositShard := 0, coinPub := 7,
             merchantPub := 5, merchantSig := 1 }]

/-- A coin is added to a batch after it was aggregated. -/
def depositedLate : List Op :=
  aggregatedOnce ++ [.deposit { sampleBatch with coins := [⟨7, 3, .whole 1⟩] }]

theorem not_aggregates :
    ¬ AggregatesExactly (run step Database.empty refundedElsewhere) sampleAccount ∧
    ¬ ∀ d ∈ (run step Database.empty depositedLate).coinDeposits.rows,
      timesCounted depositedLate d.coinDepositSerialId =
        if (run step Database.empty depositedLate).isDone d.batchDepositSerialId then 1 else 0 := by
  constructor
  · rw [aggregatesExactly_iff (run_aggregationRows _)]
    intro h
    exact absurd h.fees (by decide +kernel)
  · decide +kernel

end TalerExchange
