import TalerExchange.Aggregation.Once

/-!
# The assertions of the aggregation

`TEH_PG_aggregate` asserts that its two subtractions succeed. They do if every refund leaves nothing
of its deposit or at least the deposit fee.

* `FeesLeft`: deposits of at least the fee, refunds that leave nothing or at least the fee;
* `NetNonneg`: no deposit is worth less than nothing to the merchant;
* **`run_aggregateTotal`**: the subtractions succeed exactly if the sums allow it, and they do in
  runs of such operations as long as the sum of the deposits is an amount;
* `refundBelowFee`: a partial refund that leaves less than the fee makes an assertion fail.
-/

namespace TalerExchange

open Sql Transition

/-! ## Conditions -/

/-- What the handlers make sure of: a deposit is at least the deposit fee, and a refund comes with
the fees of the coin. -/
def FeesChecked (db : Database) : Op → Prop
  | .deposit a => ∀ c ∈ a.coins, db.figure (·.feeDeposit) c.coinPub ≤ c.amountWithFee.units
  | .refund a => CoinArgsOk db (.refund a)
  | _ => True

/-- What is left of a deposit after one more refund. -/
def CoinTables.leftAfter (db : CoinTables) (a : RefundArgs) (d : CoinDeposit) : ℤ :=
  d.amountWithFee.units - (db.refundedIn a.coinPub d.batchDepositSerialId + a.amountWithFee.units)

/-- A new refund of a batch that is not done leaves nothing or at least the deposit fee. -/
def RefundLeavesFee (db : Database) (a : RefundArgs) : Prop :=
  ∀ b, db.batchDeposits.lookup (a.depositShard, a.merchantPub, a.hContractTerms) = some b →
    b.done = false →
    db.refunds.hasKey (b.batchDepositSerialId, a.coinPub, a.rtransactionId) = false →
    ∀ d, db.depositIn a.coinPub b.batchDepositSerialId = some d → 0 < db.leftAfter a d →
      db.figure (·.feeDeposit) a.coinPub ≤ db.leftAfter a d

/-- Deposits are at least the fee, and so is what refunds leave, if they leave anything. -/
def FeesLeft (db : Database) : Op → Prop
  | .deposit a => ∀ c ∈ a.coins, db.figure (·.feeDeposit) c.coinPub ≤ c.amountWithFee.units
  | .refund a => RefundLeavesFee db a
  | _ => True

/-- No deposit has a negative net value. -/
def NetNonneg (db : CoinTables) : Prop := ∀ d ∈ db.coinDeposits.rows, 0 ≤ db.netOf d

/-! ## Postings -/

section Postings

variable {db db' : Database} {p : Posting}

theorem netNonneg_of_same (hi : AggregationRows db) (hg : Grows db.toCoinTables db'.toCoinTables)
    (hn : NetNonneg db.toCoinTables) (hd : db'.coinDeposits = db.coinDeposits)
    (hf : db'.refunds = db.refunds) : NetNonneg db'.toCoinTables := by
  intro d hrow
  rw [hd] at hrow
  have hin := refundsIn_of_eq hf d.coinPub d.batchDepositSerialId
  rw [netOf_of_grows hi.toKnownRows hg hrow (hi.deposited d hrow) hin]
  exact hn d hrow

/-- A deposit that is not the first of its coin in the batch is not refunded. -/
theorem netOf_second {db : CoinTables} {d : CoinDeposit}
    (h : db.depositIn d.coinPub d.batchDepositSerialId ≠ some d) :
    db.netOf d = d.amountWithFee.units - db.figure (·.feeDeposit) d.coinPub := by
  have hfull : db.fullyRefunded d = false := by simp [CoinTables.fullyRefunded, h]
  rw [CoinTables.netOf, CoinTables.refundedFor, if_neg h, hfull, if_neg Bool.false_ne_true, sub_zero]

theorem netNonneg_deposit (hi : AggregationRows db) (hg : Grows db.toCoinTables db'.toCoinTables)
    (hn : NetNonneg db.toCoinTables) {bdsi : ℕ} {c : DepositedCoin}
    (ht : db.coinDeposits.insert? (fun i => ⟨i, bdsi, c.coinPub, c.coinSig, c.amountWithFee⟩) =
      some db'.coinDeposits)
    (hf : db'.refunds = db.refunds)
    (hfee : db'.figure (·.feeDeposit) c.coinPub ≤ c.amountWithFee.units) :
    NetNonneg db'.toCoinTables := by
  intro d hrow
  rcases (Table.mem_insert? ht).mp hrow with hrow | rfl
  · have hin := refundsIn_of_eq hf d.coinPub d.batchDepositSerialId
    rw [netOf_of_grows hi.toKnownRows hg hrow (hi.deposited d hrow) hin]
    exact hn d hrow
  · by_cases hfirst : db'.depositIn c.coinPub bdsi =
        some ⟨db.coinDeposits.nextSerial, bdsi, c.coinPub, c.coinSig, c.amountWithFee⟩
    · -- the first deposit of the coin in the batch has no refunds yet
      have hnone : db.depositIn c.coinPub bdsi = none := by
        cases h : db.depositIn c.coinPub bdsi with
        | none => rfl
        | some e =>
          have he := Option.some.inj ((hg.depositIn h).symm.trans hfirst)
          have hlt := Table.serial_le (mem_of_depositIn h).1
          rw [he] at hlt
          exact absurd hlt (lt_irrefl _)
      have hzero : db'.refundedIn c.coinPub bdsi = 0 := by
        rw [(refundsIn_of_eq hf _ _).1]
        exact refundedIn_of_none hi.toKnownRows hnone
      unfold CoinTables.netOf CoinTables.refundedFor
      dsimp only
      rw [hfirst, if_pos rfl, hzero]
      have hamount := c.amountWithFee.units_nonneg
      split_ifs <;> omega
    · rw [netOf_second (by exact hfirst)]
      dsimp only
      omega

theorem netNonneg_refund (hi : AggregationRows db) (hg : Grows db.toCoinTables db'.toCoinTables)
    (hn : NetNonneg db.toCoinTables) {a : RefundArgs} {b : ℕ} {d : CoinDeposit}
    (hd : db.depositIn a.coinPub b = some d) (hc : db'.coinDeposits = db.coinDeposits)
    (ht : db.refunds.insert? (a.row b) = some db'.refunds)
    (hfit : db'.refundedIn a.coinPub b ≤ d.amountWithFee.units)
    (hleft : 0 < db.leftAfter a d →
      db.figure (·.feeDeposit) a.coinPub ≤ db.leftAfter a d) :
    NetNonneg db'.toCoinTables := by
  intro e hrow
  rw [hc] at hrow
  have hin := refundsIn_insert? ht e.coinPub e.batchDepositSerialId
  by_cases hsame : a.coinPub = e.coinPub ∧ b = e.batchDepositSerialId
  · obtain ⟨hac, rfl⟩ := hsame
    have hdep := hg.depositIn hd
    by_cases hfirst : e = d
    · subst hfirst
      rw [hac] at hd hdep hfit
      rw [if_pos ⟨hac, rfl⟩, if_pos ⟨hac, rfl⟩] at hin
      have hnew := fullyRefunded_iff hdep
      have hcount := refundsIn_nonneg db.toCoinTables e.coinPub e.batchDepositSerialId
      have hk := hi.deposited e hrow
      unfold CoinTables.leftAfter at hleft
      rw [hac, ← figure_of_known hi.toKnownRows hg hk] at hleft
      unfold CoinTables.netOf CoinTables.refundedFor
      rw [hdep, if_pos rfl]
      by_cases hall : db'.refundedIn e.coinPub e.batchDepositSerialId = e.amountWithFee.units
      · rw [if_pos (hnew.mpr ⟨by omega, hall⟩)]
        omega
      · split_ifs
        · omega
        · have := hleft (by omega)
          omega
    · have hne : db'.depositIn e.coinPub e.batchDepositSerialId ≠ some e := by
        rw [← hac, hdep]
        exact fun h => hfirst (Option.some.inj h).symm
      have hold : db.depositIn e.coinPub e.batchDepositSerialId ≠ some e := by
        rw [← hac, hd]
        exact fun h => hfirst (Option.some.inj h).symm
      have hle := hn e hrow
      rw [netOf_second hold] at hle
      rwa [netOf_second hne, figure_of_known hi.toKnownRows hg (hi.deposited e hrow)]
  · rw [if_neg hsame, if_neg hsame, add_zero, add_zero] at hin
    rw [netOf_of_grows hi.toKnownRows hg hrow (hi.deposited e hrow) hin]
    exact hn e hrow

/-- **Postings keep the net values**, refunds and deposits below the fee apart. -/
theorem Posts.netNonneg (h : Posts db p db') (hi : AggregationRows db)
    (hn : NetNonneg db.toCoinTables)
    (hdep : ∀ n c, p = .coinDeposit n c →
      db.figure (·.feeDeposit) c.coinPub ≤ c.amountWithFee.units)
    (href : ∀ a, p = .refund a → RefundLeavesFee db a) : NetNonneg db'.toCoinTables := by
  have hg := h.grows
  cases h with
  | wireTarget =>
    rw [addWireTarget_frame] at hg ⊢
    exact netNonneg_of_same hi hg hn rfl rfl
  | initReserve =>
    rw [initReserve_frame] at hg ⊢
    exact netNonneg_of_same hi hg hn rfl rfl
  | reservePurse _ _ _ _ _ _ _ hpay =>
    rw [payForPurse_frame hpay] at hg ⊢
    exact netNonneg_of_same hi hg hn rfl rfl
  | coinDeposit ht _ _ hkc =>
    refine netNonneg_deposit hi hg hn ht rfl ?_
    rw [figure_of_known hi.toKnownRows hg (Table.hasKey_of_lookup hkc)]
    exact hdep _ _ rfl
  | refund hb hdone hk hd ht _ hsum hfit =>
    have hbd := (mem_of_depositIn hd).2.2
    refine netNonneg_refund hi hg hn hd rfl ht ?_ ?_
    · rw [hsum, refundFits_iff (normal_refundSums ..) (Amount.normal_toTaler _),
        units_refundSums] at hfit
      exact hfit
    · exact href _ rfl _ hb hdone (Table.insert?_eq_some.mp ht).1 _ hd
  | _ => exact netNonneg_of_same hi hg hn rfl rfl

end Postings

/-! ## Runs -/

section Runs

variable {db : Database} {o : Op}

theorem Grows.trans {db db' db'' : CoinTables} (h : Grows db db') (h' : Grows db' db'') :
    Grows db db'' where
  known c hc := h'.known c (h.known c hc)
  denominationOf hd := h'.denominationOf (h.denominationOf hd)
  depositIn hd := h'.depositIn (h.depositIn hd)
  decisionDeposit hd := h'.decisionDeposit (h.decisionDeposit hd)
  oldCoinOf hc := h'.oldCoinOf (h.oldCoinOf hc)

/-- The postings of a batch deposit. -/
def DepositArgs.posts (a : DepositArgs) (p : Posting) : Prop :=
  p = .wireTarget a.wireTargetHPayto a.hNormalizedPayto a.receiverWireAccount ∨ p = .batch a ∨
    ∃ n, ∃ c ∈ a.coins, p = .coinDeposit n c

/-- They add no coins. -/
theorem DepositArgs.posts_known {db db' : Database} {a : DepositArgs} {p : Posting}
    (h : Posts db p db') (hp : a.posts p) (c : CoinPub) :
    db'.knownCoins.hasKey c = db.knownCoins.hasKey c := by
  rcases hp with rfl | rfl | ⟨n, x, -, rfl⟩ <;> cases h
  · rw [addWireTarget_frame]
  · rfl
  · exact CoinTables.hasKey_setRemaining ..

/-- **One operation keeps the net values.** -/
theorem step_netNonneg (hm : MergesHavePurse db) (hi : AggregationRows db)
    (hn : NetNonneg db.toCoinTables) (hok : FeesLeft db o) :
    AggregationRows (step db o) ∧ NetNonneg (step db o).toCoinTables := by
  by_cases hdep : ∃ a, o = .deposit a
  · obtain ⟨a, rfl⟩ := hdep
    have hpath := step_path (C := fun _ p => a.posts p) hm
      fun s p (he : Emits db (.deposit a) s p) => he
    refine (hpath.invariant (I := fun s => (AggregationRows s ∧ NetNonneg s.toCoinTables) ∧
      Grows db.toCoinTables s.toCoinTables ∧
        ∀ c, s.knownCoins.hasKey c = db.knownCoins.hasKey c) ?_
      ⟨⟨hi, hn⟩, ⟨fun _ h => h, fun h => h, fun h => h, fun h => h, fun h => h⟩, fun _ => rfl⟩).1
    rintro s p t hp hpost ⟨⟨hs, hsn⟩, hg, hk⟩
    refine ⟨⟨hpost.aggregationRows hs, hpost.netNonneg hs hsn ?_ ?_⟩, hg.trans hpost.grows,
      fun c => (DepositArgs.posts_known hpost hp c).trans (hk c)⟩
    · rintro n c rfl
      rcases hp with hp | hp | ⟨_, x, hx, hp⟩ <;> cases hp
      rw [figure_of_grows hi.toKnownRows hg hk]
      exact hok c hx
    · rintro b rfl
      rcases hp with hp | hp | ⟨_, x, hx, hp⟩ <;> cases hp
  · have hpath := step_path (C := fun s p => (∀ n c, p ≠ .coinDeposit n c) ∧
      ∀ a, p = .refund a → RefundLeavesFee s a) hm fun s p (he : Emits db o s p) => by
        refine ⟨?_, ?_⟩
        · rintro n c rfl
          cases o with
          | deposit a => exact hdep ⟨a, rfl⟩
          | _ => cases kind_of_emits he
        · rintro a rfl
          obtain ⟨rfl, rfl⟩ := emits_refund he
          exact hok
    refine hpath.invariant (I := fun s => AggregationRows s ∧ NetNonneg s.toCoinTables) ?_ ⟨hi, hn⟩
    rintro s p t ⟨hp, hr⟩ hpost ⟨hs, hsn⟩
    exact ⟨hpost.aggregationRows hs, hpost.netNonneg hs hsn (fun n c e => absurd e (hp n c)) hr⟩

theorem run_netNonneg {ops : List Op} (h : Admits step FeesLeft Database.empty ops) :
    NetNonneg (run step Database.empty ops).toCoinTables := by
  refine (run_invariant (I := fun db => (MergesHavePurse db ∧ AggregationRows db) ∧
    NetNonneg db.toCoinTables) ?_ h
    ⟨⟨fun _ h => (nomatch h), aggregationRows_empty⟩, fun _ h => (nomatch h)⟩).2
  rintro db o hok ⟨⟨hm, hi⟩, hn⟩
  have hstep := step_netNonneg hm hi hn hok
  refine ⟨⟨?_, hstep.1⟩, hstep.2⟩
  exact (step_path (C := fun _ _ => True) hm fun _ _ _ => trivial).invariant
    (fun _ _ _ _ hp hs => hp.mergesHavePurse hs) hm

end Runs

/-- **When the two subtractions succeed.** -/
theorem aggregateTotal_isSome_iff {db : Database} (hr : KnownRows db.toCoinTables)
    (a : AggregateArgs) : (aggregateTotal db a).isSome = true ↔
      aggregateSum db a (fun d => d.amountWithFee.units) < Amount.unitsBound ∧
      0 ≤ aggregateSum db a db.netOf + aggregateSum db a fun d =>
        if waivedElsewhere db a d then db.figure (·.feeDeposit) d.coinPub else 0 := by
  rw [Option.isSome_iff_exists]
  constructor
  · rintro ⟨x, hx⟩
    obtain ⟨hlt, hu⟩ := (aggregateTotal_eq_some hr).mp hx
    exact ⟨hlt, hu ▸ x.units_nonneg⟩
  · rintro ⟨hlt, h0⟩
    have hle : aggregateSum db a db.netOf + (aggregateSum db a fun d =>
        if waivedElsewhere db a d then db.figure (·.feeDeposit) d.coinPub else 0) ≤
          aggregateSum db a fun d => d.amountWithFee.units := by
      unfold aggregateSum
      rw [← Table.total_add]
      refine Table.total_mono fun d _ => ?_
      have href := refundedFor_nonneg db.toCoinTables d
      have hfee := figure_nonneg db.toCoinTables (·.feeDeposit) d.coinPub
      by_cases hin : inAggregate db a d.batchDepositSerialId = true
      · simp only [onlyIf, hin, if_true, CoinTables.netOf]
        cases hw : waivedElsewhere db a d with
        | true =>
          simp only [waivedElsewhere, Bool.and_eq_true, Bool.not_eq_true'] at hw
          simp only [hw.2, if_true, Bool.false_eq_true, if_false]
          omega
        | false =>
          simp only [Bool.false_eq_true, if_false]
          split_ifs <;> omega
      · simp [onlyIf, hin]
    obtain ⟨x, hx⟩ := Amount.exists_units h0 (by omega)
    exact ⟨x, (aggregateTotal_eq_some hr).mpr ⟨hlt, hx⟩⟩

/-- **The assertions of the aggregation.** In every reachable state they hold exactly if the sum of
the deposits is an amount and covers the refunds and fees that are deducted; and in a run whose
refunds leave nothing or the deposit fee, it covers them. -/
theorem run_aggregateTotal (ops : List Op) (a : AggregateArgs) :
    ((aggregateTotal (run step Database.empty ops) a).isSome = true ↔
      aggregateSum (run step Database.empty ops) a (fun d => d.amountWithFee.units) <
          Amount.unitsBound ∧
        0 ≤ aggregateSum (run step Database.empty ops) a
            (run step Database.empty ops).netOf +
          aggregateSum (run step Database.empty ops) a fun d =>
            if waivedElsewhere (run step Database.empty ops) a d then
              (run step Database.empty ops).figure (·.feeDeposit) d.coinPub else 0) ∧
    (Admits step FeesLeft Database.empty ops →
      aggregateSum (run step Database.empty ops) a (fun d => d.amountWithFee.units) <
        Amount.unitsBound →
      (aggregateTotal (run step Database.empty ops) a).isSome = true) := by
  have hr := (run_aggregationRows ops).toKnownRows
  refine ⟨aggregateTotal_isSome_iff hr a, fun h hlt => ?_⟩
  refine (aggregateTotal_isSome_iff hr a).mpr ⟨hlt, ?_⟩
  have hn := run_netNonneg h
  refine add_nonneg (Table.total_nonneg fun d hd => onlyIf_nonneg (hn d hd)) ?_
  refine Table.total_nonneg fun d _ => onlyIf_nonneg ?_
  split_ifs
  · exact figure_nonneg ..
  · exact le_rfl

/-! ## Sample runs -/

/-- A deposit of five with a deposit fee of two, refunded but for the fee. -/
def refundToFee : List Op :=
  coinOfTen (.whole 2) .zero ++
  [.deposit { sampleBatch with coins := [⟨7, 1, .whole 5⟩] },
   .refund { amountWithFee := .whole 3, amount := .whole 3, depositFee := .whole 2,
             hContractTerms := 3, rtransactionId := 1, depositShard := 0, coinPub := 7,
             merchantPub := 5, merchantSig := 1 }]

theorem refundToFee_aggregates : Admits step FeesLeft Database.empty refundToFee ∧
    (aggregateTotal (run step Database.empty refundToFee) sampleAccount).isSome = true := by
  have hleft : Admits step FeesLeft Database.empty refundToFee := by
    refine ⟨trivial, trivial, ?_, ?_, trivial⟩
    · intro c hc
      rw [List.mem_singleton.mp hc]
      decide +kernel
    · intro b hb _ _ d hd _
      have hb' : (run step Database.empty (refundToFee.take 3)).batchDeposits.lookup (0, 5, 3) =
          some ⟨1, 0, 5, none, 0, 0, 10, 20, 3, none, 0, 4, none, false, false⟩ := by
        decide +kernel
      cases hb.symm.trans hb'
      have hd' : (run step Database.empty (refundToFee.take 3)).depositIn 7 1 =
          some ⟨1, 1, 7, 1, .whole 5⟩ := by
        decide +kernel
      cases hd.symm.trans hd'
      decide +kernel
  exact ⟨hleft, (run_aggregateTotal refundToFee sampleAccount).2 hleft (by decide +kernel)⟩

/-- A deposit of five with a deposit fee of two, refunded but for one. -/
def refundBelowFee : List Op :=
  coinOfTen (.whole 2) .zero ++
  [.deposit { sampleBatch with coins := [⟨7, 1, .whole 5⟩] },
   .refund { amountWithFee := .whole 4, amount := .whole 4, depositFee := .whole 2,
             hContractTerms := 3, rtransactionId := 1, depositShard := 0, coinPub := 7,
             merchantPub := 5, merchantSig := 1 }]

theorem refundBelowFee_aborts :
    ¬ ∀ ops a, Admits step FeesChecked Database.empty ops →
      (aggregateTotal (run step Database.empty ops) a).isSome = true := by
  intro h
  have hchecked : Admits step FeesChecked Database.empty refundBelowFee := by
    refine ⟨trivial, trivial, ?_, ⟨by decide +kernel, by decide +kernel⟩, trivial⟩
    intro c hc
    rw [List.mem_singleton.mp hc]
    decide +kernel
  have hnone : aggregateTotal (run step Database.empty refundBelowFee) sampleAccount = none := by
    decide +kernel
  have hsome := h refundBelowFee sampleAccount hchecked
  rw [hnone] at hsome
  exact absurd hsome (by decide)

end TalerExchange
