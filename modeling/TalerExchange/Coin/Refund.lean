import TalerExchange.Coin.Conservation

/-!
# Crediting refunds

The refunds of one deposit, call by call. A deposit that has no refunds yet is refunded by any list
of calls, each a transaction that is rolled back when it fails.

* `RefundsDeposit`: a call about the deposit, with the amounts that the handler computes;
* `refundStep_cases`: what a call leaves in the database;
* `Credited`: the refunds stay within the deposit, and so does what the coin got back; the deposit
  fee came back once the refunds reached the deposit;
* `RefundCovered`: a refund that reaches the deposit pays for the deposit fee with refund fees;
* **`run_refunds`**: then the coin is credited properly after every call, and calls repeated change
  nothing;
* `not_credited`: a deposit fee above the refund fee, or a refund of nothing after a full one.
-/

namespace TalerExchange

open Sql Transition

/-! ## Definitions -/

/-- `exchange_do_refund` in its transaction. -/
def refundStep (db : Database) (a : RefundArgs) : Database := step db (.refund a)

/-- A deposit without refunds. -/
structure Database.FreshDeposit (db : Database) (d : CoinDeposit) : Prop where
  deposit : db.depositIn d.coinPub d.batchDepositSerialId = some d
  fresh : ∀ r ∈ db.refunds.rows, ¬ (r.coinPub = d.coinPub ∧
    r.batchDepositSerialId = d.batchDepositSerialId)

/-- The call is about the deposit, with the amounts and fees that the handler passes on. -/
structure Database.RefundsDeposit (db : Database) (d : CoinDeposit) (a : RefundArgs) : Prop where
  coin : a.coinPub = d.coinPub
  batch : (db.batchDeposits.lookup (a.depositShard, a.merchantPub, a.hContractTerms)).map
    (·.batchDepositSerialId) = some d.batchDepositSerialId
  args : CoinArgsOk db (.refund a)

/-- The refund is recorded. -/
def Database.refundRecorded (db : Database) (d : CoinDeposit) (a : RefundArgs) : Bool :=
  (db.refunds.lookup (d.batchDepositSerialId, d.coinPub, a.rtransactionId)).any
    (·.amountWithFee = a.amountWithFee)

/-- **The coin has been credited properly** since `db`. -/
structure Credited (db s : Database) (d : CoinDeposit) : Prop where
  fits : s.refundedIn d.coinPub d.batchDepositSerialId ≤ d.amountWithFee.units
  exact : s.remainingOf d.coinPub = db.remainingOf d.coinPub +
    (s.refundedIn d.coinPub d.batchDepositSerialId -
      db.figure (·.feeRefund) d.coinPub * s.refundsIn d.coinPub d.batchDepositSerialId +
      if s.fullyRefunded d then db.figure (·.feeDeposit) d.coinPub else 0)
  within : s.remainingOf d.coinPub ≤ db.remainingOf d.coinPub + d.amountWithFee.units

/-- A new refund that brings the refunds of a deposit that was not paid out yet to its amount does
not come with a deposit fee above the refund fees. -/
def RefundCovered (db : Database) (a : RefundArgs) : Prop :=
  ∀ b, db.batchDeposits.lookup (a.depositShard, a.merchantPub, a.hContractTerms) = some b →
    b.done = false →
    db.refunds.hasKey (b.batchDepositSerialId, a.coinPub, a.rtransactionId) = false →
    db.WaiverCovered a b.batchDepositSerialId

/-! ## One call -/

section Call

variable {db s : Database} {d : CoinDeposit} {a : RefundArgs}

/-- **What a call leaves**: nothing, or one more refund and the credit. -/
theorem refundStep_cases (db : Database) (a : RefundArgs) : refundStep db a = db ∨
    ∃ b d t h, db.batchDeposits.lookup (a.depositShard, a.merchantPub, a.hContractTerms) = some b ∧
      b.done = false ∧ db.knownCoins.hasKey a.coinPub = true ∧
      db.depositIn a.coinPub b.batchDepositSerialId = some d ∧
      db.refunds.insert? (a.row b.batchDepositSerialId) = some t ∧
      let s : Database := { db with refunds := t, coinHistory := h }
      let sum := (s.refundSums a.coinPub b.batchDepositSerialId).normalize
      refundFits sum d.amountWithFee = true ∧
        refundStep db a = s.creditCoin a.coinPub (a.credit sum d.amountWithFee) := by
  rcases step_eq db (.refund a) with h | h
  · exact Or.inl h
  · obtain ⟨out, h, hok⟩ := commitIf_eq_some.mp h
    unfold refundStep
    generalize step db (.refund a) = db' at h ⊢
    simp only [Bool.and_eq_true, Bool.not_eq_true'] at hok
    obtain ⟨⟨⟨hn, hc⟩, hg⟩, ho⟩ := hok
    unfold exchangeDoRefund at h
    split at h
    · cases h
      cases hn
    · next b hb =>
      split at h
      · cases h
        cases hn
      · next d hd =>
        split at h
        · split at h
          · split at h
            · cases h
              exact Or.inl rfl
            · cases h
              cases hc
          · cases h
            cases hc
        · next t ht =>
          simp only [bind_eq_ok, require_eq_ok, Database.addCoinHistory_eq_ok] at h
          obtain ⟨-, hk, _, ⟨ch, hch, -, rfl⟩, h⟩ := h
          split at h
          · cases pure_eq_ok.mp h
            cases hg
          · next hdone =>
            cases pure_eq_ok.mp h
            exact Or.inr ⟨b, d, t, ch, hb, by simpa using hdone, hk, hd, ht, ho, rfl⟩

/-- A call that repeats a recorded refund, or contradicts it, changes nothing. -/
theorem refundStep_of_recorded
    (hb : (db.batchDeposits.lookup (a.depositShard, a.merchantPub, a.hContractTerms)).map
      (·.batchDepositSerialId) = some d.batchDepositSerialId) (hc : a.coinPub = d.coinPub)
    (hr : db.refunds.hasKey (d.batchDepositSerialId, d.coinPub, a.rtransactionId) = true) :
    refundStep db a = db := by
  rcases refundStep_cases db a with h | ⟨b, -, t, -, hb', -, -, -, ht, -⟩
  · exact h
  · rw [hb', Option.map_some, Option.some.injEq] at hb
    have hnew := (Table.insert?_eq_some.mp ht).1
    rw [← hb, ← hc] at hr
    exact absurd (hr.symm.trans hnew) (by decide)

/-- What stays as it is while a deposit is refunded. -/
structure SameDeposit (db s : Database) (d : CoinDeposit) : Prop where
  batches : s.batchDeposits = db.batchDeposits
  deposits : s.coinDeposits = db.coinDeposits
  figure : ∀ f, s.figure f d.coinPub = db.figure f d.coinPub

theorem SameDeposit.refundStep (h : SameDeposit db s d) (a : RefundArgs) :
    SameDeposit db (refundStep s a) d := by
  rcases refundStep_cases s a with he | ⟨b, e, t, ch, -, -, -, -, -, -, he⟩
  · rwa [he]
  · rw [he]
    refine ⟨h.batches, h.deposits, fun f => ?_⟩
    rw [← h.figure f]
    unfold CoinTables.figure
    exact congrArg (fun x => Option.elim x 0 _) (denominationOf_setRemaining _ _ _ _)

end Call

/-! ## What is credited -/

section Credit

variable {db s : Database} {d : CoinDeposit} {a : RefundArgs}

theorem credited_fresh (hd : db.FreshDeposit d) : Credited db db d := by
  have hin : db.refundedIn d.coinPub d.batchDepositSerialId = 0 :=
    Table.total_eq_zero fun r hr => onlyIf_neg (hd.fresh r hr)
  have hn : db.refundsIn d.coinPub d.batchDepositSerialId = 0 :=
    Table.total_eq_zero fun r hr => onlyIf_neg (hd.fresh r hr)
  have hfull : db.fullyRefunded d = false := by
    by_contra h
    have := ((fullyRefunded_iff hd.deposit).mp (by simpa using h)).1
    omega
  have hamount := d.amountWithFee.units_nonneg
  refine ⟨by omega, ?_, by omega⟩
  rw [hin, hn, hfull, if_neg Bool.false_ne_true, mul_zero]
  omega

theorem SameDeposit.depositIn (hd : db.FreshDeposit d) (hs : SameDeposit db s d) :
    s.depositIn d.coinPub d.batchDepositSerialId = some d := by
  have h := hd.deposit
  unfold CoinTables.depositIn at h ⊢
  rwa [hs.deposits]

theorem Database.RefundsDeposit.amounts (ha : db.RefundsDeposit d a) :
    a.amount.units + db.figure (·.feeRefund) d.coinPub = a.amountWithFee.units ∧
      a.depositFee.units = db.figure (·.feeDeposit) d.coinPub :=
  ha.coin ▸ ha.args

/-- The figures of the deposit after one more refund. -/
structure OneMore (s s' : Database) (d : CoinDeposit) (a : RefundArgs) : Prop where
  refunded : s'.refundedIn d.coinPub d.batchDepositSerialId =
    s.refundedIn d.coinPub d.batchDepositSerialId + a.amountWithFee.units
  count : s'.refundsIn d.coinPub d.batchDepositSerialId =
    s.refundsIn d.coinPub d.batchDepositSerialId + 1
  fits : s'.refundedIn d.coinPub d.batchDepositSerialId ≤ d.amountWithFee.units
  full : s'.fullyRefunded d = true ↔
    s'.refundedIn d.coinPub d.batchDepositSerialId = d.amountWithFee.units
  remaining : s'.remainingOf d.coinPub = s.remainingOf d.coinPub + (a.amount.units +
    if s'.fullyRefunded d then a.depositFee.units else 0)

/-- **A call that succeeds with a new refund.** -/
theorem refundStep_new (hd : db.FreshDeposit d) (hs : SameDeposit db s d)
    (ha : db.RefundsDeposit d a) :
    refundStep s a = s ∨ OneMore s (refundStep s a) d a ∧
      ∃ b, s.batchDeposits.lookup (a.depositShard, a.merchantPub, a.hContractTerms) = some b ∧
        b.batchDepositSerialId = d.batchDepositSerialId ∧ b.done = false ∧
        s.refunds.hasKey (b.batchDepositSerialId, a.coinPub, a.rtransactionId) = false := by
  have hdep := hs.depositIn hd
  rcases refundStep_cases s a with h | ⟨b, e, t, ch, hb, hdone, hk, he, ht, hfit, hstep⟩
  · exact Or.inl h
  · refine Or.inr ⟨?_, b, hb, ?_, hdone, (Table.insert?_eq_some.mp ht).1⟩
    · have hbatch := ha.batch
      rw [← hs.batches, hb, Option.map_some, Option.some.injEq] at hbatch
      rw [hbatch, ha.coin] at he hstep
      rw [hbatch] at ht hfit
      rw [ha.coin] at hk hfit
      obtain rfl : d = e := Option.some.inj (hdep.symm.trans he)
      set s₁ : Database := { s with refunds := t, coinHistory := ch } with hs₁
      have hin := @refundsIn_insert? s.toCoinTables s₁.toCoinTables _ _ ht d.coinPub
        d.batchDepositSerialId
      simp only [ha.coin, and_self, if_true] at hin
      have hsum := units_refundSums s₁.toCoinTables d.coinPub d.batchDepositSerialId
      have hnorm := normal_refundSums s₁.toCoinTables d.coinPub d.batchDepositSerialId
      have hdnorm := d.amountWithFee.normal_toTaler
      have hsame := @refundsIn_of_eq s₁.toCoinTables
        (s₁.creditCoin d.coinPub (a.credit (s₁.refundSums d.coinPub
          d.batchDepositSerialId).normalize d.amountWithFee)).toCoinTables rfl d.coinPub
        d.batchDepositSerialId
      have hfull := @fullyRefunded_iff (TalerExchange.refundStep s a).toCoinTables d.coinPub
        d.batchDepositSerialId d (by rw [hstep]; exact hdep)
      have hle := (refundFits_iff hnorm hdnorm).mp hfit
      have hcount := refundsIn_nonneg s.toCoinTables d.coinPub d.batchDepositSerialId
      rw [hstep] at hfull ⊢
      rw [hsame.1, hsame.2] at hfull
      have hfull' : (s₁.creditCoin d.coinPub (a.credit (s₁.refundSums d.coinPub
          d.batchDepositSerialId).normalize d.amountWithFee)).fullyRefunded d = true ↔
          s₁.refundedIn d.coinPub d.batchDepositSerialId = d.amountWithFee.units := by
        rw [hfull]
        exact ⟨fun h => h.2, fun h => ⟨by omega, h⟩⟩
      refine ⟨hsame.1.trans hin.1, hsame.2.trans hin.2, ?_, ?_, ?_⟩
      · rw [hsame.1, ← hsum]
        exact hle
      · rw [hsame.1]
        exact hfull'
      · refine (@valueAt_credit s₁.toCoinTables _ hk _ d.coinPub).trans ?_
        rw [if_pos rfl, units_refund_credit a hnorm hdnorm, hsum, Amount.units_toTaler]
        simp only [hfull']
        rfl
    · have hbatch := ha.batch
      rw [← hs.batches, hb, Option.map_some, Option.some.injEq] at hbatch
      exact hbatch

theorem Credited.refundStep (hd : db.FreshDeposit d) (hs : SameDeposit db s d)
    (ha : db.RefundsDeposit d a) (hc : Credited db s d) (hok : RefundCovered s a) :
    Credited db (refundStep s a) d := by
  rcases refundStep_new hd hs ha with h | ⟨hone, b, hb, hbd, hdone, hnew⟩
  · rwa [h]
  · have hcov := hok b hb hdone hnew
    obtain ⟨hamount, hfee⟩ := ha.amounts
    unfold CoinTables.WaiverCovered at hcov
    rw [hbd, ha.coin, hs.figure, hs.figure] at hcov
    have hcov := hcov d (hs.depositIn hd)
    have hR := figure_nonneg db.toCoinTables (·.feeRefund) d.coinPub
    have hD := figure_nonneg db.toCoinTables (·.feeDeposit) d.coinPub
    have hin := hone.refunded
    have hcount := hone.count
    have hcount0 := refundsIn_nonneg s.toCoinTables d.coinPub d.batchDepositSerialId
    have hfits := hone.fits
    have hRn := mul_nonneg hR hcount0
    have hpaid := hone.remaining
    have hexact := hc.exact
    rw [hfee] at hpaid
    -- the deposit fee comes back once
    have honce : s.fullyRefunded d = true → db.figure (·.feeDeposit) d.coinPub = 0 := by
      intro hfull
      have hall := ((fullyRefunded_iff (hs.depositIn hd)).mp hfull).2
      have ha0 := a.amountWithFee.units_nonneg
      have hnet := a.amount.units_nonneg
      have hzero : db.figure (·.feeRefund) d.coinPub = 0 := by omega
      have hle := hcov (by omega)
      rw [hzero, zero_mul] at hle
      omega
    have hnew : (TalerExchange.refundStep s a).remainingOf d.coinPub = db.remainingOf d.coinPub +
        ((TalerExchange.refundStep s a).refundedIn d.coinPub d.batchDepositSerialId -
          db.figure (·.feeRefund) d.coinPub *
            (TalerExchange.refundStep s a).refundsIn d.coinPub d.batchDepositSerialId +
          if (TalerExchange.refundStep s a).fullyRefunded d then
            db.figure (·.feeDeposit) d.coinPub else 0) := by
      rw [hpaid, hexact, hin, hcount, mul_add, mul_one]
      by_cases hbefore : s.fullyRefunded d = true
      · rw [honce hbefore]
        simp only [ite_self]
        omega
      · rw [if_neg hbefore]
        omega
    refine ⟨hfits, hnew, ?_⟩
    rw [hnew]
    by_cases hfull : (TalerExchange.refundStep s a).fullyRefunded d = true
    · have hle := hcov (by rw [← hin]; exact hone.full.mp hfull)
      rw [if_pos hfull, hcount]
      omega
    · rw [if_neg hfull, hcount, mul_add, mul_one]
      omega

end Credit

/-! ## Runs -/

variable {db : Database} {d : CoinDeposit} {calls : List RefundArgs}

theorem run_sameDeposit (db : Database) (d : CoinDeposit) (calls : List RefundArgs) :
    SameDeposit db (run refundStep db calls) d :=
  run_invariant (I := fun s => SameDeposit db s d) (fun _ a _ hs => hs.refundStep a)
    (admits_true calls) ⟨rfl, rfl, fun _ => rfl⟩

/-- **Refunds credit a coin properly**: after any number of calls the refunds are within the deposit,
so is what the coin got back, with the deposit fee if and only if the refunds have reached the
deposit; and a refund that is recorded credits nothing when it is repeated. -/
theorem run_refunds (hd : db.FreshDeposit d) (hcalls : ∀ a ∈ calls, db.RefundsDeposit d a)
    (hok : Admits refundStep RefundCovered db calls) :
    Credited db (run refundStep db calls) d ∧
      ∀ a, db.RefundsDeposit d a → (run refundStep db calls).refundRecorded d a = true →
        refundStep (run refundStep db calls) a = run refundStep db calls := by
  constructor
  · have hboth : ∀ s, SameDeposit db s d → Credited db s d →
        Admits refundStep RefundCovered s calls → Credited db (run refundStep s calls) d := by
      clear hok
      induction calls with
      | nil => exact fun s _ hc _ => hc
      | cons a calls ih =>
        intro s hs hc hok
        refine ih (fun a' ha' => hcalls a' (List.mem_cons_of_mem _ ha')) _ (hs.refundStep a) ?_ hok.2
        exact hc.refundStep hd hs (hcalls a List.mem_cons_self) hok.1
    exact hboth db ⟨rfl, rfl, fun _ => rfl⟩ (credited_fresh hd) hok
  · intro a ha hrec
    have hs := run_sameDeposit db d calls
    refine refundStep_of_recorded (d := d) ?_ ha.coin ?_
    · rw [hs.batches]
      exact ha.batch
    · unfold Database.refundRecorded at hrec
      cases hl : (run refundStep db calls).refunds.lookup
          (d.batchDepositSerialId, d.coinPub, a.rtransactionId) with
      | none => simp [hl] at hrec
      | some r => exact Table.hasKey_of_lookup hl

/-! ## Sample runs -/

/-- The deposit of `refundOfFive`. -/
def depositOfFive : CoinDeposit := ⟨1, 1, 7, 1, .whole 5⟩

/-- A refund of this deposit. -/
def refundFromFive (rtransactionId : ℤ) (amountWithFee amount depositFee : Amount) : RefundArgs :=
  { amountWithFee := amountWithFee, amount := amount, depositFee := depositFee,
    hContractTerms := 3, rtransactionId := rtransactionId, depositShard := 0, coinPub := 7,
    merchantPub := 5, merchantSig := 1 }

/-- A coin of ten of which five were deposited. -/
def coinDeposited (feeDeposit feeRefund : Amount) : Database :=
  run step Database.empty (coinOfTen feeDeposit feeRefund ++
    (refundOfFive .zero .zero).take 1)

instance (db : Database) (d : CoinDeposit) (a : RefundArgs) : Decidable (db.RefundsDeposit d a) :=
  decidable_of_iff (a.coinPub = d.coinPub ∧
    (db.batchDeposits.lookup (a.depositShard, a.merchantPub, a.hContractTerms)).map
      (·.batchDepositSerialId) = some d.batchDepositSerialId ∧
    a.amount.units + db.figure (·.feeRefund) a.coinPub = a.amountWithFee.units ∧
      a.depositFee.units = db.figure (·.feeDeposit) a.coinPub)
    ⟨fun h => ⟨h.1, h.2.1, h.2.2⟩, fun h => ⟨h.coin, h.batch, h.args⟩⟩

instance (db : Database) (d : CoinDeposit) : Decidable (db.FreshDeposit d) :=
  decidable_of_iff (db.depositIn d.coinPub d.batchDepositSerialId = some d ∧
    ∀ r ∈ db.refunds.rows, ¬ (r.coinPub = d.coinPub ∧
      r.batchDepositSerialId = d.batchDepositSerialId))
    ⟨fun h => ⟨h.1, h.2⟩, fun h => ⟨h.deposit, h.fresh⟩⟩

/-- A refund in full and its repetition, with a deposit fee of one below the refund fee of two. -/
theorem run_refunds_full :
    let a := refundFromFive 1 (.whole 5) (.whole 3) (.whole 1)
    Credited (coinDeposited (.whole 1) (.whole 2))
      (run refundStep (coinDeposited (.whole 1) (.whole 2)) [a, a]) depositOfFive := by
  intro a
  refine (run_refunds (by decide +kernel) ?_ ?_).1
  · intro x hx
    simp only [List.mem_cons, List.not_mem_nil, or_false, or_self] at hx
    subst hx
    decide +kernel
  · refine ⟨fun b _ _ _ => waiverCovered_of_fees (by decide +kernel) _, fun b _ _ _ =>
      waiverCovered_of_fees (by decide +kernel) _, trivial⟩

/-- A deposit fee of two above a refund fee of one: a refund in full gives back six for five. -/
theorem not_credited :
    ¬ ∀ db d calls, db.FreshDeposit d → (∀ a ∈ calls, db.RefundsDeposit d a) →
      Credited db (run refundStep db calls) d := by
  intro h
  have hone := h (coinDeposited (.whole 2) (.whole 1)) depositOfFive
    [refundFromFive 1 (.whole 5) (.whole 4) (.whole 2)] (by decide +kernel) (by decide +kernel)
  exact absurd hone.within (by decide +kernel)

end TalerExchange
