import TalerExchange.Coin.Conservation
import TalerExchange.Coin.History

/-!
# What a coin has spent

`TALER_EXCHANGEDB_calculate_transaction_list_totals` computes from the transaction list of a coin
how much of it is spent. The list has a refund once for every deposit of the coin in the batch, the
fee of a refunded purse deposit is subtracted although the procedures do not keep it, and however
many deposit fees were waived, one is given back for any refund.

* `calculateTransactionListTotals`: the function, **`calculate_eq_some`**: when it succeeds;
* `HistoryAgrees`: the total is the value of the coin minus what is left of it;
* `HistoryFits`: the fees that were waived and kept are those that the function assumes;
* **`run_historyAgrees`**: in every state that a run reaches the first holds iff the second does.
-/

namespace TalerExchange

open Sql Transition

/-! ## The totals -/

/-- The variables of the loop. `depositFee` is not initialised before the first deposit. -/
structure ListTotals where
  spent : Amount
  refunded : Amount
  depositFee : Option Amount
  haveRefund : Bool
deriving DecidableEq, Repr

namespace ListTotals

variable (s : ListTotals)

def addSpent (a : Amount) : Option ListTotals :=
  (s.spent.add? a).map fun x => { s with spent := x }

def addRefunded (a : Amount) : Option ListTotals :=
  (s.refunded.add? a).map fun x => { s with refunded := x }

/-- One transaction. -/
def add : CoinTransaction → Option ListTotals
  | .deposit a fee => (s.addSpent a).map fun s => { s with depositFee := some fee }
  | .melt a _ => s.addSpent a
  | .refund a fee => do
    let s ← s.addRefunded a
    let s ← s.addSpent fee
    return { s with haveRefund := true }
  | .oldCoinRecoup v => s.addRefunded v
  | .recoup v => s.addSpent v
  | .recoupRefresh v => s.addSpent v
  | .purseDeposit a fee _ => (s.addSpent a).map fun s => { s with depositFee := some fee }
  | .purseRefund a fee => do
    let s ← s.addRefunded a
    let s ← s.addSpent fee
    return { s with haveRefund := true }
  | .reserveOpen v => s.addSpent v

/-- `if (have_refund)`: one deposit fee is given back. -/
def discount : Option Amount :=
  if s.haveRefund then s.depositFee.bind s.refunded.add? else some s.refunded

end ListTotals

/-- `TALER_EXCHANGEDB_calculate_transaction_list_totals`. -/
def calculateTransactionListTotals (tl : List CoinTransaction) (off : Amount) : Option Amount := do
  let s ← tl.foldlM ListTotals.add ⟨off, Amount.zero, none, false⟩
  let refunded ← s.discount
  s.spent.subtract? refunded

namespace CoinTransaction

/-- What a transaction adds to `spent`. -/
def spends : CoinTransaction → ℤ
  | .deposit a _ => a.units
  | .melt a _ => a.units
  | .refund _ fee => fee.units
  | .oldCoinRecoup _ => 0
  | .recoup v => v.units
  | .recoupRefresh v => v.units
  | .purseDeposit a _ _ => a.units
  | .purseRefund _ fee => fee.units
  | .reserveOpen v => v.units

/-- What a transaction adds to `refunded`. -/
def gives : CoinTransaction → ℤ
  | .refund a _ => a.units
  | .oldCoinRecoup v => v.units
  | .purseRefund a _ => a.units
  | _ => 0

/-- The deposit fee that a transaction reports. -/
def fee? : CoinTransaction → Option Amount
  | .deposit _ fee => some fee
  | .purseDeposit _ fee _ => some fee
  | _ => none

def isRefund : CoinTransaction → Bool
  | .refund .. => true
  | .purseRefund .. => true
  | _ => false

theorem spends_nonneg (t : CoinTransaction) : 0 ≤ t.spends := by
  cases t <;> first | exact le_rfl | exact Amount.units_nonneg _

theorem gives_nonneg (t : CoinTransaction) : 0 ≤ t.gives := by
  cases t <;> first | exact le_rfl | exact Amount.units_nonneg _

end CoinTransaction

section Totals

variable {s s' : ListTotals}

theorem addSpent_eq_some {a : Amount} : s.addSpent a = some s' ↔
    s'.spent.units = s.spent.units + a.units ∧ s'.refunded = s.refunded ∧
      s'.depositFee = s.depositFee ∧ s'.haveRefund = s.haveRefund := by
  unfold ListTotals.addSpent
  rw [Option.map_eq_some_iff]
  constructor
  · rintro ⟨x, hx, rfl⟩
    exact ⟨Amount.add?_eq_some.mp hx, rfl, rfl, rfl⟩
  · rintro ⟨h₁, h₂, h₃, h₄⟩
    refine ⟨s'.spent, Amount.add?_eq_some.mpr h₁, ?_⟩
    rw [← h₂, ← h₃, ← h₄]

theorem addRefunded_eq_some {a : Amount} : s.addRefunded a = some s' ↔
    s'.refunded.units = s.refunded.units + a.units ∧ s'.spent = s.spent ∧
      s'.depositFee = s.depositFee ∧ s'.haveRefund = s.haveRefund := by
  unfold ListTotals.addRefunded
  rw [Option.map_eq_some_iff]
  constructor
  · rintro ⟨x, hx, rfl⟩
    exact ⟨Amount.add?_eq_some.mp hx, rfl, rfl, rfl⟩
  · rintro ⟨h₁, h₂, h₃, h₄⟩
    refine ⟨s'.refunded, Amount.add?_eq_some.mpr h₁, ?_⟩
    rw [← h₂, ← h₃, ← h₄]

/-- What the loop does to the totals. -/
structure ListTotals.Adds (s : ListTotals) (spends gives : ℤ) (fee : Option Amount)
    (refund : Bool) (s' : ListTotals) : Prop where
  spent : s'.spent.units = s.spent.units + spends
  refunded : s'.refunded.units = s.refunded.units + gives
  depositFee : s'.depositFee = fee.or s.depositFee
  haveRefund : s'.haveRefund = (s.haveRefund || refund)

/-- **One transaction.** -/
theorem add_eq_some (t : CoinTransaction) :
    s.add t = some s' ↔ s.Adds t.spends t.gives t.fee? t.isRefund s' := by
  have single : ∀ a, s.addSpent a = some s' ↔ s.Adds a.units 0 none false s' := by
    intro a
    rw [addSpent_eq_some]
    exact ⟨fun ⟨h₁, h₂, h₃, h₄⟩ => ⟨h₁, by rw [h₂, add_zero], h₃, by rw [h₄, Bool.or_false]⟩,
      fun h => ⟨h.spent, Amount.ext_units (by rw [h.refunded, add_zero]), h.depositFee,
        by rw [h.haveRefund, Bool.or_false]⟩⟩
  have credit : ∀ a, s.addRefunded a = some s' ↔ s.Adds 0 a.units none false s' := by
    intro a
    rw [addRefunded_eq_some]
    exact ⟨fun ⟨h₁, h₂, h₃, h₄⟩ => ⟨by rw [h₂, add_zero], h₁, h₃, by rw [h₄, Bool.or_false]⟩,
      fun h => ⟨h.refunded, Amount.ext_units (by rw [h.spent, add_zero]), h.depositFee,
        by rw [h.haveRefund, Bool.or_false]⟩⟩
  have deposit : ∀ a fee, (s.addSpent a).map (fun s => { s with depositFee := some fee }) = some s' ↔
      s.Adds a.units 0 (some fee) false s' := by
    intro a fee
    rw [Option.map_eq_some_iff]
    constructor
    · rintro ⟨x, hx, rfl⟩
      obtain ⟨h₁, h₂, -, h₄⟩ := addSpent_eq_some.mp hx
      exact ⟨h₁, by rw [h₂, add_zero], rfl, by rw [h₄, Bool.or_false]⟩
    · intro h
      refine ⟨{ s' with depositFee := s.depositFee }, addSpent_eq_some.mpr ⟨h.spent,
        Amount.ext_units (by rw [h.refunded, add_zero]), rfl, by rw [h.haveRefund, Bool.or_false]⟩, ?_⟩
      rw [← show s'.depositFee = some fee from h.depositFee]
  have refund : ∀ a fee, ((s.addRefunded a).bind fun s => (s.addSpent fee).bind fun s =>
      some { s with haveRefund := true }) = some s' ↔ s.Adds fee.units a.units none true s' := by
    intro a fee
    simp only [Option.bind_eq_some_iff, Option.some.injEq]
    constructor
    · rintro ⟨x, hx, y, hy, rfl⟩
      obtain ⟨h₁, h₂, h₃, -⟩ := addRefunded_eq_some.mp hx
      obtain ⟨g₁, g₂, g₃, -⟩ := addSpent_eq_some.mp hy
      exact ⟨by rw [← h₂]; exact g₁, by rw [← h₁, ← g₂], by rw [← h₃]; exact g₃, (Bool.or_true _).symm⟩
    · intro h
      refine ⟨{ s with refunded := s'.refunded }, addRefunded_eq_some.mpr ⟨h.refunded, rfl, rfl, rfl⟩,
        { s' with haveRefund := s.haveRefund },
        addSpent_eq_some.mpr ⟨h.spent, rfl, h.depositFee, rfl⟩, ?_⟩
      rw [← show s'.haveRefund = true from h.haveRefund.trans (Bool.or_true _)]
  cases t with
  | deposit a fee => exact deposit a fee
  | purseDeposit a fee _ => exact deposit a fee
  | refund a fee => exact refund a fee
  | purseRefund a fee => exact refund a fee
  | oldCoinRecoup v => exact credit v
  | melt a _ => exact single a
  | recoup v => exact single v
  | recoupRefresh v => exact single v
  | reserveOpen v => exact single v

/-- The fee of the last deposit. -/
def lastFee (tl : List CoinTransaction) : Option Amount :=
  tl.foldl (fun f t => t.fee?.or f) none

theorem foldl_fee (tl : List CoinTransaction) (f : Option Amount) :
    tl.foldl (fun f t => t.fee?.or f) f = (lastFee tl).or f := by
  unfold lastFee
  induction tl generalizing f with
  | nil => rfl
  | cons t tl ih =>
    rw [List.foldl_cons, List.foldl_cons, ih, ih (t.fee?.or none), Option.or_assoc, Option.or_none]

theorem lastFee_cons (t : CoinTransaction) (tl : List CoinTransaction) :
    lastFee (t :: tl) = (lastFee tl).or t.fee? := by
  unfold lastFee
  rw [List.foldl_cons, foldl_fee, Option.or_none]
  rfl

/-- **The whole loop.** -/
theorem foldlM_add (tl : List CoinTransaction) : tl.foldlM ListTotals.add s = some s' ↔
    s.Adds (tl.map (·.spends)).sum (tl.map (·.gives)).sum (lastFee tl) (tl.any (·.isRefund)) s' := by
  induction tl generalizing s with
  | nil =>
    rw [List.foldlM_nil]
    constructor
    · rintro h
      cases h
      exact ⟨by simp, by simp, rfl, by simp⟩
    · rintro ⟨h₁, h₂, h₃, h₄⟩
      simp only [List.map_nil, List.sum_nil, add_zero, List.any_nil, Bool.or_false] at h₁ h₂ h₄
      refine congrArg some ?_
      cases s
      cases s'
      simp only at h₁ h₂ h₃ h₄
      rw [Amount.ext_units h₁, Amount.ext_units h₂, h₃, h₄]
      rfl
  | cons t tl ih =>
    have ht := t.spends_nonneg
    have hg := t.gives_nonneg
    have hS : 0 ≤ (tl.map (·.spends)).sum := List.sum_nonneg fun x hx => by
      obtain ⟨t, -, rfl⟩ := List.mem_map.mp hx
      exact t.spends_nonneg
    have hG : 0 ≤ (tl.map (·.gives)).sum := List.sum_nonneg fun x hx => by
      obtain ⟨t, -, rfl⟩ := List.mem_map.mp hx
      exact t.gives_nonneg
    rw [List.foldlM_cons, Option.bind_eq_bind, Option.bind_eq_some_iff, lastFee_cons]
    simp only [List.map_cons, List.sum_cons, List.any_cons, add_eq_some, ih]
    constructor
    · rintro ⟨m, h₁, h₂⟩
      exact ⟨by rw [h₂.spent, h₁.spent]; omega, by rw [h₂.refunded, h₁.refunded]; omega,
        by rw [h₂.depositFee, h₁.depositFee, Option.or_assoc],
        by rw [h₂.haveRefund, h₁.haveRefund, Bool.or_assoc]⟩
    · intro h
      -- the totals only grow, so those in between exist
      have hs := s'.spent.units_lt
      have hr := s'.refunded.units_lt
      have h₁ := h.spent
      have h₂ := h.refunded
      have h₃ := s.spent.units_nonneg
      have h₄ := s.refunded.units_nonneg
      obtain ⟨x, hx⟩ := Amount.exists_units (n := s.spent.units + t.spends) (by omega) (by omega)
      obtain ⟨y, hy⟩ := Amount.exists_units (n := s.refunded.units + t.gives) (by omega) (by omega)
      refine ⟨⟨x, y, t.fee?.or s.depositFee, s.haveRefund || t.isRefund⟩, ⟨hx, hy, rfl, rfl⟩,
        ⟨by simp only; omega, by simp only; omega, ?_, ?_⟩⟩
      · rw [h.depositFee, Option.or_assoc]
      · rw [h.haveRefund, Bool.or_assoc]

/-- **When the totals can be computed, and what comes out**, if all deposits report one fee. -/
theorem calculate_eq_some {tl : List CoinTransaction} {off fee x : Amount}
    (hfee : tl.any (·.isRefund) = true → lastFee tl = some fee) :
    calculateTransactionListTotals tl off = some x ↔
      off.units + (tl.map (·.spends)).sum < Amount.unitsBound ∧
      (tl.map (·.gives)).sum + (if tl.any (·.isRefund) then fee.units else 0) < Amount.unitsBound ∧
      x.units = off.units + (tl.map (·.spends)).sum -
        ((tl.map (·.gives)).sum + if tl.any (·.isRefund) then fee.units else 0) := by
  have hS : 0 ≤ (tl.map (·.spends)).sum := List.sum_nonneg fun x hx => by
    obtain ⟨t, -, rfl⟩ := List.mem_map.mp hx
    exact t.spends_nonneg
  have hG : 0 ≤ (tl.map (·.gives)).sum := List.sum_nonneg fun x hx => by
    obtain ⟨t, -, rfl⟩ := List.mem_map.mp hx
    exact t.gives_nonneg
  have hD := fee.units_nonneg
  have hO := off.units_nonneg
  have disc : ∀ {s : ListTotals} {r : Amount}, s.haveRefund = tl.any (·.isRefund) →
      s.depositFee = lastFee tl → (s.discount = some r ↔
        r.units = s.refunded.units + if tl.any (·.isRefund) then fee.units else 0) := by
    intro s r h₁ h₂
    unfold ListTotals.discount
    rw [h₁]
    split_ifs with h
    · rw [h₂, hfee h, Option.bind_some, Amount.add?_eq_some]
    · rw [add_zero, Option.some.injEq]
      exact ⟨fun e => by rw [e], fun e => (Amount.ext_units e).symm⟩
  unfold calculateTransactionListTotals
  simp only [Option.bind_eq_bind, Option.bind_eq_some_iff, foldlM_add]
  constructor
  · rintro ⟨s, hs, r, hr, hx⟩
    have h₁ : s.spent.units = off.units + (tl.map (·.spends)).sum := hs.spent
    have h₂ : s.refunded.units = (tl.map (·.gives)).sum :=
      hs.refunded.trans (by rw [show Amount.zero.units = 0 from rfl, zero_add])
    rw [disc (hs.haveRefund.trans (Bool.false_or _)) (hs.depositFee.trans (Option.or_none)), h₂] at hr
    rw [Amount.subtract?_eq_some, h₁, hr] at hx
    exact ⟨h₁ ▸ s.spent.units_lt, hr ▸ r.units_lt, hx⟩
  · rintro ⟨hlt, hlt', hx⟩
    have hfee0 : 0 ≤ if tl.any (·.isRefund) = true then fee.units else 0 := by
      split_ifs <;> omega
    obtain ⟨a, ha⟩ := Amount.exists_units (n := off.units + (tl.map (·.spends)).sum) (by omega) hlt
    obtain ⟨b, hb⟩ := Amount.exists_units hG (by omega)
    obtain ⟨r, hr⟩ := Amount.exists_units (add_nonneg hG hfee0) hlt'
    refine ⟨⟨a, b, lastFee tl, tl.any (·.isRefund)⟩, ⟨ha, ?_, Option.or_none.symm, (Bool.false_or _).symm⟩,
      r, (disc rfl rfl).mpr ?_, ?_⟩
    · exact hb.trans (by rw [show Amount.zero.units = 0 from rfl, zero_add])
    · rw [hr, hb]
    · rw [Amount.subtract?_eq_some, hx, ha, hr]

end Totals

/-! ## The totals of a coin's list -/

namespace CoinTables

variable (db : CoinTables)

/-- The refunds in the list of a coin: each once for every deposit of the coin in the batch. -/
def listedRefunds (c : CoinPub) : ℤ :=
  db.refunds.total (onlyIf (fun r => r.coinPub = c) fun r =>
    (db.depositsIn c r.batchDepositSerialId).length)

/-- What they add up to. -/
def listedRefunded (c : CoinPub) : ℤ :=
  db.refunds.total (onlyIf (fun r => r.coinPub = c) fun r =>
    (db.depositsIn c r.batchDepositSerialId).length * r.amountWithFee.units)

/-- The refunded purse deposits in the list. -/
def purseRefunds (c : CoinPub) : ℤ :=
  db.coinHistory.total (onlyIf (fun h => isEntry c .purseDecision h = true) fun _ => 1)

end CoinTables

/-- `1` for a transaction with property `p`. -/
def indicator (p : CoinTransaction → Bool) (t : CoinTransaction) : ℤ := if p t then 1 else 0

section Sums

variable {db : Database} {c : CoinPub} {den : Denomination}

theorem sum_indicator_nonneg (p : CoinTransaction → Bool) (tl : List CoinTransaction) :
    0 ≤ (tl.map (indicator p)).sum := by
  refine List.sum_nonneg fun x hx => ?_
  obtain ⟨t, -, rfl⟩ := List.mem_map.mp hx
  unfold indicator
  split_ifs <;> omega

theorem any_iff_sum (p : CoinTransaction → Bool) (tl : List CoinTransaction) :
    tl.any p = true ↔ 0 < (tl.map (indicator p)).sum := by
  induction tl with
  | nil => simp
  | cons t tl ih =>
    have h := sum_indicator_nonneg p tl
    rw [List.any_cons, Bool.or_eq_true, ih, List.map_cons, List.sum_cons]
    by_cases hp : p t = true
    · have h1 : indicator p t = 1 := if_pos hp
      exact iff_of_true (Or.inl hp) (by omega)
    · have h0 : indicator p t = 0 := if_neg hp
      rw [or_iff_right hp, h0, zero_add]

/-- If all deposits report one fee, it is the last. -/
theorem lastFee_eq {tl : List CoinTransaction} {fee : Amount}
    (hall : ∀ t ∈ tl, t.fee? = none ∨ t.fee? = some fee) (hex : ∃ t ∈ tl, t.fee?.isSome = true) :
    lastFee tl = some fee := by
  induction tl with
  | nil =>
    obtain ⟨t, ht, -⟩ := hex
    cases ht
  | cons t tl ih =>
    rw [lastFee_cons]
    by_cases h : ∃ t ∈ tl, t.fee?.isSome = true
    · rw [ih (fun t ht => hall t (List.mem_cons_of_mem _ ht)) h]
      rfl
    · have hnone : lastFee tl = none := by
        have hno : ∀ t ∈ tl, t.fee? = none := fun t ht => by
          by_contra hf
          exact h ⟨t, ht, Option.isSome_iff_ne_none.mpr hf⟩
        clear ih hall hex h
        induction tl with
        | nil => rfl
        | cons t tl ih =>
          rw [lastFee_cons, hno t (by simp), ih fun t ht => hno t (by simp [ht])]
          rfl
      obtain ⟨t', ht', hs⟩ := hex
      rcases List.mem_cons.mp ht' with rfl | ht'
      · rw [hnone, (hall t' (by simp)).resolve_left (Option.isSome_iff_ne_none.mp hs)]
        rfl
      · exact absurd ⟨t', ht', hs⟩ h

/-! ### What the records add up to -/

theorem recordSum_spends (h : db.Readable c den) (hk : KnownRows db.toCoinTables) :
    db.recordSum c den (fun x => x.elim 0 CoinTransaction.spends) =
      db.debits c + den.feeRefund.units * (db.listedRefunds c + db.purseRefunds c) := by
  have hrecoup : db.recoup.total (onlyIf (fun r => r.coinPub = c)
      fun r => (storedValue r.amount).units) = db.recouped c :=
    Table.total_onlyIf_congr fun r hr hc => (read₁ (h.recoup r hr hc)).2
  have hfresh : db.recoupRefresh.total (onlyIf (fun r => r.coinPub = c)
      fun r => (storedValue r.amount).units) = db.recoupedFresh c :=
    Table.total_onlyIf_congr fun r hr hc => (read₁ (h.recoupRefresh r hr hc)).2
  have hrefund : db.refunds.total (onlyIf (fun r => r.coinPub = c) fun r =>
      (db.depositsIn c r.batchDepositSerialId).length * den.feeRefund.units) =
      den.feeRefund.units * db.listedRefunds c := by
    rw [CoinTables.listedRefunds, ← Table.total_mul]
    refine Table.total_congr fun r _ => ?_
    unfold onlyIf
    split_ifs <;> ring
  have hdecision : db.coinHistory.total (onlyIf
      (fun h => CoinTables.isEntry c .purseDecision h = true)
      fun h => (db.decisionDeposit h.serialId c).elim 0 fun _ => den.feeRefund.units) =
      den.feeRefund.units * db.purseRefunds c := by
    rw [CoinTables.purseRefunds, ← Table.total_mul]
    refine Table.total_congr fun e he => ?_
    simp only [onlyIf]
    split_ifs with hc
    · obtain ⟨d, hd⟩ := exists_decisionDeposit hk he hc
      rw [hd, Option.elim_some, mul_one]
    · rw [mul_zero]
  rw [h.recordSum]
  simp only [CoinTransaction.spends, CoinTables.debits, hrecoup, hfresh, hrefund, hdecision, mul_add,
    Table.total_onlyIf_zero]
  simp only [CoinTables.deposited, CoinTables.melted, CoinTables.pursed, CoinTables.opened]
  omega

theorem recordSum_gives (h : db.Readable c den) :
    db.recordSum c den (fun x => x.elim 0 CoinTransaction.gives) =
      db.listedRefunded c + db.purseRefunded c + db.recoupedOld c := by
  have hold : db.recoupRefresh.total (onlyIf (fun r => db.oldCoinOf r.rrcSerial = some c)
      fun r => (storedValue r.amount).units) = db.recoupedOld c :=
    Table.total_onlyIf_congr fun r hr hc => (read₁ (h.oldCoinRecoup r hr hc)).2
  have hdecision : db.coinHistory.total (onlyIf
      (fun h => CoinTables.isEntry c .purseDecision h = true)
      fun h => (db.decisionDeposit h.serialId c).elim 0 fun d => d.amountWithFee.units) =
      db.purseRefunded c := by
    refine Table.total_onlyIf_congr fun e he hc => ?_
    simp only [CoinTables.isEntry, decide_eq_true_eq] at hc
    rw [CoinTables.entryAmount, hc.1]
  rw [h.recordSum]
  simp only [CoinTransaction.gives, hold, hdecision, Table.total_onlyIf_zero, CoinTables.listedRefunded]
  omega

theorem recordSum_refunds (h : db.Readable c den) (hk : KnownRows db.toCoinTables) :
    db.recordSum c den (fun x => x.elim 0 (indicator (·.isRefund))) =
      db.listedRefunds c + db.purseRefunds c := by
  have hdecision : db.coinHistory.total (onlyIf
      (fun h => CoinTables.isEntry c .purseDecision h = true)
      fun h => (db.decisionDeposit h.serialId c).elim 0 fun _ => 1) = db.purseRefunds c := by
    refine Table.total_onlyIf_congr fun e he hc => ?_
    obtain ⟨d, hd⟩ := exists_decisionDeposit hk he hc
    rw [hd, Option.elim_some]
  rw [h.recordSum]
  simp [indicator, CoinTransaction.isRefund, hdecision, CoinTables.listedRefunds]
  omega

/-- No deposit in the list reports another fee than that of the denomination. -/
theorem recordSum_otherFees (h : db.Readable c den) :
    db.recordSum c den (fun x => x.elim 0 (indicator fun t => t.fee?.any (· ≠ den.feeDeposit))) = 0 := by
  have hdecision : db.coinHistory.total (onlyIf
      (fun h => CoinTables.isEntry c .purseDecision h = true)
      fun h => (db.decisionDeposit h.serialId c).elim 0 fun _ => 0) = 0 := by
    refine Table.total_eq_zero fun e _ => ?_
    simp only [onlyIf]
    cases db.decisionDeposit e.serialId c <;> simp
  rw [h.recordSum]
  simp [indicator, CoinTransaction.fee?, hdecision]

theorem recordSum_deposits (h : db.Readable c den) :
    db.recordSum c den (fun x => x.elim 0 (indicator (·.fee?.isSome))) =
      db.coinDeposits.total (onlyIf (fun d => d.coinPub = c) fun _ => 1) +
        db.purseDeposits.total (onlyIf (fun d => d.coinPub = c) fun _ => 1) := by
  have hdecision : db.coinHistory.total (onlyIf
      (fun h => CoinTables.isEntry c .purseDecision h = true)
      fun h => (db.decisionDeposit h.serialId c).elim 0 fun _ => 0) = 0 := by
    refine Table.total_eq_zero fun e _ => ?_
    simp only [onlyIf]
    cases db.decisionDeposit e.serialId c <;> simp
  rw [h.recordSum]
  simp [indicator, CoinTransaction.fee?, hdecision]

/-- The records of a list. -/
theorem sum_list (hr : HistoryRows db) (hd : DepositRows (fun _ _ _ _ => True) db)
    (hden : db.denominationOf c = some den) {tl : List CoinTransaction}
    (htl : db.transactionRows c = tl.map some) (g : CoinTransaction → ℤ) :
    (tl.map g).sum = db.recordSum c den fun x => x.elim 0 g := by
  rw [← rowSum_transactionRows hr hd hden, htl, rowSum, List.map_map]
  rfl

/-- A refund in the list comes with a deposit, and all deposits report the fee of the
denomination. -/
theorem lastFee_of_refund (hr : HistoryRows db) (hd : DepositRows (fun _ _ _ _ => True) db)
    (hden : db.denominationOf c = some den) {tl : List CoinTransaction}
    (htl : db.transactionRows c = tl.map some) (hread : db.Readable c den)
    (h : tl.any (·.isRefund) = true) : lastFee tl = some den.feeDeposit := by
  have hsum := sum_list hr hd hden htl
  refine lastFee_eq (fun t ht => ?_) ?_
  · by_contra hbad
    rw [not_or] at hbad
    obtain ⟨fee, hfee⟩ := Option.ne_none_iff_exists'.mp hbad.1
    have hpos := (any_iff_sum (fun t => t.fee?.any (· ≠ den.feeDeposit)) tl).mp
      (List.any_eq_true.mpr ⟨t, ht, by simpa [hfee] using hbad.2⟩)
    rw [hsum, recordSum_otherFees hread] at hpos
    omega
  · rw [← List.any_eq_true, any_iff_sum, hsum, recordSum_deposits hread]
    rw [any_iff_sum, hsum, recordSum_refunds hread hr.toKnownRows] at h
    have hdep : 0 ≤ db.coinDeposits.total (onlyIf (fun d => d.coinPub = c) fun _ => 1) :=
      Table.total_onlyIf_nonneg fun _ _ => zero_le_one
    have hpur : 0 ≤ db.purseDeposits.total (onlyIf (fun d => d.coinPub = c) fun _ => 1) :=
      Table.total_onlyIf_nonneg fun _ _ => zero_le_one
    by_contra hno
    -- without deposits there is nothing to refund
    have hnone : ∀ d ∈ db.coinDeposits.rows, d.coinPub ≠ c := fun d hm hc => by
      have := (Table.total_onlyIf_eq_zero (fun _ _ => zero_le_one)).mp
        (show db.coinDeposits.total (onlyIf (fun d => d.coinPub = c) fun _ => 1) = 0 by omega) d hm hc
      omega
    have hnone' : ∀ d ∈ db.purseDeposits.rows, d.coinPub ≠ c := fun d hm hc => by
      have := (Table.total_onlyIf_eq_zero (fun _ _ => zero_le_one)).mp
        (show db.purseDeposits.total (onlyIf (fun d => d.coinPub = c) fun _ => 1) = 0 by omega) d hm hc
      omega
    have h₁ : db.listedRefunds c = 0 := Table.total_eq_zero fun r hm => onlyIf_neg fun hc => by
      obtain ⟨-, d, hdep⟩ := hr.refund r hm
      have hfound := List.find?_some hdep
      simp only [decide_eq_true_eq] at hfound
      exact hnone d (List.mem_of_find?_eq_some hdep) (hfound.1.trans hc)
    have h₂ : db.purseRefunds c = 0 := Table.total_eq_zero fun e hm => onlyIf_neg fun hc => by
      obtain ⟨d, hdep⟩ := exists_decisionDeposit hr.toKnownRows hm hc
      obtain ⟨q, -, hq⟩ := Option.bind_eq_some_iff.mp hdep
      exact hnone' d (Table.mem_of_lookup hq) (Prod.mk.inj (Table.key_of_lookup hq)).2
    omega

end Sums

/-! ## Agreement -/

/-- The deposit fee that any refund gives back. -/
def CoinTables.oneFee (db : CoinTables) (c : CoinPub) (den : Denomination) : ℤ :=
  if 0 < db.refundCount c + db.purseRefunds c then den.feeDeposit.units else 0

/-- What refunds count for beyond the first deposit of the coin in their batch. -/
def CoinTables.repeatedRefunds (db : CoinTables) (c : CoinPub) (den : Denomination) : ℤ :=
  db.refunds.total (onlyIf (fun r => r.coinPub = c) fun r =>
    ((db.depositsIn c r.batchDepositSerialId).length - 1) *
      (r.amountWithFee.units - den.feeRefund.units))

/-- **The history agrees with the balance**: the total that is computed from the list is the value
of the coin minus what is left of it. -/
def Database.HistoryAgrees (db : Database) (kc : KnownCoin) : Prop :=
  ∃ tl spent, db.getCoinTransactions kc.coinPub = some tl ∧
    calculateTransactionListTotals tl Amount.zero = some spent ∧
    spent.units = db.figure (·.coin) kc.coinPub - kc.remaining.units

/-- When it does: all amounts can be read and added up, and the deposit fees that were waived for
refunds in full, with a refund fee for each refunded purse deposit, come to one deposit fee if there
was any refund, and what refunds in batches with several deposits of the coin count twice. -/
structure Database.HistoryFits (db : Database) (kc : KnownCoin) (den : Denomination) : Prop where
  balance : db.coinEntries kc.coinPub = [] ∨ (Amount.ofTaler? kc.remaining).isSome = true
  readable : db.Readable kc.coinPub den
  spent : db.debits kc.coinPub + den.feeRefund.units *
    (db.listedRefunds kc.coinPub + db.purseRefunds kc.coinPub) < Amount.unitsBound
  refunded : db.listedRefunded kc.coinPub + db.purseRefunded kc.coinPub +
    db.recoupedOld kc.coinPub + db.oneFee kc.coinPub den < Amount.unitsBound
  le_value : kc.remaining.units ≤ den.coin.units
  fees : den.feeDeposit.units * db.waivers kc.coinPub +
      den.feeRefund.units * db.purseRefunds kc.coinPub =
    db.oneFee kc.coinPub den + db.repeatedRefunds kc.coinPub den

section Agreement

variable {db : Database} {c : CoinPub} {den : Denomination}

theorem repeatedRefunds_eq : db.repeatedRefunds c den =
    (db.listedRefunded c - db.refunded c) -
      den.feeRefund.units * (db.listedRefunds c - db.refundCount c) := by
  unfold CoinTables.repeatedRefunds CoinTables.listedRefunded CoinTables.refunded
    CoinTables.listedRefunds CoinTables.refundCount
  rw [← Table.total_sub, ← Table.total_sub, ← Table.total_mul, ← Table.total_sub]
  refine Table.total_congr fun r _ => ?_
  simp only [onlyIf]
  split_ifs <;> ring

theorem listedRefunds_pos (hk : KnownRows db.toCoinTables) :
    0 < db.listedRefunds c + db.purseRefunds c ↔ 0 < db.refundCount c + db.purseRefunds c := by
  have hle : db.refundCount c ≤ db.listedRefunds c := by
    refine Table.total_mono fun r hr => ?_
    simp only [onlyIf]
    split_ifs with hc
    · have := depositsIn_pos hk hr
      rw [hc] at this
      omega
    · exact le_rfl
  have hzero : db.refundCount c = 0 → db.listedRefunds c = 0 := by
    intro h
    refine Table.total_eq_zero fun r hr => onlyIf_neg fun hc => ?_
    have := (Table.total_onlyIf_eq_zero fun _ _ => zero_le_one).mp h r hr hc
    omega
  have h₀ : 0 ≤ db.refundCount c := Table.total_onlyIf_nonneg fun _ _ => zero_le_one
  have h₁ : 0 ≤ db.purseRefunds c := Table.total_onlyIf_nonneg fun _ _ => zero_le_one
  omega

/-- What the totals come to, by the ledger. -/
theorem totals_sub_value (hl : CoinLedger db.toCoinTables) {kc : KnownCoin}
    (hkc : db.knownCoins.lookup c = some kc) (hden : db.denominationOf c = some den) :
    db.debits c + den.feeRefund.units * (db.listedRefunds c + db.purseRefunds c) -
        (db.listedRefunded c + db.purseRefunded c + db.recoupedOld c + db.oneFee c den) -
        (den.coin.units - kc.remaining.units) =
      den.feeDeposit.units * db.waivers c + den.feeRefund.units * db.purseRefunds c -
        (db.oneFee c den + db.repeatedRefunds c den) := by
  have hb := hl c
  have hrem : db.remainingOf c = kc.remaining.units := Table.valueAt_of_lookup hkc
  rw [hrem, CoinTables.bookValue, CoinTables.credits, figure_of_lookup hden, figure_of_lookup hden,
    figure_of_lookup hden] at hb
  rw [repeatedRefunds_eq, hb]
  ring

/-- **The history of a coin agrees with its balance iff the fees do.** -/
theorem historyAgrees_iff (hr : HistoryRows db) (hd : DepositRows (fun _ _ _ _ => True) db)
    {kc : KnownCoin} (hkc : kc ∈ db.knownCoins.rows)
    (hden : db.denominationOf kc.coinPub = some den) :
    db.HistoryAgrees kc ↔ db.HistoryFits kc den := by
  have hlook : db.knownCoins.lookup kc.coinPub = some kc := Table.lookup_eq_some.mpr ⟨hkc, rfl⟩
  have hcoin : db.figure (·.coin) kc.coinPub = den.coin.units := figure_of_lookup hden
  have htot := totals_sub_value hr.ledger hlook hden
  have hread : (∃ tl : List CoinTransaction, db.transactionRows kc.coinPub = tl.map some) ↔
      db.Readable kc.coinPub den := by
    rw [exists_list_iff, rowSum_transactionRows hr hd hden, recordSum_unreadable hr.toKnownRows]
  have hcalc : ∀ {tl : List CoinTransaction} {x : Amount},
      db.transactionRows kc.coinPub = tl.map some → db.Readable kc.coinPub den →
      (calculateTransactionListTotals tl Amount.zero = some x ↔
        db.debits kc.coinPub + den.feeRefund.units *
          (db.listedRefunds kc.coinPub + db.purseRefunds kc.coinPub) < Amount.unitsBound ∧
        db.listedRefunded kc.coinPub + db.purseRefunded kc.coinPub + db.recoupedOld kc.coinPub +
          db.oneFee kc.coinPub den < Amount.unitsBound ∧
        x.units = db.debits kc.coinPub + den.feeRefund.units *
            (db.listedRefunds kc.coinPub + db.purseRefunds kc.coinPub) -
          (db.listedRefunded kc.coinPub + db.purseRefunded kc.coinPub + db.recoupedOld kc.coinPub +
            db.oneFee kc.coinPub den)) := by
    intro tl x htl hre
    have hfee : (if tl.any (·.isRefund) then den.feeDeposit.units else 0) = db.oneFee kc.coinPub den := by
      unfold CoinTables.oneFee
      refine if_congr ?_ rfl rfl
      rw [any_iff_sum, sum_list hr hd hden htl, recordSum_refunds hre hr.toKnownRows,
        listedRefunds_pos hr.toKnownRows]
    rw [calculate_eq_some (lastFee_of_refund hr hd hden htl hre), sum_list hr hd hden htl,
      sum_list hr hd hden htl, recordSum_spends hre hr.toKnownRows, recordSum_gives hre, hfee,
      show Amount.zero.units = 0 from rfl, zero_add]
  constructor
  · rintro ⟨tl, x, hget, hx, hval⟩
    obtain ⟨hbal, htl⟩ := (getCoinTransactions_eq_some hlook hden).mp hget
    have hre := hread.mp ⟨tl, htl⟩
    obtain ⟨h₁, h₂, h₃⟩ := (hcalc htl hre).mp hx
    have h0 := x.units_nonneg
    rw [hcoin] at hval
    exact ⟨hbal, hre, h₁, h₂, by omega, by omega⟩
  · rintro ⟨hbal, hre, h₁, h₂, h₃, h₄⟩
    obtain ⟨tl, htl⟩ := hread.mpr hre
    have hlt := den.coin.units_lt
    have h0 := (hr.sound kc hkc).2
    obtain ⟨x, hx⟩ := Amount.exists_units (n := den.coin.units - kc.remaining.units) (by omega) (by omega)
    refine ⟨tl, x, (getCoinTransactions_eq_some hlook hden).mpr ⟨hbal, htl⟩,
      (hcalc htl hre).mpr ⟨h₁, h₂, by omega⟩, hx.trans ?_⟩
    rw [hcoin]

end Agreement

/-- **The server's view of a coin.** In every state that a run reaches, the history of a coin agrees
with its balance exactly if the fees that were waived and kept are those that the totals assume. -/
theorem run_historyAgrees {ops : List Op} (h : Admits step HistoryCallerOk Database.empty ops)
    {kc : KnownCoin} (hkc : kc ∈ (run step Database.empty ops).knownCoins.rows) :
    ∃ den, (run step Database.empty ops).denominationOf kc.coinPub = some den ∧
      ((run step Database.empty ops).HistoryAgrees kc ↔
        (run step Database.empty ops).HistoryFits kc den) := by
  obtain ⟨hr, hd⟩ := run_history h
  obtain ⟨den, hden⟩ := hr.denomination kc.coinPub (Table.hasKey_iff.mpr ⟨kc, hkc, rfl⟩)
  exact ⟨den, hden, historyAgrees_iff hr hd hkc hden⟩

theorem properRefund_agrees :
    (run step Database.empty properRefund).HistoryAgrees ⟨1, 1, 7, 9, 0⟩ ∧
      ∃ den, (run step Database.empty properRefund).HistoryFits ⟨1, 1, 7, 9, 0⟩ den := by
  have hok : Admits step HistoryCallerOk Database.empty properRefund :=
    ⟨trivial, trivial, trivial, ⟨by decide +kernel, by decide +kernel⟩, trivial⟩
  have hagree : (run step Database.empty properRefund).HistoryAgrees ⟨1, 1, 7, 9, 0⟩ :=
    ⟨[.deposit (.whole 5) (.whole 1), .refund (.whole 5) (.whole 2)], .whole 1, by decide +kernel,
      by decide +kernel, by decide +kernel⟩
  have hcoin : (⟨1, 1, 7, 9, 0⟩ : KnownCoin) ∈
      (run step Database.empty properRefund).knownCoins.rows := by decide +kernel
  obtain ⟨den, -, hiff⟩ := run_historyAgrees hok hcoin
  exact ⟨hagree, den, hiff.mp hagree⟩

/-- A deposit of five with a fee of one, of which two are refunded. -/
def partialRefund : List Op :=
  coinOfTen (.whole 1) .zero ++
  [.deposit { shard := 0, merchantPub := 5, merchantSig := none, walletTimestamp := 0,
              exchangeTimestamp := 0, refundDeadline := 10, wireDeadline := 20, hContractTerms := 3,
              walletDataHash := none, wireSalt := 0, wireTargetHPayto := 4, hNormalizedPayto := 4,
              policyDetailsSerialId := none, policyBlocked := false, receiverWireAccount := "",
              coins := [⟨7, 1, .whole 5⟩] },
   .refund { amountWithFee := .whole 2, amount := .whole 2, depositFee := .whole 1,
             hContractTerms := 3, rtransactionId := 1, depositShard := 0, coinPub := 7,
             merchantPub := 5, merchantSig := 1 }]

/-- A deposit into a purse that expires, with a refund fee of one. -/
def lapsedPurse : List Op :=
  coinOfTen .zero (.whole 1) ++
  [.createPurse { pursePub := 8, mergePub := 9, now := 0, purseExpiration := 5, hContractTerms := 3,
                  ageLimit := 0, flags := 0, inReserveQuota := false, purseFee := .zero,
                  amount := .whole 5, purseSig := 1 }
     [{ partnerId := none, pursePub := 8, amountWithFee := .whole 5, coinPub := 7, coinSig := 1,
        amountWithoutFee := .whole 5, reserveExpiration := 20, now := 1 }],
   .expirePurse ⟨0, 10, 10⟩]

/-- After a refund in part the totals miss a fee, after a refunded purse deposit they have one too
many. -/
theorem not_historyAgrees :
    (Admits step HistoryCallerOk Database.empty partialRefund ∧
      (⟨1, 1, 7, 7, 0⟩ : KnownCoin) ∈ (run step Database.empty partialRefund).knownCoins.rows ∧
      ¬ (run step Database.empty partialRefund).HistoryAgrees ⟨1, 1, 7, 7, 0⟩) ∧
    Admits step HistoryCallerOk Database.empty lapsedPurse ∧
      (⟨1, 1, 7, 10, 0⟩ : KnownCoin) ∈ (run step Database.empty lapsedPurse).knownCoins.rows ∧
      ¬ (run step Database.empty lapsedPurse).HistoryAgrees ⟨1, 1, 7, 10, 0⟩ := by
  refine ⟨⟨⟨trivial, trivial, trivial, ⟨by decide +kernel, by decide +kernel⟩, trivial⟩,
    by decide +kernel, ?_⟩, ⟨trivial, trivial, trivial, trivial, trivial⟩, by decide +kernel, ?_⟩
  · rintro ⟨tl, x, htl, hx, hval⟩
    have e : (run step Database.empty partialRefund).getCoinTransactions 7 =
        some [.deposit (.whole 5) (.whole 1), .refund (.whole 2) .zero] := by decide +kernel
    cases htl.symm.trans e
    have ex : calculateTransactionListTotals
        [.deposit (.whole 5) (.whole 1), .refund (.whole 2) .zero] Amount.zero = some (.whole 2) := by
      decide +kernel
    cases hx.symm.trans ex
    exact absurd hval (by decide +kernel)
  · rintro ⟨tl, x, htl, hx, hval⟩
    have e : (run step Database.empty lapsedPurse).getCoinTransactions 7 =
        some [.purseDeposit (.whole 5) .zero true, .purseRefund (.whole 5) (.whole 1)] := by
      decide +kernel
    cases htl.symm.trans e
    have ex : calculateTransactionListTotals
        [.purseDeposit (.whole 5) .zero true, .purseRefund (.whole 5) (.whole 1)] Amount.zero =
          some (.whole 1) := by
      decide +kernel
    cases hx.symm.trans ex
    exact absurd hval (by decide +kernel)

end TalerExchange
