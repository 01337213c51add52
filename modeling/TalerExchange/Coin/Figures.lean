import Mathlib.Tactic.Ring
import TalerExchange.Posting.Simulation
import TalerExchange.Sql.Accounts

/-!
# The figures of a coin

What the tables say about a coin, in units: the value and the fees of its denomination, what is
left of it, and the totals of everything that was recorded as spent or given back.

* `figure`, `remainingOf`: from `denominations` and `known_coins`;
* `deposited`, …, `recoupedFresh`: the debits;
* `refunded`, `refundCount`, `waivers`, `purseRefunded`, `recoupedOld`: the credits;
* **`bookValue`**: the balance that follows from the records;
* `valueAt_debit`, `valueAt_credit`, `valueAt_restored`: what a write does to all balances at once;
* **`Posts.coinsSound`**: no posting takes a balance out of its range.
-/

namespace TalerExchange

open Sql

namespace CoinTables

variable (db : CoinTables)

/-! ## Definitions -/

/-- A figure of the denomination of a coin; `0` for an unknown coin. -/
def figure (f : Denomination → Amount) (c : CoinPub) : ℤ :=
  (db.denominationOf c).elim 0 fun d => (f d).units

/-- What is left of a coin. -/
def remainingOf (c : CoinPub) : ℤ := db.knownCoins.valueAt (fun kc => kc.remaining.units) c

def deposited (c : CoinPub) : ℤ :=
  db.coinDeposits.total (onlyIf (fun d => d.coinPub = c) fun d => d.amountWithFee.units)

def melted (c : CoinPub) : ℤ :=
  db.refreshCommitments.total (onlyIf (fun m => m.oldCoinPub = c) fun m => m.amountWithFee.units)

def pursed (c : CoinPub) : ℤ :=
  db.purseDeposits.total (onlyIf (fun d => d.coinPub = c) fun d => d.amountWithFee.units)

def opened (c : CoinPub) : ℤ :=
  db.reservesOpenDeposits.total (onlyIf (fun d => d.coinPub = c) fun d => d.contribution.units)

def recouped (c : CoinPub) : ℤ :=
  db.recoup.total (onlyIf (fun r => r.coinPub = c) fun r => r.amount.units)

/-- Recouped from the coin into the coin it was refreshed from. -/
def recoupedFresh (c : CoinPub) : ℤ :=
  db.recoupRefresh.total (onlyIf (fun r => r.coinPub = c) fun r => r.amount.units)

/-- Recouped into the coin from the coins it was refreshed into. -/
def recoupedOld (c : CoinPub) : ℤ :=
  db.recoupRefresh.total (onlyIf (fun r => db.oldCoinOf r.rrcSerial = some c)
    fun r => r.amount.units)

def refunded (c : CoinPub) : ℤ :=
  db.refunds.total (onlyIf (fun r => r.coinPub = c) fun r => r.amountWithFee.units)

def refundCount (c : CoinPub) : ℤ := db.refunds.total (onlyIf (fun r => r.coinPub = c) fun _ => 1)

/-- The refunds of coin `c` in batch `b`. -/
def refundedIn (c : CoinPub) (b : ℕ) : ℤ :=
  db.refunds.total (onlyIf (fun r => r.coinPub = c ∧ r.batchDepositSerialId = b)
    fun r => r.amountWithFee.units)

/-- Their number. -/
def refundsIn (c : CoinPub) (b : ℕ) : ℤ :=
  db.refunds.total (onlyIf (fun r => r.coinPub = c ∧ r.batchDepositSerialId = b) fun _ => 1)

/-- The refunds of coin `c` in batch `b` up to row `n`. -/
def refundedUpTo (c : CoinPub) (b n : ℕ) : ℤ :=
  db.refunds.total (onlyIf (fun r => (r.coinPub = c ∧ r.batchDepositSerialId = b) ∧
    r.refundSerialId ≤ n) fun r => r.amountWithFee.units)

/-- The refund brought the refunds of its deposit to the full amount, so the deposit fee was
waived. -/
def completes (r : Refund) : Bool :=
  (db.depositIn r.coinPub r.batchDepositSerialId).any fun d =>
    db.refundedUpTo r.coinPub r.batchDepositSerialId r.refundSerialId = d.amountWithFee.units

/-- How often the deposit fee was waived. -/
def waivers (c : CoinPub) : ℤ :=
  db.refunds.total (onlyIf (fun r => r.coinPub = c ∧ db.completes r = true) fun _ => 1)

/-- The deposit of coin `c` that decision `n` refunded. -/
def decisionDeposit (n : ℕ) (c : CoinPub) : Option PurseDeposit := do
  let p ← db.purseDecision.lookupSerial n
  db.purseDeposits.lookup (p.pursePub, c)

/-- The entries of a coin's history in one table. -/
def isEntry (c : CoinPub) (t : HistoryTable) (h : CoinHistory) : Bool :=
  h.coinPub = c ∧ h.tableName = t

/-- The amount of the deposit that an entry about a decision is about. -/
def entryAmount (h : CoinHistory) : ℤ :=
  (db.decisionDeposit h.serialId h.coinPub).elim 0 fun d => d.amountWithFee.units

/-- Given back to the coin when purses were deleted or expired. -/
def purseRefunded (c : CoinPub) : ℤ :=
  db.coinHistory.total (onlyIf (fun h => isEntry c .purseDecision h = true) db.entryAmount)

/-- Everything that was recorded as spent. -/
def debits (c : CoinPub) : ℤ :=
  db.deposited c + db.melted c + db.pursed c + db.opened c + db.recouped c + db.recoupedFresh c

/-- Everything that was recorded as given back, with the fees kept and waived. -/
def credits (c : CoinPub) : ℤ :=
  db.refunded c - db.figure (·.feeRefund) c * db.refundCount c +
    db.figure (·.feeDeposit) c * db.waivers c + db.purseRefunded c + db.recoupedOld c

/-- **The balance of a coin according to the records.** -/
def bookValue (c : CoinPub) : ℤ := db.figure (·.coin) c - db.debits c + db.credits c

end CoinTables

/-! ## Denominations -/

section Figure

variable {db : CoinTables}

theorem figure_of_lookup {f : Denomination → Amount} {c : CoinPub} {d : Denomination}
    (h : db.denominationOf c = some d) : db.figure f c = (f d).units := by
  unfold CoinTables.figure
  rw [h]
  rfl

theorem figure_nonneg (db : CoinTables) (f : Denomination → Amount) (c : CoinPub) :
    0 ≤ db.figure f c := by
  unfold CoinTables.figure
  cases db.denominationOf c with
  | none => exact le_rfl
  | some d => exact (f d).units_nonneg

theorem figure_of_unknown {c : CoinPub} (h : db.knownCoins.hasKey c = false)
    (f : Denomination → Amount) : db.figure f c = 0 := by
  unfold CoinTables.figure CoinTables.denominationOf
  rw [Table.lookup_eq_none_iff_hasKey.mpr h]
  rfl

/-- Balances change, denominations do not. -/
theorem denominationOf_update {t : Table KnownCoin} {p : KnownCoin → Bool}
    {g : KnownCoin → KnownCoin} {hk : ∀ r, Record.key (g r) = Record.key r}
    {hs : ∀ r, Record.serial (g r) = Record.serial r}
    (hg : ∀ r, (g r).denominationsSerial = r.denominationsSerial) (dn : Table Denomination)
    (c : CoinPub) :
    CoinTables.denominationOf { denominations := dn, knownCoins := t.update p g hk hs } c =
      CoinTables.denominationOf { denominations := dn, knownCoins := t } c := by
  unfold CoinTables.denominationOf
  simp only [Table.lookup_update]
  cases t.lookup c with
  | none => rfl
  | some kc =>
    simp only [Option.map_some]
    split_ifs
    · exact congrArg dn.lookupSerial (hg kc)
    · rfl

theorem denominationOf_restored (t : Table KnownCoin) (ds : List PurseDeposit)
    (dn : Table Denomination) (c : CoinPub) :
    CoinTables.denominationOf { denominations := dn, knownCoins := restored t ds } c =
      CoinTables.denominationOf { denominations := dn, knownCoins := t } c := by
  induction ds generalizing t with
  | nil => rfl
  | cons d ds ih => exact (ih _).trans (denominationOf_update (by intro r; rfl) dn c)

theorem hasKey_restored (t : Table KnownCoin) (ds : List PurseDeposit) (c : CoinPub) :
    (restored t ds).hasKey c = t.hasKey c := by
  induction ds generalizing t with
  | nil => rfl
  | cons d ds ih => exact (ih _).trans (Table.hasKey_update ..)

end Figure

/-! ## Balances -/

/-- A change of one balance by `d`, seen from every coin. -/
theorem valueAt_change {t : Table KnownCoin} {c : CoinPub} (hc : t.hasKey c = true)
    {f : TalerAmount → TalerAmount} {d : ℤ} (hf : ∀ a, (f a).units = a.units + d) (x : CoinPub) :
    (t.update (fun kc => kc.coinPub = c) fun kc =>
        { kc with remaining := f kc.remaining }).valueAt (fun kc => kc.remaining.units) x =
      t.valueAt (fun kc => kc.remaining.units) x + if x = c then d else 0 :=
  Table.valueAt_update_add (fun _ => decide_eq_true_iff) hc (fun r => hf r.remaining) x

section Remaining

variable {db : CoinTables} {c : CoinPub}

theorem valueAt_debit (hc : db.knownCoins.hasKey c = true) (a : TalerAmount) (x : CoinPub) :
    (db.setRemaining c (·.minus a)).valueAt (fun kc => kc.remaining.units) x =
      db.remainingOf x - if x = c then a.units else 0 := by
  refine (valueAt_change hc (d := -a.units) (fun r => TalerAmount.units_minus r a) x).trans ?_
  unfold CoinTables.remainingOf
  split_ifs <;> omega

theorem valueAt_credit (hc : db.knownCoins.hasKey c = true) (a : TalerAmount) (x : CoinPub) :
    (db.setRemaining c (·.plus a)).valueAt (fun kc => kc.remaining.units) x =
      db.remainingOf x + if x = c then a.units else 0 :=
  valueAt_change hc (fun r => TalerAmount.units_plus r a) x

theorem valueAt_emptied {kc : KnownCoin} (hc : db.knownCoins.lookup c = some kc) (x : CoinPub) :
    (db.setRemaining c fun _ => TalerAmount.zero).valueAt (fun kc => kc.remaining.units) x =
      db.remainingOf x - if x = c then kc.remaining.units else 0 := by
  refine (Table.valueAt_update (c := c) (fun _ => decide_eq_true_iff) _ x).trans ?_
  unfold CoinTables.remainingOf
  split_ifs with h
  · subst h
    rw [Table.valueAt_of_lookup hc, Table.valueAt_of_lookup hc, TalerAmount.units_zero, sub_self]
  · omega

end Remaining

/-- What the coins of some purse deposits got back. -/
def restoredTo (ds : List PurseDeposit) (c : CoinPub) : ℤ :=
  (ds.map (onlyIf (fun d => d.coinPub = c) fun d => d.amountWithFee.units)).sum

theorem valueAt_restored {t : Table KnownCoin} {ds : List PurseDeposit}
    (h : ∀ d ∈ ds, t.hasKey d.coinPub = true) (x : CoinPub) :
    (restored t ds).valueAt (fun kc => kc.remaining.units) x =
      t.valueAt (fun kc => kc.remaining.units) x + restoredTo ds x := by
  induction ds generalizing t with
  | nil => exact (add_zero _).symm
  | cons d ds ih =>
    have hk : t.hasKey d.coinPub = true := h d (by simp)
    have hds : ∀ d' ∈ ds, t.hasKey d'.coinPub = true := fun d' hd' => h d' (by simp [hd'])
    refine (ih fun d' hd' => (Table.hasKey_update ..).trans (hds d' hd')).trans ?_
    rw [valueAt_change hk (fun r => TalerAmount.units_plus r d.amountWithFee) x]
    simp only [restoredTo, List.map_cons, List.sum_cons, onlyIf, eq_comm (a := x),
      Amount.units_toTaler]
    omega

/-! ## Refunds -/

section Refunds

variable (db : CoinTables) (c : CoinPub) (b : ℕ)

/-- The two sums of `exchange_do_refund`, put together. -/
theorem units_refundSums : (db.refundSums c b).normalize.units = db.refundedIn c b := by
  rw [TalerAmount.units_normalize]
  unfold CoinTables.refundSums
  rw [units_sumParts, List.map_map]
  exact Table.sum_filter db.refunds (fun r => r.coinPub = c ∧ r.batchDepositSerialId = b)
    fun r => r.amountWithFee.units

theorem normal_refundSums : (db.refundSums c b).normalize.Normal :=
  TalerAmount.normal_normalize (frac_sumParts_nonneg _)

theorem refundedUpTo_of_le {n : ℕ} (h : db.refunds.nextSerial ≤ n + 1) :
    db.refundedUpTo c b n = db.refundedIn c b := by
  refine Table.total_congr fun r hr => ?_
  have hn : r.refundSerialId ≤ n := by
    have := Table.serial_le hr
    change r.refundSerialId < _ at this
    omega
  simp only [onlyIf, hn, and_true]

end Refunds

theorem refundFits_iff {s d : TalerAmount} (hs : s.Normal) (hd : d.Normal) :
    refundFits s d = true ↔ s.units ≤ d.units := by
  unfold TalerAmount.Normal at hs hd
  simp only [refundFits, TalerAmount.units, decide_eq_true_eq]
  omega

/-- What a refund credits: the deposit fee comes back when the refunds reach the deposit. -/
theorem units_refund_credit (a : RefundArgs) {s d : TalerAmount} (hs : s.Normal) (hd : d.Normal) :
    (a.credit s d).units = a.amount.units + if s.units = d.units then a.depositFee.units else 0 := by
  have h : (s.val = d.val ∧ s.frac = d.frac) ↔ s.units = d.units := by
    unfold TalerAmount.Normal at hs hd
    unfold TalerAmount.units
    omega
  unfold RefundArgs.credit
  simp only [h]
  split_ifs
  · rw [TalerAmount.units_normalize, TalerAmount.units_addRaw]
    rfl
  · exact (add_zero _).symm

theorem normal_refund_credit (a : RefundArgs) (s d : TalerAmount) : (a.credit s d).Normal := by
  unfold RefundArgs.credit
  split_ifs
  · refine TalerAmount.normal_normalize ?_
    have h₁ := a.amount.normal_toTaler.1
    have h₂ := a.depositFee.normal_toTaler.1
    exact add_nonneg h₁ h₂
  · exact a.amount.normal_toTaler

/-! ## Balances stay in range -/

theorem sound_refund_credit (a : RefundArgs) {s d : TalerAmount} (hs : s.Normal) (hd : d.Normal) :
    (a.credit s d).Sound := by
  refine ⟨normal_refund_credit .., ?_⟩
  rw [units_refund_credit a hs hd]
  have h₁ := a.amount.units_nonneg
  have h₂ := a.depositFee.units_nonneg
  split_ifs <;> omega

/-- Every balance of a coin is in range. -/
def CoinsSound (db : CoinTables) : Prop := ∀ kc ∈ db.knownCoins.rows, kc.remaining.Sound

section Sound

variable {db : CoinTables} (hs : CoinsSound db)
include hs

theorem CoinsSound.debit {c : CoinPub} {kc : KnownCoin} {a : Amount}
    (hc : db.knownCoins.lookup c = some kc) (hcov : kc.remaining.covers a = true) :
    ∀ x ∈ (db.setRemaining c (·.minus a)).rows, x.remaining.Sound := by
  refine Table.forall_update hs fun x hx hp hsx => ?_
  have e : x = kc := Table.eq_of_key hx (Table.mem_of_lookup hc)
    ((decide_eq_true_iff.mp hp).trans (Table.key_of_lookup hc).symm)
  exact hsx.minus a.normal_toTaler (e ▸ hcov)

theorem CoinsSound.credit {c : CoinPub} {a : TalerAmount} (ha : a.Sound) :
    ∀ x ∈ (db.setRemaining c (·.plus a)).rows, x.remaining.Sound :=
  Table.forall_update hs fun _ _ _ hsx => hsx.plus ha

theorem CoinsSound.empty {c : CoinPub} :
    ∀ x ∈ (db.setRemaining c fun _ => TalerAmount.zero).rows, x.remaining.Sound :=
  Table.forall_update hs fun _ _ _ _ => TalerAmount.sound_zero

theorem CoinsSound.recoup {c old : CoinPub} {kc : KnownCoin}
    (hc : db.knownCoins.lookup c = some kc) :
    ∀ x ∈ ((db.setRemaining c fun _ => TalerAmount.zero).update (fun x => x.coinPub = old) fun x =>
      { x with remaining := x.remaining.plus kc.remaining }).rows, x.remaining.Sound :=
  Table.forall_update hs.empty fun _ _ _ hsx => hsx.plus (hs kc (Table.mem_of_lookup hc))

end Sound

theorem sound_restored {t : Table KnownCoin} {ds : List PurseDeposit}
    (hs : ∀ x ∈ t.rows, x.remaining.Sound) : ∀ x ∈ (restored t ds).rows, x.remaining.Sound := by
  induction ds generalizing t with
  | nil => exact hs
  | cons d ds ih =>
    exact ih (Table.forall_update hs fun _ _ _ h => h.plus d.amountWithFee.sound_toTaler)

/-- **Whatever is posted, no balance leaves its range.** -/
theorem Posts.coinsSound {db db' : Database} {p : Posting} (h : Posts db p db')
    (hs : CoinsSound db.toCoinTables) : CoinsSound db'.toCoinTables := by
  cases h with
  | wireTarget =>
    rw [addWireTarget_frame]
    exact hs
  | initReserve =>
    rw [initReserve_frame]
    exact hs
  | reservePurse _ _ _ _ _ _ _ hpay =>
    rw [payForPurse_frame hpay]
    exact hs
  | coin _ ht => exact Table.forall_insert? ht hs (Amount.sound_toTaler _)
  | coinDeposit _ _ _ hc hcov => exact hs.debit hc hcov
  | refund _ _ _ _ _ _ hsum =>
    exact hs.credit (sound_refund_credit _ (hsum ▸ normal_refundSums ..) (Amount.normal_toTaler _))
  | melt _ _ hc hcov => exact hs.debit hc hcov
  | openDeposit _ _ hc hcov => exact hs.debit hc hcov
  | purseDeposit _ _ _ hc hcov => exact hs.debit hc hcov
  | recoupToReserve => exact hs.empty
  | recoupToCoin hc => exact hs.recoup hc
  | purseRefund => exact sound_restored hs
  | _ => exact hs

end TalerExchange
