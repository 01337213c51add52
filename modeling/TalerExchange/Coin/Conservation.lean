import TalerExchange.Coin.Ledger

/-!
# Conservation of coins

The ledger in terms of what the tables say now: which deposits have been refunded in full and which
purses have been decided as refunded.

* `waivedDeposits`, `pursedBack`: the two credits by status;
* `Conserved`: the balance follows from the records and lies between zero and the value;
* `CoinOpOk`: no refund that waives a deposit fee above the refund fees, no deposit into an expired
  purse, no recoup above what was melted;
* **`run_conserved`**: in a run of such operations every coin is conserved;
* `overRefund`, `strandedDeposit`: runs outside the condition that break it.
-/

namespace TalerExchange

open Sql Transition

namespace CoinTables

variable (db : CoinTables)

/-- The deposit has been refunded in full. Of several deposits of a coin in one batch the refunds
count against the first. -/
def fullyRefunded (d : CoinDeposit) : Bool :=
  db.depositIn d.coinPub d.batchDepositSerialId = some d ∧
    0 < db.refundsIn d.coinPub d.batchDepositSerialId ∧
    db.refundedIn d.coinPub d.batchDepositSerialId = d.amountWithFee.units

/-- The number of deposits of a coin that have been refunded in full. -/
def waivedDeposits (c : CoinPub) : ℤ :=
  db.coinDeposits.total (onlyIf (fun d => d.coinPub = c ∧ db.fullyRefunded d = true) fun _ => 1)

/-- The purse deposits of a coin whose purses have been decided as refunded. -/
def pursedBack (c : CoinPub) : ℤ :=
  db.purseDeposits.total (onlyIf (fun d => d.coinPub = c ∧ db.isRefunded d.pursePub = true)
    fun d => d.amountWithFee.units)

/-- **A coin is conserved.** -/
structure Conserved (kc : KnownCoin) : Prop where
  denomination : ∃ d, db.denominationOf kc.coinPub = some d
  balance : kc.remaining.units = db.figure (·.coin) kc.coinPub - db.debits kc.coinPub +
    (db.refunded kc.coinPub - db.figure (·.feeRefund) kc.coinPub * db.refundCount kc.coinPub +
      db.figure (·.feeDeposit) kc.coinPub * db.waivedDeposits kc.coinPub +
      db.pursedBack kc.coinPub + db.recoupedOld kc.coinPub)
  nonneg : 0 ≤ kc.remaining.units
  le_value : kc.remaining.units ≤ db.figure (·.coin) kc.coinPub
  normal : kc.remaining.Normal

end CoinTables

/-! ## Conditions -/

/-- The refund does not waive a deposit fee above the refund fees taken for the deposit. -/
def CoinTables.WaiverCovered (db : CoinTables) (a : RefundArgs) (b : ℕ) : Prop :=
  ∀ d, db.depositIn a.coinPub b = some d →
    db.refundedIn a.coinPub b + a.amountWithFee.units = d.amountWithFee.units →
    db.figure (·.feeDeposit) a.coinPub ≤
      db.figure (·.feeRefund) a.coinPub * (db.refundsIn a.coinPub b + 1)

/-- Unless the deposit is recorded already, the purse is not one that was refunded because it
expired. Deposits into deleted purses are rejected. -/
def Database.InTime (db : Database) (a : PurseDepositArgs) : Prop :=
  db.isRefunded a.pursePub = true →
    db.isDeleted a.pursePub = true ∨ db.purseDeposits.hasKey (a.pursePub, a.coinPub) = true

/-- The condition on postings. -/
def CoinPostingOk (db : Database) : Posting → Prop
  | .refund a => CoinArgsOk db (.refund a) ∧
      ∀ b, db.batchDeposits.lookup (a.depositShard, a.merchantPub, a.hContractTerms) = some b →
        db.refunds.hasKey (b.batchDepositSerialId, a.coinPub, a.rtransactionId) = false →
        db.WaiverCovered a b.batchDepositSerialId
  | .recoupToCoin a => CoinArgsOk db (.recoupToCoin a) ∧
      db.recoupedOld a.oldCoinPub + db.remainingOf a.coinPub ≤ db.melted a.oldCoinPub
  | .purseDeposit a => db.InTime a
  | _ => True

/-- The condition on operations. -/
def CoinOpOk (db : Database) : Op → Prop
  | .refund a => CoinPostingOk db (.refund a)
  | .recoupToCoin a => CoinPostingOk db (.recoupToCoin a)
  | .purseDeposit a => db.InTime a
  | .createPurse a ds => ∀ d ∈ ds, db.InTime (d.into a.pursePub)
  | _ => True

theorem refundsIn_nonneg (db : CoinTables) (c : CoinPub) (b : ℕ) : 0 ≤ db.refundsIn c b :=
  Table.total_onlyIf_nonneg fun _ _ => zero_le_one

/-- With a deposit fee of at most the refund fee every refund is fine. -/
theorem waiverCovered_of_fees {db : CoinTables} {a : RefundArgs}
    (h : db.figure (·.feeDeposit) a.coinPub ≤ db.figure (·.feeRefund) a.coinPub) (b : ℕ) :
    db.WaiverCovered a b := by
  intro d _ _
  have hR := figure_nonneg db (·.feeRefund) a.coinPub
  have hn := refundsIn_nonneg db a.coinPub b
  have hRn := mul_nonneg hR hn
  rw [mul_add, mul_one]
  omega

theorem SameTerms.inTime {db s : Database} {a : PurseDepositArgs} (hs : SameTerms db s)
    (h : db.InTime a) : s.InTime a := by
  intro hrf
  rw [hs.refunded] at hrf
  exact (h hrf).imp (fun hd => by rwa [Database.isDeleted, hs.deletion]) (hs.deposits _)

/-- A deposit that is posted in time goes into a purse that is not refunded. -/
theorem Posts.not_refunded {db db' : Database} {a : PurseDepositArgs}
    (h : Posts db (.purseDeposit a) db') (ht : db.InTime a) : db.isRefunded a.pursePub = false := by
  cases h with
  | purseDeposit hi _ hdel =>
    by_contra hrf
    obtain hd | hk := ht (by simpa using hrf)
    · obtain ⟨d, hd, hp⟩ := List.any_eq_true.mp hd
      exact hdel d hd (of_decide_eq_true hp)
    · exact absurd (hk.symm.trans (Table.insert?_eq_some.mp hi).1) (by decide)

theorem coinPostingOk_of_emits {db s : Database} {o : Op} {p : Posting} (ho : CoinOpOk db o)
    (he : Emits db o s p) : CoinPostingOk s p := by
  cases p with
  | refund a =>
    obtain ⟨rfl, rfl⟩ := emits_refund he
    exact ho
  | recoupToCoin a =>
    obtain ⟨rfl, rfl⟩ := emits_recoupToCoin he
    exact ho
  | purseDeposit a =>
    obtain ⟨rfl, rfl⟩ | ⟨b, ds, rfl, ⟨d, hd, rfl⟩, hs, -⟩ := emits_purseDeposit he
    · exact ho
    · exact hs.inTime (ho d hd)
  | _ => trivial

theorem CoinPostingOk.args {db : Database} {p : Posting} (h : CoinPostingOk db p) :
    CoinArgsOk db p := by
  cases p with
  | refund a => exact h.1
  | recoupToCoin a => exact h.1
  | _ => trivial

/-! ## Refunds and deposits -/

section Refunds

variable {db db' : CoinTables}

theorem exists_refund {c : CoinPub} {b : ℕ} (h : 0 < db.refundsIn c b) :
    ∃ r ∈ db.refunds.rows, r.coinPub = c ∧ r.batchDepositSerialId = b := by
  by_contra hno
  have h0 : db.refundsIn c b = 0 :=
    Table.total_eq_zero fun r hr => onlyIf_neg fun hc => hno ⟨r, hr, hc⟩
  omega

theorem refundsIn_of_eq (h : db'.refunds = db.refunds) (c : CoinPub) (b : ℕ) :
    db'.refundedIn c b = db.refundedIn c b ∧ db'.refundsIn c b = db.refundsIn c b := by
  unfold CoinTables.refundsIn CoinTables.refundedIn
  rw [h]
  exact ⟨rfl, rfl⟩

theorem refundsIn_insert? {a : RefundArgs} {b : ℕ}
    (ht : db.refunds.insert? (a.row b) = some db'.refunds) (c : CoinPub) (b' : ℕ) :
    db'.refundedIn c b' = db.refundedIn c b' +
        (if a.coinPub = c ∧ b = b' then a.amountWithFee.units else 0) ∧
      db'.refundsIn c b' = db.refundsIn c b' + if a.coinPub = c ∧ b = b' then 1 else 0 :=
  ⟨Table.total_insert? ht _, Table.total_insert? ht _⟩

theorem mem_of_depositIn {c : CoinPub} {b : ℕ} {d : CoinDeposit} (h : db.depositIn c b = some d) :
    d ∈ db.coinDeposits.rows ∧ d.coinPub = c ∧ d.batchDepositSerialId = b := by
  have hp := List.find?_some h
  simp only [decide_eq_true_eq] at hp
  exact ⟨List.mem_of_find?_eq_some h, hp⟩

theorem fullyRefunded_iff {c : CoinPub} {b : ℕ} {d : CoinDeposit} (h : db.depositIn c b = some d) :
    db.fullyRefunded d = true ↔
      0 < db.refundsIn c b ∧ db.refundedIn c b = d.amountWithFee.units := by
  obtain ⟨-, rfl, rfl⟩ := mem_of_depositIn h
  simp [CoinTables.fullyRefunded, h]

theorem exists_depositIn {d : CoinDeposit} (hd : d ∈ db.coinDeposits.rows) :
    ∃ d', db.depositIn d.coinPub d.batchDepositSerialId = some d' := by
  cases h : db.depositIn d.coinPub d.batchDepositSerialId with
  | none => exact absurd (List.find?_eq_none.mp h d hd) (by simp)
  | some d' => exact ⟨d', rfl⟩

/-- Deposits keep their status while no refund is recorded for them. -/
theorem fullyRefunded_of_grows (hg : Grows db db') {d : CoinDeposit}
    (hd : d ∈ db.coinDeposits.rows)
    (hn : db'.refundsIn d.coinPub d.batchDepositSerialId =
      db.refundsIn d.coinPub d.batchDepositSerialId)
    (ha : db'.refundedIn d.coinPub d.batchDepositSerialId =
      db.refundedIn d.coinPub d.batchDepositSerialId) :
    db'.fullyRefunded d = db.fullyRefunded d := by
  obtain ⟨d', hd'⟩ := exists_depositIn hd
  unfold CoinTables.fullyRefunded
  rw [hn, ha, hd', hg.depositIn hd']

theorem waivedDeposits_of_grows (hg : Grows db db') (hc : db'.coinDeposits = db.coinDeposits)
    (hf : db'.refunds = db.refunds) (c : CoinPub) : db'.waivedDeposits c = db.waivedDeposits c := by
  unfold CoinTables.waivedDeposits
  rw [hc]
  refine Table.total_congr fun d hd => ?_
  have hin := refundsIn_of_eq hf
  simp only [onlyIf, fullyRefunded_of_grows hg hd (hin _ _).2 (hin _ _).1]

/-- A new deposit has not been refunded. -/
theorem waivedDeposits_deposit (hr : CoinRows db) (hg : Grows db db') {mk : ℕ → CoinDeposit}
    {hs : ∀ n, Record.serial (mk n) = n} (ht : db.coinDeposits.insert? mk hs = some db'.coinDeposits)
    (hf : db'.refunds = db.refunds) (c : CoinPub) : db'.waivedDeposits c = db.waivedDeposits c := by
  have hin := refundsIn_of_eq hf
  have hnew : db'.fullyRefunded (mk db.coinDeposits.nextSerial) = false := by
    by_contra h
    simp only [CoinTables.fullyRefunded, hin, decide_eq_true_eq, Bool.not_eq_false] at h
    obtain ⟨r, hrow, hc, hb⟩ := exists_refund h.2.1
    obtain ⟨-, d, hd⟩ := hr.refund r hrow
    rw [hc, hb] at hd
    have he := (hg.depositIn hd).symm.trans h.1
    have hlt := Table.serial_le (mem_of_depositIn hd).1
    rw [Option.some.inj he, hs] at hlt
    exact absurd hlt (lt_irrefl _)
  unfold CoinTables.waivedDeposits
  rw [Table.total_insert? ht, onlyIf_neg (by simp [hnew]), add_zero]
  refine Table.total_congr fun d hd => ?_
  simp only [onlyIf, fullyRefunded_of_grows hg hd (hin _ _).2 (hin _ _).1]

/-- A refund that completes the refund of deposit `d` changes the status of this deposit only. -/
theorem waivedDeposits_refund (hg : Grows db db') (hc : db'.coinDeposits = db.coinDeposits)
    {a : RefundArgs} {b : ℕ} (ht : db.refunds.insert? (a.row b) = some db'.refunds) {d : CoinDeposit}
    (hd : db.depositIn a.coinPub b = some d) (c : CoinPub) :
    db'.waivedDeposits c = db.waivedDeposits c +
      if a.coinPub = c ∧ db'.fullyRefunded d = true ∧ db.fullyRefunded d = false then 1
      else if a.coinPub = c ∧ db'.fullyRefunded d = false ∧ db.fullyRefunded d = true then -1
      else 0 := by
  obtain ⟨hrow, hdc, hdb⟩ := mem_of_depositIn hd
  have hother : ∀ d' ∈ db.coinDeposits.rows, d' ≠ d → db'.fullyRefunded d' = db.fullyRefunded d' := by
    intro d' hd' hne
    by_cases hsame : a.coinPub = d'.coinPub ∧ b = d'.batchDepositSerialId
    · -- not the first deposit of the coin in the batch, so not the one that is refunded
      have hd'' : db.depositIn d'.coinPub d'.batchDepositSerialId = some d := hsame.1 ▸ hsame.2 ▸ hd
      unfold CoinTables.fullyRefunded
      rw [hd'', hg.depositIn hd'']
      simp [Ne.symm hne]
    · refine fullyRefunded_of_grows hg hd' ?_ ?_
      · rw [(refundsIn_insert? ht _ _).2, if_neg hsame, add_zero]
      · rw [(refundsIn_insert? ht _ _).1, if_neg hsame, add_zero]
  unfold CoinTables.waivedDeposits
  rw [hc, Table.total_eq_add_of_ne hrow (g := onlyIf (fun d => d.coinPub = c ∧
    db'.fullyRefunded d = true) fun _ => 1) (f := onlyIf (fun d => d.coinPub = c ∧
    db.fullyRefunded d = true) fun _ => 1) fun d' hd' hne => by
      simp only [onlyIf, hother d' hd' hne]]
  refine congrArg₂ _ rfl ?_
  simp only [onlyIf, hdc]
  by_cases h₁ : a.coinPub = c <;> cases db'.fullyRefunded d <;> cases db.fullyRefunded d <;>
    simp [h₁]

end Refunds

/-- Refunds stay within their deposits, a waived fee within the refund fees, and there is one waiver
for each deposit refunded in full. -/
structure RefundFates (db : CoinTables) : Prop where
  fits : ∀ {c b d}, db.depositIn c b = some d → db.refundedIn c b ≤ d.amountWithFee.units
  covered : ∀ {c b d}, db.depositIn c b = some d → db.refundedIn c b = d.amountWithFee.units →
    0 < db.refundsIn c b → db.figure (·.feeDeposit) c ≤ db.figure (·.feeRefund) c * db.refundsIn c b
  waived : ∀ c, db.figure (·.feeDeposit) c * db.waivers c =
    db.figure (·.feeDeposit) c * db.waivedDeposits c

section RefundFates

variable {db db' : CoinTables}

theorem known_of_refundsIn (hr : CoinRows db) {c : CoinPub} {b : ℕ} (h : 0 < db.refundsIn c b) :
    db.knownCoins.hasKey c = true := by
  obtain ⟨r, hrow, rfl, -⟩ := exists_refund h
  exact (hr.refund r hrow).1

theorem waivedDeposits_of_unknown (hr : CoinRows db) {c : CoinPub}
    (hc : db.knownCoins.hasKey c = false) : db.waivedDeposits c = 0 := by
  refine Table.total_eq_zero fun d _ => onlyIf_neg fun h => ?_
  obtain ⟨rfl, hfull⟩ := h
  simp only [CoinTables.fullyRefunded, decide_eq_true_eq] at hfull
  rw [known_of_refundsIn hr hfull.2.1] at hc
  exact absurd hc (by decide)

/-- Waivers and deposits refunded in full that are counted as before. -/
theorem RefundFates.waived_of_grows (hf : RefundFates db) (hr : CoinRows db) (hg : Grows db db')
    {c : CoinPub} (hw : db'.waivers c = db.waivers c)
    (hd : db'.waivedDeposits c = db.waivedDeposits c) :
    db'.figure (·.feeDeposit) c * db'.waivers c =
      db'.figure (·.feeDeposit) c * db'.waivedDeposits c := by
  rw [hw, hd]
  cases hc : db.knownCoins.hasKey c with
  | false => rw [waivers_of_unknown hr hc, waivedDeposits_of_unknown hr hc]
  | true =>
    rw [figure_of_known hr.toKnownRows hg hc]
    exact hf.waived c

theorem RefundFates.congr (hf : RefundFates db) (hr : CoinRows db) (hg : Grows db db')
    (hc : db'.coinDeposits = db.coinDeposits) (hrf : db'.refunds = db.refunds) :
    RefundFates db' := by
  have hdep : ∀ c b, db'.depositIn c b = db.depositIn c b := by
    intro c b
    unfold CoinTables.depositIn
    rw [hc]
  have hin := refundsIn_of_eq hrf
  refine ⟨fun {c b d} hd => ?_, fun {c b d} hd ha hn => ?_, fun c => ?_⟩
  · rw [(hin c b).1]
    exact hf.fits (hdep c b ▸ hd)
  · rw [(hin c b).1] at ha
    rw [(hin c b).2] at hn ⊢
    have hk := known_of_refundsIn hr hn
    rw [figure_of_known hr.toKnownRows hg hk, figure_of_known hr.toKnownRows hg hk]
    exact hf.covered (hdep c b ▸ hd) ha hn
  · exact hf.waived_of_grows hr hg (waivers_of_grows hr hg hrf c) (waivedDeposits_of_grows hg hc hrf c)

/-- A refund of the coin in the batch would have found a deposit. -/
theorem refundedIn_of_none (hr : KnownRows db) {c : CoinPub} {b : ℕ} (h : db.depositIn c b = none) :
    db.refundedIn c b = 0 := by
  refine Table.total_eq_zero fun r hrow => onlyIf_neg ?_
  rintro ⟨rfl, rfl⟩
  obtain ⟨-, d, hd⟩ := hr.refund r hrow
  rw [h] at hd
  cases hd

theorem RefundFates.deposit (hf : RefundFates db) (hr : CoinRows db) (hg : Grows db db')
    {mk : ℕ → CoinDeposit} {hs : ∀ n, Record.serial (mk n) = n}
    (ht : db.coinDeposits.insert? mk hs = some db'.coinDeposits) (hrf : db'.refunds = db.refunds) :
    RefundFates db' := by
  have hin := refundsIn_of_eq hrf
  have hold : ∀ {c b d d'}, db'.depositIn c b = some d → db.depositIn c b = some d' → d = d' :=
    fun h h' => Option.some.inj (h.symm.trans (hg.depositIn h'))
  refine ⟨fun {c b d} hd => ?_, fun {c b d} hd ha hn => ?_, fun c => ?_⟩
  · rw [(hin c b).1]
    cases h : db.depositIn c b with
    | some d' => exact hold hd h ▸ hf.fits h
    | none =>
      rw [refundedIn_of_none hr.toKnownRows h]
      exact d.amountWithFee.units_nonneg
  · rw [(hin c b).1] at ha
    rw [(hin c b).2] at hn ⊢
    have hk := known_of_refundsIn hr hn
    obtain ⟨r, hrow, rfl, rfl⟩ := exists_refund hn
    obtain ⟨-, d', hd'⟩ := hr.refund r hrow
    rw [figure_of_known hr.toKnownRows hg hk, figure_of_known hr.toKnownRows hg hk]
    exact hf.covered hd' (hold hd hd' ▸ ha) hn
  · exact hf.waived_of_grows hr hg (waivers_of_grows hr hg hrf c)
      (waivedDeposits_deposit hr hg ht hrf c)

theorem RefundFates.refund (hf : RefundFates db) (hr : CoinRows db) (hg : Grows db db')
    {a : RefundArgs} {b : ℕ} {d : CoinDeposit} (hk : db.knownCoins.hasKey a.coinPub = true)
    (hc : db'.coinDeposits = db.coinDeposits)
    (ht : db.refunds.insert? (a.row b) = some db'.refunds)
    (hd : db.depositIn a.coinPub b = some d)
    (hfit : db'.refundedIn a.coinPub b ≤ d.amountWithFee.units)
    (hargs : a.amount.units + db.figure (·.feeRefund) a.coinPub = a.amountWithFee.units)
    (hcov : db.WaiverCovered a b) : RefundFates db' := by
  have hin := refundsIn_insert? ht
  have hdep : ∀ c b, db'.depositIn c b = db.depositIn c b := by
    intro c b
    unfold CoinTables.depositIn
    rw [hc]
  have hone := hin a.coinPub b
  simp only [and_self, if_true] at hone
  refine ⟨fun {c b' d'} hd' => ?_, fun {c b' d'} hd' ha hn => ?_, fun c => ?_⟩
  · rw [hdep] at hd'
    by_cases h : a.coinPub = c ∧ b = b'
    · obtain ⟨rfl, rfl⟩ := h
      rw [← Option.some.inj (hd.symm.trans hd')]
      exact hfit
    · rw [(hin c b').1, if_neg h, add_zero]
      exact hf.fits hd'
  · rw [hdep] at hd'
    by_cases h : a.coinPub = c ∧ b = b'
    · obtain ⟨rfl, rfl⟩ := h
      rw [figure_of_known hr.toKnownRows hg hk, figure_of_known hr.toKnownRows hg hk, hone.2]
      exact hcov d' hd' (hone.1 ▸ ha)
    · rw [(hin c b').1, if_neg h, add_zero] at ha
      rw [(hin c b').2, if_neg h, add_zero] at hn ⊢
      have hkc := known_of_refundsIn hr hn
      rw [figure_of_known hr.toKnownRows hg hkc, figure_of_known hr.toKnownRows hg hkc]
      exact hf.covered hd' ha hn
  · have hw := waivers_insert? hr hg ht c
    have hwd := waivedDeposits_refund hg hc ht hd c
    have hcompl := completes_new ht (hg.depositIn hd)
    by_cases h : a.coinPub = c
    · subst h
      have hold := fullyRefunded_iff hd
      have hnew := fullyRefunded_iff (hg.depositIn hd)
      have hn0 := refundsIn_nonneg db a.coinPub b
      have hw0 := hf.waived a.coinPub
      have h₁ := a.amountWithFee.units_nonneg
      simp only [RefundArgs.row, true_and] at hw hwd hcompl
      rw [figure_of_known hr.toKnownRows hg hk, hw, hwd]
      by_cases hfull : db'.refundedIn a.coinPub b = d.amountWithFee.units
      · have hnew' : db'.fullyRefunded d = true := hnew.mpr ⟨by omega, hfull⟩
        cases hbefore : db.fullyRefunded d with
        | true =>
          -- a refund of nothing: its fee is zero, and so is the deposit fee it waives again
          have hzero : a.amountWithFee.units = 0 := by
            have := (hold.mp hbefore).2
            omega
          have hR : db.figure (·.feeRefund) a.coinPub = 0 := by
            have := figure_nonneg db (·.feeRefund) a.coinPub
            have := a.amount.units_nonneg
            omega
          have hD : db.figure (·.feeDeposit) a.coinPub = 0 := by
            have hle := hcov d hd (hone.1 ▸ hfull)
            have := figure_nonneg db (·.feeDeposit) a.coinPub
            rw [hR, zero_mul] at hle
            omega
          rw [hD, zero_mul, zero_mul]
        | false =>
          rw [if_pos (hcompl.mpr hfull), if_pos ⟨hnew', rfl⟩, mul_add, mul_add, hw0]
      · have hnew' : db'.fullyRefunded d = false := by
          by_contra h
          exact hfull (hnew.mp (by simpa using h)).2
        have hbefore : db.fullyRefunded d = false := by
          by_contra h
          have := (hold.mp (by simpa using h)).2
          omega
        rw [if_neg fun h => hfull (hcompl.mp h), if_neg (by simp [hnew']),
          if_neg (by simp [hbefore]), add_zero, add_zero, hw0]
    · refine hf.waived_of_grows hr hg (hw.trans ?_) (hwd.trans ?_)
      · rw [if_neg fun e => h e.1, add_zero]
      · rw [if_neg fun e => h e.1, if_neg fun e => h e.1, add_zero]

end RefundFates

theorem Posts.refundFates {db db' : Database} {p : Posting} (h : Posts db p db')
    (hC : CoinPostingOk db p) (hr : CoinRows db.toCoinTables) (hf : RefundFates db.toCoinTables) :
    RefundFates db'.toCoinTables := by
  have hg := h.grows
  cases h with
  | wireTarget =>
    rw [addWireTarget_frame]
    exact hf
  | initReserve =>
    rw [initReserve_frame]
    exact hf
  | reservePurse _ _ _ _ _ _ _ hpay =>
    rw [payForPurse_frame hpay]
    exact hf
  | coinDeposit ht => exact hf.deposit hr hg ht rfl
  | refund hb _ hk hd ht _ hsum hfit =>
    refine hf.refund hr hg hk rfl ht hd ?_ hC.1.1 (hC.2 _ hb (Table.insert?_eq_some.mp ht).1)
    rw [refundFits_iff (hsum ▸ normal_refundSums ..) (Amount.normal_toTaler _), hsum,
      units_refundSums] at hfit
    exact hfit
  | _ => exact hf.congr hr hg rfl rfl

/-! ## Purses -/

section Purses

variable {db db' : CoinTables}

theorem isRefunded_insert? {q : PursePub} {now : Timestamp} {b : Bool}
    (ht : db.purseDecision.insert? (fun i => ⟨i, q, now, b⟩) = some db'.purseDecision)
    (p : PursePub) : db'.isRefunded p = if q = p then b else db.isRefunded p := by
  unfold CoinTables.isRefunded
  rw [Table.lookup_insert? ht]
  by_cases h : q = p
  · rw [if_pos h, if_pos (by exact h)]
    rfl
  · rw [if_neg h, if_neg (by exact h)]

theorem isRefunded_of_undecided {p : PursePub} (h : db.purseDecision.hasKey p = false) :
    db.isRefunded p = false := by
  unfold CoinTables.isRefunded
  rw [Table.lookup_eq_none_iff_hasKey.mpr h]
  rfl

/-- A merge is not a refund. -/
theorem isRefunded_merge {q : PursePub} {now : Timestamp}
    (ht : db.purseDecision.insert? (fun i => ⟨i, q, now, false⟩) = some db'.purseDecision)
    (p : PursePub) : db'.isRefunded p = db.isRefunded p := by
  rw [isRefunded_insert? ht]
  split_ifs with h
  · exact (isRefunded_of_undecided (h ▸ (Table.insert?_eq_some.mp ht).1)).symm
  · rfl

theorem pursedBack_of_eq (hd : db'.purseDeposits = db.purseDeposits)
    (hr : ∀ p, db'.isRefunded p = db.isRefunded p) {c : CoinPub} :
    db'.pursedBack c = db.pursedBack c := by
  unfold CoinTables.pursedBack
  rw [hd]
  exact Table.total_congr fun d _ => by simp only [onlyIf, hr]

theorem pursedBack_deposit {mk : ℕ → PurseDeposit} {hs : ∀ n, Record.serial (mk n) = n}
    (ht : db.purseDeposits.insert? mk hs = some db'.purseDeposits)
    (hr : ∀ p, db'.isRefunded p = db.isRefunded p)
    (hn : db.isRefunded (mk db.purseDeposits.nextSerial).pursePub = false) {c : CoinPub} :
    db'.pursedBack c = db.pursedBack c := by
  unfold CoinTables.pursedBack
  rw [Table.total_insert? ht, onlyIf_neg (by simp [hr, hn]), add_zero]
  exact Table.total_congr fun d _ => by simp only [onlyIf, hr]

/-- A refunded purse gives back what was deposited into it. -/
theorem pursedBack_refund {q : PursePub} {now : Timestamp}
    (ht : db.purseDecision.insert? (fun i => ⟨i, q, now, true⟩) = some db'.purseDecision)
    (hd : db'.purseDeposits = db.purseDeposits) {c : CoinPub} : db'.pursedBack c =
      db.pursedBack c + restoredTo (db.purseDeposits.rows.filter fun d => d.pursePub = q) c := by
  have hq : db.isRefunded q = false := isRefunded_of_undecided (Table.insert?_eq_some.mp ht).1
  unfold CoinTables.pursedBack restoredTo
  rw [hd, Table.sum_filter, ← Table.total_add]
  refine Table.total_congr fun d _ => ?_
  simp only [onlyIf, isRefunded_insert? ht]
  by_cases hp : d.pursePub = q
  · simp [hp, hq]
  · simp [hp, Ne.symm hp]

end Purses

/-- **No deposit went into a refunded purse**, so the refunds are the deposits of these purses. -/
theorem Posts.pursedBack {db db' : Database} {p : Posting} (h : Posts db p db')
    (hC : CoinPostingOk db p) (hr : CoinRows db.toCoinTables)
    (hf : ∀ c, db.purseRefunded c = db.pursedBack c) (c : CoinPub) :
    db'.purseRefunded c = db'.pursedBack c := by
  have hg := h.grows
  have hp := h
  cases h with
  | wireTarget =>
    rw [addWireTarget_frame]
    exact hf c
  | initReserve =>
    rw [initReserve_frame]
    exact hf c
  | reservePurse _ _ _ _ _ _ _ hpay =>
    rw [payForPurse_frame hpay]
    exact hf c
  | coinDeposit _ hh => exact (purseRefunded_insert? hr hg hh (by simp) c).trans (hf c)
  | refund _ _ _ _ _ hh => exact (purseRefunded_insert? hr hg hh (by simp) c).trans (hf c)
  | melt _ hh => exact (purseRefunded_insert? hr hg hh (by simp) c).trans (hf c)
  | openDeposit _ hh => exact (purseRefunded_insert? hr hg hh (by simp) c).trans (hf c)
  | recoupToReserve _ _ hh => exact (purseRefunded_insert? hr hg hh (by simp) c).trans (hf c)
  | @recoupToCoin a _ _ _ _ _ _ _ hh hh' =>
    have hold : db.oldCoinOf a.rrcSerial = some a.oldCoinPub := hC.1
    simp only [hold, coinEntry] at hh'
    exact ((total_other_entry hh' (by simp) c db.entryAmount).trans
      (total_other_entry hh (by simp) c db.entryAmount)).trans (hf c)
  | @purseDeposit a t _ _ ht hh =>
    have hnew := hp.not_refunded hC
    refine ((purseRefunded_insert? hr hg hh (by simp) c).trans (hf c)).trans (Eq.symm ?_)
    refine pursedBack_deposit ht ?_ hnew
    exact fun _ => rfl
  | finishMerge _ _ _ _ ht =>
    refine ((purseRefunded_of_grows hr hg rfl c).trans (hf c)).trans (Eq.symm ?_)
    refine pursedBack_of_eq ?_ (isRefunded_merge ht)
    rfl
  | purseMerge _ _ _ _ _ ht =>
    refine ((purseRefunded_of_grows hr hg rfl c).trans (hf c)).trans (Eq.symm ?_)
    refine pursedBack_of_eq ?_ (isRefunded_merge ht)
    rfl
  | purseRefund _ ht hh =>
    have h₁ := purseRefunded_decision hr hg (fun d hd => decisionDeposit_new ht hd) hh c
    rw [hf c] at h₁
    refine h₁.trans (Eq.symm ?_)
    refine pursedBack_refund ht ?_
    rfl
  | _ => exact hf c

/-! ## Recoups -/

/-- Not more is recouped into a coin than was melted from it. -/
structure RecoupFates (db : CoinTables) : Prop where
  le_melted : ∀ c, db.recoupedOld c ≤ db.melted c
  recoup : ∀ r ∈ db.recoup.rows, 0 ≤ r.amount.units
  recoupRefresh : ∀ r ∈ db.recoupRefresh.rows, 0 ≤ r.amount.units

theorem Posts.recoupFates {db db' : Database} {p : Posting} (h : Posts db p db')
    (hC : CoinPostingOk db p) (hr : CoinRows db.toCoinTables) (hs : CoinsSound db.toCoinTables)
    (hf : RecoupFates db.toCoinTables) : RecoupFates db'.toCoinTables := by
  have hg := h.grows
  cases h with
  | wireTarget =>
    rw [addWireTarget_frame]
    exact hf
  | initReserve =>
    rw [initReserve_frame]
    exact hf
  | reservePurse _ _ _ _ _ _ _ hpay =>
    rw [payForPurse_frame hpay]
    exact hf
  | @melt a t _ _ ht =>
    refine ⟨fun c => ?_, hf.recoup, hf.recoupRefresh⟩
    have hm : t.total (onlyIf (fun m => m.oldCoinPub = c) fun m => m.amountWithFee.units) =
        db.melted c + if a.oldCoinPub = c then a.amountWithFee.units else 0 :=
      Table.total_insert? ht _
    have h₀ := a.amountWithFee.units_nonneg
    have h₁ := hf.le_melted c
    have h₂ := recoupedOld_of_grows hr hg rfl c
    simp only [CoinTables.melted] at h₁ hm ⊢
    rw [h₂, hm]
    split_ifs <;> omega
  | reveal =>
    exact ⟨fun c => (recoupedOld_of_grows hr hg rfl c).trans_le (hf.le_melted c), hf.recoup,
      hf.recoupRefresh⟩
  | recoupToReserve hc ht =>
    exact ⟨hf.le_melted, Table.forall_insert? ht hf.recoup (hs _ (Table.mem_of_lookup hc)).2,
      hf.recoupRefresh⟩
  | @recoupToCoin a kc t _ _ hc _ ht =>
    refine ⟨fun c => ?_, hf.recoup,
      Table.forall_insert? ht hf.recoupRefresh (hs _ (Table.mem_of_lookup hc)).2⟩
    obtain ⟨hold, hle⟩ := hC
    have hrem : db.remainingOf a.coinPub = kc.remaining.units := Table.valueAt_of_lookup hc
    have ho : t.total (onlyIf (fun r => db.oldCoinOf r.rrcSerial = some c) fun r => r.amount.units) =
        db.recoupedOld c + if db.oldCoinOf a.rrcSerial = some c then kc.remaining.units else 0 :=
      Table.total_insert? ht _
    have hold : db.oldCoinOf a.rrcSerial = some a.oldCoinPub := hold
    refine ho.trans_le ?_
    rw [hold]
    by_cases hx : a.oldCoinPub = c
    · subst hx
      rw [if_pos rfl, ← hrem]
      exact hle
    · rw [if_neg (by simpa using hx), add_zero]
      exact hf.le_melted c
  | _ => exact ⟨hf.le_melted, hf.recoup, hf.recoupRefresh⟩

/-! ## The bound -/

section Bound

variable {db : CoinTables}

/-- **Refunds give back at most the deposits**, compared batch by batch. -/
theorem RefundFates.le_deposited (hf : RefundFates db) (hr : CoinRows db) (c : CoinPub) :
    db.refunded c - db.figure (·.feeRefund) c * db.refundCount c +
      db.figure (·.feeDeposit) c * db.waivedDeposits c ≤ db.deposited c := by
  have hfib : db.refunds.total (fun r =>
      onlyIf (fun r => r.coinPub = c) (fun r => r.amountWithFee.units) r -
        db.figure (·.feeRefund) c * onlyIf (fun r => r.coinPub = c) (fun _ => 1) r) ≤
      db.coinDeposits.total (fun d =>
        onlyIf (fun d => d.coinPub = c) (fun d => d.amountWithFee.units) d -
          db.figure (·.feeDeposit) c *
            onlyIf (fun d => d.coinPub = c ∧ db.fullyRefunded d = true) (fun _ => 1) d) := by
    refine Table.total_le_of_fibers (·.batchDepositSerialId) (·.batchDepositSerialId) fun b => ?_
    have hl : db.refunds.total (onlyIf (fun r => r.batchDepositSerialId = b) fun r =>
        onlyIf (fun r => r.coinPub = c) (fun r => r.amountWithFee.units) r -
          db.figure (·.feeRefund) c * onlyIf (fun r => r.coinPub = c) (fun _ => 1) r) =
        db.refundedIn c b - db.figure (·.feeRefund) c * db.refundsIn c b := by
      unfold CoinTables.refundedIn CoinTables.refundsIn
      rw [← Table.total_mul, ← Table.total_sub]
      refine Table.total_congr fun r _ => ?_
      by_cases h₁ : r.batchDepositSerialId = b <;> by_cases h₂ : r.coinPub = c <;>
        simp [onlyIf, h₁, h₂]
    rw [hl]
    have hR := figure_nonneg db (·.feeRefund) c
    have hn := refundsIn_nonneg db c b
    have hRn := mul_nonneg hR hn
    cases hd : db.depositIn c b with
    | none =>
      have hnone : ∀ d ∈ db.coinDeposits.rows, ¬ (d.batchDepositSerialId = b ∧ d.coinPub = c) := by
        rintro d hrow ⟨rfl, rfl⟩
        obtain ⟨d', hd'⟩ := exists_depositIn hrow
        rw [hd] at hd'
        cases hd'
      rw [refundedIn_of_none hr.toKnownRows hd]
      refine le_trans (by omega) (Table.total_nonneg fun d hrow => ?_)
      by_cases hb : d.batchDepositSerialId = b
      · have hc : ¬ d.coinPub = c := fun hc => hnone d hrow ⟨hb, hc⟩
        rw [onlyIf_pos (by exact hb), onlyIf_neg (by exact hc), onlyIf_neg (by exact fun e => hc e.1),
          mul_zero, sub_zero]
      · rw [onlyIf_neg (by exact hb)]
    | some d₀ =>
      obtain ⟨hrow, hc, hb⟩ := mem_of_depositIn hd
      refine le_trans ?_ (Table.single_le_total hrow fun d hrow' hne => ?_)
      · have hfit := hf.fits hd
        have hcov := hf.covered hd
        have hfull := fullyRefunded_iff hd
        rw [onlyIf_pos (by exact hb), onlyIf_pos (by exact hc)]
        by_cases h : db.fullyRefunded d₀ = true
        · have := hcov (hfull.mp h).2 (hfull.mp h).1
          rw [onlyIf_pos (by exact ⟨hc, h⟩), mul_one]
          omega
        · rw [onlyIf_neg (fun e => h e.2), mul_zero]
          omega
      · have hno : d.coinPub = c → d.batchDepositSerialId = b → db.fullyRefunded d = false := by
          rintro rfl rfl
          simp [CoinTables.fullyRefunded, hd, Ne.symm hne]
        by_cases hb' : d.batchDepositSerialId = b
        · have hfull : ¬ (d.coinPub = c ∧ db.fullyRefunded d = true) := by
            rintro ⟨hc, h⟩
            rw [hno hc hb'] at h
            cases h
          have hzero : onlyIf (fun d => d.coinPub = c ∧ db.fullyRefunded d = true) (fun _ => 1) d = 0 :=
            onlyIf_neg hfull
          rw [onlyIf_pos (by exact hb'), hzero, mul_zero, sub_zero]
          exact onlyIf_nonneg d.amountWithFee.units_nonneg
        · rw [onlyIf_neg (by exact hb')]
  rw [Table.total_sub, Table.total_sub, Table.total_mul, Table.total_mul] at hfib
  unfold CoinTables.refunded CoinTables.refundCount CoinTables.waivedDeposits CoinTables.deposited
  omega

theorem conserved_of_fates (hr : CoinRows db) (hl : CoinLedger db) (hs : CoinsSound db) (hf : RefundFates db)
    (hp : ∀ c, db.purseRefunded c = db.pursedBack c) (hm : RecoupFates db) {kc : KnownCoin}
    (hkc : kc ∈ db.knownCoins.rows) : db.Conserved kc := by
  have hrem : db.remainingOf kc.coinPub = kc.remaining.units := Table.valueAt_of_mem hkc
  have hb := hl kc.coinPub
  unfold CoinTables.bookValue CoinTables.credits at hb
  rw [hrem, hp, hf.waived] at hb
  refine ⟨hr.denomination _ (Table.hasKey_iff.mpr ⟨kc, hkc, rfl⟩), hb, (hs kc hkc).2, ?_,
    (hs kc hkc).1⟩
  have h₁ := hf.le_deposited hr kc.coinPub
  have h₂ := hm.le_melted kc.coinPub
  have h₃ : db.pursedBack kc.coinPub ≤ db.pursed kc.coinPub := by
    refine Table.total_mono fun d _ => ?_
    have := d.amountWithFee.units_nonneg
    simp only [onlyIf]
    split_ifs <;> simp_all
  have h₄ : 0 ≤ db.opened kc.coinPub :=
    Table.total_nonneg fun d _ => onlyIf_nonneg d.contribution.units_nonneg
  have h₅ : 0 ≤ db.recouped kc.coinPub :=
    Table.total_onlyIf_nonneg fun r hrow => (hm.recoup r hrow)
  have h₆ : 0 ≤ db.recoupedFresh kc.coinPub :=
    Table.total_onlyIf_nonneg fun r hrow => (hm.recoupRefresh r hrow)
  unfold CoinTables.debits at hb
  omega

end Bound

/-! ## Runs -/

/-- **Coins are conserved** in every state that a run of admitted operations reaches. -/
theorem run_conserved {ops : List Op} (h : Admits step CoinOpOk Database.empty ops)
    {kc : KnownCoin} (hkc : kc ∈ (run step Database.empty ops).knownCoins.rows) :
    (run step Database.empty ops).Conserved kc := by
  have hinv := run_posting_invariant (C := CoinPostingOk)
    (I := fun db => CoinRows db.toCoinTables ∧ CoinLedger db.toCoinTables ∧
      CoinsSound db.toCoinTables ∧ RefundFates db.toCoinTables ∧
      (∀ c, db.purseRefunded c = db.pursedBack c) ∧ RecoupFates db.toCoinTables)
    (fun _ _ ho _ _ he => coinPostingOk_of_emits ho he) ?_ ?_ h
  · obtain ⟨hr, hl, hs, hf, hp, hm⟩ := hinv
    exact conserved_of_fates hr hl hs hf hp hm hkc
  · exact ⟨coinRows_empty, fun _ => rfl, fun _ h => (nomatch h),
      ⟨fun h => (nomatch h), fun h => (nomatch h), fun _ => rfl⟩, fun _ => rfl,
      ⟨fun _ => le_rfl, fun _ h => (nomatch h), fun _ h => (nomatch h)⟩⟩
  · rintro s p t hC hp ⟨hr, hl, hs, hf, hpb, hm⟩
    exact ⟨hp.coinRows hC.args hr, hp.coinLedger hC.args hr hl, hp.coinsSound hs,
      hp.refundFates hC hr hf, hp.pursedBack hC hr hpb, hp.recoupFates hC hr hs hm⟩

/-! ## Sample runs -/

/-- A denomination of value ten with the given deposit and refund fees, and one coin of it. -/
def coinOfTen (feeDeposit feeRefund : Amount) : List Op :=
  [.denomination ⟨1, .whole 10, .zero, feeDeposit, .zero, feeRefund⟩, .coin 7 1]

/-- A deposit of five, and its refund in full. -/
def refundOfFive (amount depositFee : Amount) : List Op :=
  [.deposit { shard := 0, merchantPub := 5, merchantSig := none, walletTimestamp := 0,
              exchangeTimestamp := 0, refundDeadline := 10, wireDeadline := 20, hContractTerms := 3,
              walletDataHash := none, wireSalt := 0, wireTargetHPayto := 4, hNormalizedPayto := 4,
              policyDetailsSerialId := none, policyBlocked := false, receiverWireAccount := "",
              coins := [⟨7, 1, .whole 5⟩] },
   .refund { amountWithFee := .whole 5, amount := amount, depositFee := depositFee,
             hContractTerms := 3, rtransactionId := 1, depositShard := 0, coinPub := 7,
             merchantPub := 5, merchantSig := 1 }]

/-- The deposit fee is below the refund fee: a refund in full leaves nine. -/
def properRefund : List Op :=
  coinOfTen (.whole 1) (.whole 2) ++ refundOfFive (.whole 3) (.whole 1)

theorem properRefund_conserved :
    (⟨1, 1, 7, 9, 0⟩ : KnownCoin) ∈ (run step Database.empty properRefund).knownCoins.rows ∧
      (run step Database.empty properRefund).Conserved ⟨1, 1, 7, 9, 0⟩ := by
  have hok : Admits step CoinOpOk Database.empty properRefund := by
    refine ⟨trivial, trivial, trivial, ⟨⟨by decide +kernel, by decide +kernel⟩, fun b _ _ => ?_⟩,
      trivial⟩
    exact waiverCovered_of_fees (by decide +kernel) _
  have hmem : (⟨1, 1, 7, 9, 0⟩ : KnownCoin) ∈ (run step Database.empty properRefund).knownCoins.rows := by
    decide +kernel
  exact ⟨hmem, run_conserved hok hmem⟩

theorem properRefund_coinLedger : CoinRows (run step Database.empty properRefund).toCoinTables ∧
    CoinLedger (run step Database.empty properRefund).toCoinTables :=
  run_coinLedger ⟨trivial, trivial, trivial, ⟨by decide +kernel, by decide +kernel⟩, trivial⟩

/-- The deposit fee is above the refund fee: a refund in full gives back more than was deposited. -/
def overRefund : List Op :=
  coinOfTen (.whole 2) (.whole 1) ++ refundOfFive (.whole 4) (.whole 2)

/-- A deposit into a purse that has expired: the coin is debited and never credited again. -/
def strandedDeposit : List Op :=
  coinOfTen .zero .zero ++
  [.createPurse { pursePub := 8, mergePub := 9, now := 0, purseExpiration := 5, hContractTerms := 3,
                  ageLimit := 0, flags := 0, inReserveQuota := false, purseFee := .zero,
                  amount := .whole 5, purseSig := 1 } [],
   .expirePurse ⟨0, 10, 10⟩,
   .purseDeposit { partnerId := none, pursePub := 8, amountWithFee := .whole 5, coinPub := 7,
                   coinSig := 1, amountWithoutFee := .whole 5, reserveExpiration := 20, now := 11 }]

theorem not_conserved :
    ¬ (∀ kc ∈ (run step Database.empty overRefund).knownCoins.rows,
        (run step Database.empty overRefund).Conserved kc) ∧
      ¬ ∀ kc ∈ (run step Database.empty strandedDeposit).knownCoins.rows,
        (run step Database.empty strandedDeposit).Conserved kc := by
  constructor
  · intro h
    exact absurd (h ⟨1, 1, 7, 11, 0⟩ (by decide +kernel)).le_value (by decide +kernel)
  · intro h
    exact absurd (h ⟨1, 1, 7, 5, 0⟩ (by decide +kernel)).balance (by decide +kernel)

end TalerExchange
