import TalerExchange.Coin.Spent

/-!
# The client's view of a coin

`compile_transaction_history` turns the transaction list of a coin into the history that
`/coins/$COIN_PUB/history` returns, and `TALER_EXCHANGE_parse_coin_history` of the client library
adds it up again. Signatures are taken to verify.

The entry for a reserve that was opened has its amount in `coin_contribution`, where the client
looks for `amount`. For every deposit into a purse that was refunded the client adds a deposit fee,
and from what is given back the exchange has taken a refund fee; the procedures do neither.

* `CoinHistoryJson`, `compileTransactionHistory`, `parseCoinHistory`: both ends;
* **`parse_compile`**: what the client makes of an honest history;
* `HistoryAccepted`, `HistoryAcceptable`: the client's sums give the balance, and when they do;
* **`run_historyAccepted`**: in every state that a run reaches the first holds iff the second does.
-/

namespace TalerExchange

open Sql Transition

/-! ## The exchange -/

/-- An entry of the history; only the fields that amounts are taken from and `refunded`. -/
inductive CoinHistoryJson
  | deposit (amount depositFee : Amount)
  | melt (amount meltFee : Amount)
  | refund (amount refundFee : Amount)
  | oldCoinRecoup (amount : Amount)
  | recoup (amount : Amount)
  | recoupRefresh (amount : Amount)
  | purseDeposit (amount : Amount) (refunded : Bool)
  | purseRefund (amount refundFee : Amount)
  | reserveOpenDeposit (coinContribution : Amount)
deriving DecidableEq, Repr

/-- One transaction; `none` if the refund fee is above the refund. -/
def CoinTransaction.compile : CoinTransaction → Option CoinHistoryJson
  | .deposit a fee => some (.deposit a fee)
  | .melt a fee => some (.melt a fee)
  | .refund a fee => (a.subtract? fee).map fun v => .refund v fee
  | .oldCoinRecoup v => some (.oldCoinRecoup v)
  | .recoup v => some (.recoup v)
  | .recoupRefresh v => some (.recoupRefresh v)
  | .purseDeposit a _ refunded => some (.purseDeposit a refunded)
  | .purseRefund a fee => (a.subtract? fee).map fun v => .purseRefund v fee
  | .reserveOpen v => some (.reserveOpenDeposit v)

/-- `compile_transaction_history`. -/
def compileTransactionHistory (tl : List CoinTransaction) : Option (List CoinHistoryJson) :=
  tl.mapM CoinTransaction.compile

/-! ## The client -/

/-- The field `amount`. -/
def CoinHistoryJson.amount? : CoinHistoryJson → Option Amount
  | .deposit a _ => some a
  | .melt a _ => some a
  | .refund a _ => some a
  | .oldCoinRecoup a => some a
  | .recoup a => some a
  | .recoupRefresh a => some a
  | .purseDeposit a _ => some a
  | .purseRefund a _ => some a
  | .reserveOpenDeposit _ => none

/-- What a helper returns besides an error. -/
inductive Direction
  | debit
  | credit
deriving DecidableEq, Repr

/-- `help_deposit`, …, `help_reserve_open_deposit`: the checks of an entry against the denomination,
with the total of the credits. -/
def CoinHistoryJson.help (dk : Denomination) (totalIn : Amount) :
    CoinHistoryJson → Option (Amount × Direction)
  | .deposit _ fee => if fee = dk.feeDeposit then some (totalIn, .debit) else none
  | .melt _ fee => if fee = dk.feeRefresh then some (totalIn, .debit) else none
  | .refund a fee =>
    if (fee.add? a).isSome = true ∧ fee = dk.feeRefund then some (totalIn, .credit) else none
  | .oldCoinRecoup _ => some (totalIn, .credit)
  | .recoup _ => some (totalIn, .debit)
  | .recoupRefresh _ => some (totalIn, .debit)
  | .purseDeposit _ true => (totalIn.add? dk.feeDeposit).map fun x => (x, .debit)
  | .purseDeposit _ false => some (totalIn, .debit)
  | .purseRefund _ fee => if fee = dk.feeRefund then some (totalIn, .credit) else none
  | .reserveOpenDeposit _ => some (totalIn, .debit)

/-- `total_in` and `total_out`. -/
structure CoinSums where
  totalIn : Amount
  totalOut : Amount
deriving DecidableEq, Repr

/-- One entry. -/
def CoinSums.parse (dk : Denomination) (s : CoinSums) (j : CoinHistoryJson) : Option CoinSums := do
  let amount ← j.amount?
  match ← j.help dk s.totalIn with
  | (totalIn, .debit) => (s.totalOut.add? amount).map fun x => ⟨totalIn, x⟩
  | (totalIn, .credit) => (totalIn.add? amount).map fun x => ⟨x, s.totalOut⟩

/-- `TALER_EXCHANGE_parse_coin_history`; `total_in` starts with the value of the coin. -/
def parseCoinHistory (dk : Denomination) (history : List CoinHistoryJson) : Option CoinSums :=
  if history = [] then none
  else history.foldlM (CoinSums.parse dk) ⟨dk.coin, Amount.zero⟩

/-! ## Both ends -/

namespace CoinTransaction

variable (dk : Denomination)

/-- The client accepts the entry. -/
def accepted : CoinTransaction → Bool
  | .deposit _ fee => fee = dk.feeDeposit
  | .melt _ fee => fee = dk.feeRefresh
  | .refund a fee => fee.units ≤ a.units ∧ fee = dk.feeRefund
  | .purseRefund a fee => fee.units ≤ a.units ∧ fee = dk.feeRefund
  | .reserveOpen _ => false
  | _ => true

/-- What the client adds to `total_in`. -/
def ins : CoinTransaction → ℤ
  | .refund a fee => a.units - fee.units
  | .oldCoinRecoup v => v.units
  | .purseDeposit _ _ refunded => if refunded then dk.feeDeposit.units else 0
  | .purseRefund a fee => a.units - fee.units
  | _ => 0

/-- What the client adds to `total_out`. -/
def outs : CoinTransaction → ℤ
  | .deposit a _ => a.units
  | .melt a _ => a.units
  | .recoup v => v.units
  | .recoupRefresh v => v.units
  | .purseDeposit a _ _ => a.units
  | _ => 0

variable {dk}

theorem ins_nonneg {t : CoinTransaction} (h : t.accepted dk = true) : 0 ≤ t.ins dk := by
  cases t with
  | refund a fee =>
    simp only [accepted, decide_eq_true_eq] at h
    simp only [ins]
    omega
  | purseRefund a fee =>
    simp only [accepted, decide_eq_true_eq] at h
    simp only [ins]
    omega
  | purseDeposit a fee b =>
    have := dk.feeDeposit.units_nonneg
    simp only [ins]
    split_ifs <;> omega
  | oldCoinRecoup v => exact v.units_nonneg
  | _ => exact le_rfl

theorem outs_nonneg (t : CoinTransaction) : 0 ≤ t.outs := by
  cases t <;> first | exact le_rfl | exact Amount.units_nonneg _

end CoinTransaction

section Parse

open CoinTransaction

variable {dk : Denomination} {s s' : CoinSums}

/-- **One transaction, compiled and parsed.** -/
theorem parse_compile_one (t : CoinTransaction) :
    (t.compile.bind (s.parse dk) = some s') ↔ t.accepted dk = true ∧
      s'.totalIn.units = s.totalIn.units + t.ins dk ∧
      s'.totalOut.units = s.totalOut.units + t.outs := by
  have debit : ∀ {i : Amount} {a : Amount},
      (s.totalOut.add? a).map (fun x => (⟨i, x⟩ : CoinSums)) = some s' ↔
        s'.totalIn = i ∧ s'.totalOut.units = s.totalOut.units + a.units := by
    intro i a
    rw [Option.map_eq_some_iff]
    constructor
    · rintro ⟨x, hx, rfl⟩
      exact ⟨rfl, Amount.add?_eq_some.mp hx⟩
    · rintro ⟨rfl, h⟩
      exact ⟨s'.totalOut, Amount.add?_eq_some.mpr h, rfl⟩
  have credit : ∀ {i : Amount} {a : Amount},
      (i.add? a).map (fun x => (⟨x, s.totalOut⟩ : CoinSums)) = some s' ↔
        s'.totalIn.units = i.units + a.units ∧ s'.totalOut = s.totalOut := by
    intro i a
    rw [Option.map_eq_some_iff]
    constructor
    · rintro ⟨x, hx, rfl⟩
      exact ⟨Amount.add?_eq_some.mp hx, rfl⟩
    · rintro ⟨h, e⟩
      exact ⟨s'.totalIn, Amount.add?_eq_some.mpr h, by rw [← e]⟩
  have same : ∀ {x y : Amount}, x = y ↔ x.units = y.units + 0 := fun {x y} =>
    ⟨fun h => by rw [h, add_zero], fun h => Amount.ext_units (h.trans (add_zero _))⟩
  -- the exchange takes the refund fee off
  have less : ∀ {a fee : Amount} {mk : Amount → CoinHistoryJson},
      (∀ v : Amount, v.units = a.units - fee.units → (s.parse dk (mk v) = some s' ↔
        fee = dk.feeRefund ∧ s'.totalIn.units = s.totalIn.units + v.units ∧
          s'.totalOut = s.totalOut)) →
      ((((a.subtract? fee).map mk).bind (s.parse dk) = some s') ↔
        (fee.units ≤ a.units ∧ fee = dk.feeRefund) ∧
          s'.totalIn.units = s.totalIn.units + (a.units - fee.units) ∧
          s'.totalOut.units = s.totalOut.units + 0) := by
    intro a fee mk hmk
    have hnn := fee.units_nonneg
    have hlt := a.units_lt
    rw [Option.bind_map, Option.bind_eq_some_iff, ← same]
    constructor
    · rintro ⟨v, hv, hp⟩
      have hv' := Amount.subtract?_eq_some.mp hv
      have hv0 := v.units_nonneg
      obtain ⟨hfee, hin, hout⟩ := (hmk v hv').mp hp
      exact ⟨⟨by omega, hfee⟩, by omega, hout⟩
    · rintro ⟨⟨hle, hfee⟩, hin, hout⟩
      obtain ⟨v, hv⟩ := Amount.exists_units (n := a.units - fee.units) (by omega) (by omega)
      exact ⟨v, Amount.subtract?_eq_some.mpr hv, (hmk v hv).mpr ⟨hfee, by omega, hout⟩⟩
  cases t with
  | deposit a fee =>
    by_cases h : fee = dk.feeDeposit
    · simp [compile, CoinSums.parse, CoinHistoryJson.amount?, CoinHistoryJson.help, accepted, ins,
        outs, h, debit, same]
    · simp [compile, CoinSums.parse, CoinHistoryJson.amount?, CoinHistoryJson.help, accepted, h]
  | melt a fee =>
    by_cases h : fee = dk.feeRefresh
    · simp [compile, CoinSums.parse, CoinHistoryJson.amount?, CoinHistoryJson.help, accepted, ins,
        outs, h, debit, same]
    · simp [compile, CoinSums.parse, CoinHistoryJson.amount?, CoinHistoryJson.help, accepted, h]
  | refund a fee =>
    simp only [compile, accepted, ins, outs, decide_eq_true_eq]
    refine less fun v hv => ?_
    have hsum : (fee.add? v).isSome = true :=
      Option.isSome_iff_exists.mpr ⟨a, Amount.add?_eq_some.mpr (by omega)⟩
    by_cases h : fee = dk.feeRefund
    · rw [h] at hsum
      simp [CoinSums.parse, CoinHistoryJson.amount?, CoinHistoryJson.help, h, hsum, credit]
    · simp [CoinSums.parse, CoinHistoryJson.amount?, CoinHistoryJson.help, h]
  | oldCoinRecoup v =>
    simp [compile, CoinSums.parse, CoinHistoryJson.amount?, CoinHistoryJson.help, accepted, ins, outs,
      credit, same]
  | recoup v =>
    simp [compile, CoinSums.parse, CoinHistoryJson.amount?, CoinHistoryJson.help, accepted, ins, outs,
      debit, same]
  | recoupRefresh v =>
    simp [compile, CoinSums.parse, CoinHistoryJson.amount?, CoinHistoryJson.help, accepted, ins, outs,
      debit, same]
  | purseDeposit a fee refunded =>
    cases refunded with
    | false =>
      simp [compile, CoinSums.parse, CoinHistoryJson.amount?, CoinHistoryJson.help, accepted, ins, outs,
        debit, same]
    | true =>
      simp only [compile, CoinSums.parse, CoinHistoryJson.amount?, CoinHistoryJson.help, accepted, ins,
        outs, Option.bind_some, Option.bind_eq_bind, Option.bind_map, Function.comp_def,
        Option.bind_eq_some_iff, debit, Amount.add?_eq_some, if_true, true_and]
      constructor
      · rintro ⟨x, hx, rfl, hout⟩
        exact ⟨hx, hout⟩
      · rintro ⟨hin, hout⟩
        exact ⟨s'.totalIn, hin, rfl, hout⟩
  | purseRefund a fee =>
    simp only [compile, accepted, ins, outs, decide_eq_true_eq]
    refine less fun v hv => ?_
    by_cases h : fee = dk.feeRefund
    · simp [CoinSums.parse, CoinHistoryJson.amount?, CoinHistoryJson.help, h, credit]
    · simp [CoinSums.parse, CoinHistoryJson.amount?, CoinHistoryJson.help, h]
  | reserveOpen v =>
    simp [compile, CoinSums.parse, CoinHistoryJson.amount?, accepted]

/-- Compiling a list and parsing the result is to compile and parse each transaction. -/
theorem compile_foldlM (tl : List CoinTransaction) :
    ((compileTransactionHistory tl).bind fun l => l.foldlM (CoinSums.parse dk) s) =
      tl.foldlM (fun s t => t.compile.bind (s.parse dk)) s := by
  unfold compileTransactionHistory
  induction tl generalizing s with
  | nil => rfl
  | cons t tl ih =>
    rw [List.mapM_cons, List.foldlM_cons]
    cases ht : t.compile with
    | none => rfl
    | some j =>
      simp only [Option.bind_eq_bind, Option.bind_some, Option.pure_def, Option.bind_assoc,
        List.foldlM_cons]
      cases hs : s.parse dk j with
      | none =>
        cases tl.mapM compile <;> rfl
      | some x => exact ih

/-- **What the client makes of an honest history.** -/
theorem parse_compile (tl : List CoinTransaction) :
    ((compileTransactionHistory tl).bind fun l => l.foldlM (CoinSums.parse dk) s) = some s' ↔
      (∀ t ∈ tl, t.accepted dk = true) ∧
      s'.totalIn.units = s.totalIn.units + (tl.map (·.ins dk)).sum ∧
      s'.totalOut.units = s.totalOut.units + (tl.map (·.outs)).sum := by
  rw [compile_foldlM]
  induction tl generalizing s with
  | nil =>
    rw [List.foldlM_nil]
    simp only [List.not_mem_nil, false_imp_iff, implies_true, true_and, List.map_nil, List.sum_nil,
      add_zero]
    constructor
    · intro h
      cases h
      exact ⟨rfl, rfl⟩
    · rintro ⟨h₁, h₂⟩
      exact congrArg some
        (congrArg₂ CoinSums.mk (Amount.ext_units h₁).symm (Amount.ext_units h₂).symm)
  | cons t tl ih =>
    rw [List.foldlM_cons, Option.bind_eq_bind, Option.bind_eq_some_iff, List.forall_mem_cons]
    simp only [parse_compile_one, ih, List.map_cons, List.sum_cons]
    constructor
    · rintro ⟨m, ⟨h₁, h₂, h₃⟩, h₄, h₅, h₆⟩
      exact ⟨⟨h₁, h₄⟩, by omega, by omega⟩
    · rintro ⟨⟨h₁, h₂⟩, h₃, h₄⟩
      -- the totals only grow, so those in between exist
      have hI : 0 ≤ (tl.map (·.ins dk)).sum := List.sum_nonneg fun x hx => by
        obtain ⟨t, ht, rfl⟩ := List.mem_map.mp hx
        exact ins_nonneg (h₂ t ht)
      have hO : 0 ≤ (tl.map (·.outs)).sum := List.sum_nonneg fun x hx => by
        obtain ⟨t, -, rfl⟩ := List.mem_map.mp hx
        exact t.outs_nonneg
      have hi := ins_nonneg h₁
      have ho := t.outs_nonneg
      have hlt := s'.totalIn.units_lt
      have hlt' := s'.totalOut.units_lt
      have h0 := s.totalIn.units_nonneg
      have h0' := s.totalOut.units_nonneg
      obtain ⟨x, hx⟩ := Amount.exists_units (n := s.totalIn.units + t.ins dk) (by omega) (by omega)
      obtain ⟨y, hy⟩ := Amount.exists_units (n := s.totalOut.units + t.outs) (by omega) (by omega)
      refine ⟨⟨x, y⟩, ⟨h₁, hx, hy⟩, h₂, ?_, ?_⟩
      · show s'.totalIn.units = x.units + _
        omega
      · show s'.totalOut.units = y.units + _
        omega

end Parse

/-! ## The history of a coin -/

/-- The deposits of coin `c` into purses that were refunded. -/
def Database.refundedDeposits (db : Database) (c : CoinPub) : ℤ :=
  db.purseDeposits.total (onlyIf (fun d => d.coinPub = c ∧ db.isRefunded d.pursePub = true) fun _ => 1)

section Sums

variable {db : Database} {c : CoinPub} {den : Denomination}

theorem recordSum_ins (h : db.Readable c den) (hk : KnownRows db.toCoinTables) :
    db.recordSum c den (fun x => x.elim 0 (CoinTransaction.ins den)) =
      db.listedRefunded c + db.purseRefunded c + db.recoupedOld c -
        den.feeRefund.units * (db.listedRefunds c + db.purseRefunds c) +
        den.feeDeposit.units * db.refundedDeposits c := by
  have hold : db.recoupRefresh.total (onlyIf (fun r => db.oldCoinOf r.rrcSerial = some c)
      fun r => (storedValue r.amount).units) = db.recoupedOld c :=
    Table.total_onlyIf_congr fun r hr hc => (read₁ (h.oldCoinRecoup r hr hc)).2
  have hrefund : db.refunds.total (onlyIf (fun r => r.coinPub = c) fun r =>
      (db.depositsIn c r.batchDepositSerialId).length *
        (r.amountWithFee.units - den.feeRefund.units)) =
      db.listedRefunded c - den.feeRefund.units * db.listedRefunds c := by
    rw [CoinTables.listedRefunds, CoinTables.listedRefunded, ← Table.total_mul, ← Table.total_sub]
    refine Table.total_congr fun r _ => ?_
    simp only [onlyIf]
    split_ifs <;> ring
  have hdecision : db.coinHistory.total (onlyIf
      (fun h => CoinTables.isEntry c .purseDecision h = true)
      fun h => (db.decisionDeposit h.serialId c).elim 0
        fun d => d.amountWithFee.units - den.feeRefund.units) =
      db.purseRefunded c - den.feeRefund.units * db.purseRefunds c := by
    rw [CoinTables.purseRefunds, CoinTables.purseRefunded, ← Table.total_mul, ← Table.total_sub]
    refine Table.total_congr fun e he => ?_
    simp only [onlyIf]
    split_ifs with hc
    · obtain ⟨d, hd⟩ := exists_decisionDeposit hk he hc
      simp only [CoinTables.isEntry, decide_eq_true_eq] at hc
      rw [CoinTables.entryAmount, hc.1, hd, Option.elim_some, Option.elim_some, mul_one]
    · ring
  have hpurse : db.purseDeposits.total (onlyIf (fun d => d.coinPub = c) fun d =>
      if db.isRefunded d.pursePub = true then den.feeDeposit.units else 0) =
      den.feeDeposit.units * db.refundedDeposits c := by
    rw [Database.refundedDeposits, ← Table.total_mul]
    refine Table.total_congr fun d _ => ?_
    simp only [onlyIf]
    by_cases h₁ : d.coinPub = c
    · by_cases h₂ : db.isRefunded d.pursePub = true
      · simp [h₁, h₂]
      · simp [h₁, h₂]
    · simp [h₁]
  rw [h.recordSum]
  simp only [CoinTransaction.ins, hold, hrefund, hdecision, hpurse, Table.total_onlyIf_zero]
  ring

theorem recordSum_outs (h : db.Readable c den) :
    db.recordSum c den (fun x => x.elim 0 CoinTransaction.outs) = db.debits c - db.opened c := by
  have hrecoup : db.recoup.total (onlyIf (fun r => r.coinPub = c)
      fun r => (storedValue r.amount).units) = db.recouped c :=
    Table.total_onlyIf_congr fun r hr hc => (read₁ (h.recoup r hr hc)).2
  have hfresh : db.recoupRefresh.total (onlyIf (fun r => r.coinPub = c)
      fun r => (storedValue r.amount).units) = db.recoupedFresh c :=
    Table.total_onlyIf_congr fun r hr hc => (read₁ (h.recoupRefresh r hr hc)).2
  have hdecision : db.coinHistory.total (onlyIf
      (fun h => CoinTables.isEntry c .purseDecision h = true)
      fun h => (db.decisionDeposit h.serialId c).elim 0 fun _ => 0) = 0 := by
    refine Table.total_eq_zero fun e _ => ?_
    simp only [onlyIf]
    cases db.decisionDeposit e.serialId c <;> simp
  rw [h.recordSum]
  simp only [CoinTransaction.outs, hrecoup, hfresh, hdecision, mul_zero, Table.total_onlyIf_zero,
    CoinTables.debits]
  simp only [CoinTables.deposited, CoinTables.melted, CoinTables.pursed]
  omega

/-- The client rejects no entry of a coin. -/
structure Database.EntriesAccepted (db : Database) (c : CoinPub) (den : Denomination) : Prop where
  reserveOpen : ∀ d ∈ db.reservesOpenDeposits.rows, d.coinPub ≠ c
  refund : ∀ r ∈ db.refunds.rows, r.coinPub = c → den.feeRefund.units ≤ r.amountWithFee.units
  purseRefund : ∀ h ∈ db.coinHistory.rows, CoinTables.isEntry c .purseDecision h = true →
    ∀ d, db.decisionDeposit h.serialId c = some d → den.feeRefund.units ≤ d.amountWithFee.units

theorem recordSum_rejected (h : db.Readable c den) (hk : KnownRows db.toCoinTables) :
    db.recordSum c den (fun x => x.elim 0 (indicator fun t => !t.accepted den)) = 0 ↔
      db.EntriesAccepted c den := by
  have hopen : ∀ d ∈ db.reservesOpenDeposits.rows, (0 : ℤ) ≤ 1 := fun _ _ => zero_le_one
  have href : ∀ r ∈ db.refunds.rows, 0 ≤ ((db.depositsIn c r.batchDepositSerialId).length : ℤ) *
      if r.amountWithFee.units < den.feeRefund.units then 1 else 0 := by
    intro r _
    split_ifs <;> omega
  have hdec : ∀ h ∈ db.coinHistory.rows, 0 ≤ (db.decisionDeposit h.serialId c).elim 0
      fun d => if d.amountWithFee.units < den.feeRefund.units then (1 : ℤ) else 0 := by
    intro h _
    cases db.decisionDeposit h.serialId c with
    | none => exact le_rfl
    | some d =>
      rw [Option.elim_some]
      split_ifs <;> omega
  have h₁ := Table.total_onlyIf_nonneg (p := fun d => d.coinPub = c) hopen
  have h₂ := Table.total_onlyIf_nonneg (p := fun r => r.coinPub = c) href
  have h₃ := Table.total_onlyIf_nonneg
    (p := fun h => CoinTables.isEntry c .purseDecision h = true) hdec
  have hsum : db.recordSum c den (fun x => x.elim 0 (indicator fun t => !t.accepted den)) = 0 ↔
      db.coinHistory.total (onlyIf (fun h => CoinTables.isEntry c .purseDecision h = true)
          fun h => (db.decisionDeposit h.serialId c).elim 0
            fun d => if d.amountWithFee.units < den.feeRefund.units then 1 else 0) = 0 ∧
        db.refunds.total (onlyIf (fun r => r.coinPub = c) fun r =>
          (db.depositsIn c r.batchDepositSerialId).length *
            if r.amountWithFee.units < den.feeRefund.units then 1 else 0) = 0 ∧
        db.reservesOpenDeposits.total (onlyIf (fun d => d.coinPub = c) fun _ => 1) = 0 := by
    rw [h.recordSum]
    simp [indicator, CoinTransaction.accepted] at h₁ h₂ h₃ ⊢
    omega
  rw [hsum, Table.total_onlyIf_eq_zero hdec, Table.total_onlyIf_eq_zero href,
    Table.total_onlyIf_eq_zero hopen]
  constructor
  · rintro ⟨ha, hb, hc⟩
    refine ⟨fun d hd e => ?_, fun r hr e => ?_, fun h hh e d hd => ?_⟩
    · exact absurd (hc d hd e) one_ne_zero
    · have := hb r hr e
      have hlen := depositsIn_pos hk hr
      rw [e] at hlen
      split_ifs at this with hlt <;> omega
    · have := ha h hh e
      rw [hd, Option.elim_some] at this
      by_contra hlt
      rw [if_pos (not_le.mp hlt)] at this
      exact absurd this one_ne_zero
  · rintro ⟨ha, hb, hc⟩
    refine ⟨fun h hh e => ?_, fun r hr e => ?_, fun d hd e => absurd e (ha d hd)⟩
    · cases hd : db.decisionDeposit h.serialId c with
      | none => rfl
      | some d => rw [Option.elim_some, if_neg (not_lt.mpr (hc h hh e d hd))]
    · rw [if_neg (not_lt.mpr (hb r hr e)), mul_zero]

end Sums

/-! ## Agreement -/

/-- **The client agrees with the balance**: it accepts every entry of the history, and the value of
the coin with what it counts is what is left of it. An empty history is not sent. -/
def Database.HistoryAccepted (db : Database) (kc : KnownCoin) (dk : Denomination) : Prop :=
  ∃ tl history, db.getCoinTransactions kc.coinPub = some tl ∧
    compileTransactionHistory tl = some history ∧
    (history = [] ∧ dk.coin.units = kc.remaining.units ∨
      ∃ sums, parseCoinHistory dk history = some sums ∧
        sums.totalIn.units - sums.totalOut.units = kc.remaining.units)

/-- When it does: all amounts can be read and added up, every entry is accepted, and what refunds in
batches with several deposits of the coin count twice, with a deposit fee for each deposit into a
purse that was refunded, comes to the deposit fees that were waived and a refund fee for each
refunded purse deposit. -/
structure Database.HistoryAcceptable (db : Database) (kc : KnownCoin) (den : Denomination) :
    Prop where
  balance : db.coinEntries kc.coinPub = [] ∨ (Amount.ofTaler? kc.remaining).isSome = true
  readable : db.Readable kc.coinPub den
  entries : db.EntriesAccepted kc.coinPub den
  totalIn : den.coin.units + (db.listedRefunded kc.coinPub + db.purseRefunded kc.coinPub +
      db.recoupedOld kc.coinPub - den.feeRefund.units *
        (db.listedRefunds kc.coinPub + db.purseRefunds kc.coinPub) +
      den.feeDeposit.units * db.refundedDeposits kc.coinPub) < Amount.unitsBound
  totalOut : db.debits kc.coinPub < Amount.unitsBound
  fees : db.repeatedRefunds kc.coinPub den +
      den.feeDeposit.units * db.refundedDeposits kc.coinPub =
    den.feeDeposit.units * db.waivers kc.coinPub +
      den.feeRefund.units * db.purseRefunds kc.coinPub

section Agreement

variable {db : Database} {c : CoinPub} {den : Denomination}

theorem opened_eq_zero (h : db.EntriesAccepted c den) : db.opened c = 0 :=
  Table.total_eq_zero fun d hd => onlyIf_neg (h.reserveOpen d hd)

/-- What the client's sums come to, by the ledger. -/
theorem sums_sub_remaining (hl : CoinLedger db.toCoinTables) {kc : KnownCoin}
    (hkc : db.knownCoins.lookup c = some kc) (hden : db.denominationOf c = some den) :
    den.coin.units + (db.listedRefunded c + db.purseRefunded c + db.recoupedOld c -
        den.feeRefund.units * (db.listedRefunds c + db.purseRefunds c) +
        den.feeDeposit.units * db.refundedDeposits c) - db.debits c - kc.remaining.units =
      db.repeatedRefunds c den + den.feeDeposit.units * db.refundedDeposits c -
        (den.feeDeposit.units * db.waivers c + den.feeRefund.units * db.purseRefunds c) := by
  have h := totals_sub_value hl hkc hden
  linarith

theorem all_accepted_iff (tl : List CoinTransaction) :
    (∀ t ∈ tl, t.accepted den = true) ↔
      (tl.map (indicator fun t => !t.accepted den)).sum = 0 := by
  have hany := any_iff_sum (fun t => !t.accepted den) tl
  have hnn := sum_indicator_nonneg (fun t => !t.accepted den) tl
  constructor
  · intro h
    have : ¬ tl.any (fun t => !t.accepted den) = true := by
      rw [List.any_eq_true]
      rintro ⟨t, ht, hn⟩
      simp [h t ht] at hn
    rw [hany] at this
    omega
  · intro h t ht
    by_contra hn
    have := hany.mp (List.any_eq_true.mpr ⟨t, ht, by simpa using hn⟩)
    omega

/-- An entry that is sent is parsed, and one that is not changes nothing. -/
theorem accepted_iff_foldlM {kc : KnownCoin} {dk : Denomination} :
    db.HistoryAccepted kc dk ↔ ∃ tl sums, db.getCoinTransactions kc.coinPub = some tl ∧
      ((compileTransactionHistory tl).bind fun l =>
        l.foldlM (CoinSums.parse dk) ⟨dk.coin, Amount.zero⟩) = some sums ∧
      sums.totalIn.units - sums.totalOut.units = kc.remaining.units := by
  constructor
  · rintro ⟨tl, history, htl, hc, ⟨rfl, hv⟩ | ⟨sums, hp, hv⟩⟩
    · refine ⟨tl, ⟨dk.coin, Amount.zero⟩, htl, ?_, ?_⟩
      · rw [hc]
        rfl
      · rw [← hv, show Amount.zero.units = 0 from rfl, sub_zero]
    · unfold parseCoinHistory at hp
      split_ifs at hp
      exact ⟨tl, sums, htl, by rw [hc]; exact hp, hv⟩
  · rintro ⟨tl, sums, htl, hb, hv⟩
    obtain ⟨history, hc, hp⟩ := Option.bind_eq_some_iff.mp hb
    refine ⟨tl, history, htl, hc, ?_⟩
    by_cases he : history = []
    · subst he
      cases hp
      rw [show Amount.zero.units = 0 from rfl, sub_zero] at hv
      exact Or.inl ⟨rfl, hv⟩
    · exact Or.inr ⟨sums, by rw [parseCoinHistory, if_neg he]; exact hp, hv⟩

/-- **The client accepts the history of a coin iff the fees are those it assumes.** -/
theorem historyAccepted_iff (hr : HistoryRows db) (hd : DepositRows (fun _ _ _ _ => True) db)
    {kc : KnownCoin} (hkc : kc ∈ db.knownCoins.rows)
    (hden : db.denominationOf kc.coinPub = some den) :
    db.HistoryAccepted kc den ↔ db.HistoryAcceptable kc den := by
  have hlook : db.knownCoins.lookup kc.coinPub = some kc := Table.lookup_eq_some.mpr ⟨hkc, rfl⟩
  have htot := sums_sub_remaining hr.ledger hlook hden
  have hread : (∃ tl : List CoinTransaction, db.transactionRows kc.coinPub = tl.map some) ↔
      db.Readable kc.coinPub den := by
    rw [exists_list_iff, rowSum_transactionRows hr hd hden, recordSum_unreadable hr.toKnownRows]
  have hparse : ∀ {tl : List CoinTransaction} {sums : CoinSums},
      db.transactionRows kc.coinPub = tl.map some → db.Readable kc.coinPub den →
      (((compileTransactionHistory tl).bind fun l =>
          l.foldlM (CoinSums.parse den) ⟨den.coin, Amount.zero⟩) = some sums ↔
        db.EntriesAccepted kc.coinPub den ∧
        sums.totalIn.units = den.coin.units + (db.listedRefunded kc.coinPub +
          db.purseRefunded kc.coinPub + db.recoupedOld kc.coinPub - den.feeRefund.units *
            (db.listedRefunds kc.coinPub + db.purseRefunds kc.coinPub) +
          den.feeDeposit.units * db.refundedDeposits kc.coinPub) ∧
        sums.totalOut.units = db.debits kc.coinPub - db.opened kc.coinPub) := by
    intro tl sums htl hre
    rw [parse_compile, all_accepted_iff, sum_list hr hd hden htl, sum_list hr hd hden htl,
      sum_list hr hd hden htl, recordSum_rejected hre hr.toKnownRows,
      recordSum_ins hre hr.toKnownRows, recordSum_outs hre, show Amount.zero.units = 0 from rfl,
      zero_add]
  rw [accepted_iff_foldlM]
  constructor
  · rintro ⟨tl, sums, hget, hp, hval⟩
    obtain ⟨hbal, htl⟩ := (getCoinTransactions_eq_some hlook hden).mp hget
    have hre := hread.mp ⟨tl, htl⟩
    obtain ⟨hacc, hin, hout⟩ := (hparse htl hre).mp hp
    rw [opened_eq_zero hacc, sub_zero] at hout
    have h₁ := sums.totalIn.units_lt
    have h₂ := sums.totalOut.units_lt
    exact ⟨hbal, hre, hacc, by omega, by omega, by omega⟩
  · rintro ⟨hbal, hre, hacc, h₁, h₂, h₃⟩
    obtain ⟨tl, htl⟩ := hread.mpr hre
    have h0 := (hr.sound kc hkc).2
    have hopen := opened_eq_zero hacc
    have hdebits : 0 ≤ db.debits kc.coinPub - db.opened kc.coinPub := by
      rw [← recordSum_outs hre, ← sum_list hr hd hden htl]
      refine List.sum_nonneg fun x hx => ?_
      obtain ⟨t, -, rfl⟩ := List.mem_map.mp hx
      exact t.outs_nonneg
    obtain ⟨y, hy⟩ := Amount.exists_units (n := db.debits kc.coinPub) (by omega) h₂
    obtain ⟨x, hx⟩ := Amount.exists_units (by omega) h₁
    refine ⟨tl, ⟨x, y⟩, (getCoinTransactions_eq_some hlook hden).mpr ⟨hbal, htl⟩,
      (hparse htl hre).mpr ⟨hacc, hx, by rw [hopen, sub_zero]; exact hy⟩, ?_⟩
    show x.units - y.units = kc.remaining.units
    omega

end Agreement

/-- **The client's view of a coin.** In every state that a run reaches, the client accepts the
history of a coin and finds its balance exactly if no reserve was opened with the coin, no refund is
below the refund fee and the fees that were waived and kept are those that it assumes. -/
theorem run_historyAccepted {ops : List Op} (h : Admits step HistoryCallerOk Database.empty ops)
    {kc : KnownCoin} (hkc : kc ∈ (run step Database.empty ops).knownCoins.rows) :
    ∃ den, (run step Database.empty ops).denominationOf kc.coinPub = some den ∧
      ((run step Database.empty ops).HistoryAccepted kc den ↔
        (run step Database.empty ops).HistoryAcceptable kc den) := by
  obtain ⟨hr, hd⟩ := run_history h
  obtain ⟨den, hden⟩ := hr.denomination kc.coinPub (Table.hasKey_iff.mpr ⟨kc, hkc, rfl⟩)
  exact ⟨den, hden, historyAccepted_iff hr hd hkc hden⟩

theorem partialRefund_accepted :
    ∃ den, (run step Database.empty partialRefund).HistoryAccepted ⟨1, 1, 7, 7, 0⟩ den ∧
      (run step Database.empty partialRefund).HistoryAcceptable ⟨1, 1, 7, 7, 0⟩ den := by
  have hok : Admits step HistoryCallerOk Database.empty partialRefund :=
    ⟨trivial, trivial, trivial, ⟨by decide +kernel, by decide +kernel⟩, trivial⟩
  have hcoin : (⟨1, 1, 7, 7, 0⟩ : KnownCoin) ∈
      (run step Database.empty partialRefund).knownCoins.rows := by decide +kernel
  obtain ⟨den, hden, hiff⟩ := run_historyAccepted hok hcoin
  have e : (run step Database.empty partialRefund).denominationOf 7 =
      some ⟨1, 1, .whole 10, .zero, .whole 1, .zero, .zero⟩ := by
    decide +kernel
  cases hden.symm.trans e
  have hacc : (run step Database.empty partialRefund).HistoryAccepted ⟨1, 1, 7, 7, 0⟩
      ⟨1, 1, .whole 10, .zero, .whole 1, .zero, .zero⟩ :=
    ⟨[.deposit (.whole 5) (.whole 1), .refund (.whole 2) .zero],
      [.deposit (.whole 5) (.whole 1), .refund (.whole 2) .zero], by decide +kernel,
      by decide +kernel, Or.inr ⟨⟨.whole 12, .whole 5⟩, by decide +kernel, by decide +kernel⟩⟩
  exact ⟨_, hacc, hiff.mp hacc⟩

/-- Two of a coin of ten pay for a reserve to be kept open. -/
def openedReserve : List Op :=
  coinOfTen .zero .zero ++ [.reserveOpenDeposit ⟨7, 1, 2, 3, .whole 2⟩]

/-- After a refund in full the client misses the deposit fee that was waived, after a refunded purse
deposit it has a refund fee too many, and a history with a reserve that was opened it rejects. -/
theorem not_historyAccepted :
    (Admits step HistoryCallerOk Database.empty properRefund ∧
      (⟨1, 1, 7, 9, 0⟩ : KnownCoin) ∈ (run step Database.empty properRefund).knownCoins.rows ∧
      ¬ (run step Database.empty properRefund).HistoryAccepted ⟨1, 1, 7, 9, 0⟩
        ⟨1, 1, .whole 10, .zero, .whole 1, .zero, .whole 2⟩) ∧
    (Admits step HistoryCallerOk Database.empty lapsedPurse ∧
      (⟨1, 1, 7, 10, 0⟩ : KnownCoin) ∈ (run step Database.empty lapsedPurse).knownCoins.rows ∧
      ¬ (run step Database.empty lapsedPurse).HistoryAccepted ⟨1, 1, 7, 10, 0⟩
        ⟨1, 1, .whole 10, .zero, .zero, .zero, .whole 1⟩) ∧
    Admits step HistoryCallerOk Database.empty openedReserve ∧
      (⟨1, 1, 7, 8, 0⟩ : KnownCoin) ∈ (run step Database.empty openedReserve).knownCoins.rows ∧
      ¬ (run step Database.empty openedReserve).HistoryAccepted ⟨1, 1, 7, 8, 0⟩
        ⟨1, 1, .whole 10, .zero, .zero, .zero, .zero⟩ := by
  refine ⟨⟨⟨trivial, trivial, trivial, ⟨by decide +kernel, by decide +kernel⟩, trivial⟩,
    by decide +kernel, ?_⟩, ⟨⟨trivial, trivial, trivial, trivial, trivial⟩, by decide +kernel, ?_⟩,
    ⟨trivial, trivial, trivial, trivial⟩, by decide +kernel, ?_⟩ <;> rw [accepted_iff_foldlM]
  · rintro ⟨tl, sums, htl, hsums, hval⟩
    have e : (run step Database.empty properRefund).getCoinTransactions 7 =
        some [.deposit (.whole 5) (.whole 1), .refund (.whole 5) (.whole 2)] := by decide +kernel
    cases htl.symm.trans e
    obtain ⟨-, hin, hout⟩ := (parse_compile _).mp hsums
    rw [hin, hout] at hval
    exact absurd hval (by decide +kernel)
  · rintro ⟨tl, sums, htl, hsums, hval⟩
    have e : (run step Database.empty lapsedPurse).getCoinTransactions 7 =
        some [.purseDeposit (.whole 5) .zero true, .purseRefund (.whole 5) (.whole 1)] := by
      decide +kernel
    cases htl.symm.trans e
    obtain ⟨-, hin, hout⟩ := (parse_compile _).mp hsums
    rw [hin, hout] at hval
    exact absurd hval (by decide +kernel)
  · rintro ⟨tl, sums, htl, hsums, -⟩
    have e : (run step Database.empty openedReserve).getCoinTransactions 7 =
        some [.reserveOpen (.whole 2)] := by decide +kernel
    cases htl.symm.trans e
    exact absurd ((parse_compile _).mp hsums).1 (by decide +kernel)

end TalerExchange
