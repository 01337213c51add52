import TalerExchange.Coin.Figures

/-!
# The coin ledger

Every balance in `known_coins` is what the records say: the value of the denomination minus the
recorded debits plus the recorded credits.

* `Grows`: what the tables say about a coin, a deposit, a decision or a refreshed coin stays said;
* `KnownRows`, `CoinRows`: the references between the rows resolve;
* `CoinLedger`: every balance equals `bookValue`;
* **`Posts.coinLedger`**: every posting keeps the ledger, **`run_coinLedger`**: so does every run.
-/

namespace TalerExchange

open Sql Transition

/-! ## What is known stays known -/

/-- The lookups that the figures go through only gain results. -/
structure Grows (db db' : CoinTables) : Prop where
  known : ∀ c, db.knownCoins.hasKey c = true → db'.knownCoins.hasKey c = true
  denominationOf : ∀ {c d}, db.denominationOf c = some d → db'.denominationOf c = some d
  depositIn : ∀ {c b d}, db.depositIn c b = some d → db'.depositIn c b = some d
  decisionDeposit : ∀ {n c d}, db.decisionDeposit n c = some d → db'.decisionDeposit n c = some d
  oldCoinOf : ∀ {n c}, db.oldCoinOf n = some c → db'.oldCoinOf n = some c

section Grows

variable {db : CoinTables}

theorem denominationOf_insert_denomination {t : Table Denomination} {mk : ℕ → Denomination}
    {hs : ∀ n, Record.serial (mk n) = n} (ht : db.denominations.insert? mk hs = some t)
    {c : CoinPub} {d : Denomination} (h : db.denominationOf c = some d) :
    { db with denominations := t }.denominationOf c = some d := by
  obtain ⟨kc, hkc, hd⟩ := Option.bind_eq_some_iff.mp h
  exact Option.bind_eq_some_iff.mpr ⟨kc, hkc, Table.lookupSerial_insert?_of_some ht hd⟩

theorem denominationOf_insert_coin {t : Table KnownCoin} {mk : ℕ → KnownCoin}
    {hs : ∀ n, Record.serial (mk n) = n} (ht : db.knownCoins.insert? mk hs = some t)
    {c : CoinPub} {d : Denomination} (h : db.denominationOf c = some d) :
    { db with knownCoins := t }.denominationOf c = some d := by
  obtain ⟨kc, hkc, hd⟩ := Option.bind_eq_some_iff.mp h
  exact Option.bind_eq_some_iff.mpr ⟨kc, Table.lookup_insert?_of_some ht hkc, hd⟩

theorem denominationOf_new_coin {t : Table KnownCoin} {c : CoinPub} {d : Denomination}
    (hd : d ∈ db.denominations.rows)
    (ht : db.knownCoins.insert? (fun i => ⟨i, d.denominationsSerial, c, d.coin⟩) = some t) :
    { db with knownCoins := t }.denominationOf c = some d :=
  Option.bind_eq_some_iff.mpr
    ⟨_, Table.lookup_insert?_self ht, Table.lookupSerial_eq_some.mpr ⟨hd, rfl⟩⟩

/-- A new coin has the figures of its denomination. -/
theorem figure_insert_coin {t : Table KnownCoin} {c : CoinPub} {d : Denomination}
    (hd : d ∈ db.denominations.rows)
    (ht : db.knownCoins.insert? (fun i => ⟨i, d.denominationsSerial, c, d.coin⟩) = some t)
    (f : Denomination → Amount) (x : CoinPub) :
    { db with knownCoins := t }.figure f x = db.figure f x + if x = c then (f d).units else 0 := by
  split_ifs with h
  · subst h
    have hnew : db.knownCoins.hasKey x = false := (Table.insert?_eq_some.mp ht).1
    rw [figure_of_lookup (denominationOf_new_coin hd ht), figure_of_unknown hnew, zero_add]
  · unfold CoinTables.figure CoinTables.denominationOf
    rw [Table.lookup_insert? ht, if_neg (by exact fun e => h e.symm), add_zero]

theorem depositIn_insert? {t : Table CoinDeposit} {mk : ℕ → CoinDeposit}
    {hs : ∀ n, Record.serial (mk n) = n} (ht : db.coinDeposits.insert? mk hs = some t)
    {c : CoinPub} {b : ℕ} {d : CoinDeposit} (h : db.depositIn c b = some d) :
    { db with coinDeposits := t }.depositIn c b = some d := by
  unfold CoinTables.depositIn at h ⊢
  rw [Table.rows_insert? ht, List.find?_append, h]
  rfl

theorem decisionDeposit_insert_deposit {t : Table PurseDeposit} {mk : ℕ → PurseDeposit}
    {hs : ∀ n, Record.serial (mk n) = n} (ht : db.purseDeposits.insert? mk hs = some t)
    {n : ℕ} {c : CoinPub} {d : PurseDeposit} (h : db.decisionDeposit n c = some d) :
    { db with purseDeposits := t }.decisionDeposit n c = some d := by
  obtain ⟨p, hp, hd⟩ := Option.bind_eq_some_iff.mp h
  exact Option.bind_eq_some_iff.mpr ⟨p, hp, Table.lookup_insert?_of_some ht hd⟩

theorem decisionDeposit_insert_decision {t : Table PurseDecision} {mk : ℕ → PurseDecision}
    {hs : ∀ n, Record.serial (mk n) = n} (ht : db.purseDecision.insert? mk hs = some t)
    {n : ℕ} {c : CoinPub} {d : PurseDeposit} (h : db.decisionDeposit n c = some d) :
    { db with purseDecision := t }.decisionDeposit n c = some d := by
  obtain ⟨p, hp, hd⟩ := Option.bind_eq_some_iff.mp h
  exact Option.bind_eq_some_iff.mpr ⟨p, Table.lookupSerial_insert?_of_some ht hp, hd⟩

theorem oldCoinOf_insert_melt {t : Table RefreshCommitment} {mk : ℕ → RefreshCommitment}
    {hs : ∀ n, Record.serial (mk n) = n} (ht : db.refreshCommitments.insert? mk hs = some t)
    {n : ℕ} {c : CoinPub} (h : db.oldCoinOf n = some c) :
    { db with refreshCommitments := t }.oldCoinOf n = some c := by
  obtain ⟨rrc, hrrc, h⟩ := Option.bind_eq_some_iff.mp h
  obtain ⟨melt, hm, h⟩ := Option.bind_eq_some_iff.mp h
  exact Option.bind_eq_some_iff.mpr ⟨rrc, hrrc, Option.bind_eq_some_iff.mpr
    ⟨melt, Table.lookupSerial_insert?_of_some ht hm, h⟩⟩

theorem oldCoinOf_insert_reveal {t : Table RefreshRevealedCoin} {mk : ℕ → RefreshRevealedCoin}
    {hs : ∀ n, Record.serial (mk n) = n} (ht : db.refreshRevealedCoins.insert? mk hs = some t)
    {n : ℕ} {c : CoinPub} (h : db.oldCoinOf n = some c) :
    { db with refreshRevealedCoins := t }.oldCoinOf n = some c := by
  obtain ⟨rrc, hrrc, h⟩ := Option.bind_eq_some_iff.mp h
  exact Option.bind_eq_some_iff.mpr ⟨rrc, Table.lookupSerial_insert?_of_some ht hrrc, h⟩

theorem denominationOf_setRemaining (db : CoinTables) (c x : CoinPub)
    (f : TalerAmount → TalerAmount) :
    { db with knownCoins := db.setRemaining c f }.denominationOf x = db.denominationOf x :=
  denominationOf_update (by intro r; rfl) db.denominations x

/-- **Nothing known is forgotten.** -/
theorem Posts.grows {db db' : Database} {p : Posting} (h : Posts db p db') :
    Grows db.toCoinTables db'.toCoinTables := by
  have set : ∀ {x c : CoinPub} {f : TalerAmount → TalerAmount} {d : Denomination},
      db.denominationOf x = some d →
        { db.toCoinTables with knownCoins := db.setRemaining c f }.denominationOf x = some d :=
    fun h => (denominationOf_setRemaining ..).trans h
  cases h with
  | wireTarget =>
    rw [addWireTarget_frame]
    exact ⟨fun _ h => h, fun h => h, fun h => h, fun h => h, fun h => h⟩
  | initReserve =>
    rw [initReserve_frame]
    exact ⟨fun _ h => h, fun h => h, fun h => h, fun h => h, fun h => h⟩
  | reservePurse _ _ _ _ _ _ _ hpay =>
    rw [payForPurse_frame hpay]
    exact ⟨fun _ h => h, fun h => h, fun h => h, fun h => h, fun h => h⟩
  | denomination ht =>
    exact ⟨fun _ h => h, denominationOf_insert_denomination ht, fun h => h, fun h => h, fun h => h⟩
  | coin _ ht =>
    exact ⟨fun _ => Table.hasKey_insert?_of_hasKey ht, denominationOf_insert_coin ht, fun h => h,
      fun h => h, fun h => h⟩
  | coinDeposit ht =>
    exact ⟨fun _ => by simp, set, depositIn_insert? ht, fun h => h, fun h => h⟩
  | refund => exact ⟨fun _ => by simp, set, fun h => h, fun h => h, fun h => h⟩
  | melt ht => exact ⟨fun _ => by simp, set, fun h => h, fun h => h, oldCoinOf_insert_melt ht⟩
  | reveal ht => exact ⟨fun _ h => h, fun h => h, fun h => h, fun h => h, oldCoinOf_insert_reveal ht⟩
  | openDeposit => exact ⟨fun _ => by simp, set, fun h => h, fun h => h, fun h => h⟩
  | recoupToReserve => exact ⟨fun _ => by simp, set, fun h => h, fun h => h, fun h => h⟩
  | recoupToCoin =>
    exact ⟨fun _ => by simp [Table.hasKey_update],
      fun h => (denominationOf_update (by intro r; rfl) _ _).trans (set h),
      fun h => h, fun h => h, fun h => h⟩
  | purseDeposit ht =>
    exact ⟨fun _ => by simp, set, fun h => h, decisionDeposit_insert_deposit ht, fun h => h⟩
  | finishMerge _ _ _ _ ht =>
    exact ⟨fun _ h => h, fun h => h, fun h => h, decisionDeposit_insert_decision ht, fun h => h⟩
  | purseMerge _ _ _ _ _ ht =>
    exact ⟨fun _ h => h, fun h => h, fun h => h, decisionDeposit_insert_decision ht, fun h => h⟩
  | purseRefund _ ht =>
    exact ⟨fun _ h => (hasKey_restored ..).trans h, fun h => (denominationOf_restored ..).trans h,
      fun h => h, decisionDeposit_insert_decision ht, fun h => h⟩
  | _ => exact ⟨fun _ h => h, fun h => h, fun h => h, fun h => h, fun h => h⟩

end Grows

/-! ## References -/

/-- The references between the rows resolve that the database makes sure of. -/
structure KnownRows (db : CoinTables) : Prop where
  denomination : ∀ c, db.knownCoins.hasKey c = true → ∃ d, db.denominationOf c = some d
  refund : ∀ r ∈ db.refunds.rows, db.knownCoins.hasKey r.coinPub = true ∧
    ∃ d, db.depositIn r.coinPub r.batchDepositSerialId = some d
  pursed : ∀ d ∈ db.purseDeposits.rows, db.knownCoins.hasKey d.coinPub = true
  decision : ∀ h ∈ db.coinHistory.rows, h.tableName = .purseDecision →
    ∃ d, db.decisionDeposit h.serialId h.coinPub = some d

/-- All references between the rows resolve. -/
structure CoinRows (db : CoinTables) : Prop extends KnownRows db where
  oldCoin : ∀ r ∈ db.recoupRefresh.rows, ∃ c, db.oldCoinOf r.rrcSerial = some c

/-- An entry for another table does not count. -/
theorem total_other_entry {t t' : Table CoinHistory} {mk : ℕ → CoinHistory}
    {hs : ∀ n, Record.serial (mk n) = n} (h : t.insert? mk hs = some t')
    (hne : ∀ n, (mk n).tableName ≠ .purseDecision) (c : CoinPub) (f : CoinHistory → ℤ) :
    t'.total (onlyIf (fun h => CoinTables.isEntry c .purseDecision h = true) f) =
      t.total (onlyIf (fun h => CoinTables.isEntry c .purseDecision h = true) f) := by
  rw [Table.total_insert? h, onlyIf_neg (by simp [CoinTables.isEntry, hne]), add_zero]

theorem knownRows_empty : KnownRows Database.empty.toCoinTables :=
  ⟨fun _ h => (nomatch h), fun _ h => (nomatch h), fun _ h => (nomatch h), fun _ h => (nomatch h)⟩

theorem coinRows_empty : CoinRows Database.empty.toCoinTables :=
  ⟨knownRows_empty, fun _ h => (nomatch h)⟩

/-- Unknown coins have no refunds. -/
theorem CoinRows.no_refund {db : CoinTables} (hr : CoinRows db) {c : CoinPub}
    (hc : db.knownCoins.hasKey c = false) : ∀ r ∈ db.refunds.rows, r.coinPub ≠ c := by
  intro r hrow e
  have h := (hr.refund r hrow).1
  rw [e, hc] at h
  exact absurd h (by decide)

theorem waivers_of_unknown {db : CoinTables} (hr : CoinRows db) {c : CoinPub}
    (hc : db.knownCoins.hasKey c = false) : db.waivers c = 0 :=
  Table.total_eq_zero fun r hrow => onlyIf_neg fun h => hr.no_refund hc r hrow h.1

section Figures

variable {db db' : CoinTables} (hr : KnownRows db) (hg : Grows db db')
include hr hg

theorem figure_of_known {c : CoinPub} (hc : db.knownCoins.hasKey c = true)
    (f : Denomination → Amount) : db'.figure f c = db.figure f c := by
  obtain ⟨d, hd⟩ := hr.denomination c hc
  rw [figure_of_lookup hd, figure_of_lookup (hg.denominationOf hd)]

theorem figure_of_grows (hk : ∀ c, db'.knownCoins.hasKey c = db.knownCoins.hasKey c)
    (f : Denomination → Amount) (c : CoinPub) : db'.figure f c = db.figure f c := by
  cases h : db.knownCoins.hasKey c with
  | false => rw [figure_of_unknown h, figure_of_unknown ((hk c).trans h)]
  | true => exact figure_of_known hr hg h f

end Figures

section Rows

variable {db db' : CoinTables} (hr : CoinRows db) (hg : Grows db db')
include hr hg

theorem waivers_of_grows (h : db'.refunds = db.refunds) (c : CoinPub) :
    db'.waivers c = db.waivers c := by
  unfold CoinTables.waivers
  rw [h]
  refine Table.total_congr fun r hrow => ?_
  obtain ⟨-, d, hd⟩ := hr.refund r hrow
  have hc : db'.completes r = db.completes r := by
    unfold CoinTables.completes CoinTables.refundedUpTo
    rw [h, hd, hg.depositIn hd]
  simp only [onlyIf, hc]

theorem recoupedOld_of_grows (h : db'.recoupRefresh = db.recoupRefresh) (c : CoinPub) :
    db'.recoupedOld c = db.recoupedOld c := by
  unfold CoinTables.recoupedOld
  rw [h]
  refine Table.total_congr fun r hrow => ?_
  obtain ⟨old, ho⟩ := hr.oldCoin r hrow
  simp only [onlyIf, ho, hg.oldCoinOf ho]

/-- The entries about decided purses keep their amounts. -/
theorem entryAmount_of_grows (c : CoinPub) : ∀ h ∈ db.coinHistory.rows,
    onlyIf (fun h => CoinTables.isEntry c .purseDecision h = true) db'.entryAmount h =
      onlyIf (fun h => CoinTables.isEntry c .purseDecision h = true) db.entryAmount h := by
  intro h hrow
  by_cases ht : h.tableName = .purseDecision
  · obtain ⟨d, hd⟩ := hr.decision h hrow ht
    simp only [onlyIf, CoinTables.entryAmount, hd, hg.decisionDeposit hd]
  · simp [onlyIf, CoinTables.isEntry, ht]

theorem purseRefunded_of_grows (h : db'.coinHistory = db.coinHistory) (c : CoinPub) :
    db'.purseRefunded c = db.purseRefunded c := by
  unfold CoinTables.purseRefunded
  rw [h]
  exact Table.total_congr (entryAmount_of_grows hr hg c)

theorem purseRefunded_insert? {mk : ℕ → CoinHistory} {hs : ∀ n, Record.serial (mk n) = n}
    (h : db.coinHistory.insert? mk hs = some db'.coinHistory)
    (ht : ∀ n, (mk n).tableName ≠ .purseDecision) (c : CoinPub) :
    db'.purseRefunded c = db.purseRefunded c :=
  (total_other_entry h ht c _).trans (Table.total_congr (entryAmount_of_grows hr hg c))

end Rows

/-- Old rows keep their references; only the new ones are to be checked. -/
theorem KnownRows.step {db db' : CoinTables} (hr : KnownRows db) (hg : Grows db db')
    (hk : ∀ c, db'.knownCoins.hasKey c = true → db.knownCoins.hasKey c = true ∨
      ∃ d, db'.denominationOf c = some d)
    (hf : ∀ r ∈ db'.refunds.rows, r ∈ db.refunds.rows ∨ (db'.knownCoins.hasKey r.coinPub = true ∧
      ∃ d, db'.depositIn r.coinPub r.batchDepositSerialId = some d))
    (hp : ∀ d ∈ db'.purseDeposits.rows, d ∈ db.purseDeposits.rows ∨
      db'.knownCoins.hasKey d.coinPub = true)
    (hh : ∀ h ∈ db'.coinHistory.rows, h.tableName = .purseDecision → h ∈ db.coinHistory.rows ∨
      ∃ d, db'.decisionDeposit h.serialId h.coinPub = some d) : KnownRows db' where
  denomination c hc := (hk c hc).elim
    (fun h => (hr.denomination c h).imp fun _ hd => hg.denominationOf hd) id
  refund r hrow := (hf r hrow).elim
    (fun h => ⟨hg.known _ (hr.refund r h).1, (hr.refund r h).2.imp fun _ hd => hg.depositIn hd⟩) id
  pursed d hrow := (hp d hrow).elim (fun h => hg.known _ (hr.pursed d h)) id
  decision h hrow ht := (hh h hrow ht).elim
    (fun hold => (hr.decision h hold ht).imp fun _ hd => hg.decisionDeposit hd) id

theorem CoinEntries.mem {t : HistoryTable} {n : ℕ} {h h' : Table CoinHistory} {cs : List CoinPub}
    (hc : CoinEntries t n h cs h') {e : CoinHistory} (he : e ∈ h'.rows) :
    e ∈ h.rows ∨ (e.coinPub ∈ cs ∧ e.serialId = n) := by
  induction hc with
  | nil => exact Or.inl he
  | cons hi _ ih =>
    rcases ih he with h | ⟨h, hn⟩
    · rcases (Table.mem_insert? hi).mp h with h | rfl
      · exact Or.inl h
      · exact Or.inr ⟨by simp, rfl⟩
    · exact Or.inr ⟨by simp [h], hn⟩

theorem mem_depositsOf {db : Database} {p : PursePub} {d : PurseDeposit} :
    d ∈ db.depositsOf p ↔ d ∈ db.purseDeposits.rows ∧ d.pursePub = p := by
  simp [Database.depositsOf]

/-- The arguments of the coin procedures are those that the request handlers compute: the fees of
the coin's denomination, and the coin that the recouped coin was refreshed from. -/
def CoinArgsOk (db : Database) : Posting → Prop
  | .refund a => a.amount.units + db.figure (·.feeRefund) a.coinPub = a.amountWithFee.units ∧
      a.depositFee.units = db.figure (·.feeDeposit) a.coinPub
  | .recoupToCoin a => db.oldCoinOf a.rrcSerial = some a.oldCoinPub
  | _ => True

section Posting

variable {db db' : Database} {p : Posting}

theorem decisionDeposit_new {t : Table PurseDecision} {q : PursePub} {now : Timestamp}
    (ht : db.purseDecision.insert? (fun i => ⟨i, q, now, true⟩) = some t) {d : PurseDeposit}
    (hd : d ∈ db.depositsOf q) :
    { db.toCoinTables with purseDecision := t }.decisionDeposit db.purseDecision.nextSerial
      d.coinPub = some d := by
  obtain ⟨hrow, hq⟩ := mem_depositsOf.mp hd
  refine Option.bind_eq_some_iff.mpr ⟨_, Table.lookupSerial_insert?_self ht, ?_⟩
  exact Table.lookup_eq_some.mpr ⟨hrow, by rw [← hq]; rfl⟩

theorem Posts.knownRows (h : Posts db p db') (hr : KnownRows db.toCoinTables) :
    KnownRows db'.toCoinTables := by
  have hg := h.grows
  have entry : ∀ {mk : ℕ → CoinHistory} {hs : ∀ n, Record.serial (mk n) = n}
      {t t' : Table CoinHistory}, t.insert? mk hs = some t' →
      (∀ n, (mk n).tableName ≠ .purseDecision) →
      ∀ e ∈ t'.rows, e.tableName = .purseDecision → e ∈ t.rows := by
    intro mk hs t t' hi hne e he ht
    rcases (Table.mem_insert? hi).mp he with he | rfl
    · exact he
    · exact absurd ht (hne _)
  cases h with
  | wireTarget =>
    rw [addWireTarget_frame] at hg ⊢
    exact hr.step hg (fun _ => .inl) (fun _ => .inl) (fun _ => .inl) (fun _ h _ => .inl h)
  | initReserve =>
    rw [initReserve_frame] at hg ⊢
    exact hr.step hg (fun _ => .inl) (fun _ => .inl) (fun _ => .inl) (fun _ h _ => .inl h)
  | reservePurse _ _ _ _ _ _ _ hpay =>
    rw [payForPurse_frame hpay] at hg ⊢
    exact hr.step hg (fun _ => .inl) (fun _ => .inl) (fun _ => .inl) (fun _ h _ => .inl h)
  | @coin _ d _ hd ht =>
    refine hr.step hg (fun c hc => ?_) (fun _ => .inl) (fun _ => .inl) (fun _ h _ => .inl h)
    rw [Table.hasKey_insert? ht, Bool.or_eq_true, decide_eq_true_eq] at hc
    refine hc.imp id fun hc => ⟨d, ?_⟩
    rw [← hc]
    exact denominationOf_new_coin hd ht
  | coinDeposit _ hh =>
    exact hr.step hg (fun _ h => .inl (by simpa using h)) (fun _ => .inl) (fun _ => .inl)
      (fun e he ht => .inl (entry hh (by simp) e he ht))
  | refund _ _ hk hd ht hh =>
    refine hr.step hg (fun _ h => .inl (by simpa using h)) (fun r hrow => ?_) (fun _ => .inl)
      (fun e he ht => .inl (entry hh (by simp) e he ht))
    rcases (Table.mem_insert? ht).mp hrow with h | rfl
    · exact Or.inl h
    · exact Or.inr ⟨hg.known _ hk, _, hd⟩
  | melt _ hh =>
    exact hr.step hg (fun _ h => .inl (by simpa using h)) (fun _ => .inl) (fun _ => .inl)
      (fun e he ht => .inl (entry hh (by simp) e he ht))
  | openDeposit _ hh =>
    exact hr.step hg (fun _ h => .inl (by simpa using h)) (fun _ => .inl) (fun _ => .inl)
      (fun e he ht => .inl (entry hh (by simp) e he ht))
  | recoupToReserve _ _ hh =>
    exact hr.step hg (fun _ h => .inl (by simpa using h)) (fun _ => .inl) (fun _ => .inl)
      (fun e he ht => .inl (entry hh (by simp) e he ht))
  | recoupToCoin _ _ _ hh hh' =>
    refine hr.step hg (fun _ h => .inl (by simpa [Table.hasKey_update] using h)) (fun _ => .inl)
      (fun _ => .inl) (fun e he ht => .inl ?_)
    unfold coinEntry at hh'
    split at hh'
    · exact entry hh (by simp) e (entry hh' (by simp) e he ht) ht
    · exact entry hh (by simp) e (Option.some.inj hh' ▸ he) ht
  | purseDeposit ht hh _ hl =>
    refine hr.step hg (fun _ h => .inl (by simpa using h)) (fun _ => .inl) (fun d hrow => ?_)
      (fun e he ht => .inl (entry hh (by simp) e he ht))
    rcases (Table.mem_insert? ht).mp hrow with h | rfl
    · exact Or.inl h
    · exact Or.inr (hg.known _ (Table.hasKey_of_lookup hl))
  | purseRefund _ ht hh =>
    refine hr.step hg (fun _ h => .inl ((hasKey_restored ..).symm.trans h)) (fun _ => .inl)
      (fun _ => .inl) (fun e he _ => ?_)
    refine (hh.mem he).imp id fun hnew => ?_
    obtain ⟨hc, hn⟩ := hnew
    obtain ⟨d, hd, hdc⟩ := List.mem_map.mp hc
    rw [hn, ← hdc]
    exact ⟨d, decisionDeposit_new ht hd⟩
  | _ => exact hr.step hg (fun _ => .inl) (fun _ => .inl) (fun _ => .inl) (fun _ h _ => .inl h)

theorem Posts.coinRows (h : Posts db p db') (hC : CoinArgsOk db p) (hr : CoinRows db.toCoinTables) :
    CoinRows db'.toCoinTables := by
  have hg := h.grows
  have hold : ∀ x ∈ db.recoupRefresh.rows, ∃ c, db'.oldCoinOf x.rrcSerial = some c := fun x hrow =>
    (hr.oldCoin x hrow).imp fun _ => hg.oldCoinOf
  refine ⟨h.knownRows hr.toKnownRows, ?_⟩
  cases h with
  | wireTarget =>
    rw [addWireTarget_frame] at hold ⊢
    exact hold
  | initReserve =>
    rw [initReserve_frame] at hold ⊢
    exact hold
  | reservePurse _ _ _ _ _ _ _ hpay =>
    rw [payForPurse_frame hpay] at hold ⊢
    exact hold
  | recoupToCoin _ _ ht =>
    intro x hrow
    rcases (Table.mem_insert? ht).mp hrow with h | rfl
    · exact hold x h
    · exact ⟨_, hg.oldCoinOf hC⟩
  | _ => exact hold

end Posting

/-! ## The ledger -/

/-- **The coin ledger.** -/
def CoinLedger (db : CoinTables) : Prop := ∀ c, db.remainingOf c = db.bookValue c

section Ledger

variable {db db' : CoinTables}

/-- The credits other than refunds. -/
theorem credits_step (hr : CoinRows db) (hg : Grows db db')
    (hk : ∀ c, db'.knownCoins.hasKey c = db.knownCoins.hasKey c) (hf : db'.refunds = db.refunds)
    {c : CoinPub} {δ₁ δ₂ : ℤ} (hp : db'.purseRefunded c = db.purseRefunded c + δ₁)
    (ho : db'.recoupedOld c = db.recoupedOld c + δ₂) : db'.credits c = db.credits c + (δ₁ + δ₂) := by
  unfold CoinTables.credits
  rw [figure_of_grows hr.toKnownRows hg hk, figure_of_grows hr.toKnownRows hg hk, waivers_of_grows hr hg hf, ho, hp]
  unfold CoinTables.refunded CoinTables.refundCount
  rw [hf]
  omega

theorem credits_of_grows (hr : CoinRows db) (hg : Grows db db')
    (hk : ∀ c, db'.knownCoins.hasKey c = db.knownCoins.hasKey c) (hf : db'.refunds = db.refunds)
    (hp : ∀ c, db'.purseRefunded c = db.purseRefunded c)
    (ho : db'.recoupRefresh = db.recoupRefresh) (c : CoinPub) : db'.credits c = db.credits c := by
  have h := credits_step hr hg hk hf ((hp c).trans (add_zero _).symm)
    ((recoupedOld_of_grows hr hg ho c).trans (add_zero _).symm)
  rw [h, add_zero, add_zero]

/-- A recorded debit keeps the ledger. -/
theorem CoinLedger.debit (hl : CoinLedger db) (hr : CoinRows db) (hg : Grows db db') {c : CoinPub}
    {kc : KnownCoin} {a : Amount} (hc : db.knownCoins.lookup c = some kc)
    (hk : db'.knownCoins = db.setRemaining c (·.minus a))
    (hd : ∀ x, db'.debits x = db.debits x + if c = x then a.units else 0)
    (hcr : ∀ x, db'.credits x = db.credits x) : CoinLedger db' := by
  have hkey : db.knownCoins.hasKey c = true :=
    Table.hasKey_of_lookup hc
  have hsame : ∀ x, db'.knownCoins.hasKey x = db.knownCoins.hasKey x := by
    intro x
    rw [hk, CoinTables.hasKey_setRemaining]
  intro x
  have hb := hl x
  unfold CoinTables.bookValue at hb ⊢
  rw [figure_of_grows hr.toKnownRows hg hsame, hd, hcr]
  unfold CoinTables.remainingOf
  rw [hk, valueAt_debit hkey, Amount.units_toTaler]
  simp only [eq_comm (a := c)]
  omega

/-- A recorded credit keeps the ledger. -/
theorem CoinLedger.credit (hl : CoinLedger db) (hr : CoinRows db) (hg : Grows db db') {c : CoinPub}
    {a : TalerAmount} (hc : db.knownCoins.hasKey c = true)
    (hk : db'.knownCoins = db.setRemaining c (·.plus a)) (hd : ∀ x, db'.debits x = db.debits x)
    (hcr : ∀ x, db'.credits x = db.credits x + if c = x then a.units else 0) : CoinLedger db' := by
  have hsame : ∀ x, db'.knownCoins.hasKey x = db.knownCoins.hasKey x := by
    intro x
    rw [hk, CoinTables.hasKey_setRemaining]
  intro x
  have hb := hl x
  unfold CoinTables.bookValue at hb ⊢
  rw [figure_of_grows hr.toKnownRows hg hsame, hd, hcr]
  unfold CoinTables.remainingOf
  rw [hk, valueAt_credit hc]
  simp only [eq_comm (a := c)]
  omega

/-- Tables that say the same about every coin. -/
theorem CoinLedger.congr (hl : CoinLedger db) (hr : CoinRows db) (hg : Grows db db')
    (hk : db'.knownCoins = db.knownCoins) (hd : ∀ x, db'.debits x = db.debits x)
    (hcr : ∀ x, db'.credits x = db.credits x) : CoinLedger db' := by
  intro x
  have hb := hl x
  unfold CoinTables.bookValue at hb ⊢
  rw [figure_of_grows hr.toKnownRows hg (fun c => by rw [hk]), hd, hcr, ← hb]
  unfold CoinTables.remainingOf
  rw [hk]

theorem waivers_insert? (hr : CoinRows db) (hg : Grows db db') {mk : ℕ → Refund}
    {hs : ∀ n, Record.serial (mk n) = n} (ht : db.refunds.insert? mk hs = some db'.refunds)
    (c : CoinPub) : db'.waivers c = db.waivers c +
      if (mk db.refunds.nextSerial).coinPub = c ∧ db'.completes (mk db.refunds.nextSerial) = true
      then 1 else 0 := by
  unfold CoinTables.waivers
  rw [Table.total_insert? ht]
  refine congrArg₂ _ (Table.total_congr fun r hrow => ?_) rfl
  obtain ⟨-, d, hd⟩ := hr.refund r hrow
  have hlt : r.refundSerialId < db.refunds.nextSerial := Table.serial_le hrow
  have hn : (mk db.refunds.nextSerial).refundSerialId = db.refunds.nextSerial := hs _
  have hup : db'.refundedUpTo r.coinPub r.batchDepositSerialId r.refundSerialId =
      db.refundedUpTo r.coinPub r.batchDepositSerialId r.refundSerialId := by
    unfold CoinTables.refundedUpTo
    rw [Table.total_insert? ht, onlyIf_neg (by omega), add_zero]
  have hc : db'.completes r = db.completes r := by
    unfold CoinTables.completes
    rw [hup, hd, hg.depositIn hd]
  simp only [onlyIf, hc]

/-- The newest refund completes the refund of its deposit if the refunds add up to it. -/
theorem completes_new {a : RefundArgs} {b : ℕ}
    (ht : db.refunds.insert? (a.row b) = some db'.refunds) {d : CoinDeposit}
    (hd : db'.depositIn a.coinPub b = some d) :
    db'.completes (a.row b db.refunds.nextSerial) = true ↔
      db'.refundedIn a.coinPub b = d.amountWithFee.units := by
  have hup := refundedUpTo_of_le db' a.coinPub b (n := db.refunds.nextSerial)
    (by simp [Table.nextSerial, Table.rows_insert? ht])
  simp only [CoinTables.completes, RefundArgs.row, hd, Option.any_some, hup, decide_eq_true_eq]

/-- The totals of a table that got one entry per coin. -/
theorem CoinEntries.total {t : HistoryTable} {n : ℕ} {h h' : Table CoinHistory} {cs : List CoinPub}
    (hc : CoinEntries t n h cs h') {f : CoinHistory → ℤ} {g : CoinPub → ℤ}
    (hf : ∀ i c, f ⟨i, c, t, n⟩ = g c) : h'.total f = h.total f + (cs.map g).sum := by
  induction hc with
  | nil => exact (add_zero _).symm
  | cons hi _ ih =>
    rw [ih, Table.total_insert? hi, hf, List.map_cons, List.sum_cons]
    omega

/-- The entries about a refunded purse stand for its deposits. -/
theorem purseRefunded_decision (hr : CoinRows db) (hg : Grows db db') {ds : List PurseDeposit}
    {n : ℕ} (hdec : ∀ d ∈ ds, db'.decisionDeposit n d.coinPub = some d)
    (hh : CoinEntries .purseDecision n db.coinHistory (ds.map (·.coinPub)) db'.coinHistory)
    (c : CoinPub) : db'.purseRefunded c = db.purseRefunded c + restoredTo ds c := by
  unfold CoinTables.purseRefunded
  rw [hh.total (g := fun x => onlyIf (fun h => CoinTables.isEntry c .purseDecision h = true)
    db'.entryAmount ⟨0, x, .purseDecision, n⟩) fun _ _ => rfl,
    Table.total_congr (entryAmount_of_grows hr hg c), List.map_map]
  refine congrArg₂ _ rfl (congrArg List.sum (List.map_congr_left fun d hrow => ?_))
  simp [onlyIf, CoinTables.isEntry, CoinTables.entryAmount, hdec d hrow]

end Ledger

/-! ## One lemma per kind of posting -/

section Kinds

variable {db db' : CoinTables} (hl : CoinLedger db) (hr : CoinRows db) (hg : Grows db db')
include hl hr hg

/-- A new coin starts with the value of its denomination. -/
theorem CoinLedger.coin {c : CoinPub} {d : Denomination}
    (ht : db.knownCoins.insert? (fun i => ⟨i, d.denominationsSerial, c, d.coin⟩) =
      some db'.knownCoins)
    (hfig : ∀ f x, db'.figure f x = db.figure f x + if x = c then (f d).units else 0)
    (hd : ∀ x, db'.debits x = db.debits x) (hf : db'.refunds = db.refunds)
    (hh : db'.coinHistory = db.coinHistory) (ho : db'.recoupRefresh = db.recoupRefresh) :
    CoinLedger db' := by
  have hnew : db.knownCoins.hasKey c = false := (Table.insert?_eq_some.mp ht).1
  have hcount : db.refundCount c = 0 :=
    Table.total_eq_zero fun r hrow => onlyIf_neg (hr.no_refund hnew r hrow)
  have hwaive := waivers_of_unknown hr hnew
  intro x
  have hb := hl x
  have hval : db'.remainingOf x = db.remainingOf x + if c = x then d.coin.units else 0 :=
    Table.valueAt_insert? ht (fun kc => kc.remaining.units) x
  have hrf : db'.refunded x = db.refunded x ∧ db'.refundCount x = db.refundCount x := by
    unfold CoinTables.refunded CoinTables.refundCount
    rw [hf]
    exact ⟨rfl, rfl⟩
  unfold CoinTables.bookValue CoinTables.credits at hb ⊢
  rw [hval, hd, hrf.1, hrf.2, waivers_of_grows hr hg hf, recoupedOld_of_grows hr hg ho,
    purseRefunded_of_grows hr hg hh, hfig, hfig, hfig]
  by_cases hx : c = x
  · subst hx
    rw [hcount, hwaive] at hb ⊢
    simp only [if_true, mul_zero] at hb ⊢
    omega
  · simp only [hx, Ne.symm hx, if_false, add_zero]
    exact hb

/-- A refund credits its amount without the refund fee, and the deposit fee if it completes the
refund of the deposit. -/
theorem CoinLedger.refund {a : RefundArgs} {b : ℕ} {d : CoinDeposit} {sum : TalerAmount}
    (hc : db.knownCoins.hasKey a.coinPub = true)
    (ha : a.amount.units + db.figure (·.feeRefund) a.coinPub = a.amountWithFee.units)
    (hfee : a.depositFee.units = db.figure (·.feeDeposit) a.coinPub)
    (hdep : db'.depositIn a.coinPub b = some d)
    (ht : db.refunds.insert? (a.row b) = some db'.refunds)
    (hsum : sum = (db'.refundSums a.coinPub b).normalize)
    (hk : db'.knownCoins = db.setRemaining a.coinPub (·.plus (a.credit sum d.amountWithFee)))
    (hd : ∀ x, db'.debits x = db.debits x) (hp : ∀ x, db'.purseRefunded x = db.purseRefunded x)
    (ho : db'.recoupRefresh = db.recoupRefresh) : CoinLedger db' := by
  have hsame : ∀ x, db'.knownCoins.hasKey x = db.knownCoins.hasKey x := by
    intro x
    rw [hk, CoinTables.hasKey_setRemaining]
  have hn : sum.Normal := hsum ▸ normal_refundSums ..
  have hunits : sum.units = db'.refundedIn a.coinPub b := hsum ▸ units_refundSums ..
  have hcu := units_refund_credit a hn d.amountWithFee.normal_toTaler
  have hcompl := completes_new ht hdep
  rw [← hunits] at hcompl
  refine hl.credit hr hg hc hk hd fun x => ?_
  have hrf : db'.refunded x = db.refunded x + if a.coinPub = x then a.amountWithFee.units else 0 :=
    Table.total_insert? ht _
  have hct : db'.refundCount x = db.refundCount x + if a.coinPub = x then 1 else 0 :=
    Table.total_insert? ht _
  unfold CoinTables.credits
  rw [hrf, hct, hp, recoupedOld_of_grows hr hg ho, figure_of_grows hr.toKnownRows hg hsame,
    figure_of_grows hr.toKnownRows hg hsame, waivers_insert? hr hg ht, hcu, Amount.units_toTaler]
  simp only [hcompl]
  by_cases hx : a.coinPub = x
  · subst hx
    by_cases hs : sum.units = d.amountWithFee.units
    · simp only [RefundArgs.row, hs, and_self, if_true, mul_add, mul_one]
      omega
    · simp only [RefundArgs.row, hs, and_false, if_true, if_false, mul_add, mul_one, mul_zero]
      omega
  · simp only [RefundArgs.row, hx, false_and, if_false, add_zero]

/-- A recoup takes all that is left of the coin. -/
theorem CoinLedger.recoup {c : CoinPub} {kc : KnownCoin}
    (hc : db.knownCoins.lookup c = some kc)
    (hk : db'.knownCoins = db.setRemaining c fun _ => TalerAmount.zero)
    (hd : ∀ x, db'.debits x = db.debits x + if c = x then kc.remaining.units else 0)
    (hcr : ∀ x, db'.credits x = db.credits x) : CoinLedger db' := by
  have hsame : ∀ x, db'.knownCoins.hasKey x = db.knownCoins.hasKey x := by
    intro x
    rw [hk, CoinTables.hasKey_setRemaining]
  intro x
  have hb := hl x
  unfold CoinTables.bookValue at hb ⊢
  rw [figure_of_grows hr.toKnownRows hg hsame, hd, hcr]
  unfold CoinTables.remainingOf
  rw [hk, valueAt_emptied hc]
  simp only [eq_comm (a := c)]
  omega

/-- A recoup into the coin that the recouped coin was refreshed from. -/
theorem CoinLedger.recoupRefresh {c old : CoinPub} {kc : KnownCoin}
    (hc : db.knownCoins.lookup c = some kc) (ho : db.knownCoins.hasKey old = true)
    (hk : db'.knownCoins = (db.setRemaining c fun _ => TalerAmount.zero).update
      (fun x => x.coinPub = old) fun x => { x with remaining := x.remaining.plus kc.remaining })
    (hd : ∀ x, db'.debits x = db.debits x + if c = x then kc.remaining.units else 0)
    (hcr : ∀ x, db'.credits x = db.credits x + if old = x then kc.remaining.units else 0) :
    CoinLedger db' := by
  have hsame : ∀ x, db'.knownCoins.hasKey x = db.knownCoins.hasKey x := by
    intro x
    rw [hk, Table.hasKey_update, CoinTables.hasKey_setRemaining]
  intro x
  have hb := hl x
  unfold CoinTables.bookValue at hb ⊢
  rw [figure_of_grows hr.toKnownRows hg hsame, hd, hcr]
  unfold CoinTables.remainingOf
  rw [hk, valueAt_change ((CoinTables.hasKey_setRemaining ..).trans ho)
    (fun r => TalerAmount.units_plus r kc.remaining), valueAt_emptied hc]
  simp only [eq_comm (a := c), eq_comm (a := old)]
  omega

/-- A refunded purse gives its deposits back. -/
theorem CoinLedger.purseRefund {ds : List PurseDeposit} {n : ℕ}
    (hds : ∀ d ∈ ds, db.knownCoins.hasKey d.coinPub = true)
    (hdec : ∀ d ∈ ds, db'.decisionDeposit n d.coinPub = some d)
    (hh : CoinEntries .purseDecision n db.coinHistory (ds.map (·.coinPub)) db'.coinHistory)
    (hk : db'.knownCoins = restored db.knownCoins ds) (hd : ∀ x, db'.debits x = db.debits x)
    (hf : db'.refunds = db.refunds) (ho : db'.recoupRefresh = db.recoupRefresh) :
    CoinLedger db' := by
  have hsame : ∀ x, db'.knownCoins.hasKey x = db.knownCoins.hasKey x := by
    intro x
    rw [hk, hasKey_restored]
  intro x
  have hcr := credits_step hr hg hsame hf (purseRefunded_decision hr hg hdec hh x)
    ((recoupedOld_of_grows hr hg ho x).trans (add_zero _).symm)
  have hb := hl x
  unfold CoinTables.bookValue at hb ⊢
  rw [figure_of_grows hr.toKnownRows hg hsame, hd, hcr]
  unfold CoinTables.remainingOf at hb ⊢
  rw [hk, valueAt_restored hds]
  omega

end Kinds

/-! ## Every posting -/

/-- **Every posting with proper arguments keeps the ledger.** -/
theorem Posts.coinLedger {db db' : Database} {p : Posting} (h : Posts db p db')
    (hC : CoinArgsOk db p) (hr : CoinRows db.toCoinTables) (hl : CoinLedger db.toCoinTables) :
    CoinLedger db'.toCoinTables := by
  have hg := h.grows
  cases h with
  | wireTarget =>
    rw [addWireTarget_frame]
    exact hl
  | initReserve =>
    rw [initReserve_frame]
    exact hl
  | reservePurse _ _ _ _ _ _ _ hpay =>
    rw [payForPurse_frame hpay]
    exact hl
  | coin hd ht =>
    exact hl.coin hr hg ht (figure_insert_coin hd ht) (fun _ => rfl) rfl rfl rfl
  | @coinDeposit _ c t _ _ ht hh _ hc =>
    refine hl.debit hr hg hc rfl (fun x => ?_) (credits_of_grows hr hg
      (fun _ => db.hasKey_setRemaining ..) rfl (purseRefunded_insert? hr hg hh (by simp)) rfl)
    have hi : t.total (onlyIf (fun d => d.coinPub = x) fun d => d.amountWithFee.units) =
        db.deposited x + if c.coinPub = x then c.amountWithFee.units else 0 := Table.total_insert? ht _
    simp only [CoinTables.debits, CoinTables.deposited, CoinTables.melted, CoinTables.pursed,
      CoinTables.opened, CoinTables.recouped, CoinTables.recoupedFresh, hi]
    omega
  | refund _ _ hk hd ht hh hsum _ =>
    exact hl.refund hr hg hk hC.1 hC.2 hd ht hsum rfl (fun _ => rfl)
      (purseRefunded_insert? hr hg hh (by simp)) rfl
  | @melt a t _ _ ht hh hc =>
    refine hl.debit hr hg hc rfl (fun x => ?_) (credits_of_grows hr hg
      (fun _ => db.hasKey_setRemaining ..) rfl (purseRefunded_insert? hr hg hh (by simp)) rfl)
    have hi : t.total (onlyIf (fun m => m.oldCoinPub = x) fun m => m.amountWithFee.units) =
        db.melted x + if a.oldCoinPub = x then a.amountWithFee.units else 0 := Table.total_insert? ht _
    simp only [CoinTables.debits, CoinTables.deposited, CoinTables.melted, CoinTables.pursed,
      CoinTables.opened, CoinTables.recouped, CoinTables.recoupedFresh, hi]
    omega
  | @openDeposit a t _ _ ht hh hc =>
    refine hl.debit hr hg hc rfl (fun x => ?_) (credits_of_grows hr hg
      (fun _ => db.hasKey_setRemaining ..) rfl (purseRefunded_insert? hr hg hh (by simp)) rfl)
    have hi : t.total (onlyIf (fun d => d.coinPub = x) fun d => d.contribution.units) =
        db.opened x + if a.coinPub = x then a.coinTotal.units else 0 := Table.total_insert? ht _
    simp only [CoinTables.debits, CoinTables.deposited, CoinTables.melted, CoinTables.pursed,
      CoinTables.opened, CoinTables.recouped, CoinTables.recoupedFresh, hi]
    omega
  | @purseDeposit a t _ _ ht hh _ hc =>
    refine hl.debit hr hg hc rfl (fun x => ?_) (credits_of_grows hr hg
      (fun _ => db.hasKey_setRemaining ..) rfl (purseRefunded_insert? hr hg hh (by simp)) rfl)
    have hi : t.total (onlyIf (fun d => d.coinPub = x) fun d => d.amountWithFee.units) =
        db.pursed x + if a.coinPub = x then a.amountWithFee.units else 0 := Table.total_insert? ht _
    simp only [CoinTables.debits, CoinTables.deposited, CoinTables.melted, CoinTables.pursed,
      CoinTables.opened, CoinTables.recouped, CoinTables.recoupedFresh, hi]
    omega
  | @recoupToReserve a kc t _ _ hc ht hh =>
    refine hl.recoup hr hg hc rfl (fun x => ?_) (credits_of_grows hr hg
      (fun _ => db.hasKey_setRemaining ..) rfl (purseRefunded_insert? hr hg hh (by simp)) rfl)
    have hi : t.total (onlyIf (fun r => r.coinPub = x) fun r => r.amount.units) =
        db.recouped x + if a.coinPub = x then kc.remaining.units else 0 := Table.total_insert? ht _
    simp only [CoinTables.debits, CoinTables.deposited, CoinTables.melted, CoinTables.pursed,
      CoinTables.opened, CoinTables.recouped, CoinTables.recoupedFresh, hi]
    omega
  | @recoupToCoin a kc t _ _ hc hold ht hh hh' =>
    have hC : db.oldCoinOf a.rrcSerial = some a.oldCoinPub := hC
    simp only [hC, coinEntry] at hh'
    refine hl.recoupRefresh hr hg hc hold rfl (fun x => ?_) fun x => ?_
    · have hi : t.total (onlyIf (fun r => r.coinPub = x) fun r => r.amount.units) =
          db.recoupedFresh x + if a.coinPub = x then kc.remaining.units else 0 :=
        Table.total_insert? ht _
      simp only [CoinTables.debits, CoinTables.deposited, CoinTables.melted, CoinTables.pursed,
      CoinTables.opened, CoinTables.recouped, CoinTables.recoupedFresh, hi]
      omega
    · have ho : t.total (onlyIf (fun r => db.oldCoinOf r.rrcSerial = some x) fun r => r.amount.units) =
          db.recoupedOld x + if db.oldCoinOf a.rrcSerial = some x then kc.remaining.units else 0 :=
        Table.total_insert? ht _
      have hp := (total_other_entry hh' (by simp) x db.entryAmount).trans
        (total_other_entry hh (by simp) x db.entryAmount)
      simp only [hC, Option.some.injEq] at ho
      refine (credits_step hr hg (fun _ => ?_) rfl (hp.trans (add_zero _).symm) ho).trans ?_
      · rw [Table.hasKey_update, CoinTables.hasKey_setRemaining]
      · rw [zero_add]
  | purseRefund _ ht hh =>
    exact hl.purseRefund hr hg (fun d hd => hr.pursed d (mem_depositsOf.mp hd).1)
      (fun d hd => decisionDeposit_new ht hd) hh rfl (fun _ => rfl) rfl rfl
  | _ =>
    exact hl.congr hr hg rfl (fun _ => rfl) (credits_of_grows hr hg (fun _ => rfl) rfl
      (purseRefunded_of_grows hr hg rfl) rfl)

/-! ## Runs -/

/-- The same for operations. -/
def CoinCallerOk (db : Database) : Op → Prop
  | .refund a => CoinArgsOk db (.refund a)
  | .recoupToCoin a => CoinArgsOk db (.recoupToCoin a)
  | _ => True

theorem coinArgsOk_of_emits {db s : Database} {o : Op} {p : Posting} (ho : CoinCallerOk db o)
    (he : Emits db o s p) : CoinArgsOk s p := by
  cases p with
  | refund a =>
    obtain ⟨rfl, rfl⟩ := emits_refund he
    exact ho
  | recoupToCoin a =>
    obtain ⟨rfl, rfl⟩ := emits_recoupToCoin he
    exact ho
  | _ => trivial

/-- **The ledger holds in every state that a run reaches.** -/
theorem run_coinLedger {ops : List Op} (h : Admits step CoinCallerOk Database.empty ops) :
    CoinRows (run step Database.empty ops).toCoinTables ∧
      CoinLedger (run step Database.empty ops).toCoinTables := by
  refine run_posting_invariant (C := CoinArgsOk)
    (I := fun db => CoinRows db.toCoinTables ∧ CoinLedger db.toCoinTables)
    (fun _ _ ho _ _ he => coinArgsOk_of_emits ho he) ⟨coinRows_empty, fun _ => rfl⟩
    (fun _ _ _ hC hp hi => ⟨hp.coinRows hC hi.1, hp.coinLedger hC hi.1 hi.2⟩) h

end TalerExchange
