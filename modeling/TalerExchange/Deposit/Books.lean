import TalerExchange.Coin.Figures
import TalerExchange.Posting.Simulation
import TalerExchange.Transition.Idempotent

/-!
# The books of batch deposits

`exchange_do_deposit` inserts a row for each coin that has none with its signature and debits the
coin. Without the identity columns this is a partial step on two functions, the coins and their
deposits, and these steps commute and are idempotent.

* `DepositBooks`, `DepositBooks.deposit`: the abstract step for one coin;
* **`steady_deposit`**: the steps commute and are absorbed, if the signature determines the amount;
* `books`: the books in a database;
* **`applyAll_of_depositCoins`**, **`depositCoins_of_applyAll`**: the loop over the coins is these
  steps.
-/

namespace TalerExchange

open Sql Transition

/-! ## Debits -/

/-- `known_coins` after a debit. -/
def debited (t : Table KnownCoin) (c : CoinPub) (a : TalerAmount) : Table KnownCoin :=
  t.update (fun kc => kc.coinPub = c) fun kc => { kc with remaining := kc.remaining.minus a }

section Debits

variable {t : Table KnownCoin} {c x : CoinPub} {r a b : TalerAmount}

theorem minus_comm (hr : r.Normal) (ha : a.Normal) (hb : b.Normal) :
    (r.minus a).minus b = (r.minus b).minus a := by
  refine TalerAmount.eq_of_units (TalerAmount.normal_minus (TalerAmount.normal_minus hr ha) hb)
    (TalerAmount.normal_minus (TalerAmount.normal_minus hr hb) ha) ?_
  simp only [TalerAmount.units_minus]
  omega

/-- Two debits that go through in one order go through in the other. -/
theorem covers_comm (hr : r.Normal) (ha : a.Normal) (hb : b.Normal) (ha0 : 0 ≤ a.units)
    (h₂ : (r.minus a).covers b = true) : r.covers b = true ∧ (r.minus b).covers a = true := by
  rw [TalerAmount.covers_iff (TalerAmount.normal_minus hr ha) hb, TalerAmount.units_minus] at h₂
  rw [TalerAmount.covers_iff hr hb, TalerAmount.covers_iff (TalerAmount.normal_minus hr hb) ha,
    TalerAmount.units_minus]
  omega

theorem lookup_debited : (debited t c a).lookup x = (t.lookup x).map fun kc =>
    if kc.coinPub = c then { kc with remaining := kc.remaining.minus a } else kc := by
  unfold debited
  rw [Table.lookup_update]
  simp only [decide_eq_true_eq]

theorem lookup_debited_self {kc : KnownCoin} (h : t.lookup c = some kc) :
    (debited t c a).lookup c = some { kc with remaining := kc.remaining.minus a } := by
  have hk : kc.coinPub = c := Table.key_of_lookup h
  rw [lookup_debited, h, Option.map_some, if_pos hk]

theorem lookup_debited_of_ne (h : x ≠ c) : (debited t c a).lookup x = t.lookup x := by
  rw [lookup_debited]
  cases hl : t.lookup x with
  | none => rfl
  | some kc =>
    have hk : kc.coinPub = x := Table.key_of_lookup hl
    rw [Option.map_some, if_neg (hk ▸ h)]

theorem normal_debited (hn : ∀ kc ∈ t.rows, kc.remaining.Normal) (ha : a.Normal) :
    ∀ kc ∈ (debited t c a).rows, kc.remaining.Normal := by
  intro kc hkc
  obtain ⟨q, hq, rfl⟩ := List.mem_map.mp hkc
  split_ifs
  · exact TalerAmount.normal_minus (hn q hq) ha
  · exact hn q hq

theorem debited_comm (hn : ∀ kc ∈ t.rows, kc.remaining.Normal) (ha : a.Normal) (hb : b.Normal) :
    debited (debited t c a) x b = debited (debited t x b) c a := by
  refine Table.ext_rows ?_
  simp only [debited, Table.rows_update, List.map_map]
  refine List.map_congr_left fun kc hkc => ?_
  simp only [Function.comp_apply, decide_eq_true_eq]
  have hcomm := minus_comm (hn kc hkc) ha hb
  split_ifs <;> simp_all

end Debits

/-! ## Books -/

/-- A row without its identity. -/
def CoinDeposit.withoutId (d : CoinDeposit) : CoinDeposit := { d with coinDepositSerialId := 0 }

/-- The coins, and the deposits by coin and signature. -/
structure DepositBooks where
  coins : Table KnownCoin
  deposits : CoinPub × Signature → Option CoinDeposit
  normal : ∀ kc ∈ coins.rows, kc.remaining.Normal

/-- The key of a coin's row in `coin_deposits`. -/
def DepositedCoin.key (c : DepositedCoin) : CoinPub × Signature := (c.coinPub, c.coinSig)

/-- The row of a coin's deposit, without its identity. -/
def DepositedCoin.entry (c : DepositedCoin) (bdsi : ℕ) : CoinDeposit :=
  ⟨0, bdsi, c.coinPub, c.coinSig, c.amountWithFee⟩

namespace DepositBooks

/-- The books after a new deposit. -/
def add (s : DepositBooks) (bdsi : ℕ) (c : DepositedCoin) : DepositBooks where
  coins := debited s.coins c.coinPub c.amountWithFee
  deposits := Function.update s.deposits c.key (some (c.entry bdsi))
  normal := normal_debited s.normal c.amountWithFee.normal_toTaler

/-- One coin of a batch: nothing happens if the deposit is known; `none` if the coin is unknown or
has too little left. -/
def deposit (bdsi : ℕ) (s : DepositBooks) (c : DepositedCoin) : Option DepositBooks :=
  if (s.deposits c.key).isSome then some s
  else
    match s.coins.lookup c.coinPub with
    | none => none
    | some kc => if kc.remaining.covers c.amountWithFee then some (s.add bdsi c) else none

variable {bdsi : ℕ} {s t u : DepositBooks} {c d : DepositedCoin}

theorem deposit_known (h : (s.deposits c.key).isSome = true) : deposit bdsi s c = some s :=
  if_pos h

/-- **What one coin does.** -/
theorem deposit_eq_some : deposit bdsi s c = some t ↔
    (s.deposits c.key).isSome = true ∧ t = s ∨
    s.deposits c.key = none ∧ t = s.add bdsi c ∧
      ∃ kc, s.coins.lookup c.coinPub = some kc ∧ kc.remaining.covers c.amountWithFee = true := by
  unfold deposit
  cases hd : s.deposits c.key with
  | some d =>
    simp only [Option.isSome_some, if_true, Option.some.injEq, true_and, reduceCtorEq, false_and,
      or_false]
    exact eq_comm
  | none =>
    cases hl : s.coins.lookup c.coinPub with
    | none => simp
    | some kc =>
      by_cases hc : kc.remaining.covers c.amountWithFee = true
      · simp only [hc, Option.isSome_none, Bool.false_eq_true, if_true, if_false, Option.some.injEq,
          false_and, true_and, false_or, exists_eq_left', and_true]
        exact eq_comm
      · simp [hc]

theorem deposits_add_self : (s.add bdsi c).deposits c.key = some (c.entry bdsi) :=
  Function.update_self ..

theorem deposits_add_of_ne (h : d.key ≠ c.key) : (s.add bdsi c).deposits d.key = s.deposits d.key :=
  Function.update_of_ne h ..

theorem deposits_mono (h : deposit bdsi s c = some t) (hd : (s.deposits d.key).isSome = true) :
    (t.deposits d.key).isSome = true := by
  rcases deposit_eq_some.mp h with ⟨-, rfl⟩ | ⟨-, rfl, -⟩
  · exact hd
  · by_cases hk : d.key = c.key
    · rw [hk, deposits_add_self]
      rfl
    · rw [deposits_add_of_ne hk]
      exact hd

theorem deposits_after (h : deposit bdsi s c = some t) : (t.deposits c.key).isSome = true := by
  rcases deposit_eq_some.mp h with ⟨hc, rfl⟩ | ⟨-, rfl, -⟩
  · exact hc
  · rw [deposits_add_self]
    rfl

theorem add_comm (hk : c.key ≠ d.key) :
    (s.add bdsi c).add bdsi d = (s.add bdsi d).add bdsi c := by
  have h₁ : ((s.add bdsi c).add bdsi d).coins = ((s.add bdsi d).add bdsi c).coins :=
    debited_comm s.normal c.amountWithFee.normal_toTaler d.amountWithFee.normal_toTaler
  have h₂ : ((s.add bdsi c).add bdsi d).deposits = ((s.add bdsi d).add bdsi c).deposits :=
    Function.update_comm hk _ _ _
  cases hc : (s.add bdsi c).add bdsi d
  cases hd : (s.add bdsi d).add bdsi c
  rw [hc, hd] at h₁ h₂
  cases h₁
  cases h₂
  rfl

/-- Two new deposits in the other order. -/
theorem deposit_swap (hk : c.key ≠ d.key) (hc : s.deposits c.key = none)
    (hd : s.deposits d.key = none) (h₁ : deposit bdsi s c = some t)
    (h₂ : deposit bdsi t d = some u) :
    ∃ t', deposit bdsi s d = some t' ∧ deposit bdsi t' c = some u := by
  rcases deposit_eq_some.mp h₁ with ⟨hc', -⟩ | ⟨-, rfl, kc, hkc, hcov⟩
  · rw [hc] at hc'
    cases hc'
  rcases deposit_eq_some.mp h₂ with ⟨hd', -⟩ | ⟨-, rfl, kd, hkd, hdov⟩
  · rw [deposits_add_of_ne hk.symm, hd] at hd'
    cases hd'
  have hna := c.amountWithFee.normal_toTaler
  have hnb := d.amountWithFee.normal_toTaler
  have hkd : (debited s.coins c.coinPub c.amountWithFee).lookup d.coinPub = some kd := hkd
  refine ⟨s.add bdsi d, deposit_eq_some.mpr (Or.inr ⟨hd, rfl, ?_⟩),
    deposit_eq_some.mpr (Or.inr ⟨?_, add_comm hk, ?_⟩)⟩
  · by_cases e : d.coinPub = c.coinPub
    · rw [e] at hkd ⊢
      rw [lookup_debited_self hkc] at hkd
      cases hkd
      exact ⟨kc, hkc, (covers_comm (s.normal kc (Table.mem_of_lookup hkc)) hna hnb
        c.amountWithFee.units_nonneg hdov).1⟩
    · rw [lookup_debited_of_ne e] at hkd
      exact ⟨kd, hkd, hdov⟩
  · rw [deposits_add_of_ne hk]
    exact hc
  · by_cases e : d.coinPub = c.coinPub
    · rw [e, lookup_debited_self hkc] at hkd
      cases hkd
      have hcov' := (covers_comm (s.normal kc (Table.mem_of_lookup hkc)) hna hnb
        c.amountWithFee.units_nonneg hdov).2
      have hkc' := lookup_debited_self (a := d.amountWithFee) hkc
      rw [← e] at hkc'
      refine ⟨{ kc with remaining := kc.remaining.minus d.amountWithFee }, ?_, hcov'⟩
      rw [← e]
      exact hkc'
    · refine ⟨kc, ?_, hcov⟩
      simp only [add]
      rw [lookup_debited_of_ne (Ne.symm e)]
      exact hkc

end DepositBooks

/-- **Deposits commute and are absorbed** if the signature of a coin determines the amount. -/
theorem steady_deposit {bdsi : ℕ} {cs : List DepositedCoin}
    (hsig : ∀ c ∈ cs, ∀ d ∈ cs, c.key = d.key → c = d) :
    Steady (DepositBooks.deposit bdsi) cs where
  idem c _ {_ _} h := DepositBooks.deposit_known (DepositBooks.deposits_after h)
  stays c _ d _ {_ _} hc hd :=
    DepositBooks.deposit_known (DepositBooks.deposits_mono hd (DepositBooks.deposits_after hc))
  comm c hc d hd {s t u} h₁ h₂ := by
    by_cases hk : c.key = d.key
    · cases hsig c hc d hd hk
      rw [DepositBooks.deposit_known (DepositBooks.deposits_after h₁)] at h₂
      cases h₂
      exact ⟨t, h₁, DepositBooks.deposit_known (DepositBooks.deposits_after h₁)⟩
    by_cases hcs : (s.deposits c.key).isSome = true
    · rw [DepositBooks.deposit_known hcs] at h₁
      cases h₁
      exact ⟨u, h₂, DepositBooks.deposit_known (DepositBooks.deposits_mono h₂ hcs)⟩
    by_cases hds : (s.deposits d.key).isSome = true
    · rw [DepositBooks.deposit_known (DepositBooks.deposits_mono h₁ hds)] at h₂
      cases h₂
      exact ⟨s, DepositBooks.deposit_known hds, h₁⟩
    exact DepositBooks.deposit_swap hk (by simpa using hcs) (by simpa using hds) h₁ h₂

/-! ## The books in a database -/

/-- Balances are in range, and the history has no entry for a deposit that is yet to come. -/
structure Depositable (db : Database) : Prop where
  sound : CoinsSound db.toCoinTables
  fresh : ∀ h ∈ db.coinHistory.rows, h.tableName = .coinDeposits →
    h.serialId < db.coinDeposits.nextSerial

/-- The deposits in a database, without their identities. -/
def depositsBy (db : Database) (k : CoinPub × Signature) : Option CoinDeposit :=
  (db.coinDeposits.lookup k).map CoinDeposit.withoutId

/-- The books in a database. -/
def books (db : Database) (h : Depositable db) : DepositBooks where
  coins := db.knownCoins
  deposits := depositsBy db
  normal kc hkc := (h.sound kc hkc).1

section Simulation

variable {db db' : Database} {bdsi : ℕ} {c : DepositedCoin}

theorem isSome_depositsBy (k : CoinPub × Signature) :
    (depositsBy db k).isSome = db.coinDeposits.hasKey k := by
  unfold depositsBy
  rw [Option.isSome_map]
  cases h : db.coinDeposits.lookup k with
  | none => exact (Table.lookup_eq_none_iff_hasKey.mp h).symm
  | some d => exact (Table.hasKey_of_lookup h).symm

/-- What a new deposit leaves. -/
def Database.withDeposit (db : Database) (c : DepositedCoin) (t : Table CoinDeposit)
    (ch : Table CoinHistory) : Database :=
  { db with
    coinDeposits := t
    coinHistory := ch
    knownCoins := db.setRemaining c.coinPub (·.minus c.amountWithFee) }

theorem Depositable.deposit (hi : Depositable db) {t : Table CoinDeposit} {ch : Table CoinHistory}
    (ht : db.coinDeposits.insert? (fun i => ⟨i, bdsi, c.coinPub, c.coinSig, c.amountWithFee⟩) = some t)
    (hch : db.coinHistory.insert? (fun i =>
      ⟨i, c.coinPub, .coinDeposits, db.coinDeposits.nextSerial⟩) = some ch)
    {kc : KnownCoin} (hkc : db.knownCoins.lookup c.coinPub = some kc)
    (hcov : kc.remaining.covers c.amountWithFee = true) : Depositable (db.withDeposit c t ch) where
  sound := hi.sound.debit hkc hcov
  fresh h hmem htab := by
    have hnext : t.nextSerial = db.coinDeposits.nextSerial + 1 := by
      simp [Table.nextSerial, Table.rows_insert? ht]
    simp only [Database.withDeposit] at hmem ⊢
    rw [hnext]
    rcases (Table.mem_insert? hch).mp hmem with hold | rfl
    · have := hi.fresh h hold htab
      omega
    · simp

/-- A new deposit in the books. -/
theorem books_deposit (hi : Depositable db) {t : Table CoinDeposit} {ch : Table CoinHistory}
    (ht : db.coinDeposits.insert? (fun i => ⟨i, bdsi, c.coinPub, c.coinSig, c.amountWithFee⟩) = some t)
    (hi' : Depositable (db.withDeposit c t ch)) :
    books (db.withDeposit c t ch) hi' = (books db hi).add bdsi c := by
  have hd : depositsBy (db.withDeposit c t ch) =
      Function.update (depositsBy db) c.key (some (c.entry bdsi)) := by
    funext k
    have hl := Table.lookup_insert? ht k
    by_cases hk : k = c.key
    · subst hk
      rw [Function.update_self]
      unfold depositsBy
      simp only [Database.withDeposit, hl]
      rw [if_pos (by rfl)]
      rfl
    · rw [Function.update_of_ne hk]
      unfold depositsBy
      simp only [Database.withDeposit, hl]
      rw [if_neg (by exact fun e => hk e.symm)]
  unfold books DepositBooks.add
  simp only [hd]
  rfl

/-- A deposit that is known changes nothing. -/
theorem insertCoinDeposit_known (h : db.coinDeposits.hasKey c.key = true) :
    insertCoinDeposit db bdsi c = .ok none := by
  have hins : db.coinDeposits.insert? (fun i =>
      ⟨i, bdsi, c.coinPub, c.coinSig, c.amountWithFee⟩) = none :=
    Table.insert?_eq_none.mpr h
  simp only [insertCoinDeposit, hins]

/-- A new deposit of a known coin goes through. -/
theorem insertCoinDeposit_new (hi : Depositable db) (bdsi : ℕ)
    (h : db.coinDeposits.hasKey c.key = false) (hc : db.knownCoins.hasKey c.coinPub = true) :
    ∃ t ch, db.coinDeposits.insert? (fun i =>
        ⟨i, bdsi, c.coinPub, c.coinSig, c.amountWithFee⟩) = some t ∧
      db.coinHistory.insert? (fun i =>
        ⟨i, c.coinPub, .coinDeposits, db.coinDeposits.nextSerial⟩) = some ch ∧
      insertCoinDeposit db bdsi c = .ok (some { db with coinDeposits := t, coinHistory := ch }) := by
  cases hins : db.coinDeposits.insert? (fun i =>
      (⟨i, bdsi, c.coinPub, c.coinSig, c.amountWithFee⟩ : CoinDeposit)) with
  | none => exact absurd (Table.insert?_eq_none.mp hins) (by rw [Bool.not_eq_true]; exact h)
  | some t =>
    cases hch : db.coinHistory.insert? (fun i =>
        (⟨i, c.coinPub, .coinDeposits, db.coinDeposits.nextSerial⟩ : CoinHistory)) with
    | none =>
      obtain ⟨e, he, hk⟩ := Table.hasKey_iff.mp (Table.insert?_eq_none.mp hch)
      have htab : e.tableName = .coinDeposits := congrArg (·.2.1) hk
      have hser : e.serialId = db.coinDeposits.nextSerial := congrArg (·.2.2) hk
      have := hi.fresh e he htab
      omega
    | some ch =>
      refine ⟨t, ch, rfl, rfl, ?_⟩
      have hadd : Database.addCoinHistory { db with coinDeposits := t } c.coinPub .coinDeposits
          db.coinDeposits.nextSerial = .ok { db with coinDeposits := t, coinHistory := ch } :=
        Database.addCoinHistory_eq_ok.mpr ⟨ch, hch, hc, rfl⟩
      simp only [insertCoinDeposit, hins, hc, require, if_true, hadd]
      rfl

/-- The parts of the database that the loop over the coins leaves alone. -/
def SameBatches (db db' : Database) : Prop :=
  db'.batchDeposits = db.batchDeposits ∧ db'.wireTargets = db.wireTargets

/-- **The loop makes the abstract steps.** -/
theorem applyAll_of_depositCoins {cs : List DepositedCoin} {i : ℕ} (hi : Depositable db)
    (h : depositCoins db bdsi i cs = .ok (db', none)) :
    SameBatches db db' ∧ ∃ hi' : Depositable db',
      applyAll (DepositBooks.deposit bdsi) (books db hi) cs = some (books db' hi') := by
  induction cs generalizing db i with
  | nil =>
    cases h
    exact ⟨⟨rfl, rfl⟩, hi, rfl⟩
  | cons c cs ih =>
    rw [depositCoins, bind_eq_ok] at h
    obtain ⟨o, ho, h⟩ := h
    cases o with
    | none =>
      have hk : db.coinDeposits.hasKey c.key = true := by
        by_contra hk
        unfold insertCoinDeposit at ho
        split at ho
        · next hins => exact hk (Table.insert?_eq_none.mp hins)
        · simp only [bind_eq_ok, pure_eq_ok, reduceCtorEq, and_false, exists_false] at ho
      obtain ⟨hb, hi', hcs⟩ := ih hi h
      refine ⟨hb, hi', applyAll_cons.mpr ⟨books db hi, DepositBooks.deposit_known ?_, hcs⟩⟩
      exact (isSome_depositsBy c.key).trans hk
    | some db₁ =>
      obtain ⟨t, ch, ht, hch, rfl⟩ := insertCoinDeposit_eq_some ho
      simp only at h
      split at h
      · cases h
      · next db₂ hd =>
        obtain ⟨kc, hkc, hcov, rfl⟩ := Database.debitCoin_eq_some.mp hd
        have hi₂ := hi.deposit ht hch hkc hcov
        obtain ⟨hb, hi', hcs⟩ := ih hi₂ h
        refine ⟨hb, hi', applyAll_cons.mpr ⟨books _ hi₂, ?_, hcs⟩⟩
        refine DepositBooks.deposit_eq_some.mpr (Or.inr ⟨?_, books_deposit hi ht hi₂, kc, hkc, hcov⟩)
        have hk := (Table.insert?_eq_some.mp ht).1
        exact Option.not_isSome_iff_eq_none.mp (by rw [books, isSome_depositsBy]; exact Bool.not_eq_true _ ▸ hk)

/-- **The loop goes through where the abstract steps do.** -/
theorem depositCoins_of_applyAll {cs : List DepositedCoin} {i : ℕ} (hi : Depositable db)
    {s : DepositBooks} (h : applyAll (DepositBooks.deposit bdsi) (books db hi) cs = some s) :
    ∃ db', depositCoins db bdsi i cs = .ok (db', none) := by
  induction cs generalizing db i with
  | nil => exact ⟨db, rfl⟩
  | cons c cs ih =>
    obtain ⟨u, hu, h⟩ := applyAll_cons.mp h
    rcases DepositBooks.deposit_eq_some.mp hu with ⟨hk, rfl⟩ | ⟨hn, rfl, kc, hkc, hcov⟩
    · obtain ⟨db', hdb⟩ := ih hi h
      refine ⟨db', ?_⟩
      rw [depositCoins, insertCoinDeposit_known ((isSome_depositsBy c.key).symm.trans hk)]
      exact hdb
    · have hkey : db.coinDeposits.hasKey c.key = false := by
        rw [← isSome_depositsBy, show depositsBy db c.key = none from hn]
        rfl
      obtain ⟨t, ch, ht, hch, hins⟩ :=
        insertCoinDeposit_new hi bdsi hkey (Table.hasKey_of_lookup hkc)
      have hi₂ := hi.deposit ht hch hkc hcov
      rw [← books_deposit hi ht hi₂] at h
      obtain ⟨db', hdb⟩ := ih hi₂ h
      refine ⟨db', ?_⟩
      have hdebit : Database.debitCoin { db with coinDeposits := t, coinHistory := ch } c.coinPub
          c.amountWithFee = some (db.withDeposit c t ch) :=
        Database.debitCoin_eq_some.mpr ⟨kc, hkc, hcov, rfl⟩
      rw [depositCoins, hins]
      simp only [bind, Except.bind, hdebit]
      exact hdb

/-- A loop over known deposits changes nothing at all. -/
theorem depositCoins_known {cs : List DepositedCoin} {i : ℕ}
    (h : ∀ c ∈ cs, db.coinDeposits.hasKey c.key = true) :
    depositCoins db bdsi i cs = .ok (db, none) := by
  induction cs generalizing i with
  | nil => rfl
  | cons c cs ih =>
    rw [depositCoins, insertCoinDeposit_known (h c List.mem_cons_self)]
    exact ih fun d hd => h d (List.mem_cons_of_mem _ hd)

end Simulation

end TalerExchange
