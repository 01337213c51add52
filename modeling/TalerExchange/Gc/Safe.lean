import TalerExchange.Gc.Collect

/-!
# What garbage collection must keep

Deposits that are not done, reserves that are not expired, recoups of what still exists, and locks
of nonces that a denomination may still be used with.

* `Consistent`: what holds of the tables at any time;
* `GcSafe`: the procedure keeps what it must;
* `GcHarmless`: nothing of that is due for deletion;
* **`gcSafe_iff`**: the procedure keeps it if and only if it is not due, or if the procedure fails;
* **`Consistent.gc`**: the procedure keeps the tables consistent.
-/

namespace TalerExchange

namespace GcDatabase

/-- A batch deposit that is not done. -/
def Undone (db : GcDatabase) (serial : ℕ) : Prop :=
  ∃ b ∈ db.batchDeposits, b.batchDepositSerialId = serial ∧ b.done = false

/-- A refreshed recoup has its fresh coin, of the denomination it was revealed with, and its melted
coin. -/
def Linked (db : GcDatabase) (r : RecoupRefresh) : Prop :=
  ∃ c ∈ db.refreshRevealedCoins, c.rrcSerial = r.rrcSerial ∧
    (∃ m ∈ db.refreshCommitments, m.meltSerialId = c.meltSerialId ∧
      ∃ k ∈ db.knownCoins, k.knownCoinId = r.knownCoinId ∧ k.coinPub = m.oldCoinPub) ∧
    ∃ k ∈ db.knownCoins, k.coinPub = r.coinPub ∧ k.denominationsSerial = c.denominationsSerial

/-- Numbers and keys are unique, refunds have their coin deposits and refreshed recoups their
coins. -/
structure Consistent (db : GcDatabase) : Prop where
  withdrawals : (db.reservesOut.map ReserveOut.reserveOutSerialId).Nodup
  coinIds : (db.knownCoins.map KnownCoin.knownCoinId).Nodup
  coinPubs : (db.knownCoins.map KnownCoin.coinPub).Nodup
  melts : (db.refreshCommitments.map RefreshCommitment.meltSerialId).Nodup
  freshCoins : (db.refreshRevealedCoins.map RefreshRevealedCoin.rrcSerial).Nodup
  deposits : (db.batchDeposits.map BatchDeposit.batchDepositSerialId).Nodup
  refunds : ∀ f ∈ db.refunds, ∃ c ∈ db.coinDeposits,
    c.batchDepositSerialId = f.batchDepositSerialId ∧ c.coinPub = f.coinPub
  recoups : ∀ r ∈ db.recoupRefresh, db.Linked r

/-- **What the procedure must keep**, `db'` being the database after it. A recoup belongs to its
withdrawal, a refreshed one to the melted coin. -/
structure GcSafe (now : Timestamp) (db db' : GcDatabase) : Prop where
  batchDeposits : ∀ b ∈ db.batchDeposits, b.done = false → b ∈ db'.batchDeposits
  coinDeposits : ∀ c ∈ db.coinDeposits, db.Undone c.batchDepositSerialId → c ∈ db'.coinDeposits
  refunds : ∀ f ∈ db.refunds, db.Undone f.batchDepositSerialId → f ∈ db'.refunds
  reserves : ∀ r ∈ db.reserves, now < r.expirationDate → r ∈ db'.reserves
  recoup : ∀ r ∈ db.recoup, ∀ w ∈ db'.reservesOut,
    w.reserveOutSerialId = r.reserveOutSerialId → r ∈ db'.recoup
  recoupRefresh : ∀ r ∈ db.recoupRefresh, ∀ k ∈ db'.knownCoins,
    k.knownCoinId = r.knownCoinId → r ∈ db'.recoupRefresh
  nonces : ∀ l ∈ db.csNonceLocks, ∀ d ∈ db'.denominations,
    d.denominationsSerial ≤ l.maxDenominationSerial → l ∈ db'.csNonceLocks

/-- No deposit that is not done is old, or of a coin whose denomination goes; and no lock ends with the
smallest denomination that stays. -/
structure GcHarmless (fk : Bool) (ancient now : Timestamp) (db : GcDatabase) : Prop where
  deposits : ∀ b ∈ db.batchDeposits, b.done = false → ¬ b.wireDeadline < ancient
  coins : ∀ c ∈ db.coinDeposits, db.Undone c.batchDepositSerialId → PubStays fk now db c.coinPub
  nonces : ∀ l ∈ db.csNonceLocks, ∀ d ∈ db.denominations, ¬ DenominationGoes fk now db d →
    d.denominationsSerial = l.maxDenominationSerial →
      ∃ d' ∈ db.denominations, ¬ DenominationGoes fk now db d' ∧
        d'.denominationsSerial < l.maxDenominationSerial

variable {fk : Bool} {ancient now : Timestamp} {db : GcDatabase}

theorem GcSafe.refl : GcSafe now db db :=
  ⟨fun _ h _ => h, fun _ h _ => h, fun _ h _ => h, fun _ h _ => h, fun _ h _ _ _ => h,
    fun _ h _ _ _ => h, fun _ h _ _ _ => h⟩

/-! ## Recoups -/

/-- A recoup whose withdrawal is left. -/
theorem Consistent.recoupStays (h : Consistent db) {r : Recoup} {w : ReserveOut}
    (hw : w ∈ db.reservesOut) (hs : WithdrawalStays db w)
    (heq : w.reserveOutSerialId = r.reserveOutSerialId) : RecoupStays fk db r := by
  refine ⟨fun _ w' hw' heq' => ?_, fun _ => ⟨w, hw, heq.le⟩⟩
  obtain rfl : w' = w :=
    List.inj_on_of_nodup_map h.withdrawals hw' hw (heq'.trans heq.symm)
  exact hs

/-- The denomination of a fresh coin that was recouped does not go. -/
theorem coinStays_of_recoupRefresh {r : RecoupRefresh} (hr : r ∈ db.recoupRefresh) {k : KnownCoin}
    (hk : k ∈ db.knownCoins) (hpub : k.coinPub = r.coinPub) : CoinStays fk now db k := by
  intro _ d _ heq hgo
  exact (hgo.2.2 k hk heq.symm).2 r hr hpub.symm

/-- A melted coin that is left keeps its melt, the fresh coin and the recoup of that. -/
theorem Consistent.mem_recoupRefresh (h : Consistent db) {r : RecoupRefresh}
    (hr : r ∈ db.recoupRefresh) {k : KnownCoin} (hk : k ∈ db.knownCoins)
    (hs : CoinStays fk now db k) (heq : k.knownCoinId = r.knownCoinId) :
    r ∈ (db.collected fk ancient now).recoupRefresh := by
  obtain ⟨c, hc, hrrc, ⟨m, hm, hmelt, k', hk', hid, hold⟩, f, hf, hpub, hden⟩ := h.recoups r hr
  obtain rfl : k' = k := List.inj_on_of_nodup_map h.coinIds hk' hk (hid.trans heq.symm)
  have hpubStays : PubStays fk now db m.oldCoinPub := by
    intro _ k'' hk'' hpub''
    obtain rfl : k'' = k' := List.inj_on_of_nodup_map h.coinPubs hk'' hk' (hpub''.trans hold.symm)
    exact hs
  have hmeltStays : ∀ m' ∈ db.refreshCommitments, m'.meltSerialId = c.meltSerialId →
      PubStays fk now db m'.oldCoinPub := by
    intro m' hm' hmelt'
    obtain rfl : m' = m := List.inj_on_of_nodup_map h.melts hm' hm (hmelt'.trans hmelt.symm)
    exact hpubStays
  have hrevealed : RevealedStays fk now db c := by
    refine ⟨fun _ => hmeltStays, fun hfk d hd hser => ?_, fun _ => ⟨m, hm, hpubStays, hmelt.le⟩⟩
    exact coinStays_of_recoupRefresh hr hf hpub hfk d hd (hser.trans hden.symm)
  refine mem_collected_recoupRefresh.mpr ⟨hr, fun _ k'' hk'' hid'' => ?_, fun _ c' hc' hrrc' => ?_,
    fun _ => ⟨k', hk', hs, heq.le⟩⟩
  · obtain rfl : k'' = k' := List.inj_on_of_nodup_map h.coinIds hk'' hk' (hid''.trans heq.symm)
    exact hs
  · obtain rfl : c' = c := List.inj_on_of_nodup_map h.freshCoins hc' hc (hrrc'.trans hrrc.symm)
    exact hrevealed

/-! ## Deposits -/

theorem Consistent.depositStays (h : Consistent db)
    (hold : ∀ b ∈ db.batchDeposits, b.done = false → ¬ b.wireDeadline < ancient) {serial : ℕ}
    (hu : db.Undone serial) : DepositStays fk ancient db serial := by
  obtain ⟨b, hb, hser, hdone⟩ := hu
  intro _ b' hb' hser'
  obtain rfl : b' = b := List.inj_on_of_nodup_map h.deposits hb' hb (hser'.trans hser.symm)
  exact hold b' hb' hdone

/-! ## The condition -/

theorem Consistent.gcSafe_collected (h : Consistent db)
    (hc : GcHarmless fk ancient now db) : GcSafe now db (db.collected fk ancient now) where
  batchDeposits b hb hdone := mem_collected_batchDeposits.mpr ⟨hb, hc.deposits b hb hdone⟩
  coinDeposits c hcd hu := mem_collected_coinDeposits.mpr
    ⟨hcd, hc.coins c hcd hu, h.depositStays hc.deposits hu⟩
  refunds f hf hu := by
    have hlink := h.refunds f hf
    rw [mem_collected_refunds hlink]
    obtain ⟨c, hcd, hbatch, hpub⟩ := hlink
    refine ⟨hf, ?_, h.depositStays hc.deposits hu⟩
    exact hpub ▸ hc.coins c hcd (hbatch ▸ hu)
  reserves _ hr _ := hr
  recoup r hr w hw heq := by
    obtain ⟨hw, hs⟩ := mem_collected_reservesOut.mp hw
    exact mem_collected_recoup.mpr ⟨hr, h.recoupStays hw hs heq⟩
  recoupRefresh r hr k hk heq := by
    obtain ⟨hk, hs⟩ := mem_collected_knownCoins.mp hk
    exact h.mem_recoupRefresh hr hk hs heq
  nonces l hl d hd hle := by
    obtain ⟨hd, hs⟩ := mem_collected_denominations.mp hd
    refine mem_collected_csNonceLocks.mpr ⟨hl, fun _ => ?_⟩
    rcases hle.lt_or_eq with hlt | heq
    · exact ⟨d, hd, hs, hlt⟩
    · exact hc.nonces l hl d hd hs heq

theorem GcSafe.harmless (h : GcSafe now db (db.collected fk ancient now)) :
    GcHarmless fk ancient now db where
  deposits b hb hdone := (mem_collected_batchDeposits.mp (h.batchDeposits b hb hdone)).2
  coins c hc hu := (mem_collected_coinDeposits.mp (h.coinDeposits c hc hu)).2.1
  nonces l hl d hd hs heq :=
    (mem_collected_csNonceLocks.mp (h.nonces l hl d (mem_collected_denominations.mpr ⟨hd, hs⟩)
      heq.le)).2 ⟨d, hd, hs⟩

/-- **When garbage collection is safe**: if nothing that it must keep is due for deletion, or if it
fails. -/
theorem Consistent.gcSafe_iff (h : Consistent db) :
    GcSafe now db (db.gc fk ancient now) ↔
      Aborts now db ∨ GcHarmless fk ancient now db := by
  rw [gc_eq]
  by_cases hab : Aborts now db
  · rw [if_pos hab]
    exact iff_of_true GcSafe.refl (Or.inl hab)
  · rw [if_neg hab]
    refine ⟨fun hs => Or.inr hs.harmless, fun hc => ?_⟩
    exact h.gcSafe_collected (hc.resolve_left hab)

/-! ## The tables afterwards -/

theorem Consistent.linked_collected (h : Consistent db) {r : RecoupRefresh}
    (hr : r ∈ (db.collected fk ancient now).recoupRefresh) :
    (db.collected fk ancient now).Linked r := by
  obtain ⟨hr, hcoin, -, -⟩ := mem_collected_recoupRefresh.mp hr
  obtain ⟨c, hc, hrrc, ⟨m, hm, hmelt, k, hk, hid, hold⟩, f, hf, hpub, hden⟩ := h.recoups r hr
  have hk' : CoinStays fk now db k := fun hfk => hcoin hfk k hk hid hfk
  have hpubStays : PubStays fk now db m.oldCoinPub := by
    intro _ k' hk₁ hpub'
    obtain rfl : k' = k := List.inj_on_of_nodup_map h.coinPubs hk₁ hk (hpub'.trans hold.symm)
    exact hk'
  have hf' : CoinStays fk now db f := coinStays_of_recoupRefresh hr hf hpub
  have hc' : RevealedStays fk now db c := by
    refine ⟨fun _ m' hm' hmelt' => ?_, fun hfk d hd hser => ?_,
      fun _ => ⟨m, hm, hpubStays, hmelt.le⟩⟩
    · obtain rfl : m' = m := List.inj_on_of_nodup_map h.melts hm' hm (hmelt'.trans hmelt.symm)
      exact hpubStays
    · exact hf' hfk d hd (hser.trans hden.symm)
  refine ⟨c, mem_collected_refreshRevealedCoins.mpr ⟨hc, hc'⟩, hrrc, ⟨m,
    mem_collected_refreshCommitments.mpr ⟨hm, hpubStays⟩, hmelt, k,
    mem_collected_knownCoins.mpr ⟨hk, hk'⟩, hid, hold⟩, f,
    mem_collected_knownCoins.mpr ⟨hf, hf'⟩, hpub, hden⟩

theorem Consistent.collected (h : Consistent db) :
    Consistent (db.collected fk ancient now) := by
  refine ⟨?_, ?_, ?_, ?_, ?_, ?_, ?_, fun r hr => h.linked_collected hr⟩
  · exact h.withdrawals.sublist (List.filter_sublist.map _)
  · exact h.coinIds.sublist (List.filter_sublist.map _)
  · exact h.coinPubs.sublist (List.filter_sublist.map _)
  · exact h.melts.sublist (List.filter_sublist.map _)
  · exact h.freshCoins.sublist
      ((List.filter_sublist.trans (List.filter_sublist.trans List.filter_sublist)).map _)
  · exact h.deposits.sublist (List.filter_sublist.map _)
  · intro f hf
    have hmem : f ∈ db.refunds := (List.filter_sublist.trans
      (List.filter_sublist.trans List.filter_sublist)).subset hf
    have hlink := h.refunds f hmem
    obtain ⟨-, hp, hd⟩ := (mem_collected_refunds hlink).mp hf
    obtain ⟨c, hc, hbatch, hpub⟩ := hlink
    exact ⟨c, mem_collected_coinDeposits.mpr ⟨hc, hpub.symm ▸ hp, hbatch.symm ▸ hd⟩, hbatch, hpub⟩

/-- **The procedure keeps the tables consistent.** -/
theorem Consistent.gc (h : Consistent db) : Consistent (db.gc fk ancient now) := by
  rw [gc_eq]
  split_ifs
  · exact h
  · exact h.collected

end GcDatabase

end TalerExchange
