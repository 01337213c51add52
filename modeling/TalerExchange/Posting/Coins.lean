import TalerExchange.Posting.Basic

/-!
# The coin procedures make postings

A committed deposit, refund, melt, reserve-open deposit or recoup is a path of postings. The
condition `C` on the postings is a parameter, so that every result about runs can bring its own.
-/

namespace TalerExchange

open Sql Transition

variable {C : Database → Posting → Prop}

/-- A result of an insert into a table with triggers. -/
theorem insertCoinDeposit_eq_some {db db' : Database} {bdsi : ℕ} {c : DepositedCoin}
    (h : insertCoinDeposit db bdsi c = .ok (some db')) :
    ∃ t ch, db.coinDeposits.insert? (fun i =>
        ⟨i, bdsi, c.coinPub, c.coinSig, c.amountWithFee⟩) = some t ∧
      db.coinHistory.insert? (fun i =>
        ⟨i, c.coinPub, .coinDeposits, db.coinDeposits.nextSerial⟩) = some ch ∧
      db' = { db with coinDeposits := t, coinHistory := ch } := by
  unfold insertCoinDeposit at h
  split at h
  · cases h
  · next t ht =>
    simp only [bind_eq_ok, pure_eq_ok, require_eq_ok, Option.some.injEq,
      Database.addCoinHistory_eq_ok] at h
    obtain ⟨-, -, -, ⟨ch, hch, -, rfl⟩, rfl⟩ := h
    exact ⟨t, ch, ht, hch, rfl⟩

theorem depositCoins_path {db db' : Database} {bdsi i : ℕ} {cs : List DepositedCoin}
    (hC : ∀ s, ∀ c ∈ cs, C s (.coinDeposit bdsi c))
    (hb : ∃ b ∈ db.batchDeposits.rows, b.batchDepositSerialId = bdsi)
    (h : depositCoins db bdsi i cs = .ok (db', none)) : Path Posts C db db' := by
  induction cs generalizing db i with
  | nil =>
    cases h
    exact .refl _
  | cons c cs ih =>
    have hcs : ∀ s, ∀ c ∈ cs, C s (.coinDeposit bdsi c) := fun s c' hc' => hC s c' (by simp [hc'])
    rw [depositCoins, bind_eq_ok] at h
    obtain ⟨o, ho, h⟩ := h
    cases o with
    | none => exact ih hcs hb h
    | some db₁ =>
      obtain ⟨t, ch, ht, hch, rfl⟩ := insertCoinDeposit_eq_some ho
      simp only at h
      split at h
      · cases h
      · next db₂ hd =>
        obtain ⟨kc, hkc, hcov, rfl⟩ := Database.debitCoin_eq_some.mp hd
        have hp : Posts db (.coinDeposit bdsi c) _ := Posts.coinDeposit ht hch hb hkc hcov
        exact (Path.single (hC db c (by simp)) hp).trans (ih hcs hb h)

theorem depositBatch_path {db db' : Database} {bdsi : ℕ} {ts : Option Timestamp}
    {cs : List DepositedCoin} {out : DepositOut}
    (hC : ∀ s, ∀ c ∈ cs, C s (.coinDeposit bdsi c))
    (hb : ∃ b ∈ db.batchDeposits.rows, b.batchDepositSerialId = bdsi)
    (h : depositBatch db bdsi ts cs = .ok (db', out))
    (ho : out.insufficientBalanceCoinIndex = none) : Path Posts C db db' := by
  unfold depositBatch at h
  split at h
  · cases h
  · simp only [bind_eq_ok, pure_eq_ok, Prod.exists, Prod.mk.injEq] at h
    obtain ⟨db₁, bad, hd, rfl, rfl⟩ := h
    simp only at ho
    rw [ho] at hd
    exact depositCoins_path hC hb hd

/-- A batch deposit is its account, its batch and its coins. -/
theorem exchangeDoDeposit_path {db db' : Database} {a : DepositArgs} {out : DepositOut}
    (hw : C db (.wireTarget a.wireTargetHPayto a.hNormalizedPayto a.receiverWireAccount))
    (hbatch : ∀ s, C s (.batch a)) (hC : ∀ s n, ∀ c ∈ a.coins, C s (.coinDeposit n c))
    (h : exchangeDoDeposit db a = .ok (db', out)) (hc : out.conflict = false)
    (ho : out.insufficientBalanceCoinIndex = none) : Path Posts C db db' := by
  refine (Path.single hw (Posts.wireTarget ..)).trans ?_
  unfold exchangeDoDeposit at h
  simp only at h
  generalize db.addWireTarget _ _ _ = db₁ at h ⊢
  split at h
  · next t ht =>
    refine (Path.single (hbatch db₁) (Posts.batch ht)).trans
      (depositBatch_path (fun s => hC s _) ?_ h ho)
    exact ⟨a.row db₁.batchDeposits.nextSerial, by rw [Table.rows_insert? ht]; simp, rfl⟩
  · split at h
    · next b hb =>
      split at h
      · exact depositBatch_path (fun s => hC s _) ⟨b, Table.mem_of_lookup hb, rfl⟩ h ho
      · cases h
        cases hc
    · cases h
      cases hc

/-! ## Refunds -/

theorem exchangeDoRefund_path {db db' : Database} {a : RefundArgs} {out : RefundOut}
    (hC : C db (.refund a)) (h : exchangeDoRefund db a = .ok (db', out))
    (hn : out.notFound = false) (hc : out.conflict = false) (hg : out.gone = false)
    (ho : out.refundOk = true) : Path Posts C db db' := by
  unfold exchangeDoRefund at h
  split at h
  · cases h
    cases hn
  · next b hb =>
    split at h
    · cases h
      cases hn
    · next d hd =>
      split at h
      · split at h
        · split at h
          · cases h
            exact .refl _
          · cases h
            cases hc
        · cases h
          cases hc
      · next t ht =>
        simp only [bind_eq_ok, require_eq_ok, Database.addCoinHistory_eq_ok] at h
        obtain ⟨-, hk, _, ⟨ch, hch, -, rfl⟩, h⟩ := h
        split at h
        · cases pure_eq_ok.mp h
          cases hg
        · next hdone =>
          cases pure_eq_ok.mp h
          exact Path.single hC (Posts.refund hb (by simpa using hdone) hk hd ht hch rfl ho)

/-! ## Melts -/

theorem exchangeDoMelt_path {db db' : Database} {a : MeltArgs} {out : MeltOut}
    (hC : C db (.melt a)) (h : exchangeDoMelt db a = .ok (db', out))
    (hb : out.balanceOk = true) : Path Posts C db db' := by
  unfold exchangeDoMelt at h
  split at h
  · split at h
    · cases h
      exact .refl _
    · cases h
      cases hb
  · next t ht =>
    simp only [bind_eq_ok, require_eq_ok, Database.addCoinHistory_eq_ok] at h
    obtain ⟨-, -, _, ⟨ch, hch, -, rfl⟩, h⟩ := h
    split at h
    · cases pure_eq_ok.mp h
      cases hb
    · split at h
      · cases pure_eq_ok.mp h
        cases hb
      · next db₁ hd =>
        cases pure_eq_ok.mp h
        obtain ⟨kc, hkc, hcov, rfl⟩ := Database.debitCoin_eq_some.mp hd
        exact Path.single hC (Posts.melt ht hch hkc hcov)

theorem insertRefreshReveal_path {db db' : Database} {a : RevealArgs} (hC : C db (.reveal a))
    (h : insertRefreshReveal db a = .ok db') : Path Posts C db db' := by
  unfold insertRefreshReveal at h
  split at h
  · cases h
  · simp only [bind_eq_ok, orUnique_eq_ok, pure_eq_ok, require_eq_ok] at h
    obtain ⟨t, ht, -, hm, -, -, rfl⟩ := h
    exact Path.single hC (Posts.reveal ht hm)

/-! ## Reserve-open deposits and recoups -/

theorem exchangeDoReserveOpenDeposit_path {db db' : Database} {a : ReserveOpenDepositArgs}
    (hC : C db (.openDeposit a)) (h : exchangeDoReserveOpenDeposit db a = .ok (db', false)) :
    Path Posts C db db' := by
  unfold exchangeDoReserveOpenDeposit at h
  split at h
  · cases h
    exact .refl _
  · next t ht =>
    simp only [bind_eq_ok, Database.addCoinHistory_eq_ok] at h
    obtain ⟨_, ⟨ch, hch, -, rfl⟩, h⟩ := h
    split at h
    · cases h
    · next db₁ hd =>
      cases pure_eq_ok.mp h
      obtain ⟨kc, hkc, hcov, rfl⟩ := Database.debitCoin_eq_some.mp hd
      exact Path.single hC (Posts.openDeposit ht hch hkc hcov)

theorem exchangeDoRecoupToCoin_path {db db' : Database} {a : RecoupToCoinArgs} {out : RecoupOut}
    (hC : C db (.recoupToCoin a)) (h : exchangeDoRecoupToCoin db a = .ok (db', out))
    (ho : out.recoupOk = true) (hf : out.internalFailure = false) : Path Posts C db db' := by
  unfold exchangeDoRecoupToCoin at h
  split at h
  · cases h
    cases ho
  · next kc hkc =>
    simp only at h
    split at h
    · split at h
      · cases h
        exact .refl _
      · cases h
        cases ho
    · split at h
      · next hold =>
        simp only [insertRecoupRefresh, bind_eq_ok, orUnique_eq_ok, require_eq_ok, pure_eq_ok,
          Database.addCoinHistory_eq_ok] at h
        obtain ⟨_, ⟨t, ht, -, -, -, -, -, -, _, ⟨ch, hch, -, rfl⟩, hm⟩, hdb⟩ := h
        have hk : db.knownCoins.hasKey a.oldCoinPub = true := by
          rw [Table.hasKey_iff] at hold ⊢
          obtain ⟨x, hx, hxk⟩ := hold
          obtain ⟨y, hy, rfl⟩ := List.mem_map.mp hx
          refine ⟨y, hy, ?_⟩
          rw [← hxk]
          split_ifs <;> rfl
        split at hm
        · next old hol =>
          obtain ⟨ch', hch', -, rfl⟩ := Database.addCoinHistory_eq_ok.mp hm
          cases hdb
          have he : coinEntry ch (db.oldCoinOf a.rrcSerial) .recoupRefreshOld
              db.recoupRefresh.nextSerial = some ch' := by
            unfold coinEntry
            rw [show db.oldCoinOf a.rrcSerial = some old from hol]
            exact hch'
          exact Path.single hC (Posts.recoupToCoin hkc hk ht hch he)
        · next hol =>
          cases pure_eq_ok.mp hm
          cases hdb
          have he : coinEntry ch (db.oldCoinOf a.rrcSerial) .recoupRefreshOld
              db.recoupRefresh.nextSerial = some ch := by
            unfold coinEntry
            rw [show db.oldCoinOf a.rrcSerial = none from hol]
          exact Path.single hC (Posts.recoupToCoin hkc hk ht hch he)
      · cases h
        cases hf

/-! ## Denominations and coins -/

theorem insertDenominationInfo_path {db db' : Database} {a : DenominationArgs}
    (hC : C db (.denomination a)) (h : insertDenominationInfo db a = .ok db') :
    Path Posts C db db' := by
  simp only [insertDenominationInfo, bind_eq_ok, orUnique_eq_ok, pure_eq_ok] at h
  obtain ⟨t, ht, rfl⟩ := h
  exact Path.single hC (Posts.denomination ht)

theorem insertPartner_path {db db' : Database} {a : PartnerArgs} (hC : C db (.partner a))
    (h : insertPartner db a = .ok db') : Path Posts C db db' := by
  simp only [insertPartner, bind_eq_ok, orUnique_eq_ok, pure_eq_ok] at h
  obtain ⟨t, ht, rfl⟩ := h
  exact Path.single hC (Posts.partner ht)

theorem ensureCoinKnown_path {db db' : Database} {c : CoinPub} {h : HashCode} {ok : Bool}
    (hC : ∀ d, db.denominations.lookup h = some d → C db (.coin c d))
    (he : ensureCoinKnown db c h = .ok (db', ok)) : Path Posts C db db' := by
  unfold ensureCoinKnown at he
  split at he
  · cases he
  · next d hd =>
    split at he
    · next t ht =>
      cases he
      exact Path.single (hC d hd) (Posts.coin (Table.mem_of_lookup hd) ht)
    · cases he
      exact .refl _

theorem aggregate_path {db db' : Database} {a : AggregateArgs} {total : Amount}
    (hC : C db (.aggregate a)) (h : aggregate db a = .ok (db', total)) : Path Posts C db db' := by
  simp only [aggregate, bind_eq_ok] at h
  obtain ⟨t, ht, h⟩ := h
  split at h
  · cases h
  · next total' hs =>
    cases pure_eq_ok.mp h
    exact Path.single hC (Posts.aggregate ht hs)

end TalerExchange
