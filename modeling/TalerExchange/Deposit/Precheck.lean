import TalerExchange.Deposit.Replay

/-!
# The idempotency check

`exchange_do_check_deposit_idempotent` looks for the rows that `exchange_do_deposit` would run into.

* `exchangeDoCheckDepositIdempotent`: the procedure;
* `DepositRows`: every deposit has its batch and every batch its account, in every state that a run
  reaches;
* **`checkDepositIdempotent_iff`**: the check says yes exactly when the deposit would succeed without
  changing anything, and both return the same timestamp.
-/

namespace TalerExchange

open Sql Transition

/-- The `OUT` parameters of `exchange_do_check_deposit_idempotent`. -/
structure CheckDepositOut where
  exchangeTimestamp : Option Timestamp
  isIdempotent : Bool
deriving DecidableEq, Repr

/-- The row of a coin in batch `bdsi` is there. -/
def Database.hasCoinDeposit (db : Database) (bdsi : ℕ) (c : DepositedCoin) : Bool :=
  db.coinDeposits.rows.any fun d => d.batchDepositSerialId = bdsi ∧ d.coinPub = c.coinPub ∧
    d.coinSig = c.coinSig ∧ d.amountWithFee = c.amountWithFee

/-- `exchange_do_check_deposit_idempotent`; a loop up to `array_length` of an empty array raises. -/
def exchangeDoCheckDepositIdempotent (db : Database) (a : DepositArgs) : Exec CheckDepositOut :=
  if db.wireTargets.hasKey a.wireTargetHPayto then
    match db.batchDeposits.lookup (a.shard, a.merchantPub, a.hContractTerms) with
    | some b =>
      if a.matches b then
        if a.coins = [] then .error .nullLoopBound
        else .ok ⟨some b.exchangeTimestamp, a.coins.all (db.hasCoinDeposit b.batchDepositSerialId)⟩
      else .ok ⟨none, false⟩
    | none => .ok ⟨none, false⟩
  else .ok ⟨some a.exchangeTimestamp, false⟩

/-! ## Batches and their rows -/

/-- Every deposit is in a batch that `P` relates to its signature and amount, and the account of
every batch is there. -/
structure DepositRows (P : CoinPub → Signature → ℤ × MerchantPub × HashCode → Amount → Prop)
    (db : Database) : Prop where
  signed : ∀ d ∈ db.coinDeposits.rows, ∃ b,
    db.batchDeposits.lookupSerial d.batchDepositSerialId = some b ∧
      P d.coinPub d.coinSig (Record.key b) d.amountWithFee
  target : ∀ b ∈ db.batchDeposits.rows, db.wireTargets.hasKey b.wireTargetHPayto = true

/-- The coins of a batch deposit are signed for its merchant and contract. -/
def SignedOp (P : CoinPub → Signature → ℤ × MerchantPub × HashCode → Amount → Prop) : Op → Prop
  | .deposit a => ∀ c ∈ a.coins,
      P c.coinPub c.coinSig (a.shard, a.merchantPub, a.hContractTerms) c.amountWithFee
  | _ => True

/-- The postings of deposits into batches. -/
def Posting.isDeposit : Posting → Bool
  | .batch _ => true
  | .coinDeposit .. => true
  | _ => false

section Rows

variable {P : CoinPub → Signature → ℤ × MerchantPub × HashCode → Amount → Prop}
  {db db' db₁ : Database} {a : DepositArgs} {n : ℕ} {ts : Option Timestamp}

theorem isDeposit_of_emits {s : Database} {o : Op} {p : Posting} (h : Emits db o s p)
    (hp : p.isDeposit = true) : ∃ a, o = .deposit a := by
  cases o with
  | deposit a => exact ⟨a, rfl⟩
  | _ =>
    cases p with
    | batch | coinDeposit => cases kind_of_emits h
    | _ => cases hp

theorem hasKey_addWireTarget_of_hasKey {k : HashCode} (hk : db.wireTargets.hasKey k = true)
    (h hn : HashCode) (u : String) : (db.addWireTarget h hn u).wireTargets.hasKey k = true := by
  unfold Database.addWireTarget
  split
  · next t ht => exact Table.hasKey_insert?_of_hasKey ht hk
  · exact hk

theorem DepositRows.addWireTarget (hi : DepositRows P db) (h hn : HashCode) (u : String) :
    DepositRows P (db.addWireTarget h hn u) where
  signed d hd := by
    rw [addWireTarget_frame] at hd ⊢
    exact hi.signed d hd
  target b hb := by
    refine hasKey_addWireTarget_of_hasKey (hi.target b ?_) h hn u
    rw [addWireTarget_frame] at hb
    exact hb

/-- Other postings leave the deposits, and of the batches they change `done` at most. -/
theorem Posts.depositRows {p : Posting} (h : Posts db p db') (hp : p.isDeposit = false)
    (hi : DepositRows P db) : DepositRows P db' := by
  cases h with
  | wireTarget => exact hi.addWireTarget ..
  | initReserve =>
    rw [initReserve_frame]
    exact ⟨hi.signed, hi.target⟩
  | reservePurse _ _ _ _ _ _ _ hpay =>
    rw [payForPurse_frame hpay]
    exact ⟨hi.signed, hi.target⟩
  | batch => cases hp
  | coinDeposit => cases hp
  | aggregate =>
    refine ⟨fun d hd => ?_, fun b hb => ?_⟩
    · obtain ⟨b, hb, hP⟩ := hi.signed d hd
      refine ⟨_, by rw [Table.lookupSerial_update, hb]; rfl, ?_⟩
      dsimp only
      split_ifs
      · exact hP
      · exact hP
    · obtain ⟨q, hq, rfl⟩ := List.mem_map.mp hb
      have := hi.target q hq
      split_ifs
      · exact this
      · exact this
  | _ => exact ⟨hi.signed, hi.target⟩

/-- The batch that a call opens has its account. -/
theorem DepositRows.openBatch (hi : DepositRows P db) (ho : openBatch db a = some (db₁, n, ts)) :
    DepositRows P db₁ := by
  have hk := hasKey_addWireTarget db a.wireTargetHPayto a.hNormalizedPayto a.receiverWireAccount
  have hi := hi.addWireTarget a.wireTargetHPayto a.hNormalizedPayto a.receiverWireAccount
  unfold TalerExchange.openBatch at ho
  simp only at ho
  generalize db.addWireTarget _ _ _ = db₀ at ho hi hk
  split at ho
  · next t ht =>
    cases ho
    refine ⟨fun d hd => ?_, fun b hb => ?_⟩
    · obtain ⟨b, hb, hP⟩ := hi.signed d hd
      exact ⟨b, Table.lookupSerial_insert?_of_some ht hb, hP⟩
    · rcases (Table.mem_insert? ht).mp hb with hb | rfl
      · exact hi.target b hb
      · exact hk
  · split at ho
    · split_ifs at ho
      cases ho
      exact hi
    · cases ho

/-- The loop over the coins of a batch. -/
theorem DepositRows.coins (hi : DepositRows P db) {cs : List DepositedCoin} {i : ℕ} {b : BatchDeposit}
    (hb : db.batchDeposits.lookupSerial n = some b)
    (hP : ∀ c ∈ cs, P c.coinPub c.coinSig (Record.key b) c.amountWithFee)
    (h : depositCoins db n i cs = .ok (db', none)) : DepositRows P db' := by
  have hpath := depositCoins_path (C := fun _ p => ∃ c ∈ cs, p = .coinDeposit n c)
    (fun _ c hc => ⟨c, hc, rfl⟩) ⟨b, (Table.lookupSerial_eq_some.mp hb).1,
      (Table.lookupSerial_eq_some.mp hb).2⟩ h
  refine (hpath.invariant (I := fun s => DepositRows P s ∧ s.batchDeposits.lookupSerial n = some b)
    ?_ ⟨hi, hb⟩).1
  rintro s _ t ⟨c, hc, rfl⟩ hpost ⟨hs, hsb⟩
  cases hpost with
  | coinDeposit ht =>
    refine ⟨⟨fun d hd => ?_, hs.target⟩, hsb⟩
    rcases (Table.mem_insert? ht).mp hd with hd | rfl
    · exact hs.signed d hd
    · exact ⟨b, hsb, hP c hc⟩

theorem DepositRows.deposit (hi : DepositRows P db) (hP : SignedOp P (.deposit a))
    (h : transact db (.deposit a) = some db') : DepositRows P db' := by
  obtain ⟨-, db₁, n, ts, ho, hd⟩ := transact_deposit.mp h
  obtain ⟨-, b, hb, hn, -⟩ := openBatch_spec ho
  have hkey : Record.key b = (a.shard, a.merchantPub, a.hContractTerms) := Table.key_of_lookup hb
  refine (hi.openBatch ho).coins
    (Table.lookupSerial_eq_some.mpr ⟨Table.mem_of_lookup hb, hn⟩) (fun c hc => ?_) hd
  rw [hkey]
  exact hP c hc

/-- **Deposits and batches keep what they refer to**, in every run. -/
theorem run_depositRows {ops : List Op} (h : Admits step (fun _ o => SignedOp P o) Database.empty ops) :
    DepositRows P (run step Database.empty ops) := by
  refine (run_invariant (I := fun db => DepositRows P db ∧ MergesHavePurse db)
    (fun db o ho hi => ?_) h ⟨⟨fun _ h => (nomatch h), fun _ h => (nomatch h)⟩, fun _ h => (nomatch h)⟩).1
  have hm : MergesHavePurse (step db o) :=
    (step_path (C := fun _ _ => True) hi.2 fun _ _ _ => trivial).invariant
      (fun _ _ _ _ hp hi => hp.mergesHavePurse hi) hi.2
  refine ⟨?_, hm⟩
  by_cases hdep : ∃ a, o = .deposit a
  · obtain ⟨a, rfl⟩ := hdep
    rcases step_eq db (.deposit a) with e | e
    · rw [e]
      exact hi.1
    · exact hi.1.deposit ho e
  · refine (step_path (C := fun _ p => p.isDeposit = false) hi.2 fun s p he => ?_).invariant
      (fun _ _ _ hp hpost hi => hpost.depositRows hp hi) hi.1
    rw [← Bool.not_eq_true]
    exact fun hp => hdep (isDeposit_of_emits he hp)

end Rows

/-! ## The check and the deposit -/

section Check

variable {db db' : Database} {a : DepositArgs}

/-- **When the check says yes.** -/
theorem check_eq_true {ts : Option Timestamp} :
    exchangeDoCheckDepositIdempotent db a = .ok ⟨ts, true⟩ ↔
      db.wireTargets.hasKey a.wireTargetHPayto = true ∧ a.coins ≠ [] ∧ ∃ b,
        db.batchDeposits.lookup (a.shard, a.merchantPub, a.hContractTerms) = some b ∧
          a.matches b = true ∧ ts = some b.exchangeTimestamp ∧
          ∀ c ∈ a.coins, db.hasCoinDeposit b.batchDepositSerialId c = true := by
  unfold exchangeDoCheckDepositIdempotent
  by_cases hk : db.wireTargets.hasKey a.wireTargetHPayto = true
  · simp only [hk, if_true, true_and]
    cases hb : db.batchDeposits.lookup (a.shard, a.merchantPub, a.hContractTerms) with
    | none => simp
    | some b =>
      by_cases hm : a.matches b = true
      · by_cases hne : a.coins = []
        · simp [hm, hne]
        · simp only [hm, hne, if_true, if_false, Except.ok.injEq, CheckDepositOut.mk.injEq,
            List.all_eq_true, ne_eq, not_false_eq_true, true_and, Option.some.injEq, exists_eq_left']
          exact and_congr_left fun _ => eq_comm
      · simp [hm]
  · simp [hk]

/-- Coins that have their rows in the batch are known deposits. -/
theorem hasKey_of_hasCoinDeposit {n : ℕ} {c : DepositedCoin} (h : db.hasCoinDeposit n c = true) :
    db.coinDeposits.hasKey c.key = true := by
  obtain ⟨d, hd, h⟩ := List.any_eq_true.mp h
  simp only [decide_eq_true_eq] at h
  exact Table.hasKey_iff.mpr ⟨d, hd, Prod.ext h.2.1 h.2.2.1⟩

/-- A loop that leaves the deposits as they are has found all of them. -/
theorem hasKey_of_unchanged {n i : ℕ} {cs : List DepositedCoin} (hi : Depositable db)
    (h : depositCoins db n i cs = .ok (db', none)) (hd : db'.coinDeposits = db.coinDeposits) :
    ∀ c ∈ cs, db.coinDeposits.hasKey c.key = true := by
  obtain ⟨-, hi', hall⟩ := applyAll_of_depositCoins hi h
  intro c hc
  -- everything that was applied is in the books at the end, and these are the old ones
  have hin : (depositsBy db' c.key).isSome = true :=
    applyAll_forall (P := fun s c => (s.deposits c.key).isSome = true)
      (fun h => DepositBooks.deposits_after h) (fun h => DepositBooks.deposits_mono h) hall c hc
  rw [isSome_depositsBy, hd] at hin
  exact hin

/-- A call that reports success and leaves batches, deposits and coins as they are. -/
structure DepositUnchanging (db : Database) (a : DepositArgs) (db' : Database) (out : DepositOut) :
    Prop where
  result : exchangeDoDeposit db a = .ok (db', out)
  noConflict : out.conflict = false
  sufficient : out.insufficientBalanceCoinIndex = none
  batches : db'.batchDeposits = db.batchDeposits
  deposits : db'.coinDeposits = db.coinDeposits
  coins : db'.knownCoins = db.knownCoins

/-- Where the check says yes, the deposit does nothing. -/
theorem unchanging_of_check {ts : Option Timestamp}
    (h : exchangeDoCheckDepositIdempotent db a = .ok ⟨ts, true⟩) :
    DepositUnchanging db a db ⟨ts, none, false⟩ := by
  obtain ⟨hk, hne, b, hb, hm, rfl, hall⟩ := check_eq_true.mp h
  have hd : depositCoins db b.batchDepositSerialId 0 a.coins = .ok (db, none) :=
    depositCoins_known fun c hc => hasKey_of_hasCoinDeposit (hall c hc)
  obtain ⟨hres, h₁, h₂⟩ := exchangeDoDeposit_ok.mpr
    ⟨hne, db, _, _, openBatch_known hk hb hm, hd, rfl⟩
  exact ⟨hres, h₁, h₂, rfl, rfl, rfl⟩

/-- Where the deposit does nothing, the check says yes. -/
theorem check_of_unchanging {terms : CoinPub → Signature → (ℤ × MerchantPub × HashCode) × Amount}
    (hrows : DepositRows (fun c s k m => terms c s = (k, m)) db) (hi : Depositable db)
    (ha : SignedOp (fun c s k m => terms c s = (k, m)) (.deposit a)) {out : DepositOut}
    (h : DepositUnchanging db a db' out) :
    ∃ ts, exchangeDoCheckDepositIdempotent db a = .ok ⟨ts, true⟩ := by
  obtain ⟨hne, db₁, n, ts, ho, hd, -⟩ :=
    exchangeDoDeposit_ok.mp ⟨h.result, h.noConflict, h.sufficient⟩
  have hsame := (applyAll_of_depositCoins (hi.openBatch ho) hd).1
  obtain ⟨-, b, hb, rfl, hm⟩ := openBatch_spec ho
  rw [← hsame.1, h.batches] at hb
  have htarget : b.wireTargetHPayto = a.wireTargetHPayto := by
    simp only [DepositArgs.matches, decide_eq_true_eq] at hm
    exact hm.1
  have hk := hrows.target b (Table.mem_of_lookup hb)
  rw [htarget] at hk
  -- the account and the batch were there, so the loop starts from the database itself
  rw [openBatch_known hk hb hm] at ho
  cases ho
  refine ⟨_, check_eq_true.mpr ⟨hk, hne, b, hb, hm, rfl, fun c hc => ?_⟩⟩
  obtain ⟨d, hd, hkey⟩ := Table.hasKey_iff.mp (hasKey_of_unchanged hi hd h.deposits c hc)
  obtain ⟨b', hb', hterms⟩ := hrows.signed d hd
  have hpub : d.coinPub = c.coinPub := congrArg Prod.fst hkey
  have hsig : d.coinSig = c.coinSig := congrArg Prod.snd hkey
  rw [hpub, hsig, ha c hc, Prod.mk.injEq] at hterms
  have hbb : b = b' := by
    obtain ⟨hmem, hser⟩ := Table.lookupSerial_eq_some.mp hb'
    refine Table.eq_of_key (Table.mem_of_lookup hb) hmem ?_
    exact (Table.key_of_lookup hb).trans hterms.1
  refine List.any_eq_true.mpr ⟨d, hd, decide_eq_true ⟨?_, hpub, hsig, hterms.2.symm⟩⟩
  rw [hbb]
  exact (Table.lookupSerial_eq_some.mp hb').2.symm

end Check

/-- **The check agrees with the deposit.** In every state reached by deposits whose coin signatures
determine the batch and the amount, the check says yes exactly when the deposit would report
success and leave everything as it is, and then both return the same timestamp. -/
theorem checkDepositIdempotent_iff
    {terms : CoinPub → Signature → (ℤ × MerchantPub × HashCode) × Amount} {ops : List Op}
    {a : DepositArgs}
    (h : Admits step (fun _ o => SignedOp (fun c s k m => terms c s = (k, m)) o) Database.empty ops)
    (ha : SignedOp (fun c s k m => terms c s = (k, m)) (.deposit a)) :
    ((∃ ts, exchangeDoCheckDepositIdempotent (run step Database.empty ops) a = .ok ⟨ts, true⟩) ↔
      ∃ db' out, DepositUnchanging (run step Database.empty ops) a db' out) ∧
    ∀ ts db' out,
      exchangeDoCheckDepositIdempotent (run step Database.empty ops) a = .ok ⟨ts, true⟩ →
      exchangeDoDeposit (run step Database.empty ops) a = .ok (db', out) →
      out.exchangeTimestamp = ts := by
  refine ⟨⟨fun ⟨ts, hc⟩ => ⟨_, _, unchanging_of_check hc⟩, fun ⟨_, _, hd⟩ => ?_⟩,
    fun ts db' out hc hd => ?_⟩
  · exact check_of_unchanging (run_depositRows h) (run_depositable ops) ha hd
  · rw [(unchanging_of_check hc).result] at hd
    cases hd
    rfl

/-! ## A sample -/

/-- A batch with both coins. -/
def bothCoins : DepositArgs :=
  { sampleBatch with coins := [⟨7, 1, .whole 5⟩, ⟨8, 2, .whole 5⟩] }

/-- The batch is deposited once. -/
def depositedOnce : List Op := twoCoins ++ [.deposit bothCoins]

theorem depositedOnce_check :
    (∃ ts, exchangeDoCheckDepositIdempotent (run step Database.empty depositedOnce) bothCoins =
      .ok ⟨ts, true⟩) ∧
    ∃ db' out, DepositUnchanging (run step Database.empty depositedOnce) bothCoins db' out := by
  have hcheck : exchangeDoCheckDepositIdempotent (run step Database.empty depositedOnce)
      bothCoins = .ok ⟨some 0, true⟩ := by
    decide +kernel
  have h := @checkDepositIdempotent_iff (fun _ _ => ((0, 5, 3), .whole 5)) depositedOnce
    bothCoins ⟨trivial, trivial, trivial, by simp [SignedOp, bothCoins, sampleBatch], trivial⟩
    (by simp [SignedOp, bothCoins, sampleBatch])
  exact ⟨⟨_, hcheck⟩, h.1.mp ⟨_, hcheck⟩⟩

end TalerExchange
