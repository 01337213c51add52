import TalerExchange.Deposit.Books

/-!
# Replayed and split deposits

Batch deposits may be sent again and may be split: the same batch with some of its coins in each
call.

* `openBatch`: what `exchange_do_deposit` does before its loop, the same for every call of a batch;
* `depositCalls`: several calls with the same batch parameters;
* **`depositCalls_split`**: calls that all succeed leave what one call with all the coins leaves, and
  none of them changes anything when it is repeated.
-/

namespace TalerExchange

open Sql Transition

/-! ## One call -/

theorem DepositArgs.serial_row (a : DepositArgs) (i : ℕ) : Record.serial (a.row i) = i := rfl

/-- The statements before the loop: the account and the batch are there, `none` if the batch exists
with other parameters. Returned are the batch and the timestamp if it existed. -/
def openBatch (db : Database) (a : DepositArgs) : Option (Database × ℕ × Option Timestamp) :=
  let db := db.addWireTarget a.wireTargetHPayto a.hNormalizedPayto a.receiverWireAccount
  match db.batchDeposits.insert? a.row a.serial_row with
  | some t => some ({ db with batchDeposits := t }, db.batchDeposits.nextSerial, none)
  | none =>
    match db.batchDeposits.lookup (a.shard, a.merchantPub, a.hContractTerms) with
    | some b =>
      if a.matches b then some (db, b.batchDepositSerialId, some b.exchangeTimestamp) else none
    | none => none

section Call

variable {db db' db₁ : Database} {a : DepositArgs} {n : ℕ} {ts : Option Timestamp}

/-- `exchange_do_deposit` is the batch and then the loop. -/
theorem exchangeDoDeposit_eq (db : Database) (a : DepositArgs) :
    exchangeDoDeposit db a = match openBatch db a with
      | some (db₁, n, ts) => depositBatch db₁ n ts a.coins
      | none => .ok (db.addWireTarget a.wireTargetHPayto a.hNormalizedPayto a.receiverWireAccount,
          ⟨none, none, true⟩) := by
  unfold exchangeDoDeposit openBatch
  simp only
  generalize db.addWireTarget _ _ _ = db₀
  cases hins : db₀.batchDeposits.insert? a.row with
  | some t => rfl
  | none =>
    cases hb : db₀.batchDeposits.lookup (a.shard, a.merchantPub, a.hContractTerms) with
    | none => rfl
    | some b =>
      by_cases hm : a.matches b = true
      · simp only [hm, if_true]
      · simp only [hm]
        rfl

/-- **A call that reports success.** -/
theorem exchangeDoDeposit_ok {out : DepositOut} :
    (exchangeDoDeposit db a = .ok (db', out) ∧ out.conflict = false ∧
      out.insufficientBalanceCoinIndex = none) ↔
    a.coins ≠ [] ∧ ∃ db₁ n ts, openBatch db a = some (db₁, n, ts) ∧
      depositCoins db₁ n 0 a.coins = .ok (db', none) ∧ out = ⟨ts, none, false⟩ := by
  rw [exchangeDoDeposit_eq]
  constructor
  · rintro ⟨h, hc, hi⟩
    split at h
    · next db₁ n ts ho =>
      unfold depositBatch at h
      split_ifs at h with hne
      simp only [bind_eq_ok, pure_eq_ok, Prod.exists, Prod.mk.injEq] at h
      obtain ⟨db₂, bad, hd, rfl, rfl⟩ := h
      simp only at hi
      subst hi
      exact ⟨hne, db₁, n, ts, ho, hd, rfl⟩
    · cases h
      cases hc
  · rintro ⟨hne, db₁, n, ts, ho, hd, rfl⟩
    refine ⟨?_, rfl, rfl⟩
    rw [ho]
    simp only [depositBatch, hne, if_false, hd]
    rfl

theorem transact_deposit : transact db (.deposit a) = some db' ↔
    a.coins ≠ [] ∧ ∃ db₁ n ts, openBatch db a = some (db₁, n, ts) ∧
      depositCoins db₁ n 0 a.coins = .ok (db', none) := by
  simp only [transact, commitIf_eq_some, Bool.and_eq_true, Bool.not_eq_true',
    Option.isNone_iff_eq_none]
  constructor
  · rintro ⟨out, h⟩
    obtain ⟨hne, db₁, n, ts, ho, hd, -⟩ := exchangeDoDeposit_ok.mp h
    exact ⟨hne, db₁, n, ts, ho, hd⟩
  · rintro ⟨hne, db₁, n, ts, ho, hd⟩
    exact ⟨_, exchangeDoDeposit_ok.mpr ⟨hne, db₁, n, ts, ho, hd, rfl⟩⟩

theorem hasKey_addWireTarget (db : Database) (h hn : HashCode) (u : String) :
    (db.addWireTarget h hn u).wireTargets.hasKey h = true := by
  unfold Database.addWireTarget
  split
  · next t ht => exact Table.hasKey_insert?_self ht
  · next hins => exact Table.insert?_eq_none.mp hins

theorem addWireTarget_of_hasKey {h : HashCode} (hk : db.wireTargets.hasKey h = true) (hn : HashCode)
    (u : String) : db.addWireTarget h hn u = db := by
  have hins : db.wireTargets.insert? (fun i => (⟨i, h, hn, u⟩ : WireTarget)) = none :=
    Table.insert?_eq_none.mpr hk
  simp only [Database.addWireTarget, hins]

theorem matches_row (a : DepositArgs) (i : ℕ) : a.matches (a.row i) = true := by
  simp [DepositArgs.matches, DepositArgs.row]

/-- The account and the batch that an open batch rests on. -/
theorem openBatch_spec (h : openBatch db a = some (db₁, n, ts)) :
    db₁.wireTargets.hasKey a.wireTargetHPayto = true ∧ ∃ b,
      db₁.batchDeposits.lookup (a.shard, a.merchantPub, a.hContractTerms) = some b ∧
        b.batchDepositSerialId = n ∧ a.matches b = true := by
  have hk := hasKey_addWireTarget db a.wireTargetHPayto a.hNormalizedPayto a.receiverWireAccount
  unfold openBatch at h
  simp only at h
  generalize db.addWireTarget _ _ _ = db₀ at h hk
  split at h
  · next t ht =>
    cases h
    exact ⟨hk, _, Table.lookup_insert?_self ht, rfl, matches_row ..⟩
  · split at h
    · next b hb =>
      split_ifs at h with hm
      cases h
      exact ⟨hk, b, hb, rfl, hm⟩
    · cases h

/-- A batch that is there with its account is found. -/
theorem openBatch_known {b : BatchDeposit} (hk : db.wireTargets.hasKey a.wireTargetHPayto = true)
    (hb : db.batchDeposits.lookup (a.shard, a.merchantPub, a.hContractTerms) = some b)
    (hm : a.matches b = true) :
    openBatch db a = some (db, b.batchDepositSerialId, some b.exchangeTimestamp) := by
  have hins : db.batchDeposits.insert? a.row = none := by
    refine Table.insert?_eq_none.mpr ?_
    exact Table.hasKey_of_lookup hb
  unfold openBatch
  rw [addWireTarget_of_hasKey hk]
  simp only [hins, hb, hm, if_true]

/-- A batch that is open stays open: later calls find it. -/
theorem openBatch_again (h : openBatch db a = some (db₁, n, ts)) {db₂ : Database}
    (hs : SameBatches db₁ db₂) : ∃ ts', openBatch db₂ a = some (db₂, n, some ts') := by
  obtain ⟨hk, b, hb, rfl, hm⟩ := openBatch_spec h
  obtain ⟨h₁, h₂⟩ := hs
  rw [← h₁] at hb
  rw [← h₂] at hk
  exact ⟨b.exchangeTimestamp, openBatch_known hk hb hm⟩

/-- The coins play no role for the batch. -/
theorem openBatch_coins (db : Database) (a : DepositArgs) (cs : List DepositedCoin) :
    openBatch db { a with coins := cs } = openBatch db a := rfl

end Call

/-! ## Reachable states -/

/-- A new history entry for another table. -/
theorem fresh_insert? {db : Database} (hi : Depositable db) {mk : ℕ → CoinHistory}
    {hs : ∀ n, Record.serial (mk n) = n} {ch : Table CoinHistory}
    (hch : db.coinHistory.insert? mk hs = some ch) (hne : ∀ n, (mk n).tableName ≠ .coinDeposits) :
    ∀ h ∈ ch.rows, h.tableName = .coinDeposits → h.serialId < db.coinDeposits.nextSerial := by
  intro h hmem htab
  rcases (Table.mem_insert? hch).mp hmem with hold | rfl
  · exact hi.fresh h hold htab
  · exact absurd htab (hne _)

theorem CoinEntries.mem_or {t : HistoryTable} {n : ℕ} {h h' : Table CoinHistory} {cs : List CoinPub}
    (hc : CoinEntries t n h cs h') {e : CoinHistory} (he : e ∈ h'.rows) :
    e ∈ h.rows ∨ e.tableName = t := by
  induction hc with
  | nil => exact Or.inl he
  | cons hi _ ih =>
    rcases ih he with h | h
    · rcases (Table.mem_insert? hi).mp h with h | rfl
      · exact Or.inl h
      · exact Or.inr rfl
    · exact Or.inr h

theorem Posts.depositable {db db' : Database} {p : Posting} (h : Posts db p db')
    (hi : Depositable db) : Depositable db' := by
  have hsound := h.coinsSound hi.sound
  cases h with
  | wireTarget =>
    rw [addWireTarget_frame] at hsound ⊢
    exact ⟨hsound, hi.fresh⟩
  | initReserve =>
    rw [initReserve_frame] at hsound ⊢
    exact ⟨hsound, hi.fresh⟩
  | reservePurse _ _ _ _ _ _ _ hpay =>
    rw [payForPurse_frame hpay] at hsound ⊢
    exact ⟨hsound, hi.fresh⟩
  | coinDeposit ht hch _ hkc hcov => exact hi.deposit ht hch hkc hcov
  | refund _ _ _ _ _ hch => exact ⟨hsound, fresh_insert? hi hch (by simp)⟩
  | melt _ hch => exact ⟨hsound, fresh_insert? hi hch (by simp)⟩
  | openDeposit _ hch => exact ⟨hsound, fresh_insert? hi hch (by simp)⟩
  | recoupToReserve _ _ hch => exact ⟨hsound, fresh_insert? hi hch (by simp)⟩
  | purseDeposit _ hch => exact ⟨hsound, fresh_insert? hi hch (by simp)⟩
  | @recoupToCoin a kc t ch ch' _ _ _ hch hch' =>
    have hfirst := fresh_insert? hi hch (by simp)
    refine ⟨hsound, fun e he htab => ?_⟩
    unfold coinEntry at hch'
    split at hch'
    · rcases (Table.mem_insert? hch').mp he with he | rfl
      · exact hfirst e he htab
      · cases htab
    · cases hch'
      exact hfirst e he htab
  | purseRefund _ _ hch =>
    refine ⟨hsound, fun e he htab => ?_⟩
    rcases hch.mem_or he with he | he
    · exact hi.fresh e he htab
    · rw [he] at htab
      cases htab
  | _ => exact ⟨hsound, hi.fresh⟩

/-- The books can be read in every state that a run reaches. -/
theorem run_depositable (ops : List Op) : Depositable (run step Database.empty ops) := by
  have hall : Admits step (fun _ _ => True) Database.empty ops := admits_true ops
  exact run_posting_invariant (C := fun _ _ => True) (I := Depositable)
    (fun _ _ _ _ _ _ => trivial) ⟨fun _ h => (nomatch h), fun _ h => (nomatch h)⟩
    (fun _ _ _ _ hp hi => hp.depositable hi) hall

/-! ## Several calls -/

/-- Calls of `exchange_do_deposit` with the same batch parameters, each committed; `none` if one of
them fails. -/
def depositCalls (db : Database) (a : DepositArgs) (calls : List (List DepositedCoin)) :
    Option Database :=
  applyAll (fun db cs => transact db (.deposit { a with coins := cs })) db calls

/-- The same batches, the same deposits up to their identities, and the same coins. -/
structure SameContents (db db' : Database) : Prop where
  batches : db.batchDeposits = db'.batchDeposits
  deposits : ∀ k, depositsBy db k = depositsBy db' k
  coins : db.knownCoins = db'.knownCoins

section Calls

variable {db db' db₁ : Database} {a : DepositArgs} {n : ℕ} {ts : Option Timestamp}
  {calls : List (List DepositedCoin)}

/-- Calls on an open batch make the abstract steps for all their coins. -/
theorem applyAll_of_depositCalls (hi : Depositable db)
    (ho : ∃ ts, openBatch db a = some (db, n, ts)) (h : depositCalls db a calls = some db') :
    SameBatches db db' ∧ ∃ hi' : Depositable db',
      applyAll (DepositBooks.deposit n) (books db hi) calls.flatten = some (books db' hi') := by
  induction calls generalizing db with
  | nil =>
    cases h
    exact ⟨⟨rfl, rfl⟩, hi, rfl⟩
  | cons cs calls ih =>
    obtain ⟨db₂, hd, h⟩ := applyAll_cons.mp h
    obtain ⟨ts, ho⟩ := ho
    obtain ⟨-, _, _, _, ho', hd⟩ := transact_deposit.mp hd
    rw [openBatch_coins, ho] at ho'
    cases ho'
    obtain ⟨hs, hi₂, hcs⟩ := applyAll_of_depositCoins hi hd
    obtain ⟨ts', ho₂⟩ := openBatch_again ho hs
    obtain ⟨hs', hi', hrest⟩ := ih hi₂ ⟨_, ho₂⟩ h
    refine ⟨⟨hs'.1.trans hs.1, hs'.2.trans hs.2⟩, hi', ?_⟩
    rw [List.flatten_cons]
    exact applyAll_append.mpr ⟨_, hcs, hrest⟩

/-- The first call opens the batch; from then on it is as if the batch had been open. -/
theorem depositCalls_open (ho : openBatch db a = some (db₁, n, ts)) {cs : List DepositedCoin} :
    depositCalls db a (cs :: calls) = depositCalls db₁ a (cs :: calls) := by
  obtain ⟨ts', ho'⟩ := openBatch_again ho ⟨rfl, rfl⟩
  have hfirst : transact db (.deposit { a with coins := cs }) =
      transact db₁ (.deposit { a with coins := cs }) := by
    refine Option.ext fun db₂ => ?_
    simp only [transact_deposit, openBatch_coins, ho, ho', Option.some.injEq,
      Prod.mk.injEq]
    constructor
    · rintro ⟨hne, _, _, _, ⟨rfl, rfl, rfl⟩, hd⟩
      exact ⟨hne, _, _, _, ⟨rfl, rfl, rfl⟩, hd⟩
    · rintro ⟨hne, _, _, _, ⟨rfl, rfl, rfl⟩, hd⟩
      exact ⟨hne, _, _, _, ⟨rfl, rfl, rfl⟩, hd⟩
  simp only [depositCalls, applyAll, hfirst]

/-- A call with coins that are all deposited leaves the database as it is. -/
theorem depositCalls_known (ho : openBatch db a = some (db, n, ts)) {cs : List DepositedCoin}
    (hne : cs ≠ []) (hk : ∀ c ∈ cs, db.coinDeposits.hasKey c.key = true) :
    depositCalls db a [cs] = some db := by
  refine applyAll_cons.mpr ⟨db, transact_deposit.mpr ⟨hne, db, n, ts, ho, ?_⟩, rfl⟩
  exact depositCoins_known hk

theorem depositable_addWireTarget (hi : Depositable db) (h hn : HashCode) (u : String) :
    Depositable (db.addWireTarget h hn u) := (Posts.wireTarget h hn u).depositable hi

theorem Depositable.openBatch (hi : Depositable db) (ho : openBatch db a = some (db₁, n, ts)) :
    Depositable db₁ := by
  have hi := depositable_addWireTarget hi a.wireTargetHPayto a.hNormalizedPayto a.receiverWireAccount
  unfold TalerExchange.openBatch at ho
  simp only at ho
  generalize db.addWireTarget _ _ _ = db₀ at ho hi
  split at ho
  · cases ho
    exact ⟨hi.sound, hi.fresh⟩
  · split at ho
    · split_ifs at ho
      cases ho
      exact hi
    · cases ho

/-- No call of a sequence that succeeds is without coins. -/
theorem ne_nil_of_depositCalls (h : depositCalls db a calls = some db') : ∀ cs ∈ calls, cs ≠ [] := by
  induction calls generalizing db with
  | nil => exact fun _ h => nomatch h
  | cons cs calls ih =>
    obtain ⟨db₂, hd, h⟩ := applyAll_cons.mp h
    intro x hx
    rcases List.mem_cons.mp hx with rfl | hx
    · exact (transact_deposit.mp hd).1
    · exact ih h x hx

end Calls

/-- **Splitting and repeating deposits.** Calls with the same batch parameters that all succeed, in
any order and with any repetitions, leave the contents that one call with all their coins leaves,
and repeating a call then changes nothing. -/
theorem depositCalls_split {ops : List Op} {a : DepositArgs} {calls : List (List DepositedCoin)}
    {coins : List DepositedCoin} {db' : Database} (hne : calls ≠ [])
    (hsig : ∀ c ∈ calls.flatten, ∀ d ∈ calls.flatten,
      c.coinPub = d.coinPub → c.coinSig = d.coinSig → c = d)
    (h : depositCalls (run step Database.empty ops) a calls = some db')
    (hcoins : ∀ c, c ∈ coins ↔ c ∈ calls.flatten) :
    (∃ db'', depositCalls (run step Database.empty ops) a [coins] = some db'' ∧
      SameContents db' db'') ∧
    ∀ cs ∈ calls, depositCalls db' a [cs] = some db' := by
  have hi := run_depositable ops
  generalize run step Database.empty ops = db at h hi
  obtain ⟨cs, rest, rfl⟩ := List.exists_cons_of_ne_nil hne
  have hcs := ne_nil_of_depositCalls h
  obtain ⟨db₂, hd, -⟩ := applyAll_cons.mp h
  obtain ⟨-, db₁, n, ts, ho, -⟩ := transact_deposit.mp hd
  rw [openBatch_coins] at ho
  have hi₁ := hi.openBatch ho
  obtain ⟨ts₁, ho₁⟩ := openBatch_again ho ⟨rfl, rfl⟩
  rw [depositCalls_open ho] at h
  obtain ⟨hs, hi', hall⟩ := applyAll_of_depositCalls hi₁ ⟨_, ho₁⟩ h
  have hsteady : Steady (DepositBooks.deposit n) (cs :: rest).flatten :=
    steady_deposit fun c hc d hd hk =>
      hsig c hc d hd (congrArg Prod.fst hk) (congrArg Prod.snd hk)
  constructor
  · -- the same steps for the coins of the one call
    have hone := applyAll_congr hsteady hcoins hall
    obtain ⟨db'', hdb⟩ := depositCoins_of_applyAll (i := 0) hi₁ hone
    obtain ⟨hs'', hi'', hone'⟩ := applyAll_of_depositCoins hi₁ hdb
    have hbooks : books db' hi' = books db'' hi'' := Option.some.inj (hone.symm.trans hone')
    have hcne : coins ≠ [] := by
      rintro rfl
      obtain ⟨c, hc⟩ := List.exists_mem_of_ne_nil _ (hcs cs List.mem_cons_self)
      have := (hcoins c).mpr (List.mem_flatten.mpr ⟨cs, List.mem_cons_self, hc⟩)
      cases this
    refine ⟨db'', ?_, hs.1.trans hs''.1.symm, fun k => ?_, ?_⟩
    · rw [depositCalls_open ho]
      exact applyAll_cons.mpr ⟨db'', transact_deposit.mpr ⟨hcne, db₁, n, _, ho₁, hdb⟩, rfl⟩
    · exact congrFun (congrArg DepositBooks.deposits hbooks) k
    · exact congrArg DepositBooks.coins hbooks
  · intro x hx
    obtain ⟨ts', ho'⟩ := openBatch_again ho₁ hs
    refine depositCalls_known ho' (hcs x hx) fun c hc => ?_
    have habs := hsteady.absorbed hall c (List.mem_flatten.mpr ⟨x, hx, hc⟩)
    rw [← isSome_depositsBy]
    exact DepositBooks.deposits_after habs

/-! ## A sample -/

/-- Two coins of a denomination of value ten. -/
def twoCoins : List Op :=
  [.denomination ⟨1, .whole 10, .zero, .zero, .zero, .zero⟩, .coin 7 1, .coin 8 1]

/-- A batch without coins. -/
def sampleBatch : DepositArgs where
  shard := 0
  merchantPub := 5
  merchantSig := none
  walletTimestamp := 0
  exchangeTimestamp := 0
  refundDeadline := 10
  wireDeadline := 20
  hContractTerms := 3
  walletDataHash := none
  wireSalt := 0
  wireTargetHPayto := 4
  hNormalizedPayto := 4
  policyDetailsSerialId := none
  policyBlocked := false
  receiverWireAccount := ""
  coins := []

/-- Two coins in two calls, one of them twice. -/
def splitCalls : List (List DepositedCoin) :=
  [[⟨8, 2, .whole 6⟩], [⟨7, 1, .whole 5⟩, ⟨8, 2, .whole 6⟩]]

theorem splitCalls_same : ∃ db',
    depositCalls (run step Database.empty twoCoins) sampleBatch splitCalls = some db' ∧
      (∃ db'', depositCalls (run step Database.empty twoCoins) sampleBatch
        [[⟨7, 1, .whole 5⟩, ⟨8, 2, .whole 6⟩]] = some db'' ∧ SameContents db' db'') ∧
      ∀ cs ∈ splitCalls, depositCalls db' sampleBatch [cs] = some db' := by
  have hsome : (depositCalls (run step Database.empty twoCoins) sampleBatch splitCalls).isSome = true := by
    decide +kernel
  obtain ⟨db', h⟩ := Option.isSome_iff_exists.mp hsome
  refine ⟨db', h, depositCalls_split (by decide) (by decide) h fun c => ?_⟩
  simp [splitCalls]
  grind

end TalerExchange
