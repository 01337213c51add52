import TalerExchange.Crypto.Planchet
import TalerExchange.Coin.Ledger
import TalerExchange.Deposit.Precheck

/-!
# Deposit confirmations

`TEH_handler_batch_deposit` checks and adds up the coins of a request, has `exchange_do_deposit`
record them and signs for the total. The total is that of the list in the request; the rows are one
for each coin and signature, however often they are listed.

* `DepositServer.parseCoins`, `batchDepositTransaction`, `handlerBatchDeposit`: the handler;
* `serve`: the handler between the other operations on the database;
* `SignedDeposits`: every row was signed by its coin, for its batch, amount and denomination;
* **`confirmation_covered_iff`**: when the total that is signed for is recorded.
-/

namespace TalerExchange

open Sql Transition

/-! ## The request -/

/-- `struct TALER_EXCHANGEDB_CoinDepositInformation`: a coin of a request. -/
structure CoinDepositInfo where
  contribution : Amount
  denomPubHash : HashCode
  ubSig : Signature
  coinPub : CoinPub
  hAgeCommitment : Option HashCode
  coinSig : Signature
deriving DecidableEq, Repr

/-- The body of a request. -/
structure BatchDepositRequest where
  merchantPaytoUri : String
  wireSalt : ℕ
  merchantPub : MerchantPub
  merchantSig : Option Signature
  hContractTerms : HashCode
  walletDataHash : Option HashCode
  coins : List CoinDepositInfo
  hasPolicy : Bool
  timestamp : Timestamp
  refundDeadline : Timestamp
  wireTransferDeadline : Timestamp
deriving DecidableEq, Repr

/-- `struct TALER_DepositRequestPS`: what the signature of a coin is over; what is not given is
zero. -/
structure DepositRequestPS where
  hContractTerms : HashCode
  hAgeCommitment : HashCode
  hPolicy : HashCode
  hWire : HashCode
  hDenomPub : HashCode
  walletTimestamp : Timestamp
  refundDeadline : Timestamp
  amountWithFee : Amount
  depositFee : Amount
  merchant : MerchantPub
  walletDataHash : HashCode
deriving DecidableEq, Repr

/-- The signatures that are verified. -/
inductive DepositCheck
  | merchantContract (h : HashCode) (m : MerchantPub) (s : Signature)
  | testCoinValid (c : CoinPub) (hAge : Option HashCode) (h : HashCode) (s : Signature)
  | walletDeposit (c : CoinPub) (ps : DepositRequestPS) (s : Signature)
deriving DecidableEq, Repr

/-- The functions of the server that never change: hashes, the shard of a merchant, and which
signatures verify. -/
structure DepositServer where
  computeShard : MerchantPub → ℤ
  paytoValidate : String → Bool
  fullPaytoHash : String → HashCode
  normalizedPaytoHash : String → HashCode
  merchantWireHash : String → ℕ → HashCode
  valid : DepositCheck → Bool

/-- Why a request is refused. -/
inductive DepositError
  | parameterMalformed (field : String)
  | refundDeadlineAfterWireDeadline
  | wireDeadlineIsNever
  | denominationKeyUnknown
  | amountExceedsDenominationValue
  | denominationExpired
  | denominationValidityInFuture
  | denominationRevoked
  | cipherMismatch
  | denominationSignatureInvalid
  | negativeValueAfterFee
  | coinSignatureInvalid
  | policyNotAccepted
  | kycRequired
  | coinConflictingDenominationKey
  | conflictingContract
  | insufficientFunds (coinIndex : ℕ)
  | storeFailed
deriving DecidableEq, Repr

/-- `TALER_KYCLOGIC` is off, the check failed, or its result. -/
inductive DepositLegitimization
  | off
  | failure
  | result (ok badKycAuth : Bool)
deriving DecidableEq, Repr

/-- What else a request meets with: the time, the denominations that are not loaded, those that
cannot be used now, whether an extension takes the policy, and the legitimization check. -/
structure DepositCircumstances where
  now : Timestamp
  loaded : HashCode → Bool
  unusable : HashCode → Option DepositError
  policyAccepted : Bool
  legitimization : DepositLegitimization

/-- What the exchange signs: `struct TALER_DepositConfirmationPS`. -/
structure DepositConfirmation where
  hContractTerms : HashCode
  hWire : HashCode
  exchangeTimestamp : Timestamp
  wireDeadline : Timestamp
  refundDeadline : Timestamp
  totalWithoutFee : Amount
  coinSigs : List Signature
  merchantPub : MerchantPub
deriving DecidableEq, Repr

/-- The answer to a request; `abort` if an assertion fails. -/
inductive DepositReply
  | confirmation (c : DepositConfirmation)
  | error (e : DepositError)
  | abort
deriving DecidableEq, Repr

/-- `GNUNET_TIME_UNIT_FOREVER_TS`. -/
def timestampForever : Timestamp := 2 ^ 64 - 1

/-! ## Parsing -/

namespace DepositServer

variable (srv : DepositServer) (env : DepositCircumstances) (db : Database)
  (r : BatchDepositRequest)

/-- The message that a coin of the request signs. The hash of the policy is not computed yet when
the signature is verified. -/
def depositRequestPS (c : CoinDepositInfo) (depositFee : Amount) : DepositRequestPS where
  hContractTerms := r.hContractTerms
  hAgeCommitment := c.hAgeCommitment.getD 0
  hPolicy := 0
  hWire := srv.merchantWireHash r.merchantPaytoUri r.wireSalt
  hDenomPub := c.denomPubHash
  walletTimestamp := r.timestamp
  refundDeadline := r.refundDeadline
  amountWithFee := c.contribution
  depositFee := depositFee
  merchant := r.merchantPub
  walletDataHash := r.walletDataHash.getD 0

/-- `parse_coin`: the deposit fee of the coin. -/
def parseCoin (c : CoinDepositInfo) : Except DepositError Amount :=
  match db.denominations.lookup c.denomPubHash with
  | none => .error .denominationKeyUnknown
  | some dk =>
    if env.loaded c.denomPubHash = false then .error .denominationKeyUnknown
    else if dk.coin.units < c.contribution.units then .error .amountExceedsDenominationValue
    else
      match env.unusable c.denomPubHash with
      | some e => .error e
      | none =>
        if srv.valid (.testCoinValid c.coinPub c.hAgeCommitment c.denomPubHash c.ubSig) = false then
          .error .denominationSignatureInvalid
        else if c.contribution.units < dk.feeDeposit.units then .error .negativeValueAfterFee
        else if srv.valid (.walletDeposit c.coinPub (srv.depositRequestPS r c dk.feeDeposit)
            c.coinSig) = false then
          .error .coinSignatureInvalid
        else .ok dk.feeDeposit

/-- The loop of `bdc_phase_parse` over the coins, with `accumulated_total_without_fee`; `none` if a
sum is out of range. -/
def parseCoins : Amount → List CoinDepositInfo → Except DepositError (Option Amount)
  | total, [] => .ok (some total)
  | total, c :: cs => do
    let fee ← srv.parseCoin env db r c
    match (c.contribution.subtract? fee).bind total.add? with
    | none => .ok none
    | some total => parseCoins total cs

/-- `bdc_phase_parse`. -/
def phaseParse : Except DepositError (Option Amount) :=
  if r.merchantSig.any (fun s =>
      !srv.valid (.merchantContract r.hContractTerms r.merchantPub s)) = true then
    .error (.parameterMalformed "merchant_sig")
  else if srv.paytoValidate r.merchantPaytoUri = false then
    .error (.parameterMalformed "merchant_payto_uri")
  else if r.wireTransferDeadline < r.refundDeadline then .error .refundDeadlineAfterWireDeadline
  else if r.wireTransferDeadline = timestampForever then .error .wireDeadlineIsNever
  else if r.coins = [] then .error (.parameterMalformed "coins")
  else if maxFreshCoins < r.coins.length then .error (.parameterMalformed "coins")
  else srv.parseCoins env db r Amount.zero r.coins

/-- The arguments of `exchange_do_deposit` for a request. -/
def depositArgs : DepositArgs where
  shard := srv.computeShard r.merchantPub
  merchantPub := r.merchantPub
  merchantSig := r.merchantSig
  walletTimestamp := r.timestamp
  exchangeTimestamp := env.now
  refundDeadline := r.refundDeadline
  wireDeadline := r.wireTransferDeadline
  hContractTerms := r.hContractTerms
  walletDataHash := r.walletDataHash
  wireSalt := r.wireSalt
  wireTargetHPayto := srv.fullPaytoHash r.merchantPaytoUri
  hNormalizedPayto := srv.normalizedPaytoHash r.merchantPaytoUri
  policyDetailsSerialId := none
  policyBlocked := false
  receiverWireAccount := r.merchantPaytoUri
  coins := r.coins.map fun c => ⟨c.coinPub, c.coinSig, c.contribution⟩

end DepositServer

/-! ## The transaction -/

/-- `TEH_make_coin_known` for each coin. -/
def makeCoinsKnown (db : Database) : List CoinDepositInfo → Except DepositError Database
  | [] => .ok db
  | c :: cs =>
    match ensureCoinKnown db c.coinPub c.denomPubHash with
    | .ok (db, true) => makeCoinsKnown db cs
    | .ok (_, false) => .error .coinConflictingDenominationKey
    | .error _ => .error .storeFailed

/-- The number of rows of the query of `TEH_PG_get_wire_hash_for_contract`. -/
def Database.wireHashRows (db : Database) (m : MerchantPub) (h : HashCode) : ℕ :=
  (db.coinDeposits.rows.filter fun d =>
    (db.batchDeposits.lookupSerial d.batchDepositSerialId).any fun b =>
      b.merchantPub = m ∧ b.hContractTerms = h ∧ db.wireTargets.hasKey b.wireTargetHPayto = true).length

/-- What `batch_deposit_transaction` leaves: committed with the timestamp of the batch, rolled back,
or committed and then aborted. -/
inductive DepositTransaction
  | done (db : Database) (exchangeTimestamp : Timestamp)
  | failed (e : DepositError)
  | aborted (db : Database)

/-- `batch_deposit_transaction`. A policy cannot be stored: `TEH_PG_persist_policy_details` passes
nine arguments to a procedure with eight. If a conflicting contract does not have exactly one coin,
the error is returned as a success, and an assertion of `TEH_DB_run_transaction` fails after the
commit. -/
def batchDepositTransaction (db : Database) (hasPolicy : Bool) (coins : List CoinDepositInfo)
    (a : DepositArgs) : DepositTransaction :=
  if hasPolicy then .failed .storeFailed
  else
    match makeCoinsKnown db coins with
    | .error e => .failed e
    | .ok db =>
      match exchangeDoDeposit db a with
      | .error _ => .failed .storeFailed
      | .ok (db, out) =>
        if out.conflict then
          if db.wireHashRows a.merchantPub a.hContractTerms = 1 then .failed .conflictingContract
          else .aborted db
        else
          match out.insufficientBalanceCoinIndex with
          | some i => .failed (.insufficientFunds i)
          | none => .done db (out.exchangeTimestamp.getD a.exchangeTimestamp)

namespace DepositServer

variable (srv : DepositServer) (env : DepositCircumstances) (db : Database)
  (r : BatchDepositRequest)

/-- `bdc_phase_reply_success`. -/
def phaseReplySuccess (total : Amount) (exchangeTimestamp : Timestamp) : DepositReply :=
  .confirmation
    { hContractTerms := r.hContractTerms
      hWire := srv.merchantWireHash r.merchantPaytoUri r.wireSalt
      exchangeTimestamp := exchangeTimestamp
      wireDeadline := r.wireTransferDeadline
      refundDeadline := r.refundDeadline
      totalWithoutFee := total
      coinSigs := r.coins.map (·.coinSig)
      merchantPub := r.merchantPub }

/-- `bdc_phase_transact` and the reply. -/
def phaseTransact (total : Amount) : Database × DepositReply :=
  match batchDepositTransaction db r.hasPolicy r.coins (srv.depositArgs env r) with
  | .done db ts => (db, srv.phaseReplySuccess r total ts)
  | .failed e => (db, .error e)
  | .aborted db => (db, .abort)

/-- `bdc_phase_check_kyc_result`: a request that was granted before is granted again. -/
def phaseCheckKycResult (total : Amount) (ok badKycAuth : Bool) : Database × DepositReply :=
  if ok = true ∧ badKycAuth = false then srv.phaseTransact env db r total
  else
    match exchangeDoCheckDepositIdempotent db (srv.depositArgs env r) with
    | .ok ⟨ts, true⟩ => (db, srv.phaseReplySuccess r total (ts.getD env.now))
    | .ok ⟨_, false⟩ => (db, .error .kycRequired)
    | .error _ => (db, .error .storeFailed)

/-- **`TEH_handler_batch_deposit`.** -/
def handlerBatchDeposit : Database × DepositReply :=
  match srv.phaseParse env db r with
  | .error e => (db, .error e)
  | .ok none => (db, .abort)
  | .ok (some total) =>
    if r.hasPolicy = true ∧ env.policyAccepted = false then (db, .error .policyNotAccepted)
    else
      match env.legitimization with
      | .off => srv.phaseTransact env db r total
      | .failure => (db, .error .storeFailed)
      | .result ok badKycAuth => srv.phaseCheckKycResult env db r total ok badKycAuth

end DepositServer

/-! ## Between the other operations -/

/-- What happens at the exchange: a request to deposit, or another operation on the database. -/
inductive DepositEvent
  | batchDeposit (env : DepositCircumstances) (r : BatchDepositRequest)
  | other (o : Op) (h : ∀ a, o ≠ .deposit a)

/-- What an event leaves in the database. -/
def serve (srv : DepositServer) (db : Database) : DepositEvent → Database
  | .batchDeposit env r => (srv.handlerBatchDeposit env db r).1
  | .other o _ => step db o

/-! ## Signed rows -/

/-- A coin signed for a deposit of this amount into this batch. -/
def DepositServer.Signed (srv : DepositServer) (c : CoinPub) (s : Signature)
    (k : ℤ × MerchantPub × HashCode) (m : Amount) : Prop :=
  ∃ ps, srv.valid (.walletDeposit c ps s) = true ∧
    k = (srv.computeShard ps.merchant, ps.merchant, ps.hContractTerms) ∧ m = ps.amountWithFee

/-- A coin signed for a deposit with its denomination. -/
def DepositServer.SignedKey (srv : DepositServer) (db : CoinTables) (c : CoinPub) (s : Signature) :
    Prop :=
  ∃ ps den, srv.valid (.walletDeposit c ps s) = true ∧ db.denominationOf c = some den ∧
    den.denomPubHash = ps.hDenomPub

/-- **Every row was signed by its coin**, for its batch, its amount and its denomination. -/
structure SignedDeposits (srv : DepositServer) (db : Database) : Prop where
  rows : DepositRows srv.Signed db
  keys : ∀ d ∈ db.coinDeposits.rows, srv.SignedKey db.toCoinTables d.coinPub d.coinSig
  depositable : Depositable db
  merges : MergesHavePurse db

section Signed

variable {srv : DepositServer} {env : DepositCircumstances} {r : BatchDepositRequest}
  {db db' db₁ : Database} {c : CoinDepositInfo} {cs : List CoinDepositInfo}

theorem signedDeposits_empty : SignedDeposits srv Database.empty :=
  ⟨⟨fun _ h => (nomatch h), fun _ h => (nomatch h)⟩, fun _ h => (nomatch h),
    ⟨fun _ h => (nomatch h), fun _ h => (nomatch h)⟩, fun _ h => (nomatch h)⟩

theorem Grows.signedKey (hg : Grows db.toCoinTables db'.toCoinTables) {c : CoinPub} {s : Signature}
    (h : srv.SignedKey db.toCoinTables c s) : srv.SignedKey db'.toCoinTables c s := by
  obtain ⟨ps, den, hv, hden, hk⟩ := h
  exact ⟨ps, den, hv, hg.denominationOf hden, hk⟩

/-- Only deposits write `coin_deposits`. -/
theorem Posts.coinDeposits {p : Posting} (h : Posts db p db') (hp : p.isDeposit = false) :
    db'.coinDeposits = db.coinDeposits := by
  cases h with
  | wireTarget => rw [addWireTarget_frame]
  | initReserve => rw [initReserve_frame]
  | reservePurse _ _ _ _ _ _ _ hpay => rw [payForPurse_frame hpay]
  | coinDeposit => cases hp
  | _ => rfl

theorem Posts.signedDeposits {p : Posting} (h : Posts db p db') (hp : p.isDeposit = false)
    (hi : SignedDeposits srv db) : SignedDeposits srv db' where
  rows := h.depositRows hp hi.rows
  keys d hd := by
    rw [h.coinDeposits hp] at hd
    exact h.grows.signedKey (hi.keys d hd)
  depositable := h.depositable hi.depositable
  merges := h.mergesHavePurse hi.merges

/-- What `parse_coin` makes sure of. -/
theorem parseCoin_eq_ok {fee : Amount} (h : srv.parseCoin env db r c = .ok fee) :
    ∃ dk, db.denominations.lookup c.denomPubHash = some dk ∧ fee = dk.feeDeposit ∧
      fee.units ≤ c.contribution.units ∧
      srv.valid (.walletDeposit c.coinPub (srv.depositRequestPS r c fee) c.coinSig) = true := by
  unfold DepositServer.parseCoin at h
  split at h
  · cases h
  · next dk hdk =>
    cases hu : env.unusable c.denomPubHash with
    | some e =>
      rw [hu] at h
      split_ifs at h
    | none =>
      rw [hu] at h
      split_ifs at h with h₁ h₂ h₃ h₄ h₅
      cases h
      exact ⟨dk, hdk, rfl, not_lt.mp h₄, by simpa using h₅⟩

/-- A coin of the request with its fee, as `parse_coin` leaves it. -/
def DepositServer.Parsed (srv : DepositServer) (db : Database) (r : BatchDepositRequest)
    (c : CoinDepositInfo) : Prop :=
  ∃ dk, db.denominations.lookup c.denomPubHash = some dk ∧
    dk.feeDeposit.units ≤ c.contribution.units ∧
    srv.valid (.walletDeposit c.coinPub (srv.depositRequestPS r c dk.feeDeposit) c.coinSig) = true

/-- What a coin of the request counts for. -/
def Database.netOf (db : Database) (c : CoinDepositInfo) : ℤ :=
  c.contribution.units -
    (db.denominations.lookup c.denomPubHash).elim 0 fun dk => dk.feeDeposit.units

/-- **The loop over the coins.** -/
theorem parseCoins_eq_some {total total' : Amount}
    (h : srv.parseCoins env db r total cs = .ok (some total')) :
    (∀ c ∈ cs, srv.Parsed db r c) ∧ total'.units = total.units + (cs.map db.netOf).sum := by
  induction cs generalizing total with
  | nil =>
    cases h
    exact ⟨fun _ h => (nomatch h), by simp⟩
  | cons c cs ih =>
    simp only [DepositServer.parseCoins, bind, Except.bind] at h
    split at h
    · cases h
    · next fee hfee =>
      obtain ⟨dk, hdk, rfl, hle, hv⟩ := parseCoin_eq_ok hfee
      split at h
      · cases h
      · next t ht =>
        obtain ⟨m, hm, hadd⟩ := Option.bind_eq_some_iff.mp ht
        obtain ⟨hall, hsum⟩ := ih h
        rw [Amount.subtract?_eq_some] at hm
        rw [Amount.add?_eq_some] at hadd
        refine ⟨List.forall_mem_cons.mpr ⟨⟨dk, hdk, hle, hv⟩, hall⟩, ?_⟩
        rw [List.map_cons, List.sum_cons, Database.netOf, hdk, Option.elim_some, hsum, hadd, hm]
        omega

theorem phaseParse_eq_some {total : Amount} (h : srv.phaseParse env db r = .ok (some total)) :
    (∀ c ∈ r.coins, srv.Parsed db r c) ∧ total.units = (r.coins.map db.netOf).sum := by
  unfold DepositServer.phaseParse at h
  split_ifs at h
  obtain ⟨hall, hsum⟩ := parseCoins_eq_some h
  exact ⟨hall, hsum.trans (zero_add _)⟩

/-- A coin that is made known has the denomination of the request. -/
theorem ensureCoinKnown_denomination {c : CoinPub} {h : HashCode}
    (he : ensureCoinKnown db c h = .ok (db', true)) :
    ∃ dk, db.denominations.lookup h = some dk ∧ db'.denominationOf c = some dk := by
  unfold ensureCoinKnown at he
  split at he
  · cases he
  · next dk hdk =>
    refine ⟨dk, hdk, ?_⟩
    have hmem := Table.mem_of_lookup hdk
    split at he
    · next t ht =>
      cases he
      exact denominationOf_new_coin hmem ht
    · simp only [Except.ok.injEq, Prod.mk.injEq, Option.any_eq_true] at he
      obtain ⟨rfl, kc, hkc, hser⟩ := he
      refine Option.bind_eq_some_iff.mpr ⟨kc, hkc, Table.lookupSerial_eq_some.mpr ⟨hmem, ?_⟩⟩
      exact (of_decide_eq_true hser).symm

/-- **All coins are known with their denominations.** -/
theorem makeCoinsKnown_eq_ok (h : makeCoinsKnown db cs = .ok db') :
    Path Posts (fun _ p => p.isDeposit = false) db db' ∧
      ∀ c ∈ cs, ∃ dk, db'.denominationOf c.coinPub = some dk ∧ dk.denomPubHash = c.denomPubHash := by
  induction cs generalizing db with
  | nil =>
    cases h
    exact ⟨.refl _, fun _ h => (nomatch h)⟩
  | cons c cs ih =>
    unfold makeCoinsKnown at h
    split at h
    · next db₁ he =>
      obtain ⟨hp, hall⟩ := ih h
      have hp₁ : Path Posts (fun _ p => p.isDeposit = false) db db₁ :=
        ensureCoinKnown_path (fun _ _ => rfl) he
      refine ⟨hp₁.trans hp, List.forall_mem_cons.mpr ⟨?_, hall⟩⟩
      obtain ⟨dk, hdk, hden⟩ := ensureCoinKnown_denomination he
      have hkeep := hp.invariant (I := fun s => s.denominationOf c.coinPub = some dk)
        (fun _ _ _ _ hpost hs => hpost.grows.denominationOf hs) hden
      exact ⟨dk, hkeep, Table.key_of_lookup hdk⟩
    · cases h
    · cases h

/-! ### The transaction -/

theorem openBatch_frame {a : DepositArgs} {n : ℕ} {ts : Option Timestamp}
    (ho : openBatch db a = some (db₁, n, ts)) :
    db₁.denominations = db.denominations ∧ db₁.knownCoins = db.knownCoins := by
  unfold openBatch at ho
  rw [addWireTarget_frame] at ho
  simp only at ho
  split at ho
  · cases ho
    exact ⟨rfl, rfl⟩
  · split at ho
    · split_ifs at ho
      cases ho
      exact ⟨rfl, rfl⟩
    · cases ho

/-- Denominations are never removed. -/
theorem Posts.denominations {p : Posting} (h : Posts db p db') {d : Denomination}
    (hd : d ∈ db.denominations.rows) : d ∈ db'.denominations.rows := by
  cases h with
  | wireTarget =>
    rw [addWireTarget_frame]
    exact hd
  | initReserve =>
    rw [initReserve_frame]
    exact hd
  | reservePurse _ _ _ _ _ _ _ hpay =>
    rw [payForPurse_frame hpay]
    exact hd
  | denomination ht => exact (Table.mem_insert? ht).mpr (Or.inl hd)
  | _ => exact hd

theorem SignedDeposits.openBatch (hi : SignedDeposits srv db) {a : DepositArgs} {n : ℕ}
    {ts : Option Timestamp} (ho : openBatch db a = some (db₁, n, ts)) : SignedDeposits srv db₁ := by
  have hw := (Posts.wireTarget a.wireTargetHPayto a.hNormalizedPayto
    a.receiverWireAccount).signedDeposits rfl hi
  refine ⟨hi.rows.openBatch ho, ?_, hi.depositable.openBatch ho, ?_⟩ <;>
    unfold TalerExchange.openBatch at ho <;>
    simp only at ho <;>
    generalize db.addWireTarget _ _ _ = db₀ at ho hw
  · split at ho
    · cases ho
      exact hw.keys
    · split at ho
      · split_ifs at ho
        cases ho
        exact hw.keys
      · cases ho
  · split at ho
    · cases ho
      exact hw.merges
    · split at ho
      · split_ifs at ho
        cases ho
        exact hw.merges
      · cases ho

theorem SignedDeposits.coins (hi : SignedDeposits srv db) {ds : List DepositedCoin} {n i : ℕ}
    {b : BatchDeposit} (hb : db.batchDeposits.lookupSerial n = some b)
    (hP : ∀ c ∈ ds, srv.Signed c.coinPub c.coinSig (Record.key b) c.amountWithFee)
    (hk : ∀ c ∈ ds, srv.SignedKey db.toCoinTables c.coinPub c.coinSig)
    (h : depositCoins db n i ds = .ok (db', none)) : SignedDeposits srv db' := by
  have hpath := depositCoins_path (C := fun _ p => ∃ c ∈ ds, p = .coinDeposit n c)
    (fun _ c hc => ⟨c, hc, rfl⟩) ⟨b, Table.lookupSerial_eq_some.mp hb⟩ h
  refine ⟨hi.rows.coins hb hP h, ?_, (applyAll_of_depositCoins hi.depositable h).2.1,
    hpath.invariant (fun _ _ _ _ hpost hm => hpost.mergesHavePurse hm) hi.merges⟩
  -- a new row is that of a coin of the list
  refine (hpath.invariant (I := fun s =>
    (∀ d ∈ s.coinDeposits.rows, srv.SignedKey s.toCoinTables d.coinPub d.coinSig) ∧
      ∀ c ∈ ds, srv.SignedKey s.toCoinTables c.coinPub c.coinSig) ?_ ⟨hi.keys, hk⟩).1
  rintro s _ t ⟨c, hc, rfl⟩ hpost ⟨hs, hds⟩
  have hg := hpost.grows
  refine ⟨fun d hd => ?_, fun c hc => hg.signedKey (hds c hc)⟩
  cases hpost with
  | coinDeposit ht =>
    rcases (Table.mem_insert? ht).mp hd with hd | rfl
    · exact hg.signedKey (hs d hd)
    · exact hg.signedKey (hds c hc)

/-- **A transaction that is committed.** -/
theorem batchDepositTransaction_done {hasPolicy : Bool} {a : DepositArgs} {ts : Timestamp}
    (h : batchDepositTransaction db hasPolicy cs a = .done db' ts) :
    ∃ db₁ db₂ n t, makeCoinsKnown db cs = .ok db₁ ∧ openBatch db₁ a = some (db₂, n, t) ∧
      depositCoins db₂ n 0 a.coins = .ok (db', none) := by
  unfold batchDepositTransaction at h
  split_ifs at h
  split at h
  · cases h
  · next db₁ hk =>
    split at h
    · cases h
    · next db₂ out hd =>
      split_ifs at h with hc
      split at h
      · cases h
      · next hn =>
        cases h
        obtain ⟨-, db₂, n, t, ho, hcoins, -⟩ :=
          exchangeDoDeposit_ok.mp ⟨hd, Bool.not_eq_true _ ▸ hc, hn⟩
        exact ⟨db₁, db₂, n, t, hk, ho, hcoins⟩

/-- A transaction that is committed before the assertion has opened no batch. -/
theorem batchDepositTransaction_aborted {hasPolicy : Bool} {a : DepositArgs}
    (h : batchDepositTransaction db hasPolicy cs a = .aborted db') :
    ∃ db₁, makeCoinsKnown db cs = .ok db₁ ∧
      db' = db₁.addWireTarget a.wireTargetHPayto a.hNormalizedPayto a.receiverWireAccount := by
  unfold batchDepositTransaction at h
  split_ifs at h
  split at h
  · cases h
  · next db₁ hk =>
    rw [exchangeDoDeposit_eq] at h
    cases ho : TalerExchange.openBatch db₁ a with
    | none =>
      simp only [ho, if_true] at h
      split_ifs at h
      cases h
      exact ⟨db₁, hk, rfl⟩
    | some x =>
      simp only [ho, depositBatch] at h
      split at h
      · cases h
      · next db₂ out hd =>
        split_ifs at hd
        simp only [bind_eq_ok, pure_eq_ok, Prod.exists, Prod.mk.injEq] at hd
        obtain ⟨db₃, bad, hd, rfl, rfl⟩ := hd
        simp only [Bool.false_eq_true, if_false] at h
        split at h <;> cases h

/-- The coins of a request that was parsed, known with their denominations, were signed. -/
theorem Parsed.signed (hp : srv.Parsed db r c) {dk : Denomination}
    (hd : db'.denominationOf c.coinPub = some dk) (hk : dk.denomPubHash = c.denomPubHash) :
    srv.Signed c.coinPub c.coinSig
        (srv.computeShard r.merchantPub, r.merchantPub, r.hContractTerms) c.contribution ∧
      srv.SignedKey db'.toCoinTables c.coinPub c.coinSig := by
  obtain ⟨dk', -, -, hv⟩ := hp
  exact ⟨⟨_, hv, rfl, rfl⟩, ⟨_, dk, hv, hd, hk⟩⟩

/-- **A request keeps the rows signed.** -/
theorem SignedDeposits.transaction (hi : SignedDeposits srv db)
    (hall : ∀ c ∈ r.coins, srv.Parsed db r c) {hasPolicy : Bool} {ts : Timestamp}
    (h : batchDepositTransaction db hasPolicy r.coins (srv.depositArgs env r) = .done db' ts) :
    SignedDeposits srv db' := by
  obtain ⟨db₁, db₂, n, t, hk, ho, hd⟩ := batchDepositTransaction_done h
  obtain ⟨hpath, hden⟩ := makeCoinsKnown_eq_ok hk
  have hi₁ : SignedDeposits srv db₁ :=
    hpath.invariant (fun _ _ _ hp hpost hs => hpost.signedDeposits hp hs) hi
  have hden₂ : ∀ c ∈ r.coins, ∃ dk, db₂.denominationOf c.coinPub = some dk ∧
      dk.denomPubHash = c.denomPubHash := by
    intro c hc
    rw [CoinTables.denominationOf, (openBatch_frame ho).1, (openBatch_frame ho).2]
    exact hden c hc
  obtain ⟨-, b, hb, hn, -⟩ := openBatch_spec ho
  have hkey : Record.key b = (srv.computeShard r.merchantPub, r.merchantPub, r.hContractTerms) :=
    Table.key_of_lookup hb
  refine (hi₁.openBatch ho).coins (b := b)
    (Table.lookupSerial_eq_some.mpr ⟨Table.mem_of_lookup hb, hn⟩) (fun x hx => ?_) (fun x hx => ?_) hd
  · obtain ⟨c, hc, rfl⟩ := List.mem_map.mp hx
    obtain ⟨dk, hdk, hh⟩ := hden₂ c hc
    rw [hkey]
    exact (Parsed.signed (hall c hc) hdk hh).1
  · obtain ⟨c, hc, rfl⟩ := List.mem_map.mp hx
    obtain ⟨dk, hdk, hh⟩ := hden₂ c hc
    exact (Parsed.signed (hall c hc) hdk hh).2

/-! ### The handler -/

/-- **What the handler leaves.** -/
theorem handlerBatchDeposit_cases {reply : DepositReply}
    (h : srv.handlerBatchDeposit env db r = (db', reply)) :
    (db' = db ∧ ∀ conf, reply ≠ .confirmation conf) ∨
    ∃ total, srv.phaseParse env db r = .ok (some total) ∧
      ((∃ ts, batchDepositTransaction db r.hasPolicy r.coins (srv.depositArgs env r) = .done db' ts ∧
          reply = srv.phaseReplySuccess r total ts) ∨
        (batchDepositTransaction db r.hasPolicy r.coins (srv.depositArgs env r) = .aborted db' ∧
          reply = .abort) ∨
        ∃ ts, db' = db ∧
          exchangeDoCheckDepositIdempotent db (srv.depositArgs env r) = .ok ⟨ts, true⟩ ∧
          reply = srv.phaseReplySuccess r total (ts.getD env.now)) := by
  have transact : ∀ {total : Amount}, srv.phaseTransact env db r total = (db', reply) →
      (db' = db ∧ ∀ conf, reply ≠ .confirmation conf) ∨
      (∃ ts, batchDepositTransaction db r.hasPolicy r.coins (srv.depositArgs env r) = .done db' ts ∧
          reply = srv.phaseReplySuccess r total ts) ∨
        batchDepositTransaction db r.hasPolicy r.coins (srv.depositArgs env r) = .aborted db' ∧
          reply = .abort := by
    intro total ht
    unfold DepositServer.phaseTransact at ht
    split at ht
    · next db₁ ts htr =>
      cases ht
      exact Or.inr (Or.inl ⟨ts, htr, rfl⟩)
    · cases ht
      exact Or.inl ⟨rfl, fun _ => by simp⟩
    · next db₁ htr =>
      cases ht
      exact Or.inr (Or.inr ⟨htr, rfl⟩)
  unfold DepositServer.handlerBatchDeposit at h
  split at h
  · cases h
    exact Or.inl ⟨rfl, fun _ => by simp⟩
  · cases h
    exact Or.inl ⟨rfl, fun _ => by simp⟩
  · next total hparse =>
    split_ifs at h
    · cases h
      exact Or.inl ⟨rfl, fun _ => by simp⟩
    · split at h
      · rcases transact h with hf | hd | ha
        · exact Or.inl hf
        · exact Or.inr ⟨total, hparse, Or.inl hd⟩
        · exact Or.inr ⟨total, hparse, Or.inr (Or.inl ha)⟩
      · cases h
        exact Or.inl ⟨rfl, fun _ => by simp⟩
      · unfold DepositServer.phaseCheckKycResult at h
        split_ifs at h
        · rcases transact h with hf | hd | ha
          · exact Or.inl hf
          · exact Or.inr ⟨total, hparse, Or.inl hd⟩
          · exact Or.inr ⟨total, hparse, Or.inr (Or.inl ha)⟩
        · split at h
          · next ts hcheck =>
            cases h
            exact Or.inr ⟨total, hparse, Or.inr (Or.inr ⟨ts, rfl, hcheck, rfl⟩)⟩
          · cases h
            exact Or.inl ⟨rfl, fun _ => by simp⟩
          · cases h
            exact Or.inl ⟨rfl, fun _ => by simp⟩

/-- **Every event keeps the rows signed.** -/
theorem SignedDeposits.serve (hi : SignedDeposits srv db) (e : DepositEvent) :
    SignedDeposits srv (serve srv db e) := by
  cases e with
  | other o ho =>
    refine (step_path (C := fun _ p => p.isDeposit = false) hi.merges fun s p he => ?_).invariant
      (fun _ _ _ hp hpost hs => hpost.signedDeposits hp hs) hi
    rw [← Bool.not_eq_true]
    intro hp
    obtain ⟨a, rfl⟩ := isDeposit_of_emits he hp
    exact ho a rfl
  | batchDeposit env r =>
    change SignedDeposits srv (srv.handlerBatchDeposit env db r).1
    cases hh : srv.handlerBatchDeposit env db r with
    | mk db' reply =>
      rcases handlerBatchDeposit_cases hh with
        ⟨rfl, -⟩ | ⟨total, hparse, ⟨ts, hd, -⟩ | ⟨ha, -⟩ | ⟨ts, rfl, -, -⟩⟩
      · exact hi
      · exact hi.transaction (phaseParse_eq_some hparse).1 hd
      · obtain ⟨db₁, hk, rfl⟩ := batchDepositTransaction_aborted ha
        refine (Posts.wireTarget ..).signedDeposits rfl ?_
        exact (makeCoinsKnown_eq_ok hk).1.invariant
          (fun _ _ _ hp hpost hs => hpost.signedDeposits hp hs) hi
      · exact hi

theorem run_signedDeposits (events : List DepositEvent) :
    SignedDeposits srv (run (serve srv) Database.empty events) :=
  run_invariant (fun _ e _ hi => hi.serve e) (admits_true events)
    signedDeposits_empty

end Signed

/-! ## Coverage -/

/-- A signature of a coin is over one message only. -/
def DepositServer.Binding (srv : DepositServer) : Prop :=
  ∀ c s ps ps', srv.valid (.walletDeposit c ps s) = true →
    srv.valid (.walletDeposit c ps' s) = true → ps = ps'

/-- The key of a coin of a request in `coin_deposits`. -/
def CoinDepositInfo.key (c : CoinDepositInfo) : CoinPub × Signature := (c.coinPub, c.coinSig)

/-- What the rows of a batch that a request lists amount to without the fees. -/
def Database.listedTotal (db : Database) (bdsi : ℕ) (cs : List CoinDepositInfo) : ℤ :=
  db.coinDeposits.total (onlyIf
    (fun d => d.batchDepositSerialId = bdsi ∧ (d.coinPub, d.coinSig) ∈ cs.map CoinDepositInfo.key)
    fun d => d.amountWithFee.units - db.figure (·.feeDeposit) d.coinPub)

/-- **The confirmation is covered**: its total is that of the rows of the batch that the request
lists. -/
def DepositConfirmation.Covered (conf : DepositConfirmation) (srv : DepositServer) (db : Database)
    (r : BatchDepositRequest) : Prop :=
  ∃ b, db.batchDeposits.lookup (srv.computeShard r.merchantPub, r.merchantPub, r.hContractTerms) =
      some b ∧
    conf.totalWithoutFee.units = db.listedTotal b.batchDepositSerialId r.coins

/-- No coin is listed twice with one signature, unless its contribution is the deposit fee. -/
def ListedOnce (db : Database) (cs : List CoinDepositInfo) : Prop :=
  cs.Pairwise fun c c' => c.key = c'.key →
    ∀ dk, db.denominations.lookup c.denomPubHash = some dk → c.contribution = dk.feeDeposit

section Coverage

variable {srv : DepositServer} {env : DepositCircumstances} {r : BatchDepositRequest}
  {db db' : Database} {conf : DepositConfirmation}

/-- After a confirmation the batch is there, and a row for each coin. -/
theorem recorded_of_confirmation (hi : SignedDeposits srv db)
    (h : srv.handlerBatchDeposit env db r = (db', .confirmation conf)) :
    (∃ total, srv.phaseParse env db r = .ok (some total) ∧ conf.totalWithoutFee = total) ∧
    (∃ b, db'.batchDeposits.lookup
      (srv.computeShard r.merchantPub, r.merchantPub, r.hContractTerms) = some b) ∧
    (∀ c ∈ r.coins, db'.coinDeposits.hasKey c.key = true) ∧
    ∀ h dk, db.denominations.lookup h = some dk → dk ∈ db'.denominations.rows := by
  rcases handlerBatchDeposit_cases h with
    ⟨-, hne⟩ | ⟨total, hparse, ⟨ts, hd, hreply⟩ | ⟨-, hreply⟩ | ⟨ts, rfl, hcheck, hreply⟩⟩
  · exact absurd rfl (hne conf)
  · cases hreply
    obtain ⟨db₁, db₂, n, t, hk, ho, hcoins⟩ := batchDepositTransaction_done hd
    have hpath := (makeCoinsKnown_eq_ok hk).1
    have hi₁ := hpath.invariant (fun _ _ _ hp hpost hs => hpost.signedDeposits hp hs) hi
    obtain ⟨hsame, hi', hall⟩ := applyAll_of_depositCoins (hi₁.depositable.openBatch ho) hcoins
    obtain ⟨-, b, hb, hn, -⟩ := openBatch_spec ho
    refine ⟨⟨total, hparse, rfl⟩, ⟨b, hsame.1 ▸ hb⟩, fun c hc => ?_, fun h dk hdk => ?_⟩
    · rw [← isSome_depositsBy]
      exact applyAll_forall (P := fun s c => (s.deposits c.key).isSome = true)
        (fun h => DepositBooks.deposits_after h) (fun h => DepositBooks.deposits_mono h) hall
        ⟨c.coinPub, c.coinSig, c.contribution⟩ (List.mem_map.mpr ⟨c, hc, rfl⟩)
    · have hd₂ : dk ∈ db₂.denominations.rows := by
        rw [(openBatch_frame ho).1]
        exact hpath.invariant (I := fun s => dk ∈ s.denominations.rows)
          (fun _ _ _ _ hpost hs => hpost.denominations hs) (Table.mem_of_lookup hdk)
      exact (depositCoins_path (C := fun _ _ => True) (fun _ _ _ => trivial)
        ⟨b, Table.mem_of_lookup hb, hn⟩ hcoins).invariant (I := fun s => dk ∈ s.denominations.rows)
        (fun _ _ _ _ hpost hs => hpost.denominations hs) hd₂
  · cases hreply
  · cases hreply
    obtain ⟨-, -, b, hb, -, -, hall⟩ := check_eq_true.mp hcheck
    refine ⟨⟨total, hparse, rfl⟩, ⟨b, hb⟩, fun c hc => ?_, fun h dk hdk => Table.mem_of_lookup hdk⟩
    exact hasKey_of_hasCoinDeposit (hall _ (List.mem_map.mpr ⟨c, hc, rfl⟩))

/-- **A listed coin stands for its row.** -/
theorem row_of_listed (hbind : srv.Binding) (hi' : SignedDeposits srv db')
    (hden : ∀ h dk, db.denominations.lookup h = some dk → dk ∈ db'.denominations.rows)
    {b : BatchDeposit} (hb : db'.batchDeposits.lookup
      (srv.computeShard r.merchantPub, r.merchantPub, r.hContractTerms) = some b)
    {c : CoinDepositInfo} (hp : srv.Parsed db r c) (hk : db'.coinDeposits.hasKey c.key = true) :
    ∃ d, db'.coinDeposits.lookup c.key = some d ∧
      d.batchDepositSerialId = b.batchDepositSerialId ∧
      d.amountWithFee.units - db'.figure (·.feeDeposit) d.coinPub = db.netOf c := by
  obtain ⟨d, hd⟩ := Table.exists_lookup hk
  have hmem := Table.mem_of_lookup hd
  have hkey : (d.coinPub, d.coinSig) = (c.coinPub, c.coinSig) := Table.key_of_lookup hd
  obtain ⟨hpub, hsig⟩ := Prod.mk.inj hkey
  obtain ⟨dk, hdk, -, hv⟩ := hp
  obtain ⟨b', hb', ps, hps, hbatch, hamount⟩ := hi'.rows.signed d hmem
  obtain ⟨ps', den, hps', hden', hhash⟩ := hi'.keys d hmem
  rw [hpub, hsig] at hps hps'
  cases hbind _ _ _ _ hps hv
  cases hbind _ _ _ _ hps' hv
  refine ⟨d, hd, ?_, ?_⟩
  · have hsame : b' = b := Table.eq_of_key (Table.lookupSerial_eq_some.mp hb').1
      (Table.mem_of_lookup hb) (hbatch.trans (Table.key_of_lookup hb).symm)
    rw [← hsame]
    exact (Table.lookupSerial_eq_some.mp hb').2.symm
  · obtain ⟨kc, -, hser⟩ := Option.bind_eq_some_iff.mp hden'
    have hdkden : den = dk := Table.eq_of_key (Table.lookupSerial_eq_some.mp hser).1 (hden _ _ hdk)
      (hhash.trans (Table.key_of_lookup hdk).symm)
    rw [figure_of_lookup hden', hdkden, hamount, Database.netOf, hdk, Option.elim_some]
    rfl

/-- **A confirmation is covered iff nothing is listed twice.** -/
theorem covered_iff (hbind : srv.Binding) (hi : SignedDeposits srv db) (hi' : SignedDeposits srv db')
    (h : srv.handlerBatchDeposit env db r = (db', .confirmation conf)) :
    conf.Covered srv db' r ↔ ListedOnce db r.coins := by
  obtain ⟨⟨total, hparse, htotal⟩, ⟨b, hb⟩, hrows, hden⟩ := recorded_of_confirmation hi h
  obtain ⟨hall, hsum⟩ := phaseParse_eq_some hparse
  have hrow : ∀ c ∈ r.coins, _ := fun c hc =>
    row_of_listed hbind hi' hden hb (hall c hc) (hrows c hc)
  have hnet : ∀ c ∈ r.coins, 0 ≤ db.netOf c := fun c hc => by
    obtain ⟨dk, hdk, hle, -⟩ := hall c hc
    rw [Database.netOf, hdk, Option.elim_some]
    omega
  have hnamed := (Table.total_named (t := db'.coinDeposits) (k := CoinDepositInfo.key)
    (f := fun d => d.amountWithFee.units - db'.figure (·.feeDeposit) d.coinPub) (g := db.netOf)
    (fun c hc => by
      obtain ⟨d, hd, -, hf⟩ := hrow c hc
      exact ⟨d, hd, hf⟩) hnet).2
  have hcov : conf.Covered srv db' r ↔
      db'.listedTotal b.batchDepositSerialId r.coins = (r.coins.map db.netOf).sum := by
    unfold DepositConfirmation.Covered
    rw [hb, htotal, hsum]
    simp only [Option.some.injEq, exists_eq_left']
    exact eq_comm
  refine hcov.trans (Iff.trans (iff_of_eq (congrArg (· = _) ?_)) (hnamed.trans ?_))
  · -- the rows of the listed coins are all in the batch
    refine Table.total_congr fun d hd => ?_
    have hp : (d.batchDepositSerialId = b.batchDepositSerialId ∧
        (d.coinPub, d.coinSig) ∈ r.coins.map CoinDepositInfo.key) ↔
        Record.key d ∈ r.coins.map CoinDepositInfo.key := by
      refine and_iff_right_of_imp fun hm => ?_
      obtain ⟨c, hc, e⟩ := List.mem_map.mp hm
      obtain ⟨d', hd', hser, -⟩ := hrow c hc
      have hdd : d' = d := Table.eq_of_key (Table.mem_of_lookup hd') hd
        ((Table.key_of_lookup hd').trans e)
      rw [← hdd]
      exact hser
    simp only [onlyIf, hp]
  · refine List.Pairwise.iff_of_mem fun {c c'} hc _ => imp_congr_right fun _ => ?_
    obtain ⟨dk, hdk, -, -⟩ := hall c hc
    rw [Database.netOf, hdk, Option.elim_some]
    constructor
    · intro hz dk' hdk'
      cases hdk'
      exact Amount.ext_units (by omega)
    · intro hz
      rw [hz dk rfl, sub_self]

end Coverage

/-- **Deposit confirmations.** Whenever the handler signs a confirmation, after any requests and
other operations, its total is that of the distinct rows of the batch that the request lists exactly
if no coin is listed twice with one signature, unless its contribution is the deposit fee. -/
theorem confirmation_covered_iff {srv : DepositServer} (hbind : srv.Binding)
    {events : List DepositEvent} {env : DepositCircumstances} {r : BatchDepositRequest}
    {db' : Database} {conf : DepositConfirmation}
    (h : srv.handlerBatchDeposit env (run (serve srv) Database.empty events) r =
      (db', .confirmation conf)) :
    conf.Covered srv db' r ↔ ListedOnce (run (serve srv) Database.empty events) r.coins := by
  have hi : SignedDeposits srv (run (serve srv) Database.empty events) :=
    run_signedDeposits events
  refine covered_iff hbind hi ?_ h
  have := hi.serve (.batchDeposit env r)
  rw [serve, h] at this
  exact this

/-! ## A sample -/

/-- A contribution of three by coin `7`. -/
def sampleCoin : CoinDepositInfo := ⟨.whole 3, 1, 1, 7, none, 1⟩

/-- A contribution of three by coin `8`. -/
def otherCoin : CoinDepositInfo := ⟨.whole 3, 1, 1, 8, none, 2⟩

/-- A request with some coins. -/
def sampleRequest (cs : List CoinDepositInfo) : BatchDepositRequest where
  merchantPaytoUri := ""
  wireSalt := 0
  merchantPub := 5
  merchantSig := none
  hContractTerms := 3
  walletDataHash := none
  coins := cs
  hasPolicy := false
  timestamp := 0
  refundDeadline := 10
  wireTransferDeadline := 20

/-- The only deposit signatures that verify are those of the two coins. -/
def sampleDepositServer : DepositServer where
  computeShard _ := 0
  paytoValidate _ := true
  fullPaytoHash _ := 4
  normalizedPaytoHash _ := 4
  merchantWireHash _ _ := 6
  valid
    | .walletDeposit c ps s => (c = 7 ∧ s = 1 ∨ c = 8 ∧ s = 2) ∧
        ps = ⟨3, 0, 0, 6, 1, 0, 10, .whole 3, .whole 1, 5, 0⟩
    | _ => true

/-- No legitimization check, and all denominations can be used. -/
def sampleCircumstances : DepositCircumstances := ⟨0, fun _ => true, fun _ => none, true, .off⟩

/-- The exchange announces a denomination of ten with a deposit fee of one. -/
def sampleEvents : List DepositEvent :=
  [.other (.denomination ⟨1, .whole 10, .zero, .whole 1, .zero, .zero⟩) (by simp)]

theorem sampleServer_binding : sampleDepositServer.Binding := by
  intro c s ps ps' h h'
  simp only [sampleDepositServer, decide_eq_true_eq] at h h'
  rw [h.2, h'.2]

/-- What the handler makes of the request in this state. -/
def sampleAnswer (cs : List CoinDepositInfo) : Database × DepositReply :=
  sampleDepositServer.handlerBatchDeposit sampleCircumstances
    (run (serve sampleDepositServer) Database.empty sampleEvents) (sampleRequest cs)

theorem sampleCoins_covered : ∃ db' conf,
    sampleAnswer [sampleCoin, otherCoin] = (db', .confirmation conf) ∧
      conf.Covered sampleDepositServer db' (sampleRequest [sampleCoin, otherCoin]) := by
  have hreply : (sampleAnswer [sampleCoin, otherCoin]).2 =
      .confirmation ⟨3, 6, 0, 20, 10, .whole 4, [1, 2], 5⟩ := by
    decide +kernel
  have h : sampleAnswer [sampleCoin, otherCoin] =
      ((sampleAnswer [sampleCoin, otherCoin]).1, _) := Prod.ext rfl hreply
  have honce : ListedOnce (run (serve sampleDepositServer) Database.empty sampleEvents)
      [sampleCoin, otherCoin] :=
    List.pairwise_pair.mpr fun he => absurd he (by decide)
  exact ⟨_, _, h, (confirmation_covered_iff sampleServer_binding h).mpr honce⟩

/-- The coin and its signature, listed twice: four are confirmed and two are recorded. -/
theorem not_covered : sampleDepositServer.Binding ∧ ∃ db' conf,
    sampleAnswer [sampleCoin, sampleCoin] = (db', .confirmation conf) ∧
      ¬ conf.Covered sampleDepositServer db' (sampleRequest [sampleCoin, sampleCoin]) := by
  have hreply : (sampleAnswer [sampleCoin, sampleCoin]).2 =
      .confirmation ⟨3, 6, 0, 20, 10, .whole 4, [1, 1], 5⟩ := by
    decide +kernel
  have h : sampleAnswer [sampleCoin, sampleCoin] =
      ((sampleAnswer [sampleCoin, sampleCoin]).1, _) := Prod.ext rfl hreply
  refine ⟨sampleServer_binding, _, _, h, ?_⟩
  rintro ⟨b, hb, htotal⟩
  have e : (sampleAnswer [sampleCoin, sampleCoin]).1.batchDeposits.lookup (0, 5, 3) =
      some ⟨1, 0, 5, none, 0, 0, 10, 20, 3, none, 0, 4, none, false, false⟩ := by
    decide +kernel
  cases hb.symm.trans e
  exact absurd htotal (by decide +kernel)

end TalerExchange
