import TalerExchange.Age.Groups
import TalerExchange.Crypto.Planchet
import TalerExchange.Transactions

/-!
# Withdraw requests

`handler_withdraw` answers the requests for batch and for age-restricted withdrawals. A request runs
through phases; an error ends them, unless its code calls for a check whether the request is a replay.

* `KeyState`, `WithdrawCrypto`, `WithdrawEnv`: what a request meets besides the database;
* `BatchRequest`, `AgeRequest`: the requests, as far as their JSON is well-formed;
* `getWithdrawInfo`, `getAgeWithdraw`: the queries of the idempotency checks;
* `WithdrawContext`: the state of a request; `withdrawStep`: one turn of the loop;
* **`withdrawStep_rank`**: a turn brings the loop closer to its end; `handlerWithdraw`: the request
  from beginning to end.
-/

namespace TalerExchange

open Sql

/-! ## What a request meets -/

/-- `struct TEH_DenominationKey`, as far as withdrawals read it. -/
structure WithdrawKey where
  serial : ℕ
  denomPub : DenominationPub
  start : Timestamp
  expireWithdraw : Timestamp
  recoupPossible : Bool
  value : Amount
  feeWithdraw : Amount
deriving DecidableEq, Repr

/-- `TEH_keys_denomination_by_hash_from_state`. -/
abbrev KeyState := HashCode → Option WithdrawKey

/-- The planchets that a coin is chosen from. -/
abbrev KappaPlanchets := List.Vector BlindedPlanchet cncKappa

/-- Hashes and signature checks. Hashes are injective, and none is all zeros. -/
structure WithdrawCrypto where
  coinEvHash : BlindedPlanchet → HashCode → HashCode
  commitmentHash : List HashCode → HashCode
  withdrawVerify : HashCode → Amount → HashCode → ReservePub → Signature → Bool
  ageWithdrawVerify : HashCode → Amount → ℕ → ℕ → ReservePub → Signature → Bool
  coinEvHash_inj : ∀ {p p' d d'}, coinEvHash p d = coinEvHash p' d' → p = p' ∧ d = d'
  commitmentHash_inj : Function.Injective commitmentHash
  coinEvHash_ne_zero : ∀ p d, coinEvHash p d ≠ 0

/-- The order in which a sub-select without `ORDER BY` returns its rows. -/
structure RowOrder where
  apply : List HashCode → List HashCode
  perm : ∀ l, (apply l).Perm l

/-- What a legitimization check delivers: a response of its own, or the status of the account. -/
inductive LegiOutcome
  | response
  | kyc (ok : Bool)
deriving DecidableEq, Repr

/-- The time, the configuration, the keys, and what the helpers and the KYC logic answer while a
request is handled. `earliestDate` is `current_date` less a number of years. -/
structure WithdrawEnv where
  now : Timestamp
  minReserveGc : Timestamp
  earliestDate : ℕ → ℤ
  keys : Option KeyState
  ageMask : ℕ
  ageRestrictionEnabled : Bool
  legi : LegiOutcome
  sign : HashCode → BlindedPlanchet → Option Signature
  noRevealIndex : Fin cncKappa
  confirms : Bool
  order : RowOrder

/-! ## Requests -/

/-- One planchet of a batch. -/
structure BatchPlanchet where
  reserveSig : Signature
  denomPubHash : HashCode
  coinEv : BlindedPlanchet
deriving DecidableEq

/-- The body of `/reserves/$RESERVE_PUB/batch-withdraw`. -/
structure BatchRequest where
  reservePub : ReservePub
  planchets : List BatchPlanchet
deriving DecidableEq

/-- The body of `/reserves/$RESERVE_PUB/age-withdraw`. -/
structure AgeRequest where
  reservePub : ReservePub
  denomHs : List HashCode
  blindedPlanchets : List (List BlindedPlanchet)
  maxAge : ℕ
  reserveSig : Signature
deriving DecidableEq

inductive WithdrawRequest
  | batch (r : BatchRequest)
  | age (r : AgeRequest)
deriving DecidableEq

/-! ## The queries of the idempotency checks -/

/-- `struct TALER_EXCHANGEDB_CollectableBlindcoin`. -/
structure Collectable where
  denomPubHash : HashCode
  sig : Signature := 0
  reserveSig : Signature
  reservePub : ReservePub
  hCoinEnvelope : HashCode := 0
  amountWithFee : Amount := Amount.zero
deriving DecidableEq, Repr

/-- `TEH_PG_get_withdraw_info`. -/
def getWithdrawInfo (db : Database) (h : HashCode) : Option Collectable := do
  let out ← db.reservesOut.lookup h
  let r ← db.reserves.lookupSerial out.reserveUuid
  let d ← db.denominations.lookupSerial out.denominationsSerial
  return ⟨d.denomPubHash, out.denomSig, out.reserveSig, r.reservePub, out.hBlindEv,
    out.amountWithFee⟩

/-- `struct TALER_EXCHANGEDB_AgeWithdraw`. -/
structure AgeCommitment where
  amountWithFee : Amount := Amount.zero
  noRevealIndex : ℕ := 0
  numCoins : ℕ
  maxAge : ℕ
  hCommitment : HashCode
  reservePub : ReservePub
  reserveSig : Signature
  hCoinEvs : List HashCode := []
  denomSigs : List Signature := []
  denomSerials : List ℕ := []
  denomPubHashes : List HashCode := []
deriving DecidableEq, Repr

/-- `TEH_PG_get_age_withdraw`: an error where a denomination is missing. The sub-select with the hashes
of the denominations is not ordered. -/
def getAgeWithdraw (order : RowOrder) (db : Database) (r : ReservePub) (ach : HashCode) :
    Exec (Option AgeCommitment) :=
  match db.ageWithdraw.lookup ach with
  | none => .ok none
  | some aw =>
    if aw.reservePub ≠ r then .ok none
    else
      match aw.planchets.mapM fun x => db.denominations.lookupSerial x.2.1 with
      | none => .error .assertFailure
      | some ds => .ok <| some
        { amountWithFee := aw.amountWithFee
          noRevealIndex := aw.noRevealIndex
          numCoins := aw.planchets.length
          maxAge := aw.maxAge
          hCommitment := aw.hCommitment
          reservePub := aw.reservePub
          reserveSig := aw.reserveSig
          hCoinEvs := aw.planchets.map Prod.fst
          denomSigs := aw.planchets.map fun x => x.2.2
          denomPubHashes := order.apply (ds.map Denomination.denomPubHash) }

/-! ## The state of a request -/

/-- The codes of the errors that may end a request. -/
inductive WithdrawError
  | none
  | ageAmountOverflow
  | ageInsufficientFunds
  | ageMaximumAgeTooLarge
  | ageRestrictionNotSupportedByDenomination
  | ageRestrictionRequired
  | ageConfirmationSign
  | batchAmountFeeOverflow
  | batchIdempotentPlanchet
  | batchInsufficientFunds
  | cipherMismatch
  | dbFetchFailed
  | denominationBatchSign
  | denominationExpired
  | denominationKeyUnknown
  | denominationRevoked
  | denominationValidityInFuture
  | keysMissing
  | kycRequired
  | legitimizationResult
  | requestParameterMalformed
  | reserveSignatureInvalid
  | reserveUnknown
deriving DecidableEq, Repr

/-- `needs_idempotency_check`. -/
def WithdrawError.needsIdempotencyCheck : WithdrawError → Bool
  | .ageInsufficientFunds | .batchIdempotentPlanchet | .batchInsufficientFunds
  | .denominationExpired | .denominationKeyUnknown | .denominationRevoked | .keysMissing
  | .kycRequired => true
  | _ => false

/-- The answer to a request; `dbError` where `TEH_DB_run_transaction` replies, `noReply` where the
connection is closed or the process aborts. -/
inductive WithdrawReply
  | batchOk (evSigs : List Signature)
  | ageOk (noRevealIndex : ℕ)
  | error (ec : WithdrawError)
  | dbError
  | noReply
deriving DecidableEq, Repr

/-- The answer to a request that ends with an error: nothing is replied without one, and the loop does
not end with a malformed parameter. -/
def WithdrawError.reply : WithdrawError → WithdrawReply
  | .none | .requestParameterMalformed => .noReply
  | ec => .error ec

/-- The phases of a request. -/
inductive WithdrawPhase
  | checkKeys
  | checkReserveSignature
  | runLegiCheck
  | suspended
  | checkKycResult
  | prepareTransaction
  | runTransaction
  | generateReplySuccess
  | generateReplyError
  | returned (r : WithdrawReply)
deriving DecidableEq, Repr

/-- `struct PlanchetContext`. -/
structure PlanchetContext where
  blindedPlanchet : BlindedPlanchet
  collectable : Collectable
deriving DecidableEq

/-- The part of a context for batches. -/
structure BatchContext where
  planchets : List PlanchetContext
  batchTotal : Amount := Amount.zero
deriving DecidableEq

/-- The part of a context for age-restricted withdrawals. -/
structure AgeContext where
  commitment : AgeCommitment
  planchets : List KappaPlanchets
  denomHs : List HashCode
deriving DecidableEq

inductive WithdrawType
  | batch (b : BatchContext)
  | age (a : AgeContext)
deriving DecidableEq

/-- `struct WithdrawContext`. -/
structure WithdrawContext where
  phase : WithdrawPhase := .checkKeys
  reservePub : ReservePub
  kycOk : Bool := false
  error : WithdrawError := .none
  typ : WithdrawType
deriving DecidableEq

namespace WithdrawContext

variable (wc : WithdrawContext)

/-- `SET_ERROR`. -/
def setError (ec : WithdrawError) : WithdrawContext :=
  { wc with error := ec, phase := .generateReplyError }

/-- `finish_loop`. -/
def finishLoop (r : WithdrawReply) : WithdrawContext := { wc with phase := .returned r }

/-- The replies of `phase_generate_reply_error`. The one to a malformed parameter leaves the phase as
it is. -/
def replyError : WithdrawContext :=
  match wc.error with
  | .none => wc.finishLoop .noReply
  | .requestParameterMalformed => wc
  | ec => wc.finishLoop (.error ec)

/-- `phase_generate_reply_error`, for what the check of the idempotency leaves and returns. -/
def generateReplyError (check : WithdrawContext × Bool) : WithdrawContext :=
  if wc.error.needsIdempotencyCheck then if check.2 then check.1 else check.1.replyError
  else wc.replyError

end WithdrawContext

/-! ## New requests -/

/-- Two planchets of the request are the same. -/
def BatchRequest.duplicates (r : BatchRequest) : Bool := ¬ (r.planchets.map (·.coinEv)).Nodup

/-- The context of a planchet. Its hash and its amount are computed later. -/
def BatchPlanchet.context (r : ReservePub) (p : BatchPlanchet) : PlanchetContext :=
  ⟨p.coinEv, { denomPubHash := p.denomPubHash, reserveSig := p.reserveSig, reservePub := r }⟩

/-- `batch_withdraw_new_request`. -/
def batchWithdrawNewRequest (r : BatchRequest) : Option WithdrawContext :=
  if r.planchets.length = 0 ∨ maxFreshCoins < r.planchets.length ∨ r.duplicates then none
  else some
    { reservePub := r.reservePub
      typ := .batch { planchets := r.planchets.map (·.context r.reservePub) } }

/-- An array of `TALER_CNC_KAPPA` planchets. -/
def toKappa? (l : List BlindedPlanchet) : Option KappaPlanchets :=
  if h : l.length = cncKappa then some ⟨l, h⟩ else none

/-- Two coins have the same planchet as the same candidate. -/
def duplicateCandidates (ps : List KappaPlanchets) : Bool :=
  ¬ ∀ k : Fin cncKappa, (ps.map fun p => p.get k).Nodup

/-- The hashes of the candidates, coin by coin. -/
def candidateHashes (c : WithdrawCrypto) (denomHs : List HashCode) (ps : List KappaPlanchets) :
    List HashCode :=
  (denomHs.zip ps).flatMap fun x => x.2.toList.map fun p => c.coinEvHash p x.1

/-- `age_withdraw_new_request`. -/
def ageWithdrawNewRequest (c : WithdrawCrypto) (env : WithdrawEnv) (r : AgeRequest) :
    Option WithdrawContext :=
  if r.maxAge ≠ getLowestAge env.ageMask r.maxAge then none
  else if r.denomHs.length = 0 ∨ r.denomHs.length ≠ r.blindedPlanchets.length ∨
      maxFreshCoins < r.denomHs.length then none
  else
    match r.blindedPlanchets.mapM toKappa? with
    | none => none
    | some ps =>
      if duplicateCandidates ps then none
      else some
        { reservePub := r.reservePub
          typ := .age
            { commitment :=
                { numCoins := r.denomHs.length
                  maxAge := r.maxAge
                  hCommitment := c.commitmentHash (candidateHashes c r.denomHs ps)
                  reservePub := r.reservePub
                  reserveSig := r.reserveSig }
              planchets := ps
              denomHs := r.denomHs } }

/-- The context of a new request, `none` if it is malformed. -/
def WithdrawRequest.newContext (c : WithdrawCrypto) (env : WithdrawEnv) :
    WithdrawRequest → Option WithdrawContext
  | .batch r => batchWithdrawNewRequest r
  | .age r => ageWithdrawNewRequest c env r

/-! ## Idempotency -/

/-- The loop of `batch_withdraw_check_idempotency`: what is found replaces the coin's data, until a
coin is not found. -/
def batchIdempotency (db : Database) : List PlanchetContext → List PlanchetContext × Bool
  | [] => ([], true)
  | pc :: pcs =>
    match getWithdrawInfo db pc.collectable.hCoinEnvelope with
    | none => (pc :: pcs, false)
    | some col =>
      let r := batchIdempotency db pcs
      ({ pc with collectable := col } :: r.1, r.2)

/-- `check_idempotency`: the context goes on to a reply, and the flag says whether it does. What is
found for an age-restricted withdrawal is dropped. -/
def checkIdempotency (env : WithdrawEnv) (db : Database) (wc : WithdrawContext) :
    WithdrawContext × Bool :=
  match wc.typ with
  | .batch b =>
    let r := batchIdempotency db b.planchets
    let wc := { wc with typ := .batch { b with planchets := r.1 } }
    if r.2 then ({ wc with phase := .generateReplySuccess }, true) else (wc, false)
  | .age a =>
    match getAgeWithdraw env.order db a.commitment.reservePub a.commitment.hCommitment with
    | .error _ => (wc.setError .dbFetchFailed, true)
    | .ok none => (wc, false)
    | .ok (some _) => ({ wc with phase := .generateReplySuccess }, true)

/-! ## Keys -/

/-- `find_denomination`. -/
def findDenomination (now : Timestamp) (keys : KeyState) (forAge : Bool) (h : HashCode) :
    Except WithdrawError WithdrawKey :=
  match keys h with
  | none => .error .denominationKeyUnknown
  | some dk =>
    if dk.expireWithdraw < now then .error .denominationExpired
    else if now < dk.start then .error .denominationValidityInFuture
    else if dk.recoupPossible then .error .denominationRevoked
    else if forAge ∧ dk.denomPub.ageMask = 0 then .error .ageRestrictionNotSupportedByDenomination
    else .ok dk

section Keys

variable (c : WithdrawCrypto) (env : WithdrawEnv) (keys : KeyState)

/-- The body of the loop of `batch_withdraw_phase_check_keys`: the coin's data as far as it got, and
the new total. -/
def checkPlanchet (total : Amount) (pc : PlanchetContext) :
    PlanchetContext × Except WithdrawError Amount :=
  let col := pc.collectable
  match findDenomination env.now keys false col.denomPubHash with
  | .error e => (pc, .error e)
  | .ok dk =>
    if dk.denomPub.cipher ≠ pc.blindedPlanchet.cipher then (pc, .error .cipherMismatch)
    else
      match dk.value.add? dk.feeWithdraw with
      | none => (pc, .error .batchAmountFeeOverflow)
      | some amount =>
        match total.add? amount with
        | none => ({ pc with collectable := { col with amountWithFee := amount } },
            .error .batchAmountFeeOverflow)
        | some total =>
          let h := c.coinEvHash pc.blindedPlanchet col.denomPubHash
          let pc := { pc with collectable := { col with amountWithFee := amount, hCoinEnvelope := h } }
          if c.withdrawVerify col.denomPubHash amount h col.reservePub col.reserveSig then
            (pc, .ok total)
          else (pc, .error .reserveSignatureInvalid)

/-- The loop of `batch_withdraw_phase_check_keys`: it stops at the first error. -/
def batchCheckKeys : Amount → List PlanchetContext →
    List PlanchetContext × Except WithdrawError Amount
  | total, [] => ([], .ok total)
  | total, pc :: pcs =>
    match checkPlanchet c env keys total pc with
    | (pc, .error e) => (pc :: pcs, .error e)
    | (pc, .ok total) =>
      let r := batchCheckKeys total pcs
      (pc :: r.1, r.2)

/-- The loop of `age_withdraw_phase_check_keys`: the values, the fees and the serials of the coins. -/
def ageCheckKeys : Amount → Amount → List (HashCode × KappaPlanchets) →
    Except WithdrawError (Amount × Amount × List ℕ)
  | total, fee, [] => .ok (total, fee, [])
  | total, fee, (h, ps) :: l =>
    match findDenomination env.now keys true h with
    | .error e => .error e
    | .ok dk =>
      if ∃ p ∈ ps.toList, dk.denomPub.cipher ≠ p.cipher then .error .cipherMismatch
      else
        match total.add? dk.value, fee.add? dk.feeWithdraw with
        | none, _ => .error .ageAmountOverflow
        | some _, none => .error .ageAmountOverflow
        | some total, some fee =>
          match ageCheckKeys total fee l with
          | .error e => .error e
          | .ok (total, fee, serials) => .ok (total, fee, dk.serial :: serials)

/-- `TALER_wallet_age_withdraw_verify` on a commitment. -/
def AgeCommitment.verify (a : AgeCommitment) : Bool :=
  c.ageWithdrawVerify a.hCommitment a.amountWithFee env.ageMask a.maxAge a.reservePub a.reserveSig

/-- The end of `age_withdraw_phase_check_keys`. That the total is positive is an assertion. -/
def ageKeysChecked (wc : WithdrawContext) (a : AgeContext) (total fee : Amount) (serials : List ℕ) :
    WithdrawContext :=
  match total.add? fee with
  | none => wc.finishLoop .noReply
  | some amount =>
    if amount = Amount.zero then wc.finishLoop .noReply
    else
      let a := { a with commitment :=
        { a.commitment with amountWithFee := amount, denomSerials := serials } }
      let wc := { wc with typ := .age a }
      if a.commitment.verify c env then { wc with phase := .checkReserveSignature }
      else wc.setError .reserveSignatureInvalid

/-- `phase_check_keys`. -/
def phaseCheckKeys (wc : WithdrawContext) : WithdrawContext :=
  match env.keys with
  | none => wc.setError .keysMissing
  | some keys =>
    match wc.typ with
    | .batch b =>
      let r := batchCheckKeys c env keys b.batchTotal b.planchets
      match r.2 with
      | .error e => { wc with typ := .batch { b with planchets := r.1 } }.setError e
      | .ok total =>
        { wc with
          typ := .batch { planchets := r.1, batchTotal := total }
          phase := .checkReserveSignature }
    | .age a =>
      match ageCheckKeys env keys Amount.zero Amount.zero (a.denomHs.zip a.planchets) with
      | .error e => wc.setError e
      | .ok (total, fee, serials) => ageKeysChecked c env wc a total fee serials

end Keys

/-! ## The phases -/

section Phases

variable (c : WithdrawCrypto) (env : WithdrawEnv)

/-- `phase_check_reserve_signature`. -/
def phaseCheckReserveSignature (wc : WithdrawContext) : WithdrawContext :=
  match wc.typ with
  | .batch _ => { wc with phase := .runLegiCheck }
  | .age a =>
    if a.commitment.verify c env then { wc with phase := .runLegiCheck }
    else wc.setError .reserveSignatureInvalid

/-- `TEH_PG_reserves_get_origin`: the reserve was filled by a wire transfer. -/
def Database.hasOrigin (db : Database) (r : ReservePub) : Bool :=
  (db.reservesIn.lookup r).any fun ri => db.wireTargets.hasKey ri.wireSourceHPayto

/-- `phase_run_legi_check`. -/
def phaseRunLegiCheck (db : Database) (wc : WithdrawContext) : WithdrawContext :=
  if db.hasOrigin wc.reservePub then { wc with phase := .suspended }
  else { wc with phase := .prepareTransaction }

/-- `withdraw_legi_cb`. -/
def withdrawLegiCb (wc : WithdrawContext) : WithdrawContext :=
  match env.legi with
  | .response => wc.setError .legitimizationResult
  | .kyc ok => { wc with kycOk := ok, phase := .checkKycResult }

/-- `phase_check_kyc_result`. -/
def phaseCheckKycResult (wc : WithdrawContext) : WithdrawContext :=
  if wc.kycOk then { wc with phase := .prepareTransaction } else wc.setError .kycRequired

/-- The signatures of `batch_withdraw_phase_prepare_transaction`. -/
def signPlanchets (pcs : List PlanchetContext) : Option (List PlanchetContext) :=
  pcs.mapM fun pc => (env.sign pc.collectable.denomPubHash pc.blindedPlanchet).map fun s =>
    { pc with collectable := { pc.collectable with sig := s } }

/-- The signatures of `age_withdraw_phase_prepare_transaction`. -/
def signCandidates (a : AgeContext) : Option (List Signature) :=
  (a.denomHs.zip a.planchets).mapM fun x => env.sign x.1 (x.2.get env.noRevealIndex)

/-- `phase_prepare_transaction`. -/
def phasePrepareTransaction (wc : WithdrawContext) : WithdrawContext :=
  match wc.typ with
  | .batch b =>
    match signPlanchets env b.planchets with
    | none => wc.setError .denominationBatchSign
    | some pcs => { wc with typ := .batch { b with planchets := pcs }, phase := .runTransaction }
  | .age a =>
    let com := { a.commitment with noRevealIndex := env.noRevealIndex.val }
    match signCandidates env a with
    | none => { wc with typ := .age { a with commitment := com } }.setError .denominationBatchSign
    | some sigs =>
      { wc with
        typ := .age { a with commitment := { com with
          denomSigs := sigs
          hCoinEvs := (a.denomHs.zip a.planchets).map fun x =>
            c.coinEvHash (x.2.get env.noRevealIndex) x.1 } }
        phase := .runTransaction }

/-- The arguments of `exchange_do_batch_withdraw_insert` for a planchet. -/
def PlanchetContext.args (pc : PlanchetContext) : PlanchetArgs :=
  ⟨pc.collectable.amountWithFee, pc.collectable.denomPubHash, pc.collectable.reserveSig,
    pc.collectable.hCoinEnvelope, pc.collectable.sig⟩

/-- The loop of `batch_withdraw_transaction`. -/
def insertPlanchets (ruuid : ℕ) (now : Timestamp) (db : Database) :
    List PlanchetContext → Except WithdrawError Database
  | [] => .ok db
  | pc :: pcs =>
    match exchangeDoBatchWithdrawInsert db ruuid now pc.args with
    | .error _ => .error .dbFetchFailed
    | .ok (_, true) => .error .batchIdempotentPlanchet
    | .ok (db, false) => insertPlanchets ruuid now db pcs

/-- The arguments of `exchange_do_batch_withdraw`. -/
def BatchContext.args (env : WithdrawEnv) (r : ReservePub) (b : BatchContext) : BatchWithdrawArgs :=
  ⟨b.batchTotal, r, env.now, env.minReserveGc, env.ageRestrictionEnabled⟩

/-- `batch_withdraw_transaction`, rolled back on errors. -/
def runBatchWithdraw (db : Database) (wc : WithdrawContext) (b : BatchContext) :
    Database × WithdrawContext :=
  let r := exchangeDoBatchWithdraw db (b.args env wc.reservePub)
  if r.2.reserveFound = false then (db, wc.setError .reserveUnknown)
  else if r.2.ageOk = false then (db, wc.setError .ageRestrictionRequired)
  else if r.2.balanceOk = false then (db, wc.setError .batchInsufficientFunds)
  else
    match insertPlanchets r.2.ruuid env.now r.1 b.planchets with
    | .error e => (db, wc.setError e)
    | .ok db' => (db', { wc with phase := .generateReplySuccess })

/-- The arguments of `exchange_do_age_withdraw`. -/
def AgeContext.args (env : WithdrawEnv) (a : AgeContext) : AgeWithdrawArgs :=
  let com := a.commitment
  ⟨com.amountWithFee, com.reservePub, com.reserveSig, env.minReserveGc, com.hCommitment, com.maxAge,
    env.earliestDate com.maxAge, com.noRevealIndex,
    com.hCoinEvs.zip (com.denomSerials.zip com.denomSigs)⟩

/-- `age_withdraw_transaction`, rolled back on errors. If the reserve is unknown, `reserve_birthday` is
`NULL`, which is an error. -/
def runAgeWithdraw (db : Database) (wc : WithdrawContext) (a : AgeContext) :
    Database × WithdrawContext :=
  let r := exchangeDoAgeWithdraw db (a.args env)
  if r.2.reserveFound = false then (db, wc.setError .dbFetchFailed)
  else if r.2.ageOk = false then (db, wc.setError .ageMaximumAgeTooLarge)
  else if r.2.balanceOk = false then (db, wc.setError .ageInsufficientFunds)
  else if r.2.conflict ∧ (checkIdempotency env r.1 wc).2 then (db, (checkIdempotency env r.1 wc).1)
  else (r.1, { wc with phase := .generateReplySuccess })

/-- `phase_run_transaction`. -/
def phaseRunTransaction (db : Database) (wc : WithdrawContext) : Database × WithdrawContext :=
  match wc.typ with
  | .batch b => runBatchWithdraw env db wc b
  | .age a => runAgeWithdraw env db wc a

/-- `phase_generate_reply_success`. -/
def phaseGenerateReplySuccess (wc : WithdrawContext) : WithdrawContext :=
  match wc.typ with
  | .batch b => wc.finishLoop (.batchOk (b.planchets.map fun pc => pc.collectable.sig))
  | .age a =>
    if env.confirms then wc.finishLoop (.ageOk a.commitment.noRevealIndex)
    else wc.setError .ageConfirmationSign

/-- `phase_generate_reply_error`. -/
def phaseGenerateReplyError (db : Database) (wc : WithdrawContext) : WithdrawContext :=
  wc.generateReplyError (checkIdempotency env db wc)

/-- **One turn of the loop** of `handler_withdraw`, if the database answers its queries. -/
def withdrawStep (s : Database × WithdrawContext) : Database × WithdrawContext :=
  match s.2.phase with
  | .checkKeys => (s.1, phaseCheckKeys c env s.2)
  | .checkReserveSignature => (s.1, phaseCheckReserveSignature c env s.2)
  | .runLegiCheck => (s.1, phaseRunLegiCheck s.1 s.2)
  | .suspended => (s.1, withdrawLegiCb env s.2)
  | .checkKycResult => (s.1, phaseCheckKycResult s.2)
  | .prepareTransaction => (s.1, phasePrepareTransaction c env s.2)
  | .runTransaction => phaseRunTransaction env s.1 s.2
  | .generateReplySuccess => (s.1, phaseGenerateReplySuccess env s.2)
  | .generateReplyError => (s.1, phaseGenerateReplyError env s.1 s.2)
  | .returned _ => s

/-- How many turns are left at most. -/
def WithdrawContext.rank (wc : WithdrawContext) : ℕ :=
  match wc.phase with
  | .checkKeys => 10
  | .checkReserveSignature => 9
  | .runLegiCheck => 8
  | .suspended => 7
  | .checkKycResult => 6
  | .prepareTransaction => 5
  | .runTransaction => 4
  | .generateReplyError => if wc.error.needsIdempotencyCheck then 3 else 1
  | .generateReplySuccess => 2
  | .returned _ => 0

/-- The loop does not get any further: it has ended, or the parameter is malformed. -/
def WithdrawContext.Stuck (wc : WithdrawContext) : Prop :=
  (∃ r, wc.phase = .returned r) ∨
    wc.phase = .generateReplyError ∧ wc.error = .requestParameterMalformed

/-- Several turns of the loop. -/
def withdrawLoop : ℕ → Database × WithdrawContext → Database × WithdrawContext
  | 0, s => s
  | n + 1, s => withdrawLoop n (withdrawStep c env s)

/-- The loop to its end. -/
def finishWithdraw (s : Database × WithdrawContext) : Database × WithdrawContext :=
  withdrawLoop c env s.2.rank s

section Loop

variable {c env} {s : Database × WithdrawContext} {wc : WithdrawContext}

theorem rank_setError_le (wc : WithdrawContext) (e : WithdrawError) : (wc.setError e).rank ≤ 3 := by
  show (if e.needsIdempotencyCheck then 3 else 1) ≤ 3
  split_ifs
  · exact le_rfl
  · exact Nat.le_add_left 1 2

theorem rank_checkIdempotency (db : Database) (h : (checkIdempotency env db wc).2 = true) :
    (checkIdempotency env db wc).1.rank < 3 := by
  unfold checkIdempotency at h ⊢
  cases ht : wc.typ with
  | batch b =>
    simp only [ht] at h ⊢
    split_ifs at h ⊢
    exact Nat.lt_succ_self 2
  | age a =>
    simp only [ht] at h ⊢
    split at h
    · exact Nat.lt_succ_of_lt (Nat.lt_succ_self 1)
    · cases h
    · exact Nat.lt_succ_self 2

theorem rank_phaseCheckKeys_le : (phaseCheckKeys c env wc).rank ≤ 9 := by
  have herr : ∀ (wc : WithdrawContext) e, (wc.setError e).rank ≤ 9 := fun wc e =>
    (rank_setError_le wc e).trans (by omega)
  unfold phaseCheckKeys
  split
  · exact herr ..
  · split
    · simp only
      split
      · exact herr ..
      · exact le_rfl
    · split
      · exact herr ..
      · unfold ageKeysChecked
        split
        · exact Nat.zero_le _
        · simp only
          split_ifs
          · exact Nat.zero_le _
          · exact le_rfl
          · exact herr ..

theorem rank_phasePrepareTransaction_le : (phasePrepareTransaction c env wc).rank ≤ 4 := by
  have herr : ∀ (wc : WithdrawContext) e, (wc.setError e).rank ≤ 4 := fun wc e =>
    (rank_setError_le wc e).trans (by omega)
  unfold phasePrepareTransaction
  split
  · split
    · exact herr ..
    · exact le_rfl
  · simp only
    split
    · exact herr ..
    · exact le_rfl

theorem rank_phaseRunTransaction_le (db : Database) :
    (phaseRunTransaction env db wc).2.rank ≤ 3 := by
  unfold phaseRunTransaction
  split
  · unfold runBatchWithdraw
    simp only
    split_ifs
    · exact rank_setError_le ..
    · exact rank_setError_le ..
    · exact rank_setError_le ..
    · split
      · exact rank_setError_le ..
      · exact Nat.le_succ 2
  · unfold runAgeWithdraw
    simp only
    split_ifs with h₁ h₂ h₃ h₄
    · exact rank_setError_le ..
    · exact rank_setError_le ..
    · exact rank_setError_le ..
    · exact (rank_checkIdempotency _ h₄.2).le
    · exact Nat.le_succ 2

@[simp] theorem WithdrawError.reply_ne_batchOk (e : WithdrawError) (sigs : List Signature) :
    e.reply ≠ .batchOk sigs := by
  cases e <;> rintro ⟨⟩

@[simp] theorem WithdrawError.reply_ne_ageOk (e : WithdrawError) (i : ℕ) : e.reply ≠ .ageOk i := by
  cases e <;> rintro ⟨⟩

theorem replyError_eq (h : wc.error ≠ .requestParameterMalformed) :
    wc.replyError = wc.finishLoop wc.error.reply := by
  unfold WithdrawContext.replyError
  cases he : wc.error with
  | requestParameterMalformed => exact absurd he h
  | _ => rfl

/-- A check that goes on, or else leaves the error as it is, brings the loop closer to its end. -/
theorem rank_generateReplyError_lt {check : WithdrawContext × Bool}
    (hp : wc.phase = .generateReplyError) (he : wc.error ≠ .requestParameterMalformed)
    (hgo : check.2 = true → check.1.rank < 3)
    (hstay : check.2 = false → check.1.error = wc.error) :
    (wc.generateReplyError check).rank < wc.rank := by
  have hr : wc.rank = if wc.error.needsIdempotencyCheck then 3 else 1 := by
    simp only [WithdrawContext.rank, hp]
  unfold WithdrawContext.generateReplyError
  by_cases hn : wc.error.needsIdempotencyCheck
  · rw [if_pos hn, hr, if_pos hn]
    cases hi : check.2 with
    | true => exact hgo hi
    | false =>
      have hc : check.1.error ≠ .requestParameterMalformed := by
        rw [hstay hi]
        exact he
      simp only [Bool.false_eq_true, if_false, replyError_eq hc]
      exact Nat.succ_pos 2
  · rw [if_neg hn, hr, if_neg hn, replyError_eq he]
    exact Nat.succ_pos 0

theorem checkIdempotency_error (db : Database) (h : (checkIdempotency env db wc).2 = false) :
    (checkIdempotency env db wc).1.error = wc.error := by
  unfold checkIdempotency at h ⊢
  cases ht : wc.typ with
  | batch b =>
    simp only [ht] at h ⊢
    split_ifs at h ⊢
    rfl
  | age a =>
    simp only [ht] at h ⊢
    split at h
    · cases h
    · rfl
    · cases h

/-- The reply to a malformed parameter does not end the loop. -/
theorem generateReplyError_malformed (check : WithdrawContext × Bool)
    (he : wc.error = .requestParameterMalformed) : wc.generateReplyError check = wc := by
  unfold WithdrawContext.generateReplyError WithdrawContext.replyError
  rw [he]
  rfl

/-- **Every turn brings the loop closer to its end**, unless it gets no further. -/
theorem withdrawStep_rank (s : Database × WithdrawContext) :
    (withdrawStep c env s).2.rank < s.2.rank ∨ withdrawStep c env s = s ∧ s.2.Stuck := by
  cases hp : s.2.phase with
  | returned r => exact .inr ⟨by simp only [withdrawStep, hp], .inl ⟨r, hp⟩⟩
  | generateReplyError =>
    simp only [withdrawStep, hp, phaseGenerateReplyError]
    by_cases he : s.2.error = .requestParameterMalformed
    · exact .inr ⟨by rw [generateReplyError_malformed _ he], .inr ⟨hp, he⟩⟩
    · exact .inl (rank_generateReplyError_lt hp he (rank_checkIdempotency s.1)
        (checkIdempotency_error s.1))
  | generateReplySuccess =>
    refine .inl ?_
    have hr : s.2.rank = 2 := by simp [WithdrawContext.rank, hp]
    simp only [withdrawStep, hp, phaseGenerateReplySuccess, hr]
    split
    · exact Nat.succ_pos 1
    · split_ifs
      · exact Nat.succ_pos 1
      · exact Nat.lt_succ_self 1
  | runTransaction =>
    have hr : s.2.rank = 4 := by simp [WithdrawContext.rank, hp]
    simp only [withdrawStep, hp, hr]
    exact .inl (Nat.lt_succ_of_le (rank_phaseRunTransaction_le _))
  | prepareTransaction =>
    have hr : s.2.rank = 5 := by simp [WithdrawContext.rank, hp]
    simp only [withdrawStep, hp, hr]
    exact .inl (Nat.lt_succ_of_le rank_phasePrepareTransaction_le)
  | checkKycResult =>
    have hr : s.2.rank = 6 := by simp [WithdrawContext.rank, hp]
    simp only [withdrawStep, hp, phaseCheckKycResult, hr]
    refine .inl ?_
    split_ifs
    · exact Nat.lt_succ_self 5
    · exact (rank_setError_le ..).trans_lt (by omega)
  | suspended =>
    have hr : s.2.rank = 7 := by simp [WithdrawContext.rank, hp]
    simp only [withdrawStep, hp, withdrawLegiCb, hr]
    refine .inl ?_
    split
    · exact (rank_setError_le ..).trans_lt (by omega)
    · exact Nat.lt_succ_self 6
  | runLegiCheck =>
    have hr : s.2.rank = 8 := by simp [WithdrawContext.rank, hp]
    simp only [withdrawStep, hp, phaseRunLegiCheck, hr]
    refine .inl ?_
    split_ifs
    · exact Nat.lt_succ_self 7
    · exact Nat.lt_of_succ_lt (Nat.lt_succ_self 6) |>.trans (by omega)
  | checkReserveSignature =>
    have hr : s.2.rank = 9 := by simp [WithdrawContext.rank, hp]
    simp only [withdrawStep, hp, phaseCheckReserveSignature, hr]
    refine .inl ?_
    split
    · exact Nat.lt_succ_self 8
    · split_ifs
      · exact Nat.lt_succ_self 8
      · exact (rank_setError_le ..).trans_lt (by omega)
  | checkKeys =>
    have hr : s.2.rank = 10 := by simp [WithdrawContext.rank, hp]
    simp only [withdrawStep, hp, hr]
    exact .inl (Nat.lt_succ_of_le rank_phaseCheckKeys_le)

theorem withdrawLoop_fixed {n : ℕ} (h : withdrawStep c env s = s) : withdrawLoop c env n s = s := by
  induction n with
  | zero => rfl
  | succ n ih => rw [withdrawLoop, h, ih]

theorem withdrawLoop_of_le {n : ℕ} (h : s.2.rank ≤ n) :
    withdrawLoop c env n s = finishWithdraw c env s := by
  have hmore : ∀ (k : ℕ) (s : Database × WithdrawContext), s.2.rank ≤ k →
      withdrawLoop c env (k + 1) s = withdrawLoop c env k s := by
    intro k
    induction k with
    | zero =>
      intro s hs
      rcases @withdrawStep_rank c env s with hlt | ⟨he, -⟩
      · omega
      · show withdrawStep c env s = s
        exact he
    | succ k ih =>
      intro s hs
      rcases @withdrawStep_rank c env s with hlt | ⟨he, -⟩
      · exact ih _ (by omega)
      · rw [withdrawLoop_fixed he, withdrawLoop_fixed he]
  induction n with
  | zero => rw [finishWithdraw, Nat.le_zero.mp h]
  | succ n ih =>
    rcases Nat.lt_or_ge n s.2.rank with hn | hn
    · rw [finishWithdraw, le_antisymm h hn]
    · rw [hmore n s hn, ih hn]

/-- The loop from its second turn on. -/
theorem finishWithdraw_step (s : Database × WithdrawContext) :
    finishWithdraw c env s = finishWithdraw c env (withdrawStep c env s) := by
  rcases @withdrawStep_rank c env s with hlt | ⟨he, -⟩
  · rw [← withdrawLoop_of_le (Nat.le_succ s.2.rank), withdrawLoop, withdrawLoop_of_le hlt.le]
  · rw [he]

end Loop

/-- The answer of a context at the end of the loop. -/
def WithdrawContext.reply (wc : WithdrawContext) : WithdrawReply :=
  match wc.phase with
  | .returned r => r
  | _ => .noReply

/-- **`handler_withdraw`**: the database and the answer. -/
def handlerWithdraw (db : Database) (req : WithdrawRequest) : Database × WithdrawReply :=
  match req.newContext c env with
  | none => (db, .noReply)
  | some wc =>
    let r := finishWithdraw c env (db, wc)
    (r.1, r.2.reply)

end Phases

end TalerExchange
