import TalerExchange.Age.Secret
import TalerExchange.Withdraw.Handler

/-!
# Revealing the coins of an age-restricted withdrawal

A wallet commits to three candidates for each of its coins. It discloses the secrets of all but one
of them, and the exchange derives the candidates anew to check that their ages are restricted.

* `RevealCrypto`, `Denominations`, `RevealEnv`: what a reveal meets besides the database;
* `deriveCandidate`: the planchet of a secret;
* `revealCoin`, `verifyCommitmentAndMaxAge`: the hashes of the candidates, coin by coin;
* `ageWithdrawReveal`: the request from beginning to end.
-/

namespace TalerExchange

open Sql

/-! ## What a reveal meets -/

/-- The derivations. `ageSeed` is the key derivation for a key of an age commitment, with a label and
an index; `agePublic` is the public key of a seed, `ageBaseDerive` the public key that is derived from
the constant one. -/
structure RevealCrypto extends WithdrawCrypto, PlanchetCrypto where
  csNonce : PlanchetMasterSecret → Bytes 32
  ageSeed : PlanchetMasterSecret → String → ℕ → ℕ
  agePublic : ℕ → ℕ
  ageBaseDerive : ℕ → ℕ
  ageCommitmentHash : List ℕ → HashCode

/-- The public keys of denominations under their hashes, and the values that their private keys give
out for nonces. -/
structure Denominations where
  pub : HashCode → DenominationPub
  csRPub : HashCode → Bytes 32 → ℕ

/-- The key state of the exchange, the denominations that the helper for CS knows, and the order of
the rows of a sub-select. -/
structure RevealEnv (D : Denominations) where
  keys : Option KeyState
  keys_pub : ∀ {ks h dk}, keys = some ks → ks h = some dk → dk.denomPub = D.pub h
  csKnown : HashCode → Bool
  order : RowOrder

/-- The body of `/age-withdraw/$ACH/reveal`. -/
structure RevealRequest where
  reservePub : ReservePub
  disclosedCoinSecrets : List (List PlanchetMasterSecret)
deriving DecidableEq, Repr

/-- The errors of a reveal; with `noReply` the process aborts. -/
inductive RevealError
  | parameterMalformed
  | commitmentUnknown
  | dbFetchFailed
  | keysMissing
  | prepareFailed
  | invalidHash
  | noReply
deriving DecidableEq, Repr

/-- The answer to a reveal. -/
inductive RevealReply
  | ok (evSigs : List Signature)
  | error (e : RevealError)
deriving DecidableEq, Repr

/-! ## Derivations -/

section Derive

variable (c : RevealCrypto)

/-- The keys of age commitments, by their seeds. Nothing is signed with them here. -/
def RevealCrypto.ageKeys : AgeKeys where
  Priv := ℕ
  Pub := ℕ
  Sig := Unit
  Seed := ℕ
  Salt := ℕ
  createFromSeed seed := seed
  nextSeed seed := seed
  getPublic := c.agePublic
  publicKeyDerive _ := c.ageBaseDerive
  privateKeyDerive k _ := k
  sign _ _ := ()
  verify _ _ _ := true
  zero := ()

/-- How they come from the secret of a planchet. -/
def RevealCrypto.ageFactors : AgeFactors c.ageKeys where
  Secret := PlanchetMasterSecret
  kdf := c.ageSeed
  base := (0 : ℕ)
  saltOf seed := seed

/-- The bits of the mask of a denomination. -/
def ageMaskOf (bits : ℕ) : AgeMask := ⟨bits % 2 ^ 32, Nat.mod_lt _ (by decide)⟩

/-- `TALER_age_restriction_from_secret` and `TALER_age_commitment_hash`; `none` where an assertion
fails. -/
def ageRestrictionFromSecret (secret : PlanchetMasterSecret) (mask maxAge : ℕ) : Option HashCode :=
  (c.ageFactors.ageRestrictionFromSecret secret (ageMaskOf mask) (UInt8.ofNat maxAge)).map
    fun ncp => c.ageCommitmentHash ncp.commitment.keys

/-- The values that a coin is blinded with. -/
def blindingInputs (dk : DenominationPub) (rPub : Bytes 32 → ℕ) (secret : PlanchetMasterSecret) :
    BlindingInputs :=
  match dk.cipher with
  | .rsa => .rsa
  | .cs => .cs (rPub (c.csNonce secret))

/-- The nonce of a coin. -/
def blindingNonce (dk : DenominationPub) (secret : PlanchetMasterSecret) : Option (Bytes 32) :=
  match dk.cipher with
  | .rsa => none
  | .cs => some (c.csNonce secret)

/-- The planchet with the age commitment, as wallet and exchange prepare it. -/
def prepareCandidate (dk : DenominationPub) (rPub : Bytes 32 → ℕ) (secret : PlanchetMasterSecret)
    (ach : HashCode) : Option BlindedPlanchet :=
  let alg := blindingInputs c dk rPub secret
  c.planchetPrepare dk alg (c.blindingSecret secret alg) (blindingNonce c dk secret)
    (c.coinPriv secret alg) (some ach)

/-- **The planchet that a secret derives** with a denomination and a maximum age. -/
def deriveCandidate (D : Denominations) (h : HashCode) (maxAge : ℕ) (secret : PlanchetMasterSecret) :
    Option BlindedPlanchet :=
  (ageRestrictionFromSecret c secret (D.pub h).ageMask maxAge).bind
    (prepareCandidate c (D.pub h) (D.csRPub h) secret)

end Derive

/-! ## The check of the commitment -/

section Reveal

variable (c : RevealCrypto) {D : Denominations} (env : RevealEnv D)

/-- `calculate_blinded_hash`; the maximum age is a `uint8_t`. That the helper knows a denomination of
CS is an assertion. -/
def calculateBlindedHash (keys : KeyState) (secret : PlanchetMasterSecret) (h : HashCode)
    (maxAge : ℕ) : Except RevealError HashCode :=
  match keys h with
  | none => .error .keysMissing
  | some dk =>
    match ageRestrictionFromSecret c secret dk.denomPub.ageMask (maxAge % 256) with
    | none => .error .noReply
    | some ach =>
      if dk.denomPub.cipher = .cs ∧ env.csKnown h = false then .error .noReply
      else
        match prepareCandidate c dk.denomPub (D.csRPub h) secret ach with
        | none => .error .prepareFailed
        | some p => .ok (c.coinEvHash p h)

/-- An element of an array. -/
def readAt {α : Type} (l : List α) (i : ℕ) : Except RevealError α :=
  match l[i]? with
  | none => .error .noReply
  | some x => .ok x

/-- The inner loop of `verify_commitment_and_max_age`: the hashes of the candidates of a coin, where
`i` counts those that are disclosed. -/
def revealCoin (keys : KeyState) (com : AgeCommitment) (secrets : List PlanchetMasterSecret)
    (coinIdx : ℕ) : ℕ → List ℕ → Except RevealError (List HashCode)
  | _, [] => .ok []
  | i, k :: ks =>
    if k = com.noRevealIndex then do
      let h ← readAt com.hCoinEvs coinIdx
      let hs ← revealCoin keys com secrets coinIdx i ks
      return h :: hs
    else do
      let secret ← readAt secrets ((cncKappa - 1) * coinIdx + i)
      let d ← readAt com.denomPubHashes coinIdx
      let h ← calculateBlindedHash c env keys secret d com.maxAge
      let hs ← revealCoin keys com secrets coinIdx (i + 1) ks
      return h :: hs

/-- The hashes that are read into the hash context. -/
def revealHashes (keys : KeyState) (com : AgeCommitment) (secrets : List PlanchetMasterSecret)
    (numCoins : ℕ) : Except RevealError (List (List HashCode)) :=
  (List.range numCoins).mapM fun idx => revealCoin c env keys com secrets idx 0 (List.range cncKappa)

/-- `verify_commitment_and_max_age`. -/
def verifyCommitmentAndMaxAge (com : AgeCommitment) (secrets : List PlanchetMasterSecret)
    (numCoins : ℕ) : Except RevealError Unit :=
  if numCoins ≠ com.numCoins then .error .parameterMalformed
  else
    match env.keys with
    | none => .error .keysMissing
    | some keys => do
      let hs ← revealHashes c env keys com secrets numCoins
      if com.hCommitment ≠ c.commitmentHash hs.flatten then .error .invalidHash
      else return ()

/-- `parse_age_withdraw_reveal_json`: the secrets in a single array. -/
def parseAgeWithdrawRevealJson (req : RevealRequest) : Option (List PlanchetMasterSecret) :=
  let numEntries := req.disclosedCoinSecrets.length
  if numEntries = 0 ∨ maxFreshCoins < numEntries ∨
      ∃ a ∈ req.disclosedCoinSecrets, a.length ≠ cncKappa - 1 then none
  else some req.disclosedCoinSecrets.flatten

/-- `TEH_handler_age_withdraw_reveal`. -/
def ageWithdrawReveal (db : Database) (ach : HashCode) (req : RevealRequest) : RevealReply :=
  match parseAgeWithdrawRevealJson req with
  | none => .error .parameterMalformed
  | some secrets =>
    match getAgeWithdraw env.order db req.reservePub ach with
    | .error _ => .error .dbFetchFailed
    | .ok none => .error .commitmentUnknown
    | .ok (some com) =>
      match verifyCommitmentAndMaxAge c env com secrets req.disclosedCoinSecrets.length with
      | .error e => .error e
      | .ok () => .ok com.denomSigs

end Reveal

end TalerExchange
