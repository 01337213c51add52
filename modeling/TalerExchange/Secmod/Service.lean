import TalerExchange.Secmod.Keys
import TalerExchange.Transition.Path

/-!
# The security modules and their clients

What the processes of the RSA, the CS and the EdDSA module do: each operation is one critical section.

* `SignFailure`, `MadeWith`: the answer to a request, with the key that made it;
* `SecmodService`: a module with its clients; revocations are recorded;
* `DenomOp`, `denomStep`: the modules for RSA and CS; `SecmodRsa`, `SecmodCs`: their requests;
* `EddsaOp`, `eddsaStep`: the module for EdDSA.
-/

namespace TalerExchange

/-- Why there is no signature. -/
inductive SignFailure
  | denominationKeyUnknown
  | tooEarly
  | internalInvariantFailure
  | keysMissing
deriving DecidableEq, Repr

/-- A signature or an R value, and the key it was made with. -/
structure MadeWith where
  key : ℕ
  value : ℕ
deriving DecidableEq, Repr

/-- A module with its clients, the keys for which a revocation has been processed, and the time. -/
structure SecmodService (σ : Type) where
  secmod : σ
  clients : List KeyClient := []
  revoked : List ℕ := []
  now : ℕ

/-! ## RSA and CS -/

/-- The first part of `do_sign` and of `do_derive`: the key is looked up, and in use from now on. -/
def DenomSecmod.access (s : DenomSecmod) (now h : ℕ) : Except SignFailure DenomSecmod :=
  match s.lookup h with
  | none => .error .denominationKeyUnknown
  | some k => if now < k.anchor * oneSecond then .error .tooEarly else .ok (s.setRc (· + 1) h)

/-- `do_sign`, `do_derive`: what is made with the key, if anything is. -/
def DenomSecmod.produce (make : ℕ → Option ℕ) (s : DenomSecmod) (now h : ℕ) :
    Except SignFailure MadeWith :=
  match s.access now h with
  | .error e => .error e
  | .ok _ =>
    match make h with
    | none => .error .internalInvariantFailure
    | some v => .ok ⟨h, v⟩

namespace SecmodRsa

/-- `do_sign`; `rsaSignBlinded` is `GNUNET_CRYPTO_rsa_sign_blinded` with the private key of a hash. -/
def doSign (rsaSignBlinded : ℕ → ℕ → Option ℕ) (s : DenomSecmod) (now h bm : ℕ) :
    Except SignFailure MadeWith :=
  s.produce (rsaSignBlinded bm) now h

end SecmodRsa

namespace SecmodCs

/-- The requests for a key. -/
inductive Request
  | sign (planchet : ℕ) (forMelt : Bool)
  | derive (nonce : ℕ) (forMelt : Bool)
deriving DecidableEq, Repr

/-- `do_sign`. -/
def doSign (csSign : ℕ → Bool → ℕ → ℕ) (s : DenomSecmod) (now h planchet : ℕ) (forMelt : Bool) :
    Except SignFailure MadeWith :=
  s.produce (fun k => some (csSign planchet forMelt k)) now h

/-- `do_derive`. -/
def doDerive (csRDerive : ℕ → Bool → ℕ → ℕ) (s : DenomSecmod) (now h nonce : ℕ) (forMelt : Bool) :
    Except SignFailure MadeWith :=
  s.produce (fun k => some (csRDerive nonce forMelt k)) now h

end SecmodCs

/-- What happens at a module for denominations: time passes, a thread starts with a request or is done
with a key, a key is revoked, keys are updated, a client connects or is told what has changed. -/
inductive DenomOp (ρ : Type)
  | wait (d : ℕ)
  | request (r : ρ) (h : ℕ)
  | finish (h : ℕ)
  | revoke (h : ℕ)
  | updateDenominations
  | clientInit
  | updateClientKeys (i : ℕ)

abbrev DenomService := SecmodService DenomSecmod

/-- The answer to a request, if the operation is one; the modules sign batches entry by entry. -/
def SecmodRsa.answer (rsaSignBlinded : ℕ → ℕ → Option ℕ) (v : DenomService) :
    DenomOp ℕ → Option (Except SignFailure MadeWith)
  | .request bm h => some (doSign rsaSignBlinded v.secmod v.now h bm)
  | _ => none

/-- The answer to a request, if the operation is one. -/
def SecmodCs.answer (csSign csRDerive : ℕ → Bool → ℕ → ℕ) (v : DenomService) :
    DenomOp SecmodCs.Request → Option (Except SignFailure MadeWith)
  | .request (.sign planchet forMelt) h => some (doSign csSign v.secmod v.now h planchet forMelt)
  | .request (.derive nonce forMelt) h => some (doDerive csRDerive v.secmod v.now h nonce forMelt)
  | _ => none

/-- A module after one operation. -/
def denomStep {ρ : Type} (v : DenomService) : DenomOp ρ → DenomService
  | .wait d => { v with now := v.now + d }
  | .request _ h =>
    match v.secmod.access v.now h with
    | .error _ => v
    | .ok s => { v with secmod := s }
  | .finish h => { v with secmod := v.secmod.setRc (· - 1) h }
  | .revoke h =>
    { v with
      secmod := v.secmod.handleRevokeRequest h
      revoked := if (v.secmod.lookup h).isSome then h :: v.revoked else v.revoked }
  | .updateDenominations =>
    match updateDenominations v.now v.secmod with
    | none => v
    | some (s, _) => { v with secmod := s }
  | .clientInit =>
    { v with clients := v.clients ++ [KeyClient.init v.secmod.entries v.secmod.keyGen] }
  | .updateClientKeys i =>
    { v with clients := v.clients.modify i (KeyClient.update v.secmod.entries v.secmod.keyGen) }

/-! ## EdDSA -/

abbrev EddsaService := SecmodService EddsaSecmod

/-- What happens at the module for EdDSA. -/
inductive EddsaOp
  | wait (d : ℕ)
  | sign (message : ℕ)
  | finish (h : ℕ)
  | revoke (h : ℕ)
  | updateKeys
  | clientInit
  | updateClientKeys (i : ℕ)

/-- `handle_sign_request`: the first key that is left signs; `eddsaSign` may fail. -/
def EddsaSecmod.handleSignRequest (eddsaSign : ℕ → ℕ → Option ℕ) (s : EddsaSecmod)
    (now message : ℕ) : Except SignFailure MadeWith :=
  match s.cleaned now with
  | [] => .error .keysMissing
  | k :: _ =>
    match eddsaSign message k.hash with
    | none => .error .internalInvariantFailure
    | some v => .ok ⟨k.hash, v⟩

/-- The keys while the first one signs. -/
def EddsaSecmod.holdHead (s : EddsaSecmod) (now : ℕ) : EddsaSecmod :=
  { s with keys := match s.cleaned now with
    | [] => []
    | k :: ks => { k with rc := k.rc + 1 } :: ks }

/-- The answer to a request, if the operation is one. -/
def eddsaAnswer (eddsaSign : ℕ → ℕ → Option ℕ) (v : EddsaService) :
    EddsaOp → Option (Except SignFailure MadeWith)
  | .sign m => some (v.secmod.handleSignRequest eddsaSign v.now m)
  | _ => none

/-- The module after one operation. -/
def eddsaStep (v : EddsaService) : EddsaOp → EddsaService
  | .wait d => { v with now := v.now + d }
  | .sign _ => { v with secmod := v.secmod.holdHead v.now }
  | .finish h => { v with secmod := { v.secmod with keys := setRc (· - 1) h v.secmod.keys } }
  | .revoke h =>
    { v with
      secmod := v.secmod.handleRevokeRequest h
      revoked := if (v.secmod.keys.find? fun k => k.hash = h).isSome then h :: v.revoked else v.revoked }
  | .updateKeys => { v with secmod := v.secmod.updateKeys v.now }
  | .clientInit =>
    { v with clients := v.clients ++ [KeyClient.init v.secmod.entries v.secmod.keyGen] }
  | .updateClientKeys i =>
    { v with clients := v.clients.modify i (KeyClient.update v.secmod.entries v.secmod.keyGen) }

end TalerExchange
