import Mathlib.Data.List.Perm.Basic
import Mathlib.Order.Lattice
import Mathlib.Tactic.Common
import TalerExchange.Secmod.Feed

/-!
# The keys of the security modules

The security modules create keys ahead of time and let them expire. The modules for RSA and for CS have a
list of keys for each denomination, the module for EdDSA has one list.

* `KeyDurations`, `SecmodKey`: times in microseconds, anchors in seconds (a time stamp is rounded down);
* `Keyring.createKeys`: the loop that creates keys; `Keyring.removeExpired`, `Keyring.purgeExpired`;
* `DenomSecmod`: `denominationActionTime`, `updateKeys`, `updateDenominations`, `handleRevokeRequest`;
* `EddsaSecmod`: the same for EdDSA.

A new key gets the next hash; that a file cannot be written is left out.
-/

namespace TalerExchange

/-- `GNUNET_TIME_UNIT_SECONDS`. -/
def oneSecond : ℕ := 1000000

/-- How long keys are valid, how much they overlap, how long ahead they are created. -/
structure KeyDurations where
  duration : ℕ
  overlapDuration : ℕ
  lookaheadSign : ℕ
  spaced : overlapDuration + oneSecond ≤ duration

/-- `struct DenominationKey`, `struct Key`. -/
structure SecmodKey where
  hash : ℕ
  anchor : ℕ
  keyGen : ℕ := 0
  rc : ℕ := 0
  purge : Bool := false
deriving DecidableEq, Repr

namespace KeyDurations

variable (d : KeyDurations)

/-- When a key expires. -/
def expires (k : SecmodKey) : ℕ := k.anchor * oneSecond + d.duration

/-- When a successor of the key is to be created. -/
def renewal (k : SecmodKey) : ℕ := d.expires k - d.lookaheadSign - d.overlapDuration

/-- When the successor of a key is to become valid. -/
def succession (k : SecmodKey) : ℕ := k.anchor * oneSecond + (d.duration - d.overlapDuration)

/-- The anchor of a new key, in `create_key`. -/
def newAnchor (now : ℕ) : Option SecmodKey → ℕ
  | none => now / oneSecond
  | some k =>
    if now / oneSecond * oneSecond < d.succession k then d.succession k / oneSecond else now / oneSecond

/-- Whether another key is to be created. -/
def short (now : ℕ) : Option SecmodKey → Bool
  | none => true
  | some k => d.renewal k < now

/-- The key as clients see it. -/
def entry (k : SecmodKey) : KeyEntry := ⟨k.hash, d.expires k, k.keyGen, k.purge⟩

end KeyDurations

/-! ## Creating and expiring keys -/

/-- The keys of a denomination while they are updated, with the generation, the next hash, and whether
clients are to be woken. -/
structure Keyring where
  keys : List SecmodKey
  keyGen : ℕ
  nextKey : ℕ
  wake : Bool := false

namespace Keyring

variable (d : KeyDurations) (now : ℕ)

/-- A new generation, once. -/
def bump (r : Keyring) : Keyring :=
  if r.wake then r else { r with keyGen := r.keyGen + 1, wake := true }

/-- `create_key`. -/
def createKey (r : Keyring) : Keyring :=
  { r with
    keys := r.keys ++ [⟨r.nextKey, d.newAnchor now r.keys.getLast?, r.keyGen, 0, false⟩]
    nextKey := r.nextKey + 1 }

/-- How much is missing until no key is to be created. -/
def deficit (r : Keyring) : ℕ :=
  now + d.lookaheadSign + d.overlapDuration + 1 - (r.keys.getLast?.map d.expires).getD 0

@[simp] theorem keys_bump (r : Keyring) : r.bump.keys = r.keys := by
  unfold bump
  split <;> rfl

@[simp] theorem nextKey_bump (r : Keyring) : r.bump.nextKey = r.nextKey := by
  unfold bump
  split <;> rfl

theorem getLast?_createKey (r : Keyring) : (r.createKey d now).keys.getLast? =
    some ⟨r.nextKey, d.newAnchor now r.keys.getLast?, r.keyGen, 0, false⟩ :=
  List.getLast?_concat

/-- The successor of a key begins at least a second after it. -/
theorem lt_newAnchor (k : SecmodKey) : k.anchor < d.newAnchor now (some k) := by
  have hs : 0 < oneSecond := by decide
  have hlt : (k.anchor + 1) * oneSecond ≤ d.succession k := by
    have := d.spaced
    unfold KeyDurations.succession
    rw [Nat.succ_mul]
    omega
  have hle : k.anchor + 1 ≤ d.succession k / oneSecond := (Nat.le_div_iff_mul_le hs).2 hlt
  unfold KeyDurations.newAnchor
  dsimp only
  by_cases h : now / oneSecond * oneSecond < d.succession k
  · rw [if_pos h]
    exact hle
  · rw [if_neg h]
    exact (Nat.le_div_iff_mul_le hs).2 ((hlt.trans (not_lt.1 h)).trans (Nat.div_mul_le_self _ _))

theorem deficit_createKey (r : Keyring) (h : d.short now r.keys.getLast? = true) :
    (r.bump.createKey d now).deficit d now < r.deficit d now := by
  have hd : 0 < d.duration := (Nat.succ_pos _).trans_le ((Nat.le_add_left _ _).trans d.spaced)
  unfold deficit
  rw [getLast?_createKey, keys_bump]
  cases hl : r.keys.getLast? with
  | none =>
    change _ - (d.newAnchor now none * oneSecond + d.duration) < _ - 0
    omega
  | some k =>
    rw [hl] at h
    have hren : d.renewal k < now := of_decide_eq_true h
    have hlt := Nat.mul_lt_mul_of_pos_right (lt_newAnchor d now k) (show 0 < oneSecond by decide)
    unfold KeyDurations.renewal KeyDurations.expires at hren
    change _ - (d.newAnchor now (some k) * oneSecond + d.duration) < _ - (k.anchor * oneSecond + d.duration)
    omega

/-- The loop that creates keys. -/
def createKeys (r : Keyring) : Keyring :=
  if d.short now r.keys.getLast? then (r.bump.createKey d now).createKeys else r
termination_by r.deficit d now
decreasing_by exact deficit_createKey d now r ‹_›

/-- The loop that removes expired keys; it stops at a key that is in use. -/
def removeExpired (r : Keyring) : Keyring :=
  { r with keys := r.keys.dropWhile fun k => d.expires k < now && k.rc == 0 }

/-- `purge_key`, with the generation `gen`. -/
def purgeKey (gen : ℕ) (k : SecmodKey) : SecmodKey :=
  if k.purge then k else { k with purge := true, keyGen := gen }

/-- The loop that purges expired keys, for EdDSA. -/
def purgeExpired (gen : ℕ) : List SecmodKey → List SecmodKey
  | [] => []
  | k :: ks => if d.expires k < now then purgeKey gen k :: purgeExpired gen ks else k :: ks

end Keyring

/-! ## Revocation -/

/-- A key is purged, and a new one with the same anchor follows it. -/
def revokeKey (gen next : ℕ) (h : ℕ) : List SecmodKey → List SecmodKey
  | [] => []
  | k :: ks =>
    if k.hash = h then Keyring.purgeKey gen k :: ⟨next, k.anchor, gen, 0, false⟩ :: ks
    else k :: revokeKey gen next h ks

/-- Another thread starts or stops to use a key. -/
def setRc (f : ℕ → ℕ) (h : ℕ) (ks : List SecmodKey) : List SecmodKey :=
  ks.map fun k => if k.hash = h then { k with rc := f k.rc } else k

/-! ## Denominations -/

/-- `struct Denomination` of a security module. -/
structure SecmodDenomination where
  durations : KeyDurations
  keys : List SecmodKey

/-- `denomination_action_time`. -/
def denominationActionTime (dn : SecmodDenomination) : ℕ :=
  match dn.keys.head?, dn.keys.getLast? with
  | some hd, some tl =>
    if 0 < hd.rc then dn.durations.renewal tl
    else min (dn.durations.expires hd) (dn.durations.renewal tl)
  | _, _ => 0

/-- The module for RSA, and the one for CS: its denominations in their order, the generation, the hash of
the next key. -/
structure DenomSecmod where
  denoms : List SecmodDenomination
  keyGen : ℕ
  nextKey : ℕ

/-- A denomination is put before the first one that is not to be looked at before it. -/
def insertByActionTime (dn : SecmodDenomination) (ds : List SecmodDenomination) :
    List SecmodDenomination :=
  ds.takeWhile (fun x => denominationActionTime x < denominationActionTime dn) ++
    dn :: ds.dropWhile fun x => denominationActionTime x < denominationActionTime dn

/-- The keys of a denomination are created and expired. -/
def SecmodDenomination.renew (now : ℕ) (wake : Bool) (keyGen nextKey : ℕ) (dn : SecmodDenomination) :
    Keyring :=
  ((⟨dn.keys, keyGen, nextKey, wake⟩ : Keyring).createKeys dn.durations now).removeExpired
    dn.durations now

/-- `update_keys` for the denomination `dn`, where `ds` are the others. -/
def updateKeys (now : ℕ) (wake : Bool) (dn : SecmodDenomination) (ds : List SecmodDenomination)
    (keyGen nextKey : ℕ) : DenomSecmod × Bool :=
  let r := dn.renew now wake keyGen nextKey
  (⟨insertByActionTime { dn with keys := r.keys } ds, r.keyGen, r.nextKey⟩, r.wake)

/-- Whether a denomination is put at the head of the list. -/
def staysHead (dn : SecmodDenomination) (ds : List SecmodDenomination) : Bool :=
  (ds.takeWhile fun x => denominationActionTime x < denominationActionTime dn).isEmpty

/-- The loop of `update_denominations`, `n` times at most. -/
def denominationLoop (now : ℕ) : ℕ → Bool → DenomSecmod → Option (DenomSecmod × Bool)
  | 0, _, _ => none
  | n + 1, wake, s =>
    match s.denoms with
    | [] => none
    | dn :: ds =>
      let s' := updateKeys now wake dn ds s.keyGen s.nextKey
      let r := dn.renew now wake s.keyGen s.nextKey
      if staysHead { dn with keys := r.keys } ds then some s' else denominationLoop now n s'.2 s'.1

/-- `update_denominations`. -/
def updateDenominations (now : ℕ) (s : DenomSecmod) : Option (DenomSecmod × Bool) :=
  denominationLoop now (s.denoms.length * (s.denoms.length + 1) + 1) false s

namespace DenomSecmod

variable (s : DenomSecmod)

/-- The map of all keys. -/
def keys : List SecmodKey := s.denoms.flatMap SecmodDenomination.keys

/-- The keys as clients see them. -/
def entries : List KeyEntry := s.denoms.flatMap fun dn => dn.keys.map dn.durations.entry

/-- `GNUNET_CONTAINER_multihashmap_get`. -/
def lookup (h : ℕ) : Option SecmodKey := s.keys.find? fun k => k.hash = h

def setRc (f : ℕ → ℕ) (h : ℕ) : DenomSecmod :=
  { s with denoms := s.denoms.map fun dn => { dn with keys := TalerExchange.setRc f h dn.keys } }

/-- The revocation of a key that is not purged. -/
def revoke (h : ℕ) : DenomSecmod where
  denoms := s.denoms.map fun dn => { dn with keys := revokeKey (s.keyGen + 1) s.nextKey h dn.keys }
  keyGen := s.keyGen + 1
  nextKey := s.nextKey + 1

/-- `handle_revoke_request`. -/
def handleRevokeRequest (h : ℕ) : DenomSecmod :=
  match s.lookup h with
  | none => s
  | some k => if k.purge then s else s.revoke h

end DenomSecmod

/-! ## EdDSA -/

/-- The module for EdDSA. -/
structure EddsaSecmod where
  durations : KeyDurations
  keys : List SecmodKey
  keyGen : ℕ
  nextKey : ℕ

namespace EddsaSecmod

variable (s : EddsaSecmod)

/-- The keys as clients see them. -/
def entries : List KeyEntry := s.keys.map s.durations.entry

/-- Expired keys are purged, in a new generation if there are any. -/
def purgeExpired (now : ℕ) (r : Keyring) : Keyring :=
  match r.keys.head? with
  | none => r
  | some k =>
    if s.durations.expires k < now then
      { r.bump with keys := Keyring.purgeExpired s.durations now r.bump.keyGen r.keys }
    else r

/-- `update_keys`. -/
def updateKeys (now : ℕ) : EddsaSecmod :=
  let r := s.purgeExpired now
    ((⟨s.keys, s.keyGen, s.nextKey, false⟩ : Keyring).createKeys s.durations now)
  { s with keys := r.keys, keyGen := r.keyGen, nextKey := r.nextKey }

/-- The revocation of a key that is not purged. -/
def revoke (h : ℕ) : EddsaSecmod :=
  { s with
    keys := revokeKey (s.keyGen + 1) s.nextKey h s.keys
    keyGen := s.keyGen + 1, nextKey := s.nextKey + 1 }

/-- `handle_revoke_request`. -/
def handleRevokeRequest (h : ℕ) : EddsaSecmod :=
  match s.keys.find? fun k => k.hash = h with
  | none => s
  | some k => if k.purge then s else s.revoke h

/-- The keys after `handle_sign_request` has deleted expired ones. -/
def cleaned (now : ℕ) : List SecmodKey :=
  s.keys.dropWhile fun k => s.durations.expires k < now && k.rc == 0

end EddsaSecmod

end TalerExchange
