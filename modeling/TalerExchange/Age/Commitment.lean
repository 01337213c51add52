import TalerExchange.Age.Groups
import TalerExchange.Transition.Idempotent

/-!
# Age commitments

A coin commits to an age by a public key for every age group but the first, with private keys for
the groups up to the one of the age. Its owner attests an age by a signature with the key of its
group. A commitment can be derived anew, without a link to the one before.

* `AgeKeys`, `AgeKeys.Homomorphic`: the signatures and the derivation of keys;
* `ageRestrictionCommit`, `ageCommitmentDerive`, `ageCommitmentAttest`, `ageCommitmentVerify`: the
  functions; `none` where an assertion fails or an index is out of bounds;
* `Restricts`: what commitments and their derivations have in common;
* **`ageRestriction_sound`**: ages up to the group of the commitment are attested, and no others.
-/

namespace TalerExchange

open Transition

/-! ## Keys -/

/-- A mask of age groups. -/
structure AgeMask where
  bits : ℕ
  bits_lt : bits < 2 ^ 32
deriving DecidableEq, Repr

/-- `struct TALER_AgeAttestationPS`. -/
structure AgeAttestationPS where
  mask : AgeMask
  age : UInt8
deriving DecidableEq, Repr

/-- The signatures: private and public keys, made from a seed, and derived with a salt. -/
structure AgeKeys where
  Priv : Type
  Pub : Type
  Sig : Type
  Seed : Type
  Salt : Type
  createFromSeed : Seed → Priv
  nextSeed : Seed → Seed
  getPublic : Priv → Pub
  publicKeyDerive : Pub → Salt → Pub
  privateKeyDerive : Priv → Salt → Priv
  sign : Priv → AgeAttestationPS → Sig
  verify : AgeAttestationPS → Sig → Pub → Bool
  zero : Sig

/-- Signatures verify, and derivation commutes with taking the public key. -/
structure AgeKeys.Homomorphic (K : AgeKeys) : Prop where
  verify_sign : ∀ k m, K.verify m (K.sign k m) (K.getPublic k) = true
  getPublic_derive : ∀ k s, K.getPublic (K.privateKeyDerive k s) =
    K.publicKeyDerive (K.getPublic k) s

/-! ## The functions -/

/-- `struct TALER_AgeCommitment`. -/
structure TalerAgeCommitment (K : AgeKeys) where
  mask : AgeMask
  num : ℕ
  keys : List K.Pub
  keys_length : keys.length = num

/-- `struct TALER_AgeProof`. -/
structure AgeProof (K : AgeKeys) where
  num : ℕ
  keys : List K.Priv
  keys_length : keys.length = num

/-- `struct TALER_AgeCommitmentProof`. -/
structure AgeCommitmentProof (K : AgeKeys) where
  commitment : TalerAgeCommitment K
  proof : AgeProof K

variable {K : AgeKeys}

/-- The keys that the loop of `TALER_age_restriction_commit` creates. -/
def ageKeys (K : AgeKeys) : ℕ → K.Seed → List K.Priv
  | 0, _ => []
  | n + 1, seed => K.createFromSeed seed :: ageKeys K n (K.nextSeed seed)

@[simp] theorem length_ageKeys (n : ℕ) (seed : K.Seed) : (ageKeys K n seed).length = n := by
  induction n generalizing seed with
  | zero => rfl
  | succ n ih => rw [ageKeys, List.length_cons, ih]

/-- `TALER_age_restriction_commit`: the private keys above the group of the age are dropped. -/
def ageRestrictionCommit (mask : AgeMask) (age : UInt8) (seed : K.Seed) :
    Option (AgeCommitmentProof K) :=
  let numPub := popcount mask.bits - 1
  let numPriv := getAgeGroup mask.bits age.toNat
  if h : mask.bits.testBit 0 = true ∧ numPriv < 31 ∧ numPriv ≤ numPub then
    some
      { commitment :=
          { mask := mask
            num := numPub
            keys := (ageKeys K numPub seed).map K.getPublic
            keys_length := by rw [List.length_map, length_ageKeys] }
        proof :=
          { num := numPriv
            keys := (ageKeys K numPub seed).take numPriv
            keys_length := by rw [List.length_take, length_ageKeys, Nat.min_eq_left h.2.2] } }
  else none

/-- `TALER_age_commitment_derive`. -/
def ageCommitmentDerive (orig : AgeCommitmentProof K) (salt : K.Salt) :
    Option (AgeCommitmentProof K) :=
  if orig.proof.num ≤ orig.commitment.num ∧
      (orig.commitment.num : ℤ) = popcount orig.commitment.mask.bits - 1 then
    some
      { commitment :=
          { mask := orig.commitment.mask
            num := orig.commitment.num
            keys := orig.commitment.keys.map (K.publicKeyDerive · salt)
            keys_length := by rw [List.length_map, orig.commitment.keys_length] }
        proof :=
          { num := orig.proof.num
            keys := orig.proof.keys.map (K.privateKeyDerive · salt)
            keys_length := by rw [List.length_map, orig.proof.keys_length] } }
  else none

/-- The results of `TALER_age_commitment_attest`. -/
inductive AttestResult (K : AgeKeys)
  | no
  | ok (attest : K.Sig)

/-- `TALER_age_commitment_attest`. -/
def ageCommitmentAttest (cp : AgeCommitmentProof K) (age : UInt8) : Option (AttestResult K) :=
  let group := getAgeGroup cp.commitment.mask.bits age.toNat
  if 32 ≤ group then none
  else if group = 0 then some (.ok K.zero)
  else if cp.proof.num < group then some .no
  else cp.proof.keys[group - 1]?.map fun k => .ok (K.sign k ⟨cp.commitment.mask, age⟩)

/-- `TALER_age_commitment_verify`. -/
def ageCommitmentVerify (comm : TalerAgeCommitment K) (age : UInt8) (attest : K.Sig) : Option Bool :=
  let group := getAgeGroup comm.mask.bits age.toNat
  if 32 ≤ group then none
  else if group = 0 then some true
  else if comm.num < group then some false
  else comm.keys[group - 1]?.map fun k => K.verify ⟨comm.mask, age⟩ attest k

/-! ## What is to hold -/

/-- The commitment is one to `maxAge`: ages up to its group are attested, others are not, and what
is attested is verified. -/
structure AgeRestriction (mask : AgeMask) (maxAge : UInt8) (cp : AgeCommitmentProof K) :
    Prop where
  private_keys : cp.proof.num = getAgeGroup mask.bits maxAge.toNat ∧
    cp.proof.keys.length = getAgeGroup mask.bits maxAge.toNat
  public_keys : cp.commitment.num = popcount mask.bits - 1 ∧
    cp.commitment.keys.length = popcount mask.bits - 1
  attested : ∀ age : UInt8, (∃ attest, ageCommitmentAttest cp age = some (.ok attest)) ↔
    getAgeGroup mask.bits age.toNat ≤ getAgeGroup mask.bits maxAge.toNat
  declined : ∀ age : UInt8, ageCommitmentAttest cp age = some .no ↔
    getAgeGroup mask.bits maxAge.toNat < getAgeGroup mask.bits age.toNat
  verified : ∀ age attest, ageCommitmentAttest cp age = some (.ok attest) →
    ageCommitmentVerify cp.commitment age attest = some true

/-! ## The invariant -/

/-- The private keys are those of the first public keys, up to the group of the age. -/
structure Restricts (mask : AgeMask) (maxAge : UInt8) (cp : AgeCommitmentProof K) : Prop where
  mask_eq : cp.commitment.mask = mask
  num_pub : cp.commitment.num = popcount mask.bits - 1
  num_priv : cp.proof.num = getAgeGroup mask.bits maxAge.toNat
  keys : cp.proof.keys.map K.getPublic = cp.commitment.keys.take cp.proof.num

section Invariant

variable {mask : AgeMask} {maxAge : UInt8} {cp : AgeCommitmentProof K}

theorem Restricts.commit (hbit : mask.bits.testBit 0 = true)
    (hmax : getAgeGroup mask.bits maxAge.toNat < 31) (seed : K.Seed) :
    ∃ cp : AgeCommitmentProof K, ageRestrictionCommit mask maxAge seed = some cp ∧
      Restricts mask maxAge cp :=
  ⟨_, dif_pos ⟨hbit, hmax, getAgeGroup_le mask.bits_lt hbit _⟩, rfl, rfl, rfl, List.map_take⟩

theorem Restricts.le (h : Restricts mask maxAge cp) (hbit : mask.bits.testBit 0 = true) :
    cp.proof.num ≤ cp.commitment.num := by
  rw [h.num_priv, h.num_pub]
  exact getAgeGroup_le mask.bits_lt hbit _

theorem Restricts.derive (hK : K.Homomorphic) (hbit : mask.bits.testBit 0 = true)
    (h : Restricts mask maxAge cp) (salt : K.Salt) :
    ∃ cp', ageCommitmentDerive cp salt = some cp' ∧ Restricts mask maxAge cp' := by
  have hpop := popcount_eq hbit
  have hnum : (cp.commitment.num : ℤ) = popcount cp.commitment.mask.bits - 1 := by
    rw [h.num_pub, h.mask_eq]
    omega
  refine ⟨_, if_pos ⟨h.le hbit, hnum⟩, h.mask_eq, h.num_pub, h.num_priv, ?_⟩
  calc (cp.proof.keys.map (K.privateKeyDerive · salt)).map K.getPublic
      = (cp.proof.keys.map K.getPublic).map (K.publicKeyDerive · salt) := by
        rw [List.map_map, List.map_map]
        exact List.map_congr_left fun k _ => hK.getPublic_derive k salt
    _ = (cp.commitment.keys.map (K.publicKeyDerive · salt)).take cp.proof.num := by
        rw [h.keys, List.map_take]

/-- **Derivations always succeed** and keep the commitment one to the same age. -/
theorem Restricts.deriveAll (hK : K.Homomorphic) (hbit : mask.bits.testBit 0 = true)
    (h : Restricts mask maxAge cp) (salts : List K.Salt) :
    ∃ cp', applyAll ageCommitmentDerive cp salts = some cp' ∧ Restricts mask maxAge cp' := by
  induction salts generalizing cp with
  | nil => exact ⟨cp, rfl, h⟩
  | cons salt salts ih =>
    obtain ⟨cp₁, hderive, h₁⟩ := h.derive hK hbit salt
    obtain ⟨cp', hall, h'⟩ := ih h₁
    exact ⟨cp', applyAll_cons.mpr ⟨cp₁, hderive, hall⟩, h'⟩

/-! ## Attestations -/

/-- The key of a group that is committed to, and the one it is verified with. -/
theorem Restricts.key (h : Restricts mask maxAge cp) {group : ℕ} (hpos : group ≠ 0)
    (hle : group ≤ cp.proof.num) : ∃ k, cp.proof.keys[group - 1]? = some k ∧
      cp.commitment.keys[group - 1]? = some (K.getPublic k) := by
  have hlt : group - 1 < cp.proof.keys.length := by
    rw [cp.proof.keys_length]
    omega
  have hpub : (cp.proof.keys.map K.getPublic)[group - 1]? =
      cp.commitment.keys[group - 1]? := by
    rw [h.keys, List.getElem?_take_of_lt (by omega)]
  refine ⟨cp.proof.keys[group - 1], List.getElem?_eq_getElem hlt, ?_⟩
  rw [← hpub, List.getElem?_map, List.getElem?_eq_getElem hlt]
  rfl

/-- How an attestation ends: without a signature, with one, or not at all. -/
theorem Restricts.attest (h : Restricts mask maxAge cp) (age : UInt8) :
    (getAgeGroup mask.bits age.toNat = 0 ∧ ageCommitmentAttest cp age = some (.ok K.zero)) ∨
    (getAgeGroup mask.bits age.toNat ≠ 0 ∧
      getAgeGroup mask.bits age.toNat ≤ getAgeGroup mask.bits maxAge.toNat ∧
      ∃ k, cp.commitment.keys[getAgeGroup mask.bits age.toNat - 1]? = some (K.getPublic k) ∧
        ageCommitmentAttest cp age = some (.ok (K.sign k ⟨mask, age⟩))) ∨
    (getAgeGroup mask.bits maxAge.toNat < getAgeGroup mask.bits age.toNat ∧
      ageCommitmentAttest cp age = some .no) := by
  have hlt := getAgeGroup_lt mask.bits_lt age.toNat
  unfold ageCommitmentAttest
  simp only [h.mask_eq, h.num_priv]
  rw [if_neg (by omega)]
  by_cases hzero : getAgeGroup mask.bits age.toNat = 0
  · exact Or.inl ⟨hzero, if_pos hzero⟩
  rw [if_neg hzero]
  by_cases hle : getAgeGroup mask.bits age.toNat ≤ getAgeGroup mask.bits maxAge.toNat
  · obtain ⟨k, hpriv, hpub⟩ := h.key hzero (hle.trans_eq h.num_priv.symm)
    refine Or.inr (Or.inl ⟨hzero, hle, k, hpub, ?_⟩)
    rw [if_neg (by omega), hpriv]
    rfl
  · exact Or.inr (Or.inr ⟨not_le.mp hle, if_pos (not_le.mp hle)⟩)

theorem Restricts.verify (hK : K.Homomorphic) (hbit : mask.bits.testBit 0 = true)
    (h : Restricts mask maxAge cp) {age : UInt8} {attest : K.Sig}
    (ha : ageCommitmentAttest cp age = some (.ok attest)) :
    ageCommitmentVerify cp.commitment age attest = some true := by
  have hlt := getAgeGroup_lt mask.bits_lt age.toNat
  unfold ageCommitmentVerify
  simp only [h.mask_eq]
  rw [if_neg (by omega)]
  rcases h.attest age with ⟨hzero, -⟩ | ⟨hpos, hle, k, hpub, hsign⟩ | ⟨-, hno⟩
  · exact if_pos hzero
  · rw [ha] at hsign
    cases hsign
    have hnum : getAgeGroup mask.bits age.toNat ≤ cp.commitment.num :=
      (hle.trans_eq h.num_priv.symm).trans (h.le hbit)
    rw [if_neg hpos, if_neg (by omega), hpub, Option.map_some, hK.verify_sign]
  · rw [ha] at hno
    cases hno

theorem Restricts.sound (hK : K.Homomorphic) (hbit : mask.bits.testBit 0 = true)
    (h : Restricts mask maxAge cp) : AgeRestriction mask maxAge cp where
  private_keys := ⟨h.num_priv, cp.proof.keys_length.trans h.num_priv⟩
  public_keys := ⟨h.num_pub, cp.commitment.keys_length.trans h.num_pub⟩
  attested age := by
    rcases h.attest age with ⟨hzero, hok⟩ | ⟨-, hle, k, -, hok⟩ | ⟨hlt, hno⟩
    · exact iff_of_true ⟨_, hok⟩ (by omega)
    · exact iff_of_true ⟨_, hok⟩ hle
    · refine iff_of_false ?_ (by omega)
      rw [hno]
      rintro ⟨_, hok⟩
      cases hok
  declined age := by
    rcases h.attest age with ⟨hzero, hok⟩ | ⟨-, hle, k, -, hok⟩ | ⟨hlt, hno⟩
    · rw [hok]
      exact iff_of_false nofun (by omega)
    · rw [hok]
      exact iff_of_false nofun (by omega)
    · exact iff_of_true hno hlt
  verified _ _ ha := h.verify hK hbit ha

end Invariant

/-- **Age restriction end to end**: however often a commitment is derived anew, it attests the ages
up to the group it was made for and no others, and what it attests is verified. -/
theorem ageRestriction_sound (hK : K.Homomorphic) {mask : AgeMask} {maxAge : UInt8}
    (hbit : mask.bits.testBit 0 = true) (hmax : getAgeGroup mask.bits maxAge.toNat < 31)
    (seed : K.Seed) (salts : List K.Salt) : ∃ cp₀ cp,
      ageRestrictionCommit mask maxAge seed = some cp₀ ∧
      applyAll ageCommitmentDerive cp₀ salts = some cp ∧ AgeRestriction mask maxAge cp := by
  obtain ⟨cp₀, hcommit, h₀⟩ := Restricts.commit hbit hmax seed
  obtain ⟨cp, hderive, h⟩ := h₀.deriveAll hK hbit salts
  exact ⟨cp₀, cp, hcommit, hderive, h.sound hK hbit⟩

/-- Keys that are numbers, a signature that shows the public key. -/
def sampleAgeKeys : AgeKeys where
  Priv := ℕ
  Pub := ℕ
  Sig := ℕ × Option AgeAttestationPS
  Seed := ℕ
  Salt := ℕ
  createFromSeed seed := seed
  nextSeed seed := seed + 1
  getPublic k := 2 * k
  publicKeyDerive p s := p + 2 * s
  privateKeyDerive k s := k + s
  sign k m := (2 * k, some m)
  verify m s p := s = (p, some m)
  zero := (0, none)

/-- The groups from `0`, `8`, `10` and `12` on, and an age of ten. -/
theorem ageRestriction_sample : ∃ cp₀ cp,
    ageRestrictionCommit (K := sampleAgeKeys) ⟨5377, by decide⟩ 10 (7 : ℕ) = some cp₀ ∧
      applyAll ageCommitmentDerive cp₀ [(3 : ℕ), (4 : ℕ)] = some cp ∧
      AgeRestriction ⟨5377, by decide⟩ 10 cp :=
  ageRestriction_sound
    ⟨fun _ _ => by simp [sampleAgeKeys], fun k s => Nat.mul_add 2 k s⟩ (by decide) (by decide) _ _

end TalerExchange
