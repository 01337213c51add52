import TalerExchange.Age.Text

/-!
# Commitments for configured masks

Wallets make commitments for the masks that an exchange has configured: from a seed, or from the
secret of a planchet. Both ways assert that the mask has its first bit, that there are fewer than
`31` private keys, and not more than public ones.

* `AgeFactors.ageRestrictionFromSecret`: the keys above the group of the age are derived from a
  base key;
* `getAgeGroup_lt_iff`: when there are fewer than `31` private keys;
* **`ageRestriction_succeeds_iff`**: the assertions hold but for the mask of all groups and the
  ages of its last group;
* `not_ageRestriction_succeeds`: there they fail.
-/

namespace TalerExchange

/-! ## The functions -/

/-- How keys come from a secret: by a key derivation function with a label and an index, and from
a base key whose private key nobody knows. -/
structure AgeFactors (K : AgeKeys) where
  Secret : Type
  kdf : Secret → String → ℕ → K.Seed
  base : K.Pub
  saltOf : K.Seed → K.Salt

variable {K : AgeKeys}

/-- The private keys that `TALER_age_restriction_from_secret` makes. -/
def ageSecretKeys (F : AgeFactors K) (secret : F.Secret) (numPriv : ℕ) : List K.Priv :=
  (List.range numPriv).map fun i => K.createFromSeed (F.kdf secret "age-commitment" i)

/-- The public keys that `TALER_age_restriction_from_secret` makes. -/
def ageSecretPublicKeys (F : AgeFactors K) (secret : F.Secret) (numPriv numPub : ℕ) : List K.Pub :=
  (List.range numPub).map fun i =>
    if i < numPriv then K.getPublic (K.createFromSeed (F.kdf secret "age-commitment" i))
    else K.publicKeyDerive F.base (F.saltOf (F.kdf secret "age-factor" i))

/-- `TALER_age_restriction_from_secret`; `none` where an assertion fails. -/
def AgeFactors.ageRestrictionFromSecret (F : AgeFactors K) (secret : F.Secret) (mask : AgeMask)
    (maxAge : UInt8) : Option (AgeCommitmentProof K) :=
  let numPub := popcount mask.bits - 1
  let numPriv := getAgeGroup mask.bits maxAge.toNat
  if mask.bits.testBit 0 = true ∧ numPriv < 31 ∧ numPriv ≤ numPub then
    some
      { commitment :=
          { mask := mask
            num := numPub
            keys := ageSecretPublicKeys F secret numPriv numPub
            keys_length := (List.length_map _).trans List.length_range }
        proof :=
          { num := numPriv
            keys := ageSecretKeys F secret numPriv
            keys_length := (List.length_map _).trans List.length_range } }
  else none

/-! ## The number of private keys -/

section Masks

variable {mask : AgeMask} {ages : List ℕ} {groups : List Char} {age : ℕ}

/-- Every age from `1` to `31` begins a group if and only if every bit is counted. -/
theorem bitsTo_eq_iff : bitsTo mask.bits 31 = 31 ↔ mask.groups = List.range' 1 31 := by
  have hall : bitsTo mask.bits 31 = 31 ↔ ∀ j ∈ List.range 31, mask.bits.testBit (j + 1) = true := by
    rw [bitsTo]
    exact List.countP_eq_length
  rw [hall, AgeMask.groups, List.filter_eq_self]
  constructor
  · intro h i hi
    have hrange := List.mem_range'_1.mp hi
    have hbit := h (i - 1) (List.mem_range.mpr (by omega))
    rwa [Nat.sub_add_cancel hrange.1] at hbit
  · intro h j hj
    have hlt := List.mem_range.mp hj
    exact h (j + 1) (List.mem_range'_1.mpr (by omega))

theorem getAgeGroup_lt_iff (mask : AgeMask) (age : ℕ) : getAgeGroup mask.bits age < 31 ↔
    ¬(mask.groups = List.range' 1 31 ∧ 31 ≤ age) := by
  rw [getAgeGroup_eq, ← bitsTo_eq_iff]
  have hself := bitsTo_le_self mask.bits age
  have hall := bitsTo_le_self mask.bits 31
  rcases Nat.lt_or_ge age 31 with hlt | hge
  · omega
  · rw [bitsTo_of_lt mask.bits_lt hge]
    omega

theorem ageGroups_range : AgeGroups (List.range' 1 31) :=
  ⟨List.cons_ne_nil _ _, List.pairwise_lt_range' _, fun _ ha => by
    have hrange := List.mem_range'_1.mp ha
    omega⟩

theorem groups_eq_range_iff (h : parseAgeGroupString groups = .ok mask) :
    mask.groups = List.range' 1 31 ↔ groups = ageGroupsText (List.range' 1 31) := by
  obtain ⟨ages, hages, rfl, rfl⟩ := parseAgeGroupString_eq_ok.mp h
  rw [hages.groups_ofGroups]
  constructor
  · exact congrArg ageGroupsText
  · intro htext
    have hparse := hages.parse
    rw [htext, ageGroups_range.parse] at hparse
    have hgroups := congrArg AgeMask.groups (Except.ok.inj hparse)
    rw [ageGroups_range.groups_ofGroups, hages.groups_ofGroups] at hgroups
    exact hgroups.symm

theorem testBit_zero_of_parse (h : parseAgeGroupString groups = .ok mask) :
    mask.bits.testBit 0 = true := by
  obtain ⟨ages, hages, -, rfl⟩ := parseAgeGroupString_eq_ok.mp h
  exact (AgeMask.testBit_ofGroups fun a ha => (hages.range a ha).2).mpr (Or.inl rfl)

/-- The assertions of both functions, for the mask of a text. -/
theorem ageAssertions_iff (h : parseAgeGroupString groups = .ok mask) (age : ℕ) :
    (mask.bits.testBit 0 = true ∧ getAgeGroup mask.bits age < 31 ∧
        getAgeGroup mask.bits age ≤ popcount mask.bits - 1) ↔
      ¬(groups = ageGroupsText (List.range' 1 31) ∧ 31 ≤ age) := by
  have hbit := testBit_zero_of_parse h
  rw [and_iff_right hbit, and_iff_left (getAgeGroup_le mask.bits_lt hbit age), getAgeGroup_lt_iff,
    groups_eq_range_iff h]

end Masks

/-! ## The assertions -/

/-- **The assertions of the commitment functions** hold for every mask that can be configured and
every age, but for the mask of all groups and the ages from `31` on. -/
theorem ageRestriction_succeeds_iff (F : AgeFactors K) {groups : List Char} {mask : AgeMask}
    (h : parseAgeGroupString groups = .ok mask) (age : UInt8) (seed : K.Seed)
    (secret : F.Secret) :
    ((ageRestrictionCommit mask age seed).isSome = true ↔
      ¬(groups = ageGroupsText (List.range' 1 31) ∧ 31 ≤ age.toNat)) ∧
    ((F.ageRestrictionFromSecret secret mask age).isSome = true ↔
      ¬(groups = ageGroupsText (List.range' 1 31) ∧ 31 ≤ age.toNat)) := by
  have hassert := ageAssertions_iff h age.toNat
  constructor
  · rw [← hassert]
    unfold ageRestrictionCommit
    dsimp only
    split_ifs with hall
    · exact iff_of_true rfl hall
    · exact iff_of_false nofun hall
  · rw [← hassert]
    unfold AgeFactors.ageRestrictionFromSecret
    dsimp only
    split_ifs with hall
    · exact iff_of_true rfl hall
    · exact iff_of_false nofun hall

/-- Keys that are numbers. -/
def sampleAgeFactors : AgeFactors sampleAgeKeys where
  Secret := ℕ
  kdf secret _ i := (secret + i : ℕ)
  base := (1 : ℕ)
  saltOf seed := seed

/-- The groups from `0`, `8`, `10` and `12` on, and an age of ten. -/
theorem ageRestriction_succeeds_sample :
    (ageRestrictionCommit (K := sampleAgeKeys) ⟨5377, by decide⟩ 10 (7 : ℕ)).isSome = true ∧
      (sampleAgeFactors.ageRestrictionFromSecret (7 : ℕ) ⟨5377, by decide⟩ 10).isSome = true := by
  have hparse : parseAgeGroupString "8:10:12".toList = .ok ⟨5377, by decide⟩ := by decide
  have h := ageRestriction_succeeds_iff sampleAgeFactors hparse 10 (7 : ℕ) (7 : ℕ)
  exact ⟨h.1.mpr (by decide), h.2.mpr (by decide)⟩

/-- A mask of all groups is configured, and the holder of a coin is `31` or older. -/
theorem not_ageRestriction_succeeds : ¬∀ (groups : List Char) (mask : AgeMask),
    parseAgeGroupString groups = .ok mask → ∀ (age : UInt8) (seed : sampleAgeKeys.Seed)
      (secret : sampleAgeFactors.Secret),
      (ageRestrictionCommit (K := sampleAgeKeys) mask age seed).isSome = true ∧
        (sampleAgeFactors.ageRestrictionFromSecret secret mask age).isSome = true := by
  intro h
  have hsome := (h _ _ ageGroups_range.parse 31 (7 : ℕ) (7 : ℕ)).1
  have hassert := ageAssertions_iff ageGroups_range.parse 31
  unfold ageRestrictionCommit at hsome
  dsimp only at hsome
  split_ifs at hsome with hall
  · exact hassert.mp hall ⟨rfl, le_refl 31⟩
  · exact absurd hsome (by decide)

end TalerExchange
