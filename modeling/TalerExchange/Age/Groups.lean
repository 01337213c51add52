import Mathlib.Data.List.Count
import Mathlib.Data.Nat.Bitwise
import Mathlib.Order.Bounds.Basic

/-!
# Age groups

A mask of `32` bits divides the ages into groups: bit `i` is set if a group starts at age `i`. The
group of an age is the number of bits from `1` on that are set up to it.

* `getAgeGroup`, `getLowestAge`: the loops over the mask;
* `getAgeGroup_eq`: the loop counts bits; `getAgeGroup_le`: the groups below the number of groups;
* **`getLowestAge_isLeast`**: the lowest age is the least age of its group;
* **`ageGroup_boundaries`**: the two loops agree on the groups.
-/

namespace TalerExchange

/-! ## The loops -/

/-- The loop of `TALER_get_age_group`. -/
def ageGroupLoop : ℕ → ℕ → ℕ → ℕ
  | _, 0, i => i
  | 0, _ + 1, i => i
  | m + 1, age + 1, i => ageGroupLoop ((m + 1) / 2) age (i + (m + 1) / 2 % 2)

/-- `TALER_get_age_group`. -/
def getAgeGroup (mask age : ℕ) : ℕ := ageGroupLoop mask age 0

/-- The loop of `TALER_get_lowest_age`; a mask has `32` bits. -/
def lowestAgeLoop : ℕ → ℕ → ℕ → ℕ → ℕ
  | 0, _, _, lowest => lowest
  | _, _, 0, lowest => lowest
  | n + 1, m, group + 1, lowest =>
    lowestAgeLoop n (m / 2) (if m / 2 % 2 = 1 then group else group + 1) (lowest + 1)

/-- `TALER_get_lowest_age`; its argument is a `uint8_t`. -/
def getLowestAge (mask age : ℕ) : ℕ := lowestAgeLoop 32 mask (getAgeGroup mask (age % 256)) 0

/-- `__builtin_popcount` of a mask. -/
def popcount (mask : ℕ) : ℕ := (List.range 32).countP mask.testBit

/-! ## Counting bits -/

/-- The number of bits set at the positions from `1` to `n`. -/
def bitsTo (m n : ℕ) : ℕ := (List.range n).countP fun j => m.testBit (j + 1)

section Bits

variable {m n k : ℕ}

@[simp] theorem bitsTo_zero (m : ℕ) : bitsTo m 0 = 0 := rfl

theorem bitsTo_succ (m n : ℕ) : bitsTo m (n + 1) = m / 2 % 2 + bitsTo (m / 2) n := by
  have hbit : (if m.testBit 1 = true then 1 else 0) = m / 2 % 2 := by
    rw [Nat.testBit_succ, Nat.testBit_zero]
    rcases Nat.mod_two_eq_zero_or_one (m / 2) with h | h <;> simp [h]
  have hshift : (fun j => (m / 2).testBit (j + 1)) = fun j => m.testBit (j + 1 + 1) := by
    funext j
    rw [← Nat.testBit_succ]
  unfold bitsTo
  rw [List.range_succ_eq_map, List.countP_cons, List.countP_map, hbit, hshift, Nat.add_comm]
  rfl

theorem bitsTo_mono (m : ℕ) (h : n ≤ k) : bitsTo m n ≤ bitsTo m k :=
  (List.range_sublist.mpr h).countP_le

theorem bitsTo_of_lt (hm : m < 2 ^ 32) (h : 31 ≤ n) : bitsTo m n = bitsTo m 31 := by
  obtain ⟨d, rfl⟩ := Nat.exists_eq_add_of_le h
  unfold bitsTo
  rw [List.range_add, List.countP_append, List.countP_map]
  refine Nat.add_eq_left.mpr (List.countP_eq_zero.mpr fun j _ => ?_)
  have hzero : m.testBit (31 + j + 1) = false :=
    Nat.testBit_lt_two_pow (hm.trans_le (Nat.pow_le_pow_right (by decide) (by omega)))
  simp [hzero]

theorem bitsTo_le (hm : m < 2 ^ 32) (n : ℕ) : bitsTo m n ≤ bitsTo m 31 := by
  rcases Nat.le_total n 31 with h | h
  · exact bitsTo_mono m h
  · exact (bitsTo_of_lt hm h).le

theorem bitsTo_le_self (m n : ℕ) : bitsTo m n ≤ n := by
  have h := (List.range n).countP_le_length (p := fun j => m.testBit (j + 1))
  rwa [List.length_range] at h

theorem popcount_eq (h : m.testBit 0 = true) : popcount m = bitsTo m 31 + 1 := by
  unfold popcount bitsTo
  rw [List.range_succ_eq_map, List.countP_cons, List.countP_map, if_pos h]
  rfl

end Bits

/-! ## The group of an age -/

section Groups

variable {mask age age' : ℕ}

theorem ageGroupLoop_eq (m age i : ℕ) : ageGroupLoop m age i = i + bitsTo m age := by
  induction age generalizing m i with
  | zero => cases m <;> rfl
  | succ age ih =>
    cases m with
    | zero =>
      have hnone : bitsTo 0 (age + 1) = 0 := List.countP_eq_zero.mpr fun j _ => by simp
      rw [hnone]
      rfl
    | succ m =>
      rw [ageGroupLoop, ih, bitsTo_succ]
      omega

theorem getAgeGroup_eq (mask age : ℕ) : getAgeGroup mask age = bitsTo mask age := by
  rw [getAgeGroup, ageGroupLoop_eq, Nat.zero_add]

/-- There is one group more than there are groups above the first. -/
theorem getAgeGroup_le (hm : mask < 2 ^ 32) (h : mask.testBit 0 = true) (age : ℕ) :
    getAgeGroup mask age ≤ popcount mask - 1 := by
  rw [getAgeGroup_eq, popcount_eq h, Nat.add_sub_cancel]
  exact bitsTo_le hm age

theorem getAgeGroup_lt (hm : mask < 2 ^ 32) (age : ℕ) : getAgeGroup mask age < 32 := by
  rw [getAgeGroup_eq]
  exact Nat.lt_succ_of_le ((bitsTo_le hm age).trans (bitsTo_le_self mask 31))

theorem getAgeGroup_mono (h : age ≤ age') : getAgeGroup mask age ≤ getAgeGroup mask age' := by
  rw [getAgeGroup_eq, getAgeGroup_eq]
  exact bitsTo_mono mask h

/-! ## The lowest age of a group -/

theorem lowestAgeLoop_spec {n m group : ℕ} (h : group ≤ bitsTo m n) (lowest : ℕ) :
    ∃ a, lowestAgeLoop n m group lowest = lowest + a ∧ bitsTo m a = group ∧
      ∀ b < a, bitsTo m b < group := by
  induction n generalizing m group lowest with
  | zero => exact ⟨0, rfl, (Nat.le_zero.mp h).symm, fun _ hb => absurd hb (Nat.not_lt_zero _)⟩
  | succ n ih =>
    cases group with
    | zero => exact ⟨0, rfl, rfl, fun _ hb => absurd hb (Nat.not_lt_zero _)⟩
    | succ group =>
      rw [bitsTo_succ] at h
      -- the loop goes on with the groups that are left above the next age
      have hnext : ∃ g, (if m / 2 % 2 = 1 then group else group + 1) = g ∧
          m / 2 % 2 + g = group + 1 := by
        rcases Nat.mod_two_eq_zero_or_one (m / 2) with hbit | hbit
        · exact ⟨group + 1, if_neg (by omega), by omega⟩
        · exact ⟨group, if_pos hbit, by omega⟩
      obtain ⟨g, hg, hsum⟩ := hnext
      obtain ⟨a, hloop, ha, hleast⟩ := @ih (m / 2) g (by omega) (lowest + 1)
      refine ⟨a + 1, ?_, ?_, fun b hb => ?_⟩
      · rw [lowestAgeLoop, hg, hloop]
        omega
      · rw [bitsTo_succ, ha, hsum]
      · cases b with
        | zero => exact Nat.succ_pos _
        | succ b =>
          have hlt := hleast b (by omega)
          rw [bitsTo_succ]
          omega

/-- **The lowest age** is the least age in the group of its argument. -/
theorem getLowestAge_isLeast (hm : mask < 2 ^ 32) (age : ℕ) :
    IsLeast {a | getAgeGroup mask a = getAgeGroup mask (age % 256)} (getLowestAge mask age) := by
  have hle : getAgeGroup mask (age % 256) ≤ bitsTo mask 32 := by
    rw [getAgeGroup_eq]
    exact (bitsTo_le hm _).trans (bitsTo_mono mask (by decide))
  obtain ⟨a, hloop, ha, hleast⟩ := lowestAgeLoop_spec hle 0
  have hlowest : getLowestAge mask age = a := hloop.trans (Nat.zero_add a)
  rw [hlowest]
  refine ⟨(getAgeGroup_eq mask a).trans ha, fun b hb => ?_⟩
  by_contra hlt
  have hsame : getAgeGroup mask b = getAgeGroup mask (age % 256) := hb
  have hsmall := hleast b (not_le.mp hlt)
  rw [← getAgeGroup_eq, hsame] at hsmall
  exact absurd hsmall (lt_irrefl _)

/-- Groups do not change above the last bit. -/
theorem getAgeGroup_min (hm : mask < 2 ^ 32) (age : ℕ) :
    getAgeGroup mask (min age 31) = getAgeGroup mask age := by
  rcases Nat.le_total age 31 with h | h
  · rw [Nat.min_eq_left h]
  · rw [Nat.min_eq_right h, getAgeGroup_eq, getAgeGroup_eq, bitsTo_of_lt hm h]

/-- The loop for the lowest age ends before the bits do. -/
theorem lowestAgeLoop_eq (hm : mask < 2 ^ 32) (age : ℕ) {n : ℕ} (hn : 31 ≤ n) :
    lowestAgeLoop n mask (getAgeGroup mask (age % 256)) 0 = getLowestAge mask age := by
  have hle : ∀ k, 31 ≤ k → getAgeGroup mask (age % 256) ≤ bitsTo mask k := by
    intro k hk
    rw [getAgeGroup_eq]
    exact (bitsTo_le hm _).trans (bitsTo_mono mask hk)
  obtain ⟨a, hloop, ha, hleast⟩ := lowestAgeLoop_spec (hle n hn) 0
  obtain ⟨b, hloop', hb, hleast'⟩ := lowestAgeLoop_spec (hle 32 (by decide)) 0
  have hab : a = b := by
    rcases lt_trichotomy a b with h | h | h
    · exact absurd ha (hleast' a h).ne
    · exact h
    · exact absurd hb (hleast b h).ne
  unfold getLowestAge
  rw [hloop, hloop', hab]

/-- **The boundaries of the groups**: groups grow with the age, and the loop for the lowest age
ends with the least age of the group. -/
theorem ageGroup_boundaries (hm : mask < 2 ^ 32) :
    (∀ a b : UInt8, a ≤ b → getAgeGroup mask a.toNat ≤ getAgeGroup mask b.toNat) ∧
    ∀ age : UInt8,
      (∀ n, 31 ≤ n → lowestAgeLoop n mask (getAgeGroup mask age.toNat) 0 =
        getLowestAge mask age.toNat) ∧
      IsLeast {a | getAgeGroup mask a = getAgeGroup mask (min age.toNat 31)}
        (getLowestAge mask age.toNat) ∧
      getAgeGroup mask (getLowestAge mask age.toNat) = getAgeGroup mask age.toNat := by
  refine ⟨fun a b h => getAgeGroup_mono (UInt8.le_iff_toNat_le.1 h), fun age => ?_⟩
  have hage : age.toNat % 256 = age.toNat := Nat.mod_eq_of_lt age.toNat_lt
  have hleast := getLowestAge_isLeast hm age.toNat
  rw [hage] at hleast
  refine ⟨fun n hn => ?_, ?_, hleast.1⟩
  · have hloop := lowestAgeLoop_eq hm age.toNat hn
    rwa [hage] at hloop
  · rwa [getAgeGroup_min hm]

end Groups

/-- The groups from `0`, `8`, `10` and `12` on: the group of eleven begins at ten. -/
theorem ageGroup_boundaries_sample :
    getAgeGroup 5377 (getLowestAge 5377 11) = getAgeGroup 5377 11 ∧ getLowestAge 5377 11 = 10 := by
  have h := (@ageGroup_boundaries 5377 (by decide)).2 11
  exact ⟨h.2.2, by decide⟩

end TalerExchange
