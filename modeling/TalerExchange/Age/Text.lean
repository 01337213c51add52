import Mathlib.Data.List.Sort
import TalerExchange.Age.Commitment
import TalerExchange.Machine.Digits

/-!
# Age masks as text

A mask is configured and published as the list of the ages at which its groups begin, without the
first group, which begins at zero: `8:10:12` is a text of the mask with the bits `0`, `8`, `10` and
`12`.

* `parseAgeGroupString`, `ageMaskToString`: the parser and the printer;
* `AgeGroups`, `ageGroupsText`: the lists of ages that stand for masks, and their texts;
* `parseAgeGroupString_eq_ok`, `ageMaskToString_eq`: what the parser and the printer do;
* **`ageMask_round_trip`**: the parser accepts the texts of lists and nothing else, and both
  directions of the round trip.
-/

namespace TalerExchange

/-! ## The functions -/

/-- `bits |= 1 << val`, on the `32` bits of a mask. -/
def AgeMask.mark (mask : AgeMask) (val : ℕ) : AgeMask where
  bits := mask.bits ||| 2 ^ val % 2 ^ 32
  bits_lt := Nat.or_lt_two_pow mask.bits_lt (Nat.mod_lt _ (Nat.two_pow_pos 32))

/-- The loop of `TALER_parse_age_group_string` and what follows it. An error comes with the bits
that are marked so far. -/
def parseAgeGroupLoop (mask : AgeMask) (prev val : ℕ) : List Char → Except AgeMask AgeMask
  | [] =>
    if 32 ≤ val ∨ val ≤ prev then .error mask
    else .ok ((mask.mark val).mark 0)
  | c :: pos =>
    if c = ':' then
      if val ≤ prev then .error mask
      else parseAgeGroupLoop (mask.mark val) val 0 pos
    else if c.isDigit = false then .error mask
    else
      let next := 10 * val + (c.toNat - '0'.toNat)
      if next = 0 ∨ 32 ≤ next then .error mask
      else parseAgeGroupLoop mask prev next pos

/-- A mask without bits. -/
def AgeMask.none : AgeMask := ⟨0, Nat.two_pow_pos 32⟩

/-- `TALER_parse_age_group_string`. -/
def parseAgeGroupString (groups : List Char) : Except AgeMask AgeMask :=
  parseAgeGroupLoop AgeMask.none 0 0 groups

/-- The character `'0' + n`. -/
def ageDigit (n : ℕ) : Char := Char.ofNat ('0'.toNat + n)

/-- The loop of `TALER_age_mask_to_string`; a mask has `32` bits. -/
def ageMaskLoop : ℕ → ℕ → ℕ → List Char
  | 0, _, _ => []
  | fuel + 1, bits, n =>
    if bits = 0 then []
    else if bits / 2 % 2 = 0 then ageMaskLoop fuel (bits / 2) (n + 1)
    else
      (if 9 < n + 1 then [ageDigit ((n + 1) / 10)] else []) ++ ageDigit ((n + 1) % 10) ::
        ((if bits / 2 / 2 ≠ 0 then [':'] else []) ++ ageMaskLoop fuel (bits / 2) (n + 1))

/-- `TALER_age_mask_to_string`. -/
def ageMaskToString (mask : AgeMask) : List Char := ageMaskLoop 32 mask.bits 0

/-! ## Lists of ages -/

/-- A list of ages at which groups begin: not empty, strictly increasing, from `1` to `31`. -/
structure AgeGroups (ages : List ℕ) : Prop where
  ne_nil : ages ≠ []
  sorted : ages.Pairwise (· < ·)
  range : ∀ age ∈ ages, 1 ≤ age ∧ age ≤ 31

/-- Decimal numbers without leading zeros, separated by colons. -/
def ageGroupsText (ages : List ℕ) : List Char := [':'].intercalate (ages.map (Nat.toDigits 10))

/-- The ages at which the groups of a mask begin, but for the first group. -/
def AgeMask.groups (mask : AgeMask) : List ℕ := (List.range' 1 31).filter mask.bits.testBit

/-- The mask with the bits of a list, and bit `0`. -/
def AgeMask.ofGroups (ages : List ℕ) : AgeMask := (ages.foldl AgeMask.mark AgeMask.none).mark 0

/-! ## Digits -/

/-- The digits of a number that has been begun; none for zero. -/
def digitsSoFar (val : ℕ) : List Char := if val = 0 then [] else Nat.toDigits 10 val

theorem digitsSoFar_snoc {val d : ℕ} (hd : d < 10) (hpos : 10 * val + d ≠ 0)
    (hlt : 10 * val + d < 32) :
    digitsSoFar (10 * val + d) = digitsSoFar val ++ [Nat.digitChar d] := by
  have hall : ∀ v < 4, ∀ d < 10, 10 * v + d ≠ 0 →
      digitsSoFar (10 * v + d) = digitsSoFar v ++ [Nat.digitChar d] := by decide
  exact hall val (by omega) d hd hpos

section Texts

variable {ages : List ℕ} {age : ℕ}

theorem ageGroupsText_singleton (age : ℕ) : ageGroupsText [age] = Nat.toDigits 10 age :=
  List.append_nil _

theorem ageGroupsText_cons (age : ℕ) (hne : ages ≠ []) :
    ageGroupsText (age :: ages) = Nat.toDigits 10 age ++ ':' :: ageGroupsText ages := by
  obtain ⟨next, rest, rfl⟩ := List.exists_cons_of_ne_nil hne
  rfl

end Texts

/-! ## The parser -/

section Parse

variable {mask m : AgeMask} {prev val age : ℕ} {ages : List ℕ} {cs : List Char}

theorem parseAgeGroupLoop_digit {d : ℕ} (hd : d < 10) (hpos : 10 * val + d ≠ 0)
    (hlt : 10 * val + d < 32) :
    parseAgeGroupLoop mask prev val (Nat.digitChar d :: cs) =
      parseAgeGroupLoop mask prev (10 * val + d) cs := by
  have hchar : ∀ d < 10, Nat.digitChar d ≠ ':' ∧ (Nat.digitChar d).isDigit = true ∧
      (Nat.digitChar d).toNat - '0'.toNat = d := by decide
  obtain ⟨hcolon, hdigit, hval⟩ := hchar d hd
  rw [parseAgeGroupLoop, if_neg hcolon, if_neg (by rw [hdigit]; decide), hval]
  exact if_neg (by omega)

theorem parseAgeGroupLoop_digits (hpos : 1 ≤ age) (hle : age ≤ 31) :
    parseAgeGroupLoop mask prev 0 (Nat.toDigits 10 age ++ cs) =
      parseAgeGroupLoop mask prev age cs := by
  rcases Nat.lt_or_ge age 10 with hlt | hge
  · have hsingle := @parseAgeGroupLoop_digit mask prev 0 cs age hlt (by omega) (by omega)
    rw [Nat.toDigits_of_lt_base hlt, List.singleton_append, hsingle, Nat.mul_zero, Nat.zero_add]
  · have hten : age / 10 < 10 := by omega
    have hdigits : Nat.toDigits 10 age = [Nat.digitChar (age / 10), Nat.digitChar (age % 10)] := by
      rw [Nat.toDigits_of_base_le (by decide) hge, Nat.toDigits_of_lt_base hten]
      rfl
    have hfirst := @parseAgeGroupLoop_digit mask prev 0 (Nat.digitChar (age % 10) :: cs) (age / 10)
      hten (by omega) (by omega)
    have hsecond := @parseAgeGroupLoop_digit mask prev (age / 10) cs (age % 10)
      (Nat.mod_lt _ (by decide)) (by omega) (by omega)
    rw [Nat.mul_zero, Nat.zero_add] at hfirst
    rw [hdigits, List.cons_append, List.singleton_append, hfirst, hsecond, Nat.div_add_mod]

/-- The text of a list is read back, and every age is marked. -/
theorem parseAgeGroupLoop_text (hne : ages ≠ []) (hsorted : (prev :: ages).Pairwise (· < ·))
    (hle : ∀ age ∈ ages, age ≤ 31) (mask : AgeMask) :
    parseAgeGroupLoop mask prev 0 (ageGroupsText ages) =
      .ok ((ages.foldl AgeMask.mark mask).mark 0) := by
  induction ages generalizing prev mask with
  | nil => exact absurd rfl hne
  | cons age ages ih =>
    rw [List.pairwise_cons] at hsorted
    have hprev : prev < age := hsorted.1 age List.mem_cons_self
    have hage : age ≤ 31 := hle age List.mem_cons_self
    by_cases hlast : ages = []
    · subst hlast
      rw [ageGroupsText_singleton, ← List.append_nil (Nat.toDigits 10 age),
        parseAgeGroupLoop_digits (by omega) hage, parseAgeGroupLoop, if_neg (by omega)]
      rfl
    · rw [ageGroupsText_cons age hlast, parseAgeGroupLoop_digits (by omega) hage,
        parseAgeGroupLoop, if_pos rfl, if_neg (by omega),
        ih hlast hsorted.2 (fun a ha => hle a (List.mem_cons_of_mem _ ha)), List.foldl_cons]

/-- What is read has the form of a text, from the digits of the number that has been begun on. -/
theorem exists_of_parseAgeGroupLoop (hval : val < 32)
    (h : parseAgeGroupLoop mask prev val cs = .ok m) : ∃ ages, ages ≠ [] ∧
      (prev :: ages).Pairwise (· < ·) ∧ (∀ age ∈ ages, age ≤ 31) ∧
      digitsSoFar val ++ cs = ageGroupsText ages := by
  induction cs generalizing mask prev val with
  | nil =>
    rw [parseAgeGroupLoop] at h
    split_ifs at h with hbad
    have hprev : prev < val := by omega
    refine ⟨[val], List.cons_ne_nil _ _, by simpa using hprev, by simpa using by omega, ?_⟩
    rw [digitsSoFar, if_neg (by omega), ageGroupsText_singleton, List.append_nil]
  | cons c cs ih =>
    rw [parseAgeGroupLoop] at h
    by_cases hcolon : c = ':'
    · rw [if_pos hcolon] at h
      split_ifs at h with hbad
      -- a number ends, and the next one has not begun
      obtain ⟨ages, hne, hsorted, hle, htext⟩ := ih (by decide) h
      rw [List.pairwise_cons] at hsorted
      have hprev : prev < val := by omega
      refine ⟨val :: ages, List.cons_ne_nil _ _, ?_, ?_, ?_⟩
      · refine List.pairwise_cons.mpr ⟨fun a ha => ?_, List.pairwise_cons.mpr hsorted⟩
        rcases List.mem_cons.mp ha with rfl | hmem
        · exact hprev
        · exact hprev.trans (hsorted.1 a hmem)
      · intro a ha
        rcases List.mem_cons.mp ha with rfl | hmem
        · omega
        · exact hle a hmem
      · rw [ageGroupsText_cons val hne, ← htext, hcolon, digitsSoFar, if_neg (by omega)]
        rfl
    · rw [if_neg hcolon] at h
      dsimp only at h
      split_ifs at h with hdigit hnext
      -- one digit more
      rw [Bool.not_eq_false] at hdigit
      obtain ⟨hd, hc⟩ := eq_digitChar hdigit
      rw [not_or, not_le] at hnext
      obtain ⟨ages, hne, hsorted, hle, htext⟩ := ih hnext.2 h
      refine ⟨ages, hne, hsorted, hle, ?_⟩
      rw [← htext, digitsSoFar_snoc hd hnext.1 hnext.2, ← hc, List.append_assoc,
        List.singleton_append]

theorem AgeGroups.parse (h : AgeGroups ages) :
    parseAgeGroupString (ageGroupsText ages) = .ok (AgeMask.ofGroups ages) :=
  parseAgeGroupLoop_text h.ne_nil
    (List.pairwise_cons.mpr ⟨fun a ha => (h.range a ha).1, h.sorted⟩)
    (fun a ha => (h.range a ha).2) AgeMask.none

/-- The parser accepts the texts of lists, and marks their ages. -/
theorem parseAgeGroupString_eq_ok : parseAgeGroupString cs = .ok m ↔
    ∃ ages, AgeGroups ages ∧ cs = ageGroupsText ages ∧ m = AgeMask.ofGroups ages := by
  constructor
  · intro h
    obtain ⟨ages, hne, hsorted, hle, htext⟩ := exists_of_parseAgeGroupLoop (by decide) h
    rw [List.pairwise_cons] at hsorted
    have hages : AgeGroups ages := ⟨hne, hsorted.2, fun a ha => ⟨hsorted.1 a ha, hle a ha⟩⟩
    have hcs : cs = ageGroupsText ages := htext
    refine ⟨ages, hages, hcs, ?_⟩
    have hparse := hages.parse
    rw [← hcs, h] at hparse
    exact Except.ok.inj hparse
  · rintro ⟨ages, hages, rfl, rfl⟩
    exact hages.parse

end Parse

/-! ## Masks and lists -/

section Masks

variable {mask m : AgeMask} {val i : ℕ} {ages : List ℕ}

theorem AgeMask.ext_testBit (h : ∀ i, mask.bits.testBit i = m.bits.testBit i) : mask = m := by
  cases mask
  cases m
  congr 1
  exact Nat.eq_of_testBit_eq h

theorem AgeMask.testBit_mark (hval : val < 32) :
    (mask.mark val).bits.testBit i = (mask.bits.testBit i || decide (val = i)) := by
  have hlt : 2 ^ val < 2 ^ 32 := Nat.pow_lt_pow_right (by decide) hval
  rw [AgeMask.mark, Nat.testBit_or, Nat.mod_eq_of_lt hlt, Nat.testBit_two_pow]

theorem AgeMask.testBit_foldl_mark (hages : ∀ age ∈ ages, age ≤ 31) (mask : AgeMask) :
    (ages.foldl AgeMask.mark mask).bits.testBit i = true ↔
      mask.bits.testBit i = true ∨ i ∈ ages := by
  induction ages generalizing mask with
  | nil => simp
  | cons age ages ih =>
    have hage : age < 32 := Nat.lt_succ_of_le (hages age List.mem_cons_self)
    rw [List.foldl_cons, ih (fun a ha => hages a (List.mem_cons_of_mem _ ha)),
      AgeMask.testBit_mark hage, Bool.or_eq_true, decide_eq_true_eq, List.mem_cons, or_assoc,
      eq_comm (a := age)]

theorem AgeMask.testBit_ofGroups (hages : ∀ age ∈ ages, age ≤ 31) :
    (AgeMask.ofGroups ages).bits.testBit i = true ↔ i = 0 ∨ i ∈ ages := by
  have hnone : ¬ AgeMask.none.bits.testBit i = true := by simp [AgeMask.none]
  rw [AgeMask.ofGroups, AgeMask.testBit_mark (by decide), Bool.or_eq_true, decide_eq_true_eq,
    AgeMask.testBit_foldl_mark hages, or_iff_right hnone, or_comm, eq_comm (a := 0)]

theorem AgeMask.mem_groups : i ∈ mask.groups ↔ (1 ≤ i ∧ i ≤ 31) ∧ mask.bits.testBit i = true := by
  rw [AgeMask.groups, List.mem_filter, List.mem_range'_1]
  exact and_congr_left fun _ => and_congr_right fun _ => Nat.lt_succ_iff

theorem AgeMask.groups_pairwise (mask : AgeMask) : mask.groups.Pairwise (· < ·) :=
  (List.pairwise_lt_range' _).filter _

theorem AgeMask.testBit_le (h : mask.bits.testBit i = true) : i ≤ 31 := by
  by_contra hlt
  have hzero : mask.bits.testBit i = false := Nat.testBit_lt_two_pow
    (mask.bits_lt.trans_le (Nat.pow_le_pow_right (by decide) (by omega)))
  rw [hzero] at h
  exact absurd h (by decide)

theorem AgeGroups.groups_ofGroups (h : AgeGroups ages) : (AgeMask.ofGroups ages).groups = ages := by
  refine (AgeMask.groups_pairwise _).eq_of_mem_iff h.sorted fun i => ?_
  rw [AgeMask.mem_groups, AgeMask.testBit_ofGroups fun a ha => (h.range a ha).2]
  constructor
  · rintro ⟨⟨hpos, -⟩, rfl | hmem⟩
    · exact absurd hpos (by decide)
    · exact hmem
  · exact fun hmem => ⟨h.range i hmem, Or.inr hmem⟩

theorem AgeMask.ofGroups_groups (hbit : mask.bits.testBit 0 = true) :
    AgeMask.ofGroups mask.groups = mask := by
  refine AgeMask.ext_testBit fun i => Bool.eq_iff_iff.mpr ?_
  rw [AgeMask.testBit_ofGroups fun a ha => (AgeMask.mem_groups.mp ha).1.2, AgeMask.mem_groups]
  constructor
  · rintro (rfl | ⟨-, hi⟩)
    · exact hbit
    · exact hi
  · intro hi
    rcases Nat.eq_zero_or_pos i with hzero | hpos
    · exact Or.inl hzero
    · exact Or.inr ⟨⟨hpos, AgeMask.testBit_le hi⟩, hi⟩

theorem AgeMask.groups_ageGroups (hbit : mask.bits.testBit 0 = true) (hmore : mask.bits ≠ 1) :
    AgeGroups mask.groups where
  ne_nil := by
    intro hnil
    have hmask := AgeMask.ofGroups_groups hbit
    rw [hnil] at hmask
    exact hmore (congrArg AgeMask.bits hmask).symm
  sorted := mask.groups_pairwise
  range _ ha := (AgeMask.mem_groups.mp ha).1

end Masks

/-! ## The printer -/

section Print

variable {mask : AgeMask} {fuel bits n : ℕ}

/-- The ages above `n` at which groups begin, where bit `i` stands for the age `n + i`. -/
def groupsAbove (fuel bits n : ℕ) : List ℕ :=
  (List.range' (n + 1) fuel).filter fun age => bits.testBit (age - n)

theorem groupsAbove_succ (fuel bits n : ℕ) : groupsAbove (fuel + 1) bits n =
    (if bits / 2 % 2 = 1 then [n + 1] else []) ++ groupsAbove fuel (bits / 2) (n + 1) := by
  have hrest : (List.range' (n + 1 + 1) fuel).filter (fun age => bits.testBit (age - n)) =
      groupsAbove fuel (bits / 2) (n + 1) := by
    refine List.filter_congr fun age hmem => ?_
    have hle := (List.mem_range'_1.mp hmem).1
    rw [show age - n = age - (n + 1) + 1 by omega, Nat.testBit_succ]
  have hfirst : bits.testBit (n + 1 - n) = decide (bits / 2 % 2 = 1) := by
    rw [Nat.add_sub_cancel_left, Nat.testBit_succ, Nat.testBit_zero]
  rw [groupsAbove, List.range'_succ, List.filter_cons, hfirst, hrest]
  simp only [decide_eq_true_eq]
  split_ifs <;> rfl

/-- Ages follow if and only if bits above the next one are set. -/
theorem groupsAbove_ne_nil (hbits : bits < 2 ^ (fuel + 1)) :
    groupsAbove fuel bits n ≠ [] ↔ bits / 2 ≠ 0 := by
  rw [← List.length_pos_iff, List.length_pos_iff_exists_mem]
  constructor
  · rintro ⟨age, hmem⟩ hzero
    obtain ⟨hrange, hbit⟩ := List.mem_filter.mp hmem
    have hle := (List.mem_range'_1.mp hrange).1
    rw [show age - n = age - n - 1 + 1 by omega, Nat.testBit_succ, hzero,
      Nat.zero_testBit] at hbit
    exact absurd hbit (by decide)
  · intro hpos
    obtain ⟨i, hi⟩ := Nat.exists_testBit_of_ne_zero hpos
    rw [← Nat.testBit_succ] at hi
    have hlt : i < fuel := by
      by_contra hge
      have hzero : bits.testBit (i + 1) = false := Nat.testBit_lt_two_pow
        (hbits.trans_le (Nat.pow_le_pow_right (by decide) (by omega)))
      rw [hzero] at hi
      exact absurd hi (by decide)
    refine ⟨n + (i + 1), List.mem_filter.mpr ⟨List.mem_range'_1.mpr (by omega), ?_⟩⟩
    rwa [Nat.add_sub_cancel_left]

theorem toDigits_eq_ageDigit {age : ℕ} (hle : age ≤ 31) :
    (if 9 < age then [ageDigit (age / 10)] else []) ++ [ageDigit (age % 10)] =
      Nat.toDigits 10 age := by
  have hall : ∀ age < 32, (if 9 < age then [ageDigit (age / 10)] else []) ++
      [ageDigit (age % 10)] = Nat.toDigits 10 age := by decide
  exact hall age (Nat.lt_succ_of_le hle)

/-- The loop prints the text of the ages that are left. -/
theorem ageMaskLoop_eq (hbits : bits < 2 ^ (fuel + 1)) (hn : n + fuel ≤ 31) :
    ageMaskLoop (fuel + 1) bits n = ageGroupsText (groupsAbove fuel bits n) := by
  induction fuel generalizing bits n with
  | zero =>
    have hhalf : bits / 2 % 2 = 0 := by omega
    rw [ageMaskLoop, if_pos hhalf]
    exact ite_self _
  | succ fuel ih =>
    have hhalf : bits / 2 < 2 ^ (fuel + 1) := by
      rw [pow_succ] at hbits
      omega
    have hnext := ih hhalf (by omega : n + 1 + fuel ≤ 31)
    have hsep := @groupsAbove_ne_nil fuel (bits / 2) (n + 1) hhalf
    rw [ageMaskLoop, groupsAbove_succ, hnext]
    by_cases hzero : bits = 0
    · subst hzero
      have hnil : groupsAbove fuel (0 / 2) (n + 1) = [] := by
        by_contra hne
        exact hsep.mp hne rfl
      rw [if_pos rfl, hnil]
      rfl
    rw [if_neg hzero]
    rcases Nat.mod_two_eq_zero_or_one (bits / 2) with hclear | hset
    · rw [if_pos hclear, if_neg (by omega), List.nil_append]
    · rw [if_neg (by omega), if_pos hset, List.singleton_append]
      have hdigits := @toDigits_eq_ageDigit (n + 1) (by omega)
      by_cases hlast : bits / 2 / 2 = 0
      · have hnil : groupsAbove fuel (bits / 2) (n + 1) = [] := by
          by_contra hne
          exact hsep.mp hne hlast
        rw [hnil, if_neg (not_not.mpr hlast), ageGroupsText_singleton, ← hdigits]
        rfl
      · rw [ageGroupsText_cons _ (hsep.mpr hlast), if_pos hlast, ← hdigits, List.append_assoc]
        rfl

theorem ageMaskToString_eq (mask : AgeMask) :
    ageMaskToString mask = ageGroupsText mask.groups :=
  ageMaskLoop_eq mask.bits_lt (by decide)

end Print

/-! ## Round trips -/

/-- **Masks and texts**: what is printed for a mask with further groups is read back as the mask,
the parser accepts the texts of lists of ages and nothing else, and what it makes of a text is
printed as that text. -/
theorem ageMask_round_trip :
    (∀ mask : AgeMask, mask.bits.testBit 0 = true →
      (∃ i, i ≠ 0 ∧ mask.bits.testBit i = true) →
      parseAgeGroupString (ageMaskToString mask) = .ok mask) ∧
    ∀ groups : List Char,
      ((∃ mask, parseAgeGroupString groups = .ok mask) ↔
        ∃ ages, AgeGroups ages ∧ groups = ageGroupsText ages) ∧
      ∀ mask, parseAgeGroupString groups = .ok mask → ageMaskToString mask = groups := by
  refine ⟨fun mask hbit hmore => ?_, fun groups => ⟨⟨?_, ?_⟩, fun mask h => ?_⟩⟩
  · have hne : mask.bits ≠ 1 := by
      obtain ⟨i, hpos, hi⟩ := hmore
      intro hone
      rw [hone, Nat.testBit_one_eq_true_iff_self_eq_zero] at hi
      exact hpos hi
    have hparse := (AgeMask.groups_ageGroups hbit hne).parse
    rwa [AgeMask.ofGroups_groups hbit, ← ageMaskToString_eq] at hparse
  · rintro ⟨mask, h⟩
    obtain ⟨ages, hages, htext, -⟩ := parseAgeGroupString_eq_ok.mp h
    exact ⟨ages, hages, htext⟩
  · rintro ⟨ages, hages, rfl⟩
    exact ⟨_, hages.parse⟩
  · obtain ⟨ages, hages, htext, hmask⟩ := parseAgeGroupString_eq_ok.mp h
    rw [ageMaskToString_eq, hmask, hages.groups_ofGroups, htext]

/-- The groups from `0`, `8`, `10` and `12` on. -/
theorem ageMask_round_trip_sample :
    parseAgeGroupString "8:10:12".toList = .ok ⟨5377, by decide⟩ ∧
      ageMaskToString ⟨5377, by decide⟩ = "8:10:12".toList := by
  have hparse : parseAgeGroupString "8:10:12".toList = .ok ⟨5377, by decide⟩ := by
    decide
  exact ⟨hparse, (ageMask_round_trip.2 _).2 _ hparse⟩

end TalerExchange
