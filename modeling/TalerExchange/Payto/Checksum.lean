import TalerExchange.Machine.Digits
import TalerExchange.Payto.Iban
import Mathlib.Data.Int.ModEq
import Mathlib.Data.List.TakeWhile
import Mathlib.Tactic.Ring

/-!
# The checksum of an IBAN

An IBAN is right if a number is one modulo `97`: its characters with the first four of them moved to
the end and letters replaced by numbers. The remainder is computed in chunks of sixteen digits. From
the second chunk on the number that is divided is a sum in double precision, which holds `53` bits.

* `ibanNumber`: the number; `IbanText`: the strings that have one;
* `mixedError`, `roundingError`: by how much the sum of a chunk, and the number, are off;
* `ibanChecksum_eq`: the remainder is that of the number with the errors;
* `roundingError_of_exact`, `roundingError_of_length_le`: where there are no errors;
* **`ibanChecksum_iff`**: the remainder is right if and only if the errors are a multiple of `97`.
-/

namespace TalerExchange

/-! ## The number -/

/-- Every letter is replaced by a number of two digits. -/
def expandLetters (cs : List Char) : List Char :=
  cs.flatMap fun c => if 'A' ≤ c ∧ c ≤ 'Z' then Nat.toDigits 10 (c.toNat - 'A'.toNat + 10) else [c]

/-- The digits that the checksum is about. -/
def ibanExpanded (iban : List Char) : List Char := expandLetters (iban.drop 4 ++ iban.take 4)

/-- The number that the checksum is about. -/
def ibanNumber (iban : List Char) : ℕ := Nat.ofDigitChars 10 (ibanExpanded iban) 0

/-- Digits and upper-case letters, with a country. -/
structure IbanText (iban : List Char) : Prop where
  length_ge : 4 ≤ iban.length
  length_le : iban.length ≤ 34
  legal : ∀ c ∈ iban, c.isDigit = true ∨ ('A' ≤ c ∧ c ≤ 'Z')
  country : ∃ c₀ c₁ rest, iban = c₀ :: c₁ :: rest ∧ (c₀, c₁) ∈ countryTable

/-! ## Errors -/

/-- By how much the sum is off that is divided for a chunk, where `remainder` is carried. -/
def mixedError (remainder : ℕ) (chunk : List Char) : ℤ :=
  if remainder = 0 then 0
  else (roundDouble (roundDouble (Nat.ofDigitChars 10 chunk 0) +
      roundDouble (remainder * 10 ^ chunk.length)) : ℤ) -
    (Nat.ofDigitChars 10 chunk 0 + remainder * 10 ^ chunk.length)

/-- By how much the number is off, where `number` has been read; the error of a chunk counts with
the digits that follow. -/
def roundingError : ℕ → ℤ → List Char → ℤ
  | 0, _, _ => 0
  | _, _, [] => 0
  | n + 1, number, nbuf =>
    let chunk := nbuf.take 16
    let error := mixedError (number % 97).toNat chunk
    error * 10 ^ (nbuf.drop 16).length +
      roundingError n (number * 10 ^ chunk.length + Nat.ofDigitChars 10 chunk 0 + error)
        (nbuf.drop 16)

/-! ## The remainder -/

section Remainder

variable {n : ℕ} {number : ℤ} {nbuf : List Char}

theorem ibanChecksum_nil (n remainder : ℕ) : ibanChecksum n remainder [] = remainder := by
  cases n <;> rfl

theorem ibanChecksum_cons (n remainder : ℕ) (c : Char) (cs : List Char) :
    ibanChecksum (n + 1) remainder (c :: cs) =
      ibanChecksum n ((if remainder ≠ 0 then
          roundDouble (roundDouble (Nat.ofDigitChars 10 ((c :: cs).take 16) 0) +
            roundDouble (remainder * 10 ^ ((c :: cs).take 16).length))
        else Nat.ofDigitChars 10 ((c :: cs).take 16) 0) % 97) ((c :: cs).drop 16) := rfl

/-- What is divided for a chunk is the sum with its error. -/
theorem dividend_eq (remainder : ℕ) (chunk : List Char) :
    ((if remainder ≠ 0 then
        roundDouble (roundDouble (Nat.ofDigitChars 10 chunk 0) +
          roundDouble (remainder * 10 ^ chunk.length))
      else Nat.ofDigitChars 10 chunk 0 : ℕ) : ℤ) =
      remainder * 10 ^ chunk.length + Nat.ofDigitChars 10 chunk 0 + mixedError remainder chunk := by
  unfold mixedError
  by_cases hzero : remainder = 0
  · rw [if_neg (not_not.mpr hzero), if_pos hzero, hzero]
    simp
  · rw [if_pos hzero, if_neg hzero]
    ring

theorem ofDigitChars_split (nbuf : List Char) :
    (Nat.ofDigitChars 10 nbuf 0 : ℤ) =
      Nat.ofDigitChars 10 (nbuf.take 16) 0 * 10 ^ (nbuf.drop 16).length +
        Nat.ofDigitChars 10 (nbuf.drop 16) 0 := by
  conv_lhs => rw [← List.take_append_drop 16 nbuf, Nat.ofDigitChars_append,
    Nat.ofDigitChars_eq_ofDigitChars_zero]
  push_cast
  ring

theorem roundingError_nil (n : ℕ) (number : ℤ) : roundingError n number [] = 0 := by
  cases n <;> rfl

theorem roundingError_cons (n : ℕ) (number : ℤ) (c : Char) (cs : List Char) :
    roundingError (n + 1) number (c :: cs) =
      mixedError (number % 97).toNat ((c :: cs).take 16) * 10 ^ ((c :: cs).drop 16).length +
        roundingError n (number * 10 ^ ((c :: cs).take 16).length +
          Nat.ofDigitChars 10 ((c :: cs).take 16) 0 +
          mixedError (number % 97).toNat ((c :: cs).take 16)) ((c :: cs).drop 16) := rfl

theorem natCast_toNat_emod (number : ℤ) : (((number % 97).toNat : ℕ) : ℤ) = number % 97 :=
  Int.toNat_of_nonneg (Int.emod_nonneg _ (by decide))

/-- **The chunks** leave the remainder of the number with all errors. -/
theorem ibanChecksum_eq (hn : nbuf.length ≤ 16 * n) (number : ℤ) :
    (ibanChecksum n (number % 97).toNat nbuf : ℤ) =
      (number * 10 ^ nbuf.length + Nat.ofDigitChars 10 nbuf 0 + roundingError n number nbuf) % 97 := by
  induction n generalizing number nbuf with
  | zero =>
    obtain rfl := List.eq_nil_of_length_eq_zero (Nat.le_zero.mp hn)
    rw [ibanChecksum_nil, roundingError_nil, natCast_toNat_emod, Nat.ofDigitChars_nil]
    simp
  | succ n ih =>
    cases nbuf with
    | nil =>
      rw [ibanChecksum_nil, roundingError_nil, natCast_toNat_emod, Nat.ofDigitChars_nil]
      simp
    | cons c cs =>
      rw [ibanChecksum_cons, roundingError_cons, ofDigitChars_split (c :: cs)]
      have hdividend := dividend_eq (number % 97).toNat ((c :: cs).take 16)
      have hlength : (c :: cs).length = ((c :: cs).take 16).length + ((c :: cs).drop 16).length := by
        rw [← List.length_append, List.take_append_drop]
      have hrest : ((c :: cs).drop 16).length ≤ 16 * n := by
        rw [List.length_drop]
        omega
      rw [hlength]
      generalize (c :: cs).take 16 = chunk at hdividend ⊢
      generalize (c :: cs).drop 16 = rest at hrest ⊢
      rw [natCast_toNat_emod] at hdividend
      generalize mixedError (number % 97).toNat chunk = e at hdividend ⊢
      generalize (if (number % 97).toNat ≠ 0 then _ else _ : ℕ) = dividend at hdividend ⊢
      -- the remainder that is carried is that of all that has been read, with the errors
      have hmod : ((dividend % 97 : ℕ) : ℤ) =
          (number * 10 ^ chunk.length + Nat.ofDigitChars 10 chunk 0 + e) % 97 := by
        push_cast
        rw [hdividend]
        refine Int.ModEq.add_right e (Int.ModEq.add_right _ (Int.ModEq.mul_right _ ?_))
        exact Int.mod_modEq number 97
      have hcarried : dividend % 97 =
          ((number * 10 ^ chunk.length + Nat.ofDigitChars 10 chunk 0 + e) % 97).toNat := by
        rw [← hmod, Int.toNat_natCast]
      rw [hcarried, ih hrest]
      congr 1
      rw [pow_add]
      ring

theorem ibanChecksum_zero (nbuf : List Char) : (ibanChecksum nbuf.length 0 nbuf : ℤ) =
    (Nat.ofDigitChars 10 nbuf 0 + roundingError nbuf.length 0 nbuf) % 97 := by
  have h := @ibanChecksum_eq nbuf.length nbuf (by omega) 0
  rw [Int.zero_mul, Int.zero_add] at h
  exact h

/-- The remainder is that of the number if and only if the errors do not count. -/
theorem ibanChecksum_eq_iff (nbuf : List Char) :
    ibanChecksum nbuf.length 0 nbuf = Nat.ofDigitChars 10 nbuf 0 % 97 ↔
      97 ∣ roundingError nbuf.length 0 nbuf := by
  have h := ibanChecksum_zero nbuf
  constructor
  · intro heq
    rw [heq] at h
    omega
  · intro hdvd
    omega

end Remainder

/-! ## Where there are no errors -/

section Exact

variable {n : ℕ} {nbuf : List Char}

theorem roundDouble_of_lt {x : ℕ} (h : x < 2 ^ 53) : roundDouble x = x := by
  have hlog : x.log2 + 1 - 53 = 0 := by
    rcases Nat.eq_zero_or_pos x with rfl | hpos
    · rfl
    · have hlt := (Nat.log2_lt (Nat.pos_iff_ne_zero.mp hpos)).mpr h
      omega
  unfold roundDouble
  dsimp only
  rw [hlog, pow_zero, Nat.mod_one, Nat.div_one, Nat.mul_one]
  exact if_pos (Or.inl (by decide))

/-- A sum that fits into the significant bits is exact. -/
theorem mixedError_of_lt {remainder : ℕ} {chunk : List Char}
    (h : Nat.ofDigitChars 10 chunk 0 + remainder * 10 ^ chunk.length < 2 ^ 53) :
    mixedError remainder chunk = 0 := by
  unfold mixedError
  split_ifs
  · rfl
  have hvalue : Nat.ofDigitChars 10 chunk 0 < 2 ^ 53 := by omega
  have hcarried : remainder * 10 ^ chunk.length < 2 ^ 53 := by omega
  rw [roundDouble_of_lt hvalue, roundDouble_of_lt hcarried, roundDouble_of_lt h]
  push_cast
  ring

/-- Where the sum of every chunk is exact, the number is. -/
theorem roundingError_of_exact {number : ℕ} (h : ∀ i, 16 * i < nbuf.length →
    mixedError (Nat.ofDigitChars 10 (nbuf.take (16 * i)) number % 97)
      ((nbuf.drop (16 * i)).take 16) = 0) : roundingError n number nbuf = 0 := by
  induction n generalizing number nbuf with
  | zero => rfl
  | succ n ih =>
    cases nbuf with
    | nil => rfl
    | cons c cs =>
      have hfirst := h 0 (Nat.succ_pos _)
      have hcarried : ((number : ℤ) % 97).toNat = number % 97 := by omega
      rw [Nat.mul_zero, List.take_zero, List.drop_zero, Nat.ofDigitChars_nil] at hfirst
      have hread : (number : ℤ) * 10 ^ ((c :: cs).take 16).length +
          Nat.ofDigitChars 10 ((c :: cs).take 16) 0 =
          (Nat.ofDigitChars 10 ((c :: cs).take 16) number : ℕ) := by
        rw [@Nat.ofDigitChars_eq_ofDigitChars_zero _ number]
        push_cast
        ring
      rw [roundingError_cons, hcarried, hfirst, Int.zero_mul, Int.zero_add, Int.add_zero, hread]
      refine ih fun i hi => ?_
      rw [List.length_drop] at hi
      have hnext := h (i + 1) (by omega)
      rw [Nat.mul_succ, Nat.add_comm, List.take_add, Nat.ofDigitChars_append,
        ← List.drop_drop] at hnext
      exact hnext

/-- Up to `29` digits there are no errors: the second chunk has `13` digits at most. -/
theorem roundingError_of_length_le (hlength : nbuf.length ≤ 29)
    (hdigit : ∀ c ∈ nbuf, c.isDigit = true) : roundingError n 0 nbuf = 0 := by
  refine @roundingError_of_exact n nbuf 0 fun i hi => ?_
  rcases Nat.eq_zero_or_pos i with rfl | hpos
  · rfl
  have hchunk : ((nbuf.drop (16 * i)).take 16).length ≤ 13 := by
    rw [List.length_take, List.length_drop]
    omega
  have hvalue := ofDigitChars_lt ((nbuf.drop (16 * i)).take 16) fun c hc =>
    hdigit c (List.mem_of_mem_drop (List.mem_of_mem_take hc))
  have hrem := Nat.mod_lt (Nat.ofDigitChars 10 (nbuf.take (16 * i)) 0) (by decide : 97 > 0)
  refine mixedError_of_lt ?_
  calc _ < 10 ^ ((nbuf.drop (16 * i)).take 16).length +
        96 * 10 ^ ((nbuf.drop (16 * i)).take 16).length :=
      Nat.add_lt_add_of_lt_of_le hvalue (Nat.mul_le_mul_right _ (by omega))
    _ = 97 * 10 ^ ((nbuf.drop (16 * i)).take 16).length := by ring
    _ ≤ 97 * 10 ^ 13 := Nat.mul_le_mul_left _ (Nat.pow_le_pow_right (by decide) hchunk)
    _ < 2 ^ 53 := by decide

end Exact

/-! ## The validation -/

section Validate

variable {iban cs : List Char}

theorem isAlpha_of_isDigit {c : Char} (h : c.isDigit = true) :
    isAlpha c = false ∧ ¬('A' ≤ c ∧ c ≤ 'Z') := by
  have hall : ∀ d < 10, isAlpha (Nat.digitChar d) = false ∧
      ¬('A' ≤ Nat.digitChar d ∧ Nat.digitChar d ≤ 'Z') := by decide
  obtain ⟨hlt, hc⟩ := eq_digitChar h
  rw [hc]
  exact hall _ hlt

theorem letter_number {c : Char} (h : 'A' ≤ c ∧ c ≤ 'Z') :
    isAlpha c = true ∧ c.toNat + 10 - 'A'.toNat = c.toNat - 'A'.toNat + 10 ∧
      (Nat.toDigits 10 (c.toNat - 'A'.toNat + 10)).length = 2 := by
  have hA : 'A'.toNat = 65 := rfl
  have hZ : 'Z'.toNat = 90 := rfl
  have hge : 'A'.toNat ≤ c.toNat := h.1
  have hle : c.toNat ≤ 'Z'.toNat := h.2
  rw [hA] at hge ⊢
  rw [hZ] at hle
  have hall : ∀ v < 36, 10 ≤ v → (Nat.toDigits 10 v).length = 2 := by decide
  refine ⟨?_, by omega, hall _ (by omega) (by omega)⟩
  unfold isAlpha
  rw [decide_eq_true h.1, decide_eq_true h.2, Bool.and_self, Bool.or_true]

/-- The digits of the code are the expanded characters. -/
theorem ibanDigits_eq (h : ∀ c ∈ cs, c.isDigit = true ∨ ('A' ≤ c ∧ c ≤ 'Z')) :
    ibanDigits cs = some (expandLetters cs) := by
  induction cs with
  | nil => rfl
  | cons c cs ih =>
    have hrest := ih fun d hd => h d (List.mem_cons_of_mem c hd)
    have hexpand : expandLetters (c :: cs) = (if 'A' ≤ c ∧ c ≤ 'Z' then
        Nat.toDigits 10 (c.toNat - 'A'.toNat + 10) else [c]) ++ expandLetters cs :=
      List.flatMap_cons
    rw [ibanDigits, hrest, hexpand]
    rcases h c List.mem_cons_self with hdigit | hletter
    · obtain ⟨halpha, hnot⟩ := isAlpha_of_isDigit hdigit
      rw [if_neg (by rw [halpha]; decide), if_neg hnot]
      rfl
    · obtain ⟨halpha, hnumber, htwo⟩ := letter_number hletter
      rw [if_pos halpha, if_pos hletter, hnumber]
      exact if_neg (not_not.mpr htwo)

theorem isDigit_expandLetters (h : ∀ c ∈ cs, c.isDigit = true ∨ ('A' ≤ c ∧ c ≤ 'Z')) :
    ∀ c ∈ expandLetters cs, c.isDigit = true := by
  intro d hd
  obtain ⟨c, hc, hmem⟩ := List.mem_flatMap.mp hd
  split_ifs at hmem with hletter
  · exact Nat.isDigit_of_mem_toDigits (by decide) (by decide) hmem
  · rw [List.mem_singleton.mp hmem]
    exact (h c hc).resolve_right hletter

/-- The validation of a string with a country is that of its checksum. -/
theorem IbanText.validate (h : IbanText iban) : ibanValidate iban = none ↔
    ibanChecksum (ibanExpanded iban).length 0 (ibanExpanded iban) = 1 := by
  obtain ⟨c₀, c₁, rest, hiban, hcountry⟩ := h.country
  have hlength := h.length_ge
  obtain ⟨c₂, c₃, bban, rfl⟩ : ∃ c₂ c₃ bban, rest = c₂ :: c₃ :: bban := by
    rw [hiban, List.length_cons, List.length_cons] at hlength
    rcases rest with _ | ⟨c₂, _ | ⟨c₃, bban⟩⟩
    · rw [List.length_nil] at hlength
      omega
    · rw [List.length_singleton] at hlength
      omega
    · exact ⟨c₂, c₃, bban, rfl⟩
  have hmoved : ibanExpanded iban = expandLetters (bban ++ [c₀, c₁, c₂, c₃]) := by
    rw [hiban]
    rfl
  have hlegal : ∀ c ∈ bban ++ [c₀, c₁, c₂, c₃], c.isDigit = true ∨ ('A' ≤ c ∧ c ≤ 'Z') := by
    intro c hc
    refine h.legal c ?_
    rw [hiban]
    rcases List.mem_append.mp hc with hmem | hmem
    · exact List.mem_append_right [c₀, c₁, c₂, c₃] hmem
    · exact List.mem_append_left bban hmem
  have hdigits : (expandLetters (bban ++ [c₀, c₁, c₂, c₃])).dropWhile Char.isDigit = [] :=
    List.dropWhile_eq_nil_iff.mpr (isDigit_expandLetters hlegal)
  have hle := h.length_le
  rw [hmoved]
  rw [hiban] at hle ⊢
  unfold ibanValidate
  dsimp only
  rw [if_neg (not_lt.mpr hle), if_neg (not_not.mpr hcountry), ibanDigits_eq hlegal]
  dsimp only
  rw [hdigits]
  dsimp only
  split_ifs with hsum
  · exact iff_of_false nofun hsum
  · exact iff_of_true rfl (not_not.mp hsum)

end Validate

/-- **The checksum** is right, and with it the validation, if and only if the errors of the sums in
double precision, each with the digits that follow, are a multiple of `97`. -/
theorem ibanChecksum_iff {iban : List Char} (h : IbanText iban) :
    ((ibanValidate iban = none ↔ ibanNumber iban % 97 = 1) ∧
        ibanChecksum (ibanExpanded iban).length 0 (ibanExpanded iban) = ibanNumber iban % 97) ↔
      97 ∣ roundingError (ibanExpanded iban).length 0 (ibanExpanded iban) := by
  rw [← ibanChecksum_eq_iff, h.validate]
  constructor
  · exact fun hright => hright.2
  · intro hsum
    refine ⟨?_, hsum⟩
    rw [hsum]
    rfl

theorem legal_of_all {iban : List Char}
    (h : (iban.all fun c => c.isDigit || (decide ('A' ≤ c) && decide (c ≤ 'Z'))) = true) :
    ∀ c ∈ iban, c.isDigit = true ∨ ('A' ≤ c ∧ c ≤ 'Z') := by
  intro c hc
  simpa using List.all_eq_true.mp h c hc

theorem ibanText_german : IbanText "DE75512108001245126199".toList where
  length_ge := by decide
  length_le := by decide
  legal := legal_of_all (by decide)
  country := ⟨'D', 'E', _, rfl, by decide⟩

/-- A German number: `24` digits. -/
theorem ibanChecksum_iff_german : ibanValidate "DE75512108001245126199".toList = none ↔
    ibanNumber "DE75512108001245126199".toList % 97 = 1 :=
  ((ibanChecksum_iff ibanText_german).mpr (by
    rw [roundingError_of_length_le (by decide) (List.all_eq_true.mp (by decide))]
    exact Int.dvd_zero 97)).1

theorem ibanText_maltese : IbanText "MT84MALT011000012345MTLCAST001S".toList where
  length_ge := by decide
  length_le := by decide
  legal := legal_of_all (by decide)
  country := ⟨'M', 'T', _, rfl, by decide⟩

/-- A Maltese number, with `45` digits, is right and is rejected. -/
theorem not_ibanChecksum : ¬∀ iban : List Char, IbanText iban →
    (ibanValidate iban = none ↔ ibanNumber iban % 97 = 1) := by
  intro h
  have hnumber : ibanNumber "MT84MALT011000012345MTLCAST001S".toList % 97 = 1 := by decide
  have hrejected : ibanValidate "MT84MALT011000012345MTLCAST001S".toList ≠ none := by decide +kernel
  exact hrejected ((h _ ibanText_maltese).mpr hnumber)

end TalerExchange
