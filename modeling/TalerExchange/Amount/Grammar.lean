import TalerExchange.Machine.Digits
import TalerExchange.Amount.Text
import Mathlib.Data.List.TakeWhile

/-!
# The grammar of amounts

What `TALER_string_to_amount` accepts.

* `AmountText`: white space, a currency, a colon and a decimal number, with its number of units;
* `parseValue_eq_some`, `parseFraction_eq_some`: the loops accept digits;
* `parseValueIn`, `parseFractionIn`, `stringToAmountIn`: the parser with its arithmetic made
  explicit;
* **`stringToAmount_grammar`**: exactly the texts of the grammar are accepted, an amount is read as
  the number it denotes, and nothing wraps.
-/

namespace TalerExchange

namespace RawAmount

/-- The text of an amount, by its parts. -/
structure AmountText where
  space : List Char
  currency : List Char
  whole : List Char
  fraction : Option (List Char)
  space_isSpace : ∀ c ∈ space, isSpace c = true
  currency_letter : ∀ c ∈ currency, 'A' ≤ c ∧ c ≤ 'Z'
  currency_length : 1 ≤ currency.length ∧ currency.length ≤ 11
  whole_digit : ∀ c ∈ whole, c.isDigit = true
  whole_le : Nat.ofDigitChars 10 whole 0 ≤ maxValue
  fraction_digit : ∀ f ∈ fraction, ∀ c ∈ f, c.isDigit = true
  fraction_length : ∀ f ∈ fraction, 1 ≤ f.length ∧ f.length ≤ 8
  some_digit : fraction = none → whole ≠ []

namespace AmountText

/-- The characters after the integer part. -/
def tail (t : AmountText) : List Char :=
  match t.fraction with
  | none => []
  | some f => '.' :: f

/-- The string. -/
def text (t : AmountText) : List Char := t.space ++ (t.currency ++ ':' :: (t.whole ++ t.tail))

/-- The fraction in units of `10⁻⁸`. -/
def fractionUnits (t : AmountText) : ℕ :=
  match t.fraction with
  | none => 0
  | some f => Nat.ofDigitChars 10 f 0 * 10 ^ (8 - f.length)

/-- The number, in units of `10⁻⁸`. -/
def units (t : AmountText) : ℕ := Nat.ofDigitChars 10 t.whole 0 * fracBase + t.fractionUnits

end AmountText

/-! ## The loops -/

theorem digit?_eq_some {c : Char} {n : ℕ} (h : digit? c = some n) :
    c.isDigit = true ∧ n = c.toNat - '0'.toNat := by
  unfold digit? at h
  split_ifs at h with hc
  cases h
  obtain ⟨h₀, h₉⟩ := not_or.1 hc
  refine ⟨?_, rfl⟩
  unfold Char.isDigit
  rw [Bool.and_eq_true, decide_eq_true_eq, decide_eq_true_eq]
  exact ⟨Char.not_lt.1 h₀, Char.not_lt.1 h₉⟩

/-- The loop over the value reads the digits up to the dot or the end. -/
theorem parseValue_eq_some : ∀ (value : List Char) (v : BitVec 64) {w : BitVec 64}
    {rest : Option (List Char)}, v.toNat ≤ maxValue → parseValue v value = some (w, rest) →
      ∃ ds, (∀ c ∈ ds, c.isDigit = true) ∧ value = ds ++ (rest.elim [] ('.' :: ·)) ∧
        Nat.ofDigitChars 10 ds v.toNat = w.toNat
  | [], v, w, rest, hv, h => by
    cases h
    exact ⟨[], fun _ h => absurd h List.not_mem_nil, rfl, Nat.ofDigitChars_nil⟩
  | c :: value, v, w, rest, hv, h => by
    by_cases hdot : c = '.'
    · rw [parseValue, if_pos hdot] at h
      cases h
      exact ⟨[], fun _ h => absurd h List.not_mem_nil, by rw [hdot]; rfl, Nat.ofDigitChars_nil⟩
    · cases hc : digit? c with
      | none =>
        rw [parseValue, if_neg hdot, hc] at h
        cases h
      | some n =>
        rw [parseValue_digit value hv hdot hc] at h
        split_ifs at h with hmax
        obtain ⟨-, hshift⟩ := toNat_shift hv (digit?_lt hc)
        obtain ⟨hdigit, hn⟩ := digit?_eq_some hc
        obtain ⟨ds, hds, hvalue, hw⟩ :=
          parseValue_eq_some value _ (hshift.trans_le (not_lt.1 hmax)) h
        refine ⟨c :: ds, ?_, by rw [hvalue, List.cons_append], ?_⟩
        · intro x hx
          rcases List.mem_cons.1 hx with rfl | hx
          · exact hdigit
          · exact hds x hx
        · rw [Nat.ofDigitChars_cons, Nat.mul_comm, ← hn, ← hshift, hw]

/-- One more digit of the fraction: it does not wrap, and leaves room for the digits to come. -/
theorem fraction_step {b f : BitVec 32} {n : ℕ} (hb : b ≠ 0)
    (hf : f.toNat + 10 * b.toNat ≤ fracBase)
    (hn : n < 10) :
    (BitVec.ofNat 32 n * b).toNat = n * b.toNat ∧
      (f + BitVec.ofNat 32 n * b).toNat = f.toNat + n * b.toNat ∧
      (f + BitVec.ofNat 32 n * b).toNat + 10 * (b / 10).toNat ≤ fracBase ∧
      n * b.toNat < 2 ^ 32 := by
  dsimp only [fracBase] at *
  have hpos : 0 < b.toNat := Nat.pos_of_ne_zero fun h => hb (BitVec.eq_of_toNat_eq h)
  have hle : n * b.toNat ≤ 9 * b.toNat := Nat.mul_le_mul_right _ (by omega)
  have hmul : (BitVec.ofNat 32 n * b).toNat = n * b.toNat := by
    rw [BitVec.toNat_mul, BitVec.toNat_ofNat, Nat.mod_eq_of_lt (show n < 2 ^ 32 by omega)]
    exact Nat.mod_eq_of_lt (by omega)
  have hadd : (f + BitVec.ofNat 32 n * b).toNat = f.toNat + n * b.toNat := by
    rw [BitVec.toNat_add, hmul]
    exact Nat.mod_eq_of_lt (by omega)
  have hdiv : (b / 10).toNat = b.toNat / 10 := BitVec.toNat_udiv
  exact ⟨hmul, hadd, by omega, by omega⟩

/-- The loop over the fraction reads as many digits as there are left. -/
theorem parseFraction_eq_some : ∀ (value : List Char) (i : ℕ) (b f : BitVec 32) {g : BitVec 32},
    b.toNat = 10 ^ i / 10 → f.toNat + 10 * b.toNat ≤ fracBase →
      (parseFraction b f value = some g ↔ value.length ≤ i ∧ (∀ c ∈ value, c.isDigit = true) ∧
        g.toNat = f.toNat + Nat.ofDigitChars 10 value 0 * 10 ^ (i - value.length))
  | [], i, b, f, g, hb, hf => by
    rw [parseFraction, Option.some.injEq, ← BitVec.toNat_inj, Nat.ofDigitChars_nil, Nat.zero_mul,
      Nat.add_zero]
    exact ⟨fun h => ⟨Nat.zero_le i, fun _ h => absurd h List.not_mem_nil, h.symm⟩,
      fun h => h.2.2.symm⟩
  | c :: value, i, b, f, g, hb, hf => by
    rw [parseFraction]
    cases i with
    | zero =>
      rw [if_pos (BitVec.eq_of_toNat_eq hb)]
      exact iff_of_false (fun h => by cases h) fun h => Nat.not_succ_le_zero _ h.1
    | succ i =>
      have hpow : 0 < 10 ^ i := Nat.pow_pos (by decide)
      have hb₁ : b.toNat = 10 ^ i := by rw [hb, pow_succ, Nat.mul_div_cancel _ (by decide)]
      have hne : b ≠ 0 := by
        rintro rfl
        exact hpow.ne hb₁
      rw [if_neg hne]
      cases hc : digit? c with
      | none =>
        refine iff_of_false (fun h => by cases h) fun h => ?_
        rw [digit?_of_isDigit (h.2.1 c List.mem_cons_self)] at hc
        cases hc
      | some n =>
        obtain ⟨hdigit, hn⟩ := digit?_eq_some hc
        obtain ⟨-, hadd, hroom, -⟩ := fraction_step hne hf (digit?_lt hc)
        have hdiv : (b / 10).toNat = 10 ^ i / 10 := by
          rw [BitVec.toNat_udiv, hb₁]
          rfl
        have hvalue : Nat.ofDigitChars 10 (c :: value) 0 =
            10 ^ value.length * n + Nat.ofDigitChars 10 value 0 := by
          rw [Nat.ofDigitChars_cons, Nat.mul_zero, Nat.zero_add, ← hn,
            Nat.ofDigitChars_eq_ofDigitChars_zero]
        refine (parseFraction_eq_some value i _ _ hdiv hroom).trans ?_
        rw [hadd, hb₁, hvalue, List.length_cons, List.forall_mem_cons, Nat.add_sub_add_right,
          Nat.succ_le_succ_iff]
        refine and_congr_right fun hlen => and_congr (and_iff_right hdigit).symm ?_
        rw [Nat.add_mul, Nat.mul_right_comm, ← pow_add, Nat.add_sub_cancel' hlen, Nat.mul_comm n,
          Nat.add_assoc]

/-! ## The arithmetic of the parser -/

/-- The loop over the value with its products and sums. -/
def parseValueIn (word : WordRule) :
    BitVec 64 → List Char → Except Fault (Option (BitVec 64 × Option (List Char)))
  | v, [] => .ok (some (v, none))
  | v, c :: value =>
    if c = '.' then .ok (some (v, some value))
    else match digit? c with
      | none => .ok none
      | some n => do
        let tens ← word 64 (v.toNat * 10 : ℕ)
        let next ← word 64 (tens.toNat + n : ℕ)
        if tens < v ∨ next < v ∨ v.toNat > maxValue ∨ next.toNat > maxValue then .ok none
        else parseValueIn word next value

/-- The loop over the fraction with its products and sums. -/
def parseFractionIn (word : WordRule) :
    BitVec 32 → BitVec 32 → List Char → Except Fault (Option (BitVec 32))
  | _, f, [] => .ok (some f)
  | b, f, c :: value =>
    if b = 0 then .ok none
    else match digit? c with
      | none => .ok none
      | some n => do
        let part ← word 32 (n * b.toNat : ℕ)
        let next ← word 32 (f.toNat + part.toNat : ℕ)
        parseFractionIn word (b / 10) next value

/-- `TALER_string_to_amount` with its products and sums. -/
def stringToAmountIn (word : WordRule) (amount : RawAmount) (str : List Char) :
    Except Fault (Generic × RawAmount) :=
  let str := str.dropWhile isSpace
  let cur := str.takeWhile (· ≠ ':')
  match str.dropWhile (· ≠ ':') with
  | [] => .ok (.sysErr, invalid)
  | _ :: value =>
    if cur = [] ∨ cur.length ≥ currencyLen then .ok (.sysErr, invalid)
    else if checkCurrency cur ≠ .ok then .ok (.sysErr, { amount with currency := cur })
    else if value = [] then .ok (.sysErr, invalid)
    else do
      match ← parseValueIn word 0 value with
      | none => .ok (.sysErr, invalid)
      | some (v, none) => .ok (.ok, ⟨v, 0, cur⟩)
      | some (_, some []) => .ok (.sysErr, invalid)
      | some (v, some (c :: tail)) =>
        match ← parseFractionIn word (BitVec.ofNat 32 (fracBase / 10)) 0 (c :: tail) with
        | none => .ok (.sysErr, invalid)
        | some f => .ok (.ok, ⟨v, f, cur⟩)

section Exact

variable {word : WordRule} (hw : ExactInRange word)
include hw

theorem parseValueIn_eq : ∀ (value : List Char) (v : BitVec 64), v.toNat ≤ maxValue →
    parseValueIn word v value = .ok (parseValue v value)
  | [], v, _ => rfl
  | c :: value, v, hv => by
    rw [parseValueIn, parseValue]
    by_cases hdot : c = '.'
    · rw [if_pos hdot, if_pos hdot]
    rw [if_neg hdot, if_neg hdot]
    cases hc : digit? c with
    | none => rfl
    | some n =>
      obtain ⟨htens, hnext⟩ := toNat_shift hv (digit?_lt hc)
      have hn := digit?_lt hc
      dsimp only [maxValue] at hv
      obtain ⟨t, ht₁, ht₂⟩ := hw.store (w := 64) (x := (v.toNat * 10 : ℕ))
        (Int.natCast_nonneg _) (by omega)
      obtain rfl : v * 10 = t := BitVec.eq_of_toNat_eq (by omega)
      obtain ⟨x, hx₁, hx₂⟩ := hw.store (w := 64) (x := ((v * 10).toNat + n : ℕ))
        (Int.natCast_nonneg _) (by omega)
      obtain rfl : v * 10 + BitVec.ofNat 64 n = x := BitVec.eq_of_toNat_eq (by omega)
      simp only [ht₁, hx₁, bind, Except.bind]
      split_ifs with hmax
      · rfl
      · obtain ⟨-, -, -, hle⟩ := (by simpa only [not_or, not_lt] using hmax)
        exact parseValueIn_eq value _ hle

theorem parseFractionIn_eq : ∀ (value : List Char) (b f : BitVec 32),
    f.toNat + 10 * b.toNat ≤ fracBase →
      parseFractionIn word b f value = .ok (parseFraction b f value)
  | [], b, f, _ => rfl
  | c :: value, b, f, hf => by
    rw [parseFractionIn, parseFraction]
    by_cases hb : b = 0
    · rw [if_pos hb, if_pos hb]
    rw [if_neg hb, if_neg hb]
    cases hc : digit? c with
    | none => rfl
    | some n =>
      obtain ⟨hmul, hadd, hroom, hlt⟩ := fraction_step hb hf (digit?_lt hc)
      dsimp only [fracBase] at hroom
      obtain ⟨t, ht₁, ht₂⟩ := hw.store (w := 32) (x := (n * b.toNat : ℕ))
        (Int.natCast_nonneg _) (by omega)
      obtain rfl : BitVec.ofNat 32 n * b = t := BitVec.eq_of_toNat_eq (by omega)
      obtain ⟨x, hx₁, hx₂⟩ := hw.store (w := 32)
        (x := (f.toNat + (BitVec.ofNat 32 n * b).toNat : ℕ)) (Int.natCast_nonneg _) (by omega)
      obtain rfl : f + BitVec.ofNat 32 n * b = x := BitVec.eq_of_toNat_eq (by omega)
      simp only [ht₁, hx₁, bind, Except.bind]
      exact parseFractionIn_eq value _ _ hroom

theorem stringToAmountIn_eq (old : RawAmount) (str : List Char) :
    stringToAmountIn word old str = .ok (stringToAmount old str) := by
  unfold stringToAmountIn stringToAmount
  dsimp only
  cases (str.dropWhile isSpace).dropWhile (· ≠ ':') with
  | nil => rfl
  | cons c value =>
    dsimp only
    split_ifs
    · rfl
    · rfl
    · rfl
    · rw [parseValueIn_eq hw value 0 (Nat.zero_le _)]
      rcases parseValue 0 value with _ | ⟨v, _ | _ | ⟨d, tail⟩⟩
      · rfl
      · rfl
      · rfl
      · simp only [bind, Except.bind, parseFractionIn_eq hw (d :: tail)
          (BitVec.ofNat 32 (fracBase / 10)) 0 (by decide)]
        cases parseFraction (BitVec.ofNat 32 (fracBase / 10)) 0 (d :: tail) <;> rfl

end Exact

/-! ## The parser -/

namespace AmountText

variable (t : AmountText)

theorem fractionUnits_lt : t.fractionUnits < fracBase := by
  unfold fractionUnits
  cases hf : t.fraction with
  | none => exact Nat.succ_pos _
  | some f =>
    have hlt := ofDigitChars_lt f (t.fraction_digit f hf)
    have hpow : 10 ^ f.length * 10 ^ (8 - f.length) = fracBase := by
      rw [← pow_add, Nat.add_sub_cancel' (t.fraction_length f hf).2]
      rfl
    rw [← hpow]
    exact Nat.mul_lt_mul_of_pos_right hlt (Nat.pow_pos (by decide))

theorem parseValue_text : parseValue 0 (t.whole ++ t.tail) =
    some (BitVec.ofNat 64 (Nat.ofDigitChars 10 t.whole 0), t.fraction) := by
  have h := parseValue_digits t.tail t.whole 0 t.whole_digit t.whole_le
  refine h.trans ?_
  unfold tail
  cases t.fraction with
  | none => rfl
  | some f => rw [parseValue, if_pos rfl]; rfl

/-- The parts of the number are those that are read. -/
theorem eq_ofUnits_text {g : BitVec 32} (hg : g.toNat = t.fractionUnits) :
    (⟨BitVec.ofNat 64 (Nat.ofDigitChars 10 t.whole 0), g, t.currency⟩ : RawAmount) =
      ofUnits t.units t.currency := by
  have hle := t.whole_le
  have hlt := t.fractionUnits_lt
  have hv : (BitVec.ofNat 64 (Nat.ofDigitChars 10 t.whole 0)).toNat =
      Nat.ofDigitChars 10 t.whole 0 :=
    Nat.mod_eq_of_lt ((Nat.lt_succ_of_le hle).trans (by decide))
  refine eq_ofUnits ?_ ?_
  · unfold units
    dsimp only [fracBase] at *
    omega
  · unfold units
    dsimp only [fracBase] at *
    omega

end AmountText

/-- A text of the grammar is read as the number it denotes. -/
theorem stringToAmount_of_text (old : RawAmount) (t : AmountText) :
    stringToAmount old t.text = (.ok, ofUnits t.units t.currency) := by
  have hne : t.currency ≠ [] := List.ne_nil_of_length_pos t.currency_length.1
  have hlegal : checkCurrency t.currency = .ok :=
    checkCurrency_eq_ok.2 ⟨Nat.lt_succ_of_le t.currency_length.2, t.currency_letter⟩
  have hvalue : t.whole ++ t.tail ≠ [] := by
    unfold AmountText.tail
    cases hf : t.fraction with
    | none => exact List.append_ne_nil_of_left_ne_nil (t.some_digit hf) _
    | some f => exact List.append_ne_nil_of_right_ne_nil _ (List.cons_ne_nil _ _)
  have hspace : stringToAmount old t.text =
      stringToAmount old (t.currency ++ ':' :: (t.whole ++ t.tail)) := by
    unfold stringToAmount AmountText.text
    rw [List.dropWhile_append_of_pos t.space_isSpace]
  rw [hspace, stringToAmount_currency old hne hlegal hvalue, t.parseValue_text]
  cases hf : t.fraction with
  | none =>
    have hzero : t.fractionUnits = 0 := by
      unfold AmountText.fractionUnits
      rw [hf]
    dsimp only
    rw [t.eq_ofUnits_text (hzero ▸ rfl)]
  | some f =>
    obtain ⟨h₁, h₈⟩ := t.fraction_length f hf
    have hfrac : t.fractionUnits = Nat.ofDigitChars 10 f 0 * 10 ^ (8 - f.length) := by
      unfold AmountText.fractionUnits
      rw [hf]
    have hg : (BitVec.ofNat 32 t.fractionUnits).toNat = t.fractionUnits :=
      Nat.mod_eq_of_lt (t.fractionUnits_lt.trans (by decide))
    obtain ⟨c, cs, rfl⟩ := List.exists_cons_of_ne_nil (List.ne_nil_of_length_pos h₁)
    have hparse := (parseFraction_eq_some (c :: cs) 8 (BitVec.ofNat 32 (fracBase / 10)) 0
      (g := BitVec.ofNat 32 t.fractionUnits) rfl (by decide)).2
      ⟨h₈, t.fraction_digit _ hf, by rw [hg, hfrac]; exact (Nat.zero_add _).symm⟩
    dsimp only
    rw [hparse]
    dsimp only
    rw [t.eq_ofUnits_text hg]

/-- What the parser reads has the form of the grammar. -/
theorem exists_text_of_stringToAmount {old a : RawAmount} {str : List Char}
    (h : stringToAmount old str = (.ok, a)) : ∃ t : AmountText, t.text = str := by
  have hstr : str.takeWhile isSpace ++ str.dropWhile isSpace = str :=
    List.takeWhile_append_dropWhile
  have hspace : ∀ c ∈ str.takeWhile isSpace, isSpace c = true :=
    fun c hc => List.mem_takeWhile_imp hc
  unfold stringToAmount at h
  dsimp only at h
  generalize str.takeWhile isSpace = space at hspace hstr
  generalize str.dropWhile isSpace = s at h hstr
  have hs : s.takeWhile (· ≠ ':') ++ s.dropWhile (· ≠ ':') = s := List.takeWhile_append_dropWhile
  have hcolon := List.head?_dropWhile_not (fun x => decide (x ≠ ':')) s
  generalize s.takeWhile (· ≠ ':') = cur at h hs
  generalize s.dropWhile (· ≠ ':') = rest at h hs hcolon
  cases rest with
  | nil => exact nomatch h
  | cons c value =>
    obtain rfl : c = ':' := by simpa using hcolon
    dsimp only at h
    by_cases hlen : cur = [] ∨ cur.length ≥ currencyLen
    · rw [if_pos hlen] at h
      exact nomatch h
    by_cases hok : checkCurrency cur = .ok
    swap
    · rw [if_neg hlen, if_pos hok] at h
      exact nomatch h
    rw [if_neg hlen, if_neg (not_not_intro hok)] at h
    obtain ⟨hshort, hletter⟩ := checkCurrency_eq_ok.1 hok
    have hpos := List.length_pos_iff.2 (not_or.1 hlen).1
    by_cases hval : value = []
    · rw [if_pos hval] at h
      exact nomatch h
    rw [if_neg hval] at h
    cases hv : parseValue 0 value with
    | none =>
      rw [hv] at h
      exact nomatch h
    | some r =>
      obtain ⟨v, rest⟩ := r
      obtain ⟨ds, hds, hvalue, hof⟩ := parseValue_eq_some value 0 (Nat.zero_le _) hv
      have hle := parseValue_le value 0 (Nat.zero_le _) hv
      rw [← hof] at hle
      rw [hv] at h
      -- The fraction, if there is one, is not empty and was read to its end.
      have hfrac : ∀ f ∈ rest, (1 ≤ f.length ∧ f.length ≤ 8) ∧ ∀ c ∈ f, c.isDigit = true := by
        rintro f rfl
        cases f with
        | nil => exact nomatch h
        | cons d tail =>
          cases hf : parseFraction (BitVec.ofNat 32 (fracBase / 10)) 0 (d :: tail) with
          | none =>
            dsimp only at h
            rw [hf] at h
            exact nomatch h
          | some g =>
            obtain ⟨h₈, hdigits, -⟩ := (parseFraction_eq_some (d :: tail) 8
              (BitVec.ofNat 32 (fracBase / 10)) 0 rfl (by decide)).1 hf
            exact ⟨⟨Nat.succ_le_succ (Nat.zero_le _), h₈⟩, hdigits⟩
      have hsome : rest = none → ds ≠ [] := by
        rintro rfl rfl
        exact hval hvalue
      subst hvalue hs hstr
      refine ⟨⟨space, cur, ds, rest, hspace, hletter, ⟨hpos, Nat.le_of_lt_succ hshort⟩, hds, hle,
        fun f hf => (hfrac f hf).2, fun f hf => (hfrac f hf).1, hsome⟩, ?_⟩
      unfold AmountText.text AmountText.tail
      cases rest <;> rfl

/-- **`TALER_string_to_amount` accepts the texts of the grammar**, reads each as the number that it
denotes, and its arithmetic does not wrap on any string. -/
theorem stringToAmount_grammar (old : RawAmount) (str : List Char) :
    (∀ a, stringToAmount old str = (.ok, a) ↔
      ∃ t : AmountText, t.text = str ∧ a = ofUnits t.units t.currency) ∧
    ((stringToAmount old str).1 = .ok ↔ ∃ t : AmountText, t.text = str) ∧
    stringToAmountIn wrapping old str = .ok (stringToAmount old str) ∧
    stringToAmountIn checked old str = .ok (stringToAmount old str) := by
  have htext : ∀ a, stringToAmount old str = (.ok, a) ↔
      ∃ t : AmountText, t.text = str ∧ a = ofUnits t.units t.currency := by
    intro a
    constructor
    · intro h
      obtain ⟨t, rfl⟩ := exists_text_of_stringToAmount h
      rw [stringToAmount_of_text] at h
      cases h
      exact ⟨t, rfl, rfl⟩
    · rintro ⟨t, rfl, rfl⟩
      exact stringToAmount_of_text old t
  refine ⟨htext, ⟨fun h => ?_, ?_⟩, stringToAmountIn_eq exactInRange_wrapping old str,
    stringToAmountIn_eq exactInRange_checked old str⟩
  · exact exists_text_of_stringToAmount (Prod.ext h rfl)
  · rintro ⟨t, rfl⟩
    rw [stringToAmount_of_text]

end RawAmount

end TalerExchange
