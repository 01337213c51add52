import TalerExchange.Amount.Exact
import Mathlib.Tactic.Ring
import Mathlib.Tactic.Linarith

/-!
# Amounts as text

`TALER_string_to_amount` and `TALER_amount_to_string`. A string is the list of its characters before the
terminator.

* `stringToAmount`, with the loops `parseValue` and `parseFraction`; `amountToString`, with the loop
  `amountToTail`;
* `parseValue_digits`, `parseFraction_tail`: the parser on what is printed;
* `stringToAmount_sound`: an amount that is accepted is valid and normalised;
* **`amountText_roundTrip`**: printing and parsing.
-/

namespace TalerExchange

namespace RawAmount

/-! ## Parsing -/

/-- `isspace`. -/
def isSpace (c : Char) : Bool :=
  c = ' ' || c = '\t' || c = '\n' || c = '\x0b' || c = '\x0c' || c = '\r'

/-- `*value - '0'` for a digit, nothing for another character. -/
def digit? (c : Char) : Option ℕ :=
  if c < '0' ∨ c > '9' then none else some (c.toNat - '0'.toNat)

/-- The loop over the value: what it is, and what follows the dot, if there is one. -/
def parseValue : BitVec 64 → List Char → Option (BitVec 64 × Option (List Char))
  | v, [] => some (v, none)
  | v, c :: value =>
    if c = '.' then some (v, some value)
    else match digit? c with
      | none => none
      | some n =>
        if v * 10 < v ∨ v * 10 + BitVec.ofNat 64 n < v ∨ v.toNat > maxValue ∨
            (v * 10 + BitVec.ofNat 64 n).toNat > maxValue then none
        else parseValue (v * 10 + BitVec.ofNat 64 n) value

/-- The loop over the fraction; `b` is what the next digit counts. -/
def parseFraction : BitVec 32 → BitVec 32 → List Char → Option (BitVec 32)
  | _, f, [] => some f
  | b, f, c :: value =>
    if b = 0 then none
    else match digit? c with
      | none => none
      | some n => parseFraction (b / 10) (f + BitVec.ofNat 32 n * b) value

/-- `TALER_string_to_amount`: the code, and what is in the amount afterwards. -/
def stringToAmount (amount : RawAmount) (str : List Char) : Generic × RawAmount :=
  let str := str.dropWhile isSpace
  let cur := str.takeWhile (· ≠ ':')
  match str.dropWhile (· ≠ ':') with
  | [] => (.sysErr, invalid)
  | _ :: value =>
    if cur = [] ∨ cur.length ≥ currencyLen then (.sysErr, invalid)
    else if checkCurrency cur ≠ .ok then (.sysErr, { amount with currency := cur })
    else if value = [] then (.sysErr, invalid)
    else match parseValue 0 value with
      | none => (.sysErr, invalid)
      | some (v, none) => (.ok, ⟨v, 0, cur⟩)
      | some (_, some []) => (.sysErr, invalid)
      | some (v, some (c :: tail)) =>
        match parseFraction (BitVec.ofNat 32 (fracBase / 10)) 0 (c :: tail) with
        | none => (.sysErr, invalid)
        | some f => (.ok, ⟨v, f, cur⟩)

/-! ## Printing -/

/-- `amount_to_tail`: at most so many digits of the fraction `n`. -/
def amountToTail : ℕ → BitVec 32 → List Char
  | 0, _ => []
  | i + 1, n =>
    if n = 0 then []
    else Char.ofNat ('0'.toNat + (n / BitVec.ofNat 32 (fracBase / 10)).toNat) ::
      amountToTail i (n * 10 % BitVec.ofNat 32 fracBase)

/-- `TALER_amount_to_string`, `none` for `NULL`. -/
def amountToString (amount : RawAmount) : Option (List Char) :=
  if amount.isValid ≠ .ok then none
  else match normalize wrapping amount with
    | .error _ => none
    | .ok (_, norm) =>
      if norm.fraction ≠ 0 then
        some (norm.currency ++ ':' :: Nat.toDigits 10 norm.value.toNat ++
          '.' :: amountToTail 8 norm.fraction)
      else some (norm.currency ++ ':' :: Nat.toDigits 10 norm.value.toNat)

example : amountToString ⟨4, 120000000, ['E', 'U', 'R']⟩ = some "EUR:5.2".toList := by decide

example : stringToAmount invalid " EUR:4.12".toList = (.ok, ⟨4, 12000000, ['E', 'U', 'R']⟩) := by decide

/-! ## The value -/

theorem digit?_of_isDigit {c : Char} (h : c.isDigit = true) :
    digit? c = some (c.toNat - '0'.toNat) := by
  simp only [Char.isDigit, Bool.and_eq_true, decide_eq_true_eq] at h
  have h₀ : ¬ c < '0' := Char.not_lt.2 h.1
  have h₉ : ¬ '9' < c := Char.not_lt.2 h.2
  exact if_neg (not_or.2 ⟨h₀, h₉⟩)

theorem digit?_lt {c : Char} {n : ℕ} (h : digit? c = some n) : n < 10 := by
  unfold digit? at h
  split_ifs at h with hc
  cases h
  have hle : c.toNat ≤ '9'.toNat := Char.not_lt.1 (not_or.1 hc).2
  have h9 : '9'.toNat = 57 := rfl
  have h0 : '0'.toNat = 48 := rfl
  omega

theorem not_isDigit_dot : ¬ '.'.isDigit = true := by decide

theorem le_ofDigitChars (ds : List Char) (v : ℕ) : v ≤ Nat.ofDigitChars 10 ds v := by
  rw [Nat.ofDigitChars_eq_ofDigitChars_zero]
  have h : 1 * v ≤ 10 ^ ds.length * v := Nat.mul_le_mul_right v (Nat.one_le_pow _ _ (by decide))
  omega

/-- One more digit does not wrap as long as the value is legal. -/
theorem toNat_shift {v : BitVec 64} {n : ℕ} (hv : v.toNat ≤ maxValue) (hn : n < 10) :
    (v * 10).toNat = v.toNat * 10 ∧ (v * 10 + BitVec.ofNat 64 n).toNat = v.toNat * 10 + n := by
  dsimp only [maxValue] at hv
  have h₁ : (v * 10).toNat = v.toNat * 10 := by
    rw [BitVec.toNat_mul]
    change v.toNat * 10 % 2 ^ 64 = v.toNat * 10
    exact Nat.mod_eq_of_lt (by omega)
  refine ⟨h₁, ?_⟩
  rw [BitVec.toNat_add, h₁, BitVec.toNat_ofNat, Nat.mod_eq_of_lt (show n < 2 ^ 64 by omega)]
  exact Nat.mod_eq_of_lt (by omega)

/-- The parser reads a digit and goes on, unless the value gets too large. -/
theorem parseValue_digit {v : BitVec 64} {c : Char} {n : ℕ} (value : List Char)
    (hv : v.toNat ≤ maxValue) (hdot : c ≠ '.') (hc : digit? c = some n) :
    parseValue v (c :: value) =
      if v.toNat * 10 + n > maxValue then none else parseValue (v * 10 + BitVec.ofNat 64 n) value := by
  obtain ⟨h₁, h₂⟩ := toNat_shift hv (digit?_lt hc)
  rw [parseValue, if_neg hdot, hc]
  refine if_congr ?_ rfl rfl
  rw [BitVec.lt_def, BitVec.lt_def, h₁, h₂]
  omega

/-- The parser on digits. -/
theorem parseValue_digits (rest : List Char) : ∀ (ds : List Char) (v : BitVec 64),
    (∀ c ∈ ds, c.isDigit = true) → Nat.ofDigitChars 10 ds v.toNat ≤ maxValue →
      parseValue v (ds ++ rest) = parseValue (BitVec.ofNat 64 (Nat.ofDigitChars 10 ds v.toNat)) rest
  | [], v, _, _ => by
    rw [Nat.ofDigitChars_nil, BitVec.ofNat_toNat, BitVec.setWidth_eq]
    rfl
  | c :: ds, v, hds, hle => by
    have hdigit := digit?_of_isDigit (hds c List.mem_cons_self)
    have hdot : c ≠ '.' := fun h => not_isDigit_dot (h ▸ hds c List.mem_cons_self)
    rw [Nat.ofDigitChars_cons, Nat.mul_comm] at hle
    have hstep := le_ofDigitChars ds (v.toNat * 10 + (c.toNat - '0'.toNat))
    have hv : v.toNat ≤ maxValue := by omega
    obtain ⟨-, h₂⟩ := toNat_shift hv (digit?_lt hdigit)
    rw [List.cons_append, parseValue_digit _ hv hdot hdigit, if_neg (by omega),
      parseValue_digits rest ds _ (fun x hx => hds x (List.mem_cons_of_mem c hx)) (h₂.symm ▸ hle), h₂,
      Nat.ofDigitChars_cons, Nat.mul_comm 10]

theorem parseValue_toDigits {v : BitVec 64} (hv : v.toNat ≤ maxValue) (rest : List Char) :
    parseValue 0 (Nat.toDigits 10 v.toNat ++ rest) = parseValue v rest := by
  have hof : Nat.ofDigitChars 10 (Nat.toDigits 10 v.toNat) 0 = v.toNat := Nat.ofDigitChars_ten_toDigits
  have h := parseValue_digits rest (Nat.toDigits 10 v.toNat) 0
    (fun c hc => Nat.isDigit_of_mem_toDigits (by decide) (by decide) hc) (hof.trans_le hv)
  rw [h]
  change parseValue (BitVec.ofNat 64 (Nat.ofDigitChars 10 _ 0)) rest = _
  rw [hof, BitVec.ofNat_toNat, BitVec.setWidth_eq]

/-! ## The fraction -/

theorem digit?_ofNat : ∀ d < 10, digit? (Char.ofNat ('0'.toNat + d)) = some d := by decide

/-- The next digit of a fraction of which `i + 1` digits are left. -/
theorem tail_digit {i r : ℕ} {n : BitVec 32} (hi : i < 8) (hr : r < 10 ^ (i + 1))
    (hn : n.toNat = r * 10 ^ (8 - (i + 1))) :
    (n / BitVec.ofNat 32 (fracBase / 10)).toNat = r / 10 ^ i ∧
      (n * 10 % BitVec.ofNat 32 fracBase).toNat = r % 10 ^ i * 10 ^ (8 - i) := by
  have hpq : 10 ^ i * 10 ^ (8 - (i + 1)) = 10000000 := by
    rw [← pow_add, show i + (8 - (i + 1)) = 7 by omega]
    rfl
  have hq : 10 ^ (8 - i) = 10 ^ (8 - (i + 1)) * 10 := by
    rw [← pow_succ, show 8 - (i + 1) + 1 = 8 - i by omega]
  have hpos : 0 < 10 ^ (8 - (i + 1)) := Nat.pow_pos (by decide)
  have hlt : n.toNat < 100000000 := by
    rw [hn]
    calc r * 10 ^ (8 - (i + 1)) < 10 ^ (i + 1) * 10 ^ (8 - (i + 1)) :=
          Nat.mul_lt_mul_of_pos_right hr hpos
      _ = 100000000 := by rw [pow_succ, Nat.mul_right_comm, hpq]
  constructor
  · rw [BitVec.toNat_udiv]
    change n.toNat / 10000000 = _
    rw [hn, ← hpq, Nat.mul_div_mul_right _ _ hpos]
  · rw [BitVec.toNat_umod, BitVec.toNat_mul]
    change n.toNat * 10 % 2 ^ 32 % 100000000 = _
    have hsmall : n.toNat * 10 < 2 ^ 32 := by omega
    have hbase : 100000000 = 10 ^ i * (10 ^ (8 - (i + 1)) * 10) := by rw [← Nat.mul_assoc, hpq]
    rw [Nat.mod_eq_of_lt hsmall, hn, hq, Nat.mul_assoc, hbase, Nat.mul_mod_mul_right]

/-- The parser on a printed fraction; the induction is on the digits that are left. -/
theorem parseFraction_tail : ∀ (i r : ℕ) (b f n : BitVec 32), i ≤ 8 → r < 10 ^ i →
    n.toNat = r * 10 ^ (8 - i) → b.toNat = 10 ^ i / 10 → f.toNat + r < 2 ^ 32 →
      ∃ g, parseFraction b f (amountToTail i n) = some g ∧ g.toNat = f.toNat + r
  | 0, r, b, f, n, _, hr, _, _, _ => by
    rw [pow_zero, Nat.lt_one_iff] at hr
    exact ⟨f, rfl, by rw [hr, Nat.add_zero]⟩
  | i + 1, r, b, f, n, hi, hr, hn, hb, hf => by
    have hpow : 0 < 10 ^ i := Nat.pow_pos (by decide)
    rw [pow_succ, Nat.mul_div_cancel _ (by decide)] at hb
    rw [amountToTail]
    by_cases hz : n = 0
    · have hr0 : r = 0 := by
        rw [hz] at hn
        exact (Nat.mul_eq_zero.1 hn.symm).resolve_right (Nat.pow_pos (by decide)).ne'
      rw [if_pos hz, hr0]
      exact ⟨f, rfl, rfl⟩
    · obtain ⟨hd, hrest⟩ := tail_digit (by omega) hr hn
      have hd10 : r / 10 ^ i < 10 := by
        rw [Nat.div_lt_iff_lt_mul hpow]
        rwa [pow_succ, Nat.mul_comm] at hr
      have hbne : b ≠ 0 := by
        rintro rfl
        exact hpow.ne hb
      have hsplit : r / 10 ^ i * 10 ^ i + r % 10 ^ i = r := Nat.div_add_mod' _ _
      have hmul : (BitVec.ofNat 32 (r / 10 ^ i) * b).toNat = r / 10 ^ i * 10 ^ i := by
        rw [BitVec.toNat_mul, BitVec.toNat_ofNat, hb,
          Nat.mod_eq_of_lt (show r / 10 ^ i < 2 ^ 32 by omega)]
        exact Nat.mod_eq_of_lt (by omega)
      have hadd : (f + BitVec.ofNat 32 (r / 10 ^ i) * b).toNat = f.toNat + r / 10 ^ i * 10 ^ i := by
        rw [BitVec.toNat_add, hmul]
        exact Nat.mod_eq_of_lt (by omega)
      have hb' : (b / 10).toNat = 10 ^ i / 10 := by
        rw [BitVec.toNat_udiv, hb]
        rfl
      obtain ⟨g, hg, hgn⟩ := parseFraction_tail i (r % 10 ^ i) (b / 10)
        (f + BitVec.ofNat 32 (r / 10 ^ i) * b) (n * 10 % BitVec.ofNat 32 fracBase) (by omega)
        (Nat.mod_lt _ hpow) hrest hb' (by rw [hadd]; omega)
      refine ⟨g, ?_, ?_⟩
      · rw [if_neg hz, hd, parseFraction, if_neg hbne, digit?_ofNat _ hd10]
        exact hg
      · rw [hgn, hadd]
        omega

/-! ## Printing and parsing -/

/-- What `TALER_amount_to_string` prints for a normalised amount. -/
def text (a : RawAmount) : List Char :=
  if a.fraction ≠ 0 then
    a.currency ++ ':' :: Nat.toDigits 10 a.value.toNat ++ '.' :: amountToTail 8 a.fraction
  else a.currency ++ ':' :: Nat.toDigits 10 a.value.toNat

theorem amountToString_eq {a : RawAmount} (ha : a.isValid = .ok) (hn : a.units < limit) :
    amountToString a = some (ofUnits a.units a.currency).text := by
  obtain ⟨r, -, hr⟩ := normalize_eq exactInRange_wrapping ha
  rw [if_neg (not_le.2 hn)] at hr
  unfold amountToString text
  rw [if_neg (not_not_intro ha), hr]
  dsimp only
  split_ifs <;> rfl

theorem checkCurrency_eq_ok {cur : List Char} :
    checkCurrency cur = .ok ↔ cur.length < currencyLen ∧ ∀ c ∈ cur, 'A' ≤ c ∧ c ≤ 'Z' := by
  unfold checkCurrency
  split_ifs with h₁ h₂
  · exact iff_of_false (fun h => nomatch h) (fun h => absurd h.1 (not_lt.2 h₁))
  · refine iff_of_true rfl ⟨not_le.1 h₁, fun c hc => ?_⟩
    have h := List.all_eq_true.1 h₂ c hc
    rw [Bool.and_eq_true, decide_eq_true_eq, decide_eq_true_eq] at h
    exact h
  · refine iff_of_false (fun h => nomatch h) (fun h => h₂ (List.all_eq_true.2 fun c hc => ?_))
    rw [Bool.and_eq_true, decide_eq_true_eq, decide_eq_true_eq]
    exact h.2 c hc

theorem not_isSpace_of_upper {c : Char} (h : 'A' ≤ c) : isSpace c = false := by
  have hne : ∀ d : Char, d < 'A' → c ≠ d := by
    rintro d hd rfl
    exact Char.not_lt.2 h hd
  unfold isSpace
  simp only [hne ' ' (by decide), hne '\t' (by decide), hne '\n' (by decide),
    hne '\x0b' (by decide), hne '\x0c' (by decide), hne '\r' (by decide), decide_false, Bool.or_self]

theorem ne_colon_of_upper {c : Char} (h : 'A' ≤ c) : c ≠ ':' := by
  rintro rfl
  exact absurd h (by decide)

/-- The parser finds a legal currency before the colon. -/
theorem stringToAmount_currency (old : RawAmount) {cur : List Char} (hne : cur ≠ [])
    (hcur : checkCurrency cur = .ok) {value : List Char} (hval : value ≠ []) :
    stringToAmount old (cur ++ ':' :: value) =
      match parseValue 0 value with
      | none => (.sysErr, invalid)
      | some (v, none) => (.ok, ⟨v, 0, cur⟩)
      | some (_, some []) => (.sysErr, invalid)
      | some (v, some (c :: tail)) =>
        match parseFraction (BitVec.ofNat 32 (fracBase / 10)) 0 (c :: tail) with
        | none => (.sysErr, invalid)
        | some f => (.ok, ⟨v, f, cur⟩) := by
  obtain ⟨hlen, hup⟩ := checkCurrency_eq_ok.1 hcur
  obtain ⟨c, cs, rfl⟩ := List.exists_cons_of_ne_nil hne
  have hspace : ((c :: cs) ++ ':' :: value).dropWhile isSpace = (c :: cs) ++ ':' :: value := by
    rw [List.cons_append, List.dropWhile_cons_of_neg]
    rw [not_isSpace_of_upper (hup c List.mem_cons_self).1]
    exact Bool.false_ne_true
  have hno : ∀ x ∈ c :: cs, decide (x ≠ ':') = true := fun x hx =>
    decide_eq_true (ne_colon_of_upper (hup x hx).1)
  have htake : ((c :: cs) ++ ':' :: value).takeWhile (· ≠ ':') = c :: cs := by
    rw [List.takeWhile_append_of_pos hno, List.takeWhile_cons_of_neg (by decide), List.append_nil]
  have hdrop : ((c :: cs) ++ ':' :: value).dropWhile (· ≠ ':') = ':' :: value := by
    rw [List.dropWhile_append_of_pos hno, List.dropWhile_cons_of_neg (by decide)]
  unfold stringToAmount
  dsimp only
  rw [hspace, htake, hdrop]
  dsimp only
  rw [if_neg (not_or.2 ⟨hne, not_le.2 hlen⟩), if_neg (not_not_intro hcur), if_neg hval]

/-- Amounts as they are printed and parsed. -/
structure Canonical (a : RawAmount) : Prop where
  valid : a.isValid = .ok
  legal : checkCurrency a.currency = .ok
  normal : a.IsNormal

theorem stringToAmount_text (old : RawAmount) {a : RawAmount} (ha : a.Canonical) :
    stringToAmount old a.text = (.ok, a) := by
  obtain ⟨hmax, hne⟩ := isValid_eq_ok.1 ha.valid
  have hdig : Nat.toDigits 10 a.value.toNat ≠ [] := Nat.toDigits_ne_nil
  unfold text
  split_ifs with hf
  · rw [List.append_assoc, List.cons_append, stringToAmount_currency old hne ha.legal
      (List.append_ne_nil_of_left_ne_nil hdig _), parseValue_toDigits hmax, parseValue, if_pos rfl]
    obtain ⟨g, hg, hgn⟩ := parseFraction_tail 8 a.fraction.toNat (BitVec.ofNat 32 (fracBase / 10)) 0
      a.fraction le_rfl ha.normal (Nat.mul_one _).symm (by decide)
      ((Nat.zero_add _).trans_lt a.fraction.isLt)
    have hga : g = a.fraction := BitVec.eq_of_toNat_eq (hgn.trans (Nat.zero_add _))
    rw [amountToTail, if_neg hf] at hg ⊢
    dsimp only
    rw [hg, hga]
  · rw [stringToAmount_currency old hne ha.legal hdig, ← List.append_nil (Nat.toDigits 10 _),
      parseValue_toDigits hmax, parseValue]
    rw [not_not] at hf
    rw [← hf]

/-! ## What the parser accepts -/

/-- The value never exceeds the maximum. -/
theorem parseValue_le : ∀ (value : List Char) (v : BitVec 64) {w : BitVec 64}
    {rest : Option (List Char)}, v.toNat ≤ maxValue → parseValue v value = some (w, rest) →
      w.toNat ≤ maxValue
  | [], v, w, rest, hv, h => by
    cases h
    exact hv
  | c :: value, v, w, rest, hv, h => by
    by_cases hdot : c = '.'
    · rw [parseValue, if_pos hdot] at h
      cases h
      exact hv
    · cases hc : digit? c with
      | none =>
        rw [parseValue, if_neg hdot, hc] at h
        exact nomatch h
      | some n =>
        rw [parseValue_digit value hv hdot hc] at h
        split_ifs at h with hmax
        refine parseValue_le value _ ?_ h
        rw [(toNat_shift hv (digit?_lt hc)).2]
        exact not_lt.1 hmax

/-- The fraction stays below the base: what the digits to come can add is below `10 * b`. -/
theorem parseFraction_lt : ∀ (value : List Char) (b f : BitVec 32) {g : BitVec 32},
    f.toNat < fracBase → f.toNat + 10 * b.toNat ≤ fracBase →
      parseFraction b f value = some g → g.toNat < fracBase
  | [], b, f, g, hf, _, h => by
    cases h
    exact hf
  | c :: value, b, f, g, hf, hb, h => by
    rw [parseFraction] at h
    split_ifs at h with hz
    cases hc : digit? c with
    | none =>
      rw [hc] at h
      exact nomatch h
    | some n =>
      rw [hc] at h
      dsimp only [fracBase] at *
      have hn := digit?_lt hc
      have hpos : 0 < b.toNat := Nat.pos_of_ne_zero fun h0 => hz (BitVec.eq_of_toNat_eq h0)
      have hle : n * b.toNat ≤ 9 * b.toNat := Nat.mul_le_mul_right _ (by omega)
      have hmul : (BitVec.ofNat 32 n * b).toNat = n * b.toNat := by
        rw [BitVec.toNat_mul, BitVec.toNat_ofNat, Nat.mod_eq_of_lt (show n < 2 ^ 32 by omega)]
        exact Nat.mod_eq_of_lt (by omega)
      have hadd : (f + BitVec.ofNat 32 n * b).toNat = f.toNat + n * b.toNat := by
        rw [BitVec.toNat_add, hmul]
        exact Nat.mod_eq_of_lt (by omega)
      have hdiv : (b / 10).toNat = b.toNat / 10 := BitVec.toNat_udiv
      refine parseFraction_lt value (b / 10) _ ?_ ?_ h
      · dsimp only [fracBase]
        omega
      · dsimp only [fracBase]
        omega

/-- **What is accepted is a valid, normalised amount of a legal currency.** -/
theorem stringToAmount_sound {old a : RawAmount} {str : List Char}
    (h : stringToAmount old str = (.ok, a)) : a.Canonical := by
  unfold stringToAmount at h
  dsimp only at h
  generalize hcur : (str.dropWhile isSpace).takeWhile (· ≠ ':') = cur at h
  have hcanon : ∀ {v : BitVec 64} {f : BitVec 32}, ¬ (cur = [] ∨ cur.length ≥ currencyLen) →
      checkCurrency cur = .ok → v.toNat ≤ maxValue → f.toNat < fracBase →
        Canonical ⟨v, f, cur⟩ := fun hne hok hv hf =>
    ⟨isValid_eq_ok.2 ⟨hv, (not_or.1 hne).1⟩, hok, hf⟩
  split at h
  · exact nomatch h
  · by_cases hne : cur = [] ∨ cur.length ≥ currencyLen
    · rw [if_pos hne] at h
      exact nomatch h
    by_cases hok : checkCurrency cur = .ok
    swap
    · rw [if_neg hne, if_pos hok] at h
      exact nomatch h
    rw [if_neg hne, if_neg (not_not_intro hok)] at h
    split_ifs at h
    · exact nomatch h
    split at h
    · exact nomatch h
    · rename_i v hv
      cases h
      exact hcanon hne hok (parseValue_le _ 0 (Nat.zero_le _) hv) (by decide)
    · exact nomatch h
    · rename_i v c tail hv
      split at h
      · exact nomatch h
      · rename_i f hf
        cases h
        refine hcanon hne hok (parseValue_le _ 0 (Nat.zero_le _) hv) ?_
        exact parseFraction_lt _ _ 0 (by decide) (by decide) hf

theorem Canonical.units_lt {a : RawAmount} (ha : a.Canonical) : a.units < limit := by
  have h₁ := (isValid_eq_ok.1 ha.valid).1
  have h₂ := ha.normal
  unfold IsNormal at h₂
  unfold units
  dsimp only [limit, maxValue, fracBase] at *
  omega

theorem Canonical.ofUnits_eq {a : RawAmount} (ha : a.Canonical) : ofUnits a.units a.currency = a := by
  have h := ha.normal
  unfold IsNormal at h
  refine (eq_ofUnits (v := a.value) (f := a.fraction) ?_ ?_).symm
  · unfold units
    dsimp only [fracBase] at *
    omega
  · unfold units
    dsimp only [fracBase] at *
    omega

/-- **Amounts survive printing and parsing**: a valid amount that normalises comes back normalised,
and an amount that was parsed comes back as it is. -/
theorem amountText_roundTrip (old : RawAmount) :
    (∀ a : RawAmount, a.isValid = .ok → checkCurrency a.currency = .ok → a.units < limit →
      ∃ r n s, normalize wrapping a = .ok (r, n) ∧ n.IsNormal ∧ n.units = a.units ∧
        amountToString a = some s ∧ stringToAmount old s = (.ok, n)) ∧
    ∀ (before : RawAmount) (str : List Char) (a : RawAmount), stringToAmount before str = (.ok, a) →
      ∃ s, amountToString a = some s ∧ stringToAmount old s = (.ok, a) := by
  constructor
  · intro a hvalid hlegal hlt
    obtain ⟨r, -, hr⟩ := normalize_eq exactInRange_wrapping hvalid
    rw [if_neg (not_le.2 hlt)] at hr
    have hcanon : Canonical (ofUnits a.units a.currency) :=
      ⟨isValid_ofUnits hlt (isValid_eq_ok.1 hvalid).2,
        (currency_ofUnits a.units a.currency).symm ▸ hlegal, isNormal_ofUnits _ _⟩
    exact ⟨r, _, _, hr, hcanon.normal, units_ofUnits hlt _, amountToString_eq hvalid hlt,
      stringToAmount_text old hcanon⟩
  · intro before str a h
    have hcanon := stringToAmount_sound h
    refine ⟨_, amountToString_eq hcanon.valid hcanon.units_lt, ?_⟩
    rw [hcanon.ofUnits_eq]
    exact stringToAmount_text old hcanon

theorem amountText_roundTrip_half :
    ∃ r n s, normalize wrapping ⟨4, 150000000, ['E', 'U', 'R']⟩ = .ok (r, n) ∧ n.IsNormal ∧
      n.units = units ⟨4, 150000000, ['E', 'U', 'R']⟩ ∧
      amountToString ⟨4, 150000000, ['E', 'U', 'R']⟩ = some s ∧
      stringToAmount invalid s = (.ok, n) :=
  (amountText_roundTrip invalid).1 _ (by decide) (by decide) (by decide)

end RawAmount

end TalerExchange
