import TalerExchange.Machine.CString
import TalerExchange.Machine.Word
import Mathlib.Logic.Function.Basic
import Mathlib.Tactic.SplitIfs

/-!
# Amounts in machine words

`struct TALER_Amount` as the C code has it, with a 64-bit value, a 32-bit fraction that may be as large
as the word allows, and a currency, and the functions of `amount.c` on it. The functions take pointers,
so that the result may be one of the operands.

* `RawAmount`, `normalize`, `cmp`, `amountAdd`, `amountSubtract`;
* `RawAmount.units`: the amount in units of `10⁻⁸`; `RawAmount.ofUnits`: the normalised amount;
* `amountAdd_eq`, `amountSubtract_eq`, `cmp_eq`: the functions on valid amounts of one currency;
* **`amountArithmetic_exact`**: they are exact, no operation wraps, and a sum can be taken back.
-/

namespace TalerExchange

/-- `GNUNET_OK`, `GNUNET_NO`, `GNUNET_SYSERR` (`GNUNET_YES` is `GNUNET_OK`). -/
inductive Generic
  | ok
  | no
  | sysErr
deriving DecidableEq, Repr

/-- `enum TALER_AmountArithmeticResult`. -/
inductive ArithmeticResult
  | positive
  | zero
  | negativeResult
  | resultOverflow
  | normalizationFailed
  | currenciesIncompatible
deriving DecidableEq, Repr

/-- The non-negative codes. -/
def ArithmeticResult.succeeded : ArithmeticResult → Bool
  | .positive | .zero => true
  | _ => false

/-- `struct TALER_Amount`; the currency is the string in the array. -/
@[ext] structure RawAmount where
  value : BitVec 64
  fraction : BitVec 32
  currency : List Char
deriving DecidableEq, Repr

/-- `TALER_AMOUNT_FRAC_BASE`. -/
abbrev fracBase : ℕ := 100000000

/-- `TALER_AMOUNT_MAX_VALUE`. -/
abbrev maxValue : ℕ := 2 ^ 52

/-- `TALER_CURRENCY_LEN`. -/
abbrev currencyLen : ℕ := 12

/-- `TALER_check_currency`. -/
def checkCurrency (str : List Char) : Generic :=
  if str.length ≥ currencyLen then .sysErr
  else if str.all (fun c => 'A' ≤ c && c ≤ 'Z') then .ok
  else .sysErr

namespace RawAmount

/-- `invalidate`. -/
def invalid : RawAmount := ⟨0, 0, []⟩

/-- `TALER_amount_is_valid`. -/
def isValid (a : RawAmount) : Generic :=
  if a.value.toNat > maxValue then .sysErr
  else if a.currency = [] then .no
  else .ok

/-- `TALER_amount_cmp_currency`. -/
def cmpCurrency (a₁ a₂ : RawAmount) : Generic :=
  if a₁.isValid = .no ∨ a₂.isValid = .no then .sysErr
  else if sameIgnoringCase a₁.currency a₂.currency then .ok
  else .no

/-- `TALER_amount_normalize`: the code and the amount afterwards. -/
def normalize (word : WordRule) (a : RawAmount) : Except Fault (Generic × RawAmount) :=
  if a.isValid ≠ .ok then .ok (.sysErr, a)
  else if a.fraction.toNat < fracBase then .ok (.no, a)
  else do
    let overflow := a.fraction.toNat / fracBase
    let fraction ← word 32 (a.fraction.toNat % fracBase : ℕ)
    let value ← word 64 (a.value.toNat + overflow : ℕ)
    if value.toNat < overflow ∨ value.toNat > maxValue then .ok (.sysErr, invalid)
    else .ok (.ok, { a with value := value, fraction := fraction })

/-- `TALER_amount_cmp`: `-1`, `0` or `1`. -/
def cmp (word : WordRule) (a₁ a₂ : RawAmount) : Except Fault ℤ :=
  if cmpCurrency a₁ a₂ ≠ .ok then .error .assertion
  else do
    let (r₁, n₁) ← normalize word a₁
    if r₁ = .sysErr then .error .assertion
    else
      let (r₂, n₂) ← normalize word a₂
      if r₂ = .sysErr then .error .assertion
      else if n₁.value = n₂.value then
        if n₁.fraction.toNat < n₂.fraction.toNat then .ok (-1)
        else if n₁.fraction.toNat > n₂.fraction.toNat then .ok 1
        else .ok 0
      else if n₁.value.toNat < n₂.value.toNat then .ok (-1)
      else .ok 1

/-- `TALER_amount_set_zero` for a legal currency. -/
def setZero (cur : List Char) : RawAmount := ⟨0, 0, cur⟩

/-- The code for a result that was computed. -/
def resultCode (a : RawAmount) : ArithmeticResult :=
  if a.fraction = 0 ∧ a.value = 0 then .zero else .positive

section Pointers

variable {P : Type} [DecidableEq P]

/-- One unit of the value goes into the fraction where the latter is too small. -/
def borrow (word : WordRule) (n₁ n₂ : RawAmount) : Except Fault RawAmount :=
  if n₁.fraction.toNat < n₂.fraction.toNat then do
    let fraction ← word 32 (n₁.fraction.toNat + fracBase : ℕ)
    let value ← word 64 (n₁.value.toNat - 1)
    .ok { n₁ with value := value, fraction := fraction }
  else .ok n₁

/-- `TALER_amount_subtract` after the operands have been normalised. -/
def subtractNormal (word : WordRule) (m : P → RawAmount) (diff : P) (n₁ n₂ : RawAmount) :
    Except Fault (ArithmeticResult × (P → RawAmount)) :=
  if n₁.fraction.toNat < n₂.fraction.toNat ∧ n₁.value.toNat = 0 then
    .ok (.negativeResult, Function.update m diff invalid)
  else do
    let n₁ ← borrow word n₁ n₂
    if n₁.value.toNat < n₂.value.toNat then
      .ok (.negativeResult, Function.update m diff invalid)
    else if checkCurrency n₁.currency ≠ .ok then .error .assertion
    else if n₁.fraction.toNat < n₂.fraction.toNat then .error .assertion
    else
      let fraction ← word 32 (n₁.fraction.toNat - n₂.fraction.toNat)
      let value ← word 64 (n₁.value.toNat - n₂.value.toNat)
      let res := { setZero n₁.currency with value := value, fraction := fraction }
      .ok (resultCode res, Function.update m diff res)

/-- `TALER_amount_subtract`: the code and the memory afterwards. -/
def amountSubtract (word : WordRule) (m : P → RawAmount) (diff a₁ a₂ : P) :
    Except Fault (ArithmeticResult × (P → RawAmount)) :=
  if cmpCurrency (m a₁) (m a₂) ≠ .ok then
    .ok (.currenciesIncompatible, Function.update m diff invalid)
  else do
    let (r₁, n₁) ← normalize word (m a₁)
    let (r₂, n₂) ← normalize word (m a₂)
    if r₁ = .sysErr ∨ r₂ = .sysErr then
      .ok (.normalizationFailed, Function.update m diff invalid)
    else subtractNormal word m diff n₁ n₂

/-- `TALER_amount_add`: the code and the memory afterwards. -/
def amountAdd (word : WordRule) (m : P → RawAmount) (sum a₁ a₂ : P) :
    Except Fault (ArithmeticResult × (P → RawAmount)) :=
  if cmpCurrency (m a₁) (m a₂) ≠ .ok then
    .ok (.currenciesIncompatible, Function.update m sum invalid)
  else do
    let (r₁, n₁) ← normalize word (m a₁)
    let (r₂, n₂) ← normalize word (m a₂)
    if r₁ = .sysErr ∨ r₂ = .sysErr then
      .ok (.normalizationFailed, Function.update m sum invalid)
    else if checkCurrency (m a₁).currency ≠ .ok then .error .assertion
    else
      let value ← word 64 (n₁.value.toNat + n₂.value.toNat : ℕ)
      if value.toNat < n₁.value.toNat ∨ value.toNat > maxValue then
        .ok (.resultOverflow, Function.update m sum invalid)
      else
        let fraction ← word 32 (n₁.fraction.toNat + n₂.fraction.toNat : ℕ)
        let (r, res) ← normalize word
          { setZero (m a₁).currency with value := value, fraction := fraction }
        if r = .sysErr then .ok (.resultOverflow, Function.update m sum invalid)
        else .ok (resultCode res, Function.update m sum res)

end Pointers

/-! ## Units -/

/-- The amount in units of `10⁻⁸`. -/
def units (a : RawAmount) : ℕ := a.value.toNat * fracBase + a.fraction.toNat

/-- The number of units from which on an amount does not normalise. -/
abbrev limit : ℕ := (maxValue + 1) * fracBase

/-- The normalised amount with so many units. -/
def ofUnits (n : ℕ) (currency : List Char) : RawAmount :=
  ⟨BitVec.ofNat 64 (n / fracBase), BitVec.ofNat 32 (n % fracBase), currency⟩

/-- `fraction < TALER_AMOUNT_FRAC_BASE`. -/
def IsNormal (a : RawAmount) : Prop := a.fraction.toNat < fracBase

@[simp] theorem currency_ofUnits (n : ℕ) (cur : List Char) : (ofUnits n cur).currency = cur := rfl

theorem fraction_ofUnits (n : ℕ) (cur : List Char) :
    (ofUnits n cur).fraction.toNat = n % fracBase := by
  have h : n % fracBase < fracBase := Nat.mod_lt _ (by decide)
  exact Nat.mod_eq_of_lt (h.trans (by decide))

theorem isNormal_ofUnits (n : ℕ) (cur : List Char) : (ofUnits n cur).IsNormal := by
  unfold IsNormal
  rw [fraction_ofUnits]
  exact Nat.mod_lt _ (by decide)

theorem value_ofUnits {n : ℕ} (h : n < limit) (cur : List Char) :
    (ofUnits n cur).value.toNat = n / fracBase := by
  refine Nat.mod_eq_of_lt ?_
  change n / 100000000 < 2 ^ 64
  change n < (2 ^ 52 + 1) * 100000000 at h
  omega

theorem units_ofUnits {n : ℕ} (h : n < limit) (cur : List Char) : (ofUnits n cur).units = n := by
  unfold units
  rw [value_ofUnits h, fraction_ofUnits]
  exact Nat.div_add_mod' n fracBase

/-- An amount whose parts are those of a number of units is the normalised one. -/
theorem eq_ofUnits {v : BitVec 64} {f : BitVec 32} {cur : List Char} {n : ℕ}
    (hv : v.toNat = n / 100000000) (hf : f.toNat = n % 100000000) : ⟨v, f, cur⟩ = ofUnits n cur := by
  have hv' : v = BitVec.ofNat 64 (n / fracBase) := by rw [← hv, BitVec.ofNat_toNat, BitVec.setWidth_eq]
  have hf' : f = BitVec.ofNat 32 (n % fracBase) := by rw [← hf, BitVec.ofNat_toNat, BitVec.setWidth_eq]
  rw [hv', hf', ofUnits]

theorem isValid_eq_ok {a : RawAmount} :
    a.isValid = .ok ↔ a.value.toNat ≤ maxValue ∧ a.currency ≠ [] := by
  unfold isValid
  split_ifs with h₁ h₂
  · exact iff_of_false (fun h => nomatch h) (fun h => absurd h.1 (not_le.2 h₁))
  · exact iff_of_false (fun h => nomatch h) (fun h => h.2 h₂)
  · exact iff_of_true rfl ⟨not_lt.1 h₁, h₂⟩

theorem isValid_invalid : invalid.isValid ≠ .ok := by decide

/-! ## The functions on valid amounts -/

section Exact

variable {word : WordRule} (hw : ExactInRange word)
include hw

/-- `TALER_amount_normalize` keeps the units, and fails only if there are too many. -/
theorem normalize_eq {a : RawAmount} (ha : a.isValid = .ok) :
    ∃ r, (r = .sysErr ↔ limit ≤ a.units) ∧
      normalize word a = .ok (r, if limit ≤ a.units then invalid else ofUnits a.units a.currency) := by
  have hmax := (isValid_eq_ok.1 ha).1
  have hf := a.fraction.isLt
  unfold normalize units
  rw [if_neg (not_not_intro ha)]
  dsimp only [limit, maxValue, fracBase] at *
  by_cases hn : a.fraction.toNat < 100000000
  · have hlt : ¬ (2 ^ 52 + 1) * 100000000 ≤ a.value.toNat * 100000000 + a.fraction.toNat := by omega
    refine ⟨.no, iff_of_false (fun h => nomatch h) hlt, ?_⟩
    rw [if_pos hn, if_neg hlt, ← eq_ofUnits (v := a.value) (f := a.fraction)]
    · omega
    · omega
  · rw [if_neg hn]
    obtain ⟨f, hf₁, hf₂⟩ := hw.store (w := 32) (x := (a.fraction.toNat % 100000000 : ℕ))
      (by omega) (by omega)
    obtain ⟨v, hv₁, hv₂⟩ := hw.store (w := 64) (x := (a.value.toNat + a.fraction.toNat / 100000000 : ℕ))
      (by omega) (by omega)
    simp only [hf₁, hv₁, bind, Except.bind]
    by_cases hlim : (2 ^ 52 + 1) * 100000000 ≤ a.value.toNat * 100000000 + a.fraction.toNat
    · refine ⟨.sysErr, iff_of_true rfl hlim, ?_⟩
      rw [if_pos (by omega), if_pos hlim]
    · refine ⟨.ok, iff_of_false (fun h => nomatch h) hlim, ?_⟩
      rw [if_neg (by omega), if_neg hlim, eq_ofUnits]
      · omega
      · omega

/-- The code for a computed result. -/
def codeFor (n : ℕ) : ArithmeticResult := if n = 0 then .zero else .positive

omit hw in
theorem resultCode_ofUnits {n : ℕ} (h : n < limit) (cur : List Char) :
    resultCode (ofUnits n cur) = codeFor n := by
  have hv := value_ofUnits h cur
  have hf := fraction_ofUnits n cur
  unfold resultCode codeFor
  refine if_congr ?_ rfl rfl
  rw [← BitVec.toNat_inj, ← BitVec.toNat_inj, hv, hf]
  change n % 100000000 = 0 ∧ n / 100000000 = 0 ↔ n = 0
  omega

/-- `TALER_amount_cmp` compares the units. -/
theorem cmp_eq {a b : RawAmount} (ha : a.isValid = .ok) (hb : b.isValid = .ok)
    (hc : cmpCurrency a b = .ok) :
    cmp word a b = if limit ≤ a.units ∨ limit ≤ b.units then .error .assertion
      else .ok (Int.sign ((a.units : ℤ) - b.units)) := by
  obtain ⟨r₁, hr₁, hn₁⟩ := normalize_eq hw ha
  obtain ⟨r₂, hr₂, hn₂⟩ := normalize_eq hw hb
  unfold cmp
  rw [if_neg (not_not_intro hc)]
  simp only [hn₁, hn₂, bind, Except.bind, hr₁, hr₂]
  by_cases h₁ : limit ≤ a.units
  · rw [if_pos h₁, if_pos (Or.inl h₁)]
  by_cases h₂ : limit ≤ b.units
  · rw [if_neg h₁, if_pos h₂, if_pos (Or.inr h₂)]
  have hva := value_ofUnits (not_le.1 h₁) a.currency
  have hvb := value_ofUnits (not_le.1 h₂) b.currency
  have hfa := fraction_ofUnits a.units a.currency
  have hfb := fraction_ofUnits b.units b.currency
  simp only [if_neg h₁, if_neg h₂, ← BitVec.toNat_inj, hva, hvb, hfa, hfb]
  rw [if_neg (not_or.2 ⟨h₁, h₂⟩)]
  change (if a.units / 100000000 = b.units / 100000000 then
    if a.units % 100000000 < b.units % 100000000 then _
    else if a.units % 100000000 > b.units % 100000000 then _ else _
    else if a.units / 100000000 < b.units / 100000000 then _ else _) = _
  rcases lt_trichotomy a.units b.units with h | h | h
  · rw [Int.sign_eq_neg_one_of_neg (by omega)]
    split_ifs <;> first | rfl | omega
  · rw [h, sub_self, Int.sign_zero, if_pos rfl, if_neg (by omega), if_neg (by omega)]
  · rw [Int.sign_eq_one_of_pos (by omega)]
    split_ifs <;> first | rfl | omega

variable {P : Type} [DecidableEq P] {m : P → RawAmount} {d p q : P}

/-- `TALER_amount_add` adds the units. -/
theorem amountAdd_eq (ha : (m p).isValid = .ok) (hb : (m q).isValid = .ok)
    (hc : cmpCurrency (m p) (m q) = .ok) :
    amountAdd word m d p q =
      if limit ≤ (m p).units ∨ limit ≤ (m q).units then
        .ok (.normalizationFailed, Function.update m d invalid)
      else if checkCurrency (m p).currency ≠ .ok then .error .assertion
      else if limit ≤ (m p).units + (m q).units then
        .ok (.resultOverflow, Function.update m d invalid)
      else
        .ok (codeFor ((m p).units + (m q).units),
          Function.update m d (ofUnits ((m p).units + (m q).units) (m p).currency)) := by
  obtain ⟨r₁, hr₁, hn₁⟩ := normalize_eq hw ha
  obtain ⟨r₂, hr₂, hn₂⟩ := normalize_eq hw hb
  unfold amountAdd
  rw [if_neg (not_not_intro hc)]
  simp only [hn₁, hn₂, bind, Except.bind, hr₁, hr₂]
  by_cases h : limit ≤ (m p).units ∨ limit ≤ (m q).units
  · rw [if_pos h, if_pos h]
  obtain ⟨h₁, h₂⟩ := not_or.1 h
  simp only [if_neg h, if_neg h₁, if_neg h₂]
  by_cases hcur : checkCurrency (m p).currency = .ok
  swap
  · rw [if_pos hcur, if_pos hcur]
  rw [if_neg (not_not_intro hcur), if_neg (not_not_intro hcur)]
  have hva := value_ofUnits (not_le.1 h₁) (m p).currency
  have hvb := value_ofUnits (not_le.1 h₂) (m q).currency
  have hfa := fraction_ofUnits (m p).units (m p).currency
  have hfb := fraction_ofUnits (m q).units (m q).currency
  simp only [hva, hvb, hfa, hfb]
  generalize hx : (m p).units = x at *
  generalize hy : (m q).units = y at *
  dsimp only [limit, maxValue, fracBase] at *
  obtain ⟨v, hv₁, hv₂⟩ := hw.store (w := 64) (x := (x / 100000000 + y / 100000000 : ℕ))
    (by omega) (by omega)
  obtain ⟨f, hf₁, hf₂⟩ := hw.store (w := 32) (x := (x % 100000000 + y % 100000000 : ℕ))
    (by omega) (by omega)
  simp only [hv₁, hf₁]
  by_cases hmax : v.toNat < x / 100000000 ∨ v.toNat > 2 ^ 52
  · rw [if_pos hmax, if_pos (by omega)]
  rw [if_neg hmax]
  have hres : isValid { setZero (m p).currency with value := v, fraction := f } = .ok :=
    isValid_eq_ok.2 ⟨by dsimp only [maxValue]; omega, (isValid_eq_ok.1 ha).2⟩
  obtain ⟨r, hr, hn⟩ := normalize_eq hw hres
  simp only [hn, hr]
  have hunits : units { setZero (m p).currency with value := v, fraction := f } = x + y := by
    change v.toNat * 100000000 + f.toNat = x + y
    omega
  rw [hunits]
  by_cases hlim : (2 ^ 52 + 1) * 100000000 ≤ x + y
  · rw [if_pos hlim, if_pos hlim]
  · rw [if_neg hlim, if_neg hlim, if_neg hlim, resultCode_ofUnits (not_le.1 hlim)]
    rfl

/-- The borrow keeps the units, and leaves a fraction from which the other one can be taken. -/
theorem borrow_eq {x y : ℕ} (hx : x < limit) (cx cy : List Char)
    (hpos : ¬ (x % 100000000 < y % 100000000 ∧ x / 100000000 = 0)) :
    ∃ n, borrow word (ofUnits x cx) (ofUnits y cy) = .ok n ∧ n.currency = cx ∧
      n.value.toNat * 100000000 + n.fraction.toNat = x ∧ y % 100000000 ≤ n.fraction.toNat ∧
      n.fraction.toNat - y % 100000000 < 100000000 := by
  have hv := value_ofUnits hx cx
  have hf := fraction_ofUnits x cx
  have hf' := fraction_ofUnits y cy
  unfold borrow
  dsimp only [limit, maxValue, fracBase] at *
  rw [hf, hf', hv]
  by_cases hb : x % 100000000 < y % 100000000
  · rw [if_pos hb]
    obtain ⟨f, hf₁, hf₂⟩ := hw.store (w := 32) (x := (x % 100000000 + 100000000 : ℕ))
      (by omega) (by omega)
    obtain ⟨v, hv₁, hv₂⟩ := hw.store (w := 64) (x := ((x / 100000000 : ℕ) : ℤ) - 1)
      (by omega) (by omega)
    simp only [hf₁, hv₁, bind, Except.bind]
    refine ⟨_, rfl, rfl, ?_⟩
    dsimp only
    omega
  · rw [if_neg hb]
    refine ⟨_, rfl, rfl, ?_⟩
    omega

theorem subtractNormal_eq {x y : ℕ} (hx : x < limit) (hy : y < limit) (cx cy : List Char) :
    subtractNormal word m d (ofUnits x cx) (ofUnits y cy) =
      if x < y then .ok (.negativeResult, Function.update m d invalid)
      else if checkCurrency cx ≠ .ok then .error .assertion
      else .ok (codeFor (x - y), Function.update m d (ofUnits (x - y) cx)) := by
  have hva := value_ofUnits hx cx
  have hvb := value_ofUnits hy cy
  have hfa := fraction_ofUnits x cx
  have hfb := fraction_ofUnits y cy
  unfold subtractNormal
  rw [hfa, hfb, hva]
  dsimp only [limit, maxValue, fracBase] at *
  by_cases hpos : x % 100000000 < y % 100000000 ∧ x / 100000000 = 0
  · rw [if_pos hpos, if_pos (by omega)]
  rw [if_neg hpos]
  obtain ⟨n, hn, hcur, hunits, hle, hlt⟩ := borrow_eq hw hx cx cy hpos
  simp only [hn, bind, Except.bind, hvb, hcur]
  by_cases hneg : n.value.toNat < y / 100000000
  · rw [if_pos hneg, if_pos (by omega)]
  have hge : ¬ x < y := by omega
  rw [if_neg hneg, if_neg hge]
  by_cases hlegal : checkCurrency cx = .ok
  swap
  · rw [if_pos hlegal, if_pos hlegal]
  rw [if_neg (not_not_intro hlegal), if_neg (not_not_intro hlegal), if_neg (not_lt.2 hle)]
  obtain ⟨f, hf₁, hf₂⟩ := hw.store (w := 32)
    (x := (n.fraction.toNat : ℤ) - (y % 100000000 : ℕ)) (by omega) (by omega)
  obtain ⟨v, hv₁, hv₂⟩ := hw.store (w := 64)
    (x := (n.value.toNat : ℤ) - (y / 100000000 : ℕ)) (by omega) (by omega)
  simp only [hf₁, hv₁]
  have hres : { setZero cx with value := v, fraction := f } = ofUnits (x - y) cx :=
    eq_ofUnits (by omega) (by omega)
  have hlim : x - y < limit := by
    dsimp only [limit, maxValue, fracBase]
    omega
  rw [hres, resultCode_ofUnits hlim]

/-- `TALER_amount_subtract` subtracts the units. -/
theorem amountSubtract_eq (ha : (m p).isValid = .ok) (hb : (m q).isValid = .ok)
    (hc : cmpCurrency (m p) (m q) = .ok) :
    amountSubtract word m d p q =
      if limit ≤ (m p).units ∨ limit ≤ (m q).units then
        .ok (.normalizationFailed, Function.update m d invalid)
      else if (m p).units < (m q).units then .ok (.negativeResult, Function.update m d invalid)
      else if checkCurrency (m p).currency ≠ .ok then .error .assertion
      else
        .ok (codeFor ((m p).units - (m q).units),
          Function.update m d (ofUnits ((m p).units - (m q).units) (m p).currency)) := by
  obtain ⟨r₁, hr₁, hn₁⟩ := normalize_eq hw ha
  obtain ⟨r₂, hr₂, hn₂⟩ := normalize_eq hw hb
  unfold amountSubtract
  rw [if_neg (not_not_intro hc)]
  simp only [hn₁, hn₂, bind, Except.bind, hr₁, hr₂]
  by_cases h : limit ≤ (m p).units ∨ limit ≤ (m q).units
  · rw [if_pos h, if_pos h]
  obtain ⟨h₁, h₂⟩ := not_or.1 h
  rw [if_neg h, if_neg h, if_neg h₁, if_neg h₂]
  exact subtractNormal_eq hw (not_le.1 h₁) (not_le.1 h₂) _ _

omit hw in
theorem codeFor_succeeded (n : ℕ) : (codeFor n).succeeded = true := by
  unfold codeFor
  split_ifs <;> rfl

omit hw in
theorem isValid_ofUnits {n : ℕ} (h : n < limit) {cur : List Char} (hcur : cur ≠ []) :
    (ofUnits n cur).isValid = .ok := by
  refine isValid_eq_ok.2 ⟨?_, hcur⟩
  rw [value_ofUnits h]
  dsimp only [limit, maxValue, fracBase] at *
  omega

omit hw in
theorem cmpCurrency_congr {a a' b : RawAmount} (ha : a.isValid = .ok) (ha' : a'.isValid = .ok)
    (h : a.currency = a'.currency) : cmpCurrency a b = cmpCurrency a' b := by
  unfold cmpCurrency
  rw [ha, ha', h]

/-- A sum, less its second part. -/
theorem amountSubtract_amountAdd (ha : (m p).isValid = .ok) (hb : (m q).isValid = .ok)
    (hc : cmpCurrency (m p) (m q) = .ok) {r : ArithmeticResult} {m' : P → RawAmount}
    (h : amountAdd word m d p q = .ok (r, m')) (hr : r.succeeded = true) :
    (m' d).IsNormal ∧ ∀ (n : P → RawAmount) (e x y : P), n x = m' d → n y = m q →
      amountSubtract word n e x y =
        .ok (codeFor (m p).units, Function.update n e (ofUnits (m p).units (m p).currency)) := by
  rw [amountAdd_eq hw ha hb hc] at h
  split_ifs at h with h₁ h₂ h₃
  · cases h
    exact absurd hr Bool.false_ne_true
  · cases h
    exact absurd hr Bool.false_ne_true
  cases h
  rw [Function.update_self]
  refine ⟨isNormal_ofUnits _ _, fun n e x y hx hy => ?_⟩
  have hsum := not_le.1 h₃
  have hvalid := isValid_ofUnits hsum (isValid_eq_ok.1 ha).2
  have hunits := units_ofUnits hsum (m p).currency
  have hcur : cmpCurrency (n x) (n y) = .ok := by
    rw [hx, hy, cmpCurrency_congr hvalid ha (currency_ofUnits _ _), hc]
  rw [amountSubtract_eq hw (hx ▸ hvalid) (hy ▸ hb) hcur, hx, hy, hunits, Nat.add_sub_cancel,
    currency_ofUnits, if_neg (not_or.2 ⟨h₃, (not_or.1 h₁).2⟩), if_neg (not_lt.2 (Nat.le_add_left _ _))]
  exact if_neg h₂

end Exact

/-- **The arithmetic on amounts is exact**, with the result in one of the operands or not, and the same
whether an operation that wraps is allowed to or not. -/
theorem amountArithmetic_exact {word : WordRule} (hword : word = wrapping ∨ word = checked) {P : Type}
    [DecidableEq P] (m : P → RawAmount) (d p q : P) (ha : (m p).isValid = .ok)
    (hb : (m q).isValid = .ok) (hc : cmpCurrency (m p) (m q) = .ok) :
    cmp word (m p) (m q) =
      (if limit ≤ (m p).units ∨ limit ≤ (m q).units then .error .assertion
        else .ok (Int.sign (((m p).units : ℤ) - (m q).units))) ∧
    amountAdd word m d p q =
      (if limit ≤ (m p).units ∨ limit ≤ (m q).units then
        .ok (.normalizationFailed, Function.update m d invalid)
      else if checkCurrency (m p).currency ≠ .ok then .error .assertion
      else if limit ≤ (m p).units + (m q).units then
        .ok (.resultOverflow, Function.update m d invalid)
      else
        .ok (codeFor ((m p).units + (m q).units),
          Function.update m d (ofUnits ((m p).units + (m q).units) (m p).currency))) ∧
    amountSubtract word m d p q =
      (if limit ≤ (m p).units ∨ limit ≤ (m q).units then
        .ok (.normalizationFailed, Function.update m d invalid)
      else if (m p).units < (m q).units then .ok (.negativeResult, Function.update m d invalid)
      else if checkCurrency (m p).currency ≠ .ok then .error .assertion
      else
        .ok (codeFor ((m p).units - (m q).units),
          Function.update m d (ofUnits ((m p).units - (m q).units) (m p).currency))) ∧
    ∀ r m', amountAdd word m d p q = .ok (r, m') → r.succeeded = true →
      (m' d).IsNormal ∧ ∀ (n : P → RawAmount) (e x y : P), n x = m' d → n y = m q →
        amountSubtract word n e x y =
          .ok (codeFor (m p).units,
            Function.update n e (ofUnits (m p).units (m p).currency)) := by
  have hw : ExactInRange word := by
    rcases hword with rfl | rfl
    · exact exactInRange_wrapping
    · exact exactInRange_checked
  exact ⟨cmp_eq hw ha hb hc, amountAdd_eq hw ha hb hc, amountSubtract_eq hw ha hb hc,
    fun _ _ h hr => amountSubtract_amountAdd hw ha hb hc h hr⟩

/-- Two amounts, the first of them not normalised. -/
def twoAmounts (b : Bool) : RawAmount :=
  if b then ⟨2, 350000000, ['E', 'U', 'R']⟩ else ⟨5, 60000000, ['E', 'U', 'R']⟩

theorem amountArithmetic_exact_twoAmounts :
    cmp checked (twoAmounts true) (twoAmounts false) = .ok (-1) ∧
      amountSubtract checked twoAmounts true true false =
        .ok (.negativeResult, Function.update twoAmounts true invalid) := by
  have h := amountArithmetic_exact (Or.inr rfl) twoAmounts true true false (by decide) (by decide)
    (by decide)
  exact ⟨h.1.trans (by decide), h.2.2.1.trans ((if_neg (by decide)).trans (if_pos (by decide)))⟩

/-- `TALER_amount_cmp` does not return for a valid amount that does not normalise. -/
theorem not_cmp_exact :
    ¬ ∀ a b : RawAmount, a.isValid = .ok → b.isValid = .ok → checkCurrency a.currency = .ok →
      cmpCurrency a b = .ok →
      cmp wrapping a b = .ok (Int.sign ((a.units : ℤ) - b.units)) := by
  intro h
  have h' := h ⟨2 ^ 52, 100000000, ['E', 'U', 'R']⟩ ⟨1, 0, ['E', 'U', 'R']⟩ (by decide) (by decide)
    (by decide) (by decide)
  revert h'
  decide

end RawAmount

end TalerExchange
