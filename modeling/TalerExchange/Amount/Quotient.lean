import Mathlib.Data.BitVec
import Mathlib.Data.Rat.Floor
import Mathlib.Tactic.Linarith
import TalerExchange.Amount.Scale

/-!
# The quotient of two amounts

`TALER_amount_divide2`: the quotient is first estimated with doubles, and then counted up from a
little below the estimate by adding the divisor.

* `IsQuotient`: an estimate that is off by no more than the doubles may be;
  `isQuotient_doubleQuotient`: the one of the source is;
* `amountDivide2`: the function;
* `divideStep_eq`: one round of the loop; `divideLoop_eq`, `divideLoop_terminates`: the loop;
* **`amountDivide2_iff`**: when the quotient is right for every estimate.
-/

namespace TalerExchange

namespace RawAmount

/-! ## The estimate -/

/-- The error of a double against the number it is rounded from. -/
def ulpError : ℚ := 1 / 2 ^ 53

/-- The rounding of the result of an operation on doubles, for results that are not negative. -/
def Rounds (fl : ℚ → ℚ) : Prop := ∀ x, 0 ≤ x → |fl x - x| ≤ x * ulpError

/-- The units of an amount as a double; the conversions of the two parts are exact. -/
def doubleUnits (fl : ℚ → ℚ) (a : RawAmount) : ℚ :=
  fl (fl (a.value.toNat * fracBase) + a.fraction.toNat)

/-- `approx`. -/
def doubleQuotient (fl : ℚ → ℚ) (dividend divisor : RawAmount) : ℚ :=
  fl (doubleUnits fl dividend / doubleUnits fl divisor)

/-- The estimates that five roundings allow for. -/
def IsQuotient (quotient : RawAmount → RawAmount → ℚ) : Prop :=
  ∀ a b : RawAmount, 0 < b.units →
    |quotient a b * b.units - a.units| ≤ a.units * (6 * ulpError)

section Estimate

variable {fl : ℚ → ℚ} (hfl : Rounds fl)
include hfl

theorem Rounds.bounds {x : ℚ} (hx : 0 ≤ x) :
    x * (1 - ulpError) ≤ fl x ∧ fl x ≤ x * (1 + ulpError) := by
  have h := abs_le.mp (hfl x hx)
  constructor
  · linarith [h.1]
  · linarith [h.2]

theorem doubleUnits_bounds (a : RawAmount) :
    a.units * (1 - ulpError) ^ 2 ≤ doubleUnits fl a ∧
      doubleUnits fl a ≤ a.units * (1 + ulpError) ^ 2 := by
  have hu : 0 ≤ ulpError := by norm_num [ulpError]
  have hu₁ : 0 ≤ 1 - ulpError := by norm_num [ulpError]
  have hv : (0 : ℚ) ≤ a.value.toNat * fracBase := by positivity
  have hf : (0 : ℚ) ≤ a.fraction.toNat := Nat.cast_nonneg _
  have hunits : (a.units : ℚ) = a.value.toNat * fracBase + a.fraction.toNat := by
    unfold units
    push_cast
    rfl
  obtain ⟨hlow, hhigh⟩ := Rounds.bounds hfl hv
  have hsum : (0 : ℚ) ≤ fl (a.value.toNat * fracBase) + a.fraction.toNat :=
    add_nonneg ((mul_nonneg hv hu₁).trans hlow) hf
  obtain ⟨hlow', hhigh'⟩ := Rounds.bounds hfl hsum
  have hfu := mul_nonneg hf hu
  constructor
  · have h : a.units * (1 - ulpError) ≤ fl (a.value.toNat * fracBase) + a.fraction.toNat := by
      rw [hunits]
      linarith
    calc a.units * (1 - ulpError) ^ 2 = a.units * (1 - ulpError) * (1 - ulpError) := by ring
      _ ≤ _ := mul_le_mul_of_nonneg_right h hu₁
      _ ≤ doubleUnits fl a := hlow'
  · have h : fl (a.value.toNat * fracBase) + a.fraction.toNat ≤ a.units * (1 + ulpError) := by
      rw [hunits]
      linarith
    calc doubleUnits fl a ≤ _ := hhigh'
      _ ≤ a.units * (1 + ulpError) * (1 + ulpError) :=
        mul_le_mul_of_nonneg_right h (by linarith)
      _ = a.units * (1 + ulpError) ^ 2 := by ring

/-- The estimate of the source is off by no more than five roundings allow for. -/
theorem isQuotient_doubleQuotient : IsQuotient (doubleQuotient fl) := by
  intro a b hb
  have hu₁ : 0 < 1 - ulpError := by norm_num [ulpError]
  have hu₂ : 0 < 1 + ulpError := by norm_num [ulpError]
  have hB : (0 : ℚ) < b.units := Nat.cast_pos.mpr hb
  have hA : (0 : ℚ) ≤ a.units := Nat.cast_nonneg _
  obtain ⟨ha₁, ha₂⟩ := doubleUnits_bounds hfl a
  obtain ⟨hb₁, hb₂⟩ := doubleUnits_bounds hfl b
  have hr : 0 < doubleUnits fl b := lt_of_lt_of_le (mul_pos hB (pow_pos hu₁ 2)) hb₁
  have hd : 0 ≤ doubleUnits fl a := (mul_nonneg hA (pow_nonneg hu₁.le 2)).trans ha₁
  have hz : 0 ≤ doubleUnits fl a / doubleUnits fl b := div_nonneg hd hr.le
  obtain ⟨hlow, hhigh⟩ := Rounds.bounds hfl hz
  have hzr : doubleUnits fl a / doubleUnits fl b * doubleUnits fl b = doubleUnits fl a :=
    div_mul_cancel₀ _ hr.ne'
  change |fl (doubleUnits fl a / doubleUnits fl b) * _ - _| ≤ _
  generalize doubleUnits fl a / doubleUnits fl b = z at *
  have hup : fl z * b.units ≤ a.units * (1 + 6 * ulpError) := by
    refine le_of_mul_le_mul_right ?_ (pow_pos hu₁ 2)
    calc fl z * b.units * (1 - ulpError) ^ 2
        ≤ z * (1 + ulpError) * b.units * (1 - ulpError) ^ 2 := by gcongr
      _ = z * (b.units * (1 - ulpError) ^ 2) * (1 + ulpError) := by ring
      _ ≤ z * doubleUnits fl b * (1 + ulpError) := by gcongr
      _ ≤ a.units * (1 + ulpError) ^ 2 * (1 + ulpError) := by
        rw [hzr]
        gcongr
      _ = a.units * ((1 + ulpError) ^ 2 * (1 + ulpError)) := by ring
      _ ≤ a.units * ((1 + 6 * ulpError) * (1 - ulpError) ^ 2) :=
        mul_le_mul_of_nonneg_left (by norm_num [ulpError]) hA
      _ = a.units * (1 + 6 * ulpError) * (1 - ulpError) ^ 2 := by ring
  have hdown : a.units * (1 - 6 * ulpError) ≤ fl z * b.units := by
    refine le_of_mul_le_mul_right ?_ (pow_pos hu₂ 2)
    calc a.units * (1 - 6 * ulpError) * (1 + ulpError) ^ 2
        = a.units * ((1 - 6 * ulpError) * (1 + ulpError) ^ 2) := by ring
      _ ≤ a.units * ((1 - ulpError) ^ 2 * (1 - ulpError)) :=
        mul_le_mul_of_nonneg_left (by norm_num [ulpError]) hA
      _ = a.units * (1 - ulpError) ^ 2 * (1 - ulpError) := by ring
      _ ≤ z * doubleUnits fl b * (1 - ulpError) := by
        rw [hzr]
        gcongr
      _ ≤ z * (b.units * (1 + ulpError) ^ 2) * (1 - ulpError) := by gcongr
      _ = z * (1 - ulpError) * b.units * (1 + ulpError) ^ 2 := by ring
      _ ≤ fl z * b.units * (1 + ulpError) ^ 2 := by gcongr
  rw [abs_le]
  constructor
  · linarith
  · linarith

end Estimate

/-! ## The function -/

/-- `INT_MAX`. -/
abbrev intMax : ℕ := 2 ^ 31 - 1

/-- The amounts that `TALER_amount_divide2` points to. -/
inductive DivideVar
  | dividend
  | divisor
  | tmp
  | nxt
deriving DecidableEq, Repr

/-- One round of the loop with `ret` at this value: `none` where the loop ends, else the memory
for the next round. -/
def divideStep (m : DivideVar → RawAmount) (ret : ℕ) :
    Except Fault (Option (DivideVar → RawAmount)) := do
  let (r, m) ← amountAdd wrapping m .nxt .tmp .divisor
  if r.succeeded = false then .error .assertion
  else
    let c ← cmp wrapping (m .nxt) (m .dividend)
    if c = 1 then .ok none
    -- `ret` is an `int`.
    else if ret = intMax then .error .overflow
    else .ok (some (Function.update m .tmp (m .nxt)))

/-- The loop; `none` if it has not ended after so many rounds. -/
def divideLoop : ℕ → (DivideVar → RawAmount) → ℕ → Option (Except Fault ℤ)
  | 0, _, _ => none
  | rounds + 1, m, ret =>
    match divideStep m ret with
    | .error e => some (.error e)
    | .ok none => some (.ok ret)
    | .ok (some m) => divideLoop rounds m (ret + 1)

/-- Where the loop starts. -/
def startValue (approx : ℚ) : ℕ := if approx < 2 then 0 else ⌊approx⌋.toNat - 2

/-- `TALER_amount_divide2`, with the estimate that the doubles give; `tmp` and `nxt` may hold
anything before. -/
def amountDivide2 (quotient : RawAmount → RawAmount → ℚ) (rounds : ℕ) (m : DivideVar → RawAmount) :
    Option (Except Fault ℤ) :=
  if cmpCurrency (m .dividend) (m .divisor) ≠ .ok then some (.ok (-1))
  else if (m .divisor).fraction = 0 ∧ (m .divisor).value = 0 then some (.ok intMax)
  else
    let approx := quotient (m .dividend) (m .divisor)
    if approx > intMax then some (.ok intMax)
    else
      match amountMultiply wrapping m .tmp .divisor (BitVec.ofNat 32 (startValue approx)) with
      | .error e => some (.error e)
      | .ok (r, m) =>
        if r.succeeded = false then some (.error .assertion)
        else divideLoop rounds m (startValue approx)

/-! ## One round -/

/-- The memory when `ret` multiples of the divisor have been found to fit. -/
structure Counted (dividend divisor : RawAmount) (m : DivideVar → RawAmount) (ret : ℕ) : Prop where
  dividend_eq : m .dividend = dividend
  divisor_eq : m .divisor = divisor
  tmp_eq : m .tmp = ofUnits (ret * divisor.units) divisor.currency
  lt_limit : ret * divisor.units < limit

/-- The first multiple of the divisor above the dividend is an amount, of a legal currency. -/
def NextFits (dividend divisor : RawAmount) : Prop :=
  (dividend.units / divisor.units + 1) * divisor.units < limit ∧
    checkCurrency divisor.currency = .ok

theorem cmpCurrency_eq_ok {a b : RawAmount} (ha : a.isValid = .ok) (hb : b.isValid = .ok) :
    cmpCurrency a b = .ok ↔ a.currency.map Char.toLower = b.currency.map Char.toLower := by
  have hvalid : ¬(a.isValid = .no ∨ b.isValid = .no) := by
    rw [ha, hb]
    decide
  unfold cmpCurrency sameIgnoringCase
  rw [if_neg hvalid]
  by_cases h : a.currency.map Char.toLower = b.currency.map Char.toLower
  · rw [if_pos (decide_eq_true h)]
    exact iff_of_true rfl h
  · rw [if_neg fun hs => h (of_decide_eq_true hs)]
    exact iff_of_false nofun h

theorem ok_bind {ε α β : Type} (x : α) (f : α → Except ε β) : (Except.ok x >>= f) = f x := rfl

section Loop

variable {dividend divisor : RawAmount} (ha : dividend.isValid = .ok) (hb : divisor.isValid = .ok)
  (hc : cmpCurrency dividend divisor = .ok)
include ha hb hc

theorem divideStep_eq {m : DivideVar → RawAmount} {ret : ℕ} (h : Counted dividend divisor m ret) :
    divideStep m ret =
      if limit ≤ (ret + 1) * divisor.units ∨ checkCurrency divisor.currency ≠ .ok ∨
          limit ≤ dividend.units then .error .assertion
      else if dividend.units < (ret + 1) * divisor.units then .ok none
      else if ret = intMax then .error .overflow
      else .ok (some (Function.update
        (Function.update m .nxt (ofUnits ((ret + 1) * divisor.units) divisor.currency))
        .tmp (ofUnits ((ret + 1) * divisor.units) divisor.currency))) := by
  have hcur := (isValid_eq_ok.mp hb).2
  have htmp : (m .tmp).isValid = .ok := h.tmp_eq ▸ isValid_ofUnits h.lt_limit hcur
  have hdiv : (m .divisor).isValid = .ok := h.divisor_eq ▸ hb
  have hsame : cmpCurrency (m .tmp) (m .divisor) = .ok := by
    rw [cmpCurrency_eq_ok htmp hdiv, h.tmp_eq, h.divisor_eq, currency_ofUnits]
  have hsum : (ret + 1) * divisor.units = ret * divisor.units + divisor.units := Nat.succ_mul _ _
  have hadd := amountAdd_eq exactInRange_wrapping (d := DivideVar.nxt) htmp hdiv hsame
  rw [h.divisor_eq, h.tmp_eq, units_ofUnits h.lt_limit, currency_ofUnits, ← hsum] at hadd
  -- The parts of the next multiple are not to be unfolded.
  obtain ⟨n, hn⟩ : ∃ n, n = ofUnits ((ret + 1) * divisor.units) divisor.currency := ⟨_, rfl⟩
  rw [← hn] at hadd ⊢
  unfold divideStep
  rw [hadd]
  by_cases hlim : limit ≤ (ret + 1) * divisor.units
  · rw [if_pos (Or.inl hlim)]
    split_ifs <;> rfl
  have hone : ¬(limit ≤ ret * divisor.units ∨ limit ≤ divisor.units) := by omega
  rw [if_neg hone]
  by_cases hlegal : checkCurrency divisor.currency = .ok
  swap
  · rw [if_pos hlegal, if_pos (Or.inr (Or.inl hlegal))]
    rfl
  rw [if_neg (not_not_intro hlegal), if_neg hlim]
  have hnext : n.isValid = .ok := hn ▸ isValid_ofUnits (not_le.mp hlim) hcur
  have hunits : n.units = (ret + 1) * divisor.units := hn ▸ units_ofUnits (not_le.mp hlim) _
  have hcmp : cmpCurrency n dividend = .ok := by
    rw [cmpCurrency_eq_ok hnext ha, hn, currency_ofUnits, (cmpCurrency_eq_ok ha hb).mp hc]
  have hcompare := cmp_eq exactInRange_wrapping hnext ha hcmp
  rw [hunits] at hcompare
  have hcode := codeFor_succeeded ((ret + 1) * divisor.units)
  generalize codeFor ((ret + 1) * divisor.units) = r at hcode ⊢
  have hval : Function.update m DivideVar.nxt n .nxt = n := Function.update_self _ _ _
  have hold : Function.update m DivideVar.nxt n .dividend = dividend :=
    (Function.update_of_ne (by decide) _ _).trans h.dividend_eq
  rw [ok_bind]
  dsimp only
  rw [if_neg fun h => Bool.noConfusion (hcode.symm.trans h), hval, hold, hcompare]
  by_cases hbig : limit ≤ dividend.units
  · rw [if_pos (Or.inr hbig), if_pos (Or.inr (Or.inr hbig))]
    rfl
  · rw [if_neg (not_or.mpr ⟨hlim, hbig⟩),
      if_neg (not_or.mpr ⟨hlim, not_or.mpr ⟨not_not_intro hlegal, hbig⟩⟩)]
    have hsign : Int.sign (((ret + 1) * divisor.units : ℕ) - (dividend.units : ℤ)) = 1 ↔
        dividend.units < (ret + 1) * divisor.units := by
      rw [Int.sign_eq_one_iff_pos]
      omega
    rw [ok_bind]
    exact if_congr hsign rfl rfl

omit ha hb hc in
theorem Counted.next {m : DivideVar → RawAmount} {ret : ℕ} (h : Counted dividend divisor m ret)
    (hlt : (ret + 1) * divisor.units < limit) : Counted dividend divisor (Function.update
      (Function.update m .nxt (ofUnits ((ret + 1) * divisor.units) divisor.currency))
      .tmp (ofUnits ((ret + 1) * divisor.units) divisor.currency)) (ret + 1) where
  dividend_eq := h.dividend_eq
  divisor_eq := h.divisor_eq
  tmp_eq := rfl
  lt_limit := hlt

/-! ## The loop -/

variable (hpos : 0 < divisor.units)
include hpos

/-- With enough rounds the loop ends with the quotient. -/
theorem divideLoop_eq (hfits : NextFits dividend divisor)
    (hmax : dividend.units / divisor.units ≤ intMax) (rounds : ℕ) {m : DivideVar → RawAmount}
    {ret : ℕ} (h : Counted dividend divisor m ret) (hle : ret ≤ dividend.units / divisor.units)
    (hlt : dividend.units / divisor.units < ret + rounds) :
    divideLoop rounds m ret = some (.ok (dividend.units / divisor.units : ℕ)) := by
  induction rounds generalizing m ret with
  | zero => omega
  | succ rounds ih =>
    have hdiv : dividend.units < (dividend.units / divisor.units + 1) * divisor.units :=
      Nat.lt_mul_of_div_lt (Nat.lt_succ_self _) hpos
    have hnext : (ret + 1) * divisor.units ≤
        (dividend.units / divisor.units + 1) * divisor.units := Nat.mul_le_mul_right _ (by omega)
    have hstep := divideStep_eq ha hb hc h
    have hgo : ¬(limit ≤ (ret + 1) * divisor.units ∨ checkCurrency divisor.currency ≠ .ok ∨
        limit ≤ dividend.units) := by
      rintro (hlim | hlegal | hlim)
      · exact absurd (hnext.trans_lt hfits.1) (not_lt.mpr hlim)
      · exact hlegal hfits.2
      · exact absurd (hdiv.trans hfits.1) (not_lt.mpr hlim)
    rw [if_neg hgo] at hstep
    rw [divideLoop]
    by_cases hend : dividend.units < (ret + 1) * divisor.units
    · have hret : dividend.units / divisor.units = ret :=
        Nat.le_antisymm (Nat.lt_succ_iff.mp (Nat.div_lt_of_lt_mul (by rwa [Nat.mul_comm]))) hle
      rw [hstep, if_pos hend, hret]
    · have hret : ret + 1 ≤ dividend.units / divisor.units :=
        (Nat.le_div_iff_mul_le hpos).mpr (not_lt.mp hend)
      rw [hstep, if_neg hend, if_neg (by omega)]
      exact ih (h.next (hnext.trans_lt hfits.1)) hret (by omega)

omit hpos in
/-- The loop ends with a number only if it could add the divisor once more. -/
theorem divideLoop_fits (rounds : ℕ) {m : DivideVar → RawAmount} {ret : ℕ} {r : ℤ}
    (h : Counted dividend divisor m ret) (hle : ret * divisor.units ≤ dividend.units)
    (hrun : divideLoop rounds m ret = some (.ok r)) : NextFits dividend divisor := by
  induction rounds generalizing m ret with
  | zero => cases hrun
  | succ rounds ih =>
    rw [divideLoop, divideStep_eq ha hb hc h] at hrun
    by_cases hgo : limit ≤ (ret + 1) * divisor.units ∨ checkCurrency divisor.currency ≠ .ok ∨
        limit ≤ dividend.units
    · rw [if_pos hgo] at hrun
      cases hrun
    obtain ⟨hlim, hgo'⟩ := not_or.mp hgo
    rw [if_neg hgo] at hrun
    by_cases hend : dividend.units < (ret + 1) * divisor.units
    · have hret : dividend.units / divisor.units = ret := Nat.div_eq_of_lt_le hle hend
      exact ⟨by rw [hret]; exact not_le.mp hlim, not_not.mp (not_or.mp hgo').1⟩
    · rw [if_neg hend] at hrun
      by_cases hint : ret = intMax
      · rw [if_pos hint] at hrun
        cases hrun
      · rw [if_neg hint] at hrun
        exact ih (h.next (not_le.mp hlim)) (not_lt.mp hend) hrun

/-- The loop ends, with a number or in an assertion. -/
theorem divideLoop_terminates (rounds : ℕ) {m : DivideVar → RawAmount} {ret : ℕ}
    (h : Counted dividend divisor m ret)
    (hlt : dividend.units / divisor.units < ret + rounds)
    (hle : ret ≤ dividend.units / divisor.units) :
    divideLoop rounds m ret ≠ none := by
  induction rounds generalizing m ret with
  | zero => omega
  | succ rounds ih =>
    rw [divideLoop, divideStep_eq ha hb hc h]
    by_cases hgo : limit ≤ (ret + 1) * divisor.units ∨ checkCurrency divisor.currency ≠ .ok ∨
        limit ≤ dividend.units
    · rw [if_pos hgo]
      nofun
    rw [if_neg hgo]
    by_cases hend : dividend.units < (ret + 1) * divisor.units
    · rw [if_pos hend]
      nofun
    rw [if_neg hend]
    by_cases hint : ret = intMax
    · rw [if_pos hint]
      nofun
    rw [if_neg hint]
    have hret : ret + 1 ≤ dividend.units / divisor.units :=
      (Nat.le_div_iff_mul_le hpos).mpr (not_lt.mp hend)
    exact ih (h.next (not_le.mp (not_or.mp hgo).1)) (by omega) hret

end Loop

/-! ## Where the loop starts -/

section Start

variable {x y : ℕ} {approx : ℚ} (h : |approx * y - x| ≤ x * (6 * ulpError))
include h

theorem mul_lt_of_intMax_lt (hy : 0 < y) (hmax : (intMax : ℚ) < approx) :
    intMax * y * 2 ^ 53 < x * (2 ^ 53 + 6) := by
  have hy' : (0 : ℚ) < y := Nat.cast_pos.mpr hy
  have hmul : (intMax : ℚ) * y < approx * y := mul_lt_mul_of_pos_right hmax hy'
  have hup := (abs_le.mp h).2
  have hlt : (intMax * y * 2 ^ 53 : ℚ) < x * (2 ^ 53 + 6) := by
    unfold ulpError at hup
    linarith
  exact_mod_cast hlt

theorem mul_le_of_le_intMax (hmax : approx ≤ intMax) : x * (2 ^ 53 - 6) ≤ intMax * y * 2 ^ 53 := by
  have hmul : approx * y ≤ (intMax : ℚ) * y := mul_le_mul_of_nonneg_right hmax (Nat.cast_nonneg _)
  have hlow := (abs_le.mp h).1
  have hle : (x * 9007199254740986 : ℚ) ≤ intMax * y * 2 ^ 53 := by
    unfold ulpError at hlow
    linarith
  exact_mod_cast hle

omit h in
theorem startValue_le (hmax : approx ≤ intMax) : startValue approx ≤ intMax := by
  have hfloor : ((⌊approx⌋ : ℤ) : ℚ) ≤ ((intMax : ℤ) : ℚ) := (Int.floor_le approx).trans hmax
  have hle : ⌊approx⌋ ≤ (intMax : ℤ) := Int.cast_le.mp hfloor
  unfold startValue
  split_ifs <;> omega

/-- The loop starts at most at the quotient, and less than four rounds away from its end. -/
theorem startValue_bounds (hy : 0 < y) (hmax : approx ≤ intMax) :
    startValue approx * y ≤ x ∧ x < (startValue approx + 4) * y := by
  have hbound := mul_le_of_le_intMax h hmax
  have hx : x < 2 ^ 31 * y := by
    dsimp only [intMax] at hbound
    omega
  have hy' : (0 : ℚ) < y := Nat.cast_pos.mpr hy
  have hx' : (x : ℚ) < 2 ^ 31 * y := by exact_mod_cast hx
  have herr : x * (6 * ulpError) ≤ y := by
    unfold ulpError
    linarith
  obtain ⟨hlow, hup⟩ := abs_le.mp (h.trans herr)
  unfold startValue
  by_cases htwo : approx < 2
  · have hmul : approx * y < 2 * y := mul_lt_mul_of_pos_right htwo hy'
    have hlt : (x : ℚ) < (0 + 4) * y := by linarith
    rw [if_pos htwo]
    exact ⟨by omega, by exact_mod_cast hlt⟩
  -- The estimate lies between its integral part and the next integer.
  have hfloor : 2 ≤ ⌊approx⌋ := Int.le_floor.mpr (not_lt.mp htwo)
  obtain ⟨k, hk⟩ : ∃ k : ℕ, ⌊approx⌋ = k + 2 := ⟨(⌊approx⌋ - 2).toNat, by omega⟩
  have hstart : ⌊approx⌋.toNat - 2 = k := by omega
  have hk₁ : (k : ℚ) + 2 ≤ approx := by
    have hle := Int.floor_le approx
    rw [hk] at hle
    exact_mod_cast hle
  have hk₂ : approx < (k : ℚ) + 3 := by
    have hlt := Int.lt_floor_add_one approx
    rw [hk] at hlt
    push_cast at hlt
    linarith
  have hmul₁ := mul_le_mul_of_nonneg_right hk₁ hy'.le
  have hmul₂ := mul_lt_mul_of_pos_right hk₂ hy'
  rw [if_neg htwo, hstart]
  constructor
  · have hle : (k * y : ℚ) ≤ x := by linarith
    exact_mod_cast hle
  · have hlt : (x : ℚ) < (k + 4) * y := by linarith
    exact_mod_cast hlt

end Start

/-! ## The quotient -/

section Quotient

variable {m : DivideVar → RawAmount} (ha : (m .dividend).isValid = .ok)
  (hb : (m .divisor).isValid = .ok) (hc : cmpCurrency (m .dividend) (m .divisor) = .ok)
  (hne : ¬((m .divisor).fraction = 0 ∧ (m .divisor).value = 0))

include hne in
theorem units_pos_of_ne : 0 < (m .divisor).units := by
  rw [← BitVec.toNat_inj, ← BitVec.toNat_inj] at hne
  change ¬((m .divisor).fraction.toNat = 0 ∧ (m .divisor).value.toNat = 0) at hne
  change 0 < (m .divisor).value.toNat * 100000000 + (m .divisor).fraction.toNat
  omega

include hc hne

theorem amountDivide2_capped {quotient : RawAmount → RawAmount → ℚ} (rounds : ℕ)
    (hmax : (intMax : ℚ) < quotient (m .dividend) (m .divisor)) :
    amountDivide2 quotient rounds m = some (.ok intMax) := by
  unfold amountDivide2
  rw [if_neg (not_not_intro hc), if_neg hne]
  exact if_pos hmax

include hb

/-- Unless the estimate is beyond the range of the result, the loop is all that matters. -/
theorem amountDivide2_loop {quotient : RawAmount → RawAmount → ℚ} (hq : IsQuotient quotient)
    (hmax : quotient (m .dividend) (m .divisor) ≤ intMax) :
    (∃ m', Counted (m .dividend) (m .divisor) m'
        (startValue (quotient (m .dividend) (m .divisor))) ∧ ∀ rounds,
      amountDivide2 quotient rounds m =
        divideLoop rounds m' (startValue (quotient (m .dividend) (m .divisor)))) ∨
    ((∀ rounds, amountDivide2 quotient rounds m = some (.error .assertion)) ∧
      ¬NextFits (m .dividend) (m .divisor)) := by
  have hpos := units_pos_of_ne hne
  have hbound := hq (m .dividend) (m .divisor) hpos
  have hstart := (startValue_bounds hbound hpos hmax).1
  have hrange := startValue_le hmax
  unfold amountDivide2
  simp only [if_neg (not_not_intro hc), if_neg hne, if_neg (not_lt.mpr hmax)]
  generalize startValue (quotient (m .dividend) (m .divisor)) = start at *
  have hfactor : (BitVec.ofNat 32 start).toNat = start := by
    rw [BitVec.toNat_ofNat]
    exact Nat.mod_eq_of_lt (lt_of_le_of_lt hrange (by decide))
  obtain ⟨a, hmul⟩ := amountMultiply_eq exactInRange_wrapping (d := DivideVar.tmp) hb
    (BitVec.ofNat 32 start)
  rw [hfactor, Nat.mul_comm] at hmul
  rw [hmul]
  by_cases hdiv : limit ≤ (m .divisor).units
  · refine Or.inr ⟨fun _ => by rw [if_pos hdiv]; rfl, fun hfits => ?_⟩
    exact absurd hfits.1 (not_lt.mpr (hdiv.trans (Nat.le_mul_of_pos_left _ (Nat.succ_pos _))))
  by_cases hprod : limit ≤ start * (m .divisor).units
  · refine Or.inr ⟨fun _ => by rw [if_neg hdiv, if_pos hprod]; rfl, fun hfits => ?_⟩
    have hle : start ≤ (m .dividend).units / (m .divisor).units + 1 :=
      ((Nat.le_div_iff_mul_le hpos).mpr hstart).trans (Nat.le_succ _)
    exact absurd hfits.1 (not_lt.mpr (hprod.trans (Nat.mul_le_mul_right _ hle)))
  · refine Or.inl ⟨Function.update m .tmp (ofUnits (start * (m .divisor).units) _),
      ⟨?_, ?_, Function.update_self _ _ _, not_le.mp hprod⟩, fun rounds => ?_⟩
    · exact Function.update_of_ne (by decide) _ _
    · exact Function.update_of_ne (by decide) _ _
    · rw [if_neg hdiv, if_neg hprod]
      exact if_neg fun hcode => Bool.noConfusion ((codeFor_succeeded _).symm.trans hcode)

include ha

/-- A number is returned only if the loop could go on after the last round. -/
theorem nextFits_of_amountDivide2 {quotient : RawAmount → RawAmount → ℚ}
    (hq : IsQuotient quotient) (hmax : quotient (m .dividend) (m .divisor) ≤ intMax) {rounds : ℕ}
    {r : ℤ} (hrun : amountDivide2 quotient rounds m = some (.ok r)) :
    NextFits (m .dividend) (m .divisor) := by
  have hpos := units_pos_of_ne hne
  rcases amountDivide2_loop hb hc hne hq hmax with ⟨m', hm', hloop⟩ | ⟨herr, -⟩
  · rw [hloop] at hrun
    have hstart := (startValue_bounds (hq _ _ hpos) hpos hmax).1
    exact divideLoop_fits ha hb hc rounds hm' hstart hrun
  · rw [herr] at hrun
    cases hrun

theorem amountDivide2_eq {quotient : RawAmount → RawAmount → ℚ} (hq : IsQuotient quotient)
    (hmax : quotient (m .dividend) (m .divisor) ≤ intMax)
    (hfits : NextFits (m .dividend) (m .divisor)) {rounds : ℕ} (hrounds : 4 ≤ rounds) :
    amountDivide2 quotient rounds m =
      some (.ok (min ((m .dividend).units / (m .divisor).units) intMax : ℕ)) := by
  have hpos := units_pos_of_ne hne
  have hbound := hq (m .dividend) (m .divisor) hpos
  obtain ⟨hle, hlt⟩ := startValue_bounds hbound hpos hmax
  have hquot : (m .dividend).units / (m .divisor).units ≤ intMax := by
    have hmul := mul_le_of_le_intMax hbound hmax
    refine Nat.lt_succ_iff.mp ((Nat.div_lt_iff_lt_mul hpos).mpr ?_)
    dsimp only [intMax] at *
    omega
  rcases amountDivide2_loop hb hc hne hq hmax with ⟨m', hm', hloop⟩ | ⟨-, hnot⟩
  · rw [hloop, min_eq_left hquot]
    have hend := (Nat.div_lt_iff_lt_mul hpos).mpr hlt
    exact divideLoop_eq ha hb hc hpos hfits hquot rounds hm' ((Nat.le_div_iff_mul_le hpos).mpr hle)
      (by omega)
  · exact absurd hfits hnot

theorem amountDivide2_terminates {quotient : RawAmount → RawAmount → ℚ} (hq : IsQuotient quotient)
    {rounds : ℕ} (hrounds : 4 ≤ rounds) : amountDivide2 quotient rounds m ≠ none := by
  have hpos := units_pos_of_ne hne
  by_cases hmax : quotient (m .dividend) (m .divisor) ≤ intMax
  swap
  · rw [amountDivide2_capped hc hne rounds (not_le.mp hmax)]
    nofun
  obtain ⟨hle, hlt⟩ := startValue_bounds (hq _ _ hpos) hpos hmax
  rcases amountDivide2_loop hb hc hne hq hmax with ⟨m', hm', hloop⟩ | ⟨herr, -⟩
  · rw [hloop]
    have hend := (Nat.div_lt_iff_lt_mul hpos).mpr hlt
    exact divideLoop_terminates ha hb hc hpos rounds hm' (by omega)
      ((Nat.le_div_iff_mul_le hpos).mpr hle)
  · rw [herr]
    nofun

end Quotient

/-- An estimate that is off by a constant factor. -/
theorem isQuotient_mul {c : ℚ} (hc : |c - 1| ≤ 6 * ulpError) :
    IsQuotient fun a b => a.units / b.units * c := by
  intro a b hb
  have hb' : (b.units : ℚ) ≠ 0 := Nat.cast_ne_zero.mpr hb.ne'
  have ha' : (0 : ℚ) ≤ a.units := Nat.cast_nonneg _
  have hdiff : (a.units : ℚ) / b.units * c * b.units - a.units = a.units * (c - 1) := by
    field_simp
  rw [hdiff, abs_mul, abs_of_nonneg ha']
  exact mul_le_mul_of_nonneg_left hc ha'

theorem lt_largest {k x y : ℕ} (hy : 0 < y) (hlt : k * y * 2 ^ 53 < x * (2 ^ 53 + 6)) :
    (k : ℚ) < x / y * (1 + 6 * ulpError) := by
  have hy' : (0 : ℚ) < y := Nat.cast_pos.mpr hy
  have hcast : (k * y * 2 ^ 53 : ℚ) < x * (2 ^ 53 + 6) := by exact_mod_cast hlt
  rw [div_mul_eq_mul_div, lt_div_iff₀ hy']
  unfold ulpError
  linarith

theorem smallest_le {k x y : ℕ} (hy : 0 < y) (hle : x * (2 ^ 53 - 6) ≤ k * y * 2 ^ 53) :
    x / y * (1 - 6 * ulpError) ≤ (k : ℚ) := by
  have hy' : (0 : ℚ) < y := Nat.cast_pos.mpr hy
  have hcast : (x * 9007199254740986 : ℚ) ≤ k * y * 2 ^ 53 := by exact_mod_cast hle
  rw [div_mul_eq_mul_div, div_le_iff₀ hy']
  unfold ulpError
  linarith

/-- When every estimate leads to the quotient: the quotient is not so little below `INT_MAX` that
an estimate may lie above, and unless all estimates lie above, the divisor can be added once more
after the last round. -/
structure QuotientFits (dividend divisor : RawAmount) : Prop where
  capped : dividend.units * (2 ^ 53 + 6) ≤ intMax * divisor.units * 2 ^ 53 ∨
    intMax * divisor.units ≤ dividend.units
  next : dividend.units * (2 ^ 53 - 6) ≤ intMax * divisor.units * 2 ^ 53 →
    NextFits dividend divisor

/-- **The quotient of two amounts** is found after at most four rounds, or an assertion fails; and
exactly when it is found whatever the doubles make of it. -/
theorem amountDivide2_iff {m : DivideVar → RawAmount} (ha : (m .dividend).isValid = .ok)
    (hb : (m .divisor).isValid = .ok) (hc : cmpCurrency (m .dividend) (m .divisor) = .ok)
    (hne : ¬((m .divisor).fraction = 0 ∧ (m .divisor).value = 0)) :
    (∀ quotient, IsQuotient quotient → ∀ rounds ≥ 4, amountDivide2 quotient rounds m ≠ none) ∧
    ((∀ quotient, IsQuotient quotient → ∀ rounds ≥ 4, amountDivide2 quotient rounds m =
        some (.ok (min ((m .dividend).units / (m .divisor).units) intMax : ℕ))) ↔
      QuotientFits (m .dividend) (m .divisor)) := by
  have hpos := units_pos_of_ne hne
  refine ⟨fun quotient hq rounds hrounds => amountDivide2_terminates ha hb hc hne hq hrounds,
    fun h => ⟨?_, fun hnext => ?_⟩, fun h quotient hq rounds hrounds => ?_⟩
  · -- The largest estimate.
    have hq : IsQuotient _ := isQuotient_mul (c := 1 + 6 * ulpError) (by norm_num [ulpError])
    by_contra hnot
    obtain ⟨hfar, hbelow⟩ := not_or.mp hnot
    have hrun := h _ hq 4 le_rfl
    rw [amountDivide2_capped hc hne 4 (lt_largest hpos (not_le.mp hfar))] at hrun
    have hmin : intMax ≤ (m .dividend).units / (m .divisor).units := by
      have heq : (intMax : ℤ) = (min ((m .dividend).units / (m .divisor).units) intMax : ℕ) :=
        Except.ok.inj (Option.some.inj hrun)
      exact min_eq_right_iff.mp (Nat.cast_injective heq).symm
    exact hbelow ((Nat.le_div_iff_mul_le hpos).mp hmin)
  · -- The smallest estimate.
    have hq : IsQuotient _ := isQuotient_mul (c := 1 - 6 * ulpError) (by norm_num [ulpError])
    exact nextFits_of_amountDivide2 ha hb hc hne hq (smallest_le hpos hnext)
      (h _ hq 4 le_rfl)
  · by_cases hmax : quotient (m .dividend) (m .divisor) ≤ intMax
    · have hle := mul_le_of_le_intMax (hq _ _ hpos) hmax
      exact amountDivide2_eq ha hb hc hne hq hmax (h.next hle) hrounds
    · have hlt := mul_lt_of_intMax_lt (hq _ _ hpos) hpos (not_le.mp hmax)
      have hreach := h.capped.resolve_left (not_le.mpr hlt)
      rw [amountDivide2_capped hc hne rounds (not_le.mp hmax),
        min_eq_right ((Nat.le_div_iff_mul_le hpos).mpr hreach)]

theorem rounds_id : Rounds id := fun x hx => by
  rw [id_eq, sub_self, abs_zero]
  exact mul_nonneg hx (by norm_num [ulpError])

/-- 6.5 by 2, with exact doubles. -/
def sampleDivision : DivideVar → RawAmount
  | .dividend => ⟨6, 50000000, ['E', 'U', 'R']⟩
  | _ => ⟨2, 0, ['E', 'U', 'R']⟩

theorem amountDivide2_iff_sample :
    amountDivide2 (doubleQuotient id) 4 sampleDivision = some (.ok 3) := by
  have h := (amountDivide2_iff (m := sampleDivision) (by decide) (by decide) (by decide)
    (by decide)).2.mpr ⟨Or.inl (by decide), fun _ => ⟨by decide, by decide⟩⟩ _
    (isQuotient_doubleQuotient rounds_id) 4 le_rfl
  have hmin : min ((sampleDivision .dividend).units / (sampleDivision .divisor).units) intMax =
      3 := by decide
  rw [h, hmin]
  rfl

/-- The largest whole amount by itself. -/
def wholeDivision (_ : DivideVar) : RawAmount := ⟨2 ^ 52, 0, ['E', 'U', 'R']⟩

/-- The largest amounts are not divided: the sum that is to exceed the dividend overflows. -/
theorem not_amountDivide2 : ¬∀ m : DivideVar → RawAmount, (m .dividend).isValid = .ok →
    (m .divisor).isValid = .ok → cmpCurrency (m .dividend) (m .divisor) = .ok →
    checkCurrency (m .divisor).currency = .ok →
    ¬((m .divisor).fraction = 0 ∧ (m .divisor).value = 0) → ∃ rounds,
      amountDivide2 (doubleQuotient id) rounds m =
        some (.ok (min ((m .dividend).units / (m .divisor).units) intMax : ℕ)) := by
  intro h
  have hvalid : (wholeDivision .dividend).isValid = .ok := by decide
  have hcur : cmpCurrency (wholeDivision .dividend) (wholeDivision .divisor) = .ok := by decide
  have hne : ¬((wholeDivision .divisor).fraction = 0 ∧ (wholeDivision .divisor).value = 0) := by
    decide
  obtain ⟨rounds, hrun⟩ := h wholeDivision hvalid hvalid hcur (by decide) hne
  have hone : doubleQuotient id (wholeDivision .dividend) (wholeDivision .divisor) ≤ 1 :=
    div_self_le_one _
  have hmax : doubleQuotient id (wholeDivision .dividend) (wholeDivision .divisor) ≤ intMax :=
    hone.trans (Nat.one_le_cast.mpr (by decide))
  have hfits := nextFits_of_amountDivide2 hvalid hvalid hcur hne
    (isQuotient_doubleQuotient rounds_id) hmax hrun
  exact absurd hfits.1 (by decide)

end RawAmount

end TalerExchange
