import TalerExchange.Amount.Exact
import Mathlib.Tactic.Ring

/-!
# Multiples and quotients of amounts

`TALER_amount_multiply` and `TALER_amount_divide`.

* `amountMultiply`, `amountDivide`;
* `mul_div_ne_iff`, `add_lt_iff`: the tests for a product and a sum that wrapped;
* `amountMultiply_eq`, `amountDivide_eq`: the functions on valid amounts;
* **`amountScale_exact`**: they are exact, only the operations that are tested may wrap, and a
  multiple can be divided again.
-/

namespace TalerExchange

namespace RawAmount

section Pointers

variable {P : Type} [DecidableEq P]

/-- `TALER_amount_divide` of a normalised amount by more than one. -/
def divideNormal (word : WordRule) (n : RawAmount) (divisor : BitVec 32) :
    Except Fault (Generic × RawAmount) := do
  let scaled ← word 64 (n.value.toNat % divisor.toNat * fracBase : ℕ)
  let modr ← word 64 (scaled.toNat + n.fraction.toNat : ℕ)
  let fraction ← word 32 (modr.toNat / divisor.toNat : ℕ)
  normalize word ⟨n.value / divisor.setWidth 64, fraction, n.currency⟩

/-- `TALER_amount_divide`: the memory afterwards. -/
def amountDivide (word : WordRule) (m : P → RawAmount) (result dividend : P) (divisor : BitVec 32) :
    Except Fault (P → RawAmount) :=
  if divisor = 0 then .error .assertion
  else do
    let (r, norm) ← normalize word (m dividend)
    if r = .sysErr then .error .assertion
    else if divisor = 1 then .ok (Function.update m result norm)
    else
      let (r, res) ← divideNormal word norm divisor
      if r = .sysErr then .error .assertion
      else .ok (Function.update m result res)

/-- `TALER_amount_multiply` of a normalised amount that is not zero by a factor that is not zero;
`old` is what `result` holds. The product and the sum of the values wrap, and are tested
afterwards. -/
def multiplyNormal (word : WordRule) (old n : RawAmount) (factor : BitVec 32) :
    Except Fault (ArithmeticResult × RawAmount) :=
  let value := n.value * factor.setWidth 64
  if n.value ≠ value / factor.setWidth 64 then
    .ok (.resultOverflow, ⟨value, old.fraction, n.currency⟩)
  else do
    let tmp ← word 64 (factor.toNat * n.fraction.toNat : ℕ)
    let res := tmp / BitVec.ofNat 64 fracBase
    if value + res < value then .ok (.resultOverflow, ⟨value, old.fraction, n.currency⟩)
    else
      let fraction ← word 32 (tmp.toNat % fracBase : ℕ)
      if (value + res).toNat > maxValue then
        .ok (.resultOverflow, ⟨value + res, fraction, n.currency⟩)
      else
        let (r, a) ← normalize word ⟨value + res, fraction, n.currency⟩
        if r = .sysErr then .error .assertion
        else .ok (.positive, a)

/-- `TALER_amount_multiply`: the code and the memory afterwards. -/
def amountMultiply (word : WordRule) (m : P → RawAmount) (result amount : P) (factor : BitVec 32) :
    Except Fault (ArithmeticResult × (P → RawAmount)) := do
  let (r, n) ← normalize word (m amount)
  if r = .sysErr then .ok (.normalizationFailed, m)
  else if factor = 0 ∨ (n.value = 0 ∧ n.fraction = 0) then
    .ok (.zero, Function.update m result (setZero n.currency))
  else
    (multiplyNormal word (m result) n factor).map fun a => (a.1, Function.update m result a.2)

end Pointers

/-! ## The tests -/

/-- A product that is divided by a factor again differs from the other factor just if it wrapped. -/
theorem mul_div_ne_iff {v : BitVec 64} {f : BitVec 32} (hf : f ≠ 0) :
    v ≠ v * f.setWidth 64 / f.setWidth 64 ↔ 2 ^ 64 ≤ v.toNat * f.toNat := by
  have hpos : 0 < f.toNat := Nat.pos_of_ne_zero fun h => hf (BitVec.eq_of_toNat_eq h)
  have hwide : (f.setWidth 64).toNat = f.toNat := BitVec.toNat_setWidth_of_le (by decide)
  rw [ne_eq, ← BitVec.toNat_inj, BitVec.toNat_udiv, BitVec.toNat_mul, hwide]
  rcases Nat.lt_or_ge (v.toNat * f.toNat) (2 ^ 64) with h | h
  · rw [Nat.mod_eq_of_lt h, Nat.mul_div_cancel _ hpos]
    exact iff_of_false (fun hne => hne rfl) (not_le.2 h)
  · refine iff_of_true (fun heq => ?_) h
    have hmod : v.toNat * f.toNat % 2 ^ 64 < 2 ^ 64 := Nat.mod_lt _ (by decide)
    have hle := Nat.div_mul_le_self (v.toNat * f.toNat % 2 ^ 64) f.toNat
    rw [← heq] at hle
    omega

/-- A sum is less than a summand just if it wrapped. -/
theorem add_lt_iff (x y : BitVec 64) : x + y < x ↔ 2 ^ 64 ≤ x.toNat + y.toNat := by
  have hx := x.isLt
  have hy := y.isLt
  rw [BitVec.lt_def, BitVec.toNat_add]
  omega

theorem ofUnits_isZero {x : ℕ} (hx : x < limit) (cur : List Char) :
    (ofUnits x cur).value = 0 ∧ (ofUnits x cur).fraction = 0 ↔ x = 0 := by
  rw [← BitVec.toNat_inj, ← BitVec.toNat_inj, value_ofUnits hx, fraction_ofUnits]
  change x / 100000000 = 0 ∧ x % 100000000 = 0 ↔ x = 0
  omega

/-! ## The functions on valid amounts -/

section Exact

variable {word : WordRule} (hw : ExactInRange word)
include hw

theorem divideNormal_eq {x : ℕ} (hx : x < limit) {cur : List Char} (hcur : cur ≠ []) {d : BitVec 32}
    (hd : d ≠ 0) :
    ∃ r, r ≠ .sysErr ∧
      divideNormal word (ofUnits x cur) d = .ok (r, ofUnits (x / d.toNat) cur) := by
  have hpos : 0 < d.toNat := Nat.pos_of_ne_zero fun h => hd (BitVec.eq_of_toNat_eq h)
  have hd32 := d.isLt
  have hwide : (d.setWidth 64).toNat = d.toNat := BitVec.toNat_setWidth_of_le (by decide)
  have hv := value_ofUnits hx cur
  have hf := fraction_ofUnits x cur
  unfold divideNormal
  rw [hv, hf]
  dsimp only [limit, maxValue, fracBase] at *
  have hrem := Nat.mod_lt (x / 100000000) hpos
  obtain ⟨s, hs₁, hs₂⟩ := hw.store (w := 64) (x := (x / 100000000 % d.toNat * 100000000 : ℕ))
    (by omega) (by omega)
  obtain ⟨q, hq₁, hq₂⟩ := hw.store (w := 64) (x := (s.toNat + x % 100000000 : ℕ))
    (by omega) (by omega)
  have hqd : q.toNat / d.toNat < 100000000 := by
    rw [Nat.div_lt_iff_lt_mul hpos]
    omega
  obtain ⟨f, hf₁, hf₂⟩ := hw.store (w := 32) (x := (q.toNat / d.toNat : ℕ))
    (Int.natCast_nonneg _) (by omega)
  simp only [hs₁, hq₁, hf₁, bind, Except.bind]
  have hval : ((ofUnits x cur).value / d.setWidth 64).toNat = x / 100000000 / d.toNat := by
    rw [BitVec.toNat_udiv, hv, hwide]
  have hle : x / 100000000 / d.toNat ≤ x / 100000000 := Nat.div_le_self _ _
  have hvalid : isValid ⟨(ofUnits x cur).value / d.setWidth 64, f, cur⟩ = .ok :=
    isValid_eq_ok.2 ⟨by rw [hval]; dsimp only [maxValue]; omega, hcur⟩
  -- The remainder of the value, in units, and the fraction are divided together.
  have hunits : units ⟨(ofUnits x cur).value / d.setWidth 64, f, cur⟩ = x / d.toNat := by
    unfold units
    rw [hval]
    have hsplit : x = q.toNat + d.toNat * (x / 100000000 / d.toNat * 100000000) := by
      have h := Nat.div_add_mod (x / 100000000) d.toNat
      rw [← Nat.mul_assoc]
      generalize d.toNat * (x / 100000000 / d.toNat) = y at *
      omega
    have hquot : x / d.toNat = q.toNat / d.toNat + x / 100000000 / d.toNat * 100000000 := by
      conv_lhs => rw [hsplit]
      exact Nat.add_mul_div_left _ _ hpos
    dsimp only [fracBase]
    omega
  obtain ⟨r, hr, hn⟩ := normalize_eq hw hvalid
  have hlim : ¬ limit ≤ x / d.toNat := by
    have h := Nat.div_le_self x d.toNat
    dsimp only [limit, maxValue, fracBase]
    omega
  rw [hunits] at hr hn
  rw [if_neg hlim] at hn
  exact ⟨r, fun h => hlim (hr.1 h), hn⟩

theorem multiplyNormal_eq {x : ℕ} (hx : x < limit) {cur : List Char} (hcur : cur ≠ [])
    (old : RawAmount) {f : BitVec 32} (hf : f ≠ 0) :
    ∃ a, multiplyNormal word old (ofUnits x cur) f =
        .ok (if limit ≤ x * f.toNat then .resultOverflow else .positive, a) ∧
      (¬ limit ≤ x * f.toNat → a = ofUnits (x * f.toNat) cur) := by
  have hf32 := f.isLt
  have hwide : (f.setWidth 64).toNat = f.toNat := BitVec.toNat_setWidth_of_le (by decide)
  have hv := value_ofUnits hx cur
  have hfr := fraction_ofUnits x cur
  have hsplit : x * f.toNat = x / 100000000 * f.toNat * 100000000 + f.toNat * (x % 100000000) := by
    conv_lhs => rw [← Nat.div_add_mod x 100000000]
    ring
  have hsmall : f.toNat * (x % 100000000) ≤ 2 ^ 32 * 100000000 :=
    Nat.mul_le_mul hf32.le (Nat.mod_lt x (by decide)).le
  unfold multiplyNormal
  rw [hfr]
  dsimp only [limit, maxValue, fracBase] at *
  -- The product of the values, and that of the factor and the fraction.
  generalize hA : x / 100000000 * f.toNat = A at *
  generalize hT : f.toNat * (x % 100000000) = T at *
  have htest := mul_div_ne_iff (v := (ofUnits x cur).value) hf
  rw [hv, hA] at htest
  by_cases hover : 2 ^ 64 ≤ A
  · rw [if_pos (htest.2 hover), if_pos (by omega)]
    exact ⟨_, rfl, fun h => absurd (by omega) h⟩
  have hprod : ((ofUnits x cur).value * f.setWidth 64).toNat = A := by
    rw [BitVec.toNat_mul, hv, hwide, hA]
    exact Nat.mod_eq_of_lt (not_le.1 hover)
  obtain ⟨t, ht₁, ht₂⟩ := hw.store (w := 64) (x := (T : ℕ)) (Int.natCast_nonneg _) (by omega)
  have ht : t.toNat = T := by omega
  have hres : (t / BitVec.ofNat 64 100000000).toNat = T / 100000000 := by
    rw [BitVec.toNat_udiv, ht]
    rfl
  have hsum := add_lt_iff ((ofUnits x cur).value * f.setWidth 64) (t / BitVec.ofNat 64 100000000)
  rw [hprod, hres] at hsum
  rw [if_neg (fun h => hover (htest.1 h))]
  simp only [ht₁, bind, Except.bind]
  by_cases hwrap : 2 ^ 64 ≤ A + T / 100000000
  · rw [if_pos (hsum.2 hwrap), if_pos (by omega)]
    exact ⟨_, rfl, fun h => absurd (by omega) h⟩
  have hvalue : ((ofUnits x cur).value * f.setWidth 64 + t / BitVec.ofNat 64 100000000).toNat =
      A + T / 100000000 := by
    rw [BitVec.toNat_add, hprod, hres]
    exact Nat.mod_eq_of_lt (not_le.1 hwrap)
  obtain ⟨g, hg₁, hg₂⟩ := hw.store (w := 32) (x := (t.toNat % 100000000 : ℕ)) (by omega) (by omega)
  rw [if_neg (fun h => hwrap (hsum.1 h))]
  simp only [hg₁, hvalue, currency_ofUnits]
  by_cases hmax : A + T / 100000000 > 2 ^ 52
  · rw [if_pos hmax, if_pos (by omega)]
    exact ⟨_, rfl, fun h => absurd (by omega) h⟩
  have hlim : ¬ (2 ^ 52 + 1) * 100000000 ≤ x * f.toNat := by omega
  have hnormal : ∀ v : BitVec 64, v.toNat = A + T / 100000000 →
      (⟨v, g, cur⟩ : RawAmount) = ofUnits (x * f.toNat) cur := fun v h =>
    eq_ofUnits (by omega) (by omega)
  rw [if_neg hmax, if_neg hlim, hnormal _ hvalue]
  obtain ⟨r, hr, hn⟩ := normalize_eq hw (isValid_ofUnits (not_le.1 hlim) hcur)
  rw [units_ofUnits (not_le.1 hlim)] at hr hn
  rw [if_neg hlim] at hn
  simp only [hn]
  rw [if_neg (fun h => hlim (hr.1 h))]
  exact ⟨_, rfl, fun _ => rfl⟩

variable {P : Type} [DecidableEq P] {m : P → RawAmount} {d p : P}

/-- `TALER_amount_divide` divides the units. -/
theorem amountDivide_eq (ha : (m p).isValid = .ok) (divisor : BitVec 32) :
    amountDivide word m d p divisor =
      if divisor = 0 ∨ limit ≤ (m p).units then .error .assertion
      else .ok (Function.update m d (ofUnits ((m p).units / divisor.toNat) (m p).currency)) := by
  obtain ⟨r, hr, hn⟩ := normalize_eq hw ha
  unfold amountDivide
  by_cases hzero : divisor = 0
  · rw [if_pos hzero, if_pos (Or.inl hzero)]
  rw [if_neg hzero]
  simp only [hn, bind, Except.bind, hr]
  by_cases hlim : limit ≤ (m p).units
  · rw [if_pos hlim, if_pos (Or.inr hlim)]
  simp only [if_neg hlim, if_neg (not_or.2 ⟨hzero, hlim⟩)]
  by_cases hone : divisor = 1
  · rw [if_pos hone, hone]
    exact congrArg (fun n => Except.ok (Function.update m d (ofUnits n _))) (Nat.div_one _).symm
  obtain ⟨r, hr, hd⟩ := divideNormal_eq hw (not_le.1 hlim) (isValid_eq_ok.1 ha).2 hzero
  rw [if_neg hone, hd]
  exact if_neg hr

/-- `TALER_amount_multiply` on the normalised amount. -/
theorem amountMultiply_normal (ha : (m p).isValid = .ok) (factor : BitVec 32) :
    amountMultiply word m d p factor =
      if limit ≤ (m p).units then .ok (.normalizationFailed, m)
      else if factor = 0 ∨ (m p).units = 0 then
        .ok (.zero, Function.update m d (setZero (m p).currency))
      else
        (multiplyNormal word (m d) (ofUnits (m p).units (m p).currency) factor).map fun a =>
          (a.1, Function.update m d a.2) := by
  obtain ⟨r, hr, hn⟩ := normalize_eq hw ha
  unfold amountMultiply
  by_cases hlim : limit ≤ (m p).units
  · rw [hn, hr.2 hlim]
    exact (if_pos hlim).symm
  have hzero := ofUnits_isZero (not_le.1 hlim) (m p).currency
  have hcur := currency_ofUnits (m p).units (m p).currency
  rw [if_neg hlim] at hn
  rw [hn, if_neg hlim]
  -- The parts of the normalised amount are not to be unfolded.
  generalize ofUnits (m p).units (m p).currency = n at *
  rw [← hcur]
  exact (if_neg fun h => hlim (hr.1 h)).trans (if_congr (or_congr Iff.rfl hzero) rfl rfl)

/-- `TALER_amount_multiply` multiplies the units; what the result is on an overflow is left open. -/
theorem amountMultiply_eq (ha : (m p).isValid = .ok) (factor : BitVec 32) :
    ∃ a, amountMultiply word m d p factor =
      if limit ≤ (m p).units then .ok (.normalizationFailed, m)
      else if limit ≤ (m p).units * factor.toNat then
        .ok (.resultOverflow, Function.update m d a)
      else .ok (codeFor ((m p).units * factor.toNat),
        Function.update m d (ofUnits ((m p).units * factor.toNat) (m p).currency)) := by
  rw [amountMultiply_normal hw ha]
  by_cases hlim : limit ≤ (m p).units
  · exact ⟨invalid, (if_pos hlim).trans (if_pos hlim).symm⟩
  simp only [if_neg hlim]
  by_cases hnull : factor = 0 ∨ (m p).units = 0
  · have hprod : (m p).units * factor.toNat = 0 := by
      rcases hnull with h | h
      · rw [h]
        exact Nat.mul_zero _
      · rw [h, Nat.zero_mul]
    refine ⟨invalid, (if_pos hnull).trans ?_⟩
    rw [hprod, if_neg (by decide : ¬ limit ≤ 0)]
    rfl
  obtain ⟨hf, hu⟩ := not_or.1 hnull
  obtain ⟨a, hmul, hexact⟩ :=
    multiplyNormal_eq hw (not_le.1 hlim) (isValid_eq_ok.1 ha).2 (m d) hf
  refine ⟨a, ?_⟩
  rw [if_neg hnull, hmul]
  by_cases hover : limit ≤ (m p).units * factor.toNat
  · rw [if_pos hover, if_pos hover]
    rfl
  · have hpos : (m p).units * factor.toNat ≠ 0 :=
      Nat.mul_ne_zero hu fun h => hf (BitVec.eq_of_toNat_eq h)
    rw [if_neg hover, if_neg hover, hexact hover, codeFor, if_neg hpos]
    rfl

end Exact

/-- **Multiples and quotients are exact** for amounts that can be normalised, with the result in the
operand or not. The two rules for words give the same, so that no operation wraps besides the two
that `TALER_amount_multiply` tests; a multiple is divided by the factor again without a
remainder. -/
theorem amountScale_exact {word : WordRule} (hword : word = wrapping ∨ word = checked) {P : Type}
    [DecidableEq P] (m : P → RawAmount) (d p : P) (ha : (m p).isValid = .ok) (k : BitVec 32) :
    amountDivide word m d p k =
      (if k = 0 ∨ limit ≤ (m p).units then .error .assertion
      else .ok (Function.update m d (ofUnits ((m p).units / k.toNat) (m p).currency))) ∧
    (∃ a, amountMultiply word m d p k =
      if limit ≤ (m p).units then .ok (.normalizationFailed, m)
      else if limit ≤ (m p).units * k.toNat then .ok (.resultOverflow, Function.update m d a)
      else .ok (codeFor ((m p).units * k.toNat),
        Function.update m d (ofUnits ((m p).units * k.toNat) (m p).currency))) ∧
    ∀ r m', amountMultiply word m d p k = .ok (r, m') → r.succeeded = true → k ≠ 0 →
      (m' d).units = (m p).units * k.toNat ∧ (m' d).IsNormal ∧
      ∀ (n : P → RawAmount) (e x : P), n x = m' d →
        amountDivide word n e x k =
          .ok (Function.update n e (ofUnits (m p).units (m p).currency)) := by
  have hw : ExactInRange word := by
    rcases hword with rfl | rfl
    · exact exactInRange_wrapping
    · exact exactInRange_checked
  refine ⟨amountDivide_eq hw ha k, amountMultiply_eq hw ha k, fun r m' h hr hk => ?_⟩
  obtain ⟨a, hmul⟩ := amountMultiply_eq (d := d) hw ha k
  rw [hmul] at h
  split_ifs at h with hlim hover
  · cases h
    exact absurd hr Bool.false_ne_true
  · cases h
    exact absurd hr Bool.false_ne_true
  cases h
  rw [Function.update_self]
  have hpos : 0 < k.toNat := Nat.pos_of_ne_zero fun h => hk (BitVec.eq_of_toNat_eq h)
  have hunits := units_ofUnits (not_le.1 hover) (m p).currency
  refine ⟨hunits, isNormal_ofUnits _ _, fun n e x hx => ?_⟩
  have hvalid := isValid_ofUnits (not_le.1 hover) (isValid_eq_ok.1 ha).2
  rw [amountDivide_eq hw (hx ▸ hvalid), hx, hunits, if_neg (not_or.2 ⟨hk, hover⟩),
    Nat.mul_div_cancel _ hpos, currency_ofUnits]

/-- An amount that is not normalised. -/
def wideAmount (_ : Unit) : RawAmount := ⟨2, 350000000, ['E', 'U', 'R']⟩

theorem amountScale_exact_wideAmount :
    amountDivide checked wideAmount () () 2 =
      .ok (Function.update wideAmount () ⟨2, 75000000, ['E', 'U', 'R']⟩) := by
  have h := amountScale_exact (Or.inr rfl) wideAmount () () (by decide) 2
  exact h.1.trans ((if_neg (by decide)).trans (congrArg _ (congrArg _ (by decide))))

/-- A valid amount that does not normalise has a product, with zero, that is not computed. -/
theorem not_amountMultiply_exact :
    ¬ ∀ (a : RawAmount) (k : BitVec 32), a.isValid = .ok → a.units * k.toNat < limit →
      ∃ r m', amountMultiply wrapping (fun _ : Unit => a) () () k = .ok (r, m') ∧
        r.succeeded = true := by
  intro h
  obtain ⟨r, m', hmul, hr⟩ := h ⟨2 ^ 52, 100000000, ['E', 'U', 'R']⟩ 0 (by decide) (by decide)
  have hcode : (amountMultiply wrapping (fun _ : Unit => ⟨2 ^ 52, 100000000, ['E', 'U', 'R']⟩) () ()
      0).map Prod.fst = .ok .normalizationFailed := by decide
  rw [hmul] at hcode
  cases hcode
  exact absurd hr Bool.false_ne_true

end RawAmount

end TalerExchange
