import Mathlib.Data.BitVec
import Mathlib.Data.List.TakeWhile
import TalerExchange.Amount.Scale
import TalerExchange.Amount.Text

/-!
# Operations that fail

Whoever ignores the code of an operation goes on with what the operation left in its result. The
result is to be an amount that is not valid.

* `amountAdd_failed`, `amountSubtract_failed`, `normalize_failed`: these operations invalidate it;
* `stringToAmount_failed`: the parser does, but for a currency that is not legal;
* `multiplyNormal_failed`: a product that wraps is left behind;
* **`failed_invalid_iff`**: what is left behind is not valid, but for two operations, and when;
* `not_failed_invalid`: the exceptions occur.
-/

namespace TalerExchange

namespace RawAmount

/-! ## Calls -/

/-- A call of one of the operations, with the memory before it. -/
inductive AmountCall (P : Type)
  | stringToAmount (amount : RawAmount) (str : List Char)
  | add (m : P → RawAmount) (sum a₁ a₂ : P)
  | subtract (m : P → RawAmount) (diff a₁ a₂ : P)
  | multiply (m : P → RawAmount) (result amount : P) (factor : BitVec 32)
  | normalize (amount : RawAmount)

section Pointers

variable {P : Type} [DecidableEq P]

/-- Whether the call succeeds, and what is in its result afterwards. -/
def AmountCall.run : AmountCall P → Except Fault (Bool × RawAmount)
  | .stringToAmount amount str =>
    .ok ((RawAmount.stringToAmount amount str).1 = .ok, (RawAmount.stringToAmount amount str).2)
  | .add m sum a₁ a₂ => (amountAdd wrapping m sum a₁ a₂).map fun r => (r.1.succeeded, r.2 sum)
  | .subtract m diff a₁ a₂ =>
    (amountSubtract wrapping m diff a₁ a₂).map fun r => (r.1.succeeded, r.2 diff)
  | .multiply m result amount factor =>
    (amountMultiply wrapping m result amount factor).map fun r => (r.1.succeeded, r.2 result)
  | .normalize amount => (RawAmount.normalize wrapping amount).map fun r => (r.1 ≠ .sysErr, r.2)

end Pointers

/-- The string has a currency of a legal length before the colon, with other characters than
upper-case letters. -/
def RejectedCurrency (str : List Char) : Prop :=
  ':' ∈ str.dropWhile isSpace ∧
    (str.dropWhile isSpace).takeWhile (· ≠ ':') ≠ [] ∧
    ((str.dropWhile isSpace).takeWhile (· ≠ ':')).length < currencyLen ∧
    checkCurrency ((str.dropWhile isSpace).takeWhile (· ≠ ':')) ≠ .ok

/-- The amount can be normalised. -/
def Normalises (a : RawAmount) : Prop := a.isValid = .ok ∧ a.units < limit

/-- Where a call that fails leaves a valid amount behind: the amount that was there, with a
currency that is not legal, or as it was, or a product that has wrapped. -/
def AmountCall.LeavesValid {P : Type} : AmountCall P → Prop
  | .stringToAmount amount str => RejectedCurrency str ∧ amount.value.toNat ≤ maxValue
  | .multiply m result amount factor =>
    (¬(m amount).Normalises ∧ (m result).isValid = .ok) ∨
    ((m amount).Normalises ∧ 2 ^ 64 ≤ (m amount).units / fracBase * factor.toNat ∧
      (m amount).units / fracBase * factor.toNat % 2 ^ 64 ≤ maxValue)
  | _ => False

/-! ## Sums, differences and normal forms -/

section Pointers

variable {P : Type} [DecidableEq P] {word : WordRule} {m m' : P → RawAmount} {d p q : P}
  {r : ArithmeticResult}

theorem resultCode_succeeded (a : RawAmount) : (resultCode a).succeeded = true := by
  unfold resultCode
  split_ifs <;> rfl

theorem normalize_failed {a a' : RawAmount} (h : normalize word a = .ok (.sysErr, a')) :
    a'.isValid ≠ .ok := by
  unfold normalize at h
  split_ifs at h with hvalid hsmall
  · cases h
    exact hvalid
  · cases h
  obtain ⟨fraction, -, h⟩ := bind_eq_ok.mp h
  obtain ⟨value, -, h⟩ := bind_eq_ok.mp h
  split_ifs at h
  · cases h
    exact isValid_invalid
  · cases h

theorem amountAdd_failed (h : amountAdd word m d p q = .ok (r, m')) (hr : r.succeeded = false) :
    m' d = invalid := by
  have hinvalid : Function.update m d invalid d = invalid := Function.update_self _ _ _
  unfold amountAdd at h
  by_cases hcur : cmpCurrency (m p) (m q) ≠ .ok
  · rw [if_pos hcur] at h
    cases h
    exact hinvalid
  rw [if_neg hcur] at h
  obtain ⟨⟨r₁, n₁⟩, -, h⟩ := bind_eq_ok.mp h
  obtain ⟨⟨r₂, n₂⟩, -, h⟩ := bind_eq_ok.mp h
  dsimp only at h
  by_cases hnormal : r₁ = .sysErr ∨ r₂ = .sysErr
  · rw [if_pos hnormal] at h
    cases h
    exact hinvalid
  rw [if_neg hnormal] at h
  split_ifs at h
  obtain ⟨value, -, h⟩ := bind_eq_ok.mp h
  by_cases hover : value.toNat < n₁.value.toNat ∨ value.toNat > maxValue
  · rw [if_pos hover] at h
    cases h
    exact hinvalid
  rw [if_neg hover] at h
  obtain ⟨fraction, -, h⟩ := bind_eq_ok.mp h
  obtain ⟨⟨r₃, res⟩, -, h⟩ := bind_eq_ok.mp h
  dsimp only at h
  by_cases hcarry : r₃ = .sysErr
  · rw [if_pos hcarry] at h
    cases h
    exact hinvalid
  · rw [if_neg hcarry] at h
    cases h
    rw [resultCode_succeeded] at hr
    exact absurd hr (by decide)

theorem subtractNormal_failed {n₁ n₂ : RawAmount}
    (h : subtractNormal word m d n₁ n₂ = .ok (r, m')) (hr : r.succeeded = false) :
    m' d = invalid := by
  have hinvalid : Function.update m d invalid d = invalid := Function.update_self _ _ _
  unfold subtractNormal at h
  by_cases hborrow : n₁.fraction.toNat < n₂.fraction.toNat ∧ n₁.value.toNat = 0
  · rw [if_pos hborrow] at h
    cases h
    exact hinvalid
  rw [if_neg hborrow] at h
  obtain ⟨n, -, h⟩ := bind_eq_ok.mp h
  by_cases hless : n.value.toNat < n₂.value.toNat
  · rw [if_pos hless] at h
    cases h
    exact hinvalid
  rw [if_neg hless] at h
  split_ifs at h
  obtain ⟨fraction, -, h⟩ := bind_eq_ok.mp h
  obtain ⟨value, -, h⟩ := bind_eq_ok.mp h
  cases h
  rw [resultCode_succeeded] at hr
  exact absurd hr (by decide)

theorem amountSubtract_failed (h : amountSubtract word m d p q = .ok (r, m'))
    (hr : r.succeeded = false) : m' d = invalid := by
  have hinvalid : Function.update m d invalid d = invalid := Function.update_self _ _ _
  unfold amountSubtract at h
  by_cases hcur : cmpCurrency (m p) (m q) ≠ .ok
  · rw [if_pos hcur] at h
    cases h
    exact hinvalid
  rw [if_neg hcur] at h
  obtain ⟨⟨r₁, n₁⟩, -, h⟩ := bind_eq_ok.mp h
  obtain ⟨⟨r₂, n₂⟩, -, h⟩ := bind_eq_ok.mp h
  dsimp only at h
  by_cases hnormal : r₁ = .sysErr ∨ r₂ = .sysErr
  · rw [if_pos hnormal] at h
    cases h
    exact hinvalid
  · rw [if_neg hnormal] at h
    exact subtractNormal_failed h hr

end Pointers

/-! ## Parsing -/

theorem stringToAmount_failed {amount : RawAmount} {str : List Char}
    (h : (stringToAmount amount str).1 ≠ .ok) : (stringToAmount amount str).2.isValid ≠ .ok ↔
      ¬(RejectedCurrency str ∧ amount.value.toNat ≤ maxValue) := by
  unfold RejectedCurrency
  unfold stringToAmount at h ⊢
  dsimp only at h ⊢
  generalize str.dropWhile isSpace = s at h ⊢
  have hs : s.takeWhile (· ≠ ':') ++ s.dropWhile (· ≠ ':') = s := List.takeWhile_append_dropWhile
  have hcolon := List.head?_dropWhile_not (fun x => decide (x ≠ ':')) s
  have hno : ∀ c ∈ s.takeWhile (· ≠ ':'), c ≠ ':' := fun c hc => by
    simpa using List.mem_takeWhile_imp hc
  generalize s.takeWhile (· ≠ ':') = cur at h hs hno ⊢
  generalize s.dropWhile (· ≠ ':') = rest at h hs hcolon ⊢
  cases rest with
  | nil =>
    rw [List.append_nil] at hs
    exact iff_of_true isValid_invalid fun hrej => hno ':' (hs ▸ hrej.1.1) rfl
  | cons colon value =>
    have hhead : colon = ':' := by simpa using hcolon
    have hmem : ':' ∈ s := by
      rw [← hs, hhead]
      exact List.mem_append_right _ List.mem_cons_self
    dsimp only at h ⊢
    by_cases hlength : cur = [] ∨ cur.length ≥ currencyLen
    · rw [if_pos hlength]
      refine iff_of_true isValid_invalid fun hrej => ?_
      rcases hlength with hnil | hlong
      · exact hrej.1.2.1 hnil
      · exact absurd hrej.1.2.2.1 (not_lt.mpr hlong)
    rw [if_neg hlength] at h ⊢
    obtain ⟨hne, hshort⟩ := not_or.mp hlength
    by_cases hlegal : checkCurrency cur ≠ .ok
    · rw [if_pos hlegal, ne_eq, isValid_eq_ok]
      refine not_congr ⟨fun hval => ⟨⟨hmem, hne, not_le.mp hshort, hlegal⟩, hval.1⟩,
        fun hrej => ⟨hrej.2, hne⟩⟩
    rw [if_neg hlegal] at h ⊢
    -- every other failure ends with the amount invalidated
    have hout : ∀ x : Generic × RawAmount, (x = (.sysErr, invalid) ∨ x.1 = .ok) → x.1 ≠ .ok →
        (x.2.isValid ≠ .ok ↔ ¬((':' ∈ s ∧ cur ≠ [] ∧ cur.length < currencyLen ∧
          checkCurrency cur ≠ .ok) ∧ amount.value.toNat ≤ maxValue)) := by
      rintro x (rfl | hok) hfail
      · exact iff_of_true isValid_invalid fun hrej => hlegal hrej.1.2.2.2
      · exact absurd hok hfail
    refine hout _ ?_ h
    split_ifs
    · exact Or.inl rfl
    rcases parseValue 0 value with _ | ⟨v, _ | _ | ⟨c, tail⟩⟩
    · exact Or.inl rfl
    · exact Or.inr rfl
    · exact Or.inl rfl
    dsimp only
    rcases parseFraction (BitVec.ofNat 32 (fracBase / 10)) 0 (c :: tail) with _ | f
    · exact Or.inl rfl
    · exact Or.inr rfl

/-! ## Products -/

/-- A product that is reported to overflow is an amount that is not valid, unless it has wrapped to
a small one. -/
theorem multiplyNormal_failed {x : ℕ} (hx : x < limit) {cur : List Char} (hcur : cur ≠ [])
    {old a : RawAmount} {f : BitVec 32} (hf : f ≠ 0) {r : ArithmeticResult}
    (h : multiplyNormal wrapping old (ofUnits x cur) f = .ok (r, a)) (hr : r.succeeded = false) :
    a.isValid = .ok ↔
      2 ^ 64 ≤ x / fracBase * f.toNat ∧ x / fracBase * f.toNat % 2 ^ 64 ≤ maxValue := by
  have hv := value_ofUnits hx cur
  have hwide : (f.setWidth 64).toNat = f.toNat := BitVec.toNat_setWidth_of_le (by decide)
  have htest := mul_div_ne_iff (v := (ofUnits x cur).value) hf
  have hprod : ((ofUnits x cur).value * f.setWidth 64).toNat = x / fracBase * f.toNat % 2 ^ 64 := by
    rw [BitVec.toNat_mul, hv, hwide]
  rw [hv] at htest
  unfold multiplyNormal at h
  dsimp only at h
  by_cases hover : 2 ^ 64 ≤ x / fracBase * f.toNat
  · rw [if_pos (htest.mpr hover)] at h
    cases h
    rw [isValid_eq_ok]
    dsimp only
    rw [currency_ofUnits, and_iff_left hcur, hprod, and_iff_right hover]
  refine iff_of_false (fun hvalid => ?_) fun hwrap => hover hwrap.1
  rw [if_neg fun hne => hover (htest.mp hne)] at h
  rw [Nat.mod_eq_of_lt (not_le.mp hover)] at hprod
  obtain ⟨tmp, -, h⟩ := bind_eq_ok.mp h
  have hres : (tmp / BitVec.ofNat 64 fracBase).toNat ≤ 2 ^ 64 / fracBase := by
    rw [BitVec.toNat_udiv]
    exact Nat.div_le_div_right tmp.isLt.le
  have hwrap := add_lt_iff ((ofUnits x cur).value * f.setWidth 64) (tmp / BitVec.ofNat 64 fracBase)
  rw [isValid_eq_ok] at hvalid
  split_ifs at h with hsum hmax
  · -- the product itself is too large where the carry wraps
    cases h
    have hlarge := hwrap.mp hsum
    dsimp only [maxValue, fracBase] at *
    omega
  · obtain ⟨fraction, -, h⟩ := bind_eq_ok.mp h
    cases h
    exact absurd hvalid.1 (not_le.mpr hmax)
  · obtain ⟨fraction, -, h⟩ := bind_eq_ok.mp h
    obtain ⟨⟨r', a'⟩, -, h⟩ := bind_eq_ok.mp h
    dsimp only at h
    split_ifs at h
    cases h
    exact absurd hr (by decide)

section Pointers

variable {P : Type} [DecidableEq P] {m m' : P → RawAmount} {d p : P} {r : ArithmeticResult}

theorem amountMultiply_failed {factor : BitVec 32}
    (h : amountMultiply wrapping m d p factor = .ok (r, m')) (hr : r.succeeded = false) :
    (m' d).isValid = .ok ↔
      (¬(m p).Normalises ∧ (m d).isValid = .ok) ∨
      ((m p).Normalises ∧ 2 ^ 64 ≤ (m p).units / fracBase * factor.toNat ∧
        (m p).units / fracBase * factor.toNat % 2 ^ 64 ≤ maxValue) := by
  by_cases hvalid : (m p).isValid = .ok
  swap
  · -- the operand is not valid, and the result is left as it was
    have hnot : ¬(m p).Normalises := fun hn => hvalid hn.1
    unfold amountMultiply normalize at h
    rw [if_pos hvalid] at h
    cases h
    rw [and_iff_right hnot, or_iff_left fun hn => hnot hn.1]
  rw [amountMultiply_normal exactInRange_wrapping hvalid] at h
  by_cases hlim : limit ≤ (m p).units
  · have hnot : ¬(m p).Normalises := fun hn => absurd hn.2 (not_lt.mpr hlim)
    rw [if_pos hlim] at h
    cases h
    rw [and_iff_right hnot, or_iff_left fun hn => hnot hn.1]
  have hnormal : (m p).Normalises := ⟨hvalid, not_le.mp hlim⟩
  rw [or_iff_right fun hn => hn.1 hnormal, and_iff_right hnormal]
  rw [if_neg hlim] at h
  by_cases hnull : factor = 0 ∨ (m p).units = 0
  · rw [if_pos hnull] at h
    cases h
    exact absurd hr (by decide)
  rw [if_neg hnull] at h
  cases hmul : multiplyNormal wrapping (m d) (ofUnits (m p).units (m p).currency) factor with
  | error e =>
    rw [hmul] at h
    cases h
  | ok a =>
    rw [hmul] at h
    cases h
    rw [Function.update_self]
    exact multiplyNormal_failed (not_le.mp hlim) (isValid_eq_ok.mp hvalid).2
      (fun hzero => hnull (Or.inl hzero)) hmul hr

/-! ## All operations -/

/-- **Operations that fail** leave an amount behind that is not valid, with two exceptions: the
parser where it rejects the currency and the amount was valid but for the currency, and the product
where the operand cannot be normalised and the result was valid, or where it wraps to a small value. -/
theorem failed_invalid_iff (call : AmountCall P) {amount : RawAmount}
    (h : call.run = .ok (false, amount)) : amount.isValid ≠ .ok ↔ ¬call.LeavesValid := by
  cases call with
  | stringToAmount old str =>
    have hout := Except.ok.inj h
    rw [Prod.mk.injEq, decide_eq_false_iff_not] at hout
    rw [← hout.2]
    exact stringToAmount_failed hout.1
  | add m sum a₁ a₂ =>
    obtain ⟨r, hadd, hout⟩ := map_eq_ok.mp h
    rw [Prod.mk.injEq] at hout
    rw [← hout.2, amountAdd_failed hadd hout.1]
    exact iff_of_true isValid_invalid id
  | subtract m diff a₁ a₂ =>
    obtain ⟨r, hsub, hout⟩ := map_eq_ok.mp h
    rw [Prod.mk.injEq] at hout
    rw [← hout.2, amountSubtract_failed hsub hout.1]
    exact iff_of_true isValid_invalid id
  | multiply m result a factor =>
    obtain ⟨r, hmul, hout⟩ := map_eq_ok.mp h
    rw [Prod.mk.injEq] at hout
    rw [← hout.2]
    exact not_congr (amountMultiply_failed hmul hout.1)
  | normalize a =>
    obtain ⟨r, hnorm, hout⟩ := map_eq_ok.mp h
    rw [Prod.mk.injEq, decide_eq_false_iff_not, not_not] at hout
    rw [← hout.2]
    exact iff_of_true (normalize_failed (hnorm.trans (congrArg _ (Prod.ext hout.1 rfl)))) id

end Pointers

/-- The sum of the largest amount and one cent more than its fraction holds is no amount. -/
theorem failed_invalid_sample :
    AmountCall.run (.add (fun _ : Unit => ⟨2 ^ 52, 0, ['E', 'U', 'R']⟩) () () ()) =
        .ok (false, invalid) ∧ invalid.isValid ≠ .ok := by
  have hrun : AmountCall.run (.add (fun _ : Unit => ⟨2 ^ 52, 0, ['E', 'U', 'R']⟩) () () ()) =
      .ok (false, invalid) := by decide
  exact ⟨hrun, (failed_invalid_iff _ hrun).mpr id⟩

/-- A string with a currency in lower case, read into an amount of five. -/
theorem not_failed_invalid : ¬∀ (call : AmountCall Unit) (amount : RawAmount),
    call.run = .ok (false, amount) → amount.isValid ≠ .ok := by
  intro h
  refine h (.stringToAmount ⟨5, 0, ['E', 'U', 'R']⟩ "eur:1".toList) ⟨5, 0, ['e', 'u', 'r']⟩ ?_ ?_
  · decide
  · decide

end RawAmount

end TalerExchange
