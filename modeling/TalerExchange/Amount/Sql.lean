import TalerExchange.Amount.Arith
import TalerExchange.Amount.Exact
import TalerExchange.Sql.Integer
import Mathlib.Data.BitVec

/-!
# Amounts in SQL and in C

The functions of `exchange_do_amount_specific.sql`, with the integers of PostgreSQL, beside those of
`amount.c`.

* `callRoutine`: the `CALL` statement;
* `amountNormalize`, `amountAdd`, `amountLeftMinusRight`;
* `SqlAgrees`: for a pair of amounts both compute the same;
* **`sqlAgrees_iff`**: they do exactly if the sum overflows in C.
-/

namespace TalerExchange

open Sql

/-! ## PostgreSQL -/

/-- `int4shl`: the machine takes the shift modulo the width. -/
def int4ShiftLeft (x : BitVec 32) (n : ℕ) : ℤ := (x <<< (n % 32)).toInt

/-- What `CREATE` made a routine. -/
inductive RoutineKind
  | function
  | procedure
deriving DecidableEq, Repr

/-- `CALL`: only a procedure can be called. -/
def callRoutine {α : Type} : RoutineKind → Except PgError α → Except PgError α
  | .procedure, run => run
  | .function, _ => .error .wrongObjectType

/-! ## The functions -/

namespace TalerAmount

/-- `amount_normalize`. -/
def amountNormalize (amount : TalerAmount) : Except PgError TalerAmount := do
  let val ← int8 (amount.val + amount.frac.tdiv 100000000)
  let frac ← int4 (amount.frac.tmod 100000000)
  .ok ⟨val, frac⟩

/-- `CREATE OR REPLACE FUNCTION amount_normalize`. -/
def amountNormalizeKind : RoutineKind := .function

/-- `amount_add`. -/
def amountAdd (a b : TalerAmount) : Except PgError TalerAmount := do
  let val ← int8 (a.val + b.val)
  let frac ← int4 (a.frac + b.frac)
  let sum ← callRoutine amountNormalizeKind (amountNormalize ⟨val, frac⟩)
  if sum.val > int4ShiftLeft 1 52 then .error .raiseException
  else .ok sum

/-- `amount_left_minus_right`: the difference and `ok`. -/
def amountLeftMinusRight (l r : TalerAmount) : Except PgError (TalerAmount × Bool) :=
  if l.val > r.val then
    if l.frac ≥ r.frac then do
      let val ← int8 (l.val - r.val)
      let frac ← int4 (l.frac - r.frac)
      .ok (⟨val, frac⟩, true)
    else do
      let val ← int8 (l.val - r.val) >>= fun x => int8 (x - 1)
      let frac ← int4 (l.frac + 100000000) >>= fun x => int4 (x - r.frac)
      .ok (⟨val, frac⟩, true)
  else if l.val = r.val ∧ l.frac ≥ r.frac then do
    let frac ← int4 (l.frac - r.frac)
    .ok (⟨0, frac⟩, true)
  else .ok (⟨-1, -1⟩, false)

end TalerAmount

/-- The bound in `amount_add`, were it reached, would be `2 ^ 20`. -/
example : int4ShiftLeft 1 52 = 2 ^ 20 := by decide

/-! ## Agreement -/

namespace RawAmount

open TalerAmount

/-- The amount as the database stores it. -/
def stored (a : RawAmount) : TalerAmount := ⟨a.value.toNat, a.fraction.toNat⟩

/-- Two operands. -/
def pair (a b : RawAmount) (x : Bool) : RawAmount := if x then a else b

/-- An amount within the limits of the exchange. -/
structure Limited (a : RawAmount) : Prop where
  valid : a.isValid = .ok
  normal : a.IsNormal
  legal : checkCurrency a.currency = .ok

/-- The SQL functions agree with the C functions on a pair of amounts: the result is the same, the
difference is refused exactly if it is negative, and there is an error exactly on an overflow. -/
structure SqlAgrees (a b : RawAmount) : Prop where
  normalize : ∃ r n, RawAmount.normalize wrapping a = .ok (r, n) ∧
    (r = .sysErr → ∃ e, amountNormalize a.stored = .error e) ∧
    (r ≠ .sysErr → amountNormalize a.stored = .ok n.stored)
  add : ∃ r m, RawAmount.amountAdd wrapping (pair a b) true true false = .ok (r, m) ∧
    (r = .resultOverflow → ∃ e, TalerAmount.amountAdd a.stored b.stored = .error e) ∧
    (r ≠ .resultOverflow → TalerAmount.amountAdd a.stored b.stored = .ok (m true).stored)
  subtract : ∃ r m, amountSubtract wrapping (pair a b) true true false = .ok (r, m) ∧
    (r = .negativeResult → ∃ d, amountLeftMinusRight a.stored b.stored = .ok (d, false)) ∧
    (r ≠ .negativeResult → amountLeftMinusRight a.stored b.stored = .ok ((m true).stored, true))

variable {a b : RawAmount}

theorem Limited.units_lt (ha : a.Limited) : a.units < limit := by
  have h₁ := (isValid_eq_ok.1 ha.valid).1
  have h₂ := ha.normal
  unfold IsNormal at h₂
  unfold units
  dsimp only [limit, maxValue, fracBase] at *
  omega

theorem stored_ofUnits {n : ℕ} (h : n < limit) (cur : List Char) :
    (ofUnits n cur).stored = ⟨(n / 100000000 : ℕ), (n % 100000000 : ℕ)⟩ := by
  unfold stored
  rw [value_ofUnits h, fraction_ofUnits]

theorem Limited.stored_eq (ha : a.Limited) :
    a.stored = ⟨(a.units / 100000000 : ℕ), (a.units % 100000000 : ℕ)⟩ := by
  have h := ha.normal
  unfold IsNormal at h
  unfold stored units
  dsimp only [fracBase] at *
  rw [TalerAmount.mk.injEq]
  omega

theorem normalize_agrees (ha : a.Limited) :
    ∃ r n, RawAmount.normalize wrapping a = .ok (r, n) ∧
      (r = .sysErr → ∃ e, amountNormalize a.stored = .error e) ∧
      (r ≠ .sysErr → amountNormalize a.stored = .ok n.stored) := by
  have hlt := ha.units_lt
  obtain ⟨r, hr, hn⟩ := normalize_eq exactInRange_wrapping ha.valid
  rw [if_neg (not_le.2 hlt)] at hn
  refine ⟨r, _, hn, fun h => absurd (hr.1 h) (not_le.2 hlt), fun _ => ?_⟩
  rw [ha.stored_eq, stored_ofUnits hlt]
  dsimp only [limit, maxValue, fracBase] at hlt
  generalize a.units = x at *
  unfold amountNormalize
  dsimp only
  have h₁ : ((x % 100000000 : ℕ) : ℤ).tdiv 100000000 = 0 := Int.tdiv_eq_zero_of_lt (by omega) (by omega)
  have h₂ : ((x % 100000000 : ℕ) : ℤ).tmod 100000000 = (x % 100000000 : ℕ) :=
    Int.tmod_eq_of_lt (by omega) (by omega)
  rw [h₁, h₂, add_zero, int8_eq (by omega) (by omega), int4_eq (by omega) (by omega)]
  rfl

/-- `amount_left_minus_right` on numbers of units. -/
theorem amountLeftMinusRight_eq {x y : ℕ} (hx : x < limit) (hle : y ≤ x) :
    amountLeftMinusRight ⟨(x / 100000000 : ℕ), (x % 100000000 : ℕ)⟩
        ⟨(y / 100000000 : ℕ), (y % 100000000 : ℕ)⟩ =
      .ok (⟨((x - y) / 100000000 : ℕ), ((x - y) % 100000000 : ℕ)⟩, true) := by
  dsimp only [limit, maxValue, fracBase] at hx
  unfold amountLeftMinusRight
  dsimp only
  by_cases hv : ((x / 100000000 : ℕ) : ℤ) > (y / 100000000 : ℕ)
  · rw [if_pos hv]
    by_cases hf : ((x % 100000000 : ℕ) : ℤ) ≥ (y % 100000000 : ℕ)
    · rw [if_pos hf, int8_eq (by omega) (by omega), int4_eq (by omega) (by omega)]
      simp only [bind, Except.bind, Except.ok.injEq, Prod.mk.injEq, TalerAmount.mk.injEq, and_true]
      omega
    · rw [if_neg hf, int8_eq (by omega) (by omega), int4_eq (by omega) (by omega)]
      simp only [bind, Except.bind]
      rw [int8_eq (by omega) (by omega), int4_eq (by omega) (by omega)]
      simp only [Except.ok.injEq, Prod.mk.injEq, TalerAmount.mk.injEq, and_true]
      omega
  · rw [if_neg hv, if_pos (by omega), int4_eq (by omega) (by omega)]
    simp only [bind, Except.bind, Except.ok.injEq, Prod.mk.injEq, TalerAmount.mk.injEq, and_true]
    omega

theorem subtract_pair (ha : a.Limited) (hb : b.Limited) (hc : cmpCurrency a b = .ok) :
    amountSubtract wrapping (pair a b) true true false =
      if a.units < b.units then .ok (.negativeResult, Function.update (pair a b) true invalid)
      else .ok (codeFor (a.units - b.units),
        Function.update (pair a b) true (ofUnits (a.units - b.units) a.currency)) := by
  refine (amountSubtract_eq exactInRange_wrapping (m := pair a b) (p := true) (q := false)
    ha.valid hb.valid hc).trans ?_
  refine (if_neg (not_or.2 ⟨not_le.2 ha.units_lt, not_le.2 hb.units_lt⟩)).trans ?_
  exact if_congr Iff.rfl rfl (if_neg (not_not_intro ha.legal))

theorem add_pair (ha : a.Limited) (hb : b.Limited) (hc : cmpCurrency a b = .ok) :
    RawAmount.amountAdd wrapping (pair a b) true true false =
      if limit ≤ a.units + b.units then
        .ok (.resultOverflow, Function.update (pair a b) true invalid)
      else .ok (codeFor (a.units + b.units),
        Function.update (pair a b) true (ofUnits (a.units + b.units) a.currency)) := by
  refine (amountAdd_eq exactInRange_wrapping (m := pair a b) (p := true) (q := false)
    ha.valid hb.valid hc).trans ?_
  refine (if_neg (not_or.2 ⟨not_le.2 ha.units_lt, not_le.2 hb.units_lt⟩)).trans ?_
  exact if_neg (not_not_intro ha.legal)

/-- `amount_left_minus_right` and `TALER_amount_subtract` agree. -/
theorem subtract_agrees (ha : a.Limited) (hb : b.Limited) (hc : cmpCurrency a b = .ok) :
    ∃ r m, amountSubtract wrapping (pair a b) true true false = .ok (r, m) ∧
      (r = .negativeResult → ∃ d, amountLeftMinusRight a.stored b.stored = .ok (d, false)) ∧
      (r ≠ .negativeResult →
        amountLeftMinusRight a.stored b.stored = .ok ((m true).stored, true)) := by
  have hla := ha.units_lt
  have heq := subtract_pair ha hb hc
  by_cases hlt : a.units < b.units
  · rw [if_pos hlt] at heq
    refine ⟨_, _, heq, fun _ => ⟨⟨-1, -1⟩, ?_⟩, fun h => absurd rfl h⟩
    rw [ha.stored_eq, hb.stored_eq]
    unfold amountLeftMinusRight
    dsimp only
    rw [if_neg (by omega), if_neg (by omega)]
  · rw [if_neg hlt] at heq
    refine ⟨_, _, heq, fun h => ?_, fun _ => ?_⟩
    · unfold codeFor at h
      split_ifs at h
    · have hd : a.units - b.units < limit := lt_of_le_of_lt (Nat.sub_le _ _) hla
      rw [Function.update_self, ha.stored_eq, hb.stored_eq, stored_ofUnits hd]
      exact amountLeftMinusRight_eq hla (not_lt.1 hlt)

/-- `amount_add` never returns, as it calls a function. -/
theorem amountAdd_error (a b : TalerAmount) : ∃ e, TalerAmount.amountAdd a b = .error e := by
  unfold TalerAmount.amountAdd int8 int4
  split_ifs <;> exact ⟨_, rfl⟩

/-- **SQL and C agree on two amounts exactly if their sum overflows.** -/
theorem sqlAgrees_iff (ha : a.Limited) (hb : b.Limited) (hc : cmpCurrency a b = .ok) :
    SqlAgrees a b ↔ limit ≤ a.units + b.units := by
  have heq := add_pair ha hb hc
  constructor
  · intro h
    obtain ⟨r, m, hrun, -, hok⟩ := h.add
    by_contra hlt
    rw [if_neg hlt, hrun, Except.ok.injEq, Prod.mk.injEq] at heq
    obtain ⟨e, he⟩ := amountAdd_error a.stored b.stored
    have hr : r ≠ .resultOverflow := by
      rw [heq.1]
      unfold codeFor
      split_ifs <;> exact fun h => nomatch h
    rw [hok hr] at he
    exact nomatch he
  · intro h
    rw [if_pos h] at heq
    exact ⟨normalize_agrees ha,
      ⟨_, _, heq, fun _ => amountAdd_error _ _, fun hr => absurd rfl hr⟩, subtract_agrees ha hb hc⟩

/-- The largest amount. -/
def largest : RawAmount := ⟨2 ^ 52, 99999999, ['E', 'U', 'R']⟩

/-- The smallest amount. -/
def smallest : RawAmount := ⟨0, 1, ['E', 'U', 'R']⟩

theorem limited_largest : largest.Limited := ⟨by decide, by unfold IsNormal; decide, by decide⟩

theorem limited_smallest : smallest.Limited := ⟨by decide, by unfold IsNormal; decide, by decide⟩

theorem sqlAgrees_iff_largest : SqlAgrees largest smallest ↔ limit ≤ largest.units + smallest.units :=
  sqlAgrees_iff limited_largest limited_smallest (by decide)

/-- `amount_add` fails on two of the smallest amounts, which have a sum in C. -/
theorem not_sqlAgrees :
    ¬ ∀ a b : RawAmount, a.Limited → b.Limited → cmpCurrency a b = .ok → SqlAgrees a b := by
  intro h
  obtain ⟨r, m, hrun, -, hok⟩ := (h smallest smallest limited_smallest limited_smallest (by decide)).add
  have hr : r = .positive := by
    have hcode : (RawAmount.amountAdd wrapping (pair smallest smallest) true true false).map Prod.fst =
        .ok .positive := by decide
    rw [hrun] at hcode
    exact Except.ok.inj hcode
  have herr : TalerAmount.amountAdd smallest.stored smallest.stored = .error .wrongObjectType := by
    decide
  rw [hok (by rw [hr]; decide)] at herr
  exact nomatch herr

end RawAmount

end TalerExchange
