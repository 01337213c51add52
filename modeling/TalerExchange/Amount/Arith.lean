import Mathlib.Tactic.Linarith
import Mathlib.Tactic.SplitIfs
import Mathlib.Algebra.Order.Ring.Int
import Mathlib.Algebra.BigOperators.Group.List.Basic

/-!
# Amounts

The composite type `taler_amount` of the database, a pair of an integer part and a fraction in
units of `10⁻⁸`, with the borrow and carry expressions that the stored procedures write out by
hand, and the C type `struct TALER_Amount` with its range as a field.

* `TalerAmount.units`: the amount as one integer;
* **`covers_iff`**, `units_minus`, `normal_minus`: a guarded subtraction;
* `leftMinusRight_eq`: `amount_left_minus_right` is the same subtraction;
* `units_plus`, `normal_plus`: an addition with carry;
* `units_normalize`, `normal_normalize`: `amount_normalize`;
* `Amount`: a valid amount; `Amount.add?`, `Amount.subtract?`: `TALER_amount_add` and
  `TALER_amount_subtract`; `Amount.roundDown?`: `TALER_amount_round_down`;
* `sumParts`: the sums of the two components over the rows of a query.
-/

namespace TalerExchange

/-- `taler_amount`: `val INT8`, `frac INT4`, neither checked by the type. -/
structure TalerAmount where
  val : ℤ
  frac : ℤ
deriving DecidableEq, Repr

namespace TalerAmount

/-- The amount in units of `10⁻⁸`. -/
def units (a : TalerAmount) : ℤ := a.val * 100000000 + a.frac

/-- The fraction is in range. -/
def Normal (a : TalerAmount) : Prop := 0 ≤ a.frac ∧ a.frac < 100000000

instance (a : TalerAmount) : Decidable a.Normal := by unfold Normal; infer_instance

/-- `(0,0)`. -/
def zero : TalerAmount := ⟨0, 0⟩

@[simp] theorem units_zero : zero.units = 0 := rfl

theorem normal_zero : zero.Normal := by decide

theorem eq_of_units {a b : TalerAmount} (ha : a.Normal) (hb : b.Normal) (h : a.units = b.units) :
    a = b := by
  unfold units at h
  unfold Normal at ha hb
  obtain ⟨av, af⟩ := a
  obtain ⟨bv, bf⟩ := b
  simp only [TalerAmount.mk.injEq] at *
  omega

/-- The guard of the debits:
`r.val > a.val OR (r.frac >= a.frac AND r.val >= a.val)`. -/
def covers (r a : TalerAmount) : Bool := r.val > a.val ∨ (r.frac ≥ a.frac ∧ r.val ≥ a.val)

theorem covers_iff {r a : TalerAmount} (hr : r.Normal) (ha : a.Normal) :
    r.covers a = true ↔ a.units ≤ r.units := by
  unfold Normal at hr ha
  simp only [covers, units, decide_eq_true_eq]
  omega

/-- The debit: the fraction borrows from the integer part. -/
def minus (r a : TalerAmount) : TalerAmount where
  frac := r.frac - a.frac + if r.frac < a.frac then 100000000 else 0
  val := r.val - a.val - if r.frac < a.frac then 1 else 0

theorem units_minus (r a : TalerAmount) : (r.minus a).units = r.units - a.units := by
  simp only [minus, units]
  split_ifs <;> omega

theorem normal_minus {r a : TalerAmount} (hr : r.Normal) (ha : a.Normal) : (r.minus a).Normal := by
  unfold Normal at *
  simp only [minus]
  split_ifs <;> omega

/-- `amount_left_minus_right`, also written out in the procedures that check a reserve: `none`
where `ok` is false. -/
def leftMinusRight (l r : TalerAmount) : Option TalerAmount :=
  if l.val > r.val then
    if l.frac ≥ r.frac then some ⟨l.val - r.val, l.frac - r.frac⟩
    else some ⟨l.val - r.val - 1, l.frac + 100000000 - r.frac⟩
  else if l.val = r.val ∧ l.frac ≥ r.frac then some ⟨0, l.frac - r.frac⟩
  else none

/-- The two ways to subtract agree. -/
theorem leftMinusRight_eq (l r : TalerAmount) :
    l.leftMinusRight r = if l.covers r then some (l.minus r) else none := by
  unfold leftMinusRight covers minus
  simp only [decide_eq_true_eq]
  split_ifs <;> first | omega | rfl | (rw [Option.some.injEq, TalerAmount.mk.injEq]; omega)

/-- The credit: the fraction carries into the integer part. -/
def plus (r a : TalerAmount) : TalerAmount where
  frac := r.frac + a.frac - if r.frac + a.frac ≥ 100000000 then 100000000 else 0
  val := r.val + a.val + if r.frac + a.frac ≥ 100000000 then 1 else 0

theorem units_plus (r a : TalerAmount) : (r.plus a).units = r.units + a.units := by
  simp only [plus, units]
  split_ifs <;> omega

theorem normal_plus {r a : TalerAmount} (hr : r.Normal) (ha : a.Normal) : (r.plus a).Normal := by
  unfold Normal at *
  simp only [plus]
  split_ifs <;> omega

/-- The sum of the components, not normalized. -/
def addRaw (a b : TalerAmount) : TalerAmount := ⟨a.val + b.val, a.frac + b.frac⟩

theorem units_addRaw (a b : TalerAmount) : (a.addRaw b).units = a.units + b.units := by
  simp only [addRaw, units]
  omega

/-- `amount_normalize`; `/` and `%` truncate towards zero. -/
def normalize (a : TalerAmount) : TalerAmount where
  val := a.val + a.frac.tdiv 100000000
  frac := a.frac.tmod 100000000

theorem units_normalize (a : TalerAmount) : a.normalize.units = a.units := by
  have h : 100000000 * a.frac.tdiv 100000000 + a.frac.tmod 100000000 = a.frac :=
    Int.mul_tdiv_add_tmod _ _
  simp only [normalize, units]
  omega

theorem normal_normalize {a : TalerAmount} (h : 0 ≤ a.frac) : a.normalize.Normal :=
  ⟨Int.tmod_nonneg _ h, Int.tmod_lt_of_pos _ (by norm_num)⟩

/-- The fraction is in range and the amount is not negative. -/
def Sound (a : TalerAmount) : Prop := a.Normal ∧ 0 ≤ a.units

theorem sound_zero : zero.Sound := ⟨normal_zero, le_rfl⟩

theorem Sound.plus {a b : TalerAmount} (ha : a.Sound) (hb : b.Sound) : (a.plus b).Sound :=
  ⟨normal_plus ha.1 hb.1, (units_plus a b).symm ▸ add_nonneg ha.2 hb.2⟩

theorem Sound.minus {a b : TalerAmount} (ha : a.Sound) (hb : b.Normal) (h : a.covers b = true) :
    (a.minus b).Sound := by
  refine ⟨normal_minus ha.1 hb, ?_⟩
  rw [covers_iff ha.1 hb] at h
  rw [units_minus]
  omega

end TalerAmount

/-! ## Valid amounts -/

/-- `struct TALER_Amount` after `TALER_amount_normalize`: value at most
`TALER_AMOUNT_MAX_VALUE`, fraction below `TALER_AMOUNT_FRAC_BASE`. There is one currency. -/
structure Amount where
  value : ℕ
  fraction : ℕ
  value_le : value ≤ 2 ^ 52
  fraction_lt : fraction < 100000000
deriving DecidableEq, Repr

namespace Amount

/-- The amount as it is stored. -/
def toTaler (a : Amount) : TalerAmount := ⟨a.value, a.fraction⟩

instance : Coe Amount TalerAmount := ⟨toTaler⟩

/-- The amount in units of `10⁻⁸`. -/
def units (a : Amount) : ℤ := a.toTaler.units

@[simp] theorem units_toTaler (a : Amount) : a.toTaler.units = a.units := rfl

theorem normal_toTaler (a : Amount) : a.toTaler.Normal := by
  have h := a.fraction_lt
  unfold TalerAmount.Normal
  simp only [toTaler]
  omega

theorem units_eq (a : Amount) : a.units = (a.value : ℤ) * 100000000 + a.fraction := rfl

theorem units_nonneg (a : Amount) : 0 ≤ a.units := by
  rw [units_eq]
  omega

theorem sound_toTaler (a : Amount) : a.toTaler.Sound := ⟨a.normal_toTaler, a.units_nonneg⟩

theorem ext_units {a b : Amount} (h : a.units = b.units) : a = b := by
  have ha := a.fraction_lt
  have hb := b.fraction_lt
  rw [units_eq, units_eq] at h
  obtain ⟨av, af, _, _⟩ := a
  obtain ⟨bv, bf, _, _⟩ := b
  simp only [Amount.mk.injEq] at *
  omega

/-- `TALER_amount_set_zero`. -/
def zero : Amount := ⟨0, 0, by norm_num, by norm_num⟩

/-- An amount without a fraction. -/
def whole (v : ℕ) (h : v.ble (2 ^ 52) = true := by exact (rfl : true = true)) : Amount :=
  ⟨v, 0, Nat.le_of_ble_eq_true h, zero.fraction_lt⟩

/-- An amount below one. -/
def part (f : ℕ) (h : f.blt 100000000 = true := by exact (rfl : true = true)) : Amount :=
  ⟨0, f, zero.value_le, Nat.le_of_ble_eq_true h⟩

@[simp] theorem units_zero : zero.units = 0 := rfl

@[simp] theorem toTaler_zero : zero.toTaler = TalerAmount.zero := rfl

/-- `TALER_amount_normalize` on the given parts, `none` where it invalidates the amount. -/
def normalize? (v f : ℕ) : Option Amount :=
  if hv : v + f / 100000000 ≤ 2 ^ 52 then
    some ⟨v + f / 100000000, f % 100000000, hv, Nat.mod_lt _ (by norm_num)⟩
  else none

/-- `TALER_amount_add`, `none` on overflow. -/
def add? (a b : Amount) : Option Amount :=
  if a.value + b.value > 2 ^ 52 then none
  else normalize? (a.value + b.value) (a.fraction + b.fraction)

/-- The largest number of units a valid amount can have, plus one. -/
def unitsBound : ℤ := (2 ^ 52 + 1) * 100000000

theorem units_lt (a : Amount) : a.units < unitsBound := by
  have h₁ := a.value_le
  have h₂ := a.fraction_lt
  rw [units_eq]
  unfold unitsBound
  omega

theorem exists_units {n : ℤ} (h : 0 ≤ n) (hn : n < unitsBound) : ∃ x : Amount, x.units = n := by
  unfold unitsBound at hn
  refine ⟨⟨(n / 100000000).toNat, (n % 100000000).toNat, by omega, by omega⟩, ?_⟩
  rw [units_eq]
  simp only
  omega

theorem add?_eq_none {a b : Amount} : a.add? b = none ↔ unitsBound ≤ a.units + b.units := by
  have ha := a.fraction_lt
  have hb := b.fraction_lt
  rw [units_eq, units_eq]
  unfold add? normalize? unitsBound
  split_ifs <;> simp only [true_iff, false_iff] <;> omega

/-- **`TALER_amount_add` is exact and fails only on overflow.** -/
theorem add?_eq_some {a b c : Amount} : a.add? b = some c ↔ c.units = a.units + b.units := by
  have hc := c.units_lt
  constructor
  · intro h
    unfold add? normalize? at h
    split_ifs at h
    rw [Option.some.injEq] at h
    subst h
    simp only [units_eq]
    omega
  · intro h
    cases hd : a.add? b with
    | none =>
      rw [add?_eq_none] at hd
      omega
    | some d =>
      refine congrArg some (ext_units ?_)
      rw [h]
      unfold add? normalize? at hd
      split_ifs at hd
      rw [Option.some.injEq] at hd
      subst hd
      simp only [units_eq]
      omega

/-- `TALER_amount_subtract`, `none` on a negative result. -/
def subtract? (a b : Amount) : Option Amount :=
  if hf : a.fraction < b.fraction then
    if a.value = 0 then none
    else if a.value - 1 < b.value then none
    else some ⟨a.value - 1 - b.value, a.fraction + 100000000 - b.fraction,
      by have := a.value_le; omega, by have := a.fraction_lt; omega⟩
  else if a.value < b.value then none
  else some ⟨a.value - b.value, a.fraction - b.fraction,
    by have := a.value_le; omega, by have := a.fraction_lt; omega⟩

theorem subtract?_eq_none {a b : Amount} : a.subtract? b = none ↔ a.units < b.units := by
  have ha := a.fraction_lt
  have hb := b.fraction_lt
  simp only [units_eq]
  unfold subtract?
  split_ifs <;> simp only [true_iff, false_iff] <;> omega

/-- **`TALER_amount_subtract` is exact and fails only on a negative result.** -/
theorem subtract?_eq_some {a b c : Amount} :
    a.subtract? b = some c ↔ c.units = a.units - b.units := by
  have ha := a.fraction_lt
  have hb := b.fraction_lt
  have hc := c.units_nonneg
  constructor
  · intro h
    unfold subtract? at h
    split_ifs at h <;> rw [Option.some.injEq] at h <;> subst h <;> simp only [units_eq] <;> omega
  · intro h
    cases hd : a.subtract? b with
    | none =>
      rw [subtract?_eq_none] at hd
      omega
    | some d =>
      refine congrArg some (ext_units ?_)
      rw [h]
      unfold subtract? at hd
      split_ifs at hd <;> rw [Option.some.injEq] at hd <;> subst hd <;> simp only [units_eq] <;>
        omega

/-- Reading a stored amount (`extract_amount_tuple`): the range check there is strict. -/
def ofTaler? (a : TalerAmount) : Option Amount :=
  if h : 0 ≤ a.val ∧ a.val < 2 ^ 52 ∧ 0 ≤ a.frac ∧ a.frac < 100000000 then
    some ⟨a.val.toNat, a.frac.toNat, by omega, by omega⟩
  else none

theorem units_ofTaler? {a : TalerAmount} {b : Amount} (h : ofTaler? a = some b) :
    b.units = a.units := by
  unfold ofTaler? at h
  split_ifs at h with hr
  rw [Option.some.injEq] at h
  subst h
  simp only [units_eq, TalerAmount.units]
  omega

/-- `TALER_amount_round_down`; `none` for a unit with both components. A whole unit that divides the
value leaves the fraction. -/
def roundDown? (a unit : Amount) : Option Amount :=
  if unit.fraction ≠ 0 ∧ unit.value ≠ 0 then none
  else if unit.fraction ≠ 0 then
    some ⟨a.value, a.fraction - a.fraction % unit.fraction, a.value_le,
      lt_of_le_of_lt (Nat.sub_le ..) a.fraction_lt⟩
  else if unit.value = 0 ∨ a.value % unit.value = 0 then some a
  else some ⟨a.value - a.value % unit.value, 0, (Nat.sub_le ..).trans a.value_le, by norm_num⟩

/-- Less than a unit is cut off, if anything is. -/
theorem units_roundDown? {a unit b : Amount} (h : a.roundDown? unit = some b) :
    b.units ≤ a.units ∧ (a.units < b.units + unit.units ∨ b = a) := by
  unfold roundDown? at h
  simp only [units_eq]
  split_ifs at h with h₁ h₂ h₃
  · cases h
    have hmod := Nat.mod_lt a.fraction (Nat.pos_of_ne_zero h₂)
    have hle := Nat.mod_le a.fraction unit.fraction
    simp only
    omega
  · cases h
    exact ⟨le_rfl, Or.inr rfl⟩
  · cases h
    rw [not_or] at h₃
    have hmod := Nat.mod_lt a.value (Nat.pos_of_ne_zero h₃.1)
    have hle := Nat.mod_le a.value unit.value
    have hfrac := a.fraction_lt
    simp only
    omega

end Amount

/-! ## Sums -/

/-- `SUM(val)` and `SUM(frac)`: the components of some amounts, summed separately. -/
def sumParts (as : List Amount) : TalerAmount :=
  as.foldr (fun x s => x.toTaler.addRaw s) TalerAmount.zero

theorem units_sumParts (as : List Amount) : (sumParts as).units = (as.map Amount.units).sum := by
  induction as with
  | nil => rfl
  | cons a as ih =>
    rw [List.map_cons, List.sum_cons, ← ih]
    exact TalerAmount.units_addRaw ..

theorem frac_sumParts_nonneg (as : List Amount) : 0 ≤ (sumParts as).frac := by
  induction as with
  | nil => exact le_rfl
  | cons a as ih => exact add_nonneg a.normal_toTaler.1 ih

end TalerExchange
