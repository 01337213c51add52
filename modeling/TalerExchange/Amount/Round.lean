import Mathlib.Order.Bounds.Basic
import TalerExchange.Amount.Exact

/-!
# Rounding

`TALER_amount_round_down` rounds an amount down to a multiple of what can be transferred, and
`TALER_EXCHANGE_keys_stefan_round` rounds an estimate of fees to the nearest multiple of the
smallest coin.

* `roundDown`, `keysStefanRound`: the functions; `getUnit`: the smallest denomination;
* `isGreatest_sub_mod`: the largest multiple that is not above a number;
* **`roundDown_iff`**: when rounding down is right;
* `getUnit_eq`: the smallest denomination is one with the least number of units;
* **`keysStefanRound_iff`**: when rounding to the nearest coin is right.
-/

namespace TalerExchange

namespace RawAmount

/-! ## The functions -/

/-- `TALER_amount_round_down`: the code and the amount afterwards. -/
def roundDown (amount roundUnit : RawAmount) : Generic × RawAmount :=
  if cmpCurrency amount roundUnit ≠ .ok then (.sysErr, amount)
  else if roundUnit.fraction ≠ 0 ∧ roundUnit.value ≠ 0 then (.sysErr, amount)
  else if roundUnit.fraction = 0 ∧ roundUnit.value = 0 then (.no, amount)
  else if roundUnit.fraction ≠ 0 then
    let delta := amount.fraction % roundUnit.fraction
    if delta = 0 then (.no, amount) else (.ok, { amount with fraction := amount.fraction - delta })
  else
    let delta := amount.value % roundUnit.value
    if delta = 0 then (.no, amount)
    else (.ok, { amount with value := amount.value - delta, fraction := 0 })

/-- The loop of `get_unit`. -/
def getUnitLoop : Option RawAmount → List RawAmount → Except Fault (Option RawAmount)
  | min, [] => .ok min
  | none, value :: denomKeys => getUnitLoop (some value) denomKeys
  | some min, value :: denomKeys => do
    let r ← cmp wrapping min value
    getUnitLoop (some (if r = 1 then value else min)) denomKeys

/-- `get_unit`: the smallest of the values of the denominations. -/
def getUnit (denomKeys : List RawAmount) : Except Fault (Option RawAmount) :=
  getUnitLoop none denomKeys

/-- The fraction after it has been rounded to a multiple of `frac`. -/
def stefanRoundFraction (fraction frac : BitVec 32) : BitVec 32 :=
  let lim := frac / 2
  let mod := fraction % frac
  if mod < lim then fraction - mod else fraction + (frac - mod)

/-- `TALER_EXCHANGE_keys_stefan_round`, on the values of the denominations. -/
def keysStefanRound (denomKeys : List RawAmount) (val : RawAmount) : Except Fault RawAmount :=
  if val.fraction = 0 then .ok val
  else do
    match ← getUnit denomKeys with
    | none => .ok val
    | some min =>
      let frac := if min.fraction = 0 then BitVec.ofNat 32 fracBase else min.fraction
      .ok { val with fraction := stefanRoundFraction val.fraction frac }

/-! ## Multiples and parts -/

theorem units_mod {a : RawAmount} (hn : a.IsNormal) : a.units % fracBase = a.fraction.toNat := by
  unfold units
  rw [Nat.mul_comm, Nat.mul_add_mod, Nat.mod_eq_of_lt hn]

theorem units_div {a : RawAmount} (hn : a.IsNormal) : a.units / fracBase = a.value.toNat := by
  unfold units
  rw [Nat.mul_comm, Nat.mul_add_div (by decide), Nat.div_eq_of_lt hn, Nat.add_zero]

theorem units_lt_limit {a : RawAmount} (ha : a.isValid = .ok) (hn : a.IsNormal) :
    a.units < limit := by
  have hmax := (isValid_eq_ok.mp ha).1
  unfold IsNormal at hn
  unfold units
  dsimp only [limit, maxValue, fracBase] at *
  omega

/-- The largest multiple that is not above a number. -/
theorem isGreatest_sub_mod {d : ℕ} (hd : 0 < d) (x : ℕ) :
    IsGreatest {n | d ∣ n ∧ n ≤ x} (x - x % d) := by
  refine ⟨⟨Nat.dvd_sub_mod x, Nat.sub_le x _⟩, fun n hn => ?_⟩
  obtain ⟨⟨k, rfl⟩, hle⟩ := hn
  have hk : k ≤ x / d := (Nat.le_div_iff_mul_le hd).mpr (by rwa [Nat.mul_comm] at hle)
  calc d * k ≤ d * (x / d) := Nat.mul_le_mul_left d hk
    _ = x - x % d := by
      have h := Nat.div_add_mod x d
      omega

theorem isGreatest_multiple_iff {d x y : ℕ} (hd : 0 < d) :
    IsGreatest {n | d ∣ n ∧ n ≤ x} y ↔ y = x - x % d :=
  ⟨fun h => h.unique (isGreatest_sub_mod hd x), fun h => h ▸ isGreatest_sub_mod hd x⟩

/-! ## Rounding down -/

/-- A unit to round to: only a value, or only a fraction that divides one. -/
structure RoundUnit (roundUnit : RawAmount) : Prop where
  one_part : (roundUnit.value ≠ 0 ∧ roundUnit.fraction = 0) ∨
    (roundUnit.value = 0 ∧ roundUnit.fraction ≠ 0)
  fraction_dvd : roundUnit.fraction ≠ 0 → roundUnit.fraction.toNat ∣ fracBase

/-- What rounding down is to do: the amount becomes the largest multiple, a change is reported if
there is one, and a second time nothing changes. -/
structure RoundsDown (amount roundUnit : RawAmount) : Prop where
  largest : IsGreatest {n | roundUnit.units ∣ n ∧ n ≤ amount.units}
    (roundDown amount roundUnit).2.units
  currency : (roundDown amount roundUnit).2.currency = amount.currency
  accepted : (roundDown amount roundUnit).1 ≠ .sysErr
  reported : (roundDown amount roundUnit).1 = .ok ↔ ¬roundUnit.units ∣ amount.units
  idempotent : roundDown (roundDown amount roundUnit).2 roundUnit =
    (.no, (roundDown amount roundUnit).2)

section RoundDown

variable {a unit : RawAmount}

theorem toNat_pos_of_ne_zero {w : ℕ} {x : BitVec w} (h : x ≠ 0) : 0 < x.toNat :=
  Nat.pos_of_ne_zero fun hzero => h (BitVec.eq_of_toNat_eq hzero)

theorem umod_eq_zero_iff {w : ℕ} (x d : BitVec w) : x % d = 0 ↔ x.toNat % d.toNat = 0 := by
  rw [← BitVec.toNat_inj, BitVec.toNat_umod]
  rfl

theorem toNat_sub_umod {w : ℕ} (x d : BitVec w) :
    (x - x % d).toNat = x.toNat - x.toNat % d.toNat := by
  have hle : (x % d) ≤ x := by
    rw [BitVec.le_def, BitVec.toNat_umod]
    exact Nat.mod_le _ _
  rw [BitVec.toNat_sub_of_le hle, BitVec.toNat_umod]

theorem roundDown_fraction (hcur : cmpCurrency a unit = .ok) (hv : unit.value = 0)
    (hf : unit.fraction ≠ 0) : roundDown a unit =
      if a.fraction % unit.fraction = 0 then (.no, a)
      else (.ok, { a with fraction := a.fraction - a.fraction % unit.fraction }) := by
  unfold roundDown
  rw [if_neg (not_not.mpr hcur), if_neg fun h => h.2 hv, if_neg fun h => hf h.1, if_pos hf]

theorem roundDown_value (hcur : cmpCurrency a unit = .ok) (hv : unit.value ≠ 0)
    (hf : unit.fraction = 0) : roundDown a unit =
      if a.value % unit.value = 0 then (.no, a)
      else (.ok, { a with value := a.value - a.value % unit.value, fraction := 0 }) := by
  unfold roundDown
  rw [if_neg (not_not.mpr hcur), if_neg fun h => h.1 hf, if_neg fun h => hv h.2,
    if_neg (not_not.mpr hf)]

/-- Where a multiple is reported just if there is nothing to cut off, and what is cut off is the
remainder. -/
theorem RoundsDown.of_units {r : Generic} {b : RawAmount} (hpos : 0 < unit.units)
    (h : roundDown a unit = (r, b)) (hr : r = if unit.units ∣ a.units then .no else .ok)
    (hunits : b.units = a.units - a.units % unit.units) (hcur : b.currency = a.currency)
    (hagain : roundDown b unit = (.no, b)) : RoundsDown a unit where
  largest := by
    rw [h, isGreatest_multiple_iff hpos]
    exact hunits
  currency := by
    rw [h]
    exact hcur
  accepted := by
    rw [h, hr]
    dsimp only
    split_ifs <;> decide
  reported := by
    rw [h, hr]
    dsimp only
    split_ifs with hdvd
    · exact iff_of_false (by decide) (not_not.mpr hdvd)
    · exact iff_of_true rfl hdvd
  idempotent := by
    rw [h]
    exact hagain

theorem roundsDown_fraction (ha : a.isValid = .ok) (hcur : cmpCurrency a unit = .ok)
    (hv : unit.value = 0) (hf : unit.fraction ≠ 0) (hdvd : unit.fraction.toNat ∣ fracBase) :
    RoundsDown a unit := by
  have hpos := toNat_pos_of_ne_zero hf
  have hunit : unit.units = unit.fraction.toNat := by
    unfold units
    rw [hv]
    exact (congrArg (· + unit.fraction.toNat) (Nat.zero_mul _)).trans (Nat.zero_add _)
  have hmod : a.units % unit.units = a.fraction.toNat % unit.fraction.toNat := by
    obtain ⟨k, hk⟩ := hdvd
    rw [hunit, units, hk, Nat.mul_left_comm, Nat.mul_add_mod]
  have hzero : a.fraction % unit.fraction = 0 ↔ unit.units ∣ a.units := by
    rw [umod_eq_zero_iff, Nat.dvd_iff_mod_eq_zero, hmod]
  have hle : a.fraction.toNat % unit.fraction.toNat ≤ a.fraction.toNat := Nat.mod_le _ _
  -- the fraction that is left is a multiple, and the rest of the amount stays
  have hagain : ∀ b : RawAmount, b.value = a.value → b.currency = a.currency →
      b.fraction.toNat % unit.fraction.toNat = 0 → roundDown b unit = (.no, b) := by
    intro b hbv hbc hbf
    have hb : b.isValid = .ok := by
      rw [isValid_eq_ok, hbv, hbc]
      exact isValid_eq_ok.mp ha
    rw [roundDown_fraction ((cmpCurrency_congr hb ha hbc).trans hcur) hv hf,
      if_pos ((umod_eq_zero_iff _ _).mpr hbf)]
  rw [← hunit] at hpos
  by_cases hmultiple : a.fraction % unit.fraction = 0
  · refine RoundsDown.of_units hpos ((roundDown_fraction hcur hv hf).trans (if_pos hmultiple))
      (if_pos (hzero.mp hmultiple)).symm ?_ rfl (hagain a rfl rfl ?_)
    · rw [hmod, (umod_eq_zero_iff _ _).mp hmultiple, Nat.sub_zero]
    · exact (umod_eq_zero_iff _ _).mp hmultiple
  · refine RoundsDown.of_units hpos ((roundDown_fraction hcur hv hf).trans (if_neg hmultiple))
      (if_neg fun h => hmultiple (hzero.mpr h)).symm ?_ rfl (hagain _ rfl rfl ?_)
    · rw [hmod]
      unfold units
      rw [toNat_sub_umod, Nat.add_sub_assoc hle]
    · rw [toNat_sub_umod]
      exact Nat.mod_eq_zero_of_dvd (Nat.dvd_sub_mod _)

/-- A unit without a fraction: the amount is to have no fraction, or a value that is no multiple. -/
theorem roundsDown_value_iff (ha : a.isValid = .ok) (hn : a.IsNormal)
    (hcur : cmpCurrency a unit = .ok) (hv : unit.value ≠ 0) (hf : unit.fraction = 0) :
    RoundsDown a unit ↔ a.fraction = 0 ∨ ¬unit.value.toNat ∣ a.value.toNat := by
  have hpos := toNat_pos_of_ne_zero hv
  have hunit : unit.units = fracBase * unit.value.toNat := by
    unfold units
    rw [hf, Nat.mul_comm]
    exact Nat.add_zero _
  have hunit_pos : 0 < unit.units := by
    rw [hunit]
    exact Nat.mul_pos (by decide) hpos
  have hmod : a.units % unit.units =
      a.fraction.toNat + fracBase * (a.value.toNat % unit.value.toNat) := by
    rw [hunit, Nat.mod_mul, units_div hn, units_mod hn]
  have hfzero : a.fraction.toNat = 0 ↔ a.fraction = 0 :=
    ⟨fun h => BitVec.eq_of_toNat_eq h, fun h => h ▸ rfl⟩
  by_cases hmultiple : a.value % unit.value = 0
  · have hrem : a.value.toNat % unit.value.toNat = 0 := (umod_eq_zero_iff _ _).mp hmultiple
    have hround := (roundDown_value hcur hv hf).trans (if_pos hmultiple)
    rw [or_iff_left (not_not.mpr (Nat.dvd_of_mod_eq_zero hrem)), ← hfzero]
    rw [hrem, Nat.mul_zero, Nat.add_zero] at hmod
    constructor
    · -- nothing is cut off
      intro h
      have hlargest := h.largest
      have hle := Nat.mod_le a.units unit.units
      rw [hround, isGreatest_multiple_iff hunit_pos] at hlargest
      dsimp only at hlargest
      omega
    · intro hzero
      rw [hzero] at hmod
      refine RoundsDown.of_units hunit_pos hround
        (if_pos (Nat.dvd_of_mod_eq_zero hmod)).symm ?_ rfl hround
      rw [hmod, Nat.sub_zero]
  · have hrem : a.value.toNat % unit.value.toNat ≠ 0 := fun h =>
      hmultiple ((umod_eq_zero_iff _ _).mpr h)
    have hround := (roundDown_value hcur hv hf).trans (if_neg hmultiple)
    have hle := Nat.mod_le a.value.toNat unit.value.toNat
    refine iff_of_true ?_ (Or.inr fun h => hrem (Nat.mod_eq_zero_of_dvd h))
    refine RoundsDown.of_units hunit_pos hround (if_neg fun h => ?_).symm ?_ rfl ?_
    · have hzero := Nat.mod_eq_zero_of_dvd h
      dsimp only [fracBase] at *
      omega
    · rw [hmod]
      unfold units
      rw [toNat_sub_umod]
      have hzero : (0 : BitVec 32).toNat = 0 := rfl
      dsimp only [fracBase] at *
      omega
    · have hb : isValid { a with value := a.value - a.value % unit.value, fraction := 0 } = .ok := by
        rw [isValid_eq_ok]
        have hmax := isValid_eq_ok.mp ha
        refine ⟨?_, hmax.2⟩
        dsimp only
        rw [toNat_sub_umod]
        exact (Nat.sub_le _ _).trans hmax.1
      rw [roundDown_value ((cmpCurrency_congr hb ha rfl).trans hcur) hv hf, if_pos]
      rw [umod_eq_zero_iff]
      dsimp only
      rw [toNat_sub_umod]
      exact Nat.mod_eq_zero_of_dvd (Nat.dvd_sub_mod _)

end RoundDown

/-- **Rounding down** is right but where a value is a multiple of the unit already and has a
fraction, which then stays. -/
theorem roundDown_iff {amount roundUnit : RawAmount} (ha : amount.isValid = .ok)
    (hn : amount.IsNormal) (hcur : cmpCurrency amount roundUnit = .ok) (hunit : RoundUnit roundUnit) :
    RoundsDown amount roundUnit ↔ roundUnit.value = 0 ∨ amount.fraction = 0 ∨
      ¬roundUnit.value.toNat ∣ amount.value.toNat := by
  rcases hunit.one_part with ⟨hv, hf⟩ | ⟨hv, hf⟩
  · rw [or_iff_right hv]
    exact roundsDown_value_iff ha hn hcur hv hf
  · exact iff_of_true (roundsDown_fraction ha hcur hv hf (hunit.fraction_dvd hf)) (Or.inl hv)

theorem roundDown_iff_sample :
    RoundsDown ⟨12, 30000000, ['B', 'T', 'C']⟩ ⟨5, 0, ['B', 'T', 'C']⟩ :=
  (roundDown_iff (by decide) (by unfold IsNormal; decide) (by decide)
    ⟨Or.inl ⟨by decide, rfl⟩, fun h => absurd rfl h⟩).mpr (Or.inr (Or.inr (by decide)))

/-- Ten and a half, in units of five. -/
theorem not_roundsDown : ¬∀ amount roundUnit : RawAmount, amount.isValid = .ok → amount.IsNormal →
    cmpCurrency amount roundUnit = .ok → RoundUnit roundUnit → RoundsDown amount roundUnit := by
  intro h
  have hround := h ⟨10, 50000000, ['E', 'U', 'R']⟩ ⟨5, 0, ['E', 'U', 'R']⟩ (by decide)
    (by unfold IsNormal; decide) (by decide) ⟨Or.inl ⟨by decide, rfl⟩, fun h => absurd rfl h⟩
  have hreport := hround.reported.mpr (by decide)
  revert hreport
  decide

/-! ## The smallest denomination -/

section Unit

/-- Amounts that can be compared with each other. -/
structure Comparable (denomKeys : List RawAmount) : Prop where
  valid : ∀ d ∈ denomKeys, d.isValid = .ok
  normal : ∀ d ∈ denomKeys, d.IsNormal
  currency : ∀ d ∈ denomKeys, ∀ d' ∈ denomKeys, cmpCurrency d d' = .ok

variable {denomKeys : List RawAmount}

theorem Comparable.cmp_eq (h : Comparable denomKeys) {d d' : RawAmount} (hd : d ∈ denomKeys)
    (hd' : d' ∈ denomKeys) : cmp wrapping d d' = .ok (Int.sign ((d.units : ℤ) - d'.units)) := by
  have hlt := units_lt_limit (h.valid d hd) (h.normal d hd)
  have hlt' := units_lt_limit (h.valid d' hd') (h.normal d' hd')
  rw [RawAmount.cmp_eq exactInRange_wrapping (h.valid d hd) (h.valid d' hd')
    (h.currency d hd d' hd'), if_neg (not_or.mpr ⟨not_le.mpr hlt, not_le.mpr hlt'⟩)]

theorem getUnitLoop_eq (h : Comparable denomKeys) {rest : List RawAmount}
    (hrest : ∀ d ∈ rest, d ∈ denomKeys) {min : RawAmount} (hmin : min ∈ denomKeys) :
    ∃ unit ∈ min :: rest, getUnitLoop (some min) rest = .ok (some unit) ∧
      ∀ d ∈ min :: rest, unit.units ≤ d.units := by
  induction rest generalizing min with
  | nil =>
    refine ⟨min, List.mem_cons_self, rfl, fun d hd => ?_⟩
    rw [List.mem_singleton.mp hd]
  | cons value rest ih =>
    have hvalue := hrest value List.mem_cons_self
    have hcmp := h.cmp_eq hmin hvalue
    -- the loop goes on with the smaller of the two
    have hnext : ∀ next ∈ denomKeys, (next = min ∨ next = value) →
        next.units ≤ min.units → next.units ≤ value.units →
        (if Int.sign ((min.units : ℤ) - value.units) = 1 then value else min) = next →
        ∃ unit ∈ min :: value :: rest, getUnitLoop (some min) (value :: rest) = .ok (some unit) ∧
          ∀ d ∈ min :: value :: rest, unit.units ≤ d.units := by
      intro next hnext hwhich hle hle' heq
      obtain ⟨unit, hunit, hloop, hleast⟩ :=
        ih (fun d hd => hrest d (List.mem_cons_of_mem _ hd)) hnext
      have hfirst := hleast next List.mem_cons_self
      refine ⟨unit, ?_, ?_, fun d hd => ?_⟩
      · rcases List.mem_cons.mp hunit with rfl | hmem
        · rcases hwhich with rfl | rfl
          · exact List.mem_cons_self
          · exact List.mem_cons_of_mem _ List.mem_cons_self
        · exact List.mem_cons_of_mem _ (List.mem_cons_of_mem _ hmem)
      · rw [getUnitLoop, hcmp]
        exact (congrArg (fun n => getUnitLoop (some n) rest) heq).trans hloop
      · rcases List.mem_cons.mp hd with rfl | hmem
        · exact hfirst.trans hle
        rcases List.mem_cons.mp hmem with rfl | hmem
        · exact hfirst.trans hle'
        · exact hleast d (List.mem_cons_of_mem _ hmem)
    by_cases hlt : value.units < min.units
    · refine hnext value hvalue (Or.inr rfl) hlt.le le_rfl (if_pos ?_)
      exact Int.sign_eq_one_of_pos (by omega)
    · refine hnext min hmin (Or.inl rfl) le_rfl (not_lt.mp hlt) (if_neg fun hsign => ?_)
      rw [Int.sign_eq_one_iff_pos] at hsign
      omega

/-- The unit is a denomination with the least number of units. -/
theorem getUnit_eq (h : Comparable denomKeys) (hne : denomKeys ≠ []) : ∃ unit ∈ denomKeys,
    getUnit denomKeys = .ok (some unit) ∧ ∀ d ∈ denomKeys, unit.units ≤ d.units := by
  obtain ⟨value, rest, rfl⟩ := List.exists_cons_of_ne_nil hne
  exact getUnitLoop_eq h (fun d hd => List.mem_cons_of_mem _ hd) List.mem_cons_self

end Unit

/-! ## The nearest multiple -/

/-- The fraction after rounding, as a number. -/
def nearest (f u : ℕ) : ℕ := if f % u < u / 2 then f - f % u else f + (u - f % u)

section Nearest

variable {f u base : ℕ}

theorem dvd_nearest (hu : 0 < u) : u ∣ nearest f u := by
  have hlt := Nat.mod_lt f hu
  have hsplit := Nat.div_add_mod f u
  unfold nearest
  split_ifs
  · exact Nat.dvd_sub_mod f
  · refine ⟨f / u + 1, ?_⟩
    rw [Nat.mul_succ]
    omega

/-- The multiple is in range and not more than half a unit away, unless the unit is odd and the
number just below the middle, or the number is in the upper half of the last unit. -/
theorem nearest_iff (hu : 0 < u) (hdvd : u ∣ base) (hf : f < base) :
    (nearest f u < base ∧ 2 * ((nearest f u : ℤ) - f).natAbs ≤ u) ↔
      2 * (f % u) + 1 ≠ u ∧ 2 * f + u < 2 * base := by
  obtain ⟨k, rfl⟩ := hdvd
  have hlt := Nat.mod_lt f hu
  have hsplit := Nat.div_add_mod f u
  have hq : f / u < k := (Nat.div_lt_iff_lt_mul hu).mpr (by rwa [Nat.mul_comm])
  have hlast : u * (f / u) + u ≤ u * k := Nat.mul_succ u _ ▸ Nat.mul_le_mul_left u hq
  -- the next multiple is the end of the range, or a whole unit below it
  have hend : u * (f / u) + u = u * k ∨ u * (f / u) + u + u ≤ u * k := by
    rcases Nat.lt_or_eq_of_le (Nat.succ_le_of_lt hq) with hless | heq
    · refine Or.inr ?_
      have hle := Nat.mul_le_mul_left u (Nat.succ_le_of_lt hless)
      rw [Nat.mul_succ, Nat.mul_succ] at hle
      exact hle
    · refine Or.inl ?_
      rw [← heq, Nat.mul_succ]
  unfold nearest
  generalize u * (f / u) = x at *
  generalize u * k = y at *
  generalize f % u = m at *
  split_ifs <;> omega

/-- A multiple stays, if the unit has a half. -/
theorem nearest_of_dvd (hu : 2 ≤ u) (hdvd : u ∣ f) : nearest f u = f := by
  have hzero := Nat.mod_eq_zero_of_dvd hdvd
  unfold nearest
  rw [hzero, if_pos (by omega), Nat.sub_zero]

end Nearest

theorem toNat_stefanRoundFraction {fraction frac : BitVec 32} (hfraction : fraction.toNat < fracBase)
    (hpos : 0 < frac.toNat) (hfrac : frac.toNat ≤ fracBase) :
    (stefanRoundFraction fraction frac).toNat = nearest fraction.toNat frac.toNat := by
  have hlt := Nat.mod_lt fraction.toNat hpos
  have hle : fraction % frac ≤ frac := by
    rw [BitVec.le_def, BitVec.toNat_umod]
    exact hlt.le
  have hlim : fraction % frac < frac / 2 ↔ fraction.toNat % frac.toNat < frac.toNat / 2 := by
    rw [BitVec.lt_def, BitVec.toNat_umod, BitVec.toNat_udiv]
    rfl
  have hsum : fraction.toNat + (frac.toNat - fraction.toNat % frac.toNat) < 2 ^ 32 := by
    dsimp only [fracBase] at *
    omega
  unfold stefanRoundFraction nearest
  dsimp only
  by_cases hdown : fraction % frac < frac / 2
  · rw [if_pos hdown, if_pos (hlim.mp hdown), toNat_sub_umod]
  · rw [if_neg hdown, if_neg fun h => hdown (hlim.mpr h), BitVec.toNat_add,
      BitVec.toNat_sub_of_le hle, BitVec.toNat_umod, Nat.mod_eq_of_lt hsum]

section Stefan

variable {denomKeys : List RawAmount} {unit val : RawAmount} {u : ℕ}

/-- What rounding to the nearest coin is to do. -/
structure StefanRounds (u : ℕ) (denomKeys : List RawAmount) (val rounded : RawAmount) : Prop where
  normal : rounded.IsNormal
  multiple : u ∣ rounded.units
  near : 2 * ((rounded.units : ℤ) - val.units).natAbs ≤ u
  stable : keysStefanRound denomKeys rounded = .ok rounded

/-- The function on an amount with a fraction: the fraction of the smallest denomination, or one,
is what is rounded to. -/
theorem keysStefanRound_eq (h : Comparable denomKeys) (hunit : unit ∈ denomKeys)
    (hleast : ∀ d ∈ denomKeys, unit.units ≤ d.units) (hf : val.fraction ≠ 0) :
    keysStefanRound denomKeys val = .ok { val with
      fraction := stefanRoundFraction val.fraction
        (if unit.fraction = 0 then BitVec.ofNat 32 fracBase else unit.fraction) } := by
  obtain ⟨min, hmin, hget, hle⟩ := getUnit_eq h (List.ne_nil_of_mem hunit)
  have hsame : min.fraction = unit.fraction := by
    have hunits : min.units = unit.units := le_antisymm (hle unit hunit) (hleast min hmin)
    rw [← BitVec.toNat_inj, ← units_mod (h.normal min hmin), hunits,
      units_mod (h.normal unit hunit)]
  unfold keysStefanRound
  rw [if_neg hf, hget, ← hsame]
  rfl

end Stefan

/-- **Rounding to the nearest coin** is right but for odd units where the fraction is just below
the middle, and for fractions that are to be rounded up to one. -/
theorem keysStefanRound_iff {denomKeys : List RawAmount} {unit val : RawAmount} {u : ℕ}
    (h : Comparable denomKeys) (hunit : unit ∈ denomKeys)
    (hleast : ∀ d ∈ denomKeys, unit.units ≤ d.units)
    (hu : u = if unit.fraction = 0 then fracBase else unit.fraction.toNat) (hdvd : u ∣ fracBase)
    (hn : val.IsNormal) (hf : val.fraction ≠ 0) :
    ∃ rounded, keysStefanRound denomKeys val = .ok rounded ∧
      (StefanRounds u denomKeys val rounded ↔
        2 * (val.fraction.toNat % u) + 1 ≠ u ∧ 2 * val.fraction.toNat + u < 2 * fracBase) := by
  refine ⟨_, keysStefanRound_eq h hunit hleast hf, ?_⟩
  have hfrac : (if unit.fraction = 0 then BitVec.ofNat 32 fracBase else unit.fraction).toNat = u := by
    rw [hu]
    split_ifs <;> rfl
  generalize hword : (if unit.fraction = 0 then BitVec.ofNat 32 fracBase else unit.fraction) = frac
    at hfrac
  have hpos : 0 < u := Nat.pos_of_dvd_of_pos hdvd (by decide)
  have hle : u ≤ fracBase := Nat.le_of_dvd (by decide) hdvd
  have hround := @toNat_stefanRoundFraction val.fraction frac hn (by omega) (by omega)
  rw [hfrac] at hround
  have hdist : ∀ fraction : BitVec 32, (units { val with fraction := fraction } : ℤ) - val.units =
      (fraction.toNat : ℤ) - val.fraction.toNat := by
    intro fraction
    unfold units
    dsimp only
    omega
  rw [← nearest_iff hpos hdvd hn]
  constructor
  · intro hr
    have hnormal := hr.normal
    have hnear := hr.near
    unfold IsNormal at hnormal
    rw [hdist] at hnear
    dsimp only at hnormal hnear
    rw [hround] at hnormal hnear
    exact ⟨hnormal, hnear⟩
  · rintro ⟨hnormal, hnear⟩
    have hmiddle := ((nearest_iff hpos hdvd hn).mp ⟨hnormal, hnear⟩).1
    have hlt := Nat.mod_lt val.fraction.toNat hpos
    have htwo : 2 ≤ u := by omega
    rw [← hround] at hnormal hnear
    refine ⟨hnormal, ?_, ?_, ?_⟩
    · unfold units
      dsimp only
      rw [hround]
      exact Nat.dvd_add (Dvd.dvd.mul_left hdvd _) (dvd_nearest hpos)
    · rw [hdist]
      exact hnear
    · by_cases hzero : stefanRoundFraction val.fraction frac = 0
      · exact if_pos hzero
      rw [keysStefanRound_eq h hunit hleast hzero]
      dsimp only
      rw [hword]
      have hagain := @toNat_stefanRoundFraction (stefanRoundFraction val.fraction frac) frac hnormal
        (by omega) (by omega)
      rw [hfrac, hround, nearest_of_dvd htwo (dvd_nearest hpos), ← hround, BitVec.toNat_inj] at hagain
      rw [hagain]

/-- A coin of a cent, and one of one. -/
def sampleCoins : List RawAmount := [⟨1, 0, ['E', 'U', 'R']⟩, ⟨0, 1000000, ['E', 'U', 'R']⟩]

theorem comparable_sampleCoins : Comparable sampleCoins where
  valid := by decide
  normal := by
    unfold IsNormal
    decide
  currency := by decide

theorem keysStefanRound_sample : ∃ rounded,
    keysStefanRound sampleCoins ⟨1, 12600000, ['E', 'U', 'R']⟩ = .ok rounded ∧
      StefanRounds 1000000 sampleCoins ⟨1, 12600000, ['E', 'U', 'R']⟩ rounded := by
  obtain ⟨rounded, hrun, hiff⟩ := @keysStefanRound_iff sampleCoins ⟨0, 1000000, ['E', 'U', 'R']⟩
    ⟨1, 12600000, ['E', 'U', 'R']⟩ 1000000 comparable_sampleCoins (by decide) (by decide)
    (by decide) (by decide) (by unfold IsNormal; decide) (by decide)
  exact ⟨rounded, hrun, hiff.mpr (by decide)⟩

/-- One half, where the only coin is one. -/
theorem not_keysStefanRound : ¬∀ (denomKeys : List RawAmount) (unit val : RawAmount) (u : ℕ),
    Comparable denomKeys → unit ∈ denomKeys → (∀ d ∈ denomKeys, unit.units ≤ d.units) →
    u = (if unit.fraction = 0 then fracBase else unit.fraction.toNat) → u ∣ fracBase →
    val.IsNormal → val.fraction ≠ 0 → ∃ rounded,
      keysStefanRound denomKeys val = .ok rounded ∧ StefanRounds u denomKeys val rounded := by
  intro h
  obtain ⟨rounded, hrun, hr⟩ := h [⟨1, 0, ['E', 'U', 'R']⟩] ⟨1, 0, ['E', 'U', 'R']⟩
    ⟨0, 50000000, ['E', 'U', 'R']⟩ fracBase
    ⟨by decide, by unfold IsNormal; decide, by decide⟩ (by decide) (by decide) (by decide)
    dvd_rfl (by unfold IsNormal; decide) (by decide)
  have hrounded : keysStefanRound [⟨1, 0, ['E', 'U', 'R']⟩] ⟨0, 50000000, ['E', 'U', 'R']⟩ =
      .ok ⟨0, 100000000, ['E', 'U', 'R']⟩ := by decide
  rw [hrounded] at hrun
  have hnormal := hr.normal
  rw [← Except.ok.inj hrun] at hnormal
  exact absurd hnormal (by unfold IsNormal; decide)

end RawAmount

end TalerExchange
