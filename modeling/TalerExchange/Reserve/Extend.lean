import TalerExchange.Amount.Sql
import TalerExchange.Reserve.Figures

/-!
# The life of a reserve

`exchange_do_reserve_open` with the integers of PostgreSQL, and what an update of it leaves: the new
expiration is taken from the requested one, or from the current time when the purse limit is raised,
and the garbage collection date from the old expiration.

* `pgTerms`, `pgCost`, `Pg.exchangeDoReserveOpen`: the procedure, where a result out of range raises;
* **`Pg.open_refines`**: what it computes, the procedure with integers computes;
* `KeepsLife`: the update keeps what the reserve had and grants what was asked for;
* **`keepsLife_iff`**: when it does;
* **`not_keepsLife`**: a second purse can take four years from a reserve.
-/

namespace TalerExchange

open Sql

/-! ## The procedure -/

namespace ReserveOpenArgs

variable (a : ReserveOpenArgs) (x : Reserve)

/-- The years from `start` to the desired expiration: computed as `INT8`, assigned to an `INT4`. -/
def pgYears (start : ℤ) : Except PgError ℤ := do
  let n ← int8 (31535999999999 + a.desiredExpiration)
  let n ← int8 (n - start)
  int4 (n.tdiv 31536000000000)

/-- `start + 31536000000000 * years`. -/
def pgAfter (start years : ℤ) : Except PgError ℤ := do
  let n ← int8 (31536000000000 * years)
  int8 (start + n)

/-- The years for the purses that are missing, an `INT4`. -/
def pgMoreYears (limit : ℤ) : Except PgError ℤ := do
  let n ← int4 (a.minPurseLimit + a.defaultPurseLimit)
  let n ← int8 (n - limit)
  let n ← int8 (n - 1)
  if a.defaultPurseLimit = 0 then .error .divisionByZero
  else do
    let n ← int8 (n.tdiv a.defaultPurseLimit)
    int4 n

/-- The terms from the desired expiration. -/
def pgExpirationTerms : Except PgError OpenTerms :=
  let start := if x.expirationDate < a.now then a.now else x.expirationDate
  if start < a.desiredExpiration then do
    let years ← a.pgYears start
    let e ← pgAfter start years
    .ok ⟨years, e, a.defaultPurseLimit⟩
  else .ok ⟨0, start, x.pursesAllowed⟩

/-- More years for the purses requested. -/
def pgPurses (t : OpenTerms) : Except PgError OpenTerms :=
  if t.pursesAllowed < a.minPurseLimit then do
    let years ← a.pgYears a.now
    let e ← pgAfter a.now years
    let more ← a.pgMoreYears t.pursesAllowed
    let years ← int4 (years + more)
    let n ← int4 (a.defaultPurseLimit * more)
    let purses ← int8 (t.pursesAllowed + n)
    .ok ⟨years, e, purses⟩
  else .ok t

/-- The years to pay for, the new expiration and the new purse limit. -/
def pgTerms : Except PgError OpenTerms := do
  let t ← a.pgExpirationTerms x
  a.pgPurses t

/-- The annual fees, `none` in the branch `arithmetic issue`. The product with the fraction is one
of two `INT4`. -/
def pgCost (years : ℤ) : Except PgError (Option TalerAmount) := do
  let val ← int8 (years * a.openFee.toTaler.val)
  let n ← int4 (years * a.openFee.toTaler.frac)
  let sum ← int8 (val + n.tdiv 100000000)
  .ok (if sum < val then none else some ⟨sum, n.tmod 100000000⟩)

/-- The annual fees are not covered by the total. -/
def pgShort (cost : TalerAmount) : Bool :=
  a.totalPaid.toTaler.val < cost.val ∨
    (a.totalPaid.toTaler.val = cost.val ∧ a.totalPaid.toTaler.frac < cost.frac)

end ReserveOpenArgs

theorem Reserve.key_opened (balance : TalerAmount) (x : Reserve) (a : ReserveOpenArgs) (t : OpenTerms)
    (y : Reserve) :
    Record.key { y with
      currentBalance := balance
      gcDate := x.expirationDate + a.reserveGcDelay
      expirationDate := t.expirationDate
      pursesAllowed := t.pursesAllowed } = Record.key y := rfl

theorem Reserve.serial_opened (balance : TalerAmount) (x : Reserve) (a : ReserveOpenArgs)
    (t : OpenTerms) (y : Reserve) :
    Record.serial { y with
      currentBalance := balance
      gcDate := x.expirationDate + a.reserveGcDelay
      expirationDate := t.expirationDate
      pursesAllowed := t.pursesAllowed } = Record.serial y := rfl

/-- `exchange_do_reserve_open`, where a number out of range is an exception. -/
def Pg.exchangeDoReserveOpen (db : Database) (a : ReserveOpenArgs) :
    Except PgError (Database × ReserveOpenOut) :=
  match db.reserves.lookup a.reservePub with
  | none => .ok (db, ⟨TalerAmount.zero, 0, true, true, TalerAmount.zero⟩)
  | some x => do
    let t ← a.pgTerms x
    if t.years ≤ 0 then
      .ok (db, ⟨TalerAmount.zero, x.expirationDate, false, false, x.currentBalance⟩)
    else
      match ← a.pgCost t.years with
      | none => .ok (db, ⟨⟨9223372036854775807, 2147483647⟩, t.expirationDate, false, false,
          x.currentBalance⟩)
      | some cost =>
        if a.pgShort cost then
          .ok (db, ⟨cost, if x.expirationDate ≥ a.desiredExpiration then 0 else x.expirationDate,
            false, false, x.currentBalance⟩)
        else
          match x.currentBalance.leftMinusRight a.reservePayment with
          | none => .ok (db, ⟨cost, x.expirationDate, false, true, x.currentBalance⟩)
          | some balance => do
            let _ ← int8 (x.expirationDate + a.reserveGcDelay)
            .ok ({ db with
                reserves := db.setReserve a.reservePub (fun y =>
                  { y with
                    currentBalance := balance
                    gcDate := x.expirationDate + a.reserveGcDelay
                    expirationDate := t.expirationDate
                    pursesAllowed := t.pursesAllowed })
                  (Reserve.key_opened balance x a t) (Reserve.serial_opened balance x a t) },
              ⟨cost, t.expirationDate, false, false, x.currentBalance⟩)

/-! ## What is computed -/

section Computed

variable {a : ReserveOpenArgs} {x : Reserve} {t : OpenTerms}

theorem years_of_pgYears {start y : ℤ} (h : a.pgYears start = .ok y) :
    y = (31535999999999 + a.desiredExpiration - start).tdiv 31536000000000 := by
  simp only [ReserveOpenArgs.pgYears, int8_bind_eq_ok, int4_eq_ok] at h
  exact h.2.2.2.symm

theorem after_of_pgAfter {start years e : ℤ} (h : ReserveOpenArgs.pgAfter start years = .ok e) :
    e = start + 31536000000000 * years := by
  simp only [ReserveOpenArgs.pgAfter, int8_bind_eq_ok, int8_eq_ok] at h
  exact h.2.2.symm

theorem moreYears_of_pgMoreYears {limit n : ℤ} (h : a.pgMoreYears limit = .ok n) :
    a.defaultPurseLimit ≠ 0 ∧
      n = (a.minPurseLimit + a.defaultPurseLimit - limit - 1).tdiv a.defaultPurseLimit := by
  simp only [ReserveOpenArgs.pgMoreYears, int4_bind_eq_ok, int8_bind_eq_ok] at h
  obtain ⟨-, -, -, h⟩ := h
  split_ifs at h with hz
  simp only [int8_bind_eq_ok, int4_eq_ok] at h
  exact ⟨hz, h.2.2.symm⟩

theorem expirationTerms_of_pg (h : a.pgExpirationTerms x = .ok t) : t = a.expirationTerms x := by
  unfold ReserveOpenArgs.pgExpirationTerms at h
  unfold ReserveOpenArgs.expirationTerms
  simp only at h ⊢
  generalize (if x.expirationDate < a.now then a.now else x.expirationDate) = start at h ⊢
  split_ifs at h ⊢
  · obtain ⟨y, hy, h⟩ := bind_eq_ok.mp h
    obtain ⟨e, he, h⟩ := bind_eq_ok.mp h
    rw [← years_of_pgYears hy, ← after_of_pgAfter he]
    exact (Except.ok.inj h).symm
  · exact (Except.ok.inj h).symm

/-- **What the procedure computes with `INT4` and `INT8`** it computes with integers. -/
theorem terms_of_pgTerms (h : a.pgTerms x = .ok t) : a.terms x = .ok t := by
  unfold ReserveOpenArgs.pgTerms at h
  obtain ⟨t₀, ht₀, h⟩ := bind_eq_ok.mp h
  unfold ReserveOpenArgs.pgPurses at h
  unfold ReserveOpenArgs.terms
  rw [← expirationTerms_of_pg ht₀]
  simp only
  split_ifs at h with hlimit
  · obtain ⟨y, hy, h⟩ := bind_eq_ok.mp h
    obtain ⟨e, he, h⟩ := bind_eq_ok.mp h
    obtain ⟨n, hn, h⟩ := bind_eq_ok.mp h
    simp only [int4_bind_eq_ok, int8_bind_eq_ok] at h
    obtain ⟨hz, hmore⟩ := moreYears_of_pgMoreYears hn
    rw [if_pos hlimit, if_neg hz, ← hmore, ← years_of_pgYears hy, ← after_of_pgAfter he]
    exact congrArg Except.ok (Except.ok.inj h.2.2.2)
  · rw [if_neg hlimit]
    exact congrArg Except.ok (Except.ok.inj h)

/-- A reserve that is as requested needs no years. -/
theorem years_of_met (h₁ : a.desiredExpiration ≤ x.expirationDate)
    (h₂ : a.minPurseLimit ≤ x.pursesAllowed) (h : a.terms x = .ok t) : t.years = 0 := by
  have hterms : (a.expirationTerms x).years = 0 ∧
      (a.expirationTerms x).pursesAllowed = x.pursesAllowed := by
    unfold ReserveOpenArgs.expirationTerms
    simp only
    have hstart : ¬ (if x.expirationDate < a.now then a.now else x.expirationDate) <
        a.desiredExpiration := by
      rw [not_lt]
      split_ifs with hnow
      · exact h₁.trans hnow.le
      · exact h₁
    rw [if_neg hstart]
    exact ⟨rfl, rfl⟩
  unfold ReserveOpenArgs.terms at h
  simp only at h
  rw [if_neg (by rw [hterms.2]; omega)] at h
  cases h
  exact hterms.1

end Computed

/-! ## The two stages -/

namespace ReserveOpenArgs

variable (a : ReserveOpenArgs) (x : Reserve)

/-- Where the extension starts: at the expiration, or now if the reserve has expired. -/
def start : ℤ := if x.expirationDate < a.now then a.now else x.expirationDate

/-- The purse limit after the extension, before years are added for purses. -/
def limit : ℤ := if a.start x < a.desiredExpiration then a.defaultPurseLimit else x.pursesAllowed

/-- The years that the procedure computes from a start. -/
def yearsFrom (start : ℤ) : ℤ :=
  (31535999999999 + a.desiredExpiration - start).tdiv 31536000000000

/-- The time that whole years are to cover: `d`, except that the division of the procedure rounds
towards zero, so that for a time long past it covers almost a year more. -/
def lead (d : ℤ) : ℤ := if -31536000000000 < d then d else d + 31535999999999

variable {a x} {t : OpenTerms}

theorem tdiv_bounds (d : ℤ) :
    lead d ≤ 31536000000000 * (31535999999999 + d).tdiv 31536000000000 ∧
      31536000000000 * (31535999999999 + d).tdiv 31536000000000 < lead d + 31536000000000 := by
  unfold lead
  have hdiv := Int.mul_tdiv_add_tmod (31535999999999 + d) 31536000000000
  have hlt := Int.tmod_lt_of_pos (31535999999999 + d) (show (0 : ℤ) < 31536000000000 by decide)
  split_ifs with h
  · have hnn := Int.tmod_nonneg 31536000000000 (show 0 ≤ 31535999999999 + d by omega)
    omega
  · have hneg := Int.tmod_nonneg 31536000000000 (show 0 ≤ -(31535999999999 + d) by omega)
    have hgt := Int.tmod_lt_of_pos (-(31535999999999 + d)) (show (0 : ℤ) < 31536000000000 by decide)
    rw [Int.neg_tmod] at hneg hgt
    omega

theorem yearsFrom_bounds (a : ReserveOpenArgs) (start : ℤ) :
    lead (a.desiredExpiration - start) ≤ 31536000000000 * a.yearsFrom start ∧
      31536000000000 * a.yearsFrom start <
        lead (a.desiredExpiration - start) + 31536000000000 := by
  unfold yearsFrom
  rw [add_sub_assoc]
  exact tdiv_bounds _

/-- **The terms by stages**: more years for purses from now on, or an extension, or nothing. -/
theorem terms_cases (h : a.terms x = .ok t) :
    (a.limit x < a.minPurseLimit ∧ a.defaultPurseLimit ≠ 0 ∧
      ∃ more, more = (a.minPurseLimit + a.defaultPurseLimit - a.limit x - 1).tdiv
          a.defaultPurseLimit ∧
        t.years = a.yearsFrom a.now + more ∧
        t.expirationDate = a.now + 31536000000000 * a.yearsFrom a.now ∧
        t.pursesAllowed = a.limit x + a.defaultPurseLimit * more) ∨
    (a.minPurseLimit ≤ a.limit x ∧ a.start x < a.desiredExpiration ∧
      t.years = a.yearsFrom (a.start x) ∧
      t.expirationDate = a.start x + 31536000000000 * a.yearsFrom (a.start x) ∧
      t.pursesAllowed = a.limit x) ∨
    (a.minPurseLimit ≤ a.limit x ∧ a.desiredExpiration ≤ a.start x ∧ t.years = 0) := by
  unfold terms at h
  have hlimit : (a.expirationTerms x).pursesAllowed = a.limit x := by
    unfold expirationTerms limit start
    simp only
    split_ifs <;> rfl
  simp only at h
  rw [hlimit] at h
  split_ifs at h with hp hz
  · cases h
    exact Or.inl ⟨hp, hz, _, rfl, rfl, rfl, rfl⟩
  · cases h
    have hp := not_lt.mp hp
    refine Or.inr ?_
    unfold expirationTerms limit at *
    by_cases hs : a.start x < a.desiredExpiration
    · refine Or.inl ⟨hp, hs, ?_⟩
      unfold start at hs
      simp only [hs, if_true]
      exact ⟨rfl, rfl, (if_pos hs).symm⟩
    · refine Or.inr ⟨hp, not_lt.mp hs, ?_⟩
      unfold start at hs
      simp only [hs, if_false]

/-! ## The fees -/

/-- The fees for a number of years that is not negative fit, or the procedure raises. -/
theorem pgCost_eq_ok {years : ℤ} (hy : 0 ≤ years) {c : Option TalerAmount} :
    a.pgCost years = .ok c ↔ (years * a.openFee.fraction < 2 ^ 31 ∧
      years * a.openFee.value + years * a.openFee.fraction / 100000000 < 2 ^ 63) ∧
      c = some (a.cost years) := by
  have hval : 0 ≤ years * a.openFee.toTaler.val := mul_nonneg hy (Int.natCast_nonneg _)
  have hfrac : 0 ≤ years * a.openFee.toTaler.frac := mul_nonneg hy (Int.natCast_nonneg _)
  have hdiv : (years * a.openFee.toTaler.frac).tdiv 100000000 =
      years * a.openFee.toTaler.frac / 100000000 := Int.tdiv_eq_ediv_of_nonneg hfrac
  have hnn : 0 ≤ years * a.openFee.toTaler.frac / 100000000 :=
    Int.ediv_nonneg hfrac (by decide)
  change _ ↔ (years * a.openFee.toTaler.frac < _ ∧
    years * a.openFee.toTaler.val + years * a.openFee.toTaler.frac / 100000000 < _) ∧ _
  simp only [pgCost, cost, int4_bind_eq_ok, int8_bind_eq_ok, hdiv]
  generalize years * a.openFee.toTaler.val = v at *
  generalize years * a.openFee.toTaler.frac = f at *
  rw [if_neg (by omega), Except.ok.injEq]
  constructor
  · rintro ⟨h₁, h₂, h₃, h⟩
    exact ⟨⟨h₂.2, h₃.2⟩, h.symm⟩
  · rintro ⟨⟨h₁, h₂⟩, rfl⟩
    exact ⟨⟨by omega, by omega⟩, ⟨by omega, h₁⟩, ⟨by omega, h₂⟩, rfl⟩

theorem units_cost {years : ℤ} (hy : 0 ≤ years) :
    (a.cost years).units = years * a.openFee.units ∧ (a.cost years).Normal := by
  have hfrac : 0 ≤ years * a.openFee.toTaler.frac := mul_nonneg hy (Int.natCast_nonneg _)
  have hdiv := Int.mul_tdiv_add_tmod (years * a.openFee.toTaler.frac) 100000000
  have hlt := Int.tmod_lt_of_pos (years * a.openFee.toTaler.frac)
    (show (0 : ℤ) < 100000000 by decide)
  have hnn := Int.tmod_nonneg 100000000 hfrac
  refine ⟨?_, hnn, hlt⟩
  have hu : a.openFee.units = a.openFee.toTaler.val * 100000000 + a.openFee.toTaler.frac := rfl
  rw [hu, mul_add, ← mul_assoc]
  simp only [TalerAmount.units, cost]
  omega

theorem pgShort_cost {years : ℤ} (hy : 0 ≤ years) :
    a.pgShort (a.cost years) = true ↔ a.totalPaid.units < years * a.openFee.units := by
  obtain ⟨hu, hnormal⟩ := units_cost (a := a) hy
  have hpaid := a.totalPaid.normal_toTaler
  have hp : a.totalPaid.units = a.totalPaid.toTaler.units := rfl
  rw [← hu, hp]
  unfold TalerAmount.Normal at hnormal hpaid
  simp only [pgShort, TalerAmount.units, decide_eq_true_eq]
  omega

end ReserveOpenArgs

/-! ## The branches -/

section Branches

variable {db : Database} {a : ReserveOpenArgs} {x : Reserve} {t : OpenTerms}

theorem Pg.open_error {e : PgError} (hx : db.reserves.lookup a.reservePub = some x)
    (ht : a.pgTerms x = .error e) : Pg.exchangeDoReserveOpen db a = .error e := by
  simp only [Pg.exchangeDoReserveOpen, hx, ht, bind, Except.bind]

theorem Pg.open_unchanged (hx : db.reserves.lookup a.reservePub = some x)
    (ht : a.pgTerms x = .ok t) (hy : t.years ≤ 0) : Pg.exchangeDoReserveOpen db a =
      .ok (db, ⟨TalerAmount.zero, x.expirationDate, false, false, x.currentBalance⟩) := by
  simp only [Pg.exchangeDoReserveOpen, hx, ht, bind, Except.bind, hy, if_true]

theorem Pg.open_raised {e : PgError} (hx : db.reserves.lookup a.reservePub = some x)
    (ht : a.pgTerms x = .ok t) (hy : 0 < t.years) (hc : a.pgCost t.years = .error e) :
    Pg.exchangeDoReserveOpen db a = .error e := by
  simp only [Pg.exchangeDoReserveOpen, hx, ht, hc, bind, Except.bind, not_le.mpr hy, if_false]

/-- **The three ends of a request with years to pay for**: the total is too low, the balance is too
low, or the reserve is updated. -/
theorem Pg.open_paid {cost : TalerAmount} (hx : db.reserves.lookup a.reservePub = some x)
    (ht : a.pgTerms x = .ok t) (hy : 0 < t.years) (hc : a.pgCost t.years = .ok (some cost)) :
    Pg.exchangeDoReserveOpen db a =
      if a.pgShort cost then
        .ok (db, ⟨cost, if x.expirationDate ≥ a.desiredExpiration then 0 else x.expirationDate,
          false, false, x.currentBalance⟩)
      else if x.currentBalance.covers a.reservePayment then do
        let _ ← int8 (x.expirationDate + a.reserveGcDelay)
        .ok ({ db with reserves := db.setReserve a.reservePub fun y =>
            { y with
              currentBalance := x.currentBalance.minus a.reservePayment
              gcDate := x.expirationDate + a.reserveGcDelay
              expirationDate := t.expirationDate
              pursesAllowed := t.pursesAllowed } },
          ⟨cost, t.expirationDate, false, false, x.currentBalance⟩)
      else .ok (db, ⟨cost, x.expirationDate, false, true, x.currentBalance⟩) := by
  simp only [Pg.exchangeDoReserveOpen, hx, ht, hc, not_le.mpr hy, if_false,
    TalerAmount.leftMinusRight_eq, Except.bind, bind]
  split_ifs <;> rfl

/-- **The procedure with integers** computes what the one with `INT4` and `INT8` does. -/
theorem Pg.open_refines {r : Database × ReserveOpenOut}
    (h : Pg.exchangeDoReserveOpen db a = .ok r) : TalerExchange.exchangeDoReserveOpen db a = .ok r := by
  cases hx : db.reserves.lookup a.reservePub with
  | none =>
    simp only [Pg.exchangeDoReserveOpen, hx] at h
    simp only [TalerExchange.exchangeDoReserveOpen, hx]
    exact congrArg Except.ok (Except.ok.inj h)
  | some x =>
    cases ht : a.pgTerms x with
    | error e =>
      rw [Pg.open_error hx ht] at h
      cases h
    | ok t =>
      have ht' := terms_of_pgTerms ht
      simp only [TalerExchange.exchangeDoReserveOpen, hx, ht', bind, Except.bind]
      by_cases hy : t.years ≤ 0
      · rw [Pg.open_unchanged hx ht hy] at h
        rw [if_pos hy]
        exact congrArg Except.ok (Except.ok.inj h)
      have hpos := not_le.mp hy
      rw [if_neg hy]
      cases hc : a.pgCost t.years with
      | error e =>
        rw [Pg.open_raised hx ht hpos hc] at h
        cases h
      | ok c =>
        obtain ⟨-, rfl⟩ := (ReserveOpenArgs.pgCost_eq_ok hpos.le).mp hc
        rw [Pg.open_paid hx ht hpos hc] at h
        by_cases hs : a.pgShort (a.cost t.years) = true
        · rw [if_pos hs] at h
          rw [if_pos (by simpa [ReserveOpenArgs.pgShort] using hs)]
          exact congrArg Except.ok (Except.ok.inj h)
        rw [if_neg hs] at h
        rw [if_neg (by simpa [ReserveOpenArgs.pgShort] using hs), TalerAmount.leftMinusRight_eq]
        split_ifs at h ⊢ with hcov
        · rw [int8_bind_eq_ok] at h
          exact congrArg Except.ok (Except.ok.inj h.2)
        · exact congrArg Except.ok (Except.ok.inj h)

/-- **The ends of the procedure** when it reports neither a missing reserve nor missing funds: there
is nothing to pay for, the total is too low, or the reserve is updated. -/
theorem Pg.open_cases {db' : Database} {o : ReserveOpenOut}
    (h : Pg.exchangeDoReserveOpen db a = .ok (db', o)) (hr : o.noReserve = false)
    (hf : o.noFunds = false) :
    ∃ x t, db.reserves.lookup a.reservePub = some x ∧ a.pgTerms x = .ok t ∧
      o.reserveBalance = x.currentBalance ∧
      (t.years ≤ 0 ∧ db' = db ∧ o.openCost = TalerAmount.zero ∧
          o.finalExpiration = x.expirationDate ∨
       0 < t.years ∧ a.pgCost t.years = .ok (some o.openCost) ∧ a.pgShort o.openCost = true ∧
          db' = db ∧ o.finalExpiration =
            (if x.expirationDate ≥ a.desiredExpiration then 0 else x.expirationDate) ∨
       0 < t.years ∧ a.pgCost t.years = .ok (some o.openCost) ∧ a.pgShort o.openCost = false ∧
          x.currentBalance.covers a.reservePayment = true ∧
          o.finalExpiration = t.expirationDate ∧
          (∃ n, int8 (x.expirationDate + a.reserveGcDelay) = .ok n) ∧
          db' = { db with reserves := db.setReserve a.reservePub fun y =>
            { y with
              currentBalance := x.currentBalance.minus a.reservePayment
              gcDate := x.expirationDate + a.reserveGcDelay
              expirationDate := t.expirationDate
              pursesAllowed := t.pursesAllowed } }) := by
  cases hx : db.reserves.lookup a.reservePub with
  | none =>
    simp only [Pg.exchangeDoReserveOpen, hx] at h
    cases h
    cases hr
  | some x =>
    cases ht : a.pgTerms x with
    | error e =>
      rw [Pg.open_error hx ht] at h
      cases h
    | ok t =>
      refine ⟨x, t, rfl, ht, ?_⟩
      by_cases hy : t.years ≤ 0
      · rw [Pg.open_unchanged hx ht hy] at h
        cases h
        exact ⟨rfl, Or.inl ⟨hy, rfl, rfl, rfl⟩⟩
      have hpos := not_le.mp hy
      cases hc : a.pgCost t.years with
      | error e =>
        rw [Pg.open_raised hx ht hpos hc] at h
        cases h
      | ok c =>
        obtain ⟨-, rfl⟩ := (ReserveOpenArgs.pgCost_eq_ok hpos.le).mp hc
        rw [Pg.open_paid hx ht hpos hc] at h
        by_cases hs : a.pgShort (a.cost t.years) = true
        · rw [if_pos hs] at h
          cases h
          exact ⟨rfl, Or.inr (Or.inl ⟨hpos, rfl, hs, rfl, rfl⟩)⟩
        rw [if_neg hs] at h
        by_cases hcov : x.currentBalance.covers a.reservePayment = true
        · rw [if_pos hcov] at h
          obtain ⟨n, hn, h⟩ := bind_eq_ok.mp h
          cases h
          exact ⟨rfl, Or.inr (Or.inr ⟨hpos, rfl, by simpa using hs, hcov, rfl, ⟨n, hn⟩, rfl⟩)⟩
        · rw [if_neg hcov] at h
          cases h
          cases hf

end Branches

/-! ## What an update is to keep -/

/-- The reserve `y` lives as long as `x` did and as was asked for, has as many purses as were asked
for, and is not to be deleted before it expires. -/
structure ReserveOpenArgs.KeepsLife (a : ReserveOpenArgs) (x y : Reserve) : Prop where
  expiration : x.expirationDate ≤ y.expirationDate
  desired : a.desiredExpiration ≤ y.expirationDate
  purses : a.minPurseLimit ≤ y.pursesAllowed
  gc : y.expirationDate ≤ y.gcDate

/-- The procedure gets to its `UPDATE`: there are years to pay for, and the total covers the fees and
the balance the payment. -/
structure ReserveOpenArgs.Updates (a : ReserveOpenArgs) (x : Reserve) (t : OpenTerms) : Prop where
  terms : a.pgTerms x = .ok t
  years : 0 < t.years
  paid : ∃ cost, a.pgCost t.years = .ok (some cost) ∧ a.pgShort cost = false
  funds : x.currentBalance.covers a.reservePayment = true

/-- The purse limit need not be raised, and the desired expiration is no later than the whole years
that the garbage collection delay leaves after the start. Or it is to be raised: then years are
counted from now, the old expiration lies in no later year than the desired one, and the desired one
no later than the whole years until the garbage collection date. -/
def ReserveOpenArgs.LongEnough (a : ReserveOpenArgs) (x : Reserve) : Prop :=
  if a.limit x < a.minPurseLimit then
    0 < a.defaultPurseLimit ∧
      (x.expirationDate - a.now - 1) / 31536000000000 * 31536000000000 <
        ReserveOpenArgs.lead (a.desiredExpiration - a.now) ∧
      ReserveOpenArgs.lead (a.desiredExpiration - a.now) ≤
        (x.expirationDate + a.reserveGcDelay - a.now) / 31536000000000 * 31536000000000
  else a.desiredExpiration - a.start x ≤
    (x.expirationDate + a.reserveGcDelay - a.start x) / 31536000000000 * 31536000000000

section Keeps

variable {db db' : Database} {a : ReserveOpenArgs} {x : Reserve} {t : OpenTerms} {o : ReserveOpenOut}

/-- The updated reserve. -/
theorem lookup_updated (hx : db.reserves.lookup a.reservePub = some x) (hu : a.Updates x t)
    (h : Pg.exchangeDoReserveOpen db a = .ok (db', o)) :
    db'.reserves.lookup a.reservePub = some { x with
      currentBalance := x.currentBalance.minus a.reservePayment
      gcDate := x.expirationDate + a.reserveGcDelay
      expirationDate := t.expirationDate
      pursesAllowed := t.pursesAllowed } := by
  obtain ⟨cost, hc, hs⟩ := hu.paid
  rw [Pg.open_paid hx hu.terms hu.years hc, if_neg (by simp [hs]), if_pos hu.funds,
    int8_bind_eq_ok] at h
  cases h.2
  have hk : x.reservePub = a.reservePub := Table.key_of_lookup hx
  simp only [Database.lookup_setReserve, hx, Option.map_some, hk, if_true]

/-- Purses in annual portions are enough if and only if a portion is positive. -/
theorem purses_enough {n d limit : ℤ} (hd : d ≠ 0) :
    n ≤ limit + d * (n + d - limit - 1).tdiv d ↔ 0 < d := by
  have hdiv := Int.mul_tdiv_add_tmod (n + d - limit - 1) d
  generalize d * (n + d - limit - 1).tdiv d = m at hdiv ⊢
  constructor
  · intro h
    by_contra hneg
    have hlt := Int.tmod_lt_of_pos (-(n + d - limit - 1)) (show 0 < -d by omega)
    rw [Int.tmod_neg, Int.neg_tmod] at hlt
    omega
  · intro hpos
    have hlt := Int.tmod_lt_of_pos (n + d - limit - 1) hpos
    omega

theorem lead_ge (d : ℤ) : d ≤ ReserveOpenArgs.lead d := by
  unfold ReserveOpenArgs.lead
  split_ifs <;> omega

theorem start_ge (a : ReserveOpenArgs) (x : Reserve) : x.expirationDate ≤ a.start x := by
  unfold ReserveOpenArgs.start
  split_ifs with hnow
  · exact hnow.le
  · exact le_rfl

/-- Whole years `q` from `now` that cover `l`: when the end is neither before `e` nor after `g`. -/
theorem years_between {q l now d e g : ℤ}
    (hq : l ≤ 31536000000000 * q ∧ 31536000000000 * q < l + 31536000000000) (hd : d - now ≤ l) :
    (e ≤ now + 31536000000000 * q ∧ d ≤ now + 31536000000000 * q ∧
        now + 31536000000000 * q ≤ g) ↔
      (e - now - 1) / 31536000000000 * 31536000000000 < l ∧
        l ≤ (g - now) / 31536000000000 * 31536000000000 := by
  omega

/-- The same for years from a start that is not before `e`. -/
theorem years_from_start {q l start d e g : ℤ}
    (hq : l ≤ 31536000000000 * q ∧ 31536000000000 * q < l + 31536000000000) (hd : d - start ≤ l)
    (he : e ≤ start) (hs : 0 < l) :
    (e ≤ start + 31536000000000 * q ∧ d ≤ start + 31536000000000 * q ∧
        start + 31536000000000 * q ≤ g) ↔
      l ≤ (g - start) / 31536000000000 * 31536000000000 := by
  omega

end Keeps

/-- **When an update of a reserve shortens nothing.** -/
theorem keepsLife_iff {db db' : Database} {a : ReserveOpenArgs} {x : Reserve} {t : OpenTerms}
    {o : ReserveOpenOut} (hx : db.reserves.lookup a.reservePub = some x) (hu : a.Updates x t)
    (h : Pg.exchangeDoReserveOpen db a = .ok (db', o)) :
    (∃ y, db'.reserves.lookup a.reservePub = some y ∧ a.KeepsLife x y) ↔ a.LongEnough x := by
  have hy := lookup_updated hx hu h
  have hkeeps : (∃ y, db'.reserves.lookup a.reservePub = some y ∧ a.KeepsLife x y) ↔
      (x.expirationDate ≤ t.expirationDate ∧ a.desiredExpiration ≤ t.expirationDate ∧
        t.expirationDate ≤ x.expirationDate + a.reserveGcDelay) ∧
        a.minPurseLimit ≤ t.pursesAllowed := by
    constructor
    · rintro ⟨y, hy', hk⟩
      cases hy.symm.trans hy'
      exact ⟨⟨hk.expiration, hk.desired, hk.gc⟩, hk.purses⟩
    · rintro ⟨⟨h₁, h₂, h₃⟩, h₄⟩
      exact ⟨_, hy, h₁, h₂, h₄, h₃⟩
  rw [hkeeps]
  unfold ReserveOpenArgs.LongEnough
  rcases ReserveOpenArgs.terms_cases (terms_of_pgTerms hu.terms) with
    ⟨hp, hz, more, hmore, hyears, he, hpurses⟩ | ⟨hp, hs, hyears, he, hpurses⟩ | ⟨-, -, hyears⟩
  · -- years from now on, for the purses
    rw [if_pos hp, he, hpurses, hmore, purses_enough hz, and_comm]
    exact and_congr_right fun _ =>
      years_between (ReserveOpenArgs.yearsFrom_bounds a a.now) (lead_ge _)
  · -- an extension
    have hpos : 0 < a.desiredExpiration - a.start x := sub_pos.mpr hs
    have hb := ReserveOpenArgs.yearsFrom_bounds a (a.start x)
    rw [show ReserveOpenArgs.lead (a.desiredExpiration - a.start x) =
      a.desiredExpiration - a.start x from if_pos (lt_trans (by decide) hpos)] at hb
    rw [if_neg (not_lt.mpr hp), he, hpurses, and_iff_left hp]
    exact years_from_start hb le_rfl (start_ge a x) hpos
  · exact absurd hyears hu.years.ne'

/-! ## A purse limit raised in vain -/

/-- One year. -/
def oneYear : ℤ := 31536000000000

/-- A reserve that is paid for five more years. -/
def longLived : Reserve :=
  { reserveUuid := 1, reservePub := 7, currentBalance := ⟨9, 0⟩, pursesAllowed := 1,
    expirationDate := 55 * oneYear, gcDate := 57 * oneYear }

/-- A second purse for the next year. -/
def morePurses : ReserveOpenArgs :=
  { reservePub := 7, totalPaid := .whole 4, reservePayment := .whole 4, minPurseLimit := 2,
    defaultPurseLimit := 1, reserveSig := 1, desiredExpiration := 51 * oneYear,
    reserveGcDelay := 7 * oneYear, now := 50 * oneYear, openFee := .whole 1 }

/-- The database with the reserve. -/
def longLivedDatabase : Database :=
  { Database.empty with reserves := ⟨[longLived], rfl, by decide⟩ }

theorem updates_morePurses : morePurses.Updates longLived ⟨2, 51 * oneYear, 2⟩ :=
  ⟨by decide, by decide, ⟨⟨2, 0⟩, by decide, by decide⟩, by decide⟩

theorem lookup_longLived :
    longLivedDatabase.reserves.lookup morePurses.reservePub = some longLived := by decide

theorem open_morePurses : ∃ db' o,
    Pg.exchangeDoReserveOpen longLivedDatabase morePurses = .ok (db', o) := by
  have hrun := Pg.open_paid lookup_longLived updates_morePurses.terms updates_morePurses.years
    (show morePurses.pgCost 2 = .ok (some ⟨2, 0⟩) by decide)
  rw [if_neg (by decide), if_pos (by decide), int8_eq (by decide) (by decide)] at hrun
  exact ⟨_, _, hrun⟩

theorem open_refines_morePurses : ∃ r,
    Pg.exchangeDoReserveOpen longLivedDatabase morePurses = .ok r ∧
      TalerExchange.exchangeDoReserveOpen longLivedDatabase morePurses = .ok r := by
  obtain ⟨db', o, hrun⟩ := open_morePurses
  exact ⟨(db', o), hrun, Pg.open_refines hrun⟩

theorem keepsLife_iff_morePurses : ∃ db' o,
    Pg.exchangeDoReserveOpen longLivedDatabase morePurses = .ok (db', o) ∧
      ((∃ y, db'.reserves.lookup 7 = some y ∧ morePurses.KeepsLife longLived y) ↔
        morePurses.LongEnough longLived) := by
  obtain ⟨db', o, hrun⟩ := open_morePurses
  exact ⟨db', o, hrun, keepsLife_iff lookup_longLived updates_morePurses hrun⟩

/-- Two years' fees for a second purse take four years from the reserve. -/
theorem not_keepsLife : ¬ ∀ (db db' : Database) (a : ReserveOpenArgs) (x : Reserve) (t : OpenTerms)
    (o : ReserveOpenOut), db.reserves.lookup a.reservePub = some x → a.Updates x t →
    Pg.exchangeDoReserveOpen db a = .ok (db', o) →
    ∃ y, db'.reserves.lookup a.reservePub = some y ∧ a.KeepsLife x y := by
  intro h
  obtain ⟨db', o, hrun⟩ := open_morePurses
  obtain ⟨y, hy, hk⟩ := h _ _ _ _ _ _ lookup_longLived updates_morePurses hrun
  cases (lookup_updated lookup_longLived updates_morePurses hrun).symm.trans hy
  exact absurd hk.expiration (by decide)

/-- With a delay of seven years, an extension by ten is collected three years before it expires. -/
example : ((Pg.exchangeDoReserveOpen longLivedDatabase { morePurses with
      minPurseLimit := 1, desiredExpiration := 65 * oneYear, openFee := .zero }).toOption.bind
        fun r => r.1.reserves.lookup 7).map (fun y => (y.expirationDate, y.gcDate)) =
    some (65 * oneYear, 62 * oneYear) := by decide

end TalerExchange
