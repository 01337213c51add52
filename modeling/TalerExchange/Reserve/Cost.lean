import TalerExchange.Reserve.Extend

/-!
# What opening a reserve costs

The cost is to be the annual fee for as many years as reach the desired expiration and as many more
as buy the purses; the answer is to be a success exactly if the reserve is as requested afterwards.

* `isLeast_ceil`: rounding up counts what reaches a goal;
* `OpenExact`: the cost, the payment and the answer are as they are to be;
* `OpenFits`: the arguments on which they are;
* **`openExact_iff`**: the two agree;
* **`not_openExact`**: the fraction of the fees of 43 years overflows.
-/

namespace TalerExchange

open Sql

/-! ## Rounding up -/

/-- The least number of portions `u` that reach `d`. -/
theorem isLeast_ceil {d u : ℤ} (hu : 0 < u) :
    IsLeast {n : ℕ | d ≤ u * n} ((d + (u - 1)) / u).toNat := by
  have hlt : d + (u - 1) < u * ((d + (u - 1)) / u) + u := Int.lt_mul_ediv_self_add hu
  constructor
  · have hle : (d + (u - 1)) / u ≤ ((d + (u - 1)) / u).toNat := Int.self_le_toNat _
    have hmul := mul_le_mul_of_nonneg_left hle hu.le
    show d ≤ u * _
    omega
  · intro n (hn : d ≤ u * n)
    rw [Int.toNat_le, ← Int.lt_add_one_iff, Int.ediv_lt_iff_lt_mul hu, add_mul, one_mul, mul_comm]
    omega

theorem isLeast_zero {d u : ℤ} (hd : d ≤ 0) : IsLeast {n : ℕ | d ≤ u * n} 0 := by
  refine ⟨?_, fun _ _ => Nat.zero_le _⟩
  show d ≤ u * (0 : ℕ)
  rw [Nat.cast_zero, mul_zero]
  exact hd

/-- Portions that are not positive reach nothing. -/
theorem not_reached {d u : ℤ} (hd : 0 < d) (hu : u ≤ 0) (n : ℕ) : ¬ d ≤ u * n :=
  not_le.mpr (lt_of_le_of_lt (mul_nonpos_of_nonpos_of_nonneg hu (Int.natCast_nonneg n)) hd)

/-! ## What is to hold -/

namespace ReserveOpenArgs

variable (a : ReserveOpenArgs) (x : Reserve)

/-- Where the years to pay for start: now, if purses are to be bought. -/
def base : ℤ := if a.limit x < a.minPurseLimit then a.now else a.start x

/-- The cost is the annual fee for the years that reach the desired expiration and for those that
buy the purses, each number the least. -/
def CostExact (cost : TalerAmount) : Prop :=
  ∃ years extra : ℕ,
    IsLeast {n : ℕ | a.desiredExpiration - a.base x ≤ 31536000000000 * n} years ∧
    IsLeast {n : ℕ | a.minPurseLimit - a.limit x ≤ a.defaultPurseLimit * n} extra ∧
    cost.Normal ∧ cost.units = (years + extra) * a.openFee.units

/-- The reserve is as requested. -/
def metBy : Prop := a.desiredExpiration ≤ x.expirationDate ∧ a.minPurseLimit ≤ x.pursesAllowed

/-- The reserve is updated only for a total that covers the cost, and pays what it is to pay. -/
def PaidFor (db' : Database) (cost : TalerAmount) : Prop :=
  cost.units ≤ a.totalPaid.units ∧ a.reservePayment.units ≤ x.currentBalance.units ∧
    ∃ y, db'.reserves.lookup a.reservePub = some y ∧
      y.currentBalance.units = x.currentBalance.units - a.reservePayment.units

/-- The procedure returns, with the exact cost; an update is paid for; and the answer is a success
exactly if the reserve is as requested. -/
def OpenExact (db : Database) : Prop :=
  ∃ db' o, Pg.exchangeDoReserveOpen db a = .ok (db', o) ∧ a.CostExact x o.openCost ∧
    (db' = db ∨ a.PaidFor x db' o.openCost) ∧
    (o.noFunds = false ∧ a.desiredExpiration ≤ o.finalExpiration ↔
      ∃ y, db'.reserves.lookup a.reservePub = some y ∧ a.metBy y)

/-- The types of the arguments and of the columns: `INT4`, `INT8`, and times and amounts that are
not negative. -/
structure Typed : Prop where
  now : 0 ≤ a.now ∧ a.now < 2 ^ 63
  desired : 0 ≤ a.desiredExpiration ∧ a.desiredExpiration < 2 ^ 63
  expiration : 0 ≤ x.expirationDate ∧ x.expirationDate < 2 ^ 63
  gcDelay : 0 ≤ a.reserveGcDelay
  minPurses : -2 ^ 31 ≤ a.minPurseLimit ∧ a.minPurseLimit < 2 ^ 31
  defaultPurses : -2 ^ 31 ≤ a.defaultPurseLimit ∧ a.defaultPurseLimit < 2 ^ 31
  balance : x.currentBalance.Normal

/-- The years that reach the desired expiration. -/
def yearsDue : ℕ := ((a.desiredExpiration - a.base x + 31535999999999) / 31536000000000).toNat

/-- The years that buy the purses. -/
def extraYears : ℕ :=
  if a.limit x < a.minPurseLimit then
    ((a.minPurseLimit - a.limit x + (a.defaultPurseLimit - 1)) / a.defaultPurseLimit).toNat
  else 0

/-- Something is to be paid for. -/
def asks : Prop := a.start x < a.desiredExpiration ∨ a.limit x < a.minPurseLimit

/-- The arguments on which the procedure does what it is to do. -/
structure OpenFits : Prop where
  /-- The desired expiration leaves room for a year. -/
  horizon : a.asks x → a.desiredExpiration + 31535999999999 < 2 ^ 63
  /-- Purses are bought in positive portions, and their numbers fit. -/
  portions : a.limit x < a.minPurseLimit → 0 < a.defaultPurseLimit ∧
    a.minPurseLimit + a.defaultPurseLimit < 2 ^ 31 ∧ a.yearsDue x + a.extraYears x < 2 ^ 31 ∧
    a.defaultPurseLimit * a.extraYears x < 2 ^ 31
  /-- The fractions of the fees fit an `INT4`, the fees an `INT8`. -/
  fees : (a.yearsDue x + a.extraYears x) * (a.openFee.fraction : ℤ) < 2 ^ 31 ∧
    (a.yearsDue x + a.extraYears x) * (a.openFee.value : ℤ) +
      (a.yearsDue x + a.extraYears x) * (a.openFee.fraction : ℤ) / 100000000 < 2 ^ 63
  /-- Purses are not bought with an expiration two years ago, unless they are free. -/
  recent : a.limit x < a.minPurseLimit →
    a.openFee.units = 0 ∨ a.now - a.desiredExpiration ≤ 63071999999998
  /-- Nor with one that takes back the years of the purses, for a reserve that lives so long. -/
  due : a.limit x < a.minPurseLimit →
    a.extraYears x ≤ (a.now - a.desiredExpiration - 31535999999999) / 31536000000000 →
    x.expirationDate < a.desiredExpiration
  /-- A total that is too low is recognised by an expiration of zero. -/
  low : a.limit x < a.minPurseLimit →
    a.totalPaid.units < (a.yearsDue x + a.extraYears x) * a.openFee.units → a.desiredExpiration ≠ 0
  /-- The garbage collection date of an update fits. -/
  gc : a.asks x → (a.limit x < a.minPurseLimit →
      (a.now - a.desiredExpiration - 31535999999999) / 31536000000000 < a.extraYears x) →
    (a.yearsDue x + a.extraYears x) * a.openFee.units ≤ a.totalPaid.units →
    a.reservePayment.units ≤ x.currentBalance.units → x.expirationDate + a.reserveGcDelay < 2 ^ 63

/-! ## The years -/

variable {a x} {t : OpenTerms} {db : Database}

theorem isLeast_yearsDue :
    IsLeast {n : ℕ | a.desiredExpiration - a.base x ≤ 31536000000000 * n} (a.yearsDue x) :=
  isLeast_ceil (u := 31536000000000) (by decide)

theorem isLeast_extraYears (hd : a.limit x < a.minPurseLimit → 0 < a.defaultPurseLimit) :
    IsLeast {n : ℕ | a.minPurseLimit - a.limit x ≤ a.defaultPurseLimit * n} (a.extraYears x) := by
  unfold extraYears
  split_ifs with hp
  · exact isLeast_ceil (hd hp)
  · exact isLeast_zero (sub_nonpos.mpr (not_lt.mp hp))

/-- **The exact cost** in terms of the two numbers of years. -/
theorem costExact_iff {cost : TalerAmount} : a.CostExact x cost ↔
    (a.limit x < a.minPurseLimit → 0 < a.defaultPurseLimit) ∧ cost.Normal ∧
      cost.units = (a.yearsDue x + a.extraYears x) * a.openFee.units := by
  constructor
  · rintro ⟨y, e, hy, he, hn, hu⟩
    have hd : a.limit x < a.minPurseLimit → 0 < a.defaultPurseLimit := by
      intro hp
      by_contra hd
      exact not_reached (sub_pos.mpr hp) (not_lt.mp hd) e he.1
    rw [hy.unique isLeast_yearsDue, he.unique (isLeast_extraYears hd)] at hu
    exact ⟨hd, hn, hu⟩
  · rintro ⟨hd, hn, hu⟩
    exact ⟨_, _, isLeast_yearsDue, isLeast_extraYears hd, hn, hu⟩

/-- Between times that fit, only the sum with the desired expiration can overflow. -/
theorem years_fit {d start : ℤ} (hd : 0 ≤ d ∧ d < 2 ^ 63) (hs : 0 ≤ start ∧ start < 2 ^ 63)
    {α : Type} {f : ℤ → ℤ → Except PgError α} {r : α} :
    (int8 (31535999999999 + d) >>= fun n => int8 (n - start) >>= fun n =>
      int4 (n.tdiv 31536000000000) >>= fun y => int8 (31536000000000 * y) >>= fun n =>
      int8 (start + n) >>= f y) = .ok r ↔
    d + 31535999999999 < 2 ^ 63 ∧
      f ((31535999999999 + d - start).tdiv 31536000000000)
        (start + 31536000000000 * (31535999999999 + d - start).tdiv 31536000000000) = .ok r := by
  have hb := tdiv_bounds (d - start)
  rw [← add_sub_assoc] at hb
  unfold lead at hb
  simp only [int8_bind_eq_ok, int4_bind_eq_ok]
  generalize (31535999999999 + d - start).tdiv 31536000000000 = q at hb ⊢
  constructor
  · rintro ⟨h₁, -, -, -, -, h⟩
    exact ⟨by omega, h⟩
  · rintro ⟨h₁, h⟩
    split_ifs at hb <;> exact ⟨by omega, by omega, by omega, by omega, by omega, h⟩

theorem pgExtension_eq_ok (ht : a.Typed x) {start : ℤ} (hs : 0 ≤ start ∧ start < 2 ^ 63)
    {f : ℤ → ℤ → Except PgError OpenTerms} :
    (a.pgYears start >>= fun y => pgAfter start y >>= f y) = .ok t ↔
      a.desiredExpiration + 31535999999999 < 2 ^ 63 ∧
        f (a.yearsFrom start) (start + 31536000000000 * a.yearsFrom start) = .ok t := by
  unfold pgYears pgAfter
  simp only [bind_assoc]
  exact years_fit ht.desired hs

/-- The purses are paid for in years whose numbers have to fit. -/
theorem purses_fit {m d limit years : ℤ} (hm : -2 ^ 31 ≤ m ∧ m < 2 ^ 31) (hd : 0 < d)
    (hl : limit < m) (hy : -2 ^ 30 ≤ years) {e : ℤ} (he : e = (m + d - limit - 1).tdiv d)
    {α : Type} {f : ℤ → ℤ → Except PgError α} {r : α} :
    ((int4 (m + d) >>= fun n => int8 (n - limit) >>= fun n => int8 (n - 1) >>= fun n =>
        if d = 0 then .error .divisionByZero else int8 (n.tdiv d) >>= fun n => int4 n) >>=
      fun more => int4 (years + more) >>= fun y => int4 (d * more) >>= fun n =>
        int8 (limit + n) >>= fun p => f y p) = .ok r ↔
    (m + d < 2 ^ 31 ∧ e < 2 ^ 31 ∧ years + e < 2 ^ 31 ∧ d * e < 2 ^ 31) ∧
      f (years + e) (limit + d * e) = .ok r := by
  have hdiv := Int.mul_tdiv_add_tmod (m + d - limit - 1) d
  have hlt := Int.tmod_lt_of_pos (m + d - limit - 1) hd
  have hnn := Int.tmod_nonneg d (show 0 ≤ m + d - limit - 1 by omega)
  have hpos : 0 ≤ (m + d - limit - 1).tdiv d := Int.tdiv_nonneg (by omega) hd.le
  simp only [bind_assoc, int4_bind_eq_ok, int8_bind_eq_ok, if_neg hd.ne']
  rw [← he] at hdiv hpos ⊢
  generalize d * e = k at *
  constructor
  · rintro ⟨h₁, -, -, -, h₂, h₃, h₄, -, h⟩
    exact ⟨⟨h₁.2, h₂.2, h₃.2, h₄.2⟩, h⟩
  · rintro ⟨⟨h₁, h₂, h₃, h₄⟩, h⟩
    exact ⟨by omega, by omega, by omega, by omega, by omega, by omega, by omega, by omega, h⟩

theorem extraYears_eq (hp : a.limit x < a.minPurseLimit) (hd : 0 < a.defaultPurseLimit) :
    (a.extraYears x : ℤ) =
      (a.minPurseLimit + a.defaultPurseLimit - a.limit x - 1).tdiv a.defaultPurseLimit := by
  unfold extraYears
  have he : a.minPurseLimit - a.limit x + (a.defaultPurseLimit - 1) =
      a.minPurseLimit + a.defaultPurseLimit - a.limit x - 1 := by omega
  have hnn : 0 ≤ a.minPurseLimit + a.defaultPurseLimit - a.limit x - 1 := by omega
  rw [if_pos hp, he, Int.toNat_of_nonneg (Int.ediv_nonneg hnn hd.le),
    Int.tdiv_eq_ediv_of_nonneg hnn]

/-- The years due are those that the procedure computes, as far as they are not negative; these are
negative for a time two years ago. -/
theorem toNat_years (d : ℤ) :
    (((d + 31535999999999) / 31536000000000).toNat : ℤ) =
        max 0 ((31535999999999 + d).tdiv 31536000000000) ∧
      (0 ≤ (31535999999999 + d).tdiv 31536000000000 ↔ -63071999999998 ≤ d) ∧
      (-63071999999998 ≤ d ∧ (-d - 31535999999999) / 31536000000000 ≤ 0 ∨
        -(31535999999999 + d).tdiv 31536000000000 = (-d - 31535999999999) / 31536000000000) := by
  have hb := tdiv_bounds d
  unfold lead at hb
  generalize (31535999999999 + d).tdiv 31536000000000 = q at *
  split_ifs at hb <;> omega

theorem yearsDue_eq : (a.yearsDue x : ℤ) = max 0 (a.yearsFrom (a.base x)) := by
  unfold yearsDue yearsFrom
  rw [add_sub_assoc]
  exact (toNat_years _).1

theorem yearsFrom_nonneg {start : ℤ} :
    0 ≤ a.yearsFrom start ↔ start - a.desiredExpiration ≤ 63071999999998 := by
  unfold yearsFrom
  rw [add_sub_assoc, (toNat_years _).2.1]
  constructor <;> intro h <;> omega

/-- The terms, were there no overflow. -/
def termsDue (a : ReserveOpenArgs) (x : Reserve) : OpenTerms :=
  if a.limit x < a.minPurseLimit then
    ⟨a.yearsFrom a.now + a.extraYears x, a.now + 31536000000000 * a.yearsFrom a.now,
      a.limit x + a.defaultPurseLimit * a.extraYears x⟩
  else if a.start x < a.desiredExpiration then
    ⟨a.yearsFrom (a.start x), a.start x + 31536000000000 * a.yearsFrom (a.start x), a.limit x⟩
  else ⟨0, a.start x, x.pursesAllowed⟩

theorem pgPurses_eq_ok (ht : a.Typed x) (hd : a.limit x < a.minPurseLimit → 0 < a.defaultPurseLimit)
    {t₀ : OpenTerms} (h₀ : t₀.pursesAllowed = a.limit x) (hp : a.limit x < a.minPurseLimit) :
    a.pgPurses t₀ = .ok t ↔ a.desiredExpiration + 31535999999999 < 2 ^ 63 ∧
      (a.minPurseLimit + a.defaultPurseLimit < 2 ^ 31 ∧ (a.extraYears x : ℤ) < 2 ^ 31 ∧
        a.yearsFrom a.now + a.extraYears x < 2 ^ 31 ∧
        a.defaultPurseLimit * a.extraYears x < 2 ^ 31) ∧ a.termsDue x = t := by
  unfold pgPurses termsDue
  rw [h₀, if_pos hp, if_pos hp, pgExtension_eq_ok ht ht.now]
  refine and_congr_right fun _ => ?_
  have hy : -2 ^ 30 ≤ a.yearsFrom a.now := by
    have hb := yearsFrom_bounds a a.now
    have hl := lead_ge (a.desiredExpiration - a.now)
    have h₁ : ∀ d n : ℤ, 0 ≤ d → n < 2 ^ 63 → -2 ^ 63 ≤ d - n := by
      intros
      omega
    have h₂ := h₁ _ _ ht.desired.1 ht.now.2
    omega
  refine (purses_fit ht.minPurses (hd hp) hp hy (extraYears_eq hp (hd hp))).trans ?_
  rw [Except.ok.injEq]

theorem pgTerms_eq_ok (ht : a.Typed x) (hd : a.limit x < a.minPurseLimit → 0 < a.defaultPurseLimit) :
    a.pgTerms x = .ok t ↔ (a.asks x → a.desiredExpiration + 31535999999999 < 2 ^ 63) ∧
      (a.limit x < a.minPurseLimit → a.minPurseLimit + a.defaultPurseLimit < 2 ^ 31 ∧
        (a.extraYears x : ℤ) < 2 ^ 31 ∧ a.yearsFrom a.now + a.extraYears x < 2 ^ 31 ∧
        a.defaultPurseLimit * a.extraYears x < 2 ^ 31) ∧ a.termsDue x = t := by
  have hstart : 0 ≤ a.start x ∧ a.start x < 2 ^ 63 := by
    unfold start
    split_ifs
    · exact ht.now
    · exact ht.expiration
  have hexp : a.pgExpirationTerms x = if a.start x < a.desiredExpiration then
      a.pgYears (a.start x) >>= fun years => pgAfter (a.start x) years >>= fun e =>
        .ok ⟨years, e, a.defaultPurseLimit⟩
    else .ok ⟨0, a.start x, x.pursesAllowed⟩ := rfl
  have hplain {t₀ : OpenTerms} (h₀ : t₀.pursesAllowed = a.limit x)
      (hp : ¬ a.limit x < a.minPurseLimit) : a.pgPurses t₀ = .ok t ↔ t₀ = t := by
    unfold pgPurses
    rw [h₀, if_neg hp, Except.ok.injEq]
  unfold pgTerms asks
  rw [hexp]
  by_cases hs : a.start x < a.desiredExpiration
  · have hl : a.defaultPurseLimit = a.limit x := (if_pos hs).symm
    rw [if_pos hs]
    simp only [bind_assoc]
    rw [pgExtension_eq_ok ht hstart]
    simp only [hs, true_or, forall_const]
    refine and_congr_right fun hhor => ?_
    by_cases hp : a.limit x < a.minPurseLimit
    · refine (pgPurses_eq_ok ht hd hl hp).trans ?_
      simp only [hhor, hp, true_and, forall_const]
    · simp only [hp, false_imp_iff, true_and]
      refine (hplain hl hp).trans ?_
      rw [termsDue, if_neg hp, if_pos hs, hl]
  · have hl : x.pursesAllowed = a.limit x := (if_neg hs).symm
    rw [if_neg hs]
    simp only [hs, false_or]
    by_cases hp : a.limit x < a.minPurseLimit
    · refine (pgPurses_eq_ok ht hd hl hp).trans ?_
      simp only [hp, forall_const]
    · simp only [hp, false_imp_iff, true_and]
      refine (hplain hl hp).trans ?_
      rw [termsDue, if_neg hp, if_neg hs]

/-! ## The ends of a request -/

theorem terms_granted (hd : a.limit x < a.minPurseLimit → 0 < a.defaultPurseLimit)
    (h : a.pgTerms x = .ok t) (hy : 0 < t.years) :
    a.desiredExpiration ≤ t.expirationDate ∧ a.minPurseLimit ≤ t.pursesAllowed := by
  have hreach {start : ℤ} : a.desiredExpiration ≤ start + 31536000000000 * a.yearsFrom start :=
    sub_le_iff_le_add'.mp ((lead_ge _).trans (yearsFrom_bounds a start).1)
  rcases terms_cases (terms_of_pgTerms h) with
    ⟨hp, hz, more, hmore, -, he, hpurses⟩ | ⟨hp, -, -, he, hpurses⟩ | ⟨-, -, hyears⟩
  · rw [he, hpurses, hmore]
    exact ⟨hreach, (purses_enough hz).mpr (hd hp)⟩
  · rw [he, hpurses]
    exact ⟨hreach, hp⟩
  · exact absurd hyears hy.ne'

theorem not_metBy_of_years (h : a.pgTerms x = .ok t) (hy : 0 < t.years) : ¬ a.metBy x :=
  fun hm => hy.ne' (years_of_met hm.1 hm.2 (terms_of_pgTerms h))

theorem openExact_of_run {db' : Database} {o : ReserveOpenOut} {y : Reserve}
    (h : Pg.exchangeDoReserveOpen db a = .ok (db', o))
    (hy : db'.reserves.lookup a.reservePub = some y) :
    a.OpenExact x db ↔ a.CostExact x o.openCost ∧ (db' = db ∨ a.PaidFor x db' o.openCost) ∧
      (o.noFunds = false ∧ a.desiredExpiration ≤ o.finalExpiration ↔ a.metBy y) := by
  have hmet : (∃ z, db'.reserves.lookup a.reservePub = some z ∧ a.metBy z) ↔ a.metBy y := by
    rw [hy]
    exact ⟨fun ⟨z, hz, hm⟩ => Option.some.inj hz ▸ hm, fun hm => ⟨y, rfl, hm⟩⟩
  constructor
  · rintro ⟨db₁, o₁, h₁, hcost, hpaid, hsucc⟩
    cases h.symm.trans h₁
    exact ⟨hcost, hpaid, hsucc.trans hmet⟩
  · rintro ⟨hcost, hpaid, hsucc⟩
    exact ⟨db', o, h, hcost, hpaid, hsucc.trans hmet.symm⟩

theorem not_openExact_of_error {e : PgError} (h : Pg.exchangeDoReserveOpen db a = .error e) :
    ¬ a.OpenExact x db := by
  rintro ⟨db', o, h', -⟩
  exact nomatch h.symm.trans h'

/-- Without years to pay for, the reserve stays, at no cost. -/
theorem openExact_unchanged (hx : db.reserves.lookup a.reservePub = some x)
    (hd : a.limit x < a.minPurseLimit → 0 < a.defaultPurseLimit) (ht : a.pgTerms x = .ok t)
    (hy : t.years ≤ 0) : a.OpenExact x db ↔
      (a.yearsDue x + a.extraYears x) * a.openFee.units = 0 ∧
        (a.desiredExpiration ≤ x.expirationDate → a.minPurseLimit ≤ x.pursesAllowed) := by
  rw [openExact_of_run (Pg.open_unchanged hx ht hy) hx, costExact_iff]
  have hz : TalerAmount.zero.Normal := by decide
  have hu : TalerAmount.zero.units = 0 := rfl
  simp only [hz, hu, metBy, true_and, true_or]
  constructor
  · rintro ⟨⟨-, h⟩, hm⟩
    exact ⟨h.symm, fun hexp => (hm.mp hexp).2⟩
  · rintro ⟨h, hm⟩
    exact ⟨⟨hd, h.symm⟩, fun hexp => ⟨hexp, hm hexp⟩, And.left⟩

/-- With years to pay for, the fees have to fit, and then the total and the balance decide. -/
theorem openExact_paid (hx : db.reserves.lookup a.reservePub = some x) (htyped : a.Typed x)
    (hd : a.limit x < a.minPurseLimit → 0 < a.defaultPurseLimit) (ht : a.pgTerms x = .ok t)
    (hy : 0 < t.years) : a.OpenExact x db ↔
      (t.years * (a.openFee.fraction : ℤ) < 2 ^ 31 ∧ t.years * (a.openFee.value : ℤ) +
        t.years * (a.openFee.fraction : ℤ) / 100000000 < 2 ^ 63) ∧
      t.years * a.openFee.units = (a.yearsDue x + a.extraYears x) * a.openFee.units ∧
      (a.totalPaid.units < t.years * a.openFee.units → a.desiredExpiration ≤ x.expirationDate →
        a.desiredExpiration ≠ 0) ∧
      (t.years * a.openFee.units ≤ a.totalPaid.units →
        a.reservePayment.units ≤ x.currentBalance.units →
        x.expirationDate + a.reserveGcDelay < 2 ^ 63) := by
  cases hc : a.pgCost t.years with
  | error e =>
    refine iff_of_false (not_openExact_of_error (Pg.open_raised hx ht hy hc)) ?_
    rintro ⟨hfit, -⟩
    exact nomatch hc.symm.trans ((pgCost_eq_ok hy.le).mpr ⟨hfit, rfl⟩)
  | ok c =>
    obtain ⟨hfit, rfl⟩ := (pgCost_eq_ok hy.le).mp hc
    obtain ⟨hunits, hnormal⟩ := units_cost (a := a) hy.le
    have hshort := pgShort_cost (a := a) hy.le
    have hcost : a.CostExact x (a.cost t.years) ↔
        t.years * a.openFee.units = (a.yearsDue x + a.extraYears x) * a.openFee.units := by
      rw [costExact_iff, hunits]
      exact ⟨fun h => h.2.2, fun h => ⟨hd, hnormal, h⟩⟩
    have hnot := not_metBy_of_years ht hy
    have hrun := Pg.open_paid hx ht hy hc
    have hcov := TalerAmount.covers_iff htyped.balance a.reservePayment.normal_toTaler
    rw [Amount.units_toTaler] at hcov
    by_cases hs : a.pgShort (a.cost t.years) = true
    · -- the total is too low
      have hlow := hshort.mp hs
      rw [if_pos hs] at hrun
      rw [openExact_of_run hrun hx, hcost]
      simp only [hfit, hlow, hnot, not_le.mpr hlow, true_and, true_or, forall_const, iff_false,
        false_imp_iff, and_true]
      refine and_congr_right fun _ => ?_
      have hd0 : 0 ≤ a.desiredExpiration := htyped.desired.1
      by_cases he : a.desiredExpiration ≤ x.expirationDate
      · rw [if_pos he]
        simp only [he, forall_const]
        exact not_congr (le_antisymm_iff.trans (and_iff_left hd0)).symm
      · rw [if_neg he]
        simp only [he, not_false_eq_true, false_imp_iff]
    · have hhigh := not_lt.mp (mt hshort.mpr hs)
      rw [if_neg hs] at hrun
      simp only [hfit, hhigh, not_lt.mpr hhigh, true_and, false_imp_iff, forall_const]
      by_cases hf : x.currentBalance.covers a.reservePayment = true
      · -- the reserve is updated
        have hfunds := hcov.mp hf
        rw [if_pos hf] at hrun
        have hnn : -2 ^ 63 ≤ x.expirationDate + a.reserveGcDelay :=
          (show (-2 ^ 63 : ℤ) ≤ 0 by decide).trans (add_nonneg htyped.expiration.1 htyped.gcDelay)
        by_cases hgc : x.expirationDate + a.reserveGcDelay < 2 ^ 63
        · rw [int8_eq hnn hgc] at hrun
          have hup : a.Updates x t := ⟨ht, hy, ⟨_, hc, by simpa using hs⟩, hf⟩
          have hy' := lookup_updated hx hup hrun
          rw [openExact_of_run hrun hy', hcost]
          simp only [hgc, hfunds, forall_const, and_true]
          refine and_iff_left ⟨Or.inr ⟨?_, hfunds, _, hy', ?_⟩, ?_⟩
          · rw [hunits]
            exact hhigh
          · rw [TalerAmount.units_minus, Amount.units_toTaler]
          · have hg := terms_granted hd ht hy
            exact iff_of_true ⟨trivial, hg.1⟩ hg
        · simp only [hgc, hfunds, forall_const, and_false, iff_false]
          refine not_openExact_of_error (e := .numericValueOutOfRange) (hrun.trans ?_)
          unfold int8
          rw [if_neg (fun hr => hgc hr.2)]
          rfl
      · -- the balance is too low
        have hfunds := mt hcov.mpr hf
        rw [if_neg hf] at hrun
        rw [openExact_of_run hrun hx, hcost]
        simp [hfunds, hnot]

/-! ## When the answer is right -/

/-- The years from now on, and what the condition says of them. -/
theorem yearsFrom_now (a : ReserveOpenArgs) :
    (0 ≤ a.yearsFrom a.now ∧ a.now - a.desiredExpiration ≤ 63071999999998 ∧
      (a.now - a.desiredExpiration - 31535999999999) / 31536000000000 ≤ 0) ∨
    (a.yearsFrom a.now < 0 ∧ ¬ a.now - a.desiredExpiration ≤ 63071999999998 ∧
      (a.now - a.desiredExpiration - 31535999999999) / 31536000000000 = -a.yearsFrom a.now) := by
  have h := toNat_years (a.desiredExpiration - a.now)
  rw [neg_sub, ← add_sub_assoc] at h
  have hn : 0 ≤ a.yearsFrom a.now ↔ a.now - a.desiredExpiration ≤ 63071999999998 := yearsFrom_nonneg
  by_cases hy : 0 ≤ a.yearsFrom a.now
  · have hle := hn.mp hy
    refine Or.inl ⟨hy, hle, ?_⟩
    have hz : ∀ d : ℤ, d ≤ 63071999999998 → (d - 31535999999999) / 31536000000000 ≤ 0 := by
      intros
      omega
    exact hz _ hle
  · refine Or.inr ⟨not_le.mp hy, mt hn.mpr hy, ?_⟩
    rcases h.2.2 with hle | heq
    · exact absurd (h.2.1.mpr hle.1) hy
    · exact heq.symm

theorem one_le_extraYears (hp : a.limit x < a.minPurseLimit) (hd : 0 < a.defaultPurseLimit) :
    1 ≤ (a.extraYears x : ℤ) := by
  have h : a.minPurseLimit - a.limit x ≤ a.defaultPurseLimit * a.extraYears x :=
    (isLeast_extraYears fun _ => hd).1
  rcases Nat.eq_zero_or_pos (a.extraYears x) with hz | hpos
  · rw [hz] at h
    exact absurd (h.trans (by simp)) (not_le.mpr (sub_pos.mpr hp))
  · exact_mod_cast hpos

theorem fee_eq_zero {m : Amount} (h : m.units = 0) : m.value = 0 ∧ m.fraction = 0 := by
  rw [Amount.units_eq] at h
  omega

/-- Without purses to buy, the years are those of the extension. -/
theorem openExact_plain (hx : db.reserves.lookup a.reservePub = some x) (htyped : a.Typed x)
    (hp : ¬ a.limit x < a.minPurseLimit) (ht : a.pgTerms x = .ok (a.termsDue x))
    (hhor : a.asks x → a.desiredExpiration + 31535999999999 < 2 ^ 63) :
    a.OpenExact x db ↔ a.OpenFits x := by
  have hd : a.limit x < a.minPurseLimit → 0 < a.defaultPurseLimit := fun h => absurd h hp
  have he : a.extraYears x = 0 := if_neg hp
  have hy := yearsDue_eq (a := a) (x := x)
  rw [base, if_neg hp] at hy
  have hb := yearsFrom_bounds a (a.start x)
  by_cases hs : a.start x < a.desiredExpiration
  · -- an extension
    have hpos : 0 < a.yearsFrom (a.start x) := by
      have hl := lead_ge (a.desiredExpiration - a.start x)
      have hgap : 0 < a.desiredExpiration - a.start x := sub_pos.mpr hs
      omega
    have hyears : (a.termsDue x).years = a.yearsDue x + a.extraYears x := by
      rw [termsDue, if_neg hp, if_pos hs, hy, he, max_eq_right hpos.le, Nat.cast_zero, add_zero]
    have hlate : ¬ a.desiredExpiration ≤ x.expirationDate :=
      not_le.mpr (lt_of_le_of_lt (start_ge a x) hs)
    rw [openExact_paid hx htyped hd ht (by rw [hyears, hy, he, max_eq_right hpos.le]; omega), hyears]
    constructor
    · rintro ⟨hfees, -, -, hgc⟩
      exact ⟨hhor, fun h => absurd h hp, hfees, fun h => absurd h hp, fun h => absurd h hp,
        fun h => absurd h hp, fun _ _ => hgc⟩
    · intro h
      exact ⟨h.fees, rfl, fun _ h => absurd h hlate, h.gc (Or.inl hs) fun h => absurd h hp⟩
  · -- nothing to do
    have hnot : ¬ a.asks x := not_or.mpr ⟨hs, hp⟩
    have hzero : a.yearsDue x = 0 := by
      have hneg : a.yearsFrom (a.start x) ≤ 0 := by
        have hgap : a.desiredExpiration - a.start x ≤ 0 := sub_nonpos.mpr (not_lt.mp hs)
        unfold lead at hb
        split_ifs at hb <;> omega
      rw [max_eq_left hneg] at hy
      exact_mod_cast hy
    have hl : a.limit x = x.pursesAllowed := if_neg hs
    rw [openExact_unchanged hx hd ht (by rw [termsDue, if_neg hp, if_neg hs]), hzero, he]
    refine iff_of_true ⟨by simp, fun _ => hl ▸ not_lt.mp hp⟩
      ⟨hhor, fun h => absurd h hp, ?_, fun h => absurd h hp, fun h => absurd h hp,
        fun h => absurd h hp, fun h => absurd h hnot⟩
    rw [hzero, he]
    simp

/-- With purses to buy, the years count from now, and may be negative. -/
theorem openExact_raised (hx : db.reserves.lookup a.reservePub = some x) (htyped : a.Typed x)
    (hp : a.limit x < a.minPurseLimit) (hd : 0 < a.defaultPurseLimit)
    (ht : a.pgTerms x = .ok (a.termsDue x))
    (hhor : a.desiredExpiration + 31535999999999 < 2 ^ 63)
    (hport : a.minPurseLimit + a.defaultPurseLimit < 2 ^ 31 ∧ (a.extraYears x : ℤ) < 2 ^ 31 ∧
      a.yearsFrom a.now + a.extraYears x < 2 ^ 31 ∧
      a.defaultPurseLimit * a.extraYears x < 2 ^ 31) :
    a.OpenExact x db ↔ a.OpenFits x := by
  have hyears : (a.termsDue x).years = a.yearsFrom a.now + a.extraYears x := by
    rw [termsDue, if_pos hp]
  have he := one_le_extraYears hp hd
  have hy := yearsDue_eq (a := a) (x := x)
  rw [base, if_pos hp] at hy
  have hportions : a.limit x < a.minPurseLimit → 0 < a.defaultPurseLimit ∧
      a.minPurseLimit + a.defaultPurseLimit < 2 ^ 31 ∧ a.yearsDue x + a.extraYears x < 2 ^ 31 ∧
      a.defaultPurseLimit * a.extraYears x < 2 ^ 31 :=
    fun _ => ⟨hd, hport.1, by omega, hport.2.2.2⟩
  have hpurses : a.desiredExpiration ≤ x.expirationDate → x.pursesAllowed < a.minPurseLimit := by
    intro h
    have hl : a.limit x = x.pursesAllowed := if_neg (not_lt.mpr (h.trans (start_ge a x)))
    rwa [hl] at hp
  rcases yearsFrom_now a with ⟨hq, hrecent, hdue⟩ | ⟨hq, hrecent, hdue⟩
  · -- the years from now are those due
    rw [max_eq_right hq] at hy
    rw [← hy] at hyears
    rw [openExact_paid hx htyped (fun _ => hd) ht (by omega), hyears]
    constructor
    · rintro ⟨hfees, -, hlow, hgc⟩
      exact ⟨fun _ => hhor, hportions, hfees, fun _ => Or.inr hrecent,
        fun _ h => absurd h (not_le.mpr (hdue.trans_lt (zero_lt_one.trans_le he))),
        fun _ hlt hz => hlow hlt (hz.trans_le htyped.expiration.1) hz, fun _ _ => hgc⟩
    · intro h
      exact ⟨h.fees, rfl, fun hlt _ => h.low hp hlt, h.gc (Or.inr hp) fun _ => hdue.trans_lt (zero_lt_one.trans_le he)⟩
  · -- a time two years ago: its years are taken from those of the purses
    rw [max_eq_left hq.le] at hy
    by_cases hfee : a.openFee.units = 0
    · obtain ⟨hvalue, hfraction⟩ := fee_eq_zero hfee
      have hpaid := a.totalPaid.units_nonneg
      have hfees : (a.yearsDue x + a.extraYears x) * (a.openFee.fraction : ℤ) < 2 ^ 31 ∧
          (a.yearsDue x + a.extraYears x) * (a.openFee.value : ℤ) +
            (a.yearsDue x + a.extraYears x) * (a.openFee.fraction : ℤ) / 100000000 < 2 ^ 63 := by
        simp [hvalue, hfraction]
      by_cases hpos : 0 < (a.termsDue x).years
      · rw [openExact_paid hx htyped (fun _ => hd) ht hpos]
        rw [hyears] at hpos
        have hlt : -a.yearsFrom a.now < a.extraYears x := by omega
        simp only [hfee, hvalue, hfraction, mul_zero, not_lt.mpr hpaid, hpaid, Nat.cast_zero,
          false_imp_iff, forall_const, true_and]
        constructor
        · rintro ⟨-, hgc⟩
          exact ⟨fun _ => hhor, hportions, hfees, fun _ => Or.inl hfee,
            fun _ h => absurd h (not_le.mpr (hdue.trans_lt hlt)),
            fun _ hlow => absurd hlow (by rw [hfee, mul_zero]; exact not_lt.mpr hpaid),
            fun _ _ _ => hgc⟩
        · intro h
          exact ⟨by decide, h.gc (Or.inr hp) (fun _ => hdue.trans_lt hlt) (by rwa [hfee, mul_zero])⟩
      · rw [openExact_unchanged hx (fun _ => hd) ht (not_lt.mp hpos), hfee, mul_zero]
        rw [hyears, not_lt] at hpos
        have hle : (a.extraYears x : ℤ) ≤ -a.yearsFrom a.now := by omega
        constructor
        · rintro ⟨-, hm⟩
          exact ⟨fun _ => hhor, hportions, hfees, fun _ => Or.inl hfee,
            fun _ _ => lt_of_not_ge fun h => absurd (hm h) (not_le.mpr (hpurses h)),
            fun _ hlow => absurd hlow (by rw [hfee, mul_zero]; exact not_lt.mpr hpaid),
            fun _ h => absurd (h hp) (not_lt.mpr (hle.trans hdue.ge))⟩
        · intro h
          exact ⟨rfl, fun hexp => absurd hexp (not_le.mpr (h.due hp (hle.trans hdue.ge)))⟩
    · refine iff_of_false (fun h => ?_) fun h => (h.recent hp).elim hfee hrecent
      by_cases hpos : 0 < (a.termsDue x).years
      · obtain ⟨-, heq, -⟩ := (openExact_paid hx htyped (fun _ => hd) ht hpos).mp h
        have hcancel := mul_right_cancel₀ hfee heq
        omega
      · obtain ⟨heq, -⟩ := (openExact_unchanged hx (fun _ => hd) ht (not_lt.mp hpos)).mp h
        have hcancel := (mul_eq_zero.mp heq).resolve_right hfee
        omega

/-- **When the cost and the answer are right.** -/
theorem openExact_iff (hx : db.reserves.lookup a.reservePub = some x) (htyped : a.Typed x) :
    a.OpenExact x db ↔ a.OpenFits x := by
  by_cases hd : a.limit x < a.minPurseLimit → 0 < a.defaultPurseLimit
  swap
  · refine iff_of_false ?_ fun h => hd fun hp => (h.portions hp).1
    rintro ⟨db', o, -, hcost, -⟩
    exact hd (costExact_iff.mp hcost).1
  have hok := fun t => pgTerms_eq_ok (t := t) htyped hd
  cases ht : a.pgTerms x with
  | error e =>
    refine iff_of_false (not_openExact_of_error (Pg.open_error hx ht)) fun h => ?_
    have hcontra := (hok (a.termsDue x)).mpr ⟨h.horizon, fun hp => ?_, rfl⟩
    · exact nomatch ht.symm.trans hcontra
    · obtain ⟨-, h₁, h₂, h₃⟩ := h.portions hp
      have hy := yearsDue_eq (a := a) (x := x)
      rw [base, if_pos hp] at hy
      exact ⟨h₁, by omega, by omega, h₃⟩
  | ok t =>
    obtain ⟨hhor, hport, rfl⟩ := (hok t).mp ht
    by_cases hp : a.limit x < a.minPurseLimit
    · exact openExact_raised hx htyped hp (hd hp) ht (hhor (Or.inr hp)) (hport hp)
    · exact openExact_plain hx htyped hp ht hhor

theorem typed_morePurses : morePurses.Typed longLived :=
  ⟨by decide, by decide, by decide, by decide, by decide, by decide, by decide⟩

theorem openExact_iff_morePurses :
    morePurses.OpenExact longLived longLivedDatabase ↔ morePurses.OpenFits longLived :=
  openExact_iff lookup_longLived typed_morePurses

/-! ## Fees with a fraction -/

/-- Forty-three more years, at half a unit a year. -/
def halfFee : ReserveOpenArgs :=
  { morePurses with
    totalPaid := .whole 24, minPurseLimit := 1, desiredExpiration := 98 * oneYear,
    openFee := .part 50000000 }

theorem open_halfFee :
    Pg.exchangeDoReserveOpen longLivedDatabase halfFee = .error .numericValueOutOfRange :=
  Pg.open_raised lookup_longLived
    (show halfFee.pgTerms longLived = .ok ⟨43, 98 * oneYear, 1⟩ by decide) (by decide) (by decide)

/-- The total covers the fees of 43 years, and their fraction does not fit an `INT4`. -/
theorem not_openExact : ¬ ∀ (db : Database) (a : ReserveOpenArgs) (x : Reserve),
    db.reserves.lookup a.reservePub = some x → a.Typed x → a.OpenExact x db := by
  intro h
  refine not_openExact_of_error open_halfFee (h _ _ longLived lookup_longLived ?_)
  exact ⟨by decide, by decide, by decide, by decide, by decide, by decide, by decide⟩

/-- With an expiration in the past more purses are granted that the reserve does not get. -/
example : ((Pg.exchangeDoReserveOpen longLivedDatabase { morePurses with
      desiredExpiration := 0 }).toOption.bind fun r => (r.1.reserves.lookup 7).map fun y =>
        (r.2.noFunds, r.2.finalExpiration, y.pursesAllowed)) =
    some (false, 55 * oneYear, 1) := by decide

end ReserveOpenArgs

end TalerExchange
