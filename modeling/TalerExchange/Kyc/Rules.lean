import TalerExchange.Amount.Arith
import TalerExchange.Machine.LastMax
import TalerExchange.Sql.Serial
import Mathlib.Data.Prod.Lex
import Mathlib.Data.List.TakeWhile

/-!
# KYC rules

`TALER_KYCLOGIC_kyc_test_required` has the amounts of an account delivered in reverse chronological
order and tests every rule of the event against one running sum. Times are in microseconds; a failed
assertion is `none`.

* `KycRule`, `checkAmount`, `kycTestRequired`: the test;
* `Triggered`: the amounts within the timeframe of a rule reach its threshold;
* `firing`: the rules that fire, amount by amount;
* **`triggeredRule_eq_lastMax`**: the rule that is reported is the last largest of those triggered, by
  threshold and then by the amounts within the timeframe;
* **`kycTestRequired_spec`**, **`mostUrgent_iff`**.
-/

namespace TalerExchange

open Sql

/-! ## The test -/

/-- `enum TALER_KYCLOGIC_KycTriggerEvent`. -/
inductive KycTriggerEvent
  | none
  | withdraw
  | deposit
  | p2pReceive
  | walletBalance
  | reserveClose
  | aggregate
  | transaction
  | refund
deriving DecidableEq, Repr

/-- `struct TALER_KYCLOGIC_KycRule`. -/
structure KycRule where
  ruleName : Option String := none
  timeframe : ℕ
  threshold : Amount
  nextMeasures : List String
  displayPriority : ℕ
  trigger : KycTriggerEvent
  isAndCombinator : Bool := false
  exposed : Bool := false
  verboten : Bool := false
deriving DecidableEq, Repr

/-- `struct KycTestContext`: what changes while amounts are delivered. -/
structure KycTestContext where
  sum : Option Amount := none
  triggeredRule : Option KycRule := none
deriving DecidableEq, Repr

/-- `TALER_KYCLOGIC_KycAmountIterator`: the amounts since a limit with their dates, and the status. -/
abbrev KycAmountIterator := ℕ → List (Amount × ℕ) × QueryStatus

/-- The loop body of `check_amount`. -/
def checkRule (event : KycTriggerEvent) (dur : ℕ) (sum : Amount) (triggered : Option KycRule)
    (rule : KycRule) : Option KycRule :=
  if event ≠ rule.trigger then triggered
  else if rule.timeframe < dur then triggered
  else if sum.units < rule.threshold.units then triggered
  else match triggered with
    | none => some rule
    | some r => if rule.threshold.units < r.threshold.units then some r else some rule

/-- The sum with another amount. -/
def runningSum (sum : Option Amount) (amount : Amount) : Option Amount :=
  match sum with
  | none => some amount
  | some s => s.add? amount

/-- `check_amount`. -/
def checkAmount (event : KycTriggerEvent) (rules : List KycRule) (now : ℕ) (ktc : KycTestContext)
    (x : Amount × ℕ) : Option KycTestContext :=
  (runningSum ktc.sum x.1).map fun sum =>
    { sum := some sum
      triggeredRule := rules.foldl (checkRule event (now - x.2) sum) ktc.triggeredRule }

/-- The threshold that is kept, over the rules of the event. -/
def nextThreshold (event : KycTriggerEvent) (rules : List KycRule) : Option Amount :=
  rules.foldl (fun t rule =>
    if event ≠ rule.trigger then t
    else match t with
      | none => some rule.threshold
      | some t => if rule.threshold.units < t.units then some t else some rule.threshold) none

/-- The longest timeframe of a rule of the event. -/
def timeRange (event : KycTriggerEvent) (rules : List KycRule) : ℕ :=
  rules.foldl (fun range rule =>
    if event ≠ rule.trigger then range else max range rule.timeframe) 0

/-- The results of `TALER_KYCLOGIC_kyc_test_required`. -/
structure KycTestResult where
  status : QueryStatus
  triggeredRule : Option KycRule := none
  nextThreshold : Option Amount := none
deriving DecidableEq, Repr

/-- `TALER_KYCLOGIC_kyc_test_required`; without rules of the account the default rules apply. -/
def kycTestRequired (event : KycTriggerEvent) (defaultRules : List KycRule)
    (lrs : Option (List KycRule)) (ai : KycAmountIterator) (now : ℕ) : Option KycTestResult :=
  let rules := lrs.getD defaultRules
  match nextThreshold event rules with
  | none => some { status := .noResults }
  | some threshold =>
    let delivered := ai (now - timeRange event rules)
    (delivered.1.foldlM (checkAmount event rules now) {}).map fun ktc =>
      { status := delivered.2
        triggeredRule := ktc.triggeredRule
        nextThreshold := some threshold }

/-! ## Triggered rules -/

/-- The amounts that the test has delivered. -/
def deliveredAmounts (event : KycTriggerEvent) (rules : List KycRule) (ai : KycAmountIterator)
    (now : ℕ) : List (Amount × ℕ) :=
  (ai (now - timeRange event rules)).1

/-- The sum of amounts. -/
def totalUnits (amounts : List (Amount × ℕ)) : ℤ := (amounts.map fun x => x.1.units).sum

/-- An amount within the timeframe of a rule. -/
def inTimeframe (now : ℕ) (rule : KycRule) (x : Amount × ℕ) : Bool := now - x.2 ≤ rule.timeframe

/-- **A rule is triggered**: it is for the event, some amount is within its timeframe, and the sum of
these amounts is at least its threshold. -/
structure Triggered (event : KycTriggerEvent) (now : ℕ) (amounts : List (Amount × ℕ))
    (rule : KycRule) : Prop where
  trigger : rule.trigger = event
  some : ∃ x ∈ amounts, inTimeframe now rule x = true
  reached : rule.threshold.units ≤ totalUnits (amounts.filter (inTimeframe now rule))

instance (event : KycTriggerEvent) (now : ℕ) (amounts : List (Amount × ℕ)) (rule : KycRule) :
    Decidable (Triggered event now amounts rule) :=
  decidable_of_iff (rule.trigger = event ∧ (∃ x ∈ amounts, inTimeframe now rule x = true) ∧
      rule.threshold.units ≤ totalUnits (amounts.filter (inTimeframe now rule)))
    ⟨fun h => ⟨h.1, h.2.1, h.2.2⟩, fun h => ⟨h.1, h.2, h.3⟩⟩

/-- Newer amounts come first. -/
def ReverseChronological (amounts : List (Amount × ℕ)) : Prop :=
  amounts.Pairwise fun x y => y.2 ≤ x.2

/-- The rules that are triggered, in the order of the rule set. -/
def triggeredRules (event : KycTriggerEvent) (rules : List KycRule) (now : ℕ)
    (amounts : List (Amount × ℕ)) : List KycRule :=
  rules.filter fun rule => decide (Triggered event now amounts rule)

theorem mem_triggeredRules {event : KycTriggerEvent} {rules : List KycRule} {now : ℕ}
    {amounts : List (Amount × ℕ)} {rule : KycRule} :
    rule ∈ triggeredRules event rules now amounts ↔
      rule ∈ rules ∧ Triggered event now amounts rule := by
  simp [triggeredRules]

/-- What triggered rules are compared by: the threshold, then the number of amounts within the
timeframe. -/
def ruleRank (now : ℕ) (amounts : List (Amount × ℕ)) (rule : KycRule) : ℤ ×ₗ ℕ :=
  toLex (rule.threshold.units, amounts.countP (inTimeframe now rule))

/-! ## Rules that fire -/

/-- A rule fires at an amount, given the sum up to it. -/
def fires (event : KycTriggerEvent) (now : ℕ) (x : Amount × ℕ) (sum : ℤ) (rule : KycRule) : Bool :=
  rule.trigger = event ∧ inTimeframe now rule x ∧ rule.threshold.units ≤ sum

/-- The rules that fire, amount by amount, given the sum before. -/
def firing (event : KycTriggerEvent) (rules : List KycRule) (now : ℕ) :
    ℤ → List (Amount × ℕ) → List KycRule
  | _, [] => []
  | t, x :: xs =>
    rules.filter (fires event now x (t + x.1.units)) ++ firing event rules now (t + x.1.units) xs

section Firing

variable {event : KycTriggerEvent} {rules : List KycRule} {now : ℕ} {rule : KycRule}
  {amounts xs ys : List (Amount × ℕ)} {x : Amount × ℕ} {t : ℤ}

@[simp] theorem totalUnits_nil : totalUnits [] = 0 := rfl

@[simp] theorem totalUnits_cons : totalUnits (x :: xs) = x.1.units + totalUnits xs := by
  simp [totalUnits]

@[simp] theorem totalUnits_append : totalUnits (xs ++ ys) = totalUnits xs + totalUnits ys := by
  simp [totalUnits]

theorem totalUnits_nonneg : 0 ≤ totalUnits xs := by
  induction xs with
  | nil => simp
  | cons x xs ih =>
    have hx := x.1.units_nonneg
    rw [totalUnits_cons]
    omega

/-- The loop over the rules is a search among those that fire. -/
theorem foldl_checkRule (sum : Amount) (best : Option KycRule) :
    rules.foldl (checkRule event (now - x.2) sum) best =
      (rules.filter (fires event now x sum.units)).foldl
        (keepLast fun rule => rule.threshold.units) best := by
  rw [List.foldl_filter]
  congr 1
  funext best rule
  unfold checkRule fires inTimeframe keepLast
  by_cases h₁ : rule.trigger = event
  · by_cases h₂ : now - x.2 ≤ rule.timeframe
    · by_cases h₃ : rule.threshold.units ≤ sum.units
      · rw [if_neg (not_not.mpr h₁.symm), if_neg (not_lt.mpr h₂), if_neg (not_lt.mpr h₃),
          if_pos (by simp [h₁, h₂, h₃])]
        cases best <;> rfl
      · simp [h₁, h₂, h₃, not_le.mp h₃]
    · simp [h₁, h₂, not_le.mp h₂]
  · simp [h₁, Ne.symm h₁]

/-- The delivery is a search among the rules that fire. -/
theorem foldlM_checkAmount {ktc : KycTestContext} (hsum : ∀ s, ktc.sum = some s → s.units = t)
    (hnone : ktc.sum = none → t = 0) (htotal : t + totalUnits amounts < Amount.unitsBound) :
    ∃ ktc', amounts.foldlM (checkAmount event rules now) ktc = some ktc' ∧
      ktc'.triggeredRule = (firing event rules now t amounts).foldl
        (keepLast fun rule => rule.threshold.units) ktc.triggeredRule := by
  induction amounts generalizing ktc t with
  | nil => exact ⟨ktc, rfl, rfl⟩
  | cons x xs ih =>
    rw [totalUnits_cons] at htotal
    have hxs := @totalUnits_nonneg xs
    obtain ⟨sum, hs, hu⟩ : ∃ sum, runningSum ktc.sum x.1 = some sum ∧ sum.units = t + x.1.units := by
      unfold runningSum
      cases hk : ktc.sum with
      | none => exact ⟨x.1, rfl, by rw [hnone hk, zero_add]⟩
      | some s =>
        rw [← hsum s hk]
        cases ha : s.add? x.1 with
        | none =>
          have := Amount.add?_eq_none.mp ha
          have := hsum s hk
          omega
        | some c => exact ⟨c, ha, Amount.add?_eq_some.mp ha⟩
    obtain ⟨ktc', hrun, hrule⟩ := @ih (t + x.1.units)
      { sum := some sum
        triggeredRule := rules.foldl (checkRule event (now - x.2) sum) ktc.triggeredRule }
      (fun s h => by rw [← Option.some.inj h, hu]) (fun h => nomatch h) (by omega)
    refine ⟨ktc', ?_, ?_⟩
    · rw [List.foldlM_cons]
      unfold checkAmount
      rw [hs]
      exact hrun
    · rw [hrule, firing, List.foldl_append, foldl_checkRule, hu]

theorem firing_append (ys : List (Amount × ℕ)) : firing event rules now t (xs ++ ys) =
    firing event rules now t xs ++ firing event rules now (t + totalUnits xs) ys := by
  induction xs generalizing t with
  | nil => simp [firing]
  | cons x xs ih =>
    rw [List.cons_append, firing, firing, ih, totalUnits_cons, List.append_assoc, add_assoc]

/-- A rule fires at some amount. -/
theorem mem_firing : rule ∈ firing event rules now t amounts ↔
    rule ∈ rules ∧ ∃ xs x ys, amounts = xs ++ x :: ys ∧
      fires event now x (t + totalUnits xs + x.1.units) rule = true := by
  induction amounts generalizing t with
  | nil => simp [firing]
  | cons y ys ih =>
    rw [firing, List.mem_append, List.mem_filter, ih]
    constructor
    · rintro (⟨hr, hf⟩ | ⟨hr, xs, x, zs, rfl, hf⟩)
      · exact ⟨hr, [], y, ys, rfl, by simpa using hf⟩
      · exact ⟨hr, y :: xs, x, zs, rfl, by rwa [totalUnits_cons, ← add_assoc]⟩
    · rintro ⟨hr, xs, x, zs, hsplit, hf⟩
      rcases xs with - | ⟨z, xs⟩
      · obtain ⟨rfl, rfl⟩ := List.cons.inj hsplit
        exact Or.inl ⟨hr, by simpa using hf⟩
      · obtain ⟨rfl, rfl⟩ := List.cons.inj hsplit
        exact Or.inr ⟨hr, xs, x, zs, rfl, by rwa [totalUnits_cons, ← add_assoc] at hf⟩

/-! ## Timeframes -/

/-- The amounts within a timeframe come first. -/
theorem window_split (now : ℕ) (hs : ReverseChronological amounts) (rule : KycRule) :
    ∃ w rest, amounts = w ++ rest ∧ (∀ x ∈ w, inTimeframe now rule x = true) ∧
      ∀ x ∈ rest, inTimeframe now rule x = false := by
  induction amounts with
  | nil => exact ⟨[], [], rfl, by simp, by simp⟩
  | cons x xs ih =>
    obtain ⟨hx, hxs⟩ := List.pairwise_cons.mp hs
    cases hw : inTimeframe now rule x with
    | true =>
      obtain ⟨w, rest, rfl, hin, hout⟩ := ih hxs
      exact ⟨x :: w, rest, rfl, List.forall_mem_cons.mpr ⟨hw, hin⟩, hout⟩
    | false =>
      refine ⟨[], x :: xs, rfl, by simp, List.forall_mem_cons.mpr ⟨hw, fun y hy => ?_⟩⟩
      have hyx := hx y hy
      simp only [inTimeframe, decide_eq_false_iff_not] at hw ⊢
      omega

theorem filter_window {w rest : List (Amount × ℕ)} (hin : ∀ x ∈ w, inTimeframe now rule x = true)
    (hout : ∀ x ∈ rest, inTimeframe now rule x = false) :
    (w ++ rest).filter (inTimeframe now rule) = w := by
  rw [List.filter_append, List.filter_eq_self.mpr hin,
    List.filter_eq_nil_iff.mpr fun x hx => by simp [hout x hx], List.append_nil]

/-- Amounts up to one within the timeframe are in it. -/
theorem inTimeframe_of_mem (hs : ReverseChronological (xs ++ x :: ys))
    (hx : inTimeframe now rule x = true) {y : Amount × ℕ} (hy : y ∈ xs) :
    inTimeframe now rule y = true := by
  have hle : x.2 ≤ y.2 := (List.pairwise_append.mp hs).2.2 y hy x List.mem_cons_self
  simp only [inTimeframe, decide_eq_true_eq] at hx ⊢
  omega

theorem lt_countP (hs : ReverseChronological (xs ++ x :: ys))
    (hx : inTimeframe now rule x = true) :
    xs.length < (xs ++ x :: ys).countP (inTimeframe now rule) := by
  have hall : xs.countP (inTimeframe now rule) = xs.length :=
    List.countP_eq_length.mpr fun _ hy => inTimeframe_of_mem hs hx hy
  rw [List.countP_append, List.countP_cons_of_pos hx, hall]
  omega

/-- **A rule fires if it is triggered.** -/
theorem mem_firing_iff (hs : ReverseChronological amounts) :
    rule ∈ firing event rules now 0 amounts ↔ rule ∈ triggeredRules event rules now amounts := by
  rw [mem_firing, mem_triggeredRules]
  refine and_congr_right fun _ => ⟨?_, ?_⟩
  · rintro ⟨xs, x, ys, rfl, hf⟩
    simp only [fires, decide_eq_true_eq] at hf
    obtain ⟨htrigger, hx, hreached⟩ := hf
    refine ⟨htrigger, ⟨x, by simp, hx⟩, ?_⟩
    have hxs : xs.filter (inTimeframe now rule) = xs :=
      List.filter_eq_self.mpr fun _ hy => inTimeframe_of_mem hs hx hy
    have hys := @totalUnits_nonneg (ys.filter (inTimeframe now rule))
    rw [List.filter_append, List.filter_cons_of_pos hx, totalUnits_append, totalUnits_cons, hxs]
    omega
  · rintro ⟨htrigger, ⟨z, hz, hzw⟩, hreached⟩
    obtain ⟨w, rest, rfl, hin, hout⟩ := window_split now hs rule
    rw [filter_window hin hout] at hreached
    rcases List.eq_nil_or_concat w with rfl | ⟨w, x, rfl⟩
    · simp [hout z (by simpa using hz)] at hzw
    · rw [List.concat_eq_append] at hin hreached ⊢
      refine ⟨w, x, rest, by simp, ?_⟩
      simp only [fires, decide_eq_true_eq]
      refine ⟨htrigger, hin x (by simp), ?_⟩
      rw [totalUnits_append, totalUnits_cons, totalUnits_nil] at hreached
      omega

/-- **The rule that is kept**: the last largest of the triggered rules. -/
theorem triggeredRule_eq_lastMax (hs : ReverseChronological amounts) :
    lastMax (fun rule => rule.threshold.units) (firing event rules now 0 amounts) =
      lastMax (ruleRank now amounts) (triggeredRules event rules now amounts) := by
  cases hb : lastMax (ruleRank now amounts) (triggeredRules event rules now amounts) with
  | none =>
    rw [lastMax_eq_none] at hb ⊢
    refine List.eq_nil_iff_forall_not_mem.mpr fun rule hr => ?_
    rw [mem_firing_iff hs, hb] at hr
    exact List.not_mem_nil hr
  | some rule =>
    have hrule : Triggered event now amounts rule := (mem_triggeredRules.mp (lastMax_mem hb)).2
    have hmax : ∀ r, r ∈ triggeredRules event rules now amounts →
        ruleRank now amounts r ≤ ruleRank now amounts rule := fun _ hr => le_lastMax hb hr
    obtain ⟨m₁, m₂, hsplit, -, hm₂⟩ := lastMax_eq_some_iff.mp hb
    obtain ⟨k₁, k₂', hk, rfl, hk₂'⟩ := List.filter_eq_append_iff.mp hsplit
    obtain ⟨z₁, k₂, rfl, hz₁, -, rfl⟩ := List.filter_eq_cons_iff.mp hk₂'
    -- the last amount within the timeframe of the rule, where it fires last
    obtain ⟨w, rest, rfl, hin, hout⟩ := window_split now hs rule
    obtain ⟨z, hz, hzw⟩ := hrule.some
    have hreached := hrule.reached
    rw [filter_window hin hout] at hreached
    rcases List.eq_nil_or_concat w with rfl | ⟨w, x, rfl⟩
    · simp [hout z (by simpa using hz)] at hzw
    rw [List.concat_eq_append] at *
    have hcount : (w ++ [x] ++ rest).countP (inTimeframe now rule) = w.length + 1 := by
      rw [List.countP_eq_length_filter, filter_window hin hout, List.length_append,
        List.length_singleton]
    rw [totalUnits_append, totalUnits_cons, totalUnits_nil] at hreached
    have hfires : fires event now x (0 + totalUnits w + x.1.units) rule = true := by
      simp only [fires, decide_eq_true_eq]
      exact ⟨hrule.trigger, hin x (by simp), by omega⟩
    have hfiring : firing event rules now 0 (w ++ [x] ++ rest) =
        (firing event rules now 0 w ++
          (k₁ ++ z₁).filter (fires event now x (0 + totalUnits w + x.1.units))) ++
        rule :: (k₂.filter (fires event now x (0 + totalUnits w + x.1.units)) ++
          firing event rules now (0 + totalUnits (w ++ [x])) rest) := by
      have hrules : rules.filter (fires event now x (0 + totalUnits w + x.1.units)) =
          (k₁ ++ z₁).filter (fires event now x (0 + totalUnits w + x.1.units)) ++
            rule :: k₂.filter (fires event now x (0 + totalUnits w + x.1.units)) := by
        rw [hk, ← List.append_assoc, List.filter_append, List.filter_cons_of_pos hfires]
      rw [firing_append, firing_append, firing, firing, hrules]
      simp only [List.append_assoc, List.cons_append, List.append_nil]
    have hle : ∀ r, r ∈ firing event rules now 0 (w ++ [x] ++ rest) →
        r.threshold.units ≤ rule.threshold.units := by
      intro r hr
      rcases Prod.Lex.le_iff.mp (hmax r ((mem_firing_iff hs).mp hr)) with h | ⟨h, -⟩
      · exact h.le
      · exact h.le
    refine lastMax_eq_some_iff.mpr ⟨_, _, hfiring, fun r hr => hle r ?_, fun r hr => ?_⟩
    · rw [hfiring]
      exact List.mem_append_left _ hr
    -- what fires later has a smaller threshold, or more amounts would be within its timeframe
    have hr' : r ∈ triggeredRules event rules now (w ++ [x] ++ rest) := by
      rw [← mem_firing_iff hs, hfiring]
      exact List.mem_append_right _ (List.mem_cons_of_mem _ hr)
    rcases List.mem_append.mp hr with hr | hr
    · obtain ⟨hrk, hf⟩ := List.mem_filter.mp hr
      have hx : inTimeframe now r x = true := by
        simp only [fires, decide_eq_true_eq] at hf
        exact hf.2.1
      have hrm : r ∈ k₂.filter fun rule => decide (Triggered event now (w ++ [x] ++ rest) rule) :=
        List.mem_filter.mpr ⟨hrk, decide_eq_true (mem_triggeredRules.mp hr').2⟩
      rcases Prod.Lex.lt_iff.mp (hm₂ r hrm) with h | ⟨-, h⟩
      · exact h
      · have hlt := @lt_countP now r w rest x (by simpa using hs) hx
        simp only [ruleRank, ofLex_toLex, hcount] at h
        rw [List.append_assoc, List.singleton_append] at h
        omega
    · obtain ⟨-, xs, y, ys, rfl, hf⟩ := mem_firing.mp hr
      have hy : inTimeframe now r y = true := by
        simp only [fires, decide_eq_true_eq] at hf
        exact hf.2.1
      have hlt := @lt_countP now r (w ++ [x] ++ xs) ys y (by simpa using hs) hy
      rcases Prod.Lex.le_iff.mp (hmax r hr') with h | ⟨-, h⟩
      · exact h
      · simp only [ruleRank, ofLex_toLex, hcount] at h
        rw [List.append_assoc (w ++ [x])] at hlt
        simp only [List.length_append, List.length_cons, List.length_nil] at hlt
        omega

end Firing

/-! ## The rule that is reported -/

section Reported

variable {event : KycTriggerEvent} {defaultRules : List KycRule} {lrs : Option (List KycRule)}
  {ai : KycAmountIterator} {now : ℕ}

theorem nextThreshold_eq_none {rules : List KycRule} :
    nextThreshold event rules = none ↔ ∀ rule ∈ rules, rule.trigger ≠ event := by
  have hfold : ∀ t : Option Amount, rules.foldl (fun t rule =>
      if event ≠ rule.trigger then t
      else match t with
        | none => some rule.threshold
        | some t => if rule.threshold.units < t.units then some t else some rule.threshold) t =
        none ↔ t = none ∧ ∀ rule ∈ rules, rule.trigger ≠ event := by
    induction rules with
    | nil => simp
    | cons rule rules ih =>
      intro t
      rw [List.foldl_cons, ih, List.forall_mem_cons]
      by_cases htrigger : rule.trigger = event
      · rw [if_neg (not_not.mpr htrigger.symm)]
        cases t with
        | none => simp [htrigger]
        | some t =>
          simp only [reduceCtorEq, false_and, iff_false, not_and]
          split <;> simp
      · rw [if_pos (Ne.symm htrigger)]
        simp [htrigger]
  unfold nextThreshold
  rw [hfold]
  simp

/-- **The test reports the last largest of the triggered rules**, by threshold and then by the amounts
within the timeframe. -/
theorem kycTestRequired_eq
    (hs : ReverseChronological (deliveredAmounts event (lrs.getD defaultRules) ai now))
    (htotal : totalUnits (deliveredAmounts event (lrs.getD defaultRules) ai now) <
      Amount.unitsBound) :
    ∃ res, kycTestRequired event defaultRules lrs ai now = some res ∧
      res.triggeredRule = lastMax
        (ruleRank now (deliveredAmounts event (lrs.getD defaultRules) ai now))
        (triggeredRules event (lrs.getD defaultRules) now
          (deliveredAmounts event (lrs.getD defaultRules) ai now)) := by
  unfold kycTestRequired
  cases hn : nextThreshold event (lrs.getD defaultRules) with
  | none =>
    refine ⟨{ status := .noResults }, by simp only [hn], ?_⟩
    symm
    rw [lastMax_eq_none]
    refine List.eq_nil_iff_forall_not_mem.mpr fun rule hr => ?_
    obtain ⟨hmem, htriggered⟩ := mem_triggeredRules.mp hr
    exact nextThreshold_eq_none.mp hn rule hmem htriggered.trigger
  | some threshold =>
    obtain ⟨ktc, hrun, hrule⟩ := @foldlM_checkAmount event (lrs.getD defaultRules) now
      (deliveredAmounts event (lrs.getD defaultRules) ai now) 0 {} (fun _ h => nomatch h)
      (fun _ => rfl) (by rwa [zero_add])
    refine ⟨_, by simp only [hn]; exact congrArg _ hrun, ?_⟩
    rw [← triggeredRule_eq_lastMax hs]
    exact hrule

/-- **A rule is reported if some rule is triggered; it is triggered, and no other triggered rule has a
larger threshold.** -/
theorem kycTestRequired_spec
    (hs : ReverseChronological (deliveredAmounts event (lrs.getD defaultRules) ai now))
    (htotal : totalUnits (deliveredAmounts event (lrs.getD defaultRules) ai now) <
      Amount.unitsBound) :
    ∃ res, kycTestRequired event defaultRules lrs ai now = some res ∧
      (res.triggeredRule.isSome = true ↔ ∃ rule ∈ lrs.getD defaultRules,
        Triggered event now (deliveredAmounts event (lrs.getD defaultRules) ai now) rule) ∧
      ∀ rule, res.triggeredRule = some rule → rule ∈ lrs.getD defaultRules ∧
        Triggered event now (deliveredAmounts event (lrs.getD defaultRules) ai now) rule ∧
        ∀ rule' ∈ lrs.getD defaultRules,
          Triggered event now (deliveredAmounts event (lrs.getD defaultRules) ai now) rule' →
            rule'.threshold.units ≤ rule.threshold.units := by
  obtain ⟨res, hres, hrule⟩ := kycTestRequired_eq hs htotal
  refine ⟨res, hres, ?_, fun rule h => ?_⟩
  · rw [← Option.ne_none_iff_isSome, hrule, ne_eq, lastMax_eq_none]
    exact ⟨fun h => (List.exists_mem_of_ne_nil _ h).imp fun _ => mem_triggeredRules.mp,
      fun ⟨_, hr⟩ => List.ne_nil_of_mem (mem_triggeredRules.mpr hr)⟩
  · rw [hrule] at h
    obtain ⟨hmem, htriggered⟩ := mem_triggeredRules.mp (lastMax_mem h)
    refine ⟨hmem, htriggered, fun rule' hmem' htriggered' => ?_⟩
    rcases Prod.Lex.le_iff.mp (le_lastMax h (mem_triggeredRules.mpr ⟨hmem', htriggered'⟩)) with
      hlt | ⟨heq, -⟩
    · exact hlt.le
    · exact heq.le

/-! ## The most urgent rule -/

/-- **The rule that is reported has the highest display priority** of the triggered rules. -/
def MostUrgent (event : KycTriggerEvent) (defaultRules : List KycRule)
    (lrs : Option (List KycRule)) (ai : KycAmountIterator) (now : ℕ) : Prop :=
  ∃ res, kycTestRequired event defaultRules lrs ai now = some res ∧
    ∀ rule, res.triggeredRule = some rule → ∀ rule' ∈ lrs.getD defaultRules,
      Triggered event now (deliveredAmounts event (lrs.getD defaultRules) ai now) rule' →
        rule'.displayPriority ≤ rule.displayPriority

/-- The triggered rule with the largest threshold, of several the last of those with the most amounts
within the timeframe, has a display priority at least that of every triggered rule. -/
def PrioritiesFollow (event : KycTriggerEvent) (rules : List KycRule) (now : ℕ)
    (amounts : List (Amount × ℕ)) : Prop :=
  ∀ l₁ rule l₂, triggeredRules event rules now amounts = l₁ ++ rule :: l₂ →
    (∀ rule' ∈ l₁, ruleRank now amounts rule' ≤ ruleRank now amounts rule) →
    (∀ rule' ∈ l₂, ruleRank now amounts rule' < ruleRank now amounts rule) →
    ∀ rule' ∈ rules, Triggered event now amounts rule' →
      rule'.displayPriority ≤ rule.displayPriority

/-- **When the most urgent rule is reported.** -/
theorem mostUrgent_iff
    (hs : ReverseChronological (deliveredAmounts event (lrs.getD defaultRules) ai now))
    (htotal : totalUnits (deliveredAmounts event (lrs.getD defaultRules) ai now) <
      Amount.unitsBound) :
    MostUrgent event defaultRules lrs ai now ↔ PrioritiesFollow event (lrs.getD defaultRules) now
      (deliveredAmounts event (lrs.getD defaultRules) ai now) := by
  obtain ⟨res, hres, hrule⟩ := kycTestRequired_eq hs htotal
  constructor
  · rintro ⟨res', hres', hurgent⟩ l₁ rule l₂ hsplit h₁ h₂
    obtain rfl : res = res' := Option.some.inj (hres.symm.trans hres')
    refine hurgent rule ?_
    rw [hrule, lastMax_eq_some_iff]
    exact ⟨l₁, l₂, hsplit, h₁, h₂⟩
  · intro h
    refine ⟨res, hres, fun rule hr => ?_⟩
    rw [hrule, lastMax_eq_some_iff] at hr
    obtain ⟨l₁, l₂, hsplit, h₁, h₂⟩ := hr
    exact h l₁ rule l₂ hsplit h₁ h₂

end Reported

/-- A rule for withdrawals within a month. -/
def monthlyRule (threshold priority : ℕ)
    (h : threshold.ble (2 ^ 52) = true := by exact (rfl : true = true)) : KycRule where
  timeframe := 2592000000000
  threshold := Amount.whole threshold h
  nextMeasures := ["kyc"]
  displayPriority := priority
  trigger := .withdraw

/-- Two withdrawals of which one is long ago. -/
def twoWithdrawals : KycAmountIterator := fun _ =>
  ([(Amount.whole 60, 9000000000000), (Amount.whole 50, 8000000000000),
    (Amount.whole 70, 1000000000000)], .oneResult)

theorem reverseChronological_twoWithdrawals (rules : List KycRule) (now : ℕ) :
    ReverseChronological (deliveredAmounts .withdraw rules twoWithdrawals now) := by
  show List.Pairwise _ [(Amount.whole 60, 9000000000000), (Amount.whole 50, 8000000000000),
    (Amount.whole 70, 1000000000000)]
  decide

theorem totalUnits_twoWithdrawals (rules : List KycRule) (now : ℕ) :
    totalUnits (deliveredAmounts .withdraw rules twoWithdrawals now) < Amount.unitsBound := by
  show totalUnits [(Amount.whole 60, 9000000000000), (Amount.whole 50, 8000000000000),
    (Amount.whole 70, 1000000000000)] < _
  decide

/-- The larger threshold has the lower priority. -/
def twoRules : List KycRule := [monthlyRule 100 1, monthlyRule 50 5]

theorem kycTestRequired_spec_twoRules :
    ∃ res, kycTestRequired .withdraw [] (some twoRules) twoWithdrawals 9000000000000 = some res ∧
      (res.triggeredRule.isSome = true ↔ ∃ rule ∈ twoRules, Triggered .withdraw 9000000000000
        (deliveredAmounts .withdraw twoRules twoWithdrawals 9000000000000) rule) ∧
      ∀ rule, res.triggeredRule = some rule → rule ∈ twoRules ∧
        Triggered .withdraw 9000000000000
          (deliveredAmounts .withdraw twoRules twoWithdrawals 9000000000000) rule ∧
        ∀ rule' ∈ twoRules, Triggered .withdraw 9000000000000
          (deliveredAmounts .withdraw twoRules twoWithdrawals 9000000000000) rule' →
            rule'.threshold.units ≤ rule.threshold.units :=
  kycTestRequired_spec (reverseChronological_twoWithdrawals _ _) (totalUnits_twoWithdrawals _ _)

theorem mostUrgent_iff_twoRules :
    MostUrgent .withdraw [] (some twoRules) twoWithdrawals 9000000000000 ↔
      PrioritiesFollow .withdraw twoRules 9000000000000
        (deliveredAmounts .withdraw twoRules twoWithdrawals 9000000000000) :=
  mostUrgent_iff (reverseChronological_twoWithdrawals _ _) (totalUnits_twoWithdrawals _ _)

/-- The rule with the larger threshold is reported, though it is less urgent. -/
theorem not_mostUrgent : ¬ ∀ (event : KycTriggerEvent) (defaultRules : List KycRule)
    (lrs : Option (List KycRule)) (ai : KycAmountIterator) (now : ℕ),
    ReverseChronological (deliveredAmounts event (lrs.getD defaultRules) ai now) →
    totalUnits (deliveredAmounts event (lrs.getD defaultRules) ai now) < Amount.unitsBound →
      MostUrgent event defaultRules lrs ai now := by
  intro h
  obtain ⟨res, hres, hurgent⟩ := h .withdraw [] (some twoRules) twoWithdrawals 9000000000000
    (reverseChronological_twoWithdrawals _ _) (totalUnits_twoWithdrawals _ _)
  have hreported : (kycTestRequired .withdraw [] (some twoRules) twoWithdrawals 9000000000000).map
      KycTestResult.triggeredRule = some (some (monthlyRule 100 1)) := by decide +kernel
  rw [hres] at hreported
  have hle := hurgent (monthlyRule 100 1) (Option.some.inj hreported) (monthlyRule 50 5)
    (by decide) (by decide +kernel)
  exact absurd hle (by decide)

end TalerExchange
