import TalerExchange.Kyc.Check

/-!
# The rules that a legitimization check applies

Before a check starts a rule updater it looks for custom rules with one query, a join of the rows of
the account with its incoming transfers and its outcomes. Only if that row has rules does the updater
run; else the default rules are applied.

* `getKycRules`: the query of the check; **`getKycRules_eq`** takes it apart;
* `KycRulesRow.source`: what a check does with the row, `withRules_source`;
* `updaterRules`: what the rule updater does first, **`fetchLatestRules_updaterRules`**;
* `accountRules`: the rules that apply to an account;
* **`checkApplies_iff`**: when a check applies them, and finds the account's key.
-/

namespace TalerExchange

open Sql

/-! ## The query -/

/-- `LEFT JOIN`: the rows that match, or `NULL`. -/
def leftJoin {α : Type} : List α → List (Option α)
  | [] => [none]
  | l => l.map some

/-- The rows of an account with their incoming transfers. -/
def KycDatabase.targetRows (db : KycDatabase) (h : HashCode) :
    List (KycTarget × Option ReserveIn) :=
  (db.targetsOf h).flatMap fun wt =>
    (leftJoin (db.reservesIn.rows.filter fun ri => ri.wireSourceHPayto = wt.wireTargetHPayto)).map
      fun ri => (wt, ri)

/-- `ORDER BY ri.execution_date DESC`: `NULL` comes first. -/
def recentFirst (x y : KycTarget × Option ReserveIn) : Bool :=
  match x.2, y.2 with
  | none, _ => true
  | some _, none => false
  | some r, some r' => decide (r'.executionDate ≤ r.executionDate)

/-- The outcome of a joined row is active and has not expired, or there is none. -/
def inForce (now : Timestamp) (lo : Option LegitimizationOutcome) : Bool :=
  lo.all fun r => decide (now ≤ r.expirationTime) && r.isActive

/-- `TEH_PG_get_kyc_rules`. -/
def getKycRules (db : KycDatabase) (h : HashCode) (now : Timestamp) : KycRulesRow :=
  let rows := (db.targetRows h).flatMap fun x => (leftJoin (db.outcomesOf h)).map fun lo => (x, lo)
  match firstBy (fun y y' => recentFirst y.1 y'.1) (rows.filter fun y => inForce now y.2) with
  | none => {}
  | some ((wt, ri), lo) =>
    { accountPub := wt.targetPub
      reservePub := ri.map ReserveIn.reservePub
      jrules := lo.bind LegitimizationOutcome.jnewRules }

/-! ## What is done with the row -/

/-- Where a check takes the rules from: none since the merchant's key does not match custom rules, the
default rules, or the rule updater. -/
inductive RulesSource
  | refused
  | defaults
  | updater
deriving DecidableEq, Repr

/-- What `legitimization_check_run` does with the row that it has found. -/
def KycRulesRow.source (cfg : KycConfig) (r : KycRulesRow) (merchantPub : Option MerchantPub) :
    RulesSource :=
  match r.jrules with
  | none => .defaults
  | some j =>
    if r.mismatch merchantPub then .refused
    else if (cfg.rulesParse j).isSome then .updater else .defaults

/-- **The source of the rules is what the check goes on with.** -/
theorem withRules_source (cfg : KycConfig) (a : CheckAnswers) (lch : LegitimizationCheck)
    (r : KycRulesRow) : ∃ lcr, LegitimizationCheck.withRules cfg a lch r =
      match r.source cfg lch.merchantPub with
      | .refused => LegitimizationCheck.failKycAuth { lch with txn := false, lcr := lcr }
      | .defaults => LegitimizationCheck.currentRulesCb a { lch with lcr := lcr } .none
      | .updater => { lch with txn := false, rus := lch.rus + 1, lcr := lcr } := by
  unfold LegitimizationCheck.withRules KycRulesRow.source
  simp only
  cases r.jrules with
  | none => exact ⟨_, rfl⟩
  | some j =>
    simp only
    split_ifs
    · exact ⟨_, rfl⟩
    · exact ⟨_, rfl⟩
    · exact ⟨_, rfl⟩

/-- Rules that are applied to an account: the default rules, those of an outcome, or what comes of the
successor measure of an outcome. -/
inductive AppliedRules
  | defaults
  | own (row : ℕ)
  | successor (row : ℕ)
deriving DecidableEq, Repr

/-- What the rule updater does first at time `later`. -/
def updaterRules (cfg : KycConfig) (db : KycDatabase) (h : HashCode) (later : Timestamp) :
    AppliedRules :=
  match lookupRulesByAccessToken db h with
  | none => .defaults
  | some (jrules, row) =>
    match jrules.bind cfg.rulesParse with
    | none => .defaults
    | some lrs => if lrs.expirationTime < later then .successor row else .own row

/-- **The rule updater applies these rules**, if the database answers: it reports the default rules
or the rules of the row, or it runs the successor measure of the rules of the row. -/
theorem fetchLatestRules_updaterRules (cfg : KycConfig) (db : KycDatabase) (h : HashCode)
    (a : Answers) (hstart : a.start = true)
    (hlookup : a.lookup = some ((lookupRulesByAccessToken db h).map Prod.snd))
    (hrules : ∀ x ∈ lookupRulesByAccessToken db h, cfg.jnewRules x.2 = x.1) :
    match updaterRules cfg db h a.now with
    | .defaults => ((RuleUpdater.fetchLatestRules cfg a updateRules).results.map
        RuleUpdaterResult.lrs) = [none]
    | .own row => (RuleUpdater.fetchLatestRules cfg a updateRules).results =
        [⟨row, cfg.rulesOf row, .none, true⟩]
    | .successor row => ∃ lrs, cfg.rulesOf row = some lrs ∧
        RuleUpdater.fetchLatestRules cfg a updateRules = RuleUpdater.runMeasure cfg a
          { lrs := some lrs, legitimizationOutcomeLastRow := row, txn := true, depth := 1, checks := 1 }
          (cfg.successor lrs) := by
  unfold updaterRules RuleUpdater.fetchLatestRules
  simp only [hstart, hlookup, if_true]
  cases hl : lookupRulesByAccessToken db h with
  | none => rfl
  | some x =>
    obtain ⟨jrules, row⟩ := x
    have hj : cfg.jnewRules row = jrules := hrules _ hl
    simp only [Option.map_some, RuleUpdater.fetched, hj]
    cases jrules with
    | none => rfl
    | some j =>
      have hrow : cfg.rulesOf row = cfg.rulesParse j := by rw [KycConfig.rulesOf, hj]; rfl
      simp only [Option.bind_some]
      unfold RuleUpdater.checkRules
      cases hp : cfg.rulesParse j with
      | none => rfl
      | some lrs =>
        simp only [updateRules]
        by_cases hexp : lrs.expirationTime < a.now
        · simp only [hexp, maxDepth, if_true]
          exact ⟨lrs, hrow.trans hp, rfl⟩
        · simp [hexp, maxDepth, RuleUpdater.returnResult, hrow, hp]

/-- What a check that starts at time `now` applies, with a rule updater that runs at time `later`;
`none` where it is refused. -/
def evaluatedRules (cfg : KycConfig) (db : KycDatabase) (h : HashCode)
    (merchantPub : Option MerchantPub) (now later : Timestamp) : Option AppliedRules :=
  match (getKycRules db h now).source cfg merchantPub with
  | .refused => none
  | .defaults => some .defaults
  | .updater => some (updaterRules cfg db h later)

/-! ## What is to be applied -/

/-- The active outcome of an account. -/
def KycDatabase.activeOutcome (db : KycDatabase) (h : HashCode) : Option LegitimizationOutcome :=
  firstBy laterExpiration (db.activeOutcomes h)

/-- **The rules that apply to an account**: those of its active outcome, the result of the successor
measure once it has expired, the default rules if there is none or it says so. -/
def accountRules (db : KycDatabase) (h : HashCode) (later : Timestamp) : AppliedRules :=
  match db.activeOutcome h with
  | none => .defaults
  | some r =>
    if r.jnewRules = none then .defaults
    else if r.expirationTime < later then .successor r.outcomeSerialId
    else .own r.outcomeSerialId

/-- **A check applies the rules of the account and finds its key**, if one is stored. -/
structure CheckApplies (cfg : KycConfig) (db : KycDatabase) (h : HashCode)
    (merchantPub : Option MerchantPub) (now later : Timestamp) : Prop where
  rules : ∀ r ∈ evaluatedRules cfg db h merchantPub now later, r = accountRules db h later
  key : (∃ wt ∈ db.targetsOf h, wt.targetPub ≠ none) → ∃ wt ∈ db.targetsOf h,
    wt.targetPub ≠ none ∧ (getKycRules db h now).accountPub = wt.targetPub

/-- The first active outcome of an account that has not expired. -/
def KycDatabase.currentOutcome (db : KycDatabase) (h : HashCode) (now : Timestamp) :
    Option LegitimizationOutcome :=
  (db.activeOutcomes h).find? fun r => decide (now ≤ r.expirationTime)

/-- The row of the account with the latest incoming transfer, or without one. -/
def KycDatabase.latestTarget (db : KycDatabase) (h : HashCode) : Option KycTarget :=
  (firstBy recentFirst (db.targetRows h)).map Prod.fst

/-- If the active outcome has rules of its own, the account is known and the outcome has not expired;
if a key is stored, there is no outcome or one that has not expired, and the row with the latest
transfer has a key. -/
structure CheckCondition (db : KycDatabase) (h : HashCode) (now : Timestamp) : Prop where
  rules : ∀ r ∈ db.activeOutcome h, r.jnewRules ≠ none →
    db.targetsOf h ≠ [] ∧ ∃ o ∈ db.currentOutcome h now, o.jnewRules ≠ none
  key : (∃ wt ∈ db.targetsOf h, wt.targetPub ≠ none) →
    (db.outcomesOf h = [] ∨ db.currentOutcome h now ≠ none) ∧
      ∃ wt ∈ db.latestTarget h, wt.targetPub ≠ none

/-- Rules are stored with the time at which they expire; those who store them parse them for it. -/
def StoredRules (cfg : KycConfig) (db : KycDatabase) : Prop :=
  ∀ r ∈ db.outcomes.rows, ∀ j ∈ r.jnewRules, ∃ lrs, cfg.rulesParse j = some lrs ∧
    lrs.expirationTime = r.expirationTime

/-! ## The query, taken apart -/

section Query

variable {α β : Type}

theorem firstBy_mem {le : α → α → Bool} {rows : List α} {r : α} (h : firstBy le rows = some r) :
    r ∈ rows := by
  induction rows generalizing r with
  | nil => cases h
  | cons x rows ih =>
    rw [firstBy] at h
    split at h
    · cases h
      exact List.mem_cons_self
    · next r' hr' =>
      split_ifs at h
      · cases h
        exact List.mem_cons_self
      · cases h
        exact List.mem_cons_of_mem _ (ih hr')

/-- In a block of rows of equal rank the first one counts. -/
theorem firstBy_block {le : α → α → Bool} (hrefl : ∀ x, le x x = true) (x : α) (ys : List β)
    (rows : List (α × β)) :
    firstBy (fun y y' => le y.1 y'.1) (ys.map (fun y => (x, y)) ++ rows) =
      match ys.head?, firstBy (fun y y' => le y.1 y'.1) rows with
      | none, r => r
      | some y, none => some (x, y)
      | some y, some r => if le x r.1 then some (x, y) else some r := by
  induction ys with
  | nil =>
    simp only [List.map_nil, List.nil_append, List.head?_nil]
  | cons y ys ih =>
    rw [List.map_cons, List.cons_append, firstBy, ih]
    cases ys with
    | nil => cases firstBy (fun y y' => le y.1 y'.1) rows <;> rfl
    | cons y' ys =>
      simp only [List.head?_cons]
      cases hr : firstBy (fun y y' => le y.1 y'.1) rows with
      | none => simp [hrefl]
      | some r =>
        simp only
        split_ifs with hle
        · simp [hrefl]
        · simp [hle]

/-- **A product is ordered by its first factor**, and each of its rows with the first of the second. -/
theorem firstBy_product {le : α → α → Bool} (hrefl : ∀ x, le x x = true) (xs : List α)
    (ys : List β) :
    firstBy (fun y y' => le y.1 y'.1) (xs.flatMap fun x => ys.map fun y => (x, y)) =
      (firstBy le xs).bind fun x => ys.head?.map fun y => (x, y) := by
  induction xs with
  | nil => rfl
  | cons x xs ih =>
    rw [List.flatMap_cons, firstBy_block hrefl, ih, firstBy]
    cases hy : ys.head? with
    | none => simp
    | some y =>
      cases firstBy le xs with
      | none => rfl
      | some x' =>
        simp only [Option.bind_some, Option.map_some]
        split_ifs <;> rfl

end Query

section Condition

variable {cfg : KycConfig} {db : KycDatabase} {h : HashCode} {now later : Timestamp}

theorem recentFirst_refl (x : KycTarget × Option ReserveIn) : recentFirst x x = true := by
  unfold recentFirst
  cases x.2 <;> simp

/-- The outcome that a joined row shows: none if there is none, else the first one in force. -/
theorem head?_inForce (db : KycDatabase) (h : HashCode) (now : Timestamp) :
    ((leftJoin (db.outcomesOf h)).filter (inForce now)).head? =
      if db.outcomesOf h = [] then some none else (db.currentOutcome h now).map some := by
  unfold KycDatabase.currentOutcome KycDatabase.activeOutcomes
  cases ho : db.outcomesOf h with
  | nil => rfl
  | cons r rs =>
    rw [if_neg (List.cons_ne_nil r rs), List.find?_filter]
    show (((r :: rs).map some).filter (inForce now)).head? = _
    rw [List.filter_map, List.head?_map, List.head?_filter]
    congr 2
    funext x
    simp [inForce, Bool.and_comm]

/-- **The query taken apart**: the key and the reserve of the latest transfer, the rules of the first
outcome in force; nothing at all if there are outcomes and none is in force. -/
theorem getKycRules_eq (db : KycDatabase) (h : HashCode) (now : Timestamp) :
    getKycRules db h now =
      match firstBy recentFirst (db.targetRows h) with
      | none => {}
      | some (wt, ri) =>
        if db.outcomesOf h ≠ [] ∧ db.currentOutcome h now = none then {}
        else
          { accountPub := wt.targetPub
            reservePub := ri.map ReserveIn.reservePub
            jrules := (db.currentOutcome h now).bind LegitimizationOutcome.jnewRules } := by
  have hrows : (((db.targetRows h).flatMap fun x => (leftJoin (db.outcomesOf h)).map fun lo =>
      (x, lo)).filter fun y => inForce now y.2) = (db.targetRows h).flatMap fun x =>
        ((leftJoin (db.outcomesOf h)).filter (inForce now)).map fun lo => (x, lo) := by
    rw [List.filter_flatMap]
    congr 1
    funext x
    rw [List.filter_map]
    rfl
  unfold getKycRules
  simp only [hrows, firstBy_product recentFirst_refl, head?_inForce]
  cases firstBy recentFirst (db.targetRows h) with
  | none => rfl
  | some x =>
    simp only [Option.bind_some]
    by_cases ho : db.outcomesOf h = []
    · have hc : db.currentOutcome h now = none := by
        simp [KycDatabase.currentOutcome, KycDatabase.activeOutcomes, ho]
      simp [ho, hc]
    · cases hc : db.currentOutcome h now with
      | none => simp [ho]
      | some o => simp [ho]

theorem targetRows_eq_nil : db.targetRows h = [] ↔ db.targetsOf h = [] := by
  unfold KycDatabase.targetRows
  rw [List.flatMap_eq_nil_iff]
  constructor
  · intro hall
    by_contra hne
    obtain ⟨wt, l, hl⟩ := List.exists_cons_of_ne_nil hne
    have := hall wt (by rw [hl]; exact List.mem_cons_self)
    rw [List.map_eq_nil_iff] at this
    unfold leftJoin at this
    split at this
    · cases this
    · next hnil => exact hnil (List.map_eq_nil_iff.mp this)
  · intro hnil wt hwt
    rw [hnil] at hwt
    cases hwt

theorem latestTarget_mem {wt : KycTarget} (hwt : db.latestTarget h = some wt) :
    wt ∈ db.targetsOf h := by
  unfold KycDatabase.latestTarget at hwt
  rw [Option.map_eq_some_iff] at hwt
  obtain ⟨x, hx, rfl⟩ := hwt
  have hm := firstBy_mem hx
  unfold KycDatabase.targetRows at hm
  rw [List.mem_flatMap] at hm
  obtain ⟨wt, hwt, hx⟩ := hm
  rw [List.mem_map] at hx
  obtain ⟨ri, -, rfl⟩ := hx
  exact hwt

/-- The rules that the query shows. -/
theorem getKycRules_jrules : (getKycRules db h now).jrules ≠ none ↔
    db.targetsOf h ≠ [] ∧ ∃ o ∈ db.currentOutcome h now, o.jnewRules ≠ none := by
  have ht : db.targetsOf h ≠ [] ↔ db.targetRows h ≠ [] := not_congr targetRows_eq_nil.symm
  rw [getKycRules_eq, ht]
  cases hx : firstBy recentFirst (db.targetRows h) with
  | none => simp [firstBy_eq_none.mp hx]
  | some x =>
    have hne : db.targetRows h ≠ [] := fun e => by simp [e] at hx
    cases hc : db.currentOutcome h now with
    | none => by_cases ho : db.outcomesOf h = [] <;> simp [ho]
    | some o => simp [hne]

/-- The key that the query shows. -/
theorem getKycRules_accountPub : (getKycRules db h now).accountPub =
    if db.outcomesOf h ≠ [] ∧ db.currentOutcome h now = none then none
    else (db.latestTarget h).bind KycTarget.targetPub := by
  rw [getKycRules_eq]
  unfold KycDatabase.latestTarget
  cases firstBy recentFirst (db.targetRows h) with
  | none => simp
  | some x =>
    simp only [Option.map_some, Option.bind_some]
    split_ifs <;> rfl

theorem mem_rows_of_active {r : LegitimizationOutcome} (hr : r ∈ db.activeOutcomes h) :
    r ∈ db.outcomes.rows :=
  (List.mem_filter.mp (List.mem_filter.mp hr).1).1

/-- Rules that the query shows are stored. -/
theorem getKycRules_stored {j : JsonText} (hj : (getKycRules db h now).jrules = some j) :
    ∃ o ∈ db.outcomes.rows, o.jnewRules = some j := by
  rw [getKycRules_eq] at hj
  split at hj
  · cases hj
  · split_ifs at hj
    rw [Option.bind_eq_some_iff] at hj
    obtain ⟨o, ho, hj⟩ := hj
    exact ⟨o, mem_rows_of_active (List.mem_of_find?_eq_some ho), hj⟩

/-- The rule updater applies the rules of the account. -/
theorem updaterRules_eq (hs : StoredRules cfg db) :
    updaterRules cfg db h later = accountRules db h later := by
  unfold updaterRules accountRules KycDatabase.activeOutcome lookupRulesByAccessToken
  cases hr : firstBy laterExpiration (db.activeOutcomes h) with
  | none => rfl
  | some r =>
    simp only [Option.map_some]
    cases hj : r.jnewRules with
    | none => simp
    | some j =>
      obtain ⟨lrs, hp, he⟩ := hs r (mem_rows_of_active (firstBy_mem hr)) j hj
      simp [hp, he]

theorem accountRules_ne_defaults {r : LegitimizationOutcome} (hr : db.activeOutcome h = some r)
    (hj : r.jnewRules ≠ none) : accountRules db h later ≠ .defaults := by
  unfold accountRules
  simp only [hr, if_neg hj]
  split_ifs <;> simp

theorem accountRules_eq_defaults (hr : ∀ r ∈ db.activeOutcome h, r.jnewRules = none) :
    accountRules db h later = .defaults := by
  unfold accountRules
  cases ho : db.activeOutcome h with
  | none => rfl
  | some r => simp [hr r ho]

/-- The check applies the rules of the account if it sees that the account has rules. -/
theorem evaluatedRules_iff (merchantPub : Option MerchantPub) (hs : StoredRules cfg db) :
    (∀ r ∈ evaluatedRules cfg db h merchantPub now later, r = accountRules db h later) ↔
      ∀ r ∈ db.activeOutcome h, r.jnewRules ≠ none → (getKycRules db h now).jrules ≠ none := by
  constructor
  · intro hall r hr hj hnone
    have he : evaluatedRules cfg db h merchantPub now later = some .defaults := by
      simp [evaluatedRules, KycRulesRow.source, hnone]
    exact accountRules_ne_defaults hr hj (hall _ he).symm
  · intro hseen r hr
    unfold evaluatedRules KycRulesRow.source at hr
    cases hj : (getKycRules db h now).jrules with
    | none =>
      simp only [hj, Option.mem_def, Option.some.injEq] at hr
      subst hr
      refine (accountRules_eq_defaults fun r hr => ?_).symm
      by_contra hne
      exact hseen r hr hne hj
    | some j =>
      obtain ⟨o, ho, hoj⟩ := getKycRules_stored hj
      obtain ⟨lrs, hp, -⟩ := hs o ho j hoj
      simp only [hj, hp, Option.isSome_some, if_true] at hr
      split_ifs at hr
      · cases hr
      · cases hr
        exact updaterRules_eq hs

/-- The check finds a stored key if the query returns a row and the row has one. -/
theorem accountPub_iff : (∃ wt ∈ db.targetsOf h,
      wt.targetPub ≠ none ∧ (getKycRules db h now).accountPub = wt.targetPub) ↔
    (db.outcomesOf h = [] ∨ db.currentOutcome h now ≠ none) ∧
      ∃ wt ∈ db.latestTarget h, wt.targetPub ≠ none := by
  rw [getKycRules_accountPub]
  constructor
  · rintro ⟨wt, -, hne, he⟩
    split_ifs at he with hc
    · exact absurd he.symm hne
    · refine ⟨?_, ?_⟩
      · by_contra hno
        exact hc (by simpa [not_or] using hno)
      · cases hl : db.latestTarget h with
        | none => exact absurd (by simpa [hl] using he.symm) hne
        | some wt' => exact ⟨wt', rfl, by simpa [hl] using he.trans_ne hne⟩
  · rintro ⟨hc, wt, hwt, hne⟩
    refine ⟨wt, latestTarget_mem hwt, hne, ?_⟩
    rw [if_neg (by tauto), Option.mem_def.mp hwt, Option.bind_some]

end Condition

/-- **A check applies the rules of the account and finds its key if and only if** what is stored for
the account meets the condition. -/
theorem checkApplies_iff (cfg : KycConfig) (db : KycDatabase) (h : HashCode)
    (merchantPub : Option MerchantPub) (now later : Timestamp) (hs : StoredRules cfg db) :
    CheckApplies cfg db h merchantPub now later ↔ CheckCondition db h now := by
  constructor
  · intro ha
    refine ⟨fun r hr hj => ?_, fun hk => accountPub_iff.mp (ha.key hk)⟩
    exact getKycRules_jrules.mp ((evaluatedRules_iff merchantPub hs).mp ha.rules r hr hj)
  · intro hc
    refine ⟨(evaluatedRules_iff merchantPub hs).mpr fun r hr hj => ?_,
      fun hk => accountPub_iff.mpr (hc.key hk)⟩
    exact getKycRules_jrules.mpr (hc.rules r hr hj)

/-! ## Accounts -/

/-- The account of `kycSample` with a key and an outcome that restricts it until time `20`. -/
def restrictedAccount : KycDatabase :=
  { wireTargets := ⟨[⟨1, 10, some 1, "payto", 100, some 7, none⟩], rfl, by decide⟩
    outcomes := ⟨[⟨1, 1, 10, 10, none, none, false, true, some "verified"⟩], rfl, by decide⟩ }

theorem storedRules_restrictedAccount : StoredRules sampleKyc restrictedAccount := by
  intro r hr
  have hrow : r ∈ [(⟨1, 1, 10, 10, none, none, false, true, some "verified"⟩ :
      LegitimizationOutcome)] := hr
  rw [List.mem_singleton] at hrow
  subst hrow
  rintro j ⟨⟩
  exact ⟨⟨10, some "verify", []⟩, rfl, rfl⟩

/-- Before the outcome expires the check applies its rules. -/
theorem restrictedAccount_applies :
    CheckApplies sampleKyc restrictedAccount 1 (some 7) 5 6 :=
  (checkApplies_iff sampleKyc restrictedAccount 1 (some 7) 5 6 storedRules_restrictedAccount).mpr
    ⟨by decide +kernel, by decide +kernel⟩

/-- **A check does not apply the rules of the account in general**: once the outcome has expired the
default rules are applied, and the key is not found. -/
theorem not_checkApplies :
    ¬ ∀ (cfg : KycConfig) (db : KycDatabase) (h : HashCode) (merchantPub : Option MerchantPub)
      (now later : Timestamp), StoredRules cfg db → now ≤ later →
      CheckApplies cfg db h merchantPub now later := by
  intro hall
  have ha := hall sampleKyc restrictedAccount 1 (some 7) 15 15 storedRules_restrictedAccount le_rfl
  have hr := ha.rules .defaults (by decide +kernel)
  revert hr
  decide +kernel

end TalerExchange
