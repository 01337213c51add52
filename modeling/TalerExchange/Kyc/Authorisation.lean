import TalerExchange.Kyc.Measures

/-!
# Who may act for an account

A merchant's key is authorised for an account if it was registered for it or is that of a reserve that
the account has funded. The legitimization check decides this by one joined row, the procedure that
stores the measures by the first row of the account and all its transfers.

* `checkAuthorises`: the decision of the check;
* `Authorised`: what both are to decide;
* `AuthorisationSeen`: the rows that are looked at show that the key is authorised;
* **`checkAuthorises_iff`**, **`triggerKycRuleForAccount_bad`**: what each of them decides;
* **`authorisationAgrees_iff`**: when both decide what they are to decide.
-/

namespace TalerExchange

open Sql

/-- `legitimization_check_run` does not find that the merchant's key is neither the key nor the reserve
in the row from `TEH_PG_get_kyc_rules`. -/
def checkAuthorises (db : KycDatabase) (h : HashCode) (p : MerchantPub) (now : Timestamp) : Bool :=
  !(getKycRules db h now).mismatch (some p)

/-- **The key is authorised for the account**: it is registered for it, or that of a reserve the account
has funded. -/
def KycDatabase.Authorised (db : KycDatabase) (h : HashCode) (p : MerchantPub) : Prop :=
  (∃ wt ∈ db.targetsOf h, wt.targetPub = some p) ∨ db.FundedBy h p

/-- **Both decide alike, and right**, a procedure that raises an exception decides nothing. -/
structure AuthorisationAgrees (db : KycDatabase) (a : TriggerKycRule) (p : MerchantPub)
    (now : Timestamp) : Prop where
  check : checkAuthorises db a.hNormalizedPayto p now = true ↔ db.Authorised a.hNormalizedPayto p
  trigger : ∀ x ∈ triggerKycRuleForAccount db a,
    x.2.badKycAuth = false ↔ db.Authorised a.hNormalizedPayto p

/-- The row that the check looks at has the key: there is no outcome or one in force, and the row of the
account without a transfer, else the one with the latest, has the key or its reserve. -/
structure SeenByCheck (db : KycDatabase) (h : HashCode) (p : MerchantPub) (now : Timestamp) :
    Prop where
  outcome : db.outcomesOf h = [] ∨ db.currentOutcome h now ≠ none
  latest : ∃ x ∈ firstBy recentFirst (db.targetRows h),
    x.1.targetPub = some p ∨ ∃ ri ∈ x.2, ri.reservePub = p

/-- The first row of the account has the key, or the account has funded the reserve. -/
def SeenByTrigger (db : KycDatabase) (h : HashCode) (p : MerchantPub) : Prop :=
  (∃ wt ∈ (db.targetsOf h).head?, wt.targetPub = some p) ∨ db.FundedBy h p

/-- The rows that are looked at have the key. -/
structure AuthorisationSeen (db : KycDatabase) (h : HashCode) (p : MerchantPub) (now : Timestamp) :
    Prop where
  check : SeenByCheck db h p now
  trigger : SeenByTrigger db h p

/-- `FOREIGN KEY (wire_source_h_payto) REFERENCES wire_targets`. -/
def KycDatabase.SourcesKnown (db : KycDatabase) : Prop :=
  ∀ ri ∈ db.reservesIn.rows, ∃ wt ∈ db.wireTargets.rows, wt.wireTargetHPayto = ri.wireSourceHPayto

/-! ## The check -/

section Decisions

variable {db db' : KycDatabase} {h : HashCode} {p : MerchantPub} {now : Timestamp}
  {a : TriggerKycRule}

theorem mismatch_eq_false {r : KycRulesRow} : r.mismatch (some p) = false ↔
    r.accountPub = some p ∨ r.reservePub = some p := by
  unfold KycRulesRow.mismatch
  rw [Option.any_some, decide_eq_false_iff_not]
  tauto

/-- **What the check decides.** -/
theorem checkAuthorises_iff : checkAuthorises db h p now = true ↔ SeenByCheck db h p now := by
  unfold checkAuthorises
  rw [Bool.not_eq_true', mismatch_eq_false, getKycRules_eq]
  cases hx : firstBy recentFirst (db.targetRows h) with
  | none =>
    constructor
    · rintro (e | e) <;> cases e
    · rintro ⟨-, x, he, -⟩
      rw [hx] at he
      cases he
  | some x =>
    obtain ⟨wt, ri⟩ := x
    simp only
    split_ifs with hc
    · constructor
      · rintro (e | e) <;> cases e
      · rintro ⟨ho | ho, -⟩
        · exact absurd ho hc.1
        · exact absurd hc.2 ho
    · have ho : db.outcomesOf h = [] ∨ db.currentOutcome h now ≠ none := by tauto
      constructor
      · intro hk
        refine ⟨ho, (wt, ri), hx, hk.imp id fun hr => ?_⟩
        obtain ⟨r, hr, he⟩ := Option.map_eq_some_iff.mp hr
        exact ⟨r, hr, he⟩
      · rintro ⟨-, y, hy, hk⟩
        rw [hx, Option.mem_some_iff] at hy
        subst hy
        refine hk.imp id ?_
        rintro ⟨r, hr, he⟩
        exact Option.map_eq_some_iff.mpr ⟨r, hr, he⟩

/-- A joined row is a row of the account, and a transfer from it. -/
theorem mem_targetRows {x : KycTarget × Option ReserveIn} (hx : x ∈ db.targetRows h) :
    x.1 ∈ db.targetsOf h ∧ ∀ ri ∈ x.2, ri ∈ db.reservesIn.rows ∧
      x.1.wireTargetHPayto = ri.wireSourceHPayto := by
  unfold KycDatabase.targetRows at hx
  obtain ⟨wt, hwt, hx⟩ := List.mem_flatMap.mp hx
  obtain ⟨r, hr, rfl⟩ := List.mem_map.mp hx
  refine ⟨hwt, fun ri hri => ?_⟩
  obtain rfl : r = some ri := hri
  unfold leftJoin at hr
  split at hr
  · simp at hr
  · obtain ⟨ri', hri', e⟩ := List.mem_map.mp hr
    cases e
    obtain ⟨hm, he⟩ := List.mem_filter.mp hri'
    exact ⟨hm, (of_decide_eq_true he).symm⟩

/-- The check authorises nobody else. -/
theorem SeenByCheck.authorised (hs : SeenByCheck db h p now) : db.Authorised h p := by
  obtain ⟨x, hx, hk⟩ := hs.latest
  obtain ⟨hwt, hri⟩ := mem_targetRows (firstBy_mem hx)
  rcases hk with hk | ⟨ri, hr, he⟩
  · exact .inl ⟨x.1, hwt, hk⟩
  · exact .inr ⟨ri, (hri ri hr).1, he, x.1, hwt, (hri ri hr).2⟩

theorem SeenByTrigger.authorised (hs : SeenByTrigger db h p) : db.Authorised h p :=
  hs.imp (fun ⟨wt, hwt, hk⟩ => ⟨wt, List.mem_of_head? hwt, hk⟩) id

/-! ## The procedure -/

theorem acceptsReserve_iff (hp : a.merchantPub = some p) :
    db.acceptsReserve a = true ↔ db.FundedBy a.hNormalizedPayto p := by
  unfold KycDatabase.acceptsReserve
  rw [List.any_eq_true]
  constructor
  · rintro ⟨ri, hri, he⟩
    obtain ⟨hm, hs⟩ := mem_transfersFrom_target.mp hri
    rw [hp, sqlEq_some, Option.some.injEq] at he
    exact ⟨ri, hm, he, hs⟩
  · rintro ⟨ri, hm, he, hs⟩
    refine ⟨ri, mem_transfersFrom_target.mpr ⟨hm, hs⟩, ?_⟩
    rw [hp, sqlEq_some, he]

/-- The measures are always stored. -/
theorem exists_triggerMeasure (db : KycDatabase) (token : ℕ) (a : TriggerKycRule) :
    ∃ x, db.triggerMeasure token a = some x := by
  unfold KycDatabase.triggerMeasure
  split
  · exact ⟨_, rfl⟩
  · obtain ⟨m, hm⟩ := Table.exists_insert?_of_serial (fun _ => rfl) db.measures
      (fun i => (⟨i, token, a.now, a.jmeasures, a.displayPriority, false⟩ :
        LegitimizationMeasure)) fun _ => rfl
    rw [hm]
    exact ⟨_, rfl⟩

/-- The procedure does not fail for a known account, and decides by its first row. -/
theorem triggerKycRuleForAccount_known {wt : KycTarget}
    (hwt : (db.targetsOf a.hNormalizedPayto).head? = some wt) :
    ∃ x, triggerKycRuleForAccount db a = some x ∧
      x.2.badKycAuth = (!sqlEq wt.targetPub a.merchantPub && !db.acceptsReserve a) := by
  have ht : db.kycAuthTarget a = some (db, wt.accessToken, !sqlEq wt.targetPub a.merchantPub) := by
    unfold KycDatabase.kycAuthTarget
    rw [hwt]
  obtain ⟨⟨db₂, row⟩, hm⟩ := exists_triggerMeasure db wt.accessToken a
  unfold triggerKycRuleForAccount
  simp only [ht, hm, Option.bind_eq_bind, Option.bind_some]
  exact ⟨_, rfl, rfl⟩

/-- For an unknown account a new row is inserted, which no transfer comes from. -/
theorem triggerKycRuleForAccount_unknown (hk : db.SourcesKnown)
    (hn : db.targetsOf a.hNormalizedPayto = []) (hp : a.merchantPub = some p)
    {x : KycDatabase × TriggerResult} (hx : triggerKycRuleForAccount db a = some x) :
    x.2.badKycAuth = true := by
  unfold triggerKycRuleForAccount at hx
  simp only [Option.bind_eq_bind, Option.bind_eq_some_iff] at hx
  obtain ⟨⟨db₁, token, bad⟩, he, ⟨db₂, row⟩, -, hx⟩ := hx
  cases hx
  unfold KycDatabase.kycAuthTarget at he
  simp only [hn, List.head?_nil] at he
  obtain ⟨uri, -, he⟩ := Option.bind_eq_some_iff.mp he
  obtain ⟨w, hi, he⟩ := Option.map_eq_some_iff.mp he
  cases he
  obtain ⟨hfresh, hrows⟩ := Table.insert?_eq_some.mp hi
  have hno : ¬ KycDatabase.FundedBy { db with wireTargets := w } a.hNormalizedPayto p := by
    rintro ⟨ri, hri, -, wt, hwt, hsrc⟩
    obtain ⟨wt₀, hwt₀, hsrc₀⟩ := hk ri hri
    obtain ⟨hm, hh⟩ := mem_targetsOf.mp hwt
    simp only [hrows] at hm
    rcases List.mem_append.mp hm with hm | hm
    · exact List.ne_nil_of_mem (mem_targetsOf.mpr ⟨hm, hh⟩) hn
    · rw [List.mem_singleton] at hm
      subst hm
      exact Table.hasKey_eq_false.mp hfresh wt₀ hwt₀ (hsrc₀.trans hsrc.symm)
  have hacc := mt (acceptsReserve_iff hp).mp hno
  rw [Bool.not_eq_true] at hacc
  simp only [hacc]
  rfl

/-- **What the procedure decides** for a known account. -/
theorem triggerKycRuleForAccount_bad {wt : KycTarget} (hp : a.merchantPub = some p)
    (hwt : (db.targetsOf a.hNormalizedPayto).head? = some wt) :
    ∃ x, triggerKycRuleForAccount db a = some x ∧
      (x.2.badKycAuth = false ↔ SeenByTrigger db a.hNormalizedPayto p) := by
  obtain ⟨x, hx, hb⟩ := triggerKycRuleForAccount_known hwt
  refine ⟨x, hx, ?_⟩
  unfold SeenByTrigger
  rw [hb, Bool.and_eq_false_iff, Bool.not_eq_false', Bool.not_eq_false', acceptsReserve_iff hp, hp,
    sqlEq_some, hwt]
  simp

theorem not_authorised_of_unknown (hn : db.targetsOf h = []) : ¬ db.Authorised h p := by
  rintro (⟨wt, hwt, -⟩ | hf)
  · rw [hn] at hwt
    cases hwt
  · exact hf.targetsOf_ne_nil hn

end Decisions

/-- **Both decide alike, and right, if and only if** the key is not authorised or the rows that they look
at show it. -/
theorem authorisationAgrees_iff (db : KycDatabase) (hk : db.SourcesKnown) (a : TriggerKycRule)
    (p : MerchantPub) (hp : a.merchantPub = some p) (now : Timestamp) :
    AuthorisationAgrees db a p now ↔
      (db.Authorised a.hNormalizedPayto p → AuthorisationSeen db a.hNormalizedPayto p now) := by
  cases hwt : (db.targetsOf a.hNormalizedPayto).head? with
  | none =>
    have hn := List.head?_eq_none_iff.mp hwt
    have hno : ¬ db.Authorised a.hNormalizedPayto p := not_authorised_of_unknown hn
    refine ⟨fun _ h => absurd h hno, fun _ => ⟨?_, fun x hx => ?_⟩⟩
    · rw [checkAuthorises_iff]
      exact ⟨fun hs => hs.authorised, fun h => absurd h hno⟩
    · rw [triggerKycRuleForAccount_unknown hk hn hp hx]
      exact ⟨fun e => (nomatch e), fun h => absurd h hno⟩
  | some wt =>
    obtain ⟨x, hx, hb⟩ := triggerKycRuleForAccount_bad hp hwt
    constructor
    · intro hagree h
      exact ⟨checkAuthorises_iff.mp (hagree.check.mpr h), hb.mp ((hagree.trigger x hx).mpr h)⟩
    · intro hseen
      refine ⟨?_, fun y hy => ?_⟩
      · rw [checkAuthorises_iff]
        exact ⟨fun hs => hs.authorised, fun h => (hseen h).check⟩
      · rw [hx, Option.mem_some_iff] at hy
        subst hy
        rw [hb]
        exact ⟨fun hs => SeenByTrigger.authorised hs, fun h => (hseen h).trigger⟩

/-- An account under two names, of which the second has a registered key and the first has made a
transfer. -/
def secondName : KycDatabase :=
  { wireTargets := .ofRows [⟨1, 10, some 1, "payto", 100, none, none⟩,
      ⟨2, 20, some 1, "payto", 200, some 9, none⟩]
    reservesIn := .ofRows [⟨1, 7, 1, .whole 5, 10, "exchange", 3⟩] }

/-- A rule is triggered for the account of a merchant with key `p`. -/
def triggeredBy (p : MerchantPub) : TriggerKycRule :=
  ⟨1, none, some p, none, 10, 5, "measures", 1, 300⟩

theorem sourcesKnown_secondName : secondName.SourcesKnown := by
  unfold KycDatabase.SourcesKnown
  decide

/-- The first name has the registered key, and the second has made the transfer. -/
def firstName : KycDatabase :=
  { wireTargets := .ofRows [⟨1, 10, some 1, "payto", 100, some 9, none⟩,
      ⟨2, 20, some 1, "payto", 200, none, none⟩]
    reservesIn := .ofRows [⟨1, 7, 1, .whole 5, 20, "exchange", 3⟩] }

theorem sourcesKnown_firstName : firstName.SourcesKnown := by
  unfold KycDatabase.SourcesKnown
  decide

theorem authorised_firstName : firstName.Authorised (triggeredBy 9).hNormalizedPayto 9 :=
  .inl ⟨⟨1, 10, some 1, "payto", 100, some 9, none⟩, by decide, rfl⟩

/-- A key that has nothing to do with the account is refused by both, and the registered key of the
first name is accepted by both. -/
theorem secondName_agrees : AuthorisationAgrees secondName (triggeredBy 8) 8 5 ∧
    firstName.Authorised (triggeredBy 9).hNormalizedPayto 9 ∧
    AuthorisationAgrees firstName (triggeredBy 9) 9 5 := by
  refine ⟨?_, authorised_firstName, ?_⟩
  · refine (authorisationAgrees_iff secondName sourcesKnown_secondName (triggeredBy 8) 8 rfl 5).mpr
      fun h => absurd h ?_
    unfold KycDatabase.Authorised
    decide
  · refine (authorisationAgrees_iff firstName sourcesKnown_firstName (triggeredBy 9) 9 rfl 5).mpr
      fun _ => ⟨⟨.inl rfl, ?_⟩, .inl ?_⟩
    · exact ⟨(⟨1, 10, some 1, "payto", 100, some 9, none⟩, none), rfl, .inl rfl⟩
    · exact ⟨⟨1, 10, some 1, "payto", 100, some 9, none⟩, rfl, rfl⟩

/-- **Both do not decide alike in general**: the check finds the registered key with the row that has no
transfer, the procedure looks at the other row. -/
theorem not_authorisationAgrees : ¬ ∀ (db : KycDatabase) (a : TriggerKycRule) (p : MerchantPub)
    (now : Timestamp), db.SourcesKnown → a.merchantPub = some p →
      AuthorisationAgrees db a p now := by
  intro hall
  have hagree := hall secondName (triggeredBy 9) 9 5 sourcesKnown_secondName rfl
  have hauth : secondName.Authorised (triggeredBy 9).hNormalizedPayto 9 :=
    .inl ⟨⟨2, 20, some 1, "payto", 200, some 9, none⟩, by decide, rfl⟩
  have hbad := (hagree.trigger _ rfl).mpr hauth
  revert hbad
  decide

end TalerExchange
