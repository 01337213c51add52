import TalerExchange.Kyc.Schema
import TalerExchange.Transition.Path

/-!
# The outcome in force for an account

Three procedures insert rows into `legitimization_outcomes` and deactivate the older rows of the
account. Two of them deactivate every active row, the third only those that have not expired.

* `Change`: what a procedure can do to the outcomes of an account;
* `Authoritative`: the active outcome is the one inserted last, and both readers return it;
* `OutcomeOk`: a measure result is inserted for a known account whose active outcome has not
  expired;
* **`run_authoritative`**: then there is one authoritative outcome in every state reached;
* `expiredOutcome`: a run in which an expired outcome stays active.
-/

namespace TalerExchange

open Sql Transition

/-! ## Steps -/

/-- The procedures that insert outcomes. -/
inductive OutcomeOp
  | measureResult (a : KycMeasureResult)
  | amlDecision (a : AmlDecision)
  | successorMeasure (a : SuccessorMeasure)
deriving DecidableEq, Repr

/-- The decision time of a call. -/
def OutcomeOp.decisionTime : OutcomeOp → Timestamp
  | .measureResult a => a.decisionTime
  | .amlDecision a => a.decisionTime
  | .successorMeasure a => a.decisionTime

/-- **One call**; an exception leaves the database as it was. -/
def outcomeStep (db : KycDatabase) : OutcomeOp → KycDatabase
  | .measureResult a => ((insertKycMeasureResult db a).map Prod.fst).getD db
  | .amlDecision a => ((insertAmlDecision db a).map Prod.fst).getD db
  | .successorMeasure a => ((insertSuccessorMeasure db a).map Prod.fst).getD db

/-! ## The authoritative outcome -/

/-- The outcome inserted last for an account. -/
def KycDatabase.lastOutcome (db : KycDatabase) (h : HashCode) : Option LegitimizationOutcome :=
  (db.outcomesOf h).getLast?

/-- **One authoritative outcome**: no other than the one inserted last is active, and both readers
return its rules. -/
structure Authoritative (db : KycDatabase) (h : HashCode) : Prop where
  active : db.activeOutcomes h = (db.lastOutcome h).toList
  rules : lookupRulesByAccessToken db h =
    (db.lastOutcome h).map fun r => (r.jnewRules, r.outcomeSerialId)
  jrules : (lookupKycRequirementByRow db h).jrules =
    (db.lastOutcome h).bind LegitimizationOutcome.jnewRules
  amlReview : (lookupKycRequirementByRow db h).amlReview =
    (db.lastOutcome h).map LegitimizationOutcome.toInvestigate

/-- A measure result for the account finds it in `wire_targets` and its active outcome not
expired. -/
def OutcomeOk (h : HashCode) (db : KycDatabase) : OutcomeOp → Prop
  | .measureResult a => a.hPayto = h →
      db.targetsOf h ≠ [] ∧ ∀ r ∈ db.activeOutcomes h, a.decisionTime ≤ r.expirationTime
  | _ => True

instance (h : HashCode) (db : KycDatabase) (o : OutcomeOp) : Decidable (OutcomeOk h db o) :=
  match o with
  | .measureResult a => inferInstanceAs (Decidable (a.hPayto = h →
      db.targetsOf h ≠ [] ∧ ∀ r ∈ db.activeOutcomes h, a.decisionTime ≤ r.expirationTime))
  | .amlDecision _ => .isTrue trivial
  | .successorMeasure _ => .isTrue trivial

/-! ## What a procedure does to the outcomes of an account -/

/-- The outcomes of the account stay; or all of them are deactivated and one is inserted; or they
are only deactivated, since the account is unknown. -/
inductive Change (db db' : KycDatabase) (h : HashCode) : Prop
  | kept (ho : db'.outcomesOf h = db.outcomesOf h)
      (ht : db.targetsOf h ≠ [] → db'.targetsOf h ≠ [])
  | replaced (old : List LegitimizationOutcome) (r : LegitimizationOutcome)
      (ho : db'.outcomesOf h = old ++ [r]) (hold : ∀ x ∈ old, x.isActive = false)
      (hr : r.isActive = true) (ht : db'.targetsOf h ≠ [])
  | unknown (hu : db.targetsOf h = []) (ht : db'.targetsOf h = [])
      (ho : db.outcomesOf h = [] → db'.outcomesOf h = [])

section Statements

variable {db db' : KycDatabase} {h h' : HashCode} {p : LegitimizationOutcome → Bool}

theorem mem_activeOutcomes {r : LegitimizationOutcome} :
    r ∈ db.activeOutcomes h ↔ r ∈ db.outcomesOf h ∧ r.isActive = true := by
  simp [KycDatabase.activeOutcomes]

theorem outcomesOf_deactivate :
    (db.deactivate h' p).outcomesOf h = (db.outcomesOf h).map fun r =>
      if r.hPayto = h' ∧ p r then { r with isActive := false } else r := by
  have hf := db.outcomes.filter_update (fun r => decide (r.hPayto = h' ∧ p r = true))
    (f := fun r => { r with isActive := false }) (q := fun r => decide (r.hPayto = h))
    (fun _ => rfl) (fun _ => rfl) fun _ => rfl
  refine hf.trans ?_
  simp only [decide_eq_true_eq]
  rfl

theorem hPayto_of_mem {r : LegitimizationOutcome} (hr : r ∈ db.outcomesOf h) : r.hPayto = h := by
  simpa using (List.mem_filter.mp hr).2

theorem outcomesOf_deactivate_ne (hne : h ≠ h') :
    (db.deactivate h' p).outcomesOf h = db.outcomesOf h := by
  rw [outcomesOf_deactivate]
  refine (List.map_congr_left fun r hr => ?_).trans (List.map_id _)
  rw [if_neg fun e => hne ((hPayto_of_mem hr).symm.trans e.1)]
  rfl

/-- No outcome of the account is active. -/
def NoneActive (db : KycDatabase) (h : HashCode) : Prop := ∀ r ∈ db.outcomesOf h, r.isActive = false

/-- A deactivation leaves nothing active if it covers what is. -/
theorem noneActive_deactivate (hp : ∀ r ∈ db.activeOutcomes h, p r = true) :
    NoneActive (db.deactivate h p) h := by
  intro r hr
  rw [outcomesOf_deactivate] at hr
  obtain ⟨r', hr', rfl⟩ := List.mem_map.mp hr
  split_ifs with hd
  · rfl
  · cases ha : r'.isActive with
    | false => rfl
    | true => exact absurd ⟨hPayto_of_mem hr', hp r' (mem_activeOutcomes.mpr ⟨hr', ha⟩)⟩ hd

theorem NoneActive.deactivate (hq : NoneActive db h) : NoneActive (db.deactivate h p) h := by
  refine noneActive_deactivate fun r hr => ?_
  obtain ⟨hm, ha⟩ := mem_activeOutcomes.mp hr
  rw [hq r hm] at ha
  cases ha

theorem outcomesOf_insertOutcome {mk : ℕ → LegitimizationOutcome}
    {hs : ∀ n, Record.serial (mk n) = n} {n : ℕ} (hi : db.insertOutcome mk hs = some (db', n)) :
    db'.wireTargets = db.wireTargets ∧ ∃ i, db'.outcomesOf h =
      db.outcomesOf h ++ if (mk i).hPayto = h then [mk i] else [] := by
  unfold KycDatabase.insertOutcome at hi
  rw [Option.map_eq_some_iff] at hi
  obtain ⟨t, hi, e⟩ := hi
  cases e
  refine ⟨rfl, db.outcomes.nextSerial, ?_⟩
  have hsel := Table.select_insert? hi (fun r => decide (r.hPayto = h)) id
  simpa [KycDatabase.outcomesOf] using hsel

theorem enableMeasure_frame {token row : ℕ} {t : Timestamp} {j : JsonText}
    (he : db.enableMeasure token t j = some (db', row)) :
    db'.wireTargets = db.wireTargets ∧ db'.outcomes = db.outcomes := by
  unfold KycDatabase.enableMeasure at he
  split at he
  · cases he
    exact ⟨rfl, rfl⟩
  · rw [Option.map_eq_some_iff] at he
    obtain ⟨_, -, e⟩ := he
    cases e
    exact ⟨rfl, rfl⟩

theorem prescribe_frame {token row : ℕ} {t : Timestamp} {j : Option JsonText}
    (he : db.prescribe token t j = some (db', row)) :
    db'.wireTargets = db.wireTargets ∧ db'.outcomes = db.outcomes := by
  cases j with
  | none =>
    cases he
    exact ⟨rfl, rfl⟩
  | some j => exact enableMeasure_frame he

theorem accessToken?_eq_some {token : ℕ} (he : db.accessToken? h = some token) :
    db.targetsOf h ≠ [] := by
  intro e
  simp [KycDatabase.accessToken?, e] at he

theorem accessToken?_eq_none : db.accessToken? h = none ↔ db.targetsOf h = [] := by
  simp [KycDatabase.accessToken?]

/-- The account is known afterwards, or it is reported as unknown. -/
theorem ensureTarget_spec {a : AmlDecision} {token : Option ℕ}
    (he : db.ensureTarget a = some (db', token)) :
    db'.outcomes = db.outcomes ∧ (db.targetsOf h ≠ [] → db'.targetsOf h ≠ []) ∧
      match token with
      | some _ => db'.targetsOf a.hNormalizedPayto ≠ []
      | none => db' = db ∧ db.targetsOf a.hNormalizedPayto = [] := by
  unfold KycDatabase.ensureTarget at he
  split at he
  · next ht =>
    cases he
    exact ⟨rfl, id, accessToken?_eq_some ht⟩
  · next ht =>
    split at he
    · cases he
      exact ⟨rfl, id, rfl, accessToken?_eq_none.mp ht⟩
    · rw [Option.map_eq_some_iff] at he
      obtain ⟨t, hi, e⟩ := he
      cases e
      have hrows := Table.rows_insert? hi
      refine ⟨rfl, fun hne => ?_, ?_⟩
      · simp only [KycDatabase.targetsOf, hrows, List.filter_append] at hne ⊢
        exact List.append_ne_nil_of_left_ne_nil hne _
      · simp [KycDatabase.targetsOf, hrows]

theorem outcomesOf_congr {db₂ : KycDatabase} (ho : db₂.outcomes = db.outcomes) :
    db₂.outcomesOf h = db.outcomesOf h :=
  congrArg (fun t => t.rows.filter fun r => decide (r.hPayto = h)) ho

/-- The end of each procedure: a deactivation and an insertion, after which the other outcomes are
as they were. -/
theorem Change.of_insert {db₁ : KycDatabase} {mk : ℕ → LegitimizationOutcome}
    {hs : ∀ n, Record.serial (mk n) = n} {n : ℕ} (hi : db₁.insertOutcome mk hs = some (db', n))
    (hmk : ∀ i, (mk i).hPayto = h' ∧ (mk i).isActive = true)
    (hother : h ≠ h' → db₁.outcomesOf h = db.outcomesOf h)
    (hq : h = h' → NoneActive db₁ h) (hk : h = h' → db₁.targetsOf h ≠ [])
    (ht : db.targetsOf h ≠ [] → db₁.targetsOf h ≠ []) : Change db db' h := by
  obtain ⟨hw, i, ho⟩ := outcomesOf_insertOutcome (h := h) hi
  have hT : db'.targetsOf h = db₁.targetsOf h := KycDatabase.targetsOf_congr hw
  by_cases hh : h = h'
  · rw [if_pos ((hmk i).1.trans hh.symm)] at ho
    exact .replaced _ (mk i) ho (hq hh) (hmk i).2 (hT ▸ hk hh)
  · rw [if_neg fun e => hh (e.symm.trans (hmk i).1), List.append_nil, hother hh] at ho
    exact .kept ho fun hne => hT ▸ ht hne

/-- What comes after an insertion does not touch outcomes or accounts. -/
theorem Change.congr {db₂ : KycDatabase} (hc : Change db db' h) (ho : db₂.outcomes = db'.outcomes)
    (ht : db₂.wireTargets = db'.wireTargets) : Change db db₂ h := by
  have hO : db₂.outcomesOf h = db'.outcomesOf h := outcomesOf_congr ho
  have hT : db₂.targetsOf h = db'.targetsOf h := KycDatabase.targetsOf_congr ht
  cases hc with
  | kept ho ht => exact .kept (hO.trans ho) (hT ▸ ht)
  | replaced old r ho hold hr ht => exact .replaced old r (hO.trans ho) hold hr (hT ▸ ht)
  | unknown hu ht ho => exact .unknown hu (hT.trans ht) fun e => hO.trans (ho e)

theorem insertKycMeasureResult_change {a : KycMeasureResult} {ok : Bool}
    (hi : insertKycMeasureResult db a = some (db', ok))
    (hc : a.hPayto = h →
      db.targetsOf h ≠ [] ∧ ∀ r ∈ db.activeOutcomes h, a.decisionTime ≤ r.expirationTime) :
    Change db db' h := by
  unfold insertKycMeasureResult at hi
  simp only [Option.bind_eq_bind, Option.bind_eq_some_iff] at hi
  obtain ⟨⟨db₁, n⟩, hins, hi⟩ := hi
  cases hi
  refine Change.congr (Change.of_insert hins (fun _ => ⟨rfl, rfl⟩) outcomesOf_deactivate_ne
    (fun hh => ?_) (fun hh => (hc hh.symm).1) id) rfl rfl
  subst hh
  exact noneActive_deactivate fun r hr => decide_eq_true ((hc rfl).2 r hr)

/-- The first deactivation of the procedures for decisions leaves nothing active. -/
theorem noneActive_supersede : NoneActive (db.supersede h) h := by
  unfold KycDatabase.supersede
  split_ifs with hl
  · exact noneActive_deactivate fun r hr => (mem_activeOutcomes.mp hr).2
  · have hnone : db.activeOutcomes h = [] := by
      simpa [KycDatabase.lastDecision, firstBy_eq_none] using hl
    intro r hr
    by_contra ha
    have hm := mem_activeOutcomes.mpr ⟨hr, Bool.eq_true_of_not_eq_false ha⟩
    rw [hnone] at hm
    cases hm

theorem outcomesOf_supersede_ne (hne : h ≠ h') :
    (db.supersede h').outcomesOf h = db.outcomesOf h := by
  unfold KycDatabase.supersede
  split_ifs
  · exact outcomesOf_deactivate_ne hne
  · rfl

theorem targetsOf_supersede : (db.supersede h').targetsOf h = db.targetsOf h := by
  unfold KycDatabase.supersede
  split_ifs
  · rfl
  · rfl

theorem outcomesOf_supersede_nil (hn : db.outcomesOf h = []) :
    (db.supersede h').outcomesOf h = [] := by
  unfold KycDatabase.supersede
  split_ifs
  · rw [outcomesOf_deactivate, hn, List.map_nil]
  · exact hn

theorem NoneActive.congr {db₂ : KycDatabase} (hq : NoneActive db h) (ho : db₂.outcomes = db.outcomes) :
    NoneActive db₂ h := by
  intro r hr
  rw [outcomesOf_congr ho] at hr
  exact hq r hr

theorem recordDecision_change {db₁ : KycDatabase} {a : AmlDecision} {token row : ℕ}
    (hr : db₁.recordDecision a token = some (db', row))
    (hother : h ≠ a.hNormalizedPayto → db₁.outcomesOf h = db.outcomesOf h)
    (hq : h = a.hNormalizedPayto → NoneActive db₁ h)
    (hk : h = a.hNormalizedPayto → db₁.targetsOf h ≠ [])
    (ht : db.targetsOf h ≠ [] → db₁.targetsOf h ≠ []) : Change db db' h := by
  unfold KycDatabase.recordDecision at hr
  simp only [Option.bind_eq_bind, Option.bind_eq_some_iff] at hr
  obtain ⟨⟨db₂, row₂⟩, hpre, ⟨db₃, n⟩, hins, hr⟩ := hr
  cases hr
  obtain ⟨hw, ho⟩ := prescribe_frame hpre
  have hT : db₂.targetsOf h = db₁.targetsOf h := KycDatabase.targetsOf_congr hw
  refine Change.congr (Change.of_insert hins (fun _ => ⟨rfl, rfl⟩) (fun hne => ?_) (fun hh => ?_)
    (fun hh => hT ▸ hk hh) fun hne => hT ▸ ht hne) rfl rfl
  · rw [outcomesOf_deactivate_ne hne]
    exact (outcomesOf_congr ho).trans (hother hne)
  · subst hh
    exact NoneActive.deactivate ((hq rfl).congr ho)

theorem insertAmlDecision_change {a : AmlDecision} {res : AmlDecisionResult}
    (hi : insertAmlDecision db a = some (db', res)) : Change db db' h := by
  unfold insertAmlDecision at hi
  split_ifs at hi
  · cases hi
    exact .kept rfl id
  simp only at hi
  split_ifs at hi
  · cases hi
    exact .kept rfl id
  split at hi
  · cases hi
  · next db₁ he =>
    -- the account is unknown, its outcomes have been deactivated
    obtain ⟨-, -, rfl, hu⟩ := ensureTarget_spec (h := h) he
    cases hi
    rw [targetsOf_supersede] at hu
    by_cases hh : h = a.hNormalizedPayto
    · subst hh
      exact .unknown hu (targetsOf_supersede.trans hu) outcomesOf_supersede_nil
    · exact .kept (outcomesOf_supersede_ne hh) fun hne => by rwa [targetsOf_supersede]
  · next db₁ token he =>
    rw [Option.map_eq_some_iff] at hi
    obtain ⟨⟨db₂, row⟩, hr, e⟩ := hi
    cases e
    obtain ⟨ho, ht, hk⟩ := ensureTarget_spec (h := h) he
    have hO : db₁.outcomesOf h = (db.supersede a.hNormalizedPayto).outcomesOf h :=
      outcomesOf_congr ho
    refine recordDecision_change hr (fun hne => hO.trans (outcomesOf_supersede_ne hne))
      (fun hh => ?_) (fun hh => hh ▸ hk) fun hne => ht (by rwa [targetsOf_supersede])
    subst hh
    exact noneActive_supersede.congr ho

theorem insertSuccessorMeasure_change {a : SuccessorMeasure} {res : AmlDecisionResult}
    (hi : insertSuccessorMeasure db a = some (db', res)) : Change db db' h := by
  unfold insertSuccessorMeasure at hi
  simp only at hi
  split_ifs at hi
  · cases hi
    exact .kept rfl id
  simp only [Option.bind_eq_bind, Option.bind_eq_some_iff] at hi
  obtain ⟨token, ht, j, -, ⟨db₁, row⟩, he, ⟨db₂, n⟩, hins, hi⟩ := hi
  cases hi
  obtain ⟨hw, ho⟩ := enableMeasure_frame he
  have hT : db₁.targetsOf h = db.targetsOf h := (KycDatabase.targetsOf_congr hw).trans targetsOf_supersede
  refine Change.of_insert hins (fun _ => ⟨rfl, rfl⟩) (fun hne => ?_) (fun hh => ?_)
    (fun hh => ?_) fun hne => hT ▸ hne
  · rw [outcomesOf_deactivate_ne hne]
    exact (outcomesOf_congr ho).trans (outcomesOf_supersede_ne hne)
  · subst hh
    exact NoneActive.deactivate (noneActive_supersede.congr ho)
  · subst hh
    have hk := accessToken?_eq_some ht
    rw [targetsOf_supersede] at hk
    exact hT ▸ hk

end Statements

/-! ## Runs -/

/-- **The invariant**: what is active was inserted last, and accounts with outcomes are known. -/
structure Settled (db : KycDatabase) (h : HashCode) : Prop where
  active : db.activeOutcomes h = (db.lastOutcome h).toList
  known : db.outcomesOf h ≠ [] → db.targetsOf h ≠ []

section Runs

variable {db db' : KycDatabase} {h : HashCode}

theorem Settled.change (hs : Settled db h) (hc : Change db db' h) : Settled db' h := by
  cases hc with
  | kept ho ht =>
    constructor
    · unfold KycDatabase.activeOutcomes KycDatabase.lastOutcome
      rw [ho]
      exact hs.active
    · rw [ho]
      exact fun hne => ht (hs.known hne)
  | replaced old r ho hold hr ht =>
    refine ⟨?_, fun _ => ht⟩
    have hold' : old.filter (fun x => x.isActive) = [] :=
      List.filter_eq_nil_iff.mpr fun x hx => by simp [hold x hx]
    simp [KycDatabase.activeOutcomes, KycDatabase.lastOutcome, ho, hold', hr]
  | unknown hu ht ho =>
    have hnil : db.outcomesOf h = [] := by
      by_contra hne
      exact hs.known hne hu
    constructor
    · simp [KycDatabase.activeOutcomes, KycDatabase.lastOutcome, ho hnil]
    · exact fun hne => absurd (ho hnil) hne

/-- **One call keeps the invariant.** -/
theorem outcomeStep_settled (db : KycDatabase) (o : OutcomeOp) (ho : OutcomeOk h db o)
    (hs : Settled db h) : Settled (outcomeStep db o) h := by
  cases o with
  | measureResult a =>
    simp only [outcomeStep]
    cases hi : insertKycMeasureResult db a with
    | none => exact hs
    | some x => exact hs.change (insertKycMeasureResult_change hi ho)
  | amlDecision a =>
    simp only [outcomeStep]
    cases hi : insertAmlDecision db a with
    | none => exact hs
    | some x => exact hs.change (insertAmlDecision_change hi)
  | successorMeasure a =>
    simp only [outcomeStep]
    cases hi : insertSuccessorMeasure db a with
    | none => exact hs
    | some x => exact hs.change (insertSuccessorMeasure_change hi)

/-- The readers return the active outcome of a settled account. -/
theorem Settled.authoritative (hs : Settled db h) : Authoritative db h := by
  have hlo : (db.activeOutcomes h).head? = db.lastOutcome h := by
    rw [hs.active]
    cases db.lastOutcome h <;> rfl
  have hreq : db.lastOutcome h ≠ none → ∃ wt, (db.targetsOf h).head? = some wt := by
    intro hne
    have hne' : db.outcomesOf h ≠ [] := fun e => hne (by simp [KycDatabase.lastOutcome, e])
    obtain ⟨wt, l, hl⟩ := List.exists_cons_of_ne_nil (hs.known hne')
    exact ⟨wt, by rw [hl, List.head?_cons]⟩
  refine ⟨hs.active, ?_, ?_, ?_⟩
  · unfold lookupRulesByAccessToken
    rw [hs.active]
    cases db.lastOutcome h <;> rfl
  · unfold lookupKycRequirementByRow
    cases hl : db.lastOutcome h with
    | none => split <;> simp [hlo, hl]
    | some r =>
      obtain ⟨wt, hwt⟩ := hreq (by simp [hl])
      simp [hwt, hlo, hl]
  · unfold lookupKycRequirementByRow
    cases hl : db.lastOutcome h with
    | none => split <;> simp [hlo, hl]
    | some r =>
      obtain ⟨wt, hwt⟩ := hreq (by simp [hl])
      simp [hwt, hlo, hl]

end Runs

/-- **There is one authoritative outcome for an account** in every state that is reached from a
database without outcomes, if measure results are inserted for known accounts whose active outcome
has not expired. -/
theorem run_authoritative (h : HashCode) (db : KycDatabase) (hdb : db.outcomes = Table.empty)
    (ops : List OutcomeOp) (ha : Admits outcomeStep (OutcomeOk h) db ops) :
    Authoritative (run outcomeStep db ops) h := by
  have hnil : db.outcomesOf h = [] := by simp [KycDatabase.outcomesOf, hdb]
  have hs : Settled db h := by
    refine ⟨?_, fun hne => absurd hnil hne⟩
    simp [KycDatabase.activeOutcomes, KycDatabase.lastOutcome, hnil]
  exact (run_invariant outcomeStep_settled ha hs).authoritative

/-! ## An outcome that expires -/

/-- A database with one account and one officer. -/
def kycSample : KycDatabase :=
  { wireTargets := ⟨[⟨1, 10, some 1, "payto", 100, none, none⟩], rfl, by decide⟩
    amlStaff := ⟨[⟨1, 50, true, false⟩], rfl, by decide⟩ }

/-- An officer restricts the account until time `20`. -/
def restriction : OutcomeOp :=
  .amlDecision ⟨none, 1, 10, 10, 20, none, some "restricted", false, none, none, "", 50, 0, 0⟩

/-- An AML program relaxes the rules at time `t`. -/
def relaxation (t : Timestamp) : OutcomeOp :=
  .measureResult ⟨none, 1, t, t + 5, none, some "relaxed", [], false⟩

theorem relaxation_authoritative :
    Authoritative (run outcomeStep kycSample [restriction, relaxation 15]) 1 :=
  run_authoritative 1 kycSample rfl [restriction, relaxation 15] (by decide +kernel)

/-- The program runs after the restriction has expired: its row stays active. -/
def expiredOutcome : List OutcomeOp := [restriction, relaxation 30]

/-- **There can be two active outcomes for an account**, with decision times in order. -/
theorem not_authoritative :
    ¬ ∀ (db : KycDatabase) (ops : List OutcomeOp), db.outcomes.rows = [] →
      (ops.map OutcomeOp.decisionTime).Pairwise (· ≤ ·) →
      ∀ h, Authoritative (run outcomeStep db ops) h := by
  intro hall
  have ha := (hall kycSample expiredOutcome rfl (by decide) 1).active
  have hlen := congrArg List.length ha
  revert hlen
  decide +kernel

end TalerExchange
