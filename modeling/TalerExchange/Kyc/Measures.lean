import TalerExchange.Kyc.Funding
import TalerExchange.Kyc.Outcome

/-!
# Pending measures

What the owner of an account has to do is a row of `legitimization_measures`, with one of the access
tokens of the account. Five procedures insert, finish or reuse such rows. Four of them look the access
token of the account up, one is given it.

* `triggerKycRuleForAccount`, `insertActiveLegitimizationMeasure`: the procedures that are not in
  `Kyc.Schema`;
* `measureStep`: one call, undone where it breaks a constraint;
* `OnePending`: an account has at most one unfinished measure, and that is when KYC is required;
* `MeasureOk`: a token that is given is the one that a look-up finds;
* `MeasureChange`: what a call can do to the unfinished measures;
* **`onePending_iff`**: the property holds throughout a run if and only if all calls are so.
-/

namespace TalerExchange

open Sql Transition

/-! ## The procedures -/

/-- The arguments of `exchange_do_trigger_kyc_rule_for_account`; `token` is the access token that a new
row of `wire_targets` gets. -/
structure TriggerKycRule where
  hNormalizedPayto : HashCode
  accountPub : Option MerchantPub
  merchantPub : Option MerchantPub
  paytoUri : Option String
  hFullPayto : HashCode
  now : Timestamp
  jmeasures : JsonText
  displayPriority : ℤ
  token : ℕ
deriving DecidableEq, Repr

/-- The first part of `exchange_do_trigger_kyc_rule_for_account`: the access token of the account, which
may be new, and whether the merchant's key does not match. -/
def KycDatabase.kycAuthTarget (db : KycDatabase) (a : TriggerKycRule) :
    Option (KycDatabase × ℕ × Bool) :=
  match (db.targetsOf a.hNormalizedPayto).head? with
  | some wt => some (db, wt.accessToken, !sqlEq wt.targetPub a.merchantPub)
  | none =>
    a.paytoUri.bind fun uri =>
      (db.wireTargets.insert? fun i =>
        ⟨i, a.hFullPayto, some a.hNormalizedPayto, uri, a.token, a.accountPub, none⟩).map fun t =>
          ({ db with wireTargets := t }, a.token, true)

/-- The reserves that received a transfer from the account may also be used for authentication. -/
def KycDatabase.acceptsReserve (db : KycDatabase) (a : TriggerKycRule) : Bool :=
  (db.transfersFrom a.hNormalizedPayto "wire_target_h_payto" []).any fun ri =>
    sqlEq (some ri.reservePub) a.merchantPub

/-- An unfinished measure with the same text. -/
def LegitimizationMeasure.same (token : ℕ) (jmeasures : JsonText) (r : LegitimizationMeasure) :
    Bool :=
  r.accessToken = token ∧ r.jmeasures = jmeasures ∧ r.isFinished = false

/-- The last part of `exchange_do_trigger_kyc_rule_for_account`: the priority of a measure with the same
text is raised, or a measure is inserted and all others are finished. -/
def KycDatabase.triggerMeasure (db : KycDatabase) (token : ℕ) (a : TriggerKycRule) :
    Option (KycDatabase × ℕ) :=
  match db.measures.rows.find? (LegitimizationMeasure.same token a.jmeasures) with
  | some r =>
    let measures := db.measures.update (LegitimizationMeasure.same token a.jmeasures) fun r =>
      { r with displayPriority := max a.displayPriority r.displayPriority }
    some ({ db with measures := measures }, r.legitimizationMeasureSerialId)
  | none =>
    (db.measures.insert? fun i => ⟨i, token, a.now, a.jmeasures, a.displayPriority, false⟩).map
      fun t => (KycDatabase.finishOtherMeasures { db with measures := t } token
        db.measures.nextSerial, db.measures.nextSerial)

/-- The results of `exchange_do_trigger_kyc_rule_for_account`. -/
structure TriggerResult where
  legitimizationMeasureSerialId : ℕ
  badKycAuth : Bool
deriving DecidableEq, Repr

/-- `exchange_do_trigger_kyc_rule_for_account`. -/
def triggerKycRuleForAccount (db : KycDatabase) (a : TriggerKycRule) :
    Option (KycDatabase × TriggerResult) := do
  let (db, token, bad) ← db.kycAuthTarget a
  let bad := bad && !db.acceptsReserve a
  let (db, row) ← db.triggerMeasure token a
  return (db, ⟨row, bad⟩)

theorem LegitimizationMeasure.key_finished (r : LegitimizationMeasure) :
    Record.key { r with isFinished := true } = Record.key r := rfl

theorem LegitimizationMeasure.serial_finished (r : LegitimizationMeasure) :
    Record.serial { r with isFinished := true } = Record.serial r := rfl

theorem LegitimizationMeasure.serial_new (token : ℕ) (start : Timestamp) (jmeasures : JsonText) (i : ℕ) :
    Record.serial (⟨i, token, start, jmeasures, 1, false⟩ : LegitimizationMeasure) = i := rfl

/-- `exchange_do_insert_active_legitimization_measure`. -/
def insertActiveLegitimizationMeasure (db : KycDatabase) (token : ℕ) (start : Timestamp)
    (jmeasures : JsonText) : Option (KycDatabase × ℕ) :=
  let measures := db.measures.update (fun r => r.accessToken = token ∧ r.isFinished = false)
    (fun r => { r with isFinished := true }) LegitimizationMeasure.key_finished
    LegitimizationMeasure.serial_finished
  (measures.insert? (fun i => ⟨i, token, start, jmeasures, 1, false⟩)
    (LegitimizationMeasure.serial_new token start jmeasures)).map fun t =>
    ({ db with measures := t }, measures.nextSerial)

/-- `INSERT INTO wire_targets … ON CONFLICT DO NOTHING`. -/
def insertWireTarget (db : KycDatabase) (hFullPayto : HashCode) (hNormalizedPayto : Option HashCode)
    (uri : String) (token : ℕ) : KycDatabase :=
  ((db.wireTargets.insert? fun i => ⟨i, hFullPayto, hNormalizedPayto, uri, token, none, none⟩).map
    fun t => { db with wireTargets := t }).getD db

/-! ## Runs -/

/-- The calls. -/
inductive MeasureOp
  | trigger (a : TriggerKycRule)
  | amlDecision (a : AmlDecision)
  | successorMeasure (a : SuccessorMeasure)
  | activeMeasure (token : ℕ) (start : Timestamp) (jmeasures : JsonText)
  | measureResult (a : KycMeasureResult)
  | wireTarget (hFullPayto : HashCode) (hNormalizedPayto : Option HashCode) (uri : String)
      (token : ℕ)
deriving DecidableEq, Repr

/-- What a call does, `none` for an exception. -/
def MeasureOp.exec (db : KycDatabase) : MeasureOp → Option KycDatabase
  | .trigger a => (triggerKycRuleForAccount db a).map Prod.fst
  | .amlDecision a => (insertAmlDecision db a).map Prod.fst
  | .successorMeasure a => (insertSuccessorMeasure db a).map Prod.fst
  | .activeMeasure token start j => (insertActiveLegitimizationMeasure db token start j).map Prod.fst
  | .measureResult a => (insertKycMeasureResult db a).map Prod.fst
  | .wireTarget hFull hNorm uri token => some (insertWireTarget db hFull hNorm uri token)

/-- The access tokens. -/
def KycDatabase.tokens (db : KycDatabase) : List ℕ := db.wireTargets.rows.map KycTarget.accessToken

/-- `UNIQUE (access_token)`, and the reference of measures to it. -/
structure KycDatabase.TokensOk (db : KycDatabase) : Prop where
  unique : db.tokens.Nodup
  foreign : ∀ r ∈ db.measures.rows, r.accessToken ∈ db.tokens

instance (db : KycDatabase) : Decidable db.TokensOk :=
  decidable_of_iff (db.tokens.Nodup ∧ ∀ r ∈ db.measures.rows, r.accessToken ∈ db.tokens)
    ⟨fun h => ⟨h.1, h.2⟩, fun h => ⟨h.unique, h.foreign⟩⟩

/-- **One call**; an exception leaves the database as it was, also one for a broken constraint. -/
def measureStep (db : KycDatabase) (o : MeasureOp) : KycDatabase :=
  match o.exec db with
  | none => db
  | some db' => if db'.TokensOk then db' else db

/-- The unfinished measures of an account, with any of its access tokens. -/
def KycDatabase.pendingMeasures (db : KycDatabase) (h : HashCode) : List LegitimizationMeasure :=
  db.measures.rows.filter fun r =>
    r.isFinished = false ∧ ∃ wt ∈ db.targetsOf h, wt.accessToken = r.accessToken

/-- **At most one pending measure**: every account has at most one unfinished measure, and KYC is
reported as required when it has one. -/
structure OnePending (db : KycDatabase) : Prop where
  once : ∀ h, ∀ r ∈ db.pendingMeasures h, ∀ r' ∈ db.pendingMeasures h, r = r'
  required : ∀ h, (lookupKycRequirementByRow db h).kycRequired = true ↔ db.pendingMeasures h ≠ []

/-- A look-up of the account with this access token finds this token, not that of another row. -/
def KycDatabase.FirstToken (db : KycDatabase) (token : ℕ) : Prop :=
  ∀ wt ∈ db.wireTargets.rows, wt.accessToken = token →
    ∀ h ∈ wt.hNormalizedPayto, db.accessToken? h = some token

/-- A token that is given is the one that a look-up finds. -/
def MeasureOk (db : KycDatabase) : MeasureOp → Prop
  | .activeMeasure token _ _ => db.FirstToken token
  | _ => True

/-! ## Unfinished measures -/

/-- The measure in row `n` is unfinished, and has this token. -/
def KycDatabase.Pending (db : KycDatabase) (token n : ℕ) : Prop :=
  ∃ r ∈ db.measures.rows,
    r.legitimizationMeasureSerialId = n ∧ r.accessToken = token ∧ r.isFinished = false

section Pending

variable {db db' : KycDatabase} {t t' n row : ℕ}

theorem pending_congr (hm : db'.measures = db.measures) : db'.Pending t n ↔ db.Pending t n := by
  unfold KycDatabase.Pending
  rw [hm]

theorem pending_insert {m : Table LegitimizationMeasure} {mk : ℕ → LegitimizationMeasure}
    {hs : ∀ n, Record.serial (mk n) = n} (hi : db.measures.insert? mk hs = some m)
    (hmk : ∀ n, (mk n).accessToken = t') (h : KycDatabase.Pending { db with measures := m } t n) :
    db.Pending t n ∨ (t = t' ∧ n = db.measures.nextSerial) := by
  obtain ⟨r, hr, hn, ht, hf⟩ := h
  rcases (Table.mem_insert? hi).mp hr with hr | rfl
  · exact .inl ⟨r, hr, hn, ht, hf⟩
  · exact .inr ⟨ht.symm.trans (hmk _), hn.symm.trans (hs _)⟩

/-- After the others were finished only one row is left for the token. -/
theorem pending_finishOther (h : (db.finishOtherMeasures t' row).Pending t n) :
    db.Pending t n ∧ (t = t' → n = row) := by
  obtain ⟨r, hr, hn, ht, hf⟩ := h
  obtain ⟨r₀, hr₀, he⟩ := List.mem_map.mp hr
  split_ifs at he with hc
  · rw [← he] at hf
    cases hf
  · subst he
    refine ⟨⟨r₀, hr₀, hn, ht, hf⟩, fun e => ?_⟩
    by_contra hne
    exact hc (decide_eq_true ⟨ht.trans e, hf, fun e' => hne (hn.symm.trans e')⟩)

/-- **What a call can do to the unfinished measures**: nothing but finish some; or one is left for a
token, which is one that a look-up finds. -/
inductive MeasureChange (db db' : KycDatabase) : Prop
  | fewer (h : ∀ t n, db'.Pending t n → db.Pending t n)
  | touched (t : ℕ) (others : ∀ t', t' ≠ t → ∀ n, db'.Pending t' n → db.Pending t' n)
      (once : ∀ n n', db'.Pending t n → db'.Pending t n' → n = n')
      (first : db'.tokens.Nodup → db'.FirstToken t)

/-- The token of the first row of an account, if no two rows share one. -/
theorem firstToken_of_accessToken {h : HashCode} (ht : db.accessToken? h = some t)
    (hu : db.tokens.Nodup) : db.FirstToken t := by
  intro wt hwt he h' hh'
  obtain ⟨wt₀, h₀, ht₀⟩ := Option.map_eq_some_iff.mp ht
  obtain ⟨hm₀, hh₀⟩ := mem_targetsOf.mp (List.mem_of_head? h₀)
  have hsame : wt₀ = wt := List.inj_on_of_nodup_map hu hm₀ hwt (ht₀.trans he.symm)
  subst hsame
  rw [Option.mem_def, hh₀, Option.some.injEq] at hh'
  exact hh' ▸ ht

theorem accessToken?_congr {h : HashCode} (hw : db'.wireTargets = db.wireTargets) :
    db'.accessToken? h = db.accessToken? h := by
  unfold KycDatabase.accessToken?
  rw [KycDatabase.targetsOf_congr hw]

/-- A measure is left for the token of an account, all others are finished. -/
theorem MeasureChange.of_finishOther {db₁ db₂ : KycDatabase} {h : HashCode}
    (ht : db₁.accessToken? h = some t)
    (hothers : ∀ t', t' ≠ t → ∀ n, db₁.Pending t' n → db.Pending t' n)
    (hm : db₂.measures = (db₁.finishOtherMeasures t row).measures)
    (hw : db₂.wireTargets = db₁.wireTargets) : MeasureChange db db₂ := by
  refine .touched t (fun t' hne n hp => ?_) (fun n n' hp hp' => ?_) fun hu => ?_
  · exact hothers t' hne n (pending_finishOther ((pending_congr hm).mp hp)).1
  · rw [(pending_finishOther ((pending_congr hm).mp hp)).2 rfl,
      (pending_finishOther ((pending_congr hm).mp hp')).2 rfl]
  · exact firstToken_of_accessToken ((accessToken?_congr hw).trans ht) hu

end Pending

/-! ## One call -/

/-- Rows are only added to `wire_targets`. -/
def KycDatabase.Grows (db db' : KycDatabase) : Prop :=
  db.wireTargets.rows <+: db'.wireTargets.rows

section Calls

variable {db db' db₁ : KycDatabase} {h : HashCode} {t token row : ℕ}

theorem grows_of_eq (hw : db'.wireTargets = db.wireTargets) : db.Grows db' :=
  ⟨[], by rw [hw, List.append_nil]⟩

theorem KycDatabase.Grows.trans {db₂ : KycDatabase} (h₁ : db.Grows db₁) (h₂ : db₁.Grows db₂) :
    db.Grows db₂ :=
  List.IsPrefix.trans h₁ h₂

/-- A new row for an unknown account: its token is the one of the account. -/
theorem newTarget {w : Table KycTarget} {mk : ℕ → KycTarget} {hs : ∀ n, Record.serial (mk n) = n}
    (hn : db.targetsOf h = []) (hi : db.wireTargets.insert? mk hs = some w)
    (hh : ∀ n, (mk n).hNormalizedPayto = some h) (ht : ∀ n, (mk n).accessToken = token) :
    db.Grows { db with wireTargets := w } ∧
      KycDatabase.accessToken? { db with wireTargets := w } h = some token := by
  have hrows := Table.rows_insert? hi
  refine ⟨⟨_, hrows.symm⟩, ?_⟩
  unfold KycDatabase.accessToken? KycDatabase.targetsOf at *
  simp only [hrows, List.filter_append, hn, List.nil_append]
  simp [hh, ht]

theorem kycAuthTarget_spec {a : TriggerKycRule} {bad : Bool}
    (he : db.kycAuthTarget a = some (db₁, token, bad)) :
    db₁.measures = db.measures ∧ db.Grows db₁ ∧
      db₁.accessToken? a.hNormalizedPayto = some token := by
  unfold KycDatabase.kycAuthTarget at he
  split at he
  · next wt hwt =>
    cases he
    exact ⟨rfl, grows_of_eq rfl, Option.map_eq_some_iff.mpr ⟨wt, hwt, rfl⟩⟩
  · next hnone =>
    obtain ⟨uri, -, he⟩ := Option.bind_eq_some_iff.mp he
    obtain ⟨w, hi, he⟩ := Option.map_eq_some_iff.mp he
    cases he
    exact ⟨rfl, newTarget (List.head?_eq_none_iff.mp hnone) hi (fun _ => rfl) fun _ => rfl⟩

theorem ensureTarget_measures {a : AmlDecision} (he : db.ensureTarget a = some (db₁, some token)) :
    db₁.measures = db.measures ∧ db.Grows db₁ ∧
      db₁.accessToken? a.hNormalizedPayto = some token := by
  unfold KycDatabase.ensureTarget at he
  split at he
  · next ht =>
    cases he
    exact ⟨rfl, grows_of_eq rfl, ht⟩
  · next hnone =>
    split at he
    · cases he
    · obtain ⟨w, hi, he⟩ := Option.map_eq_some_iff.mp he
      cases he
      exact ⟨rfl, newTarget (accessToken?_eq_none.mp hnone) hi (fun _ => rfl) fun _ => rfl⟩

/-- A measure that is reused or inserted does not affect other tokens. -/
theorem enableMeasure_others {start : Timestamp} {j : JsonText}
    (he : db.enableMeasure token start j = some (db₁, row)) {t' n : ℕ} (hne : t' ≠ token)
    (hp : db₁.Pending t' n) : db.Pending t' n := by
  unfold KycDatabase.enableMeasure at he
  split at he
  · cases he
    exact hp
  · obtain ⟨m, hi, he⟩ := Option.map_eq_some_iff.mp he
    cases he
    rcases pending_insert hi (fun _ => rfl) hp with hp | ⟨e, -⟩
    · exact hp
    · exact absurd e hne

theorem prescribe_others {start : Timestamp} {j : Option JsonText}
    (he : db.prescribe token start j = some (db₁, row)) {t' n : ℕ} (hne : t' ≠ token)
    (hp : db₁.Pending t' n) : db.Pending t' n := by
  cases j with
  | none =>
    cases he
    exact hp
  | some j => exact enableMeasure_others he hne hp

theorem triggerMeasure_change {a : TriggerKycRule} (ht : db.accessToken? h = some token)
    (he : db.triggerMeasure token a = some (db', row)) :
    db'.wireTargets = db.wireTargets ∧ MeasureChange db db' := by
  unfold KycDatabase.triggerMeasure at he
  split at he
  · cases he
    refine ⟨rfl, .fewer ?_⟩
    rintro t n ⟨r, hr, hn, ht', hf⟩
    obtain ⟨r₀, hr₀, e⟩ := List.mem_map.mp hr
    split_ifs at e
    · subst e
      exact ⟨r₀, hr₀, hn, ht', hf⟩
    · subst e
      exact ⟨r₀, hr₀, hn, ht', hf⟩
  · obtain ⟨m, hi, he⟩ := Option.map_eq_some_iff.mp he
    cases he
    have hothers : ∀ t', t' ≠ token → ∀ n, KycDatabase.Pending { db with measures := m } t' n →
        db.Pending t' n := by
      intro t' hne n hp
      rcases pending_insert hi (fun _ => rfl) hp with hp | ⟨e, -⟩
      · exact hp
      · exact absurd e hne
    have htm : KycDatabase.accessToken? { db with measures := m } h = some token := ht
    exact ⟨rfl, MeasureChange.of_finishOther htm hothers rfl rfl⟩

theorem MeasureChange.congr (hm : db₁.measures = db.measures) (hc : MeasureChange db₁ db') :
    MeasureChange db db' := by
  cases hc with
  | fewer hf => exact .fewer fun t n hp => (pending_congr hm).mp (hf t n hp)
  | touched t others once first =>
    exact .touched t (fun t' hne n hp => (pending_congr hm).mp (others t' hne n hp)) once first

theorem triggerKycRuleForAccount_change {a : TriggerKycRule} {res : TriggerResult}
    (hi : triggerKycRuleForAccount db a = some (db', res)) :
    db.Grows db' ∧ MeasureChange db db' := by
  unfold triggerKycRuleForAccount at hi
  simp only [Option.bind_eq_bind, Option.bind_eq_some_iff] at hi
  obtain ⟨⟨db₁, token, bad⟩, he, ⟨db₂, row⟩, hm, hi⟩ := hi
  cases hi
  obtain ⟨hmeas, hg, ht⟩ := kycAuthTarget_spec he
  obtain ⟨hw, hc⟩ := triggerMeasure_change ht hm
  exact ⟨hg.trans (grows_of_eq hw), hc.congr hmeas⟩

theorem measures_supersede : (db.supersede h).measures = db.measures := by
  unfold KycDatabase.supersede
  split_ifs
  · rfl
  · rfl

theorem wireTargets_supersede : (db.supersede h).wireTargets = db.wireTargets := by
  unfold KycDatabase.supersede
  split_ifs
  · rfl
  · rfl

theorem insertOutcome_frame {mk : ℕ → LegitimizationOutcome} {hs : ∀ n, Record.serial (mk n) = n}
    {n : ℕ} (hi : db.insertOutcome mk hs = some (db', n)) :
    db'.measures = db.measures ∧ db'.wireTargets = db.wireTargets := by
  unfold KycDatabase.insertOutcome at hi
  obtain ⟨o, -, e⟩ := Option.map_eq_some_iff.mp hi
  cases e
  exact ⟨rfl, rfl⟩

theorem recordDecision_measures {a : AmlDecision} (ht : db.accessToken? h = some token)
    (hr : db.recordDecision a token = some (db', row)) :
    db'.wireTargets = db.wireTargets ∧ MeasureChange db db' := by
  unfold KycDatabase.recordDecision at hr
  simp only [Option.bind_eq_bind, Option.bind_eq_some_iff] at hr
  obtain ⟨⟨db₂, row₂⟩, hpre, ⟨db₃, n⟩, hins, hr⟩ := hr
  cases hr
  obtain ⟨hw, -⟩ := prescribe_frame hpre
  obtain ⟨hm₃, hw₃⟩ := insertOutcome_frame hins
  refine ⟨hw₃.trans hw, MeasureChange.of_finishOther ((accessToken?_congr hw).trans ht)
    (fun t' hne n hp => prescribe_others hpre hne hp) hm₃ hw₃⟩

theorem insertAmlDecision_measures {a : AmlDecision} {res : AmlDecisionResult}
    (hi : insertAmlDecision db a = some (db', res)) : db.Grows db' ∧ MeasureChange db db' := by
  unfold insertAmlDecision at hi
  split_ifs at hi
  · cases hi
    exact ⟨grows_of_eq rfl, .fewer fun _ _ hp => hp⟩
  simp only at hi
  split_ifs at hi
  · cases hi
    exact ⟨grows_of_eq rfl, .fewer fun _ _ hp => hp⟩
  split at hi
  · cases hi
  · next db₁ he =>
    obtain ⟨-, -, rfl, -⟩ := ensureTarget_spec (h := a.hNormalizedPayto) he
    cases hi
    exact ⟨grows_of_eq wireTargets_supersede,
      .fewer fun t n hp => (pending_congr measures_supersede).mp hp⟩
  · next db₁ token he =>
    obtain ⟨⟨db₂, row⟩, hr, e⟩ := Option.map_eq_some_iff.mp hi
    cases e
    obtain ⟨hm, hg, ht⟩ := ensureTarget_measures he
    obtain ⟨hw, hc⟩ := recordDecision_measures ht hr
    exact ⟨((grows_of_eq wireTargets_supersede).trans hg).trans (grows_of_eq hw),
      hc.congr (hm.trans measures_supersede)⟩

theorem insertSuccessorMeasure_measures {a : SuccessorMeasure} {res : AmlDecisionResult}
    (hi : insertSuccessorMeasure db a = some (db', res)) : db.Grows db' ∧ MeasureChange db db' := by
  unfold insertSuccessorMeasure at hi
  simp only at hi
  split_ifs at hi
  · cases hi
    exact ⟨grows_of_eq rfl, .fewer fun _ _ hp => hp⟩
  simp only [Option.bind_eq_bind, Option.bind_eq_some_iff] at hi
  obtain ⟨token, ht, j, -, ⟨db₁, row⟩, he, ⟨db₂, n⟩, hins, hi⟩ := hi
  cases hi
  obtain ⟨hw, -⟩ := enableMeasure_frame he
  obtain ⟨hm₂, hw₂⟩ := insertOutcome_frame hins
  refine ⟨grows_of_eq ((hw₂.trans hw).trans wireTargets_supersede), MeasureChange.of_finishOther ((accessToken?_congr hw).trans ht)
    (fun t' hne n hp => ?_) hm₂ hw₂⟩
  exact (pending_congr measures_supersede).mp (enableMeasure_others he hne hp)

theorem insertActiveLegitimizationMeasure_change {start : Timestamp} {j : JsonText}
    (ht : db.FirstToken token)
    (hi : insertActiveLegitimizationMeasure db token start j = some (db', row)) :
    db'.wireTargets = db.wireTargets ∧ MeasureChange db db' := by
  unfold insertActiveLegitimizationMeasure at hi
  obtain ⟨m, hins, e⟩ := Option.map_eq_some_iff.mp hi
  cases e
  -- what is unfinished is the new row, or was unfinished and has another token
  have hnew : ∀ t n, KycDatabase.Pending { db with measures := m } t n →
      (t ≠ token ∧ db.Pending t n) ∨ (t = token ∧ n = db.measures.nextSerial) := by
    rintro t n ⟨r, hr, hn, ht', hf⟩
    rcases (Table.mem_insert? hins).mp hr with hr | rfl
    · obtain ⟨r₀, hr₀, he⟩ := List.mem_map.mp hr
      split_ifs at he with hc
      · rw [← he] at hf
        cases hf
      · subst he
        exact .inl ⟨fun e => hc (decide_eq_true ⟨ht'.trans e, hf⟩), r₀, hr₀, hn, ht', hf⟩
    · refine .inr ⟨ht'.symm, hn.symm.trans ?_⟩
      exact Table.nextSerial_update _ _ _ _ _
  refine ⟨rfl, .touched token (fun t' hne n hp => ?_) (fun n n' hp hp' => ?_) fun _ => ht⟩
  · rcases hnew t' n hp with ⟨-, hp⟩ | ⟨e, -⟩
    · exact hp
    · exact absurd e hne
  · rcases hnew token n hp with ⟨hne, -⟩ | ⟨-, e⟩
    · exact absurd rfl hne
    · rcases hnew token n' hp' with ⟨hne, -⟩ | ⟨-, e'⟩
      · exact absurd rfl hne
      · exact e.trans e'.symm

theorem insertKycMeasureResult_measures {a : KycMeasureResult} {ok : Bool}
    (hi : insertKycMeasureResult db a = some (db', ok)) :
    db'.wireTargets = db.wireTargets ∧ MeasureChange db db' := by
  unfold insertKycMeasureResult at hi
  simp only [Option.bind_eq_bind, Option.bind_eq_some_iff] at hi
  obtain ⟨⟨db₁, n⟩, hins, hi⟩ := hi
  cases hi
  obtain ⟨hm, hw⟩ := insertOutcome_frame hins
  refine ⟨hw, .fewer ?_⟩
  rintro t n ⟨r, hr, hn, ht, hf⟩
  obtain ⟨r₀, hr₀, he⟩ := List.mem_map.mp hr
  split_ifs at he
  · rw [← he] at hf
    cases hf
  · subst he
    exact (pending_congr hm).mp ⟨r₀, hr₀, hn, ht, hf⟩

theorem insertWireTarget_change {hFull : HashCode} {hNorm : Option HashCode} {uri : String} :
    db.Grows (insertWireTarget db hFull hNorm uri token) ∧
      (insertWireTarget db hFull hNorm uri token).measures = db.measures := by
  unfold insertWireTarget
  cases hi : db.wireTargets.insert? fun i =>
      (⟨i, hFull, hNorm, uri, token, none, none⟩ : KycTarget) with
  | none => exact ⟨grows_of_eq rfl, rfl⟩
  | some w => exact ⟨⟨_, (Table.rows_insert? hi).symm⟩, rfl⟩

/-- **Every call** adds rows to `wire_targets` at most, and changes the unfinished measures of at most
one token. -/
theorem exec_change {o : MeasureOp} (ho : MeasureOk db o) (hi : o.exec db = some db') :
    db.Grows db' ∧ MeasureChange db db' := by
  cases o with
  | trigger a =>
    obtain ⟨⟨_, res⟩, hcall, rfl⟩ := Option.map_eq_some_iff.mp hi
    exact triggerKycRuleForAccount_change hcall
  | amlDecision a =>
    obtain ⟨⟨_, res⟩, hcall, rfl⟩ := Option.map_eq_some_iff.mp hi
    exact insertAmlDecision_measures hcall
  | successorMeasure a =>
    obtain ⟨⟨_, res⟩, hcall, rfl⟩ := Option.map_eq_some_iff.mp hi
    exact insertSuccessorMeasure_measures hcall
  | activeMeasure token start j =>
    obtain ⟨⟨_, row⟩, hcall, rfl⟩ := Option.map_eq_some_iff.mp hi
    obtain ⟨hw, hc⟩ := insertActiveLegitimizationMeasure_change ho hcall
    exact ⟨grows_of_eq hw, hc⟩
  | measureResult a =>
    obtain ⟨⟨_, ok⟩, hcall, rfl⟩ := Option.map_eq_some_iff.mp hi
    obtain ⟨hw, hc⟩ := insertKycMeasureResult_measures hcall
    exact ⟨grows_of_eq hw, hc⟩
  | wireTarget hFull hNorm uri token =>
    cases hi
    exact ⟨insertWireTarget_change.1,
      .fewer fun t n hp => (pending_congr insertWireTarget_change.2).mp hp⟩

end Calls

/-! ## The invariant -/

/-- **The invariant**: the constraints, at most one unfinished measure for each token, and unfinished
measures only for tokens that a look-up finds. -/
structure MeasuresInv (db : KycDatabase) : Prop where
  tokens : db.TokensOk
  once : ∀ t n n', db.Pending t n → db.Pending t n' → n = n'
  first : ∀ t n, db.Pending t n → db.FirstToken t

section Invariant

variable {db db' : KycDatabase} {h : HashCode} {t : ℕ}

theorem mem_tokens {wt : KycTarget} (hwt : wt ∈ db.wireTargets.rows) : wt.accessToken ∈ db.tokens :=
  List.mem_map_of_mem hwt

/-- An account that is known keeps its token. -/
theorem KycDatabase.Grows.accessToken? (hg : db.Grows db') (ht : db.accessToken? h = some t) :
    db'.accessToken? h = some t := by
  obtain ⟨l, hl⟩ := hg
  unfold KycDatabase.accessToken? KycDatabase.targetsOf at *
  rw [← hl, List.filter_append, List.head?_append]
  obtain ⟨wt, hwt, he⟩ := Option.map_eq_some_iff.mp ht
  rw [hwt, Option.some_or, Option.map_some, he]

/-- Rows that are added have other tokens. -/
theorem KycDatabase.Grows.firstToken (hg : db.Grows db') (hu : db'.tokens.Nodup)
    (hm : t ∈ db.tokens) (hf : db.FirstToken t) : db'.FirstToken t := by
  intro wt hwt he h hh
  obtain ⟨wt₀, hwt₀, he₀⟩ := List.mem_map.mp hm
  have hsame : wt₀ = wt :=
    List.inj_on_of_nodup_map hu (hg.subset hwt₀) hwt (he₀.trans he.symm)
  subst hsame
  exact hg.accessToken? (hf wt₀ hwt₀ he h hh)

theorem KycDatabase.Pending.mem_tokens {n : ℕ} (hi : db.TokensOk) (hp : db.Pending t n) :
    t ∈ db.tokens := by
  obtain ⟨r, hr, -, ht, -⟩ := hp
  exact ht ▸ hi.foreign r hr

theorem MeasuresInv.change (hi : MeasuresInv db) (hg : db.Grows db') (hc : MeasureChange db db')
    (ht : db'.TokensOk) : MeasuresInv db' := by
  have hold : ∀ t n, db.Pending t n → db'.FirstToken t := fun t n hp =>
    hg.firstToken ht.unique (hp.mem_tokens hi.tokens) (hi.first t n hp)
  cases hc with
  | fewer hf =>
    exact ⟨ht, fun t n n' hp hp' => hi.once t n n' (hf t n hp) (hf t n' hp'),
      fun t n hp => hold t n (hf t n hp)⟩
  | touched t others once first =>
    refine ⟨ht, fun t' n n' hp hp' => ?_, fun t' n hp => ?_⟩
    · by_cases he : t' = t
      · subst he
        exact once n n' hp hp'
      · exact hi.once t' n n' (others t' he n hp) (others t' he n' hp')
    · by_cases he : t' = t
      · subst he
        exact first ht.unique
      · exact hold t' n (others t' he n hp)

/-- **One call keeps the invariant.** -/
theorem measureStep_inv (db : KycDatabase) (o : MeasureOp) (ho : MeasureOk db o)
    (hi : MeasuresInv db) : MeasuresInv (measureStep db o) := by
  unfold measureStep
  cases he : o.exec db with
  | none => exact hi
  | some db' =>
    obtain ⟨hg, hc⟩ := exec_change ho he
    simp only
    split_ifs with ht
    · exact hi.change hg hc ht
    · exact hi

theorem mem_pendingMeasures {r : LegitimizationMeasure} : r ∈ db.pendingMeasures h ↔
    (r ∈ db.measures.rows ∧ r.isFinished = false) ∧
      ∃ wt ∈ db.targetsOf h, wt.accessToken = r.accessToken := by
  unfold KycDatabase.pendingMeasures
  rw [List.mem_filter, decide_eq_true_eq, and_assoc]

/-- The unfinished measures of an account have the token that a look-up finds. -/
theorem MeasuresInv.accessToken {r : LegitimizationMeasure} (hi : MeasuresInv db)
    (hr : r ∈ db.pendingMeasures h) : db.accessToken? h = some r.accessToken := by
  obtain ⟨⟨hm, hf⟩, wt, hwt, he⟩ := mem_pendingMeasures.mp hr
  obtain ⟨hwm, hh⟩ := mem_targetsOf.mp hwt
  exact hi.first r.accessToken _ ⟨r, hm, rfl, rfl, hf⟩ wt hwm he h hh

/-- KYC is required if the look-up finds an unfinished measure. -/
theorem kycRequired_iff : (lookupKycRequirementByRow db h).kycRequired = true ↔
    ∃ r ∈ db.measures.rows, db.accessToken? h = some r.accessToken ∧ r.isFinished = false := by
  unfold lookupKycRequirementByRow KycDatabase.accessToken?
  cases (db.targetsOf h).head? with
  | none => simp
  | some wt =>
    show (db.measures.rows.any fun r =>
      decide (r.accessToken = wt.accessToken ∧ r.isFinished = false)) = true ↔ _
    rw [List.any_eq_true]
    refine exists_congr fun r => and_congr_right fun _ => ?_
    rw [decide_eq_true_eq, Option.map_some, Option.some.injEq]
    exact and_congr_left fun _ => eq_comm

theorem MeasuresInv.onePending (hi : MeasuresInv db) : OnePending db := by
  constructor
  · intro h r hr r' hr'
    obtain ⟨⟨hm, hf⟩, -⟩ := mem_pendingMeasures.mp hr
    obtain ⟨⟨hm', hf'⟩, -⟩ := mem_pendingMeasures.mp hr'
    have htok : r.accessToken = r'.accessToken :=
      Option.some.inj ((hi.accessToken hr).symm.trans (hi.accessToken hr'))
    exact Table.eq_of_key hm hm' (hi.once r.accessToken _ _ ⟨r, hm, rfl, rfl, hf⟩
      ⟨r', hm', rfl, htok.symm, hf'⟩)
  · intro h
    rw [kycRequired_iff]
    constructor
    · rintro ⟨r, hr, ht, hf⟩
      obtain ⟨wt, hwt, he⟩ := Option.map_eq_some_iff.mp ht
      exact List.ne_nil_of_mem
        (mem_pendingMeasures.mpr ⟨⟨hr, hf⟩, wt, List.mem_of_head? hwt, he⟩)
    · intro hne
      obtain ⟨r, hr⟩ := List.exists_mem_of_ne_nil _ hne
      obtain ⟨⟨hm, hf⟩, -⟩ := mem_pendingMeasures.mp hr
      exact ⟨r, hm, hi.accessToken hr, hf⟩

/-- A measure for a token that exists is inserted. -/
theorem measureStep_activeMeasure {s : Timestamp} {j : JsonText} (hi : db.TokensOk)
    (ht : t ∈ db.tokens) : (measureStep db (.activeMeasure t s j)).wireTargets = db.wireTargets ∧
      ∃ r ∈ (measureStep db (.activeMeasure t s j)).measures.rows,
        r.accessToken = t ∧ r.isFinished = false := by
  obtain ⟨m, hins⟩ := Table.exists_insert?_of_serial (fun _ => rfl)
    (db.measures.update (fun r => r.accessToken = t ∧ r.isFinished = false)
      fun r => { r with isFinished := true })
    (fun i => (⟨i, t, s, j, 1, false⟩ : LegitimizationMeasure)) fun _ => rfl
  have hexec : (MeasureOp.activeMeasure t s j).exec db = some { db with measures := m } := by
    unfold MeasureOp.exec insertActiveLegitimizationMeasure
    simp only [hins, Option.map_some]
  have htok : KycDatabase.TokensOk { db with measures := m } := by
    refine ⟨hi.unique, fun r hr => ?_⟩
    rcases (Table.mem_insert? hins).mp hr with hr | rfl
    · obtain ⟨r₀, hr₀, rfl⟩ := List.mem_map.mp hr
      have hf := hi.foreign r₀ hr₀
      split_ifs
      · exact hf
      · exact hf
    · exact ht
  have hstep : measureStep db (.activeMeasure t s j) = { db with measures := m } := by
    unfold measureStep
    simp only [hexec, if_pos htok]
  rw [hstep]
  exact ⟨rfl, _, (Table.mem_insert? hins).mpr (.inr rfl), rfl, rfl⟩

/-- **A given token that a look-up does not find breaks the property**: KYC is not reported as required,
or there is a second unfinished measure. -/
theorem not_onePending_of_not_ok {o : MeasureOp} (hi : MeasuresInv db) (ho : ¬ MeasureOk db o) :
    ¬ OnePending (measureStep db o) := by
  cases o with
  | activeMeasure token start j =>
    obtain ⟨wt, hwt, he, h, hh, hne⟩ : ∃ wt ∈ db.wireTargets.rows, wt.accessToken = token ∧
        ∃ h ∈ wt.hNormalizedPayto, db.accessToken? h ≠ some token := by
      by_contra hno
      refine ho fun wt hwt he h hh => ?_
      by_contra hne
      exact hno ⟨wt, hwt, he, h, hh, hne⟩
    obtain ⟨hw, r, hr, ht, hf⟩ := measureStep_activeMeasure (s := start) (j := j) hi.tokens
      (he ▸ mem_tokens hwt)
    intro hp
    have hmem : r ∈ (measureStep db (.activeMeasure token start j)).pendingMeasures h :=
      mem_pendingMeasures.mpr ⟨⟨hr, hf⟩, wt, mem_targetsOf.mpr ⟨hw ▸ hwt, hh⟩, he.trans ht.symm⟩
    -- KYC is reported as required for another measure of the account
    obtain ⟨r', hr', ht', hf'⟩ :=
      kycRequired_iff.mp ((hp.required h).mpr (List.ne_nil_of_mem hmem))
    obtain ⟨wt', hwt', he'⟩ := Option.map_eq_some_iff.mp ht'
    have hmem' : r' ∈ (measureStep db (.activeMeasure token start j)).pendingMeasures h :=
      mem_pendingMeasures.mpr ⟨⟨hr', hf'⟩, wt', List.mem_of_head? hwt', he'⟩
    rw [accessToken?_congr hw, ← hp.once h r hmem r' hmem', ht] at ht'
    exact hne ht'
  | trigger a => exact absurd trivial ho
  | amlDecision a => exact absurd trivial ho
  | successorMeasure a => exact absurd trivial ho
  | measureResult a => exact absurd trivial ho
  | wireTarget hFull hNorm uri token => exact absurd trivial ho

end Invariant

/-- **There is at most one pending measure for each account throughout a run if and only if** no call is
given a token that a look-up of its account does not find. -/
theorem onePending_iff (db : KycDatabase) (hm : db.measures = Table.empty) (hu : db.tokens.Nodup)
    (ops : List MeasureOp) :
    (∀ pre, pre <+: ops → OnePending (run measureStep db pre)) ↔
      Admits measureStep MeasureOk db ops := by
  have hnone : ∀ t n, ¬ db.Pending t n := by
    rintro t n ⟨r, hr, -⟩
    rw [hm] at hr
    cases hr
  have hi : MeasuresInv db := by
    refine ⟨⟨hu, fun r hr => ?_⟩, fun t n n' hp => absurd hp (hnone t n),
      fun t n hp => absurd hp (hnone t n)⟩
    rw [hm] at hr
    cases hr
  exact throughout_iff measureStep_inv (fun _ hi => hi.onePending)
    (fun _ _ hi ho => not_onePending_of_not_ok hi ho) hi ops

/-- An account under two receiver names. -/
def twoNames : List MeasureOp :=
  [.wireTarget 10 (some 1) "payto" 100, .wireTarget 20 (some 1) "payto" 200,
    .activeMeasure 100 5 "first"]

/-- The first of the two names is given measures. -/
theorem onePending_twoNames :
    (lookupKycRequirementByRow (run measureStep {} twoNames) 1).kycRequired = true ∧
      ∀ pre, pre <+: twoNames → OnePending (run measureStep {} pre) := by
  refine ⟨by decide, (onePending_iff {} rfl List.nodup_nil twoNames).mpr
    ⟨trivial, trivial, ?_, trivial⟩⟩
  show ∀ wt ∈ _, _
  decide

/-- **There may be two pending measures for an account**, if the second name is given measures too. -/
theorem not_onePending : ¬ ∀ (db : KycDatabase) (ops : List MeasureOp),
    db.measures = Table.empty → db.tokens.Nodup → OnePending (run measureStep db ops) := by
  intro hall
  have ho := (hall {} (twoNames ++ [.activeMeasure 200 6 "second"]) rfl List.nodup_nil).once 1
    ⟨1, 100, 5, "first", 1, false⟩ (by decide) ⟨2, 200, 6, "second", 1, false⟩ (by decide)
  exact absurd ho (by decide)

end TalerExchange
