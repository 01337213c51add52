import TalerExchange.Schema

/-!
# The KYC tables and their procedures

Accounts are rows of `wire_targets`; several rows can have the same normalised account. What was
decided about an account is in `legitimization_outcomes`, what its owner still has to do in
`legitimization_measures`, which attempts were made in `legitimization_processes`. An exception in
a procedure undoes the transaction, it is `none` here.

* `KycDatabase`: the tables;
* `insertKycMeasureResult`, `insertAmlDecision`, `insertSuccessorMeasure`: the procedures that
  insert outcomes;
* `lookupRulesByAccessToken`, `lookupKycRequirementByRow`: the rules in force;
* `setAmlLock`, `clearAmlLock`, `persistAmlProgramResult`: the lock around AML programs.
-/

namespace TalerExchange

open Sql

/-- JSON values in columns of type `TEXT`. -/
abbrev JsonText := String

/-! ## Tables -/

/-- `wire_targets` with its KYC columns. -/
structure KycTarget where
  wireTargetSerialId : ℕ
  wireTargetHPayto : HashCode
  hNormalizedPayto : Option HashCode
  paytoUri : String
  accessToken : ℕ
  targetPub : Option MerchantPub := none
  amlProgramLockTimeout : Option Timestamp := none
deriving DecidableEq, Repr

instance : Record KycTarget HashCode := ⟨KycTarget.wireTargetHPayto, KycTarget.wireTargetSerialId⟩

/-- `legitimization_outcomes`. -/
structure LegitimizationOutcome where
  outcomeSerialId : ℕ
  hPayto : HashCode
  decisionTime : Timestamp
  expirationTime : Timestamp
  jproperties : Option JsonText
  newMeasureName : Option String
  toInvestigate : Bool
  isActive : Bool := true
  jnewRules : Option JsonText
deriving DecidableEq, Repr

instance : Record LegitimizationOutcome ℕ :=
  ⟨LegitimizationOutcome.outcomeSerialId, LegitimizationOutcome.outcomeSerialId⟩

/-- `legitimization_measures`. -/
structure LegitimizationMeasure where
  legitimizationMeasureSerialId : ℕ
  accessToken : ℕ
  startTime : Timestamp
  jmeasures : JsonText
  displayPriority : ℤ
  isFinished : Bool := false
deriving DecidableEq, Repr

instance : Record LegitimizationMeasure ℕ :=
  ⟨LegitimizationMeasure.legitimizationMeasureSerialId,
    LegitimizationMeasure.legitimizationMeasureSerialId⟩

/-- `legitimization_processes`. -/
structure LegitimizationProcess where
  legitimizationProcessSerialId : ℕ
  hPayto : HashCode
  legitimizationMeasureSerialId : Option ℕ
  finished : Bool := false
  errorCode : ℤ := 0
  errorMessage : Option String := none
deriving DecidableEq, Repr

instance : Record LegitimizationProcess ℕ :=
  ⟨LegitimizationProcess.legitimizationProcessSerialId,
    LegitimizationProcess.legitimizationProcessSerialId⟩

/-- `aml_staff`. -/
structure AmlStaff where
  amlStaffUuid : ℕ
  deciderPub : ℕ
  isActive : Bool
  readOnly : Bool
deriving DecidableEq, Repr

instance : Record AmlStaff ℕ := ⟨AmlStaff.deciderPub, AmlStaff.amlStaffUuid⟩

/-- `aml_history`. -/
structure AmlHistory where
  hPayto : HashCode
  outcomeSerialId : ℕ
  justification : String
  deciderPub : ℕ
  deciderSig : Signature
deriving DecidableEq, Repr

/-- The tables of the KYC code; `kycEvents` are times with the names of events, `kycAlerts` the
accounts that the aggregator is to be woken up for. -/
structure KycDatabase where
  wireTargets : Table KycTarget := Table.empty
  reservesIn : Table ReserveIn := Table.empty
  outcomes : Table LegitimizationOutcome := Table.empty
  measures : Table LegitimizationMeasure := Table.empty
  processes : Table LegitimizationProcess := Table.empty
  amlStaff : Table AmlStaff := Table.empty
  amlHistory : List AmlHistory := []
  kycEvents : List (Timestamp × String) := []
  kycAlerts : List HashCode := []

/-! ## Statements -/

/-- The first row of a result in an order, `ORDER BY … LIMIT 1`. -/
def firstBy {α : Type} (le : α → α → Bool) : List α → Option α
  | [] => none
  | r :: rows =>
    match firstBy le rows with
    | none => some r
    | some r' => if le r r' then some r else some r'

@[simp] theorem firstBy_nil {α : Type} (le : α → α → Bool) : firstBy le [] = none := rfl

@[simp] theorem firstBy_singleton {α : Type} (le : α → α → Bool) (r : α) :
    firstBy le [r] = some r := rfl

theorem firstBy_eq_none {α : Type} {le : α → α → Bool} {rows : List α} :
    firstBy le rows = none ↔ rows = [] := by
  cases rows with
  | nil => simp
  | cons r rows =>
    rw [firstBy]
    split
    · simp
    · split_ifs <;> simp

namespace KycDatabase

/-- The outcomes for an account, in order of insertion. -/
def outcomesOf (db : KycDatabase) (h : HashCode) : List LegitimizationOutcome :=
  db.outcomes.rows.filter fun r => r.hPayto = h

/-- The active outcomes for an account. -/
def activeOutcomes (db : KycDatabase) (h : HashCode) : List LegitimizationOutcome :=
  (db.outcomesOf h).filter fun r => r.isActive

/-- The rows of an account. -/
def targetsOf (db : KycDatabase) (h : HashCode) : List KycTarget :=
  db.wireTargets.rows.filter fun r => r.hNormalizedPayto = some h

theorem targetsOf_congr {db db' : KycDatabase} {h : HashCode} (ht : db'.wireTargets = db.wireTargets) :
    db'.targetsOf h = db.targetsOf h :=
  congrArg (fun t => t.rows.filter fun r => r.hNormalizedPayto = some h) ht

/-- `UPDATE legitimization_outcomes SET is_active=FALSE WHERE h_payto=… AND …`. -/
def deactivate (db : KycDatabase) (h : HashCode) (p : LegitimizationOutcome → Bool) : KycDatabase :=
  { db with
    outcomes := db.outcomes.update (fun r => r.hPayto = h ∧ p r) fun r =>
      { r with isActive := false } }

/-- `INSERT INTO legitimization_outcomes … RETURNING outcome_serial_id`. -/
def insertOutcome (db : KycDatabase) (mk : ℕ → LegitimizationOutcome)
    (hs : ∀ n, Record.serial (mk n) = n := by intro; rfl) : Option (KycDatabase × ℕ) :=
  (db.outcomes.insert? mk hs).map fun t => ({ db with outcomes := t }, db.outcomes.nextSerial)

/-- `INSERT INTO kyc_alerts … ON CONFLICT DO NOTHING`. -/
def alert (db : KycDatabase) (h : HashCode) : KycDatabase :=
  { db with kycAlerts := if h ∈ db.kycAlerts then db.kycAlerts else db.kycAlerts ++ [h] }

/-- The unfinished measures of `token` are finished, except for the one in `row`. -/
def finishOtherMeasures (db : KycDatabase) (token row : ℕ) : KycDatabase :=
  { db with
    measures := db.measures.update
      (fun r => r.accessToken = token ∧ r.isFinished = false ∧
        r.legitimizationMeasureSerialId ≠ row) fun r => { r with isFinished := true } }

/-- An unfinished measure with the same text, or a new one. -/
def enableMeasure (db : KycDatabase) (token : ℕ) (start : Timestamp) (jmeasures : JsonText) :
    Option (KycDatabase × ℕ) :=
  match db.measures.rows.find? fun r =>
      r.accessToken = token ∧ r.jmeasures = jmeasures ∧ r.isFinished = false with
  | some r => some (db, r.legitimizationMeasureSerialId)
  | none =>
    (db.measures.insert? fun i => ⟨i, token, start, jmeasures, 1, false⟩).map fun t =>
      ({ db with measures := t }, db.measures.nextSerial)

end KycDatabase

theorem mem_targetsOf {db : KycDatabase} {h : HashCode} {r : KycTarget} :
    r ∈ db.targetsOf h ↔ r ∈ db.wireTargets.rows ∧ r.hNormalizedPayto = some h := by
  simp [KycDatabase.targetsOf]

/-! ## Outcomes -/

/-- The arguments of `exchange_do_insert_kyc_measure_result`. -/
structure KycMeasureResult where
  processRow : Option ℕ
  hPayto : HashCode
  decisionTime : Timestamp
  expirationTime : Timestamp
  accountProperties : Option JsonText
  newRules : Option JsonText
  events : List String
  toInvestigate : Bool
deriving DecidableEq, Repr

/-- `exchange_do_insert_kyc_measure_result`. -/
def insertKycMeasureResult (db : KycDatabase) (a : KycMeasureResult) :
    Option (KycDatabase × Bool) := do
  -- the clause that is to avoid updating outcomes that have long expired
  let db := db.deactivate a.hPayto fun r => decide (a.decisionTime ≤ r.expirationTime)
  let (db, _) ← db.insertOutcome fun i =>
    ⟨i, a.hPayto, a.decisionTime, a.expirationTime, a.accountProperties, none, a.toInvestigate, true,
      a.newRules⟩
  let done := db.processes.rows.filterMap fun r =>
    if r.hPayto = a.hPayto ∧ some r.legitimizationProcessSerialId = a.processRow then
      r.legitimizationMeasureSerialId
    else none
  let ok := db.measures.rows.any fun r => r.legitimizationMeasureSerialId ∈ done
  let db := { db with
    measures := db.measures.update (fun r => r.legitimizationMeasureSerialId ∈ done) fun r =>
      { r with isFinished := true }
    kycEvents := db.kycEvents ++ a.events.map fun e => (a.decisionTime, e) }
  return (db.alert a.hPayto, ok)

/-- The arguments of `exchange_do_insert_aml_decision`; `token` is the access token that a new row
of `wire_targets` gets. -/
structure AmlDecision where
  paytoUri : Option String
  hNormalizedPayto : HashCode
  hFullPayto : HashCode
  decisionTime : Timestamp
  expirationTime : Timestamp
  properties : Option JsonText
  newRules : Option JsonText
  toInvestigate : Bool
  newMeasureName : Option String
  jmeasures : Option JsonText
  justification : String
  deciderPub : ℕ
  deciderSig : Signature
  token : ℕ
deriving DecidableEq, Repr

/-- The results of the procedures that insert decisions. -/
structure AmlDecisionResult where
  invalidOfficer : Bool := false
  accountUnknown : Bool := false
  lastDate : Timestamp := 0
  legitimizationMeasureSerialId : ℕ := 0
deriving DecidableEq, Repr

/-- The order of the outcomes in the check for a more recent decision. -/
def newerDecision (r r' : LegitimizationOutcome) : Bool :=
  decide (r'.decisionTime < r.decisionTime ∨
    (r.decisionTime = r'.decisionTime ∧ r'.outcomeSerialId ≤ r.outcomeSerialId))

/-- The decision time of the active outcome, if there is one. -/
def KycDatabase.lastDecision (db : KycDatabase) (h : HashCode) : Option Timestamp :=
  (firstBy newerDecision (db.activeOutcomes h)).map LegitimizationOutcome.decisionTime

/-- The outcomes that a decision replaces are deactivated, if there are any. -/
def KycDatabase.supersede (db : KycDatabase) (h : HashCode) : KycDatabase :=
  if (db.lastDecision h).isSome then db.deactivate h fun r => r.isActive else db

/-- The access token of an account. -/
def KycDatabase.accessToken? (db : KycDatabase) (h : HashCode) : Option ℕ :=
  ((db.targetsOf h).head?).map KycTarget.accessToken

/-- The part of `exchange_do_insert_aml_decision` that is about `wire_targets`: the access token, `none`
inside where the account is unknown. -/
def KycDatabase.ensureTarget (db : KycDatabase) (a : AmlDecision) :
    Option (KycDatabase × Option ℕ) :=
  match db.accessToken? a.hNormalizedPayto with
  | some token => some (db, some token)
  | none =>
    match a.paytoUri with
    | none => some (db, none)
    | some uri =>
      (db.wireTargets.insert? fun i =>
        ⟨i, a.hFullPayto, some a.hNormalizedPayto, uri, a.token, none, none⟩).map fun t =>
          ({ db with wireTargets := t }, some a.token)

/-- The measures that a decision prescribes. -/
def KycDatabase.prescribe (db : KycDatabase) (token : ℕ) (start : Timestamp) :
    Option JsonText → Option (KycDatabase × ℕ)
  | none => some (db, 0)
  | some j => db.enableMeasure token start j

/-- The end of `exchange_do_insert_aml_decision`, for a known account. -/
def KycDatabase.recordDecision (db : KycDatabase) (a : AmlDecision) (token : ℕ) :
    Option (KycDatabase × ℕ) := do
  let (db, row) ← db.prescribe token a.decisionTime a.jmeasures
  let db := db.finishOtherMeasures token row
  let db := db.deactivate a.hNormalizedPayto fun r => decide (a.decisionTime ≤ r.expirationTime)
  let (db, serial) ← db.insertOutcome fun i =>
    ⟨i, a.hNormalizedPayto, a.decisionTime, a.expirationTime, a.properties, a.newMeasureName,
      a.toInvestigate, true, a.newRules⟩
  let decision : AmlHistory :=
    ⟨a.hNormalizedPayto, serial, a.justification, a.deciderPub, a.deciderSig⟩
  let db := { db with amlHistory := db.amlHistory ++ [decision] }
  return (db.alert a.hNormalizedPayto, row)

/-- `exchange_do_insert_aml_decision`. An unknown account is reported after the older outcomes were
deactivated. -/
def insertAmlDecision (db : KycDatabase) (a : AmlDecision) :
    Option (KycDatabase × AmlDecisionResult) :=
  if db.amlStaff.rows.all fun r => !(r.deciderPub = a.deciderPub ∧ r.isActive ∧ r.readOnly = false)
  then some (db, { invalidOfficer := true })
  else
    let date := (db.lastDecision a.hNormalizedPayto).getD 0
    if (db.lastDecision a.hNormalizedPayto).isSome ∧ a.decisionTime < date then
      some (db, { lastDate := date })
    else
      match (db.supersede a.hNormalizedPayto).ensureTarget a with
      | none => none
      | some (db, none) => some (db, { accountUnknown := true, lastDate := date })
      | some (db, some token) =>
        (db.recordDecision a token).map fun (db, row) =>
          (db, { lastDate := date, legitimizationMeasureSerialId := row })

/-- The arguments of `exchange_do_insert_successor_measure`. -/
structure SuccessorMeasure where
  hNormalizedPayto : HashCode
  decisionTime : Timestamp
  expirationTime : Timestamp
  newMeasureName : Option String
  jmeasures : Option JsonText
deriving DecidableEq, Repr

/-- `exchange_do_insert_successor_measure`. For an unknown account it reads the variable
`in_payto_uri`, which it does not have: an exception, as for measures that are `NULL`. -/
def insertSuccessorMeasure (db : KycDatabase) (a : SuccessorMeasure) :
    Option (KycDatabase × AmlDecisionResult) :=
  let date := (db.lastDecision a.hNormalizedPayto).getD 0
  if (db.lastDecision a.hNormalizedPayto).isSome ∧ a.decisionTime < date then
    some (db, { lastDate := date })
  else do
    let db := db.supersede a.hNormalizedPayto
    let token ← db.accessToken? a.hNormalizedPayto
    let jmeasures ← a.jmeasures
    let (db, row) ← db.enableMeasure token a.decisionTime jmeasures
    let db := db.finishOtherMeasures token row
    let db := db.deactivate a.hNormalizedPayto fun r => decide (a.decisionTime ≤ r.expirationTime)
    let (db, _) ← db.insertOutcome fun i =>
      ⟨i, a.hNormalizedPayto, a.decisionTime, a.expirationTime, some "\x7b\x7d", a.newMeasureName,
        false, true, none⟩
    return (db, { lastDate := date, legitimizationMeasureSerialId := row })

/-! ## Rules in force -/

/-- The order of `TEH_PG_lookup_rules_by_access_token`. -/
def laterExpiration (r r' : LegitimizationOutcome) : Bool :=
  decide (r'.expirationTime < r.expirationTime ∨
    (r.expirationTime = r'.expirationTime ∧ r'.outcomeSerialId ≤ r.outcomeSerialId))

/-- `TEH_PG_lookup_rules_by_access_token`: the rules and the row they are in. -/
def lookupRulesByAccessToken (db : KycDatabase) (h : HashCode) : Option (Option JsonText × ℕ) :=
  (firstBy laterExpiration (db.activeOutcomes h)).map fun r => (r.jnewRules, r.outcomeSerialId)

/-- The results of `exchange_do_lookup_kyc_requirement_by_row`. -/
structure KycRequirement where
  accountPub : Option MerchantPub := none
  reservePub : Option ReservePub := none
  accessToken : Option ℕ := none
  jrules : Option JsonText := none
  notFound : Bool
  amlReview : Option Bool := none
  kycRequired : Bool := false
deriving DecidableEq, Repr

/-- `exchange_do_lookup_kyc_requirement_by_row`. The inner `SELECT` of the last statement names a
column of the outer table, so it selects from all incoming transfers. -/
def lookupKycRequirementByRow (db : KycDatabase) (h : HashCode) : KycRequirement :=
  match (db.targetsOf h).head? with
  | none => { notFound := true }
  | some wt =>
    let lo := (db.activeOutcomes h).head?
    { notFound := false
      accountPub := wt.targetPub
      accessToken := some wt.accessToken
      kycRequired := db.measures.rows.any fun r =>
        r.accessToken = wt.accessToken ∧ r.isFinished = false
      jrules := lo.bind LegitimizationOutcome.jnewRules
      amlReview := lo.map LegitimizationOutcome.toInvestigate
      reservePub := (firstBy (fun r r' => decide (r'.executionDate ≤ r.executionDate))
        db.reservesIn.rows).map ReserveIn.reservePub }

/-! ## The lock around AML programs -/

/-- `UPDATE wire_targets SET aml_program_lock_timeout=… WHERE …`. -/
def KycDatabase.setLocks (db : KycDatabase) (p : KycTarget → Bool) (t : Option Timestamp) :
    KycDatabase :=
  { db with
    wireTargets := db.wireTargets.update p fun r => { r with amlProgramLockTimeout := t } }

/-- A row of the account without a lock, or with one that timed out. -/
def KycTarget.lockable (h : HashCode) (now : Timestamp) (r : KycTarget) : Bool :=
  r.hNormalizedPayto = some h ∧ r.amlProgramLockTimeout.all fun t => decide (t < now)

/-- `exchange_do_set_aml_lock`: `0` where some row of the account could be locked, else the timeout
of the lock, `none` for an unknown account. -/
def setAmlLock (db : KycDatabase) (h : HashCode) (now expiration : Timestamp) :
    KycDatabase × Option Timestamp :=
  if db.wireTargets.rows.any (KycTarget.lockable h now) then
    (db.setLocks (KycTarget.lockable h now) (some expiration), some 0)
  else (db, (db.targetsOf h).head?.bind KycTarget.amlProgramLockTimeout)

/-- `TEH_PG_clear_aml_lock`. -/
def clearAmlLock (db : KycDatabase) (h : HashCode) : KycDatabase :=
  db.setLocks (fun r => r.hNormalizedPayto = some h) none

/-- The process of the account in a row. -/
def LegitimizationProcess.isRow (h : HashCode) (row : ℕ) (r : LegitimizationProcess) : Bool :=
  r.hPayto = h ∧ r.legitimizationProcessSerialId = row

/-- `exchange_do_insert_aml_program_failure`. Without a process to update it inserts one with a
column `provider_section`, which is `provider_name` since `exchange-0005`: an exception. -/
def insertAmlProgramFailure (db : KycDatabase) (processRow : ℕ) (h : HashCode) (errorCode : ℤ)
    (errorMessage : String) : Option KycDatabase :=
  if db.processes.rows.any (LegitimizationProcess.isRow h processRow) then
    some (KycDatabase.alert { db with
      processes := db.processes.update (LegitimizationProcess.isRow h processRow) fun r =>
        { r with finished := true, errorCode := errorCode, errorMessage := some errorMessage } } h)
  else none

/-- `struct TALER_KYCLOGIC_AmlProgramResult`, as far as it is stored. -/
inductive AmlProgramResult
  | success (expirationTime : Timestamp) (properties : Option JsonText) (newRules : JsonText)
      (events : List String) (toInvestigate : Bool)
  | failure (errorCode : ℤ) (errorMessage : String)
deriving DecidableEq, Repr

/-- `TALER_EXCHANGEDB_persist_aml_program_result`; row `0` stands for no process. -/
def persistAmlProgramResult (db : KycDatabase) (processRow : ℕ) (h : HashCode) (now : Timestamp) :
    AmlProgramResult → Option KycDatabase
  | .failure ec msg => insertAmlProgramFailure (clearAmlLock db h) processRow h ec msg
  | .success expiration properties rules events investigate =>
    (insertKycMeasureResult (clearAmlLock db h)
      ⟨if processRow = 0 then none else some processRow, h, now, expiration, properties, some rules,
        events, investigate⟩).map Prod.fst

end TalerExchange
