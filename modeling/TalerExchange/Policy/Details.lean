import TalerExchange.Schema
import TalerExchange.Amount.Sql

/-!
# Policies of deposits

`exchange_do_insert_or_update_policy_details` stores the first contribution to a policy and is to
add up the later ones. Names of columns and variables are resolved when a statement is run.

* `policyDetailsUnique`: the unique constraints of `policy_details`;
* `insertOrUpdatePolicyDetails`: the procedure, for any unique constraints;
* `PolicyAccumulates`: the calls of a run succeed and add up;
* **`policyAccumulates_iff`**: with the constraints of the table, only the empty run.
-/

namespace TalerExchange

open Sql

/-! ## The table -/

/-- `enum TALER_PolicyFulfillmentState`. -/
inductive PolicyFulfillmentState
  | initial
  | failure
  | insufficient
  | ready
  | success
  | timeout
deriving DecidableEq, Repr

/-- The state as it is stored. -/
def PolicyFulfillmentState.toInt : PolicyFulfillmentState → ℤ
  | .initial => 0
  | .failure => 1
  | .insufficient => 2
  | .ready => 3
  | .success => 4
  | .timeout => 5

/-- `policy_details`. -/
structure PolicyDetail where
  policyDetailsSerialId : ℕ
  policyHashCode : HashCode
  policyJson : String
  deadline : Timestamp
  commitment : TalerAmount
  accumulatedTotal : TalerAmount
  fee : TalerAmount
  transferable : TalerAmount
  fulfillmentState : ℤ
  hFulfillmentProof : Option HashCode := none
deriving DecidableEq, Repr

instance : Record PolicyDetail ℕ :=
  ⟨PolicyDetail.policyDetailsSerialId, PolicyDetail.policyDetailsSerialId⟩

/-- The columns of `policy_details`. -/
def policyDetailsColumns : List String :=
  ["policy_details_serial_id", "policy_hash_code", "policy_json", "deadline", "commitment",
   "accumulated_total", "fee", "transferable", "fulfillment_state", "h_fulfillment_proof"]

/-- The unique constraints of `constrain_table_policy_details`. -/
def policyDetailsUnique : List (List String) :=
  [["policy_details_serial_id"], ["policy_hash_code", "h_fulfillment_proof"]]

/-! ## The procedure -/

/-- What a statement of the procedure can fail with. -/
inductive PolicyError
  | arithmetic (e : PgError)
  | invalidColumnReference
  | undefinedColumn (name : String)
  | checkViolation
deriving DecidableEq, Repr

/-- The arguments of `exchange_do_insert_or_update_policy_details`. -/
structure PolicyDetails where
  policyHashCode : HashCode
  policyJson : String
  deadline : Timestamp
  commitment : Amount
  accumulatedTotal : Amount
  fee : Amount
  transferable : Amount
  fulfillmentState : PolicyFulfillmentState
deriving DecidableEq, Repr

/-- The row of a new policy. -/
def PolicyDetails.row (a : PolicyDetails) (i : ℕ) : PolicyDetail :=
  ⟨i, a.policyHashCode, a.policyJson, a.deadline, a.commitment, a.accumulatedTotal, a.fee,
    a.transferable, a.fulfillmentState.toInt, none⟩

theorem PolicyDetails.serial_row (a : PolicyDetails) (i : ℕ) : Record.serial (a.row i) = i := rfl

/-- The results; the state is not set on every path. -/
structure PolicyDetailsOut where
  policyDetailsSerialId : ℕ
  accumulatedTotal : TalerAmount
  fulfillmentState : Option ℤ
deriving DecidableEq, Repr

/-- `ON CONFLICT (…)`: there has to be a unique constraint on exactly these columns. -/
def conflictArbiter (uniques : List (List String)) (target : List String) :
    Except PolicyError Unit :=
  if uniques.any fun u => u.isPerm target then .ok () else .error .invalidColumnReference

/-- A column or variable in an expression of type `SMALLINT`. -/
def PolicyDetailsOut.smallint (out : PolicyDetailsOut) (name : String) :
    Except PolicyError (Option ℤ) :=
  if name = "out_fulfillment_state" then .ok out.fulfillmentState
  else .error (.undefinedColumn name)

/-- The columns on the left in a `SET` clause. -/
def assignColumns (names : List String) : Except PolicyError Unit :=
  match names.find? fun n => n ∉ policyDetailsColumns with
  | none => .ok ()
  | some n => .error (.undefinedColumn n)

/-- The errors of arithmetic. -/
def liftPg {α : Type} : Except PgError α → Except PolicyError α
  | .ok x => .ok x
  | .error e => .error (.arithmetic e)

/-- The new total, with the bound that is checked. -/
def accumulateTotal (cur contribution : TalerAmount) : Except PgError TalerAmount := do
  let val ← int8 (cur.val + contribution.val)
  let frac ← int4 (cur.frac + contribution.frac)
  let val ← int8 (val + frac.tdiv 100000000)
  if val > int4ShiftLeft 1 52 then .error .raiseException
  else .ok ⟨val, frac.tmod 100000000⟩

/-- Whether the new total is enough; the comparison of the values is not strict. -/
def policyFunded (total commitment : TalerAmount) : Bool :=
  total.val ≥ commitment.val ∨ (total.val = commitment.val ∧ total.frac ≥ commitment.frac)

/-- The `UPDATE` at the end. -/
def updatePolicyDetails (db : Table PolicyDetail) (out : PolicyDetailsOut) :
    Except PolicyError (Table PolicyDetail) := do
  assignColumns ["accumulated", "fulfillment_state"]
  match out.fulfillmentState with
  | none => .error .checkViolation
  | some state =>
    .ok (db.update (fun r => r.policyDetailsSerialId = out.policyDetailsSerialId) fun r =>
      { r with accumulatedTotal := out.accumulatedTotal, fulfillmentState := state })

/-- The part of the procedure after a conflict. -/
def updatePolicy (db : Table PolicyDetail) (rval : PolicyDetail) (a : PolicyDetails) :
    Except PolicyError (Table PolicyDetail × PolicyDetailsOut) := do
  let total ← liftPg (accumulateTotal rval.accumulatedTotal a.accumulatedTotal)
  let out : PolicyDetailsOut := ⟨rval.policyDetailsSerialId, total, none⟩
  let state ← out.smallint "out_fullfillment_state"
  let out :=
    if state = some 2 ∧ policyFunded total rval.commitment then
      { out with fulfillmentState := some 3 }
    else out
  let db ← updatePolicyDetails db out
  .ok (db, out)

/-- `exchange_do_insert_or_update_policy_details`, for a table with the unique constraints. -/
def insertOrUpdatePolicyDetails (uniques : List (List String)) (db : Table PolicyDetail)
    (a : PolicyDetails) : Except PolicyError (Table PolicyDetail × PolicyDetailsOut) := do
  conflictArbiter uniques ["policy_hash_code"]
  match db.rows.find? fun r => r.policyHashCode = a.policyHashCode with
  | some rval => updatePolicy db rval a
  | none =>
    match db.insert? a.row a.serial_row with
    | none => .error .checkViolation
    | some db' =>
      .ok (db', ⟨db.nextSerial, a.accumulatedTotal, some a.fulfillmentState.toInt⟩)

/-- The calls one after the other, with the table and the results after each. -/
def policyRun (uniques : List (List String)) :
    Table PolicyDetail → List PolicyDetails →
      Except PolicyError (List (Table PolicyDetail × PolicyDetailsOut))
  | _, [] => .ok []
  | db, a :: calls => do
    let r ← insertOrUpdatePolicyDetails uniques db a
    let rs ← policyRun uniques r.1 calls
    .ok (r :: rs)

/-! ## What a run is to do -/

/-- The contributions of the calls. -/
def contributions (calls : List PolicyDetails) : ℤ :=
  (calls.map fun a => a.accumulatedTotal.units).sum

/-- The row of a policy. -/
def policyOf (db : Table PolicyDetail) (h : HashCode) : Option PolicyDetail :=
  db.rows.find? fun r => r.policyHashCode = h

/-- **The run accumulates**: every call succeeds, the total after each call is the normalised sum of
the contributions so far, and a policy that is insufficient becomes ready at the call that makes its
total reach the commitment, and only then. -/
def PolicyAccumulates (uniques : List (List String)) (h : HashCode) (db : Table PolicyDetail)
    (calls : List PolicyDetails) : Prop :=
  ∃ results, policyRun uniques db calls = .ok results ∧
    (∀ k r, results[k]? = some r → ∃ x, policyOf r.1 h = some x ∧ x.accumulatedTotal.Normal ∧
      x.accumulatedTotal.units = contributions (calls.take (k + 1))) ∧
    ∀ k r r', results[k]? = some r → results[k + 1]? = some r' →
      ∀ x x', policyOf r.1 h = some x → policyOf r'.1 h = some x' → x.fulfillmentState = 2 →
        x'.fulfillmentState = if x.commitment.units ≤ x'.accumulatedTotal.units then 3 else 2

/-! ## Which runs do -/

section Runs

variable {uniques : List (List String)} {h : HashCode} {db : Table PolicyDetail}
  {a : PolicyDetails}

theorem conflictArbiter_policyDetails :
    conflictArbiter policyDetailsUnique ["policy_hash_code"] = .error .invalidColumnReference := by
  decide

theorem insertOrUpdate_error_arbiter {e : PolicyError}
    (he : conflictArbiter uniques ["policy_hash_code"] = .error e) :
    insertOrUpdatePolicyDetails uniques db a = .error e := by
  unfold insertOrUpdatePolicyDetails
  rw [he]
  rfl

variable {calls : List PolicyDetails}

/-- **With the constraints of the table no call succeeds.** -/
theorem policyAccumulates_iff (h : HashCode) (db : Table PolicyDetail) (calls : List PolicyDetails) :
    PolicyAccumulates policyDetailsUnique h db calls ↔ calls = [] := by
  cases calls with
  | nil => exact iff_of_true ⟨[], rfl, by simp, by simp⟩ rfl
  | cons a rest =>
    refine iff_of_false ?_ (List.cons_ne_nil _ _)
    rintro ⟨results, hrun, -, -⟩
    rw [policyRun, insertOrUpdate_error_arbiter conflictArbiter_policyDetails] at hrun
    exact nomatch hrun

end Runs

/-- A first deposit under a policy. -/
def firstContribution : PolicyDetails where
  policyHashCode := 1
  policyJson := "\x7b\x7d"
  deadline := 100
  commitment := Amount.whole 10
  accumulatedTotal := Amount.whole 4
  fee := Amount.whole 1
  transferable := Amount.whole 3
  fulfillmentState := .insufficient

/-- The first deposit fails. -/
theorem not_policyAccumulates : ¬ ∀ (h : HashCode) (db : Table PolicyDetail)
    (calls : List PolicyDetails), (∀ a ∈ calls, a.policyHashCode = h) →
      contributions calls < Amount.unitsBound →
        PolicyAccumulates policyDetailsUnique h db calls := by
  intro hall
  obtain ⟨results, hrun, -, -⟩ := hall 1 Table.empty [firstContribution] (by simp [firstContribution])
    (by decide)
  rw [policyRun, insertOrUpdate_error_arbiter conflictArbiter_policyDetails] at hrun
  exact nomatch hrun

end TalerExchange
