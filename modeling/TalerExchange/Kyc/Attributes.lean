import TalerExchange.Kyc.Funding

/-!
# KYC attributes and birthdays

When a provider has affirmed attributes of a customer, `exchange_do_persist_kyc_attributes` stores them,
finishes the process and sets the birthday of the reserves that the account has funded, in so far as
they are still in use.

* `AttributesDatabase`: the tables of the procedure;
* `persistKycAttributes`: the procedure;
* `OnlyAccount`: it changes the birthdays of reserves that the account has funded, and nothing else
  about reserves;
* **`onlyAccount_iff`**: when it does so.
-/

namespace TalerExchange

open Sql

/-! ## Tables -/

/-- The columns of `legitimization_processes` about the provider. -/
structure ProcessProvider where
  legitimizationProcessSerialId : ℕ
  providerName : String
  providerUserId : Option String := none
  providerLegitimizationId : Option String := none
  expirationTime : Timestamp := 0
deriving DecidableEq, Repr

instance : Record ProcessProvider ℕ :=
  ⟨ProcessProvider.legitimizationProcessSerialId, ProcessProvider.legitimizationProcessSerialId⟩

/-- `kyc_attributes`. -/
structure KycAttributes where
  kycAttributesSerialId : ℕ
  hPayto : HashCode
  collectionTime : Timestamp
  expirationTime : Timestamp
  encryptedAttributes : List UInt8
  legitimizationSerial : ℕ
deriving DecidableEq, Repr

instance : Record KycAttributes ℕ :=
  ⟨KycAttributes.kycAttributesSerialId, KycAttributes.kycAttributesSerialId⟩

/-- The tables of the procedure. -/
structure AttributesDatabase extends KycDatabase where
  reserves : Table Reserve := Table.empty
  providers : Table ProcessProvider := Table.empty
  kycAttributes : Table KycAttributes := Table.empty

/-- A row of `reserves`. -/
def Reserve.scope (r : Reserve) : Scope Cell :=
  [("reserve_uuid", some (.int8 r.reserveUuid)),
    ("reserve_pub", some (.bytea r.reservePub)),
    ("current_balance", some (.amount r.currentBalance)),
    ("purses_active", some (.int8 r.pursesActive)),
    ("purses_allowed", some (.int8 r.pursesAllowed)),
    ("birthday", some (.int8 r.birthday)),
    ("expiration_date", some (.int8 r.expirationDate)),
    ("gc_date", some (.int8 r.gcDate))]

/-! ## The procedure -/

/-- The arguments of `exchange_do_persist_kyc_attributes`. -/
structure PersistKycAttributes where
  processRow : Option ℕ
  hPayto : HashCode
  birthday : ℤ
  providerName : String
  providerAccountId : Option String
  providerLegitimizationId : Option String
  collectionTimeTs : Timestamp
  expirationTime : Timestamp
  expirationTimeTs : Timestamp
  encAttributes : Option (List UInt8)
deriving DecidableEq, Repr

/-- The process of the account in a row, if it is with this provider. -/
def AttributesDatabase.isProcess (db : AttributesDatabase) (h : HashCode) (row : ℕ)
    (provider : String) : Bool :=
  db.processes.rows.any (LegitimizationProcess.isRow h row) &&
    db.providers.rows.any fun r =>
      r.legitimizationProcessSerialId = row ∧ r.providerName = provider

/-- `UPDATE legitimization_processes`. -/
def AttributesDatabase.finishProcess (db : AttributesDatabase) (a : PersistKycAttributes) (row : ℕ) :
    AttributesDatabase :=
  if db.isProcess a.hPayto row a.providerName then
    { db with
      processes := db.processes.update (LegitimizationProcess.isRow a.hPayto row) fun r =>
        { r with finished := true }
      providers := db.providers.update (fun r => r.legitimizationProcessSerialId = row) fun r =>
        { r with
          providerUserId := a.providerAccountId
          providerLegitimizationId := a.providerLegitimizationId
          expirationTime := max r.expirationTime a.expirationTime } }
  else db

/-- `WHERE (reserve_pub IN …) AND …`, the last clauses to limit unnecessary updates. -/
def AttributesDatabase.setsBirthday (db : AttributesDatabase) (a : PersistKycAttributes)
    (r : Reserve) : Bool :=
  selectIn [r.scope] (resolve [r.scope] "reserve_pub") "reserve_pub"
    ((db.transfersFrom a.hPayto "wire_source_h_payto" [r.scope]).map ReserveIn.scope)
    (fun _ => true) &&
    (decide (0 < r.currentBalance.frac) || decide (0 < r.currentBalance.val)) &&
    decide (a.collectionTimeTs < r.expirationDate)

/-- `UPDATE reserves SET birthday`. -/
def AttributesDatabase.setBirthdays (db : AttributesDatabase) (a : PersistKycAttributes) :
    AttributesDatabase :=
  { db with
    reserves := db.reserves.update (db.setsBirthday a) fun r => { r with birthday := a.birthday } }

/-- `exchange_do_persist_kyc_attributes`. Attributes and the row of the process must not be `NULL`, and
the row must refer to a process. -/
def persistKycAttributes (db : AttributesDatabase) (a : PersistKycAttributes) :
    Option (AttributesDatabase × Bool) := do
  let row ← a.processRow.filter fun row =>
    db.processes.rows.any fun r => r.legitimizationProcessSerialId = row
  let enc ← a.encAttributes
  let attributes ← db.kycAttributes.insert? fun i =>
    ⟨i, a.hPayto, a.collectionTimeTs, a.expirationTimeTs, enc, row⟩
  let db := { db with kycAttributes := attributes }
  let ok := db.isProcess a.hPayto row a.providerName
  let db := (db.finishProcess a row).setBirthdays a
  return ({ db with toKycDatabase := db.toKycDatabase.alert a.hPayto }, ok)

/-- **One call**; an exception leaves the database as it was. -/
def persistStep (db : AttributesDatabase) (a : PersistKycAttributes) : AttributesDatabase :=
  ((persistKycAttributes db a).map Prod.fst).getD db

/-! ## The effect on reserves -/

/-- **Only the account is affected**: reserves that it has not funded stay as they are, and no balance
changes. -/
structure OnlyAccount (db db' : AttributesDatabase) (h : HashCode) : Prop where
  others : ∀ p, ¬ db.FundedBy h p → db'.reserves.lookup p = db.reserves.lookup p
  balances : ∀ p, (db'.reserves.lookup p).map Reserve.currentBalance =
    (db.reserves.lookup p).map Reserve.currentBalance

/-- The call goes through: it names a process and has attributes. -/
def AttributesDatabase.Accepts (db : AttributesDatabase) (a : PersistKycAttributes) : Prop :=
  (∃ row ∈ a.processRow, ∃ r ∈ db.processes.rows, r.legitimizationProcessSerialId = row) ∧
    a.encAttributes ≠ none

/-- The reserve is still in use: it is not empty, and does not expire before the attributes were
collected. -/
def Reserve.InUse (collected : Timestamp) (r : Reserve) : Prop :=
  (0 < r.currentBalance.frac ∨ 0 < r.currentBalance.val) ∧ collected < r.expirationDate

/-- Some account has made a transfer to the reserve. -/
def KycDatabase.Received (db : KycDatabase) (p : ReservePub) : Prop :=
  ∃ ri ∈ db.reservesIn.rows, ri.reservePub = p

section Effect

variable {db : AttributesDatabase} {a : PersistKycAttributes}

/-- **The reserves that are updated**: all that have received a transfer from anyone. -/
theorem setsBirthday_iff {r : Reserve} : db.setsBirthday a r = true ↔
    (db.targetsOf a.hPayto ≠ [] ∧ db.Received r.reservePub) ∧ r.InUse a.collectionTimeTs := by
  have hcol : ∀ s ∈ (db.transfersFrom a.hPayto "wire_source_h_payto" [r.scope]).map ReserveIn.scope,
      s.lookup "reserve_pub" = some (resolve [s] "reserve_pub") := by
    intro s hs
    obtain ⟨ri, -, rfl⟩ := List.mem_map.mp hs
    rfl
  have hsel : selectIn [r.scope] (resolve [r.scope] "reserve_pub") "reserve_pub"
      ((db.transfersFrom a.hPayto "wire_source_h_payto" [r.scope]).map ReserveIn.scope)
      (fun _ => true) = true ↔ db.targetsOf a.hPayto ≠ [] ∧ db.Received r.reservePub := by
    rw [selectIn_inner hcol, transfersFrom_source]
    constructor
    · rintro ⟨s, hs, -, he⟩
      obtain ⟨ri, hri, rfl⟩ := List.mem_map.mp hs
      have he' : sqlEq (some (Cell.bytea ri.reservePub)) (some (Cell.bytea r.reservePub)) = true :=
        he
      rw [sqlEq_some, Option.some.injEq, Cell.bytea.injEq] at he'
      split_ifs at hri with hn
      · cases hri
      · exact ⟨hn, ri, hri, he'⟩
    · rintro ⟨hn, ri, hri, he⟩
      refine ⟨ri.scope, List.mem_map_of_mem (by rwa [if_neg hn]), rfl, ?_⟩
      show sqlEq (some (Cell.bytea ri.reservePub)) (some (Cell.bytea r.reservePub)) = true
      rw [sqlEq_some, he]
  unfold AttributesDatabase.setsBirthday Reserve.InUse
  rw [Bool.and_eq_true, Bool.and_eq_true, Bool.or_eq_true, decide_eq_true_eq, decide_eq_true_eq,
    decide_eq_true_eq, hsel, and_assoc]

theorem reserves_finishProcess {row : ℕ} : (db.finishProcess a row).reserves = db.reserves := by
  unfold AttributesDatabase.finishProcess
  split_ifs
  · rfl
  · rfl

theorem setsBirthday_finishProcess {row : ℕ} :
    (db.finishProcess a row).setsBirthday a = db.setsBirthday a := by
  unfold AttributesDatabase.finishProcess
  split_ifs
  · rfl
  · rfl

theorem lookup_setBirthdays (p : ReservePub) : (db.setBirthdays a).reserves.lookup p =
    (db.reserves.lookup p).map fun r =>
      if db.setsBirthday a r then { r with birthday := a.birthday } else r := by
  unfold AttributesDatabase.setBirthdays
  simp only [Table.lookup_update]

variable (db a) in
/-- A call that goes through updates the reserves; any other leaves everything as it was. -/
theorem persistStep_reserves (p : ReservePub) : (db.Accepts a ∧
      (persistStep db a).reserves.lookup p = (db.reserves.lookup p).map fun r =>
        if db.setsBirthday a r then { r with birthday := a.birthday } else r) ∨
    (¬ db.Accepts a ∧ persistStep db a = db) := by
  unfold persistStep persistKycAttributes AttributesDatabase.Accepts
  cases hrow : a.processRow.filter fun row =>
      db.processes.rows.any fun r => r.legitimizationProcessSerialId = row with
  | none =>
    refine .inr ⟨?_, by simp⟩
    rintro ⟨⟨row, hr, r, hm, he⟩, -⟩
    rw [Option.filter_eq_none_iff] at hrow
    exact hrow row hr (List.any_eq_true.mpr ⟨r, hm, decide_eq_true he⟩)
  | some row =>
    rw [Option.filter_eq_some_iff, List.any_eq_true] at hrow
    obtain ⟨hr, r, hm, he⟩ := hrow
    cases henc : a.encAttributes with
    | none => exact .inr ⟨by simp, by simp⟩
    | some enc =>
      obtain ⟨t, ht⟩ := Table.exists_insert?_of_serial (fun _ => rfl) db.kycAttributes
        (fun i => (⟨i, a.hPayto, a.collectionTimeTs, a.expirationTimeTs, enc, row⟩ : KycAttributes))
        fun _ => rfl
      refine .inl ⟨⟨⟨row, hr, r, hm, of_decide_eq_true he⟩, by simp⟩, ?_⟩
      simp only [Option.bind_eq_bind, Option.bind_some, ht, Option.map_some, Option.getD_some,
        Option.pure_def]
      show ((AttributesDatabase.finishProcess { db with kycAttributes := t } a row).setBirthdays
        a).reserves.lookup p = _
      rw [lookup_setBirthdays, reserves_finishProcess, setsBirthday_finishProcess]
      rfl

end Effect

/-- **Only the account is affected if and only if** the call fails, the account is unknown, or every
reserve in use with an incoming transfer and another birthday was funded by the account. -/
theorem onlyAccount_iff (db : AttributesDatabase) (a : PersistKycAttributes) :
    OnlyAccount db (persistStep db a) a.hPayto ↔
      (db.Accepts a → db.targetsOf a.hPayto ≠ [] → ∀ r ∈ db.reserves.rows,
        db.Received r.reservePub → r.InUse a.collectionTimeTs → r.birthday ≠ a.birthday →
          db.FundedBy a.hPayto r.reservePub) := by
  constructor
  · intro ho hacc ht r hr hrec huse hb
    by_contra hf
    obtain ⟨-, hl⟩ | ⟨hna, -⟩ := persistStep_reserves db a r.reservePub
    · have hr' : db.reserves.lookup r.reservePub = some r := Table.lookup_eq_some.mpr ⟨hr, rfl⟩
      have hsame := ho.others r.reservePub hf
      rw [hl, hr', Option.map_some, if_pos (setsBirthday_iff.mpr ⟨⟨ht, hrec⟩, huse⟩),
        Option.some.injEq] at hsame
      exact hb (congrArg Reserve.birthday hsame).symm
    · exact hna hacc
  · intro hc
    constructor
    · intro p hf
      obtain ⟨hacc, hl⟩ | ⟨-, he⟩ := persistStep_reserves db a p
      · rw [hl]
        cases hr : db.reserves.lookup p with
        | none => rfl
        | some r =>
          obtain ⟨hm, hk⟩ := Table.lookup_eq_some.mp hr
          rw [Option.map_some]
          split_ifs with hs
          · obtain ⟨⟨ht, hrec⟩, huse⟩ := setsBirthday_iff.mp hs
            have hb : r.birthday = a.birthday := by
              by_contra hb
              have hp : r.reservePub = p := hk
              exact hf (hp ▸ hc hacc ht r hm hrec huse hb)
            rw [← hb]
          · rfl
      · rw [he]
    · intro p
      obtain ⟨-, hl⟩ | ⟨-, he⟩ := persistStep_reserves db a p
      · rw [hl, Option.map_map]
        congr 1
        funext r
        simp only [Function.comp_apply]
        split_ifs
        · rfl
        · rfl
      · rw [he]

/-- Two accounts, each with a reserve, and a KYC process of the first one. -/
def twoReserves : AttributesDatabase :=
  { wireTargets := .ofRows [⟨1, 10, some 1, "payto", 100, none, none⟩,
      ⟨2, 20, some 2, "payto", 200, none, none⟩]
    reservesIn := .ofRows [⟨1, 7, 1, .whole 5, 10, "exchange", 3⟩,
      ⟨2, 8, 2, .whole 5, 20, "exchange", 4⟩]
    processes := .ofRows [⟨1, 1, none, false, 0, none⟩]
    providers := .ofRows [⟨1, "provider", none, none, 0⟩]
    reserves := .ofRows [⟨1, 7, ⟨5, 0⟩, 0, 0, 0, 50, 60⟩, ⟨2, 8, ⟨5, 0⟩, 0, 0, 0, 50, 60⟩] }

/-- Attributes of the first account. -/
def firstAccountAttributes : PersistKycAttributes :=
  ⟨some 1, 1, 4000, "provider", none, none, 10, 100, 100, some []⟩

/-- **Other accounts may be affected**: the reserve of the second account gets the birthday of the owner
of the first. -/
theorem not_onlyAccount : ¬ ∀ (db : AttributesDatabase) (a : PersistKycAttributes),
    OnlyAccount db (persistStep db a) a.hPayto := by
  intro hall
  have ho := (hall twoReserves firstAccountAttributes).others 8 (by decide)
  have hb := congrArg (Option.map Reserve.birthday) ho
  revert hb
  decide

end TalerExchange
