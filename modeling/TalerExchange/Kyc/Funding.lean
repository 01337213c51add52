import TalerExchange.Kyc.AccountRules
import TalerExchange.Sql.Scope

/-!
# The reserves that an account has funded

Three procedures look for the incoming transfers of an account with a sub-query on `wire_targets`. One
of them selects `wire_target_h_payto`, the others `wire_source_h_payto`, which is a column of
`reserves_in` only.

* `FundedBy`: a reserve received a transfer from a row of the account;
* `transfersFrom`: the query with the sub-query, its names resolved by scope;
* **`mem_transfersFrom_target`**, **`transfersFrom_source`**: what it finds, by the selected column;
* `lookupKycRequirementByRow_reservePub`: the key that opens the status of an account comes from the
  second query;
* **`keyOfAccount_iff`**: when it is a key of the account.
-/

namespace TalerExchange

open Sql

/-! ## Rows as scopes -/

/-- The contents of a column. -/
inductive Cell
  | bytea (b : ℕ)
  | int8 (i : ℤ)
  | text (s : String)
  | amount (a : TalerAmount)
deriving DecidableEq, Repr

/-- A row of `wire_targets`. -/
def KycTarget.scope (r : KycTarget) : Scope Cell :=
  [("wire_target_serial_id", some (.int8 r.wireTargetSerialId)),
    ("wire_target_h_payto", some (.bytea r.wireTargetHPayto)),
    ("payto_uri", some (.text r.paytoUri)),
    ("access_token", some (.bytea r.accessToken)),
    ("target_pub", r.targetPub.map .bytea),
    ("h_normalized_payto", r.hNormalizedPayto.map .bytea),
    ("aml_program_lock_timeout", r.amlProgramLockTimeout.map .int8)]

/-- A row of `reserves_in`. -/
def ReserveIn.scope (r : ReserveIn) : Scope Cell :=
  [("reserve_in_serial_id", some (.int8 r.reserveInSerialId)),
    ("reserve_pub", some (.bytea r.reservePub)),
    ("wire_reference", some (.int8 r.wireReference)),
    ("credit", some (.amount r.credit.toTaler)),
    ("wire_source_h_payto", some (.bytea r.wireSourceHPayto)),
    ("exchange_account_section", some (.text r.exchangeAccountSection)),
    ("execution_date", some (.int8 r.executionDate))]

/-- `SELECT … FROM reserves_in WHERE wire_source_h_payto IN (SELECT column FROM wire_targets WHERE
h_normalized_payto=h)`, inside of the queries `outer`. -/
def KycDatabase.transfersFrom (db : KycDatabase) (h : HashCode) (column : String)
    (outer : List (Scope Cell)) : List ReserveIn :=
  db.reservesIn.rows.filter fun ri =>
    selectIn (ri.scope :: outer) (resolve (ri.scope :: outer) "wire_source_h_payto") column
      (db.wireTargets.rows.map KycTarget.scope) fun scopes =>
        sqlEq (resolve scopes "h_normalized_payto") (some (.bytea h))

/-! ## Funding -/

/-- The transfer comes from a row of the account. -/
def KycDatabase.IsSource (db : KycDatabase) (h : HashCode) (ri : ReserveIn) : Prop :=
  ∃ wt ∈ db.targetsOf h, wt.wireTargetHPayto = ri.wireSourceHPayto

/-- **The account has funded the reserve**: the reserve received a transfer from one of its rows. -/
def KycDatabase.FundedBy (db : KycDatabase) (h : HashCode) (p : ReservePub) : Prop :=
  ∃ ri ∈ db.reservesIn.rows, ri.reservePub = p ∧ db.IsSource h ri

instance (db : KycDatabase) (h : HashCode) (ri : ReserveIn) : Decidable (db.IsSource h ri) :=
  inferInstanceAs (Decidable (∃ wt ∈ db.targetsOf h, wt.wireTargetHPayto = ri.wireSourceHPayto))

instance (db : KycDatabase) (h : HashCode) (p : ReservePub) : Decidable (db.FundedBy h p) :=
  inferInstanceAs (Decidable (∃ ri ∈ db.reservesIn.rows, ri.reservePub = p ∧ db.IsSource h ri))

section Query

variable {db : KycDatabase} {h : HashCode} {outer : List (Scope Cell)} {ri : ReserveIn}

/-- Only one transfer is made to a reserve. -/
theorem fundedBy_iff (hri : ri ∈ db.reservesIn.rows) :
    db.FundedBy h ri.reservePub ↔ db.IsSource h ri := by
  constructor
  · rintro ⟨ri', hri', hp, hs⟩
    rw [← Table.eq_of_key hri' hri hp]
    exact hs
  · intro hs
    exact ⟨ri, hri, rfl, hs⟩

theorem KycDatabase.FundedBy.targetsOf_ne_nil {p : ReservePub} (hf : db.FundedBy h p) : db.targetsOf h ≠ [] := by
  obtain ⟨_, -, -, wt, hwt, -⟩ := hf
  exact List.ne_nil_of_mem hwt

/-- The condition of the sub-query selects the rows of the account. -/
theorem selects_account {s : List (Scope Cell)} {wt : KycTarget} :
    sqlEq (resolve (wt.scope :: s) "h_normalized_payto") (some (Cell.bytea h)) = true ↔
      wt.hNormalizedPayto = some h := by
  rw [resolve_cons_of_some (v := wt.hNormalizedPayto.map Cell.bytea) rfl, sqlEq_some]
  cases wt.hNormalizedPayto <;> simp

/-- **With `wire_target_h_payto`** the query finds the transfers from the rows of the account. -/
theorem mem_transfersFrom_target : ri ∈ db.transfersFrom h "wire_target_h_payto" outer ↔
    ri ∈ db.reservesIn.rows ∧ db.IsSource h ri := by
  have hcol : ∀ s ∈ db.wireTargets.rows.map KycTarget.scope,
      s.lookup "wire_target_h_payto" = some (resolve [s] "wire_target_h_payto") := by
    intro s hs
    obtain ⟨wt, -, rfl⟩ := List.mem_map.mp hs
    rfl
  unfold KycDatabase.transfersFrom
  rw [List.mem_filter]
  refine and_congr_right fun _ => ?_
  rw [selectIn_inner hcol]
  constructor
  · rintro ⟨s, hs, hh, he⟩
    obtain ⟨wt, hwt, rfl⟩ := List.mem_map.mp hs
    refine ⟨wt, mem_targetsOf.mpr ⟨hwt, selects_account.mp hh⟩, ?_⟩
    have he' : sqlEq (some (Cell.bytea wt.wireTargetHPayto))
      (some (Cell.bytea ri.wireSourceHPayto)) = true := he
    rw [sqlEq_some, Option.some.injEq, Cell.bytea.injEq] at he'
    exact he'
  · rintro ⟨wt, hwt, he⟩
    obtain ⟨hm, hh⟩ := mem_targetsOf.mp hwt
    refine ⟨wt.scope, List.mem_map_of_mem hm, selects_account.mpr hh, ?_⟩
    show sqlEq (some (Cell.bytea wt.wireTargetHPayto))
      (some (Cell.bytea ri.wireSourceHPayto)) = true
    rw [sqlEq_some, he]

/-- **With `wire_source_h_payto`** the query finds every transfer, if the account is known. -/
theorem transfersFrom_source : db.transfersFrom h "wire_source_h_payto" outer =
    if db.targetsOf h = [] then [] else db.reservesIn.rows := by
  have hcol : ∀ s ∈ db.wireTargets.rows.map KycTarget.scope,
      s.lookup "wire_source_h_payto" = none := by
    intro s hs
    obtain ⟨wt, -, rfl⟩ := List.mem_map.mp hs
    rfl
  have hrow : ∀ ri : ReserveIn, selectIn (ri.scope :: outer)
      (resolve (ri.scope :: outer) "wire_source_h_payto") "wire_source_h_payto"
      (db.wireTargets.rows.map KycTarget.scope) (fun scopes =>
        sqlEq (resolve scopes "h_normalized_payto") (some (Cell.bytea h))) = true ↔
      db.targetsOf h ≠ [] := by
    intro ri
    rw [selectIn_outer hcol]
    constructor
    · rintro ⟨-, s, hs, hp⟩
      obtain ⟨wt, hm, rfl⟩ := List.mem_map.mp hs
      exact List.ne_nil_of_mem (mem_targetsOf.mpr ⟨hm, selects_account.mp hp⟩)
    · intro hne
      obtain ⟨wt, hwt⟩ := List.exists_mem_of_ne_nil _ hne
      obtain ⟨hm, hh⟩ := mem_targetsOf.mp hwt
      exact ⟨rfl, wt.scope, List.mem_map_of_mem hm, selects_account.mpr hh⟩
  unfold KycDatabase.transfersFrom
  split_ifs with hn
  · exact List.filter_eq_nil_iff.mpr fun ri _ hp => (hrow ri).mp hp hn
  · exact List.filter_eq_self.mpr fun ri _ => (hrow ri).mpr hn

end Query

/-! ## The key that opens the status of an account -/

/-- `ORDER BY execution_date DESC`. -/
def laterTransfer (r r' : ReserveIn) : Bool := decide (r'.executionDate ≤ r.executionDate)

/-- The latest incoming transfer of all. -/
def KycDatabase.latestTransfer (db : KycDatabase) : Option ReserveIn :=
  firstBy laterTransfer db.reservesIn.rows

/-- **The key for the status of the account**, if one is returned, is that of a reserve that the account
has funded, and there is one if the account has funded any. -/
structure KeyOfAccount (db : KycDatabase) (h : HashCode) : Prop where
  own : ∀ p ∈ (lookupKycRequirementByRow db h).reservePub, db.FundedBy h p
  found : (∃ p, db.FundedBy h p) → (lookupKycRequirementByRow db h).reservePub ≠ none

section Key

variable {db : KycDatabase} {h : HashCode}

/-- **The key comes from the query**, with the column that `wire_targets` does not have. -/
theorem lookupKycRequirementByRow_reservePub : (lookupKycRequirementByRow db h).reservePub =
    (firstBy laterTransfer (db.transfersFrom h "wire_source_h_payto" [])).map
      ReserveIn.reservePub := by
  rw [transfersFrom_source]
  unfold lookupKycRequirementByRow
  cases ht : db.targetsOf h with
  | nil => simp
  | cons wt rest =>
    rw [if_neg (List.cons_ne_nil wt rest)]
    rfl

theorem lookup_reservePub : (lookupKycRequirementByRow db h).reservePub =
    if db.targetsOf h = [] then none else db.latestTransfer.map ReserveIn.reservePub := by
  rw [lookupKycRequirementByRow_reservePub, transfersFrom_source]
  split_ifs
  · rfl
  · rfl

/-- There is a key whenever there is a transfer. -/
theorem lookup_reservePub_ne_none {p : ReservePub} (hf : db.FundedBy h p) :
    (lookupKycRequirementByRow db h).reservePub ≠ none := by
  rw [lookup_reservePub, if_neg hf.targetsOf_ne_nil]
  obtain ⟨ri, hri, -⟩ := hf
  intro hnone
  rw [Option.map_eq_none_iff] at hnone
  exact List.ne_nil_of_mem hri (firstBy_eq_none.mp hnone)

end Key

/-- **The key that opens the status of an account belongs to the account if and only if** the account is
unknown or the latest transfer of all comes from it. -/
theorem keyOfAccount_iff (db : KycDatabase) (h : HashCode) : KeyOfAccount db h ↔
    (db.targetsOf h ≠ [] → ∀ ri ∈ db.latestTransfer, db.IsSource h ri) := by
  have hown : (∀ p ∈ (lookupKycRequirementByRow db h).reservePub, db.FundedBy h p) ↔
      (db.targetsOf h ≠ [] → ∀ ri ∈ db.latestTransfer, db.IsSource h ri) := by
    rw [lookup_reservePub]
    split_ifs with hn
    · simp [hn]
    · constructor
      · intro hp _ ri hri
        have hm : ri ∈ db.reservesIn.rows := firstBy_mem hri
        exact (fundedBy_iff hm).mp (hp _ (by simp [Option.mem_def.mp hri]))
      · intro hs p hp
        obtain ⟨ri, hri, rfl⟩ := Option.map_eq_some_iff.mp hp
        exact (fundedBy_iff (firstBy_mem hri)).mpr (hs hn ri hri)
  exact ⟨fun hk => hown.mp hk.own,
    fun hs => ⟨hown.mpr hs, fun ⟨_, hf⟩ => lookup_reservePub_ne_none hf⟩⟩

/-- Two accounts, of which only the second one has made a transfer. -/
def twoAccounts : KycDatabase :=
  { wireTargets := .ofRows [⟨1, 10, some 1, "payto", 100, none, none⟩,
      ⟨2, 20, some 2, "payto", 200, none, none⟩]
    reservesIn := .ofRows [⟨1, 7, 1, .whole 5, 20, "exchange", 3⟩] }

/-- **The key may be that of another account**: the reserve of the second account opens the status of
the first. -/
theorem not_keyOfAccount : ¬ ∀ (db : KycDatabase) (h : HashCode), KeyOfAccount db h := by
  intro hall
  have hf := (hall twoAccounts 1).own 7 rfl
  revert hf
  decide

end TalerExchange
