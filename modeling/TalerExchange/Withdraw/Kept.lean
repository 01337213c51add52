import TalerExchange.Reserve.Ledger
import TalerExchange.Withdraw.Handler

/-!
# What withdrawals leave in the database

The handler of withdraw requests runs between the other operations on the database. What a request
has stored stays there.

* `WithdrawEvent`, `withdrawServe`: the server;
* `Keeps`: what is stored for withdrawals stays; **`Posts.keeps`**: a posting keeps it;
* `OutRows`: rows of batches are for planchets of known denominations; **`Posts.outRows`**.
-/

namespace TalerExchange

open Sql Transition

/-! ## The server -/

/-- The arguments of `exchange_do_persist_kyc_attributes` that reserves depend on. -/
structure KycAttributesArgs where
  hNormalizedPayto : HashCode
  birthday : ℤ
  collectionTime : Timestamp
deriving DecidableEq, Repr

/-- The reserve was filled from the account, has a balance and has not expired. -/
def Database.concerns (db : Database) (a : KycAttributesArgs) (r : Reserve) : Bool :=
  (db.reservesIn.rows.any fun ri => ri.reservePub = r.reservePub ∧
    db.wireTargets.rows.any fun wt => wt.hNormalizedPayto = a.hNormalizedPayto ∧
      wt.wireTargetHPayto = ri.wireSourceHPayto) &&
  (0 < r.currentBalance.frac ∨ 0 < r.currentBalance.val) && a.collectionTime < r.expirationDate

/-- `exchange_do_persist_kyc_attributes`: the birthday of the owner of an account. -/
def exchangeDoPersistKycAttributes (db : Database) (a : KycAttributesArgs) : Database :=
  { db with
    reserves := db.reserves.update (db.concerns a) fun r => { r with birthday := a.birthday } }

/-- Withdrawals, which come through the handler. -/
def Op.isWithdrawal : Op → Bool
  | .batchWithdraw .. => true
  | .ageWithdraw _ => true
  | _ => false

/-- The events: another operation, KYC data of an account, a request. -/
inductive WithdrawEvent
  | op (o : Op)
  | kycAttributes (a : KycAttributesArgs)
  | withdraw (env : WithdrawEnv) (req : WithdrawRequest)

/-- **One event.** -/
def withdrawServe (c : WithdrawCrypto) (db : Database) : WithdrawEvent → Database
  | .op o => if o.isWithdrawal then db else step db o
  | .kycAttributes a => exchangeDoPersistKycAttributes db a
  | .withdraw env req => (handlerWithdraw c env db req).1

/-! ## What stays -/

/-- What is stored for withdrawals stays stored. -/
structure Keeps (db db' : Database) : Prop where
  out : ∀ {k o}, db.reservesOut.lookup k = some o → db'.reservesOut.lookup k = some o
  age : ∀ {k a}, db.ageWithdraw.lookup k = some a → db'.ageWithdraw.lookup k = some a
  serial : ∀ {n d}, db.denominations.lookupSerial n = some d →
    db'.denominations.lookupSerial n = some d
  key : ∀ {h}, db.denominations.hasKey h = true → db'.denominations.hasKey h = true
  owner : ∀ {n r}, db.uuidOwner n = some r → db'.uuidOwner n = some r

section Keeps

variable {db db' : Database}

theorem Keeps.refl (db : Database) : Keeps db db :=
  ⟨fun h => h, fun h => h, fun h => h, fun h => h, fun h => h⟩

theorem Keeps.trans {db'' : Database} (h : Keeps db db') (h' : Keeps db' db'') : Keeps db db'' :=
  ⟨fun e => h'.out (h.out e), fun e => h'.age (h.age e), fun e => h'.serial (h.serial e),
    fun e => h'.key (h.key e), fun e => h'.owner (h.owner e)⟩

theorem Withdrawn.lookup {r : Reserve} {now : Timestamp} {xs : List PlanchetArgs}
    {ro : Table ReserveOut} {rh : Table ReserveHistory} (h : Withdrawn db r now xs ro rh)
    {k : HashCode} {o : ReserveOut} (ho : db.reservesOut.lookup k = some o) : ro.lookup k = some o := by
  induction h with
  | nil => exact ho
  | snoc _ _ ht _ ih => exact Table.lookup_insert?_of_some ht ih

/-- **A posting keeps what is stored for withdrawals.** -/
theorem Posts.keeps {p : Posting} (h : Posts db p db') (hs : CoinsSound db.toCoinTables) :
    Keeps db db' := by
  have howner : ∀ {n r}, db.uuidOwner n = some r → db'.uuidOwner n = some r := (h.moves hs).owner
  cases h with
  | denomination ht =>
    exact ⟨fun e => e, fun e => e, Table.lookupSerial_insert?_of_some ht,
      Table.hasKey_insert?_of_hasKey ht, howner⟩
  | wireTarget =>
    rw [addWireTarget_frame] at howner ⊢
    exact ⟨fun e => e, fun e => e, fun e => e, fun e => e, howner⟩
  | initReserve =>
    rw [initReserve_frame] at howner ⊢
    exact ⟨fun e => e, fun e => e, fun e => e, fun e => e, howner⟩
  | reservePurse _ _ _ _ _ _ _ hpay =>
    rw [payForPurse_frame hpay] at howner ⊢
    exact ⟨fun e => e, fun e => e, fun e => e, fun e => e, howner⟩
  | withdraw _ _ hw => exact ⟨hw.lookup, fun e => e, fun e => e, fun e => e, howner⟩
  | ageWithdraw _ _ ht =>
    exact ⟨fun e => e, Table.lookup_insert?_of_some ht, fun e => e, fun e => e, howner⟩
  | _ => exact ⟨fun e => e, fun e => e, fun e => e, fun e => e, howner⟩

theorem uuidOwner_persistKycAttributes (db : Database) (a : KycAttributesArgs) (n : ℕ) :
    (exchangeDoPersistKycAttributes db a).uuidOwner n = db.uuidOwner n := by
  unfold Database.uuidOwner exchangeDoPersistKycAttributes
  simp only [Table.lookupSerial_update, Option.map_map]
  congr 1
  funext r
  simp only [Function.comp_apply]
  split_ifs <;> rfl

theorem keeps_persistKycAttributes (db : Database) (a : KycAttributesArgs) :
    Keeps db (exchangeDoPersistKycAttributes db a) :=
  ⟨fun e => e, fun e => e, fun e => e, fun e => e, fun e =>
    (uuidOwner_persistKycAttributes db a _).trans e⟩

end Keeps

/-! ## Rows of withdrawals -/

/-- The rows of `reserves_out` are for planchets of known denominations. -/
def OutRows (c : WithdrawCrypto) (db : Database) : Prop :=
  ∀ o ∈ db.reservesOut.rows, ∃ p d, o.hBlindEv = c.coinEvHash p d ∧ db.denominations.hasKey d = true

/-- Planchets are recorded under their hash. -/
def WithdrawPostingOk (c : WithdrawCrypto) : Posting → Prop
  | .withdraw _ xs => ∀ x ∈ xs, ∃ p, x.hCoinEnvelope = c.coinEvHash p x.hDenomPub
  | _ => True

section OutRows

variable {c : WithdrawCrypto} {db db' : Database}

theorem OutRows.withdrawn {r : Reserve} {now : Timestamp} {xs : List PlanchetArgs}
    {ro : Table ReserveOut} {rh : Table ReserveHistory} (hi : OutRows c db)
    (h : Withdrawn db r now xs ro rh)
    (hx : ∀ x ∈ xs, ∃ p, x.hCoinEnvelope = c.coinEvHash p x.hDenomPub) :
    ∀ o ∈ ro.rows, ∃ p d, o.hBlindEv = c.coinEvHash p d ∧ db.denominations.hasKey d = true := by
  induction h with
  | nil => exact hi
  | @snoc xs x d ro ro' rh rh' _ hd ht _ ih =>
    intro o ho
    rcases (Table.mem_insert? ht).mp ho with ho | rfl
    · exact ih (fun y hy => hx y (List.mem_append_left _ hy)) o ho
    · obtain ⟨p, hp⟩ := hx x (List.mem_append_right _ (List.mem_singleton_self x))
      exact ⟨p, x.hDenomPub, hp, Table.hasKey_of_lookup hd⟩

theorem Posts.outRows {p : Posting} (h : Posts db p db') (hC : WithdrawPostingOk c p)
    (hs : CoinsSound db.toCoinTables) (hi : OutRows c db) : OutRows c db' := by
  have hk := h.keeps hs
  have hsame : db'.reservesOut = db.reservesOut → OutRows c db' := fun e o ho => by
    rw [e] at ho
    obtain ⟨p, d, hh, hd⟩ := hi o ho
    exact ⟨p, d, hh, hk.key hd⟩
  cases h with
  | wireTarget => exact hsame (by rw [addWireTarget_frame])
  | initReserve => exact hsame (by rw [initReserve_frame])
  | reservePurse _ _ _ _ _ _ _ hpay => exact hsame (by rw [payForPurse_frame hpay])
  | withdraw _ _ hw => exact hi.withdrawn hw hC
  | _ => exact hsame rfl

/-- Nothing is stored under the hash of all zeros. -/
theorem OutRows.lookup_zero (hi : OutRows c db) : db.reservesOut.lookup 0 = none := by
  cases h : db.reservesOut.lookup 0 with
  | none => rfl
  | some o =>
    obtain ⟨p, d, hh, -⟩ := hi o (Table.mem_of_lookup h)
    exact absurd (hh.symm.trans (Table.key_of_lookup h)) (c.coinEvHash_ne_zero p d)

/-- The denomination of a stored planchet is known. -/
theorem OutRows.hasKey (hi : OutRows c db) {p : BlindedPlanchet} {d : HashCode}
    (h : db.reservesOut.hasKey (c.coinEvHash p d) = true) : db.denominations.hasKey d = true := by
  obtain ⟨o, ho⟩ := Table.exists_lookup h
  obtain ⟨p', d', hh, hd⟩ := hi o (Table.mem_of_lookup ho)
  obtain ⟨-, rfl⟩ := c.coinEvHash_inj (hh.symm.trans (Table.key_of_lookup ho))
  exact hd

end OutRows

end TalerExchange
