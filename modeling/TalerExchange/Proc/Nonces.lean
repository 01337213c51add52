import TalerExchange.Transactions

/-!
# Locks on Clause-Schnorr nonces

`exchange_do_melt` and `exchange_do_batch_withdraw_insert` end with a test whether the operation has a
nonce, and lock it in `cs_nonce_locks`.

* `Truth`: the truth values of SQL; `notNull`: the test as it is written;
* `exchangeDoMeltCs`, `exchangeDoBatchWithdrawInsertCs`: the procedures with their nonces;
* `exchangeDoMeltCs_eq`, `exchangeDoBatchWithdrawInsertCs_eq`: the test never holds;
* `acceptedNonces`: the nonces of a run; `NoncesOnce`: they are locked, and used for one operation;
* **`noncesOnce_iff`**: that is so only in runs that accept no nonce.
-/

namespace TalerExchange

open Sql Transition

/-! ## Truth values -/

/-- The truth values of SQL; `none` is `NULL`. -/
abbrev Truth := Option Bool

/-- `NOT`. -/
def Truth.not (t : Truth) : Truth := t.map (!·)

/-- The condition of an `IF` holds. -/
def Truth.holds (t : Truth) : Bool := t.getD false

abbrev Nonce := ℕ

/-- `NOT NULL x`: the expression is `NOT NULL`, and `x` is the name that its column gets. -/
def notNull (_ : Option Nonce) : Truth := Truth.not none

theorem notNull_holds (x : Option Nonce) : (notNull x).holds = false := rfl

/-! ## The procedures -/

/-- A row of `cs_nonce_locks`. -/
structure CsNonceLock where
  csNonceLockSerialId : ℕ
  nonce : Nonce
  opHash : HashCode
  maxDenominationSerial : ℕ
deriving DecidableEq, Repr

instance : Record CsNonceLock Nonce := ⟨CsNonceLock.nonce, CsNonceLock.csNonceLockSerialId⟩

/-- The database with the table of the locks. -/
structure CsDatabase where
  db : Database
  csNonceLocks : Table CsNonceLock

/-- The end of `exchange_do_melt` for a nonce: neither `cs_rms` nor `denom_serial` is declared. -/
def lockMeltNonce (_ : CsDatabase) : Exec CsDatabase := .error .undefinedColumn

theorem MeltArgs.serial_row (a : MeltArgs) (i : ℕ) : Record.serial (a.row i) = i := rfl

/-- `exchange_do_melt`. -/
def exchangeDoMeltCs (s : CsDatabase) (inCsRms : Option Nonce) (a : MeltArgs) :
    Exec (CsDatabase × MeltOut) :=
  match s.db.refreshCommitments.insert? a.row a.serial_row with
  | none =>
    match s.db.refreshCommitments.lookup a.rc with
    | some m => .ok (s, ⟨true, false, some m.noRevealIndex⟩)
    | none => .ok (s, ⟨false, false, none⟩)
  | some t => do
    let n := s.db.refreshCommitments.nextSerial
    require (s.db.knownCoins.hasKey a.oldCoinPub)
    let db ← { s.db with refreshCommitments := t }.addCoinHistory a.oldCoinPub .refreshCommitments n
    if a.zombieRequired && !db.isZombie a.oldCoinPub then
      return ({ s with db := db }, ⟨false, true, none⟩)
    match db.debitCoin a.oldCoinPub a.amountWithFee with
    | none => return ({ s with db := db }, ⟨false, false, some (-1)⟩)
    | some db =>
      let s ← if (notNull inCsRms).holds then lockMeltNonce { s with db := db }
        else pure { s with db := db }
      return (s, ⟨true, false, some a.noRevealIndex⟩)

/-- The `OUT` parameters of `exchange_do_batch_withdraw_insert` that say why it failed. -/
structure WithdrawInsertOut where
  nonceReuse : Bool
  conflict : Bool
deriving DecidableEq, Repr

/-- The end of `exchange_do_batch_withdraw_insert` for a nonce. If the nonce is locked, the query whether
the lock is the same has no destination for its result. -/
def lockWithdrawNonce (s : CsDatabase) (nonce : Nonce) (opHash : HashCode) (denomSerial : ℕ) :
    Exec (CsDatabase × WithdrawInsertOut) :=
  match s.csNonceLocks.insert? fun i => ⟨i, nonce, opHash, denomSerial⟩ with
  | some t => .ok ({ s with csNonceLocks := t }, ⟨false, false⟩)
  | none => .error .assertFailure

theorem PlanchetArgs.serial_out (x : PlanchetArgs) (d : Denomination) (ruuid : ℕ) (now : Timestamp)
    (i : ℕ) : Record.serial (⟨i, x.hCoinEnvelope, d.denominationsSerial, x.denomSig, ruuid, x.reserveSig,
      now, x.amount⟩ : ReserveOut) = i := rfl

/-- `exchange_do_batch_withdraw_insert`. -/
def exchangeDoBatchWithdrawInsertCs (s : CsDatabase) (csNonce : Option Nonce) (ruuid : ℕ)
    (now : Timestamp) (x : PlanchetArgs) : Exec (CsDatabase × WithdrawInsertOut) :=
  match s.db.denominations.lookup x.hDenomPub with
  | none => .error .assertFailure
  | some d =>
    match s.db.reservesOut.insert? (fun i => ⟨i, x.hCoinEnvelope, d.denominationsSerial, x.denomSig,
        ruuid, x.reserveSig, now, x.amount⟩) (x.serial_out d ruuid now) with
    | none => .ok (s, ⟨true, true⟩)
    | some t =>
      match s.db.reserves.lookupSerial ruuid with
      | none => .error .foreignKeyViolation
      | some r => do
        let n := s.db.reservesOut.nextSerial
        let db ← { s.db with reservesOut := t }.addReserveHistory r.reservePub .reservesOut n
        if (notNull csNonce).holds then
          lockWithdrawNonce { s with db := db } (csNonce.getD 0) x.hCoinEnvelope
            d.denominationsSerial
        else return ({ s with db := db }, ⟨false, false⟩)

/-- **The nonce of a melt is not looked at.** -/
theorem exchangeDoMeltCs_eq (s : CsDatabase) (inCsRms : Option Nonce) (a : MeltArgs) :
    exchangeDoMeltCs s inCsRms a =
      (exchangeDoMelt s.db a).map fun r => ({ s with db := r.1 }, r.2) := by
  unfold exchangeDoMeltCs exchangeDoMelt
  cases s.db.refreshCommitments.insert? a.row with
  | none => cases s.db.refreshCommitments.lookup a.rc <;> rfl
  | some t =>
    simp only [notNull_holds, Bool.false_eq_true, if_false]
    cases require (s.db.knownCoins.hasKey a.oldCoinPub) with
    | error e => rfl
    | ok u =>
      cases ({ s.db with refreshCommitments := t }.addCoinHistory a.oldCoinPub .refreshCommitments
          s.db.refreshCommitments.nextSerial) with
      | error e => rfl
      | ok db =>
        simp only [bind, Except.bind, pure, Except.pure]
        split_ifs
        · rfl
        · cases db.debitCoin a.oldCoinPub a.amountWithFee <;> rfl

/-- **The nonce of a withdrawal is not looked at.** -/
theorem exchangeDoBatchWithdrawInsertCs_eq (s : CsDatabase) (csNonce : Option Nonce) (ruuid : ℕ)
    (now : Timestamp) (x : PlanchetArgs) :
    exchangeDoBatchWithdrawInsertCs s csNonce ruuid now x =
      (exchangeDoBatchWithdrawInsert s.db ruuid now x).map fun r =>
        ({ s with db := r.1 }, ⟨r.2, r.2⟩) := by
  unfold exchangeDoBatchWithdrawInsertCs exchangeDoBatchWithdrawInsert
  cases s.db.denominations.lookup x.hDenomPub with
  | none => rfl
  | some d =>
    simp only [notNull_holds, Bool.false_eq_true, if_false]
    cases s.db.reservesOut.insert? fun i => ⟨i, x.hCoinEnvelope, d.denominationsSerial, x.denomSig,
        ruuid, x.reserveSig, now, x.amount⟩ with
    | none => rfl
    | some t =>
      simp only
      cases s.db.reserves.lookupSerial ruuid with
      | none => rfl
      | some r =>
        simp only
        cases ({ s.db with reservesOut := t }.addReserveHistory r.reservePub .reservesOut
          s.db.reservesOut.nextSerial) <;> rfl

/-! ## Runs -/

/-- The events: another operation, or one that may have a nonce. -/
inductive CsEvent
  | op (o : Op)
  | melt (inCsRms : Option Nonce) (a : MeltArgs)
  | withdrawInsert (csNonce : Option Nonce) (ruuid : ℕ) (now : Timestamp) (x : PlanchetArgs)

/-- The database that an event commits, `none` if it is rolled back. -/
def csTransact (s : CsDatabase) : CsEvent → Option CsDatabase
  | .op o => (transact s.db o).map fun db => { s with db := db }
  | .melt rms a =>
    match exchangeDoMeltCs s rms a with
    | .ok (s, out) => if out.balanceOk && !out.zombieBad then some s else none
    | .error _ => none
  | .withdrawInsert nonce ruuid now x =>
    match exchangeDoBatchWithdrawInsertCs s nonce ruuid now x with
    | .ok (s, out) => if out.nonceReuse || out.conflict then none else some s
    | .error _ => none

/-- **One event.** -/
def csStep (s : CsDatabase) (e : CsEvent) : CsDatabase := (csTransact s e).getD s

/-- The nonce of an event and the hash of its operation. -/
def CsEvent.nonce : CsEvent → Option (Nonce × HashCode)
  | .op _ => none
  | .melt rms a => rms.map (·, a.rc)
  | .withdrawInsert nonce _ _ x => nonce.map (·, x.hCoinEnvelope)

/-- The nonces that the events of a run were accepted with, and the hashes of their operations. -/
def acceptedNonces : CsDatabase → List CsEvent → List (Nonce × HashCode)
  | _, [] => []
  | s, e :: es =>
    (if (csTransact s e).isSome then e.nonce.toList else []) ++ acceptedNonces (csStep s e) es

/-- **Nonces are used once**: after every event of the run, every nonce accepted so far is locked for
its operation, and no nonce was accepted for two. -/
def NoncesOnce (s : CsDatabase) (es : List CsEvent) : Prop :=
  ∀ pre, pre <+: es →
    (∀ x ∈ acceptedNonces s pre, ∃ l, (run csStep s pre).csNonceLocks.lookup x.1 = some l ∧
      l.opHash = x.2) ∧
    (acceptedNonces s pre).Pairwise fun x y => x.1 = y.1 → x.2 = y.2

/-- An operation has a nonce, and would be accepted without one. -/
def Reaches (s : CsDatabase) : CsEvent → Bool
  | .op _ => false
  | .melt rms a => rms.isSome && (transact s.db (.melt a)).isSome
  | .withdrawInsert nonce ruuid now x =>
    nonce.isSome && (commitIf (exchangeDoBatchWithdrawInsert s.db ruuid now x) (!·)).isSome

section Runs

variable {s : CsDatabase}

theorem csTransact_melt (rms : Option Nonce) (a : MeltArgs) :
    csTransact s (.melt rms a) = (transact s.db (.melt a)).map fun db => { s with db := db } := by
  simp only [csTransact, exchangeDoMeltCs_eq, transact, commitIf]
  cases exchangeDoMelt s.db a with
  | error e => rfl
  | ok r =>
    obtain ⟨db, out⟩ := r
    simp only [Except.map]
    split_ifs <;> rfl

theorem csTransact_withdrawInsert (nonce : Option Nonce) (ruuid : ℕ) (now : Timestamp)
    (x : PlanchetArgs) : csTransact s (.withdrawInsert nonce ruuid now x) =
      (commitIf (exchangeDoBatchWithdrawInsert s.db ruuid now x) (!·)).map fun db =>
        { s with db := db } := by
  simp only [csTransact, exchangeDoBatchWithdrawInsertCs_eq, commitIf]
  cases exchangeDoBatchWithdrawInsert s.db ruuid now x with
  | error e => rfl
  | ok r =>
    obtain ⟨db, out⟩ := r
    cases out <;> rfl

/-- **No event locks a nonce.** -/
theorem csStep_locks (s : CsDatabase) (e : CsEvent) : (csStep s e).csNonceLocks = s.csNonceLocks := by
  have hmap : ∀ o : Option Database,
      ((o.map fun db => { s with db := db }).getD s).csNonceLocks = s.csNonceLocks := fun o => by
    cases o <;> rfl
  unfold csStep
  cases e with
  | op o => exact hmap _
  | melt rms a =>
    rw [csTransact_melt]
    exact hmap _
  | withdrawInsert nonce ruuid now x =>
    rw [csTransact_withdrawInsert]
    exact hmap _

theorem run_locks (es : List CsEvent) : (run csStep s es).csNonceLocks = s.csNonceLocks := by
  induction es generalizing s with
  | nil => rfl
  | cons e es ih => rw [run_cons, ih, csStep_locks]

/-- The nonces of a run are those of its events that come to the test. -/
theorem acceptedNonces_eq_nil (es : List CsEvent) :
    acceptedNonces s es = [] ↔ Admits csStep (fun s e => Reaches s e = false) s es := by
  have hone : ∀ (s : CsDatabase) e, (if (csTransact s e).isSome then e.nonce.toList else []) = [] ↔
      Reaches s e = false := fun s e => by
    cases e with
    | op o => simp [CsEvent.nonce, Reaches]
    | melt rms a =>
      rw [csTransact_melt]
      cases rms <;> simp [CsEvent.nonce, Reaches]
    | withdrawInsert nonce ruuid now x =>
      rw [csTransact_withdrawInsert]
      cases nonce <;> simp [CsEvent.nonce, Reaches]
  induction es generalizing s with
  | nil => exact ⟨fun _ => trivial, fun _ => rfl⟩
  | cons e es ih =>
    rw [acceptedNonces, List.append_eq_nil_iff, hone]
    exact and_congr Iff.rfl ih

theorem acceptedNonces_of_initial {pre es : List CsEvent} (h : pre <+: es)
    (hnil : acceptedNonces s es = []) : acceptedNonces s pre = [] := by
  obtain ⟨post, rfl⟩ := h
  induction pre generalizing s with
  | nil => rfl
  | cons e pre ih =>
    rw [List.cons_append, acceptedNonces, List.append_eq_nil_iff] at hnil
    rw [acceptedNonces, hnil.1, ih hnil.2]
    rfl

/-- **Nonces are never locked**: in a run from a database without locks, nonces are used once if and only
if no operation with a nonce is accepted. -/
theorem noncesOnce_iff (hs : s.csNonceLocks = Table.empty) (es : List CsEvent) :
    NoncesOnce s es ↔ Admits csStep (fun s e => Reaches s e = false) s es := by
  rw [← acceptedNonces_eq_nil]
  constructor
  · intro h
    refine List.eq_nil_iff_forall_not_mem.mpr fun x hx => ?_
    obtain ⟨l, hl, -⟩ := (h es (List.prefix_refl es)).1 x hx
    rw [run_locks, hs, Table.lookup_empty] at hl
    cases hl
  · intro h pre hpre
    rw [acceptedNonces_of_initial hpre h]
    exact ⟨fun _ hx => (nomatch hx), .nil⟩

end Runs

/-! ## A nonce for two coins -/

/-- A reserve with ten, and two coins with one nonce. -/
def oneNonce : List CsEvent :=
  [.op (.denomination ⟨1, .whole 3, .zero, .zero, .zero, .zero⟩),
   .op (.reservesIn 9 9 [⟨4, .whole 10, 0, 1, 1, "", "", 1⟩]),
   .withdrawInsert (some 5) 1 0 ⟨.whole 3, 1, 1, 6, 1⟩,
   .withdrawInsert (some 5) 1 0 ⟨.whole 3, 1, 1, 7, 1⟩]

theorem not_noncesOnce :
    acceptedNonces ⟨Database.empty, Table.empty⟩ oneNonce = [(5, 6), (5, 7)] ∧
      ¬ NoncesOnce ⟨Database.empty, Table.empty⟩ oneNonce := by
  have hacc : acceptedNonces ⟨Database.empty, Table.empty⟩ oneNonce = [(5, 6), (5, 7)] := by
    decide +kernel
  refine ⟨hacc, fun h => ?_⟩
  have hpair := (h oneNonce (List.prefix_refl _)).2
  rw [hacc] at hpair
  exact absurd hpair (by decide)

/-- A coin without a nonce, and then the same coin with one, which is refused. -/
def refusedNonce : List CsEvent :=
  oneNonce.take 2 ++
  [.withdrawInsert none 1 0 ⟨.whole 3, 1, 1, 6, 1⟩,
   .withdrawInsert (some 5) 1 0 ⟨.whole 3, 1, 1, 6, 1⟩]

theorem noncesOnce_refused : NoncesOnce ⟨Database.empty, Table.empty⟩ refusedNonce :=
  (noncesOnce_iff rfl refusedNonce).mpr (by decide +kernel)

end TalerExchange
