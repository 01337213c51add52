import TalerExchange.Kyc.Schema
import TalerExchange.Transition.Path

/-!
# The lock around AML programs

Rule updaters lock an account while they run an AML program for it. The lock is the column
`aml_program_lock_timeout` of every row that `wire_targets` has for the account; whoever persists
the result of an AML program clears it.

* `lockStep`: the rule updaters, the measures that the HTTP daemon runs and insertions into
  `wire_targets`, in any order;
* `Exclusive`: at most one rule updater runs an AML program for the account;
* `LockOk`: no lock has reached its timeout, an account that is locked has a row, and while a
  program runs no row is added and no one else persists a result;
* **`run_exclusive`**: then the programs exclude each other;
* `addedRow`, `foreignResult`, `withoutRow`: runs in which they do not.
-/

namespace TalerExchange

open Sql Transition

/-! ## Steps -/

/-- The database, the time, and for each rule updater the account that its AML program runs for. -/
structure LockState where
  db : KycDatabase
  now : Timestamp
  running : List (Option HashCode)

/-- Some rule updaters, none of them running an AML program. -/
def LockState.idle (db : KycDatabase) (now : Timestamp) (n : ℕ) : LockState :=
  ⟨db, now, List.replicate n none⟩

/-- The steps. A rule updater reaches a measure of type `SKIP`; its program ends; it is cancelled.
The HTTP daemon persists the result of a measure that it ran; a row is added to `wire_targets`. -/
inductive LockOp
  | pass (t : Timestamp)
  | runMeasure (i : ℕ) (h : HashCode) (committed known : Bool)
  | amlResult (i : ℕ) (r : AmlProgramResult) (committed : Bool)
  | cancel (i : ℕ)
  | kycAmlFinished (processRow : ℕ) (h : HashCode) (r : AmlProgramResult)
  | insertTarget (hFull h : HashCode) (uri : String) (token : ℕ) (pub : Option MerchantPub)

/-- The branch of `run_measure` for a check that is skipped. The program is started outside the
transaction that took the lock, and not at all if its name is unknown. -/
def runSkipMeasure (runtime : Timestamp) (s : LockState) (i : ℕ) (h : HashCode)
    (committed known : Bool) : LockState :=
  let (db, xlock) := setAmlLock s.db h s.now (s.now + 2 * runtime)
  if s.now < xlock.getD 0 then s
  else if committed then
    { s with db := db, running := if known then s.running.set i (some h) else s.running }
  else s

/-- `aml_result_callback` up to the end of its transaction. -/
def amlResultCallback (s : LockState) (i : ℕ) (h : HashCode) (r : AmlProgramResult)
    (committed : Bool) : LockState :=
  { s with
    db := if committed then (persistAmlProgramResult s.db 0 h s.now r).getD s.db else s.db
    running := s.running.set i none }

/-- **One step.** The daemon persists results outside of transactions, so the lock is cleared even
if the result cannot be stored. -/
def lockStep (runtime : Timestamp) (s : LockState) : LockOp → LockState
  | .pass t => { s with now := max s.now t }
  | .runMeasure i h committed known =>
    match s.running[i]? with
    | some none => runSkipMeasure runtime s i h committed known
    | _ => s
  | .amlResult i r committed =>
    match s.running[i]? with
    | some (some h) => amlResultCallback s i h r committed
    | _ => s
  | .cancel i => { s with running := s.running.set i none }
  | .kycAmlFinished row h r =>
    { s with db := (persistAmlProgramResult s.db row h s.now r).getD (clearAmlLock s.db h) }
  | .insertTarget hFull h uri token pub =>
    match s.db.wireTargets.insert? fun n => ⟨n, hFull, some h, uri, token, pub, none⟩ with
    | some t => { s with db := { s.db with wireTargets := t } }
    | none => s

/-! ## Exclusion -/

/-- Rule updater `i` runs an AML program for the account. -/
def LockState.runs (s : LockState) (h : HashCode) (i : ℕ) : Prop := s.running[i]? = some (some h)

instance (s : LockState) (h : HashCode) (i : ℕ) : Decidable (s.runs h i) :=
  inferInstanceAs (Decidable (_ = _))

/-- **At most one rule updater runs an AML program for the account.** -/
def Exclusive (s : LockState) (h : HashCode) : Prop := ∀ i j, s.runs h i → s.runs h j → i = j

/-- No rule updater runs an AML program for the account. -/
def Free (s : LockState) (h : HashCode) : Prop := some h ∉ s.running

/-- No lock of the account has reached its timeout. -/
def LocksInTime (s : LockState) (h : HashCode) : Prop :=
  ∀ r ∈ s.db.targetsOf h, ∀ t ∈ r.amlProgramLockTimeout, s.now < t

/-- Every row of the account is locked. -/
def Locked (db : KycDatabase) (h : HashCode) : Prop :=
  ∀ r ∈ db.targetsOf h, r.amlProgramLockTimeout.isSome = true

instance (s : LockState) (h : HashCode) : Decidable (Free s h) :=
  inferInstanceAs (Decidable (_ ∉ _))

instance (s : LockState) (h : HashCode) : Decidable (LocksInTime s h) :=
  inferInstanceAs (Decidable (∀ r ∈ s.db.targetsOf h, ∀ t ∈ r.amlProgramLockTimeout, s.now < t))

/-- The account is known when it is to be locked; rows are added and results of other programs
are persisted while no rule updater runs a program for it. -/
def LockCare (h : HashCode) (s : LockState) : LockOp → Prop
  | .runMeasure _ h' _ _ => h' = h → s.db.targetsOf h ≠ []
  | .kycAmlFinished _ h' _ => h' = h → Free s h
  | .insertTarget _ h' _ _ _ => h' = h → Free s h
  | _ => True

instance (h : HashCode) (s : LockState) (o : LockOp) : Decidable (LockCare h s o) :=
  match o with
  | .runMeasure _ h' _ _ => inferInstanceAs (Decidable (h' = h → s.db.targetsOf h ≠ []))
  | .kycAmlFinished _ h' _ => inferInstanceAs (Decidable (h' = h → Free s h))
  | .insertTarget _ h' _ _ _ => inferInstanceAs (Decidable (h' = h → Free s h))
  | .pass _ => .isTrue trivial
  | .amlResult .. => .isTrue trivial
  | .cancel _ => .isTrue trivial

/-- `LockCare`, and no lock has reached its timeout. -/
def LockOk (runtime : Timestamp) (h : HashCode) (s : LockState) (o : LockOp) : Prop :=
  LocksInTime (lockStep runtime s o) h ∧ LockCare h s o

instance (runtime : Timestamp) (h : HashCode) (s : LockState) (o : LockOp) :
    Decidable (LockOk runtime h s o) :=
  inferInstanceAs (Decidable (_ ∧ _))

/-! ## What the statements do to the locks -/

section Locks

variable {db : KycDatabase} {h h' : HashCode} {now expiration : Timestamp}

theorem targetsOf_setLocks (p : KycTarget → Bool) (t : Option Timestamp) :
    (db.setLocks p t).targetsOf h =
      (db.targetsOf h).map fun r => if p r then { r with amlProgramLockTimeout := t } else r :=
  db.wireTargets.filter_update p (f := fun r => { r with amlProgramLockTimeout := t })
    (fun _ => rfl) (fun _ => rfl) fun _ => rfl

/-- The locks of other accounts stay. -/
theorem targetsOf_setLocks_ne {p : KycTarget → Bool} (t : Option Timestamp)
    (hp : ∀ r, r.hNormalizedPayto = some h' → p r = false) :
    (db.setLocks p t).targetsOf h' = db.targetsOf h' := by
  rw [targetsOf_setLocks]
  refine (List.map_congr_left fun r hr => ?_).trans (List.map_id _)
  rw [hp r (mem_targetsOf.mp hr).2]
  rfl

/-- A lock that is taken covers every row that had none or an old one. -/
theorem setAmlLock_locked (h : HashCode) :
    Locked (setAmlLock db h now expiration).1 h := by
  intro r hr
  unfold setAmlLock at hr
  split_ifs at hr with hany
  · rw [targetsOf_setLocks] at hr
    obtain ⟨r', hr', rfl⟩ := List.mem_map.mp hr
    split_ifs with hfree
    · rfl
    · have hm := (mem_targetsOf.mp hr').2
      cases hl : r'.amlProgramLockTimeout with
      | none => simp [KycTarget.lockable, hm, hl] at hfree
      | some t => rfl
  · obtain ⟨hm, hh⟩ := mem_targetsOf.mp hr
    cases hl : r.amlProgramLockTimeout with
    | none => exact absurd (List.any_eq_true.mpr ⟨r, hm, by simp [KycTarget.lockable, hh, hl]⟩) hany
    | some t => rfl

theorem setAmlLock_targetsOf_ne (hne : h' ≠ h) :
    (setAmlLock db h now expiration).1.targetsOf h' = db.targetsOf h' := by
  unfold setAmlLock
  split_ifs
  · exact targetsOf_setLocks_ne _ fun r hr => by simp [KycTarget.lockable, hr, hne]
  · rfl

theorem setAmlLock_targetsOf_ne_nil (hne : db.targetsOf h' ≠ []) :
    (setAmlLock db h now expiration).1.targetsOf h' ≠ [] := by
  unfold setAmlLock
  split_ifs
  · rw [targetsOf_setLocks]
    simpa using hne
  · exact hne

/-- **A held lock is found**: if all rows are locked until later than now, the timeout is
returned. -/
theorem setAmlLock_held (hne : db.targetsOf h ≠ []) (hl : Locked db h)
    (ht : ∀ r ∈ db.targetsOf h, ∀ t ∈ r.amlProgramLockTimeout, now < t) :
    now < (setAmlLock db h now expiration).2.getD 0 := by
  have hnone : ¬ db.wireTargets.rows.any (KycTarget.lockable h now) = true := by
    rw [List.any_eq_true]
    rintro ⟨r, hr, hfree⟩
    obtain ⟨hh, hall⟩ := of_decide_eq_true hfree
    have hr' := mem_targetsOf.mpr ⟨hr, hh⟩
    obtain ⟨t, hlt⟩ := Option.isSome_iff_exists.mp (hl r hr')
    rw [hlt] at hall
    simp only [Option.all_some, decide_eq_true_eq] at hall
    exact absurd hall (lt_asymm (ht r hr' t hlt))
  unfold setAmlLock
  rw [if_neg hnone]
  obtain ⟨r, rs, hrs⟩ := List.exists_cons_of_ne_nil hne
  have hr : r ∈ db.targetsOf h := by rw [hrs]; exact List.mem_cons_self
  obtain ⟨t, hlt⟩ := Option.isSome_iff_exists.mp (hl r hr)
  simp only [hrs, List.head?_cons, Option.bind_some, hlt, Option.getD_some]
  exact ht r hr t hlt

theorem clearAmlLock_targetsOf_ne (hne : h' ≠ h) :
    (clearAmlLock db h).targetsOf h' = db.targetsOf h' :=
  targetsOf_setLocks_ne _ fun r hr => by simp [hr, hne]

theorem insertKycMeasureResult_targetsOf {a : KycMeasureResult} {db' : KycDatabase} {ok : Bool}
    (hi : insertKycMeasureResult db a = some (db', ok)) : db'.wireTargets = db.wireTargets := by
  unfold insertKycMeasureResult KycDatabase.insertOutcome at hi
  simp only [Option.bind_eq_bind, Option.bind_eq_some_iff, Option.map_eq_some_iff] at hi
  obtain ⟨_, ⟨t, -, rfl⟩, hi⟩ := hi
  cases hi
  rfl

/-- Results are persisted for one account only. -/
theorem persistAmlProgramResult_targetsOf {row : ℕ} {r : AmlProgramResult} {db' : KycDatabase}
    (hp : persistAmlProgramResult db row h now r = some db') (hne : h' ≠ h) :
    db'.targetsOf h' = db.targetsOf h' := by
  have hw : db'.wireTargets = (clearAmlLock db h).wireTargets := by
    cases r with
    | failure ec msg =>
      simp only [persistAmlProgramResult, insertAmlProgramFailure, Option.ite_none_right_eq_some,
        Option.some.injEq] at hp
      obtain ⟨-, rfl⟩ := hp
      rfl
    | success e p n ev i =>
      simp only [persistAmlProgramResult, Option.map_eq_some_iff] at hp
      obtain ⟨⟨_, ok⟩, hi, rfl⟩ := hp
      exact insertKycMeasureResult_targetsOf hi
  calc db'.targetsOf h' = (clearAmlLock db h).targetsOf h' := KycDatabase.targetsOf_congr hw
    _ = db.targetsOf h' := clearAmlLock_targetsOf_ne hne

end Locks

/-! ## The invariant -/

/-- **The invariant**: one program at most, and while it runs every row of the account is locked. -/
structure Guarded (s : LockState) (h : HashCode) : Prop where
  exclusive : Exclusive s h
  known : ¬ Free s h → s.db.targetsOf h ≠ []
  locked : ¬ Free s h → Locked s.db h
  inTime : LocksInTime s h

section Steps

variable {runtime : Timestamp} {s s' : LockState} {h : HashCode}

theorem free_iff : Free s h ↔ ∀ i, ¬ s.runs h i := by
  unfold Free LockState.runs
  rw [List.mem_iff_getElem?]
  exact not_exists

theorem free_idle (db : KycDatabase) (now : Timestamp) (n : ℕ) : Free (LockState.idle db now n) h := by
  simp [Free, LockState.idle]

theorem exclusive_of_free (hf : Free s h) : Exclusive s h :=
  fun i _ hi => absurd hi (free_iff.mp hf i)

theorem runs_set {i j : ℕ} {x : Option HashCode} (hx : x ≠ some h)
    (hj : ({ s with running := s.running.set i x } : LockState).runs h j) : s.runs h j := by
  unfold LockState.runs at hj ⊢
  rw [List.getElem?_set] at hj
  split_ifs at hj
  · exact absurd (Option.some.inj hj) hx
  · exact hj

/-- A step that starts no program for the account and leaves its rows alone, or leaves no program
running for it. -/
theorem Guarded.of_runs_le (hg : Guarded s h) (hr : ∀ j, s'.runs h j → s.runs h j)
    (ht : LocksInTime s' h) (hdb : ¬ Free s' h → s'.db.targetsOf h = s.db.targetsOf h) : Guarded s' h := by
  have hf : ¬ Free s' h → ¬ Free s h := by
    rw [free_iff, free_iff]
    exact mt fun hn j hj => hn j (hr j hj)
  constructor
  · exact fun i j hi hj => hg.exclusive i j (hr i hi) (hr j hj)
  · intro hn
    rw [hdb hn]
    exact hg.known (hf hn)
  · intro hn
    unfold Locked
    rw [hdb hn]
    exact hg.locked (hf hn)
  · exact ht

/-- A program starts only where none runs. -/
theorem runSkipMeasure_guarded {i : ℕ} {h' : HashCode} {committed known : Bool}
    (hc : h' = h → s.db.targetsOf h ≠ [])
    (ht : LocksInTime (runSkipMeasure runtime s i h' committed known) h) (hg : Guarded s h) :
    Guarded (runSkipMeasure runtime s i h' committed known) h := by
  unfold runSkipMeasure at ht ⊢
  simp only at ht ⊢
  split_ifs at ht ⊢ with hwait hcommit hknown
  · exact hg
  · by_cases hh : h' = h
    · subst hh
      -- the lock was taken, so it was not held, so nothing ran
      have hfree : Free s h' := by
        by_contra hn
        exact hwait (setAmlLock_held (hg.known hn) (hg.locked hn) hg.inTime)
      constructor
      · intro j k hj hk
        unfold LockState.runs at hj hk
        rw [List.getElem?_set] at hj hk
        split_ifs at hj hk with hij hlt hik
        · exact hij.symm.trans hik
        · exact absurd hk (free_iff.mp hfree k)
        · exact absurd hj (free_iff.mp hfree j)
        · exact absurd hj (free_iff.mp hfree j)
      · exact fun _ => setAmlLock_targetsOf_ne_nil (hc rfl)
      · exact fun _ => setAmlLock_locked h'
      · exact ht
    · refine hg.of_runs_le (fun j hj => ?_) ht fun _ => setAmlLock_targetsOf_ne fun e => hh e.symm
      exact runs_set (fun e => hh (Option.some.inj e)) hj
  · by_cases hh : h' = h
    · subst hh
      exact ⟨hg.exclusive, fun _ => setAmlLock_targetsOf_ne_nil (hc rfl),
        fun _ => setAmlLock_locked h', ht⟩
    · exact hg.of_runs_le (fun j hj => hj) ht fun _ => setAmlLock_targetsOf_ne fun e => hh e.symm
  · exact hg

theorem amlResultCallback_guarded {i : ℕ} {h' : HashCode} {r : AmlProgramResult} {committed : Bool}
    (hi : s.runs h' i) (ht : LocksInTime (amlResultCallback s i h' r committed) h) (hg : Guarded s h) :
    Guarded (amlResultCallback s i h' r committed) h := by
  refine hg.of_runs_le (fun j hj => runs_set (by simp) hj) ht fun hn => ?_
  by_cases hh : h' = h
  · subst hh
    -- the only program for the account has just ended
    refine absurd (free_iff.mpr fun j hj => ?_) hn
    have hji : j = i := hg.exclusive j i (runs_set (by simp) hj) hi
    subst hji
    unfold LockState.runs amlResultCallback at hj
    rw [List.getElem?_set_self'] at hj
    cases hs : s.running[j]? <;> simp [hs] at hj
  · unfold amlResultCallback
    simp only
    split_ifs
    · cases hp : persistAmlProgramResult s.db 0 h' s.now r with
      | none => rfl
      | some db' => exact persistAmlProgramResult_targetsOf hp fun e => hh e.symm
    · rfl

theorem kycAmlFinished_targetsOf {row : ℕ} {h' : HashCode} {r : AmlProgramResult} (hne : h ≠ h') :
    ((persistAmlProgramResult s.db row h' s.now r).getD (clearAmlLock s.db h')).targetsOf h =
      s.db.targetsOf h := by
  cases hp : persistAmlProgramResult s.db row h' s.now r with
  | none => exact clearAmlLock_targetsOf_ne hne
  | some db' => exact persistAmlProgramResult_targetsOf hp hne

theorem insertTarget_targetsOf {hFull h' : HashCode} {uri : String} {token : ℕ}
    {pub : Option MerchantPub} {db : KycDatabase} {t : Table KycTarget}
    (hi : (db.wireTargets.insert? fun n => ⟨n, hFull, some h', uri, token, pub, none⟩) = some t)
    (hne : h ≠ h') : KycDatabase.targetsOf { db with wireTargets := t } h = db.targetsOf h := by
  unfold KycDatabase.targetsOf
  rw [Table.rows_insert? hi, List.filter_append, List.filter_singleton]
  simp [hne.symm]

/-- **One step keeps the invariant.** -/
theorem lockStep_guarded (s : LockState) (o : LockOp) (ho : LockOk runtime h s o)
    (hg : Guarded s h) : Guarded (lockStep runtime s o) h := by
  obtain ⟨ht, hc⟩ := ho
  cases o with
  | pass t => exact hg.of_runs_le (fun j hj => hj) ht fun _ => rfl
  | runMeasure i h' committed known =>
    simp only [lockStep] at ht ⊢
    split at ht
    · exact runSkipMeasure_guarded hc ht hg
    · exact hg
  | amlResult i r committed =>
    simp only [lockStep] at ht ⊢
    split at ht
    · next h' hi => exact amlResultCallback_guarded hi ht hg
    · exact hg
  | cancel i => exact hg.of_runs_le (fun j hj => runs_set (by simp) hj) ht fun _ => rfl
  | kycAmlFinished row h' r =>
    refine hg.of_runs_le (fun j hj => hj) ht fun hn => ?_
    exact kycAmlFinished_targetsOf fun e => hn (hc e.symm)
  | insertTarget hFull h' uri token pub =>
    simp only [lockStep] at ht ⊢
    split at ht
    · next t hi =>
      refine hg.of_runs_le (fun j hj => hj) ht fun hn => ?_
      exact insertTarget_targetsOf hi fun e => hn (hc e.symm)
    · exact hg

end Steps

/-- **AML programs of rule updaters exclude each other**, from any database and after any steps, as
long as no lock has reached its timeout, the account is known when it is locked, and while a
program runs no row is added for the account and nothing is persisted by the daemon. -/
theorem run_exclusive (runtime : Timestamp) (h : HashCode) (db : KycDatabase) (now : Timestamp)
    (n : ℕ) (ops : List LockOp) (hs : LocksInTime (LockState.idle db now n) h)
    (ha : Admits (lockStep runtime) (LockOk runtime h) (LockState.idle db now n) ops) :
    Exclusive (run (lockStep runtime) (LockState.idle db now n) ops) h := by
  have hfree : Free (LockState.idle db now n) h := free_idle db now n
  have hg : Guarded (LockState.idle db now n) h :=
    ⟨exclusive_of_free hfree, absurd hfree, absurd hfree, hs⟩
  exact (run_invariant lockStep_guarded ha hg).exclusive

/-! ## Runs -/

/-- An account with one row. -/
def lockedAccount : List LockOp := [.insertTarget 10 1 "payto" 100 none]

/-- Two rule updaters, one after the other. -/
def oneAfterTheOther : List LockOp :=
  lockedAccount ++ [.runMeasure 0 1 true true, .runMeasure 1 1 true true,
    .amlResult 0 (.success 500 none "rules" [] false) true, .runMeasure 1 1 true true]

theorem oneAfterTheOther_exclusive :
    Exclusive (run (lockStep 60) (LockState.idle {} 100 2) oneAfterTheOther) 1 :=
  run_exclusive 60 1 {} 100 2 oneAfterTheOther (by decide +kernel) (by decide +kernel)

/-- A second row is added while a program runs: `exchange_do_set_aml_lock` finds it unlocked. -/
def addedRow : List LockOp :=
  lockedAccount ++ [.runMeasure 0 1 true true, .insertTarget 11 1 "payto?name" 101 none,
    .runMeasure 1 1 true true]

/-- The daemon persists the result of a measure while a program runs, and clears the lock. -/
def foreignResult : List LockOp :=
  lockedAccount ++ [.runMeasure 0 1 true true,
    .kycAmlFinished 7 1 (.success 500 none "rules" [] false), .runMeasure 1 1 true true]

/-- Without a row there is nothing to lock. -/
def withoutRow : List LockOp := [.runMeasure 0 1 true true, .runMeasure 1 1 true true]

/-- **Locks do not exclude in general**, though none has reached its timeout. -/
theorem not_exclusive :
    ¬ (LocksInTime (LockState.idle {} 100 2) 1 →
      Admits (lockStep 60) (fun s o => LocksInTime (lockStep 60 s o) 1) (LockState.idle {} 100 2)
        addedRow → Exclusive (run (lockStep 60) (LockState.idle {} 100 2) addedRow) 1) ∧
    ¬ (LocksInTime (LockState.idle {} 100 2) 1 →
      Admits (lockStep 60) (fun s o => LocksInTime (lockStep 60 s o) 1) (LockState.idle {} 100 2)
        foreignResult → Exclusive (run (lockStep 60) (LockState.idle {} 100 2) foreignResult) 1) ∧
    ¬ (LocksInTime (LockState.idle {} 100 2) 1 →
      Admits (lockStep 60) (fun s o => LocksInTime (lockStep 60 s o) 1) (LockState.idle {} 100 2)
        withoutRow → Exclusive (run (lockStep 60) (LockState.idle {} 100 2) withoutRow) 1) := by
  have hruns : ∀ ops ∈ [addedRow, foreignResult, withoutRow],
      Admits (lockStep 60) (fun s o => LocksInTime (lockStep 60 s o) 1) (LockState.idle {} 100 2) ops ∧
      (run (lockStep 60) (LockState.idle {} 100 2) ops).runs 1 0 ∧
      (run (lockStep 60) (LockState.idle {} 100 2) ops).runs 1 1 := by
    decide +kernel
  have hall : ∀ ops ∈ [addedRow, foreignResult, withoutRow],
      ¬ (LocksInTime (LockState.idle {} 100 2) 1 →
        Admits (lockStep 60) (fun s o => LocksInTime (lockStep 60 s o) 1) (LockState.idle {} 100 2)
          ops → Exclusive (run (lockStep 60) (LockState.idle {} 100 2) ops) 1) := by
    intro ops hops hex
    obtain ⟨ha, h0, h1⟩ := hruns ops hops
    have h01 := hex (by decide +kernel) ha 0 1 h0 h1
    omega
  exact ⟨hall _ (by simp), hall _ (by simp), hall _ (by simp)⟩

end TalerExchange
