import TalerExchange.Sql.Serial
import TalerExchange.Transition.Path

/-!
# Replication

`taler-auditor-sync` copies the tables of the exchange's database, the source, into the auditor's
own, the destination. A pass looks up the highest serial number of each table on both sides and
then copies, table by table and each in a transaction of its own, what lies above. A row is known
by its serial number here. The source grows at any time, and the process may start anew.

* `doInsert`, `lookupRecordsByTable`: the rows of one table, answer by answer;
* `syncStep`: `do_sync` and `transact`, one statement at a time;
* `Attempts`: no commit fails softly, and a lookup that yields no number leaves a variable behind
  that is right nevertheless;
* `SyncInv`: the destination is the first part of the source, and the variables are not ahead of it;
* **`run_replication`**: then no row is left out or copied twice, and a pass that succeeds has copied
  everything;
* `lostCommit`: the rows of a commit that failed softly are left out for good.
-/

namespace TalerExchange

open Sql Transition

/-- The entries of `tables[]`. -/
inductive ReplicatedTable
  | denominations
  | denominationRevocations
  | wireTargets
  | legitimizationMeasures
  | legitimizationOutcomes
  | legitimizationProcesses
  | reserves
  | reservesIn
  | reservesClose
  | reservesOpenRequests
  | reservesOpenDeposits
  | reservesOut
  | auditors
  | auditorDenomSigs
  | exchangeSignKeys
  | signkeyRevocations
  | knownCoins
  | refreshCommitments
  | refreshRevealedCoins
  | refreshTransferKeys
  | batchDeposits
  | coinDeposits
  | refunds
  | wireOut
  | aggregationTracking
  | wireFee
  | globalFee
  | recoup
  | recoupRefresh
  | extensions
  | policyDetails
  | policyFulfillments
  | purseRequests
  | purseDecision
  | purseMerges
  | purseDeposits
  | accountMerges
  | historyRequests
  | closeRequests
  | wadsOut
  | wadsOutEntries
  | wadsIn
  | wadsInEntries
  | profitDrains
deriving DecidableEq, Repr

open ReplicatedTable in
/-- `tables[]`. -/
def tables : List ReplicatedTable :=
  [denominations, denominationRevocations, wireTargets, legitimizationMeasures,
    legitimizationOutcomes, legitimizationProcesses, reserves, reservesIn, reservesClose,
    reservesOpenRequests, reservesOpenDeposits, reservesOut, auditors, auditorDenomSigs,
    exchangeSignKeys, signkeyRevocations, knownCoins, refreshCommitments, refreshRevealedCoins,
    refreshTransferKeys, batchDeposits, coinDeposits, refunds, wireOut, aggregationTracking,
    wireFee, globalFee, recoup, recoupRefresh, extensions, policyDetails, policyFulfillments,
    purseRequests, purseDecision, purseMerges, purseDeposits, accountMerges, historyRequests,
    closeRequests, wadsOut, wadsOutEntries, wadsIn, wadsInEntries, profitDrains]

theorem mem_tables (rt : ReplicatedTable) : rt ∈ tables := by cases rt <;> decide

/-- Whether `lookup_records_by_table` prepares the statement that it runs for a table. -/
def ReplicatedTable.isPrepared : ReplicatedTable → Bool
  | .extensions | .policyDetails | .policyFulfillments => false
  | _ => true

/-! ## The rows of a table -/

/-- `struct InsertContext` with the table's `start_serial`, the rows that the open transaction has
inserted and `actual_size`. -/
structure InsertContext where
  qs : QueryStatus := .oneResult
  startSerial : ℕ
  copied : List ℕ := []
  actualSize : ℕ
deriving DecidableEq, Repr

/-- A row that is there already is not inserted again. -/
def insertRecordsByTable (present : List ℕ) (serial : ℕ) (answer : QueryStatus) : QueryStatus :=
  if answer = .oneResult ∧ serial ∈ present then .noResults else answer

/-- `do_insert`. -/
def doInsert (destination : List ℕ) (answer : QueryStatus) (ctx : InsertContext) (serial : ℕ) :
    InsertContext :=
  if ctx.qs ≠ .oneResult then ctx
  else
    match insertRecordsByTable (destination ++ ctx.copied) serial answer with
    | .oneResult =>
      { ctx with
        startSerial := serial
        copied := ctx.copied ++ [serial]
        actualSize := ctx.actualSize + 1 }
    | qs => { ctx with qs := qs }

/-- `do_insert` on one row after the other; where no answer is given, the insertion succeeds. -/
def insertAll (destination : List ℕ) : List QueryStatus → List ℕ → InsertContext → InsertContext
  | _, [], ctx => ctx
  | answers, serial :: rows, ctx =>
    insertAll destination answers.tail rows
      (doInsert destination (answers.headD .oneResult) ctx serial)

/-- `lookup_records_by_table`: the rows above a serial number go to `do_insert`; the number of rows
is given as a status. A statement that was not prepared cannot be run. -/
def lookupRecordsByTable (rt : ReplicatedTable) (source destination : List ℕ) (serial : ℕ)
    (answer : QueryStatus) (inserts : List QueryStatus) (ctx : InsertContext) :
    QueryStatus × InsertContext :=
  match if rt.isPrepared then answer else .hardError with
  | .hardError => (.hardError, ctx)
  | .softError => (.softError, ctx)
  | _ =>
    let rows := source.filter fun x => serial < x
    (if rows = [] then .noResults else .oneResult, insertAll destination inserts rows ctx)

/-! ## The process -/

/-- What the process does next. The tables still to be treated are given with the loops. -/
inductive SyncTask
  | doSync
  | srcSerials (rest : List ReplicatedTable)
  | dstStart
  | dstSerials (rest : List ReplicatedTable)
  | copy (rest : List ReplicatedTable)
  | commit (rest : List ReplicatedTable)
  | transacted (ok : Bool)
  | exited
deriving DecidableEq, Repr

/-- The two databases, the process, the rows that its open transaction has inserted, and the source
as it was when `transact` was called. -/
structure SyncState where
  source : ReplicatedTable → List ℕ
  destination : ReplicatedTable → List ℕ := fun _ => []
  startSerial : ReplicatedTable → ℕ := fun _ => 0
  endSerial : ReplicatedTable → ℕ := fun _ => 0
  copied : List ℕ := []
  actualSize : ℕ := 0
  globalRet : Bool := false
  task : SyncTask := .doSync
  began : ReplicatedTable → List ℕ := fun _ => []

/-- What happens: the source grows, the process starts anew, or its next statements are answered. -/
inductive SyncEvent
  | grow (rt : ReplicatedTable) (rows : List ℕ)
  | restart
  /-- The two preflight checks and the start of the transaction in the source. -/
  | begin (preflight start : Bool)
  /-- `lookup_serial_by_table`: whether the query is answered. -/
  | serial (answered : Bool)
  /-- The start of the transaction in the destination. -/
  | start (started : Bool)
  | copy (started : Bool) (select : QueryStatus) (inserts : List QueryStatus)
  | commit (qs : QueryStatus)
  /-- `do_sync` after `transact`. -/
  | finish
deriving DecidableEq, Repr

namespace SyncState

/-- `lookup_serial_by_table` leaves the variable alone if the query fails or the table is empty;
what it returns is not looked at. -/
def lookupSerialByTable (rows : List ℕ) (answered : Bool) (old : ℕ) : ℕ :=
  if answered ∧ rows ≠ [] then highest rows else old

/-- `transact` returns `GNUNET_SYSERR` and `do_sync` rolls back. -/
def rollback (s : SyncState) : SyncState := { s with copied := [], task := .transacted false }

/-- One iteration of the loop that copies a table. -/
def copyTable (rt : ReplicatedTable) (rest : List ReplicatedTable) (select : QueryStatus)
    (inserts : List QueryStatus) (s : SyncState) : SyncState :=
  let (qs, ctx) := lookupRecordsByTable rt (s.source rt) (s.destination rt) (s.startSerial rt)
    select inserts { startSerial := s.startSerial rt, actualSize := s.actualSize }
  let s := { s with
    startSerial := Function.update s.startSerial rt ctx.startSerial
    actualSize := ctx.actualSize }
  let qs := if ctx.qs = .hardError ∨ ctx.qs = .softError then ctx.qs else qs
  match qs with
  | .hardError => { s with globalRet := true }.rollback
  | .softError => s.rollback
  | .noResults => { s with globalRet := true }.rollback
  | .oneResult =>
    if ctx.qs = .noResults then s.rollback
    else { s with copied := ctx.copied, task := .commit (rt :: rest) }

/-- `dst->commit`; after a soft error the loop goes on. -/
def commitTable (rt : ReplicatedTable) (rest : List ReplicatedTable) (qs : QueryStatus)
    (s : SyncState) : SyncState :=
  match qs with
  | .softError => { s with copied := [], task := .copy (rt :: rest) }
  | .hardError => { s with globalRet := true }.rollback
  | _ =>
    { s with
      destination := Function.update s.destination rt (s.destination rt ++ s.copied)
      copied := []
      task := .copy (rt :: rest) }

/-- `do_sync` after `transact`. -/
def finishSync (exitIfSynced : Bool) (s : SyncState) : SyncState :=
  if s.globalRet then { s with task := .exited }
  else if s.actualSize = 0 ∧ exitIfSynced then { s with task := .exited }
  else { s with task := .doSync }

end SyncState

open SyncState

/-- One statement of the process, or what happens around it. An answer to a statement that is not
due changes nothing. -/
def syncStep (exitIfSynced : Bool) (s : SyncState) : SyncEvent → SyncState
  | .grow rt rows => { s with source := Function.update s.source rt (s.source rt ++ rows) }
  | .restart => { source := s.source, destination := s.destination }
  | .begin preflight start =>
    match s.task with
    | .doSync =>
      if !preflight then { s with actualSize := 0, task := .exited }
      else if !start then { s with actualSize := 0, began := s.source }.rollback
      else { s with actualSize := 0, began := s.source, task := .srcSerials tables }
    | _ => s
  | .serial answered =>
    match s.task with
    | .srcSerials (rt :: rest) =>
      { s with
        endSerial := Function.update s.endSerial rt
          (lookupSerialByTable (s.source rt) answered (s.endSerial rt))
        task := if rest = [] then .dstStart else .srcSerials rest }
    | .dstSerials (rt :: rest) =>
      { s with
        startSerial := Function.update s.startSerial rt
          (lookupSerialByTable (s.destination rt) answered (s.startSerial rt))
        task := if rest = [] then .copy tables else .dstSerials rest }
    | _ => s
  | .start started =>
    match s.task with
    | .dstStart => if started then { s with task := .dstSerials tables } else s.rollback
    | _ => s
  | .copy started select inserts =>
    match s.task with
    | .copy (rt :: rest) =>
      if s.startSerial rt < s.endSerial rt then
        if started then s.copyTable rt rest select inserts else s.rollback
      else { s with task := if rest = [] then .transacted true else .copy rest }
    | _ => s
  | .commit qs =>
    match s.task with
    | .commit (rt :: rest) => s.commitTable rt rest qs
    | _ => s
  | .finish =>
    match s.task with
    | .transacted _ => s.finishSync exitIfSynced
    | _ => s

/-! ## Conditions -/

/-- The rows of a table become visible in the order of their numbers. -/
def GrowsInOrder (s : SyncState) : SyncEvent → Prop
  | .grow rt rows => (highest (s.source rt) :: rows).Pairwise (· < ·)
  | _ => True

/-- No commit fails softly, and where a lookup leaves a variable as it is, `end_serial` covers the
source and `start_serial` is not ahead of the destination. -/
def Attempts (s : SyncState) : SyncEvent → Prop
  | .serial answered =>
    match s.task with
    | .srcSerials (rt :: _) => answered ∨ highest (s.source rt) ≤ s.endSerial rt
    | .dstSerials (rt :: _) =>
      answered ∧ s.destination rt ≠ [] ∨ s.startSerial rt ≤ highest (s.destination rt)
    | _ => True
  | .commit qs => qs ≠ .softError
  | _ => True

instance (s : SyncState) (e : SyncEvent) : Decidable (GrowsInOrder s e) := by
  cases e <;> unfold GrowsInOrder <;> infer_instance

/-- No row of a table is in the destination while one with a smaller number is missing there, and
none is there twice. -/
def Replicated (s : SyncState) : Prop :=
  ∀ rt, (∀ x ∈ s.destination rt, ∀ y ∈ s.source rt, y < x → y ∈ s.destination rt) ∧
    (s.destination rt).Nodup

/-- If `transact` returned `GNUNET_OK`, all rows that were there when it was called were copied. -/
def PassComplete (s : SyncState) : Prop :=
  s.task = .transacted true → ∀ rt, s.began rt ⊆ s.destination rt

/-! ## The rows of a table -/

section Rows

variable {destination source rows : List ℕ} {answers inserts : List QueryStatus}
  {answer : QueryStatus} {ctx : InsertContext} {serial : ℕ}

theorem doInsert_of_failed (h : ctx.qs ≠ .oneResult) :
    doInsert destination answer ctx serial = ctx := by
  unfold doInsert
  rw [if_pos h]

/-- What an insertion that succeeds does. -/
theorem doInsert_oneResult (h : (doInsert destination answer ctx serial).qs = .oneResult) :
    ctx.qs = .oneResult ∧ serial ∉ destination ∧
      doInsert destination answer ctx serial =
        { ctx with
          startSerial := serial
          copied := ctx.copied ++ [serial]
          actualSize := ctx.actualSize + 1 } := by
  unfold doInsert at h ⊢
  by_cases hq : ctx.qs = .oneResult
  · rw [if_neg (by simp [hq])] at h ⊢
    cases hi : insertRecordsByTable (destination ++ ctx.copied) serial answer with
    | oneResult =>
      refine ⟨hq, ?_, rfl⟩
      intro hmem
      unfold insertRecordsByTable at hi
      split at hi
      · exact nomatch hi
      · next hno => exact hno ⟨hi, List.mem_append_left _ hmem⟩
    | hardError => simp [hi] at h
    | softError => simp [hi] at h
    | noResults => simp [hi] at h
  · rw [if_pos hq] at h
    exact absurd h hq

theorem insertAll_of_failed (h : ctx.qs ≠ .oneResult) :
    insertAll destination answers rows ctx = ctx := by
  induction rows generalizing answers with
  | nil => rfl
  | cons x rows ih =>
    unfold insertAll
    rw [doInsert_of_failed h]
    exact ih

/-- If all went well, every row was copied, and none had been there before. -/
theorem insertAll_oneResult (h : (insertAll destination answers rows ctx).qs = .oneResult) :
    (insertAll destination answers rows ctx).copied = ctx.copied ++ rows ∧
      (∀ x ∈ rows, x ∉ destination) ∧
      ((insertAll destination answers rows ctx).startSerial = ctx.startSerial ∨
        (insertAll destination answers rows ctx).startSerial ∈ rows) := by
  induction rows generalizing answers ctx with
  | nil => simp [insertAll]
  | cons x rows ih =>
    unfold insertAll at h ⊢
    have hq : (doInsert destination (answers.headD .oneResult) ctx x).qs = .oneResult := by
      by_contra hne
      rw [insertAll_of_failed hne] at h
      exact hne h
    obtain ⟨-, hx, hd⟩ := doInsert_oneResult hq
    obtain ⟨hc, hnew, hs⟩ := ih h
    rw [hd] at hc hs ⊢
    refine ⟨?_, ?_, ?_⟩
    · rw [hc, List.append_assoc, List.singleton_append]
    · intro y hy
      rcases List.mem_cons.mp hy with rfl | hy
      · exact hx
      · exact hnew y hy
    · rcases hs with hs | hs
      · exact Or.inr (hs ▸ List.mem_cons_self)
      · exact Or.inr (List.mem_cons_of_mem _ hs)

/-- The ends of a query: an error of its own, or all rows above the number have gone to `do_insert`. -/
theorem lookupRecordsByTable_cases (rt : ReplicatedTable) (source destination : List ℕ) (serial : ℕ)
    (answer : QueryStatus) (inserts : List QueryStatus) (ctx : InsertContext) :
    lookupRecordsByTable rt source destination serial answer inserts ctx = (.hardError, ctx) ∧
        (rt.isPrepared = true → answer = .hardError) ∨
      lookupRecordsByTable rt source destination serial answer inserts ctx = (.softError, ctx) ∨
      lookupRecordsByTable rt source destination serial answer inserts ctx =
        (if (source.filter fun x => serial < x) = [] then .noResults else .oneResult,
          insertAll destination inserts (source.filter fun x => serial < x) ctx) := by
  unfold lookupRecordsByTable
  cases hp : rt.isPrepared with
  | false => exact .inl ⟨rfl, by rintro ⟨⟩⟩
  | true =>
    cases answer with
    | hardError => exact .inl ⟨rfl, fun _ => rfl⟩
    | softError => exact .inr (.inl rfl)
    | noResults => exact .inr (.inr rfl)
    | oneResult => exact .inr (.inr rfl)

/-- Rows that are new and lie above a number that is not ahead of the destination are those that
the destination does not have. -/
theorem append_above (hn : Numbered source) (hp : destination <+: source)
    (hs : serial ≤ highest destination)
    (hnew : ∀ x ∈ source.filter (fun x => serial < x), x ∉ destination) :
    destination ++ source.filter (fun x => serial < x) = source := by
  have heq : serial = highest destination := by
    rcases eq_or_ne destination [] with rfl | hd
    · simpa using hs
    · have hmem := highest_mem hd
      by_contra hne
      exact hnew _ (List.mem_filter.mpr ⟨hp.subset hmem, by simp; omega⟩) hmem
  obtain ⟨rest, rfl⟩ := hp
  rw [heq, hn.filter_above]

end Rows

/-! ## The invariant -/

/-- The lookup in the source is behind: `end_serial` covers what was there at the beginning. -/
def SyncState.Known (s : SyncState) (rt : ReplicatedTable) : Prop :=
  s.began rt ⊆ s.source rt ∧ highest (s.began rt) ≤ s.endSerial rt

/-- The variable of a table is not ahead of the destination. -/
def SyncState.Behind (s : SyncState) (rt : ReplicatedTable) : Prop :=
  s.startSerial rt ≤ highest (s.destination rt)

/-- The tables that the open transaction is not about, and the one it is about. -/
def SyncState.Pending (s : SyncState) (rt : ReplicatedTable) : Prop :=
  (∀ rt', rt' ≠ rt → s.Behind rt') ∧ s.destination rt ++ s.copied <+: s.source rt ∧
    s.startSerial rt ≤ highest (s.destination rt ++ s.copied)

/-- What holds in the middle of a pass. -/
def SyncState.TaskInv (s : SyncState) : SyncTask → Prop
  | .doSync => True
  | .srcSerials rest => (∀ rt, s.began rt ⊆ s.source rt) ∧
      ∀ rt, rt ∉ rest → highest (s.began rt) ≤ s.endSerial rt
  | .dstStart => ∀ rt, s.Known rt
  | .dstSerials rest => (∀ rt, s.Known rt) ∧ ∀ rt, rt ∉ rest → s.Behind rt
  | .copy rest => (∀ rt, s.Known rt) ∧ (∀ rt, s.Behind rt) ∧
      ∀ rt, rt ∉ rest → s.began rt ⊆ s.destination rt
  | .commit [] => False
  | .commit (rt :: rest) => (∀ rt, s.Known rt) ∧ s.Pending rt ∧
      ∀ rt', rt' ∉ rt :: rest → s.began rt' ⊆ s.destination rt'
  | .transacted ok => ok → ∀ rt, s.began rt ⊆ s.destination rt
  | .exited => True

/-- The destination is the first part of the source. -/
structure SyncInv (s : SyncState) : Prop where
  numbered : ∀ rt, Numbered (s.source rt)
  copied : ∀ rt, s.destination rt <+: s.source rt
  task : s.TaskInv s.task

namespace SyncInv

variable {s : SyncState} {rt : ReplicatedTable} {rest : List ReplicatedTable}

theorem rollback (h : SyncInv s) : SyncInv s.rollback :=
  ⟨h.numbered, h.copied, fun hok => nomatch hok⟩

theorem restart (h : SyncInv s) :
    SyncInv { source := s.source, destination := s.destination } :=
  ⟨h.numbered, h.copied, trivial⟩

theorem began_subset (h : SyncInv s) (hk : s.Known rt) (hb : s.Behind rt)
    (hle : s.endSerial rt ≤ s.startSerial rt) : s.began rt ⊆ s.destination rt := by
  intro x hx
  refine (h.numbered rt).mem_of_le (h.copied rt) (hk.1 hx) ?_
  have h₁ := le_highest hx
  have h₂ := hk.2
  unfold SyncState.Behind at hb
  omega

/-- A table that needs nothing more, next to those that were done before. -/
theorem began_subset_of (h : SyncInv s)
    (hdone : ∀ rt', rt' ∉ rt :: rest → s.began rt' ⊆ s.destination rt')
    (hknown : ∀ rt', s.Known rt') (hbehind : ∀ rt', s.Behind rt')
    (hlt : ¬ s.startSerial rt < s.endSerial rt) {rt' : ReplicatedTable} (hrt' : rt' ∉ rest) :
    s.began rt' ⊆ s.destination rt' := by
  by_cases heq : rt' = rt
  · subst heq
    exact h.began_subset (hknown rt') (hbehind rt') (by omega)
  · exact hdone rt' (by simp [heq, hrt'])

/-! ## Growth -/

theorem source_subset {rows : List ℕ} (rt' : ReplicatedTable) :
    s.source rt' <+: Function.update s.source rt (s.source rt ++ rows) rt' := by
  by_cases hrt : rt' = rt
  · subst hrt
    rw [Function.update_self]
    exact List.prefix_append _ _
  · simp only [Function.update_of_ne hrt, List.prefix_rfl]

theorem grow {rows : List ℕ} (h : SyncInv s)
    (hg : (highest (s.source rt) :: rows).Pairwise (· < ·)) :
    SyncInv { s with source := Function.update s.source rt (s.source rt ++ rows) } := by
  have hknown : ∀ rt', s.Known rt' →
      ({ s with source := Function.update s.source rt (s.source rt ++ rows) } : SyncState).Known
        rt' :=
    fun rt' hk => ⟨List.Subset.trans hk.1 (source_subset rt').subset, hk.2⟩
  refine ⟨?_, ?_, ?_⟩
  · intro rt'
    dsimp only
    by_cases hrt : rt' = rt
    · subst hrt
      rw [Function.update_self]
      exact (h.numbered rt').append hg
    · rw [Function.update_of_ne hrt]
      exact h.numbered rt'
  · exact fun rt' => (h.copied rt').trans (source_subset rt')
  · have ht := h.task
    dsimp only
    generalize s.task = task at ht ⊢
    cases task with
    | srcSerials rest =>
      exact ⟨fun rt' => List.Subset.trans (ht.1 rt') (source_subset rt').subset, ht.2⟩
    | dstStart =>
      exact fun rt' => hknown rt' (ht rt')
    | dstSerials rest =>
      exact ⟨fun rt' => hknown rt' (ht.1 rt'), ht.2⟩
    | copy rest =>
      exact ⟨fun rt' => hknown rt' (ht.1 rt'), ht.2⟩
    | commit rest =>
      cases rest with
      | nil => exact ht
      | cons rt' rest =>
        obtain ⟨hk, ho, hdone⟩ := ht
        refine ⟨fun rt'' => hknown rt'' (hk rt''), ⟨ho.1, ?_, ho.2.2⟩, hdone⟩
        exact ho.2.1.trans (source_subset rt')
    | doSync => trivial
    | transacted ok =>
      exact ht
    | exited => trivial

/-! ## Statements -/

theorem beginPass (preflight start : Bool) (h : SyncInv s) (x : Bool) :
    SyncInv (syncStep x s (.begin preflight start)) := by
  unfold syncStep
  cases htask : s.task <;> dsimp only <;> try exact h
  split_ifs
  · exact ⟨h.numbered, h.copied, trivial⟩
  · exact ⟨h.numbered, h.copied, fun hok => nomatch hok⟩
  · refine ⟨h.numbered, h.copied, fun rt => List.Subset.refl _, ?_⟩
    exact fun rt hrt => absurd (mem_tables rt) hrt

theorem srcSerial (answered : Bool) (h : SyncInv s) (htask : s.task = .srcSerials (rt :: rest))
    (ha : answered ∨ highest (s.source rt) ≤ s.endSerial rt) :
    SyncInv { s with
      endSerial := Function.update s.endSerial rt
        (lookupSerialByTable (s.source rt) answered (s.endSerial rt))
      task := if rest = [] then .dstStart else .srcSerials rest } := by
  have ht := h.task
  rw [htask] at ht
  obtain ⟨hbegan, hcov⟩ := ht
  have hnew : highest (s.began rt) ≤
      lookupSerialByTable (s.source rt) answered (s.endSerial rt) := by
    have hle := highest_mono (hbegan rt)
    unfold lookupSerialByTable
    split_ifs with hc
    · exact hle
    · rcases ha with ha | ha
      · have hempty : s.source rt = [] := by
          by_contra hne
          exact hc ⟨ha, hne⟩
        rw [hempty] at hle
        exact hle.trans (Nat.zero_le _)
      · exact hle.trans ha
  have hall : ∀ rt', rt' ∉ rest → highest (s.began rt') ≤ Function.update s.endSerial rt
      (lookupSerialByTable (s.source rt) answered (s.endSerial rt)) rt' := by
    intro rt' hrt'
    by_cases heq : rt' = rt
    · subst heq
      rw [Function.update_self]
      exact hnew
    · rw [Function.update_of_ne heq]
      exact hcov rt' (by simp [heq, hrt'])
  refine ⟨h.numbered, h.copied, ?_⟩
  dsimp only
  split_ifs with hrest
  · subst hrest
    exact fun rt' => ⟨hbegan rt', hall rt' (List.not_mem_nil)⟩
  · exact ⟨hbegan, hall⟩

theorem dstSerial (answered : Bool) (h : SyncInv s) (htask : s.task = .dstSerials (rt :: rest))
    (ha : answered ∧ s.destination rt ≠ [] ∨ s.Behind rt) :
    SyncInv { s with
      startSerial := Function.update s.startSerial rt
        (lookupSerialByTable (s.destination rt) answered (s.startSerial rt))
      task := if rest = [] then .copy tables else .dstSerials rest } := by
  have ht := h.task
  rw [htask] at ht
  obtain ⟨hknown, hbehind⟩ := ht
  have hnew : lookupSerialByTable (s.destination rt) answered (s.startSerial rt) ≤
      highest (s.destination rt) := by
    unfold lookupSerialByTable
    split_ifs with hc
    · exact le_refl _
    · rcases ha with ha | ha
      · exact absurd ha hc
      · exact ha
  have hall : ∀ rt', rt' ∉ rest → Function.update s.startSerial rt
      (lookupSerialByTable (s.destination rt) answered (s.startSerial rt)) rt' ≤
        highest (s.destination rt') := by
    intro rt' hrt'
    by_cases heq : rt' = rt
    · subst heq
      rw [Function.update_self]
      exact hnew
    · rw [Function.update_of_ne heq]
      exact hbehind rt' (by simp [heq, hrt'])
  refine ⟨h.numbered, h.copied, ?_⟩
  dsimp only
  split_ifs with hrest
  · subst hrest
    refine ⟨fun rt' => hknown rt', ?_, ?_⟩
    · exact fun rt' => hall rt' List.not_mem_nil
    · exact fun rt' hrt' => absurd (mem_tables rt') hrt'
  · exact ⟨fun rt' => hknown rt', hall⟩

/-- What copying the rows of a table leads to. -/
theorem copyTable {select : QueryStatus} {inserts : List QueryStatus} (h : SyncInv s)
    (htask : s.task = .copy (rt :: rest)) : SyncInv (s.copyTable rt rest select inserts) := by
  have hfail : ∀ ss size ret, SyncInv (SyncState.rollback { s with
      startSerial := ss
      actualSize := size
      globalRet := ret }) :=
    fun _ _ _ => ⟨h.numbered, h.copied, fun hok => nomatch hok⟩
  unfold SyncState.copyTable
  set r := lookupRecordsByTable rt (s.source rt) (s.destination rt) (s.startSerial rt) select
    inserts { startSerial := s.startSerial rt, actualSize := s.actualSize } with hr
  dsimp only
  split
  · exact hfail _ _ _
  · exact hfail _ _ _
  · exact hfail _ _ _
  · next hqs =>
    split_ifs with hno
    · exact hfail _ _ _
    · -- all rows were inserted
      have hone : r.2.qs = .oneResult := by
        cases hq : r.2.qs with
        | hardError => simp [hq] at hqs
        | softError => simp [hq] at hqs
        | noResults => exact absurd hq hno
        | oneResult => rfl
      have hrows : r.2 = insertAll (s.destination rt) inserts
          ((s.source rt).filter fun x => s.startSerial rt < x)
          { startSerial := s.startSerial rt, actualSize := s.actualSize } := by
        rw [hone, if_neg (by simp)] at hqs
        rw [hr] at hqs ⊢
        rcases lookupRecordsByTable_cases rt (s.source rt) (s.destination rt) (s.startSerial rt) select
          inserts { startSerial := s.startSerial rt, actualSize := s.actualSize } with
          ⟨hl, -⟩ | hl | hl
        · rw [hl] at hqs
          exact nomatch hqs
        · rw [hl] at hqs
          exact nomatch hqs
        · rw [hl]
      rw [hrows] at hone ⊢
      obtain ⟨hcopied, hnew, hstart⟩ := insertAll_oneResult hone
      have ht := h.task
      rw [htask] at ht
      obtain ⟨hknown, hbehind, hdone⟩ := ht
      have hall := append_above (h.numbered rt) (h.copied rt) (hbehind rt) hnew
      refine ⟨h.numbered, h.copied, hknown, ⟨?_, ?_, ?_⟩, hdone⟩
      · intro rt' hrt'
        unfold SyncState.Behind
        dsimp only
        rw [Function.update_of_ne hrt']
        exact hbehind rt'
      · simp only [hcopied, List.nil_append, hall, List.prefix_rfl]
      · dsimp only
        rw [hcopied, List.nil_append, hall, Function.update_self]
        rcases hstart with hstart | hstart
        · rw [hstart]
          exact (hbehind rt).trans (highest_mono (h.copied rt).subset)
        · exact le_highest (List.mem_of_mem_filter hstart)

theorem commitTable {qs : QueryStatus} (h : SyncInv s) (htask : s.task = .commit (rt :: rest))
    (hq : qs ≠ .softError) : SyncInv (s.commitTable rt rest qs) := by
  have ht := h.task
  rw [htask] at ht
  obtain ⟨hknown, ⟨hothers, hcopied, hstart⟩, hdone⟩ := ht
  have hcommit : SyncInv { s with
      destination := Function.update s.destination rt (s.destination rt ++ s.copied)
      copied := []
      task := .copy (rt :: rest) } := by
    have hgrown : ∀ rt', s.destination rt' <+:
        Function.update s.destination rt (s.destination rt ++ s.copied) rt' := by
      intro rt'
      by_cases hrt : rt' = rt
      · subst hrt
        rw [Function.update_self]
        exact List.prefix_append _ _
      · simp only [Function.update_of_ne hrt, List.prefix_rfl]
    refine ⟨h.numbered, ?_, hknown, ?_, ?_⟩
    · intro rt'
      dsimp only
      by_cases hrt : rt' = rt
      · subst hrt
        rw [Function.update_self]
        exact hcopied
      · rw [Function.update_of_ne hrt]
        exact h.copied rt'
    · intro rt'
      unfold SyncState.Behind
      dsimp only
      by_cases hrt : rt' = rt
      · subst hrt
        rw [Function.update_self]
        exact hstart
      · rw [Function.update_of_ne hrt]
        exact hothers rt' hrt
    · exact fun rt' hrt' => List.Subset.trans (hdone rt' hrt') (hgrown rt').subset
  cases qs with
  | softError => exact absurd rfl hq
  | hardError => exact ⟨h.numbered, h.copied, fun hok => nomatch hok⟩
  | noResults => exact hcommit
  | oneResult => exact hcommit

/-- The loop of a table is over, or goes round once more. -/
theorem copy {started : Bool} {select : QueryStatus} {inserts : List QueryStatus}
    (h : SyncInv s) (x : Bool) : SyncInv (syncStep x s (.copy started select inserts)) := by
  unfold syncStep
  dsimp only
  split
  · next rt rest htask =>
    split_ifs with hlt hstart hrest
    · exact h.copyTable htask
    · exact h.rollback
    · -- the last table
      have ht := h.task
      rw [htask] at ht
      obtain ⟨hknown, hbehind, hdone⟩ := ht
      refine ⟨h.numbered, h.copied, fun _ rt' => ?_⟩
      exact h.began_subset_of hdone hknown hbehind hlt (by simp [hrest])
    · have ht := h.task
      rw [htask] at ht
      obtain ⟨hknown, hbehind, hdone⟩ := ht
      refine ⟨h.numbered, h.copied, hknown, hbehind, fun rt' hrt' => ?_⟩
      exact h.began_subset_of hdone hknown hbehind hlt hrt'
  · exact h

theorem serial {answered : Bool} (h : SyncInv s) (x : Bool)
    (ha : Attempts s (.serial answered)) : SyncInv (syncStep x s (.serial answered)) := by
  unfold Attempts at ha
  unfold syncStep
  cases htask : s.task with
  | srcSerials rest =>
    cases rest with
    | nil => exact h
    | cons rt rest =>
      rw [htask] at ha
      exact h.srcSerial answered htask ha
  | dstSerials rest =>
    cases rest with
    | nil => exact h
    | cons rt rest =>
      rw [htask] at ha
      exact h.dstSerial answered htask ha
  | doSync => exact h
  | dstStart => exact h
  | copy rest => exact h
  | commit rest => exact h
  | transacted ok => exact h
  | exited => exact h

end SyncInv

instance (s : SyncState) (e : SyncEvent) : Decidable (Attempts s e) := by
  unfold Attempts
  split
  · split <;> infer_instance
  · infer_instance
  · infer_instance

/-! ## Runs -/

variable {s : SyncState} {e : SyncEvent} {exitIfSynced : Bool}

/-- **One step keeps the destination the first part of the source.** -/
theorem syncStep_inv (h : SyncInv s) (hg : GrowsInOrder s e) (ha : Attempts s e) :
    SyncInv (syncStep exitIfSynced s e) := by
  cases e with
  | grow rt rows => exact h.grow hg
  | restart => exact h.restart
  | begin preflight start => exact h.beginPass preflight start exitIfSynced
  | serial answered => exact h.serial exitIfSynced ha
  | start started =>
    unfold syncStep
    dsimp only
    split
    · next htask =>
      have ht := h.task
      rw [htask] at ht
      split_ifs
      · exact ⟨h.numbered, h.copied, ht, fun rt hrt => absurd (mem_tables rt) hrt⟩
      · exact h.rollback
    · exact h
  | copy started select inserts => exact h.copy exitIfSynced
  | commit qs =>
    unfold syncStep
    dsimp only
    split
    · next htask => exact h.commitTable htask ha
    · exact h
  | finish =>
    unfold syncStep
    dsimp only
    split
    · unfold SyncState.finishSync
      split_ifs <;> exact ⟨h.numbered, h.copied, trivial⟩
    · exact h

theorem SyncInv.replicated (h : SyncInv s) : Replicated s := by
  intro rt
  have hn := (h.numbered rt).of_initial (h.copied rt)
  refine ⟨fun x hx y hy hlt => ?_, hn.nodup⟩
  exact (h.numbered rt).mem_of_le (h.copied rt) hy (hlt.le.trans (le_highest hx))

theorem SyncInv.passComplete (h : SyncInv s) : PassComplete s := by
  intro htask
  have ht := h.task
  rw [htask] at ht
  exact ht rfl

/-- **Replication without gaps.** As long as every commit and every lookup succeeds where it
matters, the destination has no gap and no duplicate after any number of statements, and all that was
there at the beginning of a pass is there when the pass has succeeded. -/
theorem run_replication (exitIfSynced : Bool) (source : ReplicatedTable → List ℕ)
    (hsource : ∀ rt, Numbered (source rt)) (events : List SyncEvent)
    (hgrow : Admits (syncStep exitIfSynced) GrowsInOrder { source := source } events)
    (hok : Admits (syncStep exitIfSynced) Attempts { source := source } events) :
    Replicated (run (syncStep exitIfSynced) { source := source } events) ∧
      PassComplete (run (syncStep exitIfSynced) { source := source } events) := by
  have hinv : SyncInv (run (syncStep exitIfSynced) { source := source } events) := by
    refine run_invariant (fun s e h hs => syncStep_inv hs h.1 h.2) (hgrow.and hok) ?_
    exact ⟨hsource, fun rt => List.nil_prefix, trivial⟩
  exact ⟨hinv.replicated, hinv.passComplete⟩

/-! ## A commit that fails softly -/

/-- A pass that copies one row of the first table, up to the return of `transact`. -/
def passEvents (commit : QueryStatus) : List SyncEvent :=
  [.begin true true] ++ List.replicate tables.length (.serial true) ++ [.start true] ++
    List.replicate tables.length (.serial true) ++ [.copy true .oneResult [], .commit commit] ++
    List.replicate tables.length (.copy true .oneResult [])

/-- The first row is copied by a transaction whose commit fails softly; a second row appears before
the next pass. -/
def lostCommit : List SyncEvent :=
  .grow .denominations [1] :: passEvents .softError ++ .finish :: .grow .denominations [2] ::
    passEvents .noResults

/-- Its first pass reports success without the row, its second one leaves a gap. -/
theorem lostCommit_gap :
    ¬ ∀ events, Admits (syncStep false) GrowsInOrder { source := fun _ => [] } events →
      Replicated (run (syncStep false) { source := fun _ => [] } events) ∧
        PassComplete (run (syncStep false) { source := fun _ => [] } events) := by
  intro h
  have hgrow : Admits (syncStep false) GrowsInOrder { source := fun _ => [] } lostCommit := by
    decide +kernel
  have hdst : (run (syncStep false) { source := fun _ => [] } lostCommit).destination
      .denominations = [2] := by decide +kernel
  have hsrc : (run (syncStep false) { source := fun _ => [] } lostCommit).source
      .denominations = [1, 2] := by decide +kernel
  have hgap := ((h lostCommit hgrow).1 .denominations).1 2 (by simp [hdst]) 1 (by simp [hsrc])
    (by omega)
  rw [hdst] at hgap
  exact absurd hgap (by decide)

/-- A pass without errors over two rows; a third one comes while it is running. -/
def grownPass : List SyncEvent :=
  .grow .denominations [1, 2] :: .begin true true :: .grow .denominations [3] ::
    (passEvents .noResults).tail

/-- The third row is copied as well. -/
theorem run_replication_grown :
    (run (syncStep true) { source := fun _ => [] } grownPass).destination .denominations =
        [1, 2, 3] ∧
      Replicated (run (syncStep true) { source := fun _ => [] } grownPass) ∧
      PassComplete (run (syncStep true) { source := fun _ => [] } grownPass) :=
  ⟨by decide +kernel, run_replication true (fun _ => []) (fun _ => by decide) grownPass
    (by decide +kernel) (by decide +kernel)⟩

end TalerExchange
