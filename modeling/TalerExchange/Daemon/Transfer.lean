import TalerExchange.Shard.Work
import Mathlib.Data.List.Nodup
import Mathlib.Data.List.Sort

/-!
# Transfer

`taler-exchange-transfer` executes the prepared wire transfers, shard by shard of the rows of
`prewire`. Any number of its processes run side by side, and other processes insert rows: a row gets
its number when it is inserted and becomes visible when the transaction that inserted it commits. A
process works on a batch of rows in one transaction, which it keeps open until the bank has answered
for all of them.

* `wirePrepareCb`, `wireConfirmCb`, `batchDone`, `runTransfers`: the process;
* `TransferState`, `transferStep`: all processes, the bank and the tables;
* **`run_transfer`**: a completed shard has no row that is neither finished nor failed, as long as no
  row becomes visible behind a process of its shard;
* `lateRow`: a row that becomes visible late is never transferred.
-/

namespace TalerExchange

open Sql Transition Tiling

/-! ## The process -/

/-- A transfer that the bank has been asked for. -/
structure WirePrepareData where
  rowId : ℕ
  retries : ℕ
deriving DecidableEq, Repr

/-- What a process does next. -/
inductive TransferTask
  | selectShard
  | runTransfers
  | awaitBank
  | shutdown
deriving DecidableEq, Repr

/-- The global variables of a process, and the marks of its open transaction: rows that are to be
finished (`true`) or failed. -/
structure Transfer where
  shardStart : ℕ := 0
  shardEnd : ℕ := 0
  batchStart : ℕ := 0
  batchEnd : ℕ := 0
  wpd : List WirePrepareData := []
  marks : List (ℕ × Bool) := []
  task : TransferTask := .selectShard
deriving DecidableEq, Repr

/-- What the database answers. -/
inductive DbStatus
  | success
  | softError
  | hardError
deriving DecidableEq, Repr

/-- What the bank answers, by the HTTP status. -/
inductive BankResponse
  | ok
  | rejected
  | unavailable
  | error
deriving DecidableEq, Repr

/-- `MAX_RETRIES`. -/
def maxRetries : ℕ := 16

namespace Transfer

variable (v : Transfer)

/-- The rows of the batch. -/
def batch : List ℕ := v.wpd.map WirePrepareData.rowId ++ v.marks.map Prod.fst

/-- `cleanup_wpd` and a rollback. -/
def rollback (task : TransferTask) : Transfer := { v with wpd := [], marks := [], task := task }

/-- `shard->shard_end - shard->batch_start`, an unsigned difference in a signed variable. -/
def limit : ℤ := stored 64 ((v.shardEnd + 2 ^ 64 - v.batchStart) % 2 ^ 64)

/-- The shard that `complete_shard` is called for. -/
def completed : Shard where
  jobName := "transfer"
  startRow := v.shardStart % 2 ^ 64
  endRow := (v.batchEnd + 1) % 2 ^ 64
  start_lt := Nat.mod_lt _ (by decide)
  end_lt := Nat.mod_lt _ (by decide)

/-- `select_shard` after `begin_shard` has returned a shard. -/
def withShard (x : Shard) : Transfer where
  shardStart := x.startRow
  shardEnd := x.endRow
  batchStart := x.startRow
  task := .runTransfers

/-- `batch_done`. -/
def batchDone : DbStatus → Transfer
  | .success => { v with batchStart := v.batchEnd + 1, marks := [], task := .runTransfers }
  | .softError => v.rollback .runTransfers
  | .hardError => v.rollback .shutdown

/-- `wire_prepare_cb` for a row; a transfer in `broken` cannot be started. -/
def wirePrepareCb (broken : List ℕ) (commit : DbStatus) (id : ℕ) : Transfer :=
  if v.task ≠ .awaitBank then v
  else if v.shardEnd ≤ id then
    let v := { v with batchEnd := v.shardEnd - 1 }
    if v.wpd = [] then v.batchDone commit else v
  else if id ∈ broken then v.rollback .shutdown
  else { v with wpd := ⟨id, 0⟩ :: v.wpd }

/-- The calls of `wire_prepare_cb` for the rows of a query. -/
def prepareAll (broken : List ℕ) (commit : DbStatus) (ids : List ℕ) : Transfer :=
  ids.foldl (fun v id => v.wirePrepareCb broken commit id) { v with task := .awaitBank }

/-- `wire_confirm_cb` up to the question whether the batch is done: the bank has decided about a row,
and the mark was written with some status. -/
def decided (id : ℕ) (ok : Bool) : DbStatus → Transfer
  | .success => { v with
      batchEnd := max id v.batchEnd
      wpd := v.wpd.filter fun d => d.rowId ≠ id
      marks := v.marks ++ [(id, ok)] }
  | .softError => { v with batchEnd := max id v.batchEnd }.rollback .runTransfers
  | .hardError => { v with batchEnd := max id v.batchEnd }.rollback .shutdown

/-- `wire_confirm_cb` for an answer that asks to try again. -/
def retry (id : ℕ) : Transfer :=
  if v.wpd.any fun d => d.rowId = id ∧ maxRetries ≤ d.retries + 1 then v.rollback .shutdown
  else { v with wpd := v.wpd.map fun d => if d.rowId = id then ⟨id, d.retries + 1⟩ else d }

end Transfer

/-! ## All processes -/

/-- A row of `prewire`. -/
structure Prewire where
  prewireUuid : ℕ
  finished : Bool := false
  failed : Bool := false
deriving DecidableEq, Repr

/-- The row is finished or failed. -/
def Prewire.isDone (r : Prewire) : Bool := r.finished || r.failed

/-- A row after the marks of a transaction. -/
def Prewire.mark (marks : List (ℕ × Bool)) (r : Prewire) : Prewire where
  prewireUuid := r.prewireUuid
  finished := r.finished || (r.prewireUuid, true) ∈ marks
  failed := r.failed || (r.prewireUuid, false) ∈ marks

/-- The shards, the last number given to a row, the rows in transactions that are still open, the
rows that are visible, the rows that the bank has confirmed, and the processes. -/
structure TransferState where
  shards : ShardState
  lastUuid : ℕ
  inserted : List ℕ
  prewire : List Prewire
  confirmed : List ℕ
  workers : List Transfer

/-- Nothing has happened yet. -/
def TransferState.empty : TransferState := ⟨ShardState.empty, 0, [], [], [], []⟩

/-- How a call of `begin_shard` goes. -/
structure SelectArgs where
  delay : ℕ
  shardSize : ℕ
  rolledBack : ℕ
  elapsed : ℕ
  hardError : Bool
deriving DecidableEq, Repr

/-- The steps of the system. -/
inductive TransferOp
  | wait (d : ℕ)
  | insert
  | visible (id : ℕ)
  | launch
  | select (w : ℕ) (a : SelectArgs)
  | run (w : ℕ) (status : DbStatus) (broken : List ℕ) (commit : DbStatus)
  | answer (w id : ℕ) (r : BankResponse) (status commit : DbStatus)
  | shutdown (w : ℕ)
deriving DecidableEq, Repr

namespace TransferState

variable (s : TransferState)

/-- `wire_prepare_data_get`: the first rows from a number on that are neither finished nor failed. -/
def prepared (start n : ℕ) : List ℕ :=
  ((s.prewire.filter fun r => start ≤ r.prewireUuid ∧ !r.isDone).take n).map Prewire.prewireUuid

/-- The state after process `w` has changed its variables. -/
def setWorker (w : ℕ) (v : Transfer) : TransferState := { s with workers := s.workers.set w v }

/-- The rows after a transaction with some marks has been committed, or not. -/
def committed (marks : List (ℕ × Bool)) : DbStatus → List Prewire
  | .success => s.prewire.map (Prewire.mark marks)
  | _ => s.prewire

/-- The arguments of a call of `begin_shard` by process `w`. -/
def selectArgs (w : ℕ) (a : SelectArgs) : BeginArgs :=
  ⟨w, "transfer", a.delay, a.shardSize, a.rolledBack, a.elapsed⟩

/-- `select_shard`. -/
def selectShard (w : ℕ) (v : Transfer) (a : SelectArgs) : TransferState :=
  let sh := shardStep s.shards (.begin (selectArgs w a))
  match s.shards.beginShard (selectArgs w a) with
  | some (_, x) => { s with shards := sh }.setWorker w (Transfer.withShard x)
  | none => { s with shards := sh }.setWorker w
      { v with task := if a.hardError then .shutdown else .selectShard }

/-- `run_transfers`. A query without rows leaves the process to try again. -/
def runTransfers (w : ℕ) (v : Transfer) (status : DbStatus) (broken : List ℕ) (commit : DbStatus) :
    TransferState :=
  if v.limit ≤ 0 then
    match status with
    | .success => { s with shards := shardStep s.shards (.complete w v.completed) }.setWorker w
        (v.rollback .selectShard)
    | .softError => s.setWorker w (v.rollback .selectShard)
    | .hardError => s.setWorker w (v.rollback .shutdown)
  else
    match status with
    | .success =>
      let ids := s.prepared v.batchStart (min v.limit 256).toNat
      if ids = [] then s else s.setWorker w (v.prepareAll broken commit ids)
    | .softError => s.setWorker w (v.rollback .runTransfers)
    | .hardError => s.setWorker w (v.rollback .shutdown)

/-- The bank has decided about a row, and the batch is done if this was the last one. -/
def settle (w : ℕ) (v : Transfer) (id : ℕ) (ok : Bool) (status commit : DbStatus) : TransferState :=
  let v := v.decided id ok status
  if v.task = .awaitBank ∧ v.wpd = [] then
    { s with prewire := s.committed v.marks commit }.setWorker w (v.batchDone commit)
  else s.setWorker w v

/-- `wire_confirm_cb`. -/
def wireConfirmCb (w : ℕ) (v : Transfer) (id : ℕ) (r : BankResponse) (status commit : DbStatus) :
    TransferState :=
  match r with
  | .ok => { s with confirmed := id :: s.confirmed }.settle w v id true status commit
  | .rejected => s.settle w v id false status commit
  | .unavailable => s.setWorker w (v.retry id)
  | .error => s.setWorker w (v.rollback .shutdown)

end TransferState

/-- One step of the system; a task that is not the process's next one does nothing. -/
def transferStep (s : TransferState) : TransferOp → TransferState
  | .wait d => { s with shards := shardStep s.shards (.wait d) }
  | .insert => { s with lastUuid := s.lastUuid + 1, inserted := (s.lastUuid + 1) :: s.inserted }
  | .visible id =>
    if id ∈ s.inserted then
      { s with
        inserted := s.inserted.filter (· ≠ id)
        prewire := s.prewire.orderedInsert (·.prewireUuid ≤ ·.prewireUuid) { prewireUuid := id } }
    else s
  | .launch => { s with workers := s.workers ++ [{}] }
  | .select w a =>
    match s.workers[w]? with
    | some v => if v.task = .selectShard then s.selectShard w v a else s
    | none => s
  | .run w status broken commit =>
    match s.workers[w]? with
    | some v => if v.task = .runTransfers then s.runTransfers w v status broken commit else s
    | none => s
  | .answer w id r status commit =>
    match s.workers[w]? with
    | some v =>
      if v.task = .awaitBank ∧ v.wpd.any fun d => d.rowId = id then
        s.wireConfirmCb w v id r status commit
      else s
    | none => s
  | .shutdown w =>
    match s.workers[w]? with
    | some v => s.setWorker w (v.rollback .shutdown)
    | none => s

/-- The state after some steps. -/
def transferRun (ops : List TransferOp) : TransferState := run transferStep TransferState.empty ops

/-! ## What is to hold -/

/-- In a completed shard every row is finished or failed, a process only completes the shard that it
was given, and a row is only finished if the bank has confirmed it. -/
structure TransferSound (s : TransferState) : Prop where
  complete : ∀ x ∈ s.shards.shards.rows, x.completed = true → ∀ r ∈ s.prewire,
    x.startRow ≤ r.prewireUuid → r.prewireUuid < x.endRow → r.isDone = true
  exact : ∀ v ∈ s.workers, v.task = .runTransfers → v.limit ≤ 0 → v.batchEnd + 1 = v.shardEnd
  confirmed : ∀ r ∈ s.prewire, r.finished = true → r.prewireUuid ∈ s.confirmed

/-- The process has not got as far as a row of its shard. -/
def Transfer.Ahead (v : Transfer) (id : ℕ) : Prop :=
  v.task = .runTransfers ∨ v.task = .awaitBank → v.shardStart ≤ id → id < v.shardEnd →
    v.batchStart ≤ id ∧ v.batchEnd < id ∧ ∀ b ∈ v.batch, b < id

instance (v : Transfer) (id : ℕ) : Decidable (v.Ahead id) :=
  inferInstanceAs (Decidable (_ → _ → _ → _ ∧ _ ∧ _))

/-- The condition on the steps: shards are not empty and fit their columns, and a row becomes
visible neither in a completed shard nor behind a process. -/
def TransferOpOk (s : TransferState) : TransferOp → Prop
  | .select w a => 0 < a.shardSize ∧ s.shards.Fits (TransferState.selectArgs w a)
  | .visible id => (∀ x ∈ s.shards.shards.rows, x.completed = true →
      ¬ (x.startRow ≤ id ∧ (id : ℤ) < x.endRow)) ∧ ∀ v ∈ s.workers, v.Ahead id
  | _ => True

instance (s : TransferState) : (o : TransferOp) → Decidable (TransferOpOk s o)
  | .select .. => inferInstanceAs (Decidable (_ ∧ _))
  | .visible _ => inferInstanceAs (Decidable ((∀ x ∈ _, _ → ¬ _) ∧ ∀ v ∈ _, _))
  | .wait _ | .insert | .launch | .run .. | .answer .. | .shutdown _ => .isTrue trivial

/-! ## The rows of a process -/

/-- What a process knows of the rows of its shard: those before its batch are done. -/
structure InShardRows (rows : List Prewire) (v : Transfer) : Prop where
  nonempty : v.shardStart < v.shardEnd
  end_lt : v.shardEnd < 2 ^ 63
  start_le : v.shardStart ≤ v.batchStart
  batch_le : v.batchStart ≤ v.shardEnd
  end_le : v.batchEnd < v.shardEnd
  moved : v.batchStart = v.shardStart ∨ v.batchStart ≤ v.batchEnd + 1
  passed : ∀ r ∈ rows, v.shardStart ≤ r.prewireUuid → r.prewireUuid < v.batchStart → r.isDone = true

/-- The rows of a process up to where a batch that was rolled back ended. -/
def waiting (rows : List Prewire) (v : Transfer) : List Prewire :=
  rows.filter fun r => !r.isDone ∧ v.batchStart ≤ r.prewireUuid ∧ r.prewireUuid ≤ v.batchEnd

/-- How many rows a batch may have. -/
def Transfer.size (v : Transfer) : ℕ := min (v.shardEnd - v.batchStart) 256

/-- The batch of a process holds every row up to its last one that is not done. -/
structure InFlight (rows : List Prewire) (v : Transfer) : Prop where
  holds : ∀ r ∈ rows, r.isDone = false → v.batchStart ≤ r.prewireUuid →
    (r.prewireUuid ≤ v.batchEnd ∨ ∃ b ∈ v.batch, r.prewireUuid ≤ b) → r.prewireUuid ∈ v.batch
  inside : ∀ b ∈ v.batch, v.batchStart ≤ b ∧ b < v.shardEnd
  size : v.batch.length ≤ v.size

/-- What holds of a process, by its task. -/
structure WorkerOk (rows : List Prewire) (confirmed : List ℕ) (v : Transfer) : Prop where
  shard : v.task = .runTransfers ∨ v.task = .awaitBank → InShardRows rows v
  idle : v.task = .runTransfers → (waiting rows v).length ≤ v.size
  empty : v.task ≠ .awaitBank → v.wpd = [] ∧ v.marks = []
  flight : v.task = .awaitBank → InFlight rows v
  marked : ∀ id, (id, true) ∈ v.marks → id ∈ confirmed

section Rows

variable {rows rows' : List Prewire} {v v' : Transfer} {confirmed : List ℕ}

/-- A batch in flight holds what may be left when it is rolled back. -/
theorem InFlight.waiting_le (hs : rows.Pairwise (·.prewireUuid < ·.prewireUuid))
    (h : InFlight rows v) : (waiting rows v).length ≤ v.size := by
  have hnodup : ((waiting rows v).map Prewire.prewireUuid).Nodup := by
    refine List.pairwise_map.mpr ((hs.filter _).imp fun h => ?_)
    exact h.ne
  have hsub : (waiting rows v).map Prewire.prewireUuid ⊆ v.batch := by
    intro b hb
    obtain ⟨r, hr, rfl⟩ := List.mem_map.mp hb
    obtain ⟨hmem, hcond⟩ := List.mem_filter.mp hr
    simp only [Bool.not_eq_eq_eq_not, Bool.not_true, decide_eq_true_eq] at hcond
    exact h.holds r hmem hcond.1 hcond.2.1 (Or.inl hcond.2.2)
  have hle := (List.subperm_of_subset hnodup hsub).length_le
  rw [List.length_map] at hle
  exact hle.trans h.size

/-- Marks only add to what is done. -/
theorem isDone_mark {r : Prewire} {marks : List (ℕ × Bool)} (h : r.isDone = true) :
    (r.mark marks).isDone = true := by
  unfold Prewire.isDone Prewire.mark at *
  simp only [Bool.or_eq_true] at h ⊢
  exact h.imp Or.inl Or.inl

theorem isDone_mark_of_mem {r : Prewire} {marks : List (ℕ × Bool)}
    (h : r.prewireUuid ∈ marks.map Prod.fst) : (r.mark marks).isDone = true := by
  obtain ⟨⟨id, b⟩, hm, rfl⟩ := List.mem_map.mp h
  unfold Prewire.isDone Prewire.mark
  cases b <;> simp_all

theorem InShardRows.mark (h : InShardRows rows v) (marks : List (ℕ × Bool)) :
    InShardRows (rows.map (Prewire.mark marks)) v := by
  refine ⟨h.nonempty, h.end_lt, h.start_le, h.batch_le, h.end_le, h.moved, fun r hr h₁ h₂ => ?_⟩
  obtain ⟨q, hq, rfl⟩ := List.mem_map.mp hr
  exact isDone_mark (h.passed q hq h₁ h₂)

theorem InFlight.mark (h : InFlight rows v) (marks : List (ℕ × Bool)) :
    InFlight (rows.map (Prewire.mark marks)) v := by
  refine ⟨fun r hr hd h₁ h₂ => ?_, h.inside, h.size⟩
  obtain ⟨q, hq, rfl⟩ := List.mem_map.mp hr
  refine h.holds q hq ?_ h₁ h₂
  by_contra hdone
  rw [isDone_mark (by simpa using hdone)] at hd
  cases hd

theorem waiting_mark_le (marks : List (ℕ × Bool)) :
    (waiting (rows.map (Prewire.mark marks)) v).length ≤ (waiting rows v).length := by
  unfold waiting
  rw [List.filter_map, List.length_map]
  refine List.Sublist.length_le (List.monotone_filter_right _ fun r hr => ?_)
  simp only [Function.comp_apply, Bool.not_eq_eq_eq_not, Bool.not_true, decide_eq_true_eq] at hr ⊢
  refine ⟨?_, hr.2⟩
  by_contra hdone
  have hmarked : (Prewire.mark marks _).isDone = true := isDone_mark (by simpa using hdone)
  rw [hr.1] at hmarked
  cases hmarked

/-- **Processes do not disturb each other**: what one of them commits, the others only see done. -/
theorem WorkerOk.mark (h : WorkerOk rows confirmed v) (marks : List (ℕ × Bool)) :
    WorkerOk (rows.map (Prewire.mark marks)) confirmed v :=
  ⟨fun ht => (h.shard ht).mark marks, fun ht => (waiting_mark_le marks).trans (h.idle ht), h.empty,
    fun ht => (h.flight ht).mark marks, h.marked⟩

theorem WorkerOk.mono {confirmed' : List ℕ} (h : WorkerOk rows confirmed v)
    (hm : ∀ id ∈ confirmed, id ∈ confirmed') : WorkerOk rows confirmed' v :=
  ⟨h.shard, h.idle, h.empty, h.flight, fun id hid => hm id (h.marked id hid)⟩

/-- A process without a shard, or one that is down. -/
theorem WorkerOk.rollback (v : Transfer) {task : TransferTask}
    (ht : task = .selectShard ∨ task = .shutdown) : WorkerOk rows confirmed (v.rollback task) := by
  have hr : (v.rollback task).task = task := rfl
  refine ⟨fun h => ?_, fun h => ?_, fun _ => ⟨rfl, rfl⟩, fun h => ?_, fun _ h => nomatch h⟩
  · rw [hr] at h
    rcases ht with rfl | rfl <;> simp at h
  · rw [hr] at h
    rcases ht with rfl | rfl <;> simp at h
  · rw [hr] at h
    rcases ht with rfl | rfl <;> simp at h

/-- The row that becomes visible. -/
theorem mem_visible {id : ℕ} {r : Prewire} :
    r ∈ rows.orderedInsert (·.prewireUuid ≤ ·.prewireUuid) { prewireUuid := id } ↔
      r = { prewireUuid := id } ∨ r ∈ rows := List.mem_orderedInsert _

theorem sorted_visible {id : ℕ} (hs : rows.Pairwise (·.prewireUuid < ·.prewireUuid))
    (hnew : ∀ r ∈ rows, r.prewireUuid ≠ id) :
    (rows.orderedInsert (·.prewireUuid ≤ ·.prewireUuid) { prewireUuid := id }).Pairwise
      (·.prewireUuid < ·.prewireUuid) := by
  induction rows with
  | nil => exact List.pairwise_singleton ..
  | cons r rows ih =>
    obtain ⟨hr, hs⟩ := List.pairwise_cons.mp hs
    have hne := hnew r List.mem_cons_self
    rw [List.orderedInsert_cons]
    split_ifs with hle
    · have hlt : id < r.prewireUuid := lt_of_le_of_ne hle (Ne.symm hne)
      refine List.pairwise_cons.mpr ⟨fun q hq => ?_, List.pairwise_cons.mpr ⟨hr, hs⟩⟩
      rcases List.mem_cons.mp hq with rfl | hq
      · exact hlt
      · exact hlt.trans (hr q hq)
    · refine List.pairwise_cons.mpr ⟨fun q hq => ?_, ih hs fun q hq =>
        hnew q (List.mem_cons_of_mem _ hq)⟩
      rcases mem_visible.mp hq with rfl | hq
      · exact not_le.mp hle
      · exact hr q hq

/-- **A row that becomes visible ahead of a process** is not missed by it. -/
theorem WorkerOk.visible {id : ℕ} (h : WorkerOk rows confirmed v) (ha : v.Ahead id) :
    WorkerOk (rows.orderedInsert (·.prewireUuid ≤ ·.prewireUuid) { prewireUuid := id }) confirmed v := by
  refine ⟨fun ht => ?_, fun ht => ?_, h.empty, fun ht => ?_, h.marked⟩
  · have hv := h.shard ht
    refine ⟨hv.nonempty, hv.end_lt, hv.start_le, hv.batch_le, hv.end_le, hv.moved,
      fun r hr h₁ h₂ => ?_⟩
    rcases mem_visible.mp hr with rfl | hr
    · have hlt : id < v.shardEnd := lt_of_lt_of_le h₂ hv.batch_le
      exact absurd h₂ (not_lt.mpr (ha ht h₁ hlt).1)
    · exact hv.passed r hr h₁ h₂
  · have hv := h.shard (Or.inl ht)
    have hperm := List.perm_orderedInsert (fun a b : Prewire => a.prewireUuid ≤ b.prewireUuid)
      { prewireUuid := id } rows
    have hlen := (hperm.filter fun r : Prewire =>
      !r.isDone ∧ v.batchStart ≤ r.prewireUuid ∧ r.prewireUuid ≤ v.batchEnd).length_eq
    unfold waiting
    rw [hlen, List.filter_cons_of_neg]
    · exact h.idle ht
    · simp only [decide_eq_true_eq, not_and, not_le]
      intro _ hle
      by_cases hlt : id < v.shardEnd
      · exact (ha (Or.inl ht) (hv.start_le.trans hle) hlt).2.1
      · exact hv.end_le.trans_le (not_lt.mp hlt)
  · have hv := h.shard (Or.inr ht)
    have hf := h.flight ht
    refine ⟨fun r hr hd h₁ h₂ => ?_, hf.inside, hf.size⟩
    rcases mem_visible.mp hr with rfl | hr
    · have hahead := ha (Or.inr ht) (hv.start_le.trans h₁)
      rcases h₂ with h₂ | ⟨b, hb, h₂⟩
      · have := (hahead (lt_of_le_of_lt h₂ hv.end_le)).2.1
        simp only at h₂
        omega
      · have := (hahead (lt_of_le_of_lt h₂ (hf.inside b hb).2)).2.2 b hb
        simp only at h₂
        omega
    · exact hf.holds r hr hd h₁ h₂

end Rows

/-! ## A batch -/

section Batch

variable {rows : List Prewire} {v : Transfer} {confirmed : List ℕ} {broken : List ℕ}
  {commit : DbStatus}

/-- A process that is not waiting for more rows ignores them. -/
theorem foldl_wirePrepareCb (h : v.task ≠ .awaitBank) (ids : List ℕ) :
    ids.foldl (fun v id => v.wirePrepareCb broken commit id) v = v := by
  induction ids with
  | nil => rfl
  | cons id ids ih =>
    rw [List.foldl_cons]
    have : v.wirePrepareCb broken commit id = v := by
      unfold Transfer.wirePrepareCb
      rw [if_pos h]
    rw [this]
    exact ih

/-- The rows of a query up to the end of the shard. -/
def Transfer.own (v : Transfer) (ids : List ℕ) : List ℕ := ids.filter (· < v.shardEnd)

/-- **What the rows of a query do to a process**: it goes down, it waits for the bank to answer for
the rows of its shard, or there were none of these and the batch is done at once. -/
theorem foldl_wirePrepareCb_cases {ids : List ℕ} (ht : v.task = .awaitBank) {v' : Transfer}
    (h : ids.foldl (fun v id => v.wirePrepareCb broken commit id) v = v') :
    (∃ u, v' = Transfer.rollback u .shutdown) ∨
    (∃ d e, v' = { v with wpd := d ++ v.wpd, batchEnd := e } ∧
      d.map WirePrepareData.rowId = (v.own ids).reverse ∧
      (e = v.batchEnd ∧ (∀ id ∈ ids, id < v.shardEnd) ∨
        e = v.shardEnd - 1 ∧ ∃ id ∈ ids, v.shardEnd ≤ id)) ∨
    (v.wpd = [] ∧ (∃ id rest, ids = id :: rest ∧ v.shardEnd ≤ id) ∧
      v' = { v with batchEnd := v.shardEnd - 1 }.batchDone commit) := by
  induction ids generalizing v with
  | nil =>
    refine Or.inr (Or.inl ⟨[], v.batchEnd, h.symm, rfl, Or.inl ⟨rfl, fun _ h => nomatch h⟩⟩)
  | cons id ids ih =>
    rw [List.foldl_cons] at h
    by_cases hid : v.shardEnd ≤ id
    · have hown : v.own (id :: ids) = v.own ids := List.filter_cons_of_neg (by simpa using hid)
      by_cases hw : v.wpd = []
      · -- the first row beyond the shard ends the batch
        have hcb : v.wirePrepareCb broken commit id =
            { v with batchEnd := v.shardEnd - 1 }.batchDone commit := by
          unfold Transfer.wirePrepareCb
          rw [if_neg (by simpa using ht), if_pos hid]
          exact if_pos hw
        rw [hcb, foldl_wirePrepareCb] at h
        · exact Or.inr (Or.inr ⟨hw, ⟨id, ids, rfl, hid⟩, h.symm⟩)
        · cases commit <;> simp [Transfer.batchDone, Transfer.rollback]
      · have hcb : v.wirePrepareCb broken commit id = { v with batchEnd := v.shardEnd - 1 } := by
          unfold Transfer.wirePrepareCb
          rw [if_neg (by simpa using ht), if_pos hid]
          exact if_neg hw
        rw [hcb] at h
        rcases ih (v := { v with batchEnd := v.shardEnd - 1 }) ht h with h | ⟨d, e, h, hd, he⟩ | ⟨h, -⟩
        · exact Or.inl h
        · refine Or.inr (Or.inl ⟨d, e, h, by rw [hown]; exact hd, Or.inr ⟨?_, id, List.mem_cons_self, hid⟩⟩)
          rcases he with ⟨he, -⟩ | ⟨he, -⟩
          · exact he
          · exact he
        · exact absurd h hw
    · by_cases hbroken : id ∈ broken
      · have hcb : v.wirePrepareCb broken commit id = v.rollback .shutdown := by
          unfold Transfer.wirePrepareCb
          rw [if_neg (by simpa using ht), if_neg hid, if_pos hbroken]
        rw [hcb, foldl_wirePrepareCb (by simp [Transfer.rollback])] at h
        exact Or.inl ⟨v, h.symm⟩
      · have hcb : v.wirePrepareCb broken commit id = { v with wpd := ⟨id, 0⟩ :: v.wpd } := by
          unfold Transfer.wirePrepareCb
          rw [if_neg (by simpa using ht), if_neg hid, if_neg hbroken]
        have hown : v.own (id :: ids) = id :: v.own ids :=
          List.filter_cons_of_pos (by simpa using hid)
        rw [hcb] at h
        rcases ih (v := { v with wpd := ⟨id, 0⟩ :: v.wpd }) ht h with h | ⟨d, e, h, hd, he⟩ | ⟨h, -⟩
        · exact Or.inl h
        · refine Or.inr (Or.inl ⟨d ++ [⟨id, 0⟩], e, ?_, ?_, ?_⟩)
          · rw [h, List.append_assoc]
            rfl
          · rw [List.map_append, hd, hown, List.reverse_cons]
            rfl
          · rcases he with ⟨he, hall⟩ | ⟨he, x, hx, hle⟩
            · refine Or.inl ⟨he, fun y hy => ?_⟩
              rcases List.mem_cons.mp hy with rfl | hy
              · exact not_le.mp hid
              · exact hall y hy
            · exact Or.inr ⟨he, x, List.mem_cons_of_mem _ hx, hle⟩
        · cases h

theorem limit_eq (h₁ : v.batchStart ≤ v.shardEnd) (h₂ : v.shardEnd < 2 ^ 63) :
    v.limit = v.shardEnd - v.batchStart := by
  unfold Transfer.limit
  have hmod : (v.shardEnd + 2 ^ 64 - v.batchStart) % 2 ^ 64 = v.shardEnd - v.batchStart := by omega
  rw [hmod, stored_of_lt (by omega)]
  omega

/-- The marks are committed and the process moves on, or it stays where it was, or it goes down. -/
theorem WorkerOk.batchDone {marked : List Prewire} (hv : InShardRows rows v)
    (hw : (waiting rows v).length ≤ v.size) (hwpd : v.wpd = [])
    (hm : v.batchStart ≤ v.batchEnd + 1)
    (hall : ∀ r ∈ rows, r.isDone = false → v.batchStart ≤ r.prewireUuid →
      r.prewireUuid ≤ v.batchEnd → r.prewireUuid ∈ v.marks.map Prod.fst)
    (hrows : commit = .success → marked = rows.map (Prewire.mark v.marks))
    (hsame : commit ≠ .success → marked = rows) :
    WorkerOk marked confirmed (v.batchDone commit) := by
  cases commit with
  | success =>
    rw [hrows rfl]
    refine ⟨fun _ => ?_, fun _ => ?_, fun _ => ⟨hwpd, rfl⟩, fun h => (nomatch h),
      fun _ h => nomatch h⟩
    · refine ⟨hv.nonempty, hv.end_lt, hv.start_le.trans hm, hv.end_le, hv.end_le, Or.inr le_rfl,
        fun r hr h₁ h₂ => ?_⟩
      obtain ⟨q, hq, rfl⟩ := List.mem_map.mp hr
      by_cases hd : q.isDone = true
      · exact isDone_mark hd
      · by_cases hlt : q.prewireUuid < v.batchStart
        · exact absurd (hv.passed q hq h₁ hlt) hd
        · exact isDone_mark_of_mem (hall q hq (by simpa using hd) (not_lt.mp hlt)
            (Nat.lt_succ_iff.mp h₂))
    · have hnil : waiting (rows.map (Prewire.mark v.marks)) (v.batchDone .success) = [] := by
        refine List.filter_eq_nil_iff.mpr fun r _ hr => ?_
        have hr := of_decide_eq_true hr
        exact absurd (hr.2.1.trans hr.2.2) (Nat.not_succ_le_self _)
      rw [hnil]
      exact Nat.zero_le _
  | softError =>
    rw [hsame (by decide)]
    exact ⟨fun _ => ⟨hv.nonempty, hv.end_lt, hv.start_le, hv.batch_le, hv.end_le, hv.moved, hv.passed⟩,
      fun _ => hw, fun _ => ⟨rfl, rfl⟩, fun h => (nomatch h), fun _ h => nomatch h⟩
  | hardError => exact .rollback v (Or.inr rfl)

/-! ## The rows of a query -/

section Query

variable {s : TransferState} {start n : ℕ}

theorem length_prepared : (s.prepared start n).length ≤ n := by
  unfold TransferState.prepared
  rw [List.length_map]
  exact List.length_take_le ..

theorem mem_prepared {b : ℕ} (h : b ∈ s.prepared start n) :
    ∃ r ∈ s.prewire, r.isDone = false ∧ start ≤ b ∧ r.prewireUuid = b := by
  obtain ⟨r, hr, rfl⟩ := List.mem_map.mp h
  obtain ⟨hmem, hcond⟩ := List.mem_filter.mp (List.mem_of_mem_take hr)
  simp only [Bool.not_eq_eq_eq_not, Bool.not_true, decide_eq_true_eq] at hcond
  exact ⟨r, hmem, hcond.2, hcond.1, rfl⟩

theorem sorted_prepared (hs : s.prewire.Pairwise (·.prewireUuid < ·.prewireUuid)) :
    (s.prepared start n).Pairwise (· < ·) :=
  List.pairwise_map.mpr ((hs.filter _).sublist (List.take_sublist ..))

/-- A row that the query does not return comes after all of its rows, and then these are as many as
were asked for. -/
theorem prepared_prefix (hs : s.prewire.Pairwise (·.prewireUuid < ·.prewireUuid)) {r : Prewire}
    (hr : r ∈ s.prewire) (hd : r.isDone = false) (hle : start ≤ r.prewireUuid) :
    r.prewireUuid ∈ s.prepared start n ∨
      (∀ b ∈ s.prepared start n, b < r.prewireUuid) ∧ (s.prepared start n).length = n := by
  unfold TransferState.prepared
  have hmem : r ∈ s.prewire.filter fun r => start ≤ r.prewireUuid ∧ !r.isDone :=
    List.mem_filter.mpr ⟨hr, by simp [hd, hle]⟩
  have hp := hs.filter fun r => start ≤ r.prewireUuid ∧ !r.isDone
  generalize (s.prewire.filter fun r => start ≤ r.prewireUuid ∧ !r.isDone) = l at hmem hp ⊢
  by_cases hin : r ∈ l.take n
  · exact Or.inl (List.mem_map.mpr ⟨r, hin, rfl⟩)
  have hdrop : r ∈ l.drop n := by
    rw [← List.take_append_drop n l] at hmem
    exact (List.mem_append.mp hmem).resolve_left hin
  refine Or.inr ⟨fun b hb => ?_, ?_⟩
  · obtain ⟨q, hq, rfl⟩ := List.mem_map.mp hb
    rw [← List.take_append_drop n l] at hp
    exact (List.pairwise_append.mp hp).2.2 q hq r hdrop
  · have hpos := List.length_pos_of_mem hdrop
    rw [List.length_drop] at hpos
    rw [List.length_map, List.length_take]
    omega

/-- A query returns every row up to the end of a batch that was rolled back. -/
theorem prepared_waiting (hs : s.prewire.Pairwise (·.prewireUuid < ·.prewireUuid))
    (hw : (waiting s.prewire v).length ≤ n) {r : Prewire} (hr : r ∈ s.prewire)
    (hd : r.isDone = false) (h₁ : v.batchStart ≤ r.prewireUuid) (h₂ : r.prewireUuid ≤ v.batchEnd) :
    r.prewireUuid ∈ s.prepared v.batchStart n := by
  rcases prepared_prefix (n := n) hs hr hd h₁ with h | ⟨hlt, hlen⟩
  · exact h
  -- else there would be too many of them
  exfalso
  have hnodup : (s.prepared v.batchStart n ++ [r.prewireUuid]).Nodup := by
    refine List.nodup_append.mpr ⟨(sorted_prepared hs).imp fun h => h.ne, List.nodup_singleton _,
      fun a ha b hb => ?_⟩
    rw [List.mem_singleton.mp hb]
    exact (hlt a ha).ne
  have hsub : s.prepared v.batchStart n ++ [r.prewireUuid] ⊆
      (waiting s.prewire v).map Prewire.prewireUuid := by
    intro b hb
    rcases List.mem_append.mp hb with hb | hb
    · have hle := hlt b hb
      obtain ⟨q, hq, hqd, hge, rfl⟩ := mem_prepared hb
      refine List.mem_map.mpr ⟨q, List.mem_filter.mpr ⟨hq, ?_⟩, rfl⟩
      simp only [hqd, Bool.not_false, true_and, decide_eq_true_eq]
      exact ⟨hge, hle.le.trans h₂⟩
    · rw [List.mem_singleton.mp hb]
      refine List.mem_map.mpr ⟨r, List.mem_filter.mpr ⟨hr, ?_⟩, rfl⟩
      simp only [hd, Bool.not_false, true_and, decide_eq_true_eq]
      exact ⟨h₁, h₂⟩
  have hle := (List.subperm_of_subset hnodup hsub).length_le
  rw [List.length_append, List.length_singleton, List.length_map, hlen] at hle
  omega

/-- **A query starts a batch** that holds every row up to its last one. -/
theorem WorkerOk.prepareAll (hs : s.prewire.Pairwise (·.prewireUuid < ·.prewireUuid))
    (h : WorkerOk s.prewire confirmed v) (ht : v.task = .runTransfers) :
    WorkerOk s.prewire confirmed
      (v.prepareAll broken commit (s.prepared v.batchStart (min v.limit 256).toNat)) := by
  have hv := h.shard (Or.inl ht)
  obtain ⟨hwpd, hmarks⟩ := h.empty (by rw [ht]; decide)
  have hsize : (min v.limit 256).toNat = v.size := by
    rw [limit_eq hv.batch_le hv.end_lt]
    unfold Transfer.size
    have := hv.batch_le
    omega
  rw [hsize]
  generalize hids : s.prepared v.batchStart v.size = ids
  unfold Transfer.prepareAll
  rcases foldl_wirePrepareCb_cases (v := { v with task := .awaitBank }) rfl
    (rfl : ids.foldl _ _ = _) with ⟨u, hu⟩ | ⟨d, e, hu, hd, he⟩ | ⟨-, ⟨id, rest, hcons, hid⟩, hu⟩
  · rw [hu]
    exact .rollback u (Or.inr rfl)
  · rw [hu]
    have hend : e < v.shardEnd := by
      rcases he with ⟨rfl, -⟩ | ⟨rfl, -⟩
      · exact hv.end_le
      · have := hv.nonempty
        simp only
        omega
    have hmoved : v.batchStart = v.shardStart ∨ v.batchStart ≤ e + 1 := by
      rcases he with ⟨rfl, -⟩ | ⟨rfl, -⟩
      · exact hv.moved
      · have := hv.batch_le
        simp only
        omega
    have hbatch : ∀ b, b ∈ ({ v with wpd := d ++ v.wpd, batchEnd := e, task := .awaitBank } :
        Transfer).batch ↔ b ∈ ids ∧ b < v.shardEnd := by
      intro b
      simp only [Transfer.batch, hwpd, hmarks, List.append_nil, List.map_nil, hd, Transfer.own,
        List.mem_reverse, List.mem_filter, decide_eq_true_eq]
    refine ⟨fun _ => ⟨hv.nonempty, hv.end_lt, hv.start_le, hv.batch_le, hend, hmoved, hv.passed⟩,
      fun h => (nomatch h), fun h => absurd rfl h, fun _ => ⟨fun r hr hrd h₁ h₂ => ?_, fun b hb => ?_, ?_⟩,
      fun _ hm => ?_⟩
    · rw [hbatch]
      have hlt : r.prewireUuid < v.shardEnd := by
        rcases h₂ with h₂ | ⟨b, hb, h₂⟩
        · exact lt_of_le_of_lt h₂ hend
        · exact lt_of_le_of_lt h₂ ((hbatch b).mp hb).2
      refine ⟨?_, hlt⟩
      rcases prepared_prefix (n := v.size) hs hr hrd h₁ with hin | ⟨hafter, -⟩
      · rw [← hids]
        exact hin
      rw [hids] at hafter
      rcases h₂ with h₂ | ⟨b, hb, h₂⟩
      · rcases he with ⟨rfl, -⟩ | ⟨rfl, x, hx, hle⟩
        · rw [← hids]
          exact prepared_waiting hs (h.idle ht) hr hrd h₁ h₂
        · have := hafter x hx
          simp only at hle
          omega
      · have := hafter b ((hbatch b).mp hb).1
        omega
    · obtain ⟨hb₁, hb₂⟩ := (hbatch b).mp hb
      rw [← hids] at hb₁
      obtain ⟨_, _, _, hge, _⟩ := mem_prepared hb₁
      exact ⟨hge, hb₂⟩
    · simp only [Transfer.batch, hwpd, hmarks, List.append_nil, List.map_nil, hd, List.length_reverse]
      refine (List.length_filter_le ..).trans ?_
      rw [← hids]
      exact length_prepared
    · simp only [hmarks] at hm
      cases hm
  · -- no row of the shard is left
    rw [hu]
    have hnone : ∀ r ∈ s.prewire, r.isDone = false → v.batchStart ≤ r.prewireUuid →
        v.shardEnd ≤ r.prewireUuid := by
      intro r hr hrd h₁
      have hsorted : (s.prepared v.batchStart v.size).Pairwise (· < ·) := sorted_prepared hs
      have hp := prepared_prefix (n := v.size) hs hr hrd h₁
      rw [hids, hcons] at hsorted hp
      rcases hp with hin | ⟨hafter, -⟩
      · rcases List.mem_cons.mp hin with e | hin
        · rw [e]
          exact hid
        · exact hid.trans ((List.pairwise_cons.mp hsorted).1 _ hin).le
      · exact hid.trans (hafter id List.mem_cons_self).le
    have hpos := hv.nonempty
    have hback := hv.batch_le
    have hempty : ∀ r ∈ s.prewire, r.isDone = false → v.batchStart ≤ r.prewireUuid →
        ¬ r.prewireUuid ≤ v.shardEnd - 1 := by
      intro r hr hrd h₁
      have := hnone r hr hrd h₁
      omega
    refine WorkerOk.batchDone (v := { v with batchEnd := v.shardEnd - 1, task := .awaitBank }) ?_ ?_ hwpd
      (by simp only; omega) (fun r hr hrd h₁ h₂ => absurd h₂ (hempty r hr hrd h₁)) (fun _ => ?_)
      fun _ => rfl
    · exact ⟨hv.nonempty, hv.end_lt, hv.start_le, hv.batch_le, by simp only; omega,
        Or.inr (by simp only; omega), hv.passed⟩
    · have hnil : waiting s.prewire { v with batchEnd := v.shardEnd - 1, task := .awaitBank } = [] := by
        refine List.filter_eq_nil_iff.mpr fun r hr => ?_
        simp only [Bool.not_eq_eq_eq_not, Bool.not_true, decide_eq_true_eq, not_and]
        exact hempty r hr
      rw [hnil]
      exact Nat.zero_le _
    · simp only [hmarks]
      have hmark : ∀ r ∈ s.prewire, Prewire.mark [] r = r := by
        intro r _
        cases r
        simp [Prewire.mark]
      rw [List.map_congr_left hmark, List.map_id']

end Query

/-! ## Answers of the bank -/

theorem mem_batch {id : ℕ} (h : (v.wpd.any fun d => d.rowId = id) = true) : id ∈ v.batch := by
  obtain ⟨d, hd, he⟩ := List.any_eq_true.mp h
  exact List.mem_append_left _ (List.mem_map.mpr ⟨d, hd, of_decide_eq_true he⟩)

theorem InFlight.advance {id : ℕ} (h : InFlight rows v) (hid : id ∈ v.batch) :
    InFlight rows { v with batchEnd := max id v.batchEnd } := by
  refine ⟨fun r hr hd h₁ h₂ => h.holds r hr hd h₁ ?_, h.inside, h.size⟩
  rcases h₂ with h₂ | h₂
  · rcases le_max_iff.mp h₂ with h₂ | h₂
    · exact Or.inr ⟨id, hid, h₂⟩
    · exact Or.inl h₂
  · exact Or.inr h₂

theorem InShardRows.advance {id : ℕ} (h : InShardRows rows v) (hid : id < v.shardEnd) :
    InShardRows rows { v with batchEnd := max id v.batchEnd } :=
  ⟨h.nonempty, h.end_lt, h.start_le, h.batch_le, max_lt hid h.end_le,
    h.moved.imp_right fun hm => hm.trans (Nat.succ_le_succ (le_max_right ..)), h.passed⟩

/-- The batch as a set stays the same when a row of it is marked. -/
theorem mem_batch_decided {id : ℕ} {ok : Bool} (hid : id ∈ v.batch) {b : ℕ} :
    b ∈ (v.decided id ok .success).batch ↔ b ∈ v.batch := by
  simp only [Transfer.batch, Transfer.decided, List.mem_append, List.mem_map, List.mem_filter,
    decide_eq_true_eq, List.map_append, List.map_cons, List.map_nil, List.mem_singleton]
  constructor
  · rintro (⟨d, ⟨hd, -⟩, rfl⟩ | hm | rfl)
    · exact Or.inl ⟨d, hd, rfl⟩
    · exact Or.inr hm
    · simpa [Transfer.batch] using hid
  · rintro (⟨d, hd, rfl⟩ | hm)
    · by_cases he : d.rowId = id
      · exact Or.inr (Or.inr he)
      · exact Or.inl ⟨d, ⟨hd, he⟩, rfl⟩
    · exact Or.inr (Or.inl hm)

theorem length_batch_decided {id : ℕ} {ok : Bool} (h : (v.wpd.any fun d => d.rowId = id) = true) :
    (v.decided id ok .success).batch.length ≤ v.batch.length := by
  obtain ⟨d, hd, he⟩ := List.any_eq_true.mp h
  have hlt : (v.wpd.filter fun d => d.rowId ≠ id).length < v.wpd.length :=
    List.length_filter_lt_length_iff_exists.mpr ⟨d, hd, by simpa using he⟩
  simp only [Transfer.batch, Transfer.decided, List.length_append, List.length_map,
    List.length_singleton]
  omega

/-- **An answer that decides about a row.** -/
theorem WorkerOk.decided (hs : rows.Pairwise (·.prewireUuid < ·.prewireUuid))
    (h : WorkerOk rows confirmed v) (ht : v.task = .awaitBank) {id : ℕ} {ok : Bool}
    {status : DbStatus} (hid : (v.wpd.any fun d => d.rowId = id) = true)
    (hok : ok = true → id ∈ confirmed) : WorkerOk rows confirmed (v.decided id ok status) := by
  have hv := h.shard (Or.inr ht)
  have hf := h.flight ht
  have hmem := mem_batch hid
  have hv' := hv.advance (hf.inside id hmem).2
  have hf' := hf.advance hmem
  cases status with
  | success =>
    refine ⟨fun _ => ⟨hv'.nonempty, hv'.end_lt, hv'.start_le, hv'.batch_le, hv'.end_le, hv'.moved,
      hv'.passed⟩, fun hr => absurd (ht.symm.trans hr) (by decide), fun hr => absurd ht hr, fun _ => ?_,
      fun x hx => ?_⟩
    · refine ⟨fun r hr hd h₁ h₂ => ?_, fun b hb => ?_, ?_⟩
      · rw [mem_batch_decided hmem]
        refine hf'.holds r hr hd h₁ (h₂.imp_right fun ⟨b, hb, hle⟩ => ⟨b, ?_, hle⟩)
        exact (mem_batch_decided hmem).mp hb
      · exact hf.inside b ((mem_batch_decided hmem).mp hb)
      · exact (length_batch_decided hid).trans hf.size
    · rcases List.mem_append.mp hx with hx | hx
      · exact h.marked x hx
      · cases List.mem_singleton.mp hx
        exact hok rfl
  | softError =>
    have hw := hf'.waiting_le hs
    exact ⟨fun _ => ⟨hv'.nonempty, hv'.end_lt, hv'.start_le, hv'.batch_le, hv'.end_le, hv'.moved,
      hv'.passed⟩, fun _ => hw, fun _ => ⟨rfl, rfl⟩, fun h => (nomatch h),
      fun _ h => nomatch h⟩
  | hardError => exact .rollback _ (Or.inr rfl)

/-- An answer that asks to try again leaves the batch. -/
theorem WorkerOk.retry (h : WorkerOk rows confirmed v) (ht : v.task = .awaitBank) (id : ℕ) :
    WorkerOk rows confirmed (v.retry id) := by
  unfold Transfer.retry
  split_ifs
  · exact .rollback v (Or.inr rfl)
  · have hv := h.shard (Or.inr ht)
    have hf := h.flight ht
    have hids : (v.wpd.map fun d => if d.rowId = id then ⟨id, d.retries + 1⟩ else d).map
        WirePrepareData.rowId = v.wpd.map WirePrepareData.rowId := by
      rw [List.map_map]
      refine List.map_congr_left fun d _ => ?_
      simp only [Function.comp_apply]
      split_ifs with he
      · exact he.symm
      · rfl
    have hbatch : ({ v with
        wpd := v.wpd.map fun d => if d.rowId = id then ⟨id, d.retries + 1⟩ else d } : Transfer).batch =
        v.batch := by
      simp only [Transfer.batch, hids]
    refine ⟨fun _ => ⟨hv.nonempty, hv.end_lt, hv.start_le, hv.batch_le, hv.end_le, hv.moved, hv.passed⟩,
      fun hr => absurd (ht.symm.trans hr) (by decide), fun hr => absurd ht hr, fun _ => ?_, h.marked⟩
    refine ⟨fun r hr hd h₁ h₂ => ?_, fun b hb => ?_, ?_⟩
    · rw [hbatch] at h₂ ⊢
      exact hf.holds r hr hd h₁ h₂
    · rw [hbatch] at hb
      exact hf.inside b hb
    · rw [hbatch]
      exact hf.size

end Batch

/-! ## The invariant -/

/-- What holds of the tables, the bank and the processes. -/
structure TransferInv (s : TransferState) : Prop where
  tiled : ShardsTiled s.shards.shards
  nonempty : ∀ x ∈ s.shards.shards.rows, x.startRow < x.endRow
  sorted : s.prewire.Pairwise (·.prewireUuid < ·.prewireUuid)
  fresh : ∀ id ∈ s.inserted, (0 < id ∧ id ≤ s.lastUuid) ∧ ∀ r ∈ s.prewire, r.prewireUuid ≠ id
  bounded : ∀ r ∈ s.prewire, 0 < r.prewireUuid ∧ r.prewireUuid ≤ s.lastUuid
  done : ∀ x ∈ s.shards.shards.rows, x.completed = true → ∀ r ∈ s.prewire,
    x.startRow ≤ r.prewireUuid → r.prewireUuid < x.endRow → r.isDone = true
  finished : ∀ r ∈ s.prewire, r.finished = true → r.prewireUuid ∈ s.confirmed
  workers : ∀ v ∈ s.workers, WorkerOk s.prewire s.confirmed v

theorem transferInv_empty : TransferInv TransferState.empty where
  tiled _ := ⟨0, by decide, .nil _⟩
  nonempty _ h := nomatch h
  sorted := List.Pairwise.nil
  fresh _ h := nomatch h
  bounded _ h := nomatch h
  done _ h := nomatch h
  finished _ h := nomatch h
  workers _ h := nomatch h

section Steps

variable {s : TransferState} {w : ℕ} {v : Transfer}

/-- A process that changes its own variables. -/
theorem TransferInv.setWorker (hi : TransferInv s) {u : Transfer}
    (hu : WorkerOk s.prewire s.confirmed u) : TransferInv (s.setWorker w u) := by
  refine ⟨hi.tiled, hi.nonempty, hi.sorted, hi.fresh, hi.bounded, hi.done, hi.finished, fun x hx => ?_⟩
  rcases List.mem_or_eq_of_mem_set hx with hx | rfl
  · exact hi.workers x hx
  · exact hu

/-- Shards that are leased or completed. -/
theorem TransferInv.shardTables (hi : TransferInv s) {sh : ShardState} (htiled : ShardsTiled sh.shards)
    (hne : ∀ x ∈ sh.shards.rows, x.startRow < x.endRow)
    (hdone : ∀ x ∈ sh.shards.rows, x.completed = true → ∀ r ∈ s.prewire,
      x.startRow ≤ r.prewireUuid → r.prewireUuid < x.endRow → r.isDone = true) :
    TransferInv { s with shards := sh } :=
  ⟨htiled, hne, hi.sorted, hi.fresh, hi.bounded, hdone, hi.finished, hi.workers⟩

theorem TransferInv.insert (hi : TransferInv s) : TransferInv (transferStep s .insert) := by
  refine ⟨hi.tiled, hi.nonempty, hi.sorted, fun id hid => ?_, fun r hr => ?_, hi.done, hi.finished,
    hi.workers⟩
  · rcases List.mem_cons.mp hid with rfl | hid
    · refine ⟨⟨Nat.succ_pos _, le_rfl⟩, fun r hr he => ?_⟩
      have := hi.bounded r hr
      omega
    · obtain ⟨h₁, h₂⟩ := hi.fresh id hid
      exact ⟨⟨h₁.1, h₁.2.trans (Nat.le_succ _)⟩, h₂⟩
  · exact ⟨(hi.bounded r hr).1, (hi.bounded r hr).2.trans (Nat.le_succ _)⟩

theorem TransferInv.visible (hi : TransferInv s) {id : ℕ} (ho : TransferOpOk s (.visible id)) :
    TransferInv (transferStep s (.visible id)) := by
  simp only [transferStep]
  split_ifs with hin
  · obtain ⟨hle, hnew⟩ := hi.fresh id hin
    refine ⟨hi.tiled, hi.nonempty, sorted_visible hi.sorted hnew, fun x hx => ?_, fun r hr => ?_,
      fun x hx hc r hr h₁ h₂ => ?_, fun r hr hf => ?_, fun u hu => ?_⟩
    · obtain ⟨hx, hne⟩ := List.mem_filter.mp hx
      refine ⟨(hi.fresh x hx).1, fun r hr => ?_⟩
      rcases mem_visible.mp hr with rfl | hr
      · have : x ≠ id := by simpa using hne
        exact this.symm
      · exact (hi.fresh x hx).2 r hr
    · rcases mem_visible.mp hr with rfl | hr
      · exact hle
      · exact hi.bounded r hr
    · rcases mem_visible.mp hr with rfl | hr
      · exact absurd ⟨h₁, h₂⟩ (ho.1 x hx hc)
      · exact hi.done x hx hc r hr h₁ h₂
    · rcases mem_visible.mp hr with rfl | hr
      · cases hf
      · exact hi.finished r hr hf
    · exact (hi.workers u hu).visible (ho.2 u hu)
  · exact hi

theorem TransferInv.begin (hi : TransferInv s) {a : BeginArgs} (ho : s.shards.Fits a)
    (hsize : 0 < a.shardSize) : TransferInv { s with shards := shardStep s.shards (.begin a) } := by
  cases hb : s.shards.beginShard a with
  | none =>
    rw [shardStep_begin_none hb]
    exact hi.shardTables hi.tiled hi.nonempty hi.done
  | some p =>
    obtain ⟨t, x⟩ := p
    rw [shardStep_begin_some hb]
    refine hi.shardTables (hi.tiled.begin ho hb) (fun y hy => ?_) fun y hy hc => ?_
    · obtain ⟨r, hr, hx, -, hl, rfl⟩ | ⟨n, htiles, hlt, -, -, -, ht⟩ := beginShard_cases hi.tiled ho hb
      · obtain ⟨q, hq, rfl⟩ := List.mem_map.mp hy
        have := hi.nonempty q hq
        split_ifs
        · exact this
        · exact this
      · rcases (Table.mem_insert? ht).mp hy with hy | rfl
        · exact hi.nonempty y hy
        · simp only
          omega
    · obtain ⟨r, hr, hx, -, hl, rfl⟩ | ⟨n, htiles, hlt, -, -, -, ht⟩ := beginShard_cases hi.tiled ho hb
      · obtain ⟨q, hq, rfl⟩ := List.mem_map.mp hy
        split_ifs at hc ⊢
        · exact hi.done q hq hc
        · exact hi.done q hq hc
      · rcases (Table.mem_insert? ht).mp hy with hy | rfl
        · exact hi.done y hy hc
        · cases hc

/-- A process that has just got a shard. -/
theorem TransferInv.withShard (hi : TransferInv s) {x : Shard} (h₁ : x.startRow < x.endRow)
    (h₂ : x.endRow < 2 ^ 63) : WorkerOk s.prewire s.confirmed (Transfer.withShard x) := by
  refine ⟨fun _ => ⟨h₁, h₂, le_rfl, h₁.le, lt_of_le_of_lt (Nat.zero_le _) h₁, Or.inl rfl,
    fun r _ hge hlt => absurd hlt (not_lt.mpr hge)⟩, fun _ => ?_, fun _ => ⟨rfl, rfl⟩,
    fun h => (nomatch h), fun _ h => nomatch h⟩
  have hnil : waiting s.prewire (Transfer.withShard x) = [] := by
    refine List.filter_eq_nil_iff.mpr fun r hr hcond => ?_
    have hle : r.prewireUuid ≤ 0 := (of_decide_eq_true hcond).2.2
    exact absurd (hi.bounded r hr).1 (not_lt.mpr hle)
  rw [hnil]
  exact Nat.zero_le _

theorem TransferInv.select (hi : TransferInv s) {a : SelectArgs} (hv : v ∈ s.workers)
    (ht : v.task = .selectShard) (ho : TransferOpOk s (.select w a)) :
    TransferInv (s.selectShard w v a) := by
  have hbegin := hi.begin ho.2 ho.1
  unfold TransferState.selectShard
  cases hb : s.shards.beginShard (TransferState.selectArgs w a) with
  | some p =>
    obtain ⟨t, x⟩ := p
    obtain ⟨h₁, h₂⟩ := beginShard_nonempty hi.tiled hi.nonempty ho.2 ho.1 hb
    exact hbegin.setWorker (hi.withShard h₁ h₂)
  | none =>
    -- a process without a shard keeps nothing
    obtain ⟨hwpd, hmarks⟩ := (hi.workers v hv).empty (by rw [ht]; decide)
    refine hbegin.setWorker ?_
    have hroll : ({ v with task := if a.hardError then .shutdown else .selectShard } : Transfer) =
        v.rollback (if a.hardError then .shutdown else .selectShard) := by
      unfold Transfer.rollback
      rw [hwpd, hmarks]
    rw [hroll]
    refine .rollback v ?_
    split_ifs
    · exact Or.inr rfl
    · exact Or.inl rfl

/-- The shard that a process completes is the one that it was given. -/
theorem InShardRows.exact {rows : List Prewire} (h : InShardRows rows v) (hl : v.limit ≤ 0) :
    v.batchStart = v.shardEnd ∧ v.batchEnd + 1 = v.shardEnd := by
  rw [limit_eq h.batch_le h.end_lt] at hl
  obtain ⟨h₁, h₂, h₃, h₄, h₅, h₆, -⟩ := h
  omega

theorem TransferInv.complete (hi : TransferInv s) (hv : InShardRows s.prewire v) (hl : v.limit ≤ 0) :
    TransferInv { s with shards := shardStep s.shards (.complete w v.completed) } := by
  obtain ⟨hstart, hend⟩ := hv.exact hl
  refine hi.shardTables (hi.tiled.complete _) (fun x hx => ?_) fun x hx hc r hr h₁ h₂ => ?_
  · obtain ⟨q, hq, rfl⟩ := List.mem_map.mp hx
    have := hi.nonempty q hq
    split_ifs
    · exact this
    · exact this
  · obtain ⟨q, hq, rfl⟩ := List.mem_map.mp hx
    split_ifs at hc h₁ h₂ with hq'
    · obtain ⟨-, e₁, e₂⟩ := is_iff.mp hq'
      have hlt := hv.end_lt
      have hss := hv.nonempty
      simp only [Transfer.completed, hend] at e₁ e₂
      rw [Nat.mod_eq_of_lt (by omega), stored_of_lt (by omega)] at e₁ e₂
      simp only [e₁, e₂] at h₁ h₂
      exact hv.passed r hr (by omega) (by omega)
    · exact hi.done q hq hc r hr h₁ h₂

theorem TransferInv.runTransfers (hi : TransferInv s) (hmem : v ∈ s.workers)
    (ht : v.task = .runTransfers) (status : DbStatus) (broken : List ℕ) (commit : DbStatus) :
    TransferInv (s.runTransfers w v status broken commit) := by
  have hok := hi.workers v hmem
  have hv := hok.shard (Or.inl ht)
  unfold TransferState.runTransfers
  split_ifs with hl
  · cases status with
    | success => exact (hi.complete hv hl).setWorker (.rollback v (Or.inl rfl))
    | softError => exact hi.setWorker (.rollback v (Or.inl rfl))
    | hardError => exact hi.setWorker (.rollback v (Or.inr rfl))
  · cases status with
    | success =>
      simp only
      split_ifs
      · exact hi
      · exact hi.setWorker (hok.prepareAll hi.sorted ht)
    | softError =>
      obtain ⟨hwpd, hmarks⟩ := hok.empty (by rw [ht]; decide)
      have hroll : v.rollback .runTransfers = v := by
        unfold Transfer.rollback
        rw [← hwpd, ← hmarks, ← ht]
      refine hi.setWorker ?_
      rw [hroll]
      exact hok
    | hardError => exact hi.setWorker (.rollback v (Or.inr rfl))

/-- The rows that a process commits. -/
theorem TransferInv.marks (hi : TransferInv s) {marks : List (ℕ × Bool)}
    (hm : ∀ id, (id, true) ∈ marks → id ∈ s.confirmed) :
    TransferInv { s with prewire := s.prewire.map (Prewire.mark marks) } := by
  refine ⟨hi.tiled, hi.nonempty, List.pairwise_map.mpr hi.sorted, fun id hid => ?_, fun r hr => ?_,
    fun x hx hc r hr h₁ h₂ => ?_, fun r hr hf => ?_, fun u hu => (hi.workers u hu).mark marks⟩
  · refine ⟨(hi.fresh id hid).1, fun r hr => ?_⟩
    obtain ⟨q, hq, rfl⟩ := List.mem_map.mp hr
    exact (hi.fresh id hid).2 q hq
  · obtain ⟨q, hq, rfl⟩ := List.mem_map.mp hr
    exact hi.bounded q hq
  · obtain ⟨q, hq, rfl⟩ := List.mem_map.mp hr
    exact isDone_mark (hi.done x hx hc q hq h₁ h₂)
  · obtain ⟨q, hq, rfl⟩ := List.mem_map.mp hr
    simp only [Prewire.mark, Bool.or_eq_true, decide_eq_true_eq] at hf
    rcases hf with hf | hf
    · exact hi.finished q hq hf
    · exact hm _ hf

theorem TransferInv.settle (hi : TransferInv s) (hmem : v ∈ s.workers) (ht : v.task = .awaitBank)
    {id : ℕ} {ok : Bool} (hid : (v.wpd.any fun d => d.rowId = id) = true)
    (hok : ok = true → id ∈ s.confirmed) (status commit : DbStatus) :
    TransferInv (s.settle w v id ok status commit) := by
  have hdec : WorkerOk s.prewire s.confirmed (v.decided id ok status) :=
    (hi.workers v hmem).decided hi.sorted ht hid hok
  unfold TransferState.settle
  simp only
  generalize hu : v.decided id ok status = u at hdec
  split_ifs with hdone
  · obtain ⟨htask, hwpd⟩ := hdone
    have hv := hdec.shard (Or.inr htask)
    have hf := hdec.flight htask
    have hbatch : ∀ b, b ∈ u.batch → b ∈ u.marks.map Prod.fst := by
      intro b hb
      simpa [Transfer.batch, hwpd] using hb
    have hpast : u.batchStart ≤ u.batchEnd + 1 := by
      cases status with
      | success =>
        subst hu
        have hge := (hf.inside id ((mem_batch_decided (mem_batch hid)).mpr (mem_batch hid))).1
        have hle : id ≤ (v.decided id ok .success).batchEnd := le_max_left ..
        omega
      | softError =>
        subst hu
        cases htask
      | hardError =>
        subst hu
        cases htask
    have hall : ∀ r ∈ s.prewire, r.isDone = false → u.batchStart ≤ r.prewireUuid →
        r.prewireUuid ≤ u.batchEnd → r.prewireUuid ∈ u.marks.map Prod.fst :=
      fun r hr hd h₁ h₂ => hbatch _ (hf.holds r hr hd h₁ (Or.inl h₂))
    cases commit with
    | success =>
      refine (hi.marks hdec.marked).setWorker ?_
      exact .batchDone hv (hf.waiting_le hi.sorted) hwpd hpast hall (fun _ => rfl) fun h => absurd rfl h
    | softError =>
      refine hi.setWorker ?_
      exact .batchDone hv (hf.waiting_le hi.sorted) hwpd hpast hall (fun h => (nomatch h)) fun _ => rfl
    | hardError =>
      refine hi.setWorker ?_
      exact .batchDone hv (hf.waiting_le hi.sorted) hwpd hpast hall (fun h => (nomatch h)) fun _ => rfl
  · exact hi.setWorker hdec

theorem TransferInv.confirm (hi : TransferInv s) (id : ℕ) :
    TransferInv { s with confirmed := id :: s.confirmed } :=
  ⟨hi.tiled, hi.nonempty, hi.sorted, hi.fresh, hi.bounded, hi.done,
    fun r hr hf => List.mem_cons_of_mem _ (hi.finished r hr hf),
    fun u hu => (hi.workers u hu).mono fun _ => List.mem_cons_of_mem _⟩

theorem TransferInv.answer (hi : TransferInv s) (hmem : v ∈ s.workers) (ht : v.task = .awaitBank)
    {id : ℕ} (hid : (v.wpd.any fun d => d.rowId = id) = true) (r : BankResponse)
    (status commit : DbStatus) : TransferInv (s.wireConfirmCb w v id r status commit) := by
  cases r with
  | ok => exact (hi.confirm id).settle hmem ht hid (fun _ => List.mem_cons_self) status commit
  | rejected =>
    exact hi.settle hmem ht hid (fun h : false = true => (nomatch h)) status commit
  | unavailable => exact hi.setWorker ((hi.workers v hmem).retry ht id)
  | error => exact hi.setWorker (.rollback v (Or.inr rfl))

end Steps

/-- **Every admitted step keeps the invariant.** -/
theorem transferStep_inv {s : TransferState} {o : TransferOp} (ho : TransferOpOk s o)
    (hi : TransferInv s) : TransferInv (transferStep s o) := by
  have hworker : ∀ {w : ℕ} {v : Transfer}, s.workers[w]? = some v → v ∈ s.workers :=
    fun h => List.mem_of_getElem? h
  cases o with
  | wait d => exact hi.shardTables hi.tiled hi.nonempty hi.done
  | insert => exact hi.insert
  | visible id => exact hi.visible ho
  | launch =>
    refine ⟨hi.tiled, hi.nonempty, hi.sorted, hi.fresh, hi.bounded, hi.done, hi.finished,
      fun u hu => ?_⟩
    rcases List.mem_append.mp hu with hu | hu
    · exact hi.workers u hu
    · rw [List.mem_singleton.mp hu]
      exact .rollback {} (Or.inl rfl)
  | select w a =>
    simp only [transferStep]
    split
    · next v hw =>
      split_ifs with ht
      · exact hi.select (hworker hw) ht ho
      · exact hi
    · exact hi
  | run w status broken commit =>
    simp only [transferStep]
    split
    · next v hw =>
      split_ifs with ht
      · exact hi.runTransfers (hworker hw) ht status broken commit
      · exact hi
    · exact hi
  | answer w id r status commit =>
    simp only [transferStep]
    split
    · next v hw =>
      split_ifs with ht
      · exact hi.answer (hworker hw) ht.1 ht.2 r status commit
      · exact hi
    · exact hi
  | shutdown w =>
    simp only [transferStep]
    split
    · next v _ => exact hi.setWorker (.rollback v (Or.inr rfl))
    · exact hi

/-! ## Runs -/

/-- **No prepared transfer is skipped** in a run in which no row becomes visible behind a process. -/
theorem run_transfer {ops : List TransferOp}
    (h : Admits transferStep TransferOpOk TransferState.empty ops) :
    TransferSound (transferRun ops) := by
  have hi : TransferInv (transferRun ops) :=
    run_invariant (fun _ _ ho hi => transferStep_inv ho hi) h transferInv_empty
  refine ⟨hi.done, fun v hv ht hl => ?_, hi.finished⟩
  exact (((hi.workers v hv).shard (Or.inl ht)).exact hl).2

/-! ## Sample runs -/

/-- A call of `begin_shard` for three rows. -/
def selectThree : SelectArgs := ⟨10, 3, 0, 0, false⟩

/-- Three rows become visible in order; the transfers are confirmed in any order, one batch is rolled
back after a confirmation, and the shard is completed. -/
def transferredShard : List TransferOp :=
  [.wait 1, .launch, .select 0 selectThree, .insert, .insert, .insert, .visible 1, .visible 2,
   .run 0 .success [] .success, .answer 0 2 .ok .success .success, .answer 0 1 .ok .softError .success,
   .visible 3, .run 0 .success [] .success, .answer 0 2 .ok .success .success,
   .answer 0 1 .rejected .success .success, .run 0 .success [] .success]

theorem transferredShard_sound :
    (transferRun transferredShard).shards.shards.rows.map WorkShard.completed = [true] ∧
      TransferSound (transferRun transferredShard) :=
  ⟨by decide +kernel, run_transfer (by decide +kernel)⟩

/-- Row `2` becomes visible and is transferred, which completes the shard; row `1` becomes visible
after that. -/
def lateRow : List TransferOp :=
  [.wait 1, .launch, .select 0 selectThree, .insert, .insert, .visible 2, .run 0 .success [] .success,
   .answer 0 2 .ok .success .success, .run 0 .success [] .success, .visible 1]

theorem not_transfer_sound : ¬ TransferSound (transferRun lateRow) := by
  intro h
  have hx : ⟨1, 11, 0, 3, true, "transfer"⟩ ∈ (transferRun lateRow).shards.shards.rows := by
    decide +kernel
  have hr : (⟨1, false, false⟩ : Prewire) ∈ (transferRun lateRow).prewire := by decide +kernel
  have hdone := h.complete _ hx rfl _ hr (by decide) (by decide)
  revert hdone
  decide

end TalerExchange
