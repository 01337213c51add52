import TalerExchange.Shard.Work

/-!
# Wirewatch

`taler-exchange-wirewatch` imports the incoming transfers of one bank account, shard by shard. Any
number of its processes run side by side. Each is a set of global variables and a task; a step is
one callback of its scheduler, with the answers of the bank and of the database as arguments. The
process never starts a transaction of its own, so every call of the database is committed when it
returns.

* `Watch`, `lockShard`, `continueWithShard`, `processReply`: the process;
* `WatchState`, `watchStep`: all processes, the bank and the tables;
* **`run_wirewatch`**: completed shards are imported in full, and a process that goes on with a shard
  is inside it, as long as no failed `begin_shard` leaves another shard in its variables;
* `staleOffset`: a process that goes on with an offset from another shard.
-/

namespace TalerExchange

open Sql Transition Tiling

/-! ## The bank -/

/-- The types of incoming transfers. -/
inductive CreditType
  | reserve
  | kycauth
  | wad
deriving DecidableEq, Repr

/-- An incoming transfer as the bank reports it. -/
structure CreditDetails where
  serialId : ℕ
  type : CreditType
deriving DecidableEq, Repr

/-! ## The process -/

/-- What the scheduler of a process runs next. -/
inductive WatchTask
  | lockShard
  | continueWithShard
  | awaitHistory
  | shutdown
  | assertionFailed
deriving DecidableEq, Repr

/-- The global variables of a process. -/
structure Watch where
  batchStart : ℕ := 0
  latestRowOff : ℕ := 0
  shardStart : ℕ := 0
  shardEnd : ℕ := 0
  shardEndTime : ℕ := 0
  shardOpen : Bool := false
  task : WatchTask := .lockShard
deriving DecidableEq, Repr

/-- The shard in the variables of a process. -/
def Watch.shard (v : Watch) (jobName : String) : Shard where
  jobName := jobName
  startRow := v.shardStart % 2 ^ 64
  endRow := v.shardEnd % 2 ^ 64
  start_lt := Nat.mod_lt _ (by decide)
  end_lt := Nat.mod_lt _ (by decide)

/-- `handle_soft_error`. -/
def Watch.handleSoftError (v : Watch) : Watch :=
  { v with latestRowOff := v.batchStart, task := .continueWithShard }

/-- `transaction_completed`: the process comes back to `lock_shard` after some time. -/
def Watch.transactionCompleted (v : Watch) : Watch := { v with task := .lockShard }

/-- `lock_shard` when the shard of the process is still locked. -/
def Watch.keepShard (v : Watch) : Watch :=
  { v with batchStart := v.latestRowOff, task := .continueWithShard }

/-- `lock_shard` after `begin_shard` has returned shard `x`. -/
def Watch.lockedShard (v : Watch) (x : Shard) (endTime : ℕ) : Watch :=
  { v with
    shardStart := x.startRow
    shardEnd := x.endRow
    shardEndTime := endTime
    batchStart := x.startRow
    latestRowOff :=
      if v.shardOpen ∧ x.startRow = v.shardStart ∧ x.endRow = v.shardEnd then v.latestRowOff
      else x.startRow
    shardOpen := true
    task := .continueWithShard }

/-- `lock_shard` after a soft error of `begin_shard`, which may have written its result already. -/
def Watch.lockFailed (v : Watch) : Option Shard → Watch
  | some x => { v with shardStart := x.startRow, shardEnd := x.endRow, task := .lockShard }
  | none => { v with task := .lockShard }

/-- `continue_with_shard`, with its assertion. -/
def Watch.continueWithShard (v : Watch) : Watch :=
  if v.latestRowOff < v.shardEnd then { v with task := .awaitHistory }
  else { v with task := .assertionFailed }

/-- The loop of `process_reply` that checks the serial IDs: the transfers to import and the new
offset; `none` if the IDs go back. -/
def checkSerialIds (shardEnd : ℕ) : ℕ → List CreditDetails → Option (List CreditDetails × ℕ)
  | lroff, [] => some ([], lroff)
  | lroff, cd :: cds =>
    if cd.serialId < lroff then none
    else if shardEnd < cd.serialId then some ([], cd.serialId - 1)
    else (checkSerialIds shardEnd cd.serialId cds).map fun r => (cd :: r.1, r.2)

/-- What the database answers while a reply is processed. -/
inductive ImportResult
  | success
  | insertSoftError
  | insertHardError
  | completeSoftError
  | completeHardError
deriving DecidableEq, Repr

/-- What `process_reply` leaves: the variables, the transfers handed to `reserves_in_insert`, and
whether `complete_shard` was called for the shard. -/
structure ReplyOutcome where
  watch : Watch
  imported : List ℕ := []
  completed : Bool := false
deriving DecidableEq, Repr

/-- The transfers that go to `reserves_in_insert`. -/
def reserveIds (cds : List CreditDetails) : List ℕ :=
  (cds.filter fun cd => cd.type = .reserve).map CreditDetails.serialId

/-- `process_reply`. -/
def Watch.processReply (v : Watch) (details : List CreditDetails) (res : ImportResult) :
    ReplyOutcome :=
  if details = [] then { watch := v.transactionCompleted }
  else
    match checkSerialIds v.shardEnd v.latestRowOff details with
    | none => { watch := { v with task := .shutdown } }
    | some (cds, lroff) =>
      let ids := reserveIds cds
      match res with
      | .insertSoftError => { watch := v.handleSoftError }
      | .insertHardError => { watch := { v with task := .shutdown } }
      | _ =>
        let v := { v with latestRowOff := lroff }
        if v.shardEnd ≤ lroff then
          match res with
          | .completeSoftError => { watch := v.handleSoftError, imported := ids }
          | .completeHardError => { watch := { v with task := .shutdown }, imported := ids }
          | _ => { watch := { v with shardOpen := false }.transactionCompleted, imported := ids,
                   completed := true }
        else { watch := { v with task := .continueWithShard }, imported := ids }

/-! ## All processes -/

/-- The shards, the bank's transfers in ascending order, the serial IDs that were handed to
`reserves_in_insert` in a committed transaction, and the processes. -/
structure WatchState where
  shards : ShardState
  bank : List CreditDetails
  imported : List ℕ
  watch : ℕ → Watch

/-- Nothing has happened yet. -/
def WatchState.empty : WatchState := ⟨ShardState.empty, [], [], fun _ => {}⟩

/-- How a call of `begin_shard` goes: the arguments, whether it has written its result when it
fails, and whether it fails hard. -/
structure LockArgs where
  delay : ℕ
  shardSize : ℕ
  rolledBack : ℕ
  elapsed : ℕ
  wrote : Bool
  hardError : Bool
deriving DecidableEq, Repr

/-- What the bank answers to a history request. -/
inductive HistoryReply
  | ok (length : ℕ) (res : ImportResult)
  | nothing
  | error
deriving DecidableEq, Repr

/-- The steps of the system. -/
inductive WatchOp
  | wait (d : ℕ)
  | credit (gap : ℕ) (type : CreditType)
  | lock (w : ℕ) (a : LockArgs)
  | proceed (w : ℕ)
  | reply (w : ℕ) (r : HistoryReply)
  | shutdown (w : ℕ)
deriving DecidableEq, Repr

namespace WatchState

variable (s : WatchState)

/-- The serial ID that the bank has assigned last. -/
def lastId : ℕ := ((s.bank.map CreditDetails.serialId).getLast?).getD 0

/-- The first transfers above an offset, as the bank reports them. -/
def history (offset length : ℕ) : List CreditDetails :=
  (s.bank.filter fun cd => offset < cd.serialId).take length

/-- The state after process `w` has changed its variables. -/
def setWatch (w : ℕ) (v : Watch) : WatchState :=
  { s with watch := Function.update s.watch w v }

/-- The state after more transfers were handed to `reserves_in_insert`. -/
def withImported (ids : List ℕ) : WatchState := { s with imported := s.imported ++ ids }

/-- The arguments of a call of `begin_shard` by process `w`. -/
def beginArgs (jobName : String) (w : ℕ) (a : LockArgs) : BeginArgs :=
  ⟨w, jobName, a.delay, a.shardSize, a.rolledBack, a.elapsed⟩

/-- The shard that a call of `begin_shard` finds. -/
def chosen (jobName : String) (a : LockArgs) : Shard :=
  (chooseShard s.shards.shards jobName s.shards.clock a.shardSize).shard

/-- `lock_shard`. -/
def lockShard (jobName : String) (w : ℕ) (a : LockArgs) : WatchState :=
  let v := s.watch w
  if v.shardOpen ∧ s.shards.clock < v.shardEndTime then s.setWatch w v.keepShard
  else
    let b := beginArgs jobName w a
    let sh := shardStep s.shards (.begin b)
    match s.shards.beginShard b with
    | some (_, x) => { s with shards := sh }.setWatch w (v.lockedShard x (s.shards.leaseEnd b))
    | none =>
      let v' := v.lockFailed (if a.wrote then some (s.chosen jobName a) else none)
      { s with shards := sh }.setWatch w (if a.hardError then { v' with task := .shutdown } else v')

/-- The state after a reply has been processed. -/
def applyReply (jobName : String) (w : ℕ) (r : ReplyOutcome) : WatchState :=
  { s with
    shards := if r.completed then
        shardStep s.shards (.complete w ((s.watch w).shard jobName))
      else s.shards
    imported := s.imported ++ r.imported }.setWatch w r.watch

/-- `history_cb`. -/
def historyCb (jobName : String) (w : ℕ) : HistoryReply → WatchState
  | .ok n res =>
    s.applyReply jobName w ((s.watch w).processReply (s.history (s.watch w).latestRowOff n) res)
  | .nothing => s.setWatch w (s.watch w).transactionCompleted
  | .error => s.setWatch w { s.watch w with task := .shutdown }

/-- `shutdown_task`. -/
def shutdownTask (jobName : String) (w : ℕ) : WatchState :=
  { s with
    shards := if (s.watch w).shardOpen then
        shardStep s.shards (.abort w ((s.watch w).shard jobName))
      else s.shards }.setWatch w { s.watch w with shardOpen := false, task := .shutdown }

end WatchState

/-- One step of the system; a task that is not the process's next one does nothing. -/
def watchStep (jobName : String) (s : WatchState) : WatchOp → WatchState
  | .wait d => { s with shards := shardStep s.shards (.wait d) }
  | .credit gap type => { s with bank := s.bank ++ [⟨s.lastId + 1 + gap, type⟩] }
  | .lock w a => if (s.watch w).task = .lockShard then s.lockShard jobName w a else s
  | .proceed w =>
    if (s.watch w).task = .continueWithShard then s.setWatch w (s.watch w).continueWithShard else s
  | .reply w r => if (s.watch w).task = .awaitHistory then s.historyCb jobName w r else s
  | .shutdown w => if (s.watch w).task = .assertionFailed then s else s.shutdownTask jobName w

/-- The state after some steps. -/
def watchRun (jobName : String) (ops : List WatchOp) : WatchState :=
  run (watchStep jobName) WatchState.empty ops

/-! ## What is to hold -/

/-- Every transfer to a reserve that the bank has in `(lo, hi]` was handed to
`reserves_in_insert`. -/
def WatchState.Imported (s : WatchState) (lo hi : ℤ) : Prop :=
  ∀ cd ∈ s.bank, cd.type = .reserve → lo < cd.serialId → cd.serialId ≤ hi → cd.serialId ∈ s.imported

/-- A completed shard has been imported, a process that goes on with its shard is inside it, and the
assertion has not failed. -/
structure WatchSound (jobName : String) (ops : List WatchOp) : Prop where
  complete : ∀ r ∈ (watchRun jobName ops).shards.shards.rows, r.completed = true →
    (watchRun jobName ops).Imported r.startRow r.endRow
  inside : ∀ w, ((watchRun jobName ops).watch w).task = .continueWithShard →
    ((watchRun jobName ops).watch w).shardStart ≤ ((watchRun jobName ops).watch w).latestRowOff ∧
      ((watchRun jobName ops).watch w).latestRowOff < ((watchRun jobName ops).watch w).shardEnd
  asserted : ∀ w, ((watchRun jobName ops).watch w).task ≠ .assertionFailed

/-- The condition on the steps: shards are not empty and fit their columns, and a call of
`begin_shard` that fails while the process has an open shard does not leave another one in its
variables. -/
def WatchOpOk (jobName : String) (s : WatchState) : WatchOp → Prop
  | .lock w a => 0 < a.shardSize ∧ s.shards.Fits (WatchState.beginArgs jobName w a) ∧
      ((s.watch w).shardOpen = true → s.shards.clock < (s.watch w).shardEndTime ∨
        s.shards.beginShard (WatchState.beginArgs jobName w a) ≠ none ∨ a.wrote = false ∨
          (s.chosen jobName a).startRow = (s.watch w).shardStart ∧
            (s.chosen jobName a).endRow = (s.watch w).shardEnd)
  | _ => True

instance (jobName : String) (s : WatchState) : (o : WatchOp) → Decidable (WatchOpOk jobName s o)
  | .lock .. => inferInstanceAs (Decidable (_ ∧ _ ∧ (_ → _ ∨ _ ∨ _ ∨ _ ∧ _)))
  | .wait _ | .credit .. | .proceed _ | .reply .. | .shutdown _ => .isTrue trivial

/-! ## Replies -/

section Replies

variable {s : WatchState} {shardEnd lroff r : ℕ} {l cds : List CreditDetails}

/-- **What the check of a reply keeps**: all transfers of the shard, and an offset that no transfer
beyond the reply reaches. -/
theorem checkSerialIds_spec (hl : l.Pairwise (·.serialId < ·.serialId))
    (h : checkSerialIds shardEnd lroff l = some (cds, r)) :
    (∀ cd ∈ l, cd.serialId ≤ shardEnd → cd ∈ cds) ∧ (lroff ≤ shardEnd → lroff ≤ r) ∧
      (l ≠ [] → ∃ cd ∈ l, r ≤ cd.serialId) := by
  induction l generalizing lroff cds r with
  | nil =>
    cases h
    exact ⟨fun _ h => (nomatch h), fun _ => le_rfl, fun h => absurd rfl h⟩
  | cons cd l ih =>
    obtain ⟨hlt, hl⟩ := List.pairwise_cons.mp hl
    unfold checkSerialIds at h
    split_ifs at h with h₁ h₂
    · cases h
      refine ⟨fun x hx hle => ?_, fun hle => ?_, fun _ => ⟨cd, List.mem_cons_self, by omega⟩⟩
      · rcases List.mem_cons.mp hx with rfl | hx
        · omega
        · have := hlt x hx
          omega
      · omega
    · obtain ⟨⟨cds', r'⟩, hrec, e⟩ := Option.map_eq_some_iff.mp h
      cases e
      obtain ⟨hall, hle, hex⟩ := ih hl hrec
      refine ⟨fun x hx hxe => ?_, fun _ => ?_, fun _ => ?_⟩
      · rcases List.mem_cons.mp hx with rfl | hx
        · exact List.mem_cons_self
        · exact List.mem_cons_of_mem _ (hall x hx hxe)
      · have := hle (by omega)
        omega
      · by_cases hne : l = []
        · subst hne
          cases hrec
          exact ⟨cd, List.mem_cons_self, le_rfl⟩
        · obtain ⟨x, hx, hrx⟩ := hex hne
          exact ⟨x, List.mem_cons_of_mem _ hx, hrx⟩

theorem history_pairwise (hs : s.bank.Pairwise (·.serialId < ·.serialId)) (offset n : ℕ) :
    (s.history offset n).Pairwise (·.serialId < ·.serialId) :=
  ((hs.filter _).sublist (List.take_sublist ..))

theorem mem_history {offset n : ℕ} {cd : CreditDetails} (h : cd ∈ s.history offset n) :
    cd ∈ s.bank ∧ offset < cd.serialId := by
  have h := List.mem_filter.mp (List.mem_of_mem_take h)
  exact ⟨h.1, of_decide_eq_true h.2⟩

/-- A transfer above the offset is in the reply or comes after all of it. -/
theorem history_prefix (hs : s.bank.Pairwise (·.serialId < ·.serialId)) {offset n : ℕ}
    {cd : CreditDetails} (h : cd ∈ s.bank) (ho : offset < cd.serialId) :
    cd ∈ s.history offset n ∨ ∀ x ∈ s.history offset n, x.serialId < cd.serialId := by
  have hmem : cd ∈ s.bank.filter fun cd => offset < cd.serialId :=
    List.mem_filter.mpr ⟨h, decide_eq_true ho⟩
  have hp := hs.filter fun cd => offset < cd.serialId
  rw [← List.take_append_drop n (s.bank.filter _)] at hmem hp
  rcases List.mem_append.mp hmem with hm | hm
  · exact Or.inl hm
  · exact Or.inr fun x hx => (List.pairwise_append.mp hp).2.2 x hx cd hm

end Replies

/-! ## Processes -/

/-- The process is inside the shard in its variables, and has imported it up to its offset. -/
structure InShard (s : WatchState) (v : Watch) : Prop where
  start_le : v.shardStart ≤ v.batchStart
  batch_le : v.batchStart ≤ v.latestRowOff
  lt_end : v.latestRowOff < v.shardEnd
  end_lt : v.shardEnd < 2 ^ 63
  imported : s.Imported v.shardStart v.latestRowOff
  reached : v.latestRowOff = v.shardStart ∨ ∃ cd ∈ s.bank, v.latestRowOff ≤ cd.serialId

section Processes

variable {s : WatchState} {v : Watch}

theorem WatchState.Imported.mono {s' : WatchState} {lo hi : ℤ} (h : s.Imported lo hi)
    (hb : s'.bank = s.bank) (hm : ∀ n ∈ s.imported, n ∈ s'.imported) : s'.Imported lo hi :=
  fun cd hcd ht h₁ h₂ => hm _ (h cd (hb ▸ hcd) ht h₁ h₂)

@[simp] theorem withImported_imported (ids : List ℕ) :
    (s.withImported ids).imported = s.imported ++ ids := rfl

/-- A process sees that more was imported, and nothing else of what others do. -/
theorem InShard.mono {s' : WatchState} (h : InShard s v) (hb : s'.bank = s.bank)
    (hm : ∀ n ∈ s.imported, n ∈ s'.imported) : InShard s' v :=
  ⟨h.start_le, h.batch_le, h.lt_end, h.end_lt, h.imported.mono hb hm, hb ▸ h.reached⟩

theorem InShard.withImported (h : InShard s v) (ids : List ℕ) : InShard (s.withImported ids) v :=
  h.mono rfl fun _ => List.mem_append_left _

/-- Back to the start of the batch. -/
theorem InShard.batch (h : InShard s v) : InShard s v.handleSoftError where
  start_le := h.start_le
  batch_le := le_rfl
  lt_end := h.batch_le.trans_lt h.lt_end
  end_lt := h.end_lt
  imported cd hcd ht h₁ h₂ := by
    have hle := h.batch_le
    refine h.imported cd hcd ht h₁ ?_
    simp only [Watch.handleSoftError] at h₂
    omega
  reached := by
    have h₁ := h.start_le
    have h₂ := h.batch_le
    simp only [Watch.handleSoftError]
    rcases h.reached with e | ⟨cd, hcd, hle⟩
    · exact Or.inl (by omega)
    · exact Or.inr ⟨cd, hcd, by omega⟩

/-- The same variables with another task. -/
theorem InShard.congr {v' : Watch} (h : InShard s v) (h₁ : v'.shardStart = v.shardStart)
    (h₂ : v'.shardEnd = v.shardEnd) (h₃ : v'.batchStart = v.batchStart)
    (h₄ : v'.latestRowOff = v.latestRowOff) : InShard s v' := by
  obtain ⟨a, b, c, d, e, f⟩ := h
  constructor <;> simp only [h₁, h₂, h₃, h₄] <;> assumption

/-- The offset of a checked reply: everything up to it and up to the end of the shard has been
imported. -/
theorem imported_reply (hs : s.bank.Pairwise (·.serialId < ·.serialId)) (hv : InShard s v) {n : ℕ}
    (hne : s.history v.latestRowOff n ≠ []) {cds : List CreditDetails} {lroff : ℕ}
    (hc : checkSerialIds v.shardEnd v.latestRowOff (s.history v.latestRowOff n) = some (cds, lroff))
    {hi : ℤ} (h₁ : hi ≤ lroff) (h₂ : hi ≤ v.shardEnd) :
    (s.withImported (reserveIds cds)).Imported v.shardStart hi := by
  obtain ⟨hall, -, hex⟩ := checkSerialIds_spec (history_pairwise hs _ _) hc
  obtain ⟨x, hx, hxr⟩ := hex hne
  intro cd hcd ht hlo hhi
  rw [withImported_imported, List.mem_append]
  by_cases hold : cd.serialId ≤ v.latestRowOff
  · exact Or.inl (hv.imported cd hcd ht hlo (by exact_mod_cast hold))
  · refine Or.inr (List.mem_map.mpr ⟨cd, List.mem_filter.mpr ⟨hall cd ?_ (by omega), ?_⟩, rfl⟩)
    · rcases history_prefix hs hcd (not_le.mp hold) with h | h
      · exact h
      · have := h x hx
        omega
    · exact decide_eq_true ht

/-- **What a reply does to a process**: it stays in its shard, or it has imported all of it. -/
theorem processReply_spec (hs : s.bank.Pairwise (·.serialId < ·.serialId)) (hv : InShard s v)
    (hopen : v.shardOpen = true) (n : ℕ) (res : ImportResult) {o : ReplyOutcome}
    (ho : v.processReply (s.history v.latestRowOff n) res = o) :
    (o.watch.task = .lockShard ∨ o.watch.task = .shutdown ∨
      o.watch.task = .continueWithShard ∧ o.watch.shardOpen = true) ∧
    (o.watch.shardOpen = true → o.watch.task ≠ .shutdown →
      InShard (s.withImported o.imported) o.watch) ∧
    (o.completed = true → (s.withImported o.imported).Imported v.shardStart v.shardEnd ∧
      ∃ cd ∈ s.bank, v.shardEnd ≤ cd.serialId) := by
  unfold Watch.processReply at ho
  split_ifs at ho with hne
  · subst ho
    exact ⟨Or.inl rfl, fun _ _ => (hv.withImported []).congr rfl rfl rfl rfl, fun h => nomatch h⟩
  · cases hc : checkSerialIds v.shardEnd v.latestRowOff (s.history v.latestRowOff n) with
    | none =>
      rw [hc] at ho
      subst ho
      exact ⟨Or.inr (Or.inl rfl), fun _ h => absurd rfl h, fun h => nomatch h⟩
    | some p =>
      obtain ⟨cds, lroff⟩ := p
      rw [hc] at ho
      obtain ⟨-, hmono, hex⟩ := checkSerialIds_spec (history_pairwise hs _ _) hc
      obtain ⟨x, hx, hxr⟩ := hex hne
      have hbank := (mem_history hx).1
      have hle := hmono hv.lt_end.le
      have hsoft := fun ids => (hv.withImported ids).batch
      by_cases hsi : res = .insertSoftError
      · subst hsi
        subst ho
        exact ⟨Or.inr (Or.inr ⟨rfl, hopen⟩), fun _ _ => hsoft [], fun h => nomatch h⟩
      by_cases hhi : res = .insertHardError
      · subst hhi
        subst ho
        exact ⟨Or.inr (Or.inl rfl), fun _ h => absurd rfl h, fun h => nomatch h⟩
      -- the offset moves: to the end of the shard, or to a place inside it
      by_cases hdone : v.shardEnd ≤ lroff
      · have himp := imported_reply hs hv hne hc (by exact_mod_cast hdone) (le_refl (v.shardEnd : ℤ))
        cases res with
        | insertSoftError => exact absurd rfl hsi
        | insertHardError => exact absurd rfl hhi
        | success =>
          simp only [hdone, if_true] at ho
          subst ho
          exact ⟨Or.inl rfl, fun h => (nomatch h), fun _ => ⟨himp, x, hbank, hdone.trans hxr⟩⟩
        | completeSoftError =>
          simp only [hdone, if_true] at ho
          subst ho
          exact ⟨Or.inr (Or.inr ⟨rfl, hopen⟩), fun _ _ => (hsoft _).congr rfl rfl rfl rfl,
            fun h => nomatch h⟩
        | completeHardError =>
          simp only [hdone, if_true] at ho
          subst ho
          exact ⟨Or.inr (Or.inl rfl), fun _ h => absurd rfl h, fun h => nomatch h⟩
      · have himp := imported_reply hs hv hne hc (le_refl (lroff : ℤ))
          (by exact_mod_cast (not_le.mp hdone).le)
        have ho : ReplyOutcome.mk { v with latestRowOff := lroff, task := .continueWithShard }
            (reserveIds cds) false = o := by
          rw [← ho]
          cases res with
          | insertSoftError => exact absurd rfl hsi
          | insertHardError => exact absurd rfl hhi
          | _ => simp only [hdone, if_false]
        subst ho
        refine ⟨Or.inr (Or.inr ⟨rfl, hopen⟩), fun _ _ => ?_, fun h => nomatch h⟩
        exact ⟨hv.start_le, hv.batch_le.trans hle, not_le.mp hdone, hv.end_lt, himp,
          Or.inr ⟨x, hbank, hxr⟩⟩

end Processes

/-! ## The invariant -/

/-- The tasks of a process: it only works on an open shard, and its assertion has not failed. -/
def Watch.TaskOk (v : Watch) : Prop :=
  v.task = .lockShard ∨ v.task = .shutdown ∨
    (v.task = .continueWithShard ∨ v.task = .awaitHistory) ∧ v.shardOpen = true

/-- What holds of the bank, the tables and the processes. -/
structure WatchInv (s : WatchState) : Prop where
  tiled : ShardsTiled s.shards.shards
  nonempty : ∀ r ∈ s.shards.shards.rows, r.startRow < r.endRow
  sorted : s.bank.Pairwise (·.serialId < ·.serialId)
  done : ∀ r ∈ s.shards.shards.rows, r.completed = true →
    s.Imported r.startRow r.endRow ∧ ∃ cd ∈ s.bank, r.endRow ≤ cd.serialId
  tasks : ∀ w, (s.watch w).TaskOk
  inside : ∀ w, (s.watch w).shardOpen = true → (s.watch w).task ≠ .shutdown →
    InShard s (s.watch w)

theorem watchInv_empty : WatchInv WatchState.empty where
  tiled _ := ⟨0, by decide, .nil _⟩
  nonempty _ h := nomatch h
  sorted := List.Pairwise.nil
  done _ h := nomatch h
  tasks _ := Or.inl rfl
  inside _ h := nomatch h

section Steps

variable {s : WatchState} {w : ℕ} {v : Watch} {jobName : String}

/-- A process that changes its own variables. -/
theorem WatchInv.setWatch (hi : WatchInv s) (ht : v.TaskOk)
    (hv : v.shardOpen = true → v.task ≠ .shutdown → InShard s v) : WatchInv (s.setWatch w v) := by
  have hcases : ∀ {P : Watch → Prop} u, (u = w → P v) → (u ≠ w → P (s.watch u)) →
      P ((s.setWatch w v).watch u) := by
    intro P u h₁ h₂
    simp only [WatchState.setWatch]
    by_cases e : u = w
    · subst e
      rw [Function.update_self]
      exact h₁ rfl
    · rw [Function.update_of_ne e]
      exact h₂ e
  refine ⟨hi.tiled, hi.nonempty, hi.sorted, hi.done, fun u => ?_, fun u => ?_⟩
  · exact hcases (P := Watch.TaskOk) u (fun _ => ht) fun _ => hi.tasks u
  · intro h₁ h₂
    refine InShard.mono (s := s) ?_ rfl fun _ h => h
    exact hcases (P := fun v => v.shardOpen = true → v.task ≠ .shutdown → InShard s v) u
      (fun _ => hv) (fun _ => hi.inside u) h₁ h₂

/-- Shards that are leased, completed or returned while more is imported. -/
theorem WatchInv.tables (hi : WatchInv s) {sh : ShardState} {ids : List ℕ}
    (htiled : ShardsTiled sh.shards) (hne : ∀ r ∈ sh.shards.rows, r.startRow < r.endRow)
    (hdone : ∀ r ∈ sh.shards.rows, r.completed = true → (s.withImported ids).Imported r.startRow r.endRow ∧
      ∃ cd ∈ s.bank, r.endRow ≤ cd.serialId) :
    WatchInv { s with shards := sh, imported := s.imported ++ ids } where
  tiled := htiled
  nonempty := hne
  sorted := hi.sorted
  done := hdone
  tasks := hi.tasks
  inside w h₁ h₂ := (hi.inside w h₁ h₂).mono rfl fun _ => List.mem_append_left _

/-- A write to shards that leaves their intervals and does not complete any. -/
theorem WatchInv.update (hi : WatchInv s) {p : WorkShard → Bool} {f : WorkShard → WorkShard}
    (hf : ∀ r, (f r).jobName = r.jobName ∧ (f r).startRow = r.startRow ∧ (f r).endRow = r.endRow)
    (hc : ∀ r, (f r).completed = r.completed) (hk : ∀ r, Record.key (f r) = Record.key r)
    (hs : ∀ r, Record.serial (f r) = Record.serial r) {sh : ShardState}
    (hsh : sh.shards = s.shards.shards.update p f hk hs) : WatchInv { s with shards := sh } := by
  have hrow : ∀ r ∈ sh.shards.rows, ∃ q ∈ s.shards.shards.rows,
      r.startRow = q.startRow ∧ r.endRow = q.endRow ∧ r.completed = q.completed := by
    intro r hr
    rw [hsh] at hr
    obtain ⟨q, hq, rfl⟩ := List.mem_map.mp hr
    refine ⟨q, hq, ?_⟩
    split_ifs
    · exact ⟨(hf q).2.1, (hf q).2.2, hc q⟩
    · exact ⟨rfl, rfl, rfl⟩
  refine ⟨?_, fun r hr => ?_, hi.sorted, fun r hr hcr => ?_, hi.tasks, fun w h₁ h₂ =>
    (hi.inside w h₁ h₂).mono rfl fun _ h => h⟩
  · simp only [hsh]
    exact hi.tiled.update hf hk hs
  · obtain ⟨q, hq, h₁, h₂, -⟩ := hrow r hr
    rw [h₁, h₂]
    exact hi.nonempty q hq
  · obtain ⟨q, hq, h₁, h₂, h₃⟩ := hrow r hr
    rw [h₁, h₂]
    exact hi.done q hq (h₃ ▸ hcr)

theorem WatchInv.wait (hi : WatchInv s) (d : ℕ) :
    WatchInv { s with shards := shardStep s.shards (.wait d) } :=
  ⟨hi.tiled, hi.nonempty, hi.sorted, hi.done, hi.tasks, fun w h₁ h₂ =>
    (hi.inside w h₁ h₂).mono rfl fun _ h => h⟩

/-- No transfer of the bank is above its last one. -/
theorem serialId_le_lastId (hs : s.bank.Pairwise (·.serialId < ·.serialId)) {cd : CreditDetails}
    (h : cd ∈ s.bank) : cd.serialId ≤ s.lastId := by
  rcases List.eq_nil_or_concat s.bank with e | ⟨l, x, e⟩
  · rw [e] at h
    cases h
  · rw [List.concat_eq_append] at e
    have hlast : s.lastId = x.serialId := by
      simp [WatchState.lastId, e]
    rw [e] at h hs
    rw [hlast]
    rcases List.mem_append.mp h with h | h
    · exact ((List.pairwise_append.mp hs).2.2 cd h x List.mem_cons_self).le
    · rw [List.mem_singleton.mp h]

/-- A new transfer is above all that has been reached. -/
theorem WatchState.Imported.credit (hs : s.bank.Pairwise (·.serialId < ·.serialId)) {gap : ℕ}
    {type : CreditType} {lo hi : ℤ} (h : s.Imported lo hi)
    (hr : hi ≤ lo ∨ ∃ cd ∈ s.bank, hi ≤ cd.serialId) :
    WatchState.Imported { s with bank := s.bank ++ [⟨s.lastId + 1 + gap, type⟩] } lo hi := by
  intro cd hcd ht hlo hhi
  rcases List.mem_append.mp hcd with hcd | hcd
  · exact h cd hcd ht hlo hhi
  · rw [List.mem_singleton.mp hcd] at hlo hhi
    rcases hr with hr | ⟨x, hx, hr⟩
    · omega
    · have := serialId_le_lastId hs hx
      simp only at hhi
      omega

theorem WatchInv.credit (hi : WatchInv s) (gap : ℕ) (type : CreditType) :
    WatchInv { s with bank := s.bank ++ [⟨s.lastId + 1 + gap, type⟩] } where
  tiled := hi.tiled
  nonempty := hi.nonempty
  sorted := by
    refine List.pairwise_append.mpr ⟨hi.sorted, List.pairwise_singleton .., fun x hx y hy => ?_⟩
    have := serialId_le_lastId hi.sorted hx
    rw [List.mem_singleton.mp hy]
    simp only
    omega
  done r hr hc := by
    obtain ⟨himp, x, hx, hle⟩ := hi.done r hr hc
    exact ⟨himp.credit hi.sorted (Or.inr ⟨x, hx, hle⟩), x, List.mem_append_left _ hx, hle⟩
  tasks := hi.tasks
  inside w h₁ h₂ := by
    obtain ⟨a, b, c, d, himp, hr⟩ := hi.inside w h₁ h₂
    refine ⟨a, b, c, d, himp.credit hi.sorted ?_, ?_⟩
    · rcases hr with e | ⟨x, hx, hle⟩
      · exact Or.inl (by omega)
      · exact Or.inr ⟨x, hx, by exact_mod_cast hle⟩
    · rcases hr with e | ⟨x, hx, hle⟩
      · exact Or.inl e
      · exact Or.inr ⟨x, List.mem_append_left _ hx, hle⟩

/-- A process that has just entered a shard has nothing to have imported. -/
theorem inShard_start {x : Shard} {endTime : ℕ} (hlt : x.startRow < x.endRow)
    (hend : x.endRow < 2 ^ 63)
    (hnew : ¬ (v.shardOpen = true ∧ x.startRow = v.shardStart ∧ x.endRow = v.shardEnd)) :
    InShard s (v.lockedShard x endTime) := by
  unfold Watch.lockedShard
  simp only [hnew, if_false]
  exact ⟨le_rfl, le_rfl, hlt, hend, fun cd _ _ h₁ h₂ => absurd h₂ (not_le.mpr h₁), Or.inl rfl⟩

/-- A process that gets its own shard again goes on where it was. -/
theorem inShard_again {x : Shard} {endTime : ℕ} (hv : InShard s v)
    (hsame : v.shardOpen = true ∧ x.startRow = v.shardStart ∧ x.endRow = v.shardEnd) :
    InShard s (v.lockedShard x endTime) := by
  obtain ⟨hopen, h₁, h₂⟩ := hsame
  unfold Watch.lockedShard
  simp only [hopen, h₁, h₂, and_self, if_true]
  exact ⟨le_rfl, hv.start_le.trans hv.batch_le, hv.lt_end, hv.end_lt, hv.imported, hv.reached⟩

theorem lockFailed_task (x : Option Shard) : (v.lockFailed x).task = .lockShard := by
  cases x <;> rfl

theorem lockFailed_shardOpen (x : Option Shard) : (v.lockFailed x).shardOpen = v.shardOpen := by
  cases x <;> rfl

/-- A failed call that leaves the shard of the process in its variables. -/
theorem inShard_lockFailed (hv : InShard s v) {x : Option Shard}
    (hx : ∀ y ∈ x, y.startRow = v.shardStart ∧ y.endRow = v.shardEnd) :
    InShard s (v.lockFailed x) := by
  cases x with
  | none => exact hv.congr rfl rfl rfl rfl
  | some y => exact hv.congr (hx y rfl).1 (hx y rfl).2 rfl rfl

/-- The tables after `begin_shard` has handed out a shard. -/
theorem WatchInv.begin (hi : WatchInv s) {a : BeginArgs} (ho : s.shards.Fits a)
    (hsize : 0 < a.shardSize) {t : Table WorkShard} {x : Shard}
    (h : s.shards.beginShard a = some (t, x)) :
    WatchInv { s with shards := shardStep s.shards (.begin a) } := by
  rw [shardStep_begin_some h]
  obtain ⟨r, hr, hx, -, hl, rfl⟩ | ⟨n, htiles, hlt, -, -, -, ht⟩ := beginShard_cases hi.tiled ho h
  · exact hi.update (f := fun r => { r with lastAttempt := s.shards.leaseEnd a })
      (fun _ => ⟨rfl, rfl, rfl⟩) (fun _ => rfl) (fun _ => rfl) (fun _ => rfl) rfl
  · refine ⟨hi.tiled.begin ho h, fun r hr => ?_, hi.sorted, fun r hr hc => ?_, hi.tasks,
      fun w h₁ h₂ => (hi.inside w h₁ h₂).mono rfl fun _ h => h⟩
    · rcases (Table.mem_insert? ht).mp hr with hr | rfl
      · exact hi.nonempty r hr
      · simp only
        omega
    · rcases (Table.mem_insert? ht).mp hr with hr | rfl
      · exact hi.done r hr hc
      · cases hc

theorem WatchInv.lock (hi : WatchInv s) {a : LockArgs} (ho : WatchOpOk jobName s (.lock w a))
    (htask : (s.watch w).task = .lockShard) : WatchInv (s.lockShard jobName w a) := by
  obtain ⟨hsize, hfits, hstale⟩ := ho
  have hv : (s.watch w).shardOpen = true → InShard s (s.watch w) := fun h =>
    hi.inside w h (by rw [htask]; decide)
  unfold WatchState.lockShard
  by_cases hkeep : (s.watch w).shardOpen = true ∧ s.shards.clock < (s.watch w).shardEndTime
  · simp only [hkeep, and_self, if_true]
    refine hi.setWatch (Or.inr (Or.inr ⟨Or.inl rfl, hkeep.1⟩)) fun _ _ => ?_
    have h := hv hkeep.1
    exact ⟨h.start_le.trans h.batch_le, le_rfl, h.lt_end, h.end_lt, h.imported, h.reached⟩
  · simp only [hkeep, if_false]
    cases hb : s.shards.beginShard (WatchState.beginArgs jobName w a) with
    | some p =>
      obtain ⟨t, x⟩ := p
      obtain ⟨hlt, hend⟩ := beginShard_nonempty hi.tiled hi.nonempty hfits hsize hb
      refine WatchInv.setWatch (hi.begin hfits hsize hb) (Or.inr (Or.inr ⟨Or.inl rfl, rfl⟩))
        fun _ _ => ?_
      by_cases hsame : (s.watch w).shardOpen = true ∧ x.startRow = (s.watch w).shardStart ∧
          x.endRow = (s.watch w).shardEnd
      · exact inShard_again ((hv hsame.1).mono rfl fun _ h => h) hsame
      · exact inShard_start hlt hend hsame
    | none =>
      rw [shardStep_begin_none hb]
      have hwait := hi.wait a.elapsed
      by_cases hhard : a.hardError = true
      · simp only [hhard, if_true]
        exact WatchInv.setWatch hwait (Or.inr (Or.inl rfl)) fun _ h => absurd rfl h
      · simp only [hhard, Bool.false_eq_true, if_false]
        refine WatchInv.setWatch hwait (Or.inl (lockFailed_task _)) fun hopen _ => ?_
        rw [lockFailed_shardOpen] at hopen
        refine (inShard_lockFailed (hv hopen) fun y hy => ?_).mono rfl fun _ h => h
        rcases hstale hopen with h | h | h | h
        · exact absurd ⟨hopen, h⟩ hkeep
        · exact absurd hb h
        · simp [h] at hy
        · split_ifs at hy
          · cases hy
            exact h
          · cases hy

theorem WatchInv.proceed (hi : WatchInv s) (htask : (s.watch w).task = .continueWithShard) :
    WatchInv (s.setWatch w (s.watch w).continueWithShard) := by
  have hopen : (s.watch w).shardOpen = true := by
    rcases hi.tasks w with h | h | h
    · exact absurd (htask.symm.trans h) (by decide)
    · exact absurd (htask.symm.trans h) (by decide)
    · exact h.2
  have hv := hi.inside w hopen (by rw [htask]; decide)
  unfold Watch.continueWithShard
  rw [if_pos hv.lt_end]
  exact hi.setWatch (Or.inr (Or.inr ⟨Or.inr rfl, hopen⟩)) fun _ _ => hv.congr rfl rfl rfl rfl

/-- The row that a process completes is its shard. -/
theorem is_watch_shard {r : WorkShard} (hlt : v.shardStart ≤ v.shardEnd) (hend : v.shardEnd < 2 ^ 63)
    (h : r.is (v.shard jobName) = true) : r.startRow = v.shardStart ∧ r.endRow = v.shardEnd := by
  obtain ⟨-, h₁, h₂⟩ := is_iff.mp h
  have e₁ : v.shardStart % 2 ^ 64 = v.shardStart := Nat.mod_eq_of_lt (by omega)
  have e₂ : v.shardEnd % 2 ^ 64 = v.shardEnd := Nat.mod_eq_of_lt (by omega)
  simp only [Watch.shard, e₁, e₂] at h₁ h₂
  rw [h₁, h₂, stored_of_lt (show v.shardStart < 2 ^ 63 by omega), stored_of_lt hend]
  exact ⟨rfl, rfl⟩

/-- The tables and the process after a reply, given what the reply has done. -/
theorem WatchInv.applyReply (hi : WatchInv s) (hv : InShard s (s.watch w)) {o : ReplyOutcome}
    (htask : o.watch.TaskOk)
    (hin : o.watch.shardOpen = true → o.watch.task ≠ .shutdown →
      InShard (s.withImported o.imported) o.watch)
    (hdone : o.completed = true →
      (s.withImported o.imported).Imported (s.watch w).shardStart (s.watch w).shardEnd ∧
        ∃ cd ∈ s.bank, (s.watch w).shardEnd ≤ cd.serialId) :
    WatchInv (s.applyReply jobName w o) := by
  have hstart := (hv.start_le.trans hv.batch_le).trans hv.lt_end.le
  have hold : ∀ r ∈ s.shards.shards.rows, r.completed = true →
      (s.withImported o.imported).Imported r.startRow r.endRow ∧
        ∃ cd ∈ s.bank, r.endRow ≤ cd.serialId := fun r hr hc =>
    ⟨(hi.done r hr hc).1.mono rfl fun _ => List.mem_append_left _, (hi.done r hr hc).2⟩
  unfold WatchState.applyReply
  refine WatchInv.setWatch ?_ htask fun h₁ h₂ => (hin h₁ h₂).mono rfl fun _ h => h
  by_cases hc : o.completed = true
  · simp only [hc, if_true, shardStep]
    refine hi.tables (hi.tiled.complete _) (fun r hr => ?_) fun r hr hcr => ?_
    · obtain ⟨q, hq, rfl⟩ := List.mem_map.mp hr
      have := hi.nonempty q hq
      split_ifs
      · exact this
      · exact this
    · obtain ⟨q, hq, rfl⟩ := List.mem_map.mp hr
      split_ifs at hcr ⊢ with hq'
      · obtain ⟨e₁, e₂⟩ := is_watch_shard hstart hv.end_lt hq'
        obtain ⟨himp, x, hx, hle⟩ := hdone hc
        simp only [e₁, e₂]
        exact ⟨himp, x, hx, by exact_mod_cast hle⟩
      · exact hold q hq hcr
  · simp only [hc, Bool.false_eq_true, if_false]
    exact hi.tables hi.tiled hi.nonempty hold

theorem WatchInv.reply (hi : WatchInv s) (htask : (s.watch w).task = .awaitHistory)
    (r : HistoryReply) : WatchInv (s.historyCb jobName w r) := by
  have hopen : (s.watch w).shardOpen = true := by
    rcases hi.tasks w with h | h | h
    · exact absurd (htask.symm.trans h) (by decide)
    · exact absurd (htask.symm.trans h) (by decide)
    · exact h.2
  have hv := hi.inside w hopen (by rw [htask]; decide)
  cases r with
  | nothing => exact hi.setWatch (Or.inl rfl) fun _ _ => hv.congr rfl rfl rfl rfl
  | error => exact hi.setWatch (Or.inr (Or.inl rfl)) fun _ h => absurd rfl h
  | ok n res =>
    obtain ⟨htask', hin, hdone⟩ := processReply_spec hi.sorted hv hopen n res rfl
    refine hi.applyReply hv ?_ hin hdone
    rcases htask' with h | h | h
    · exact Or.inl h
    · exact Or.inr (Or.inl h)
    · exact Or.inr (Or.inr ⟨Or.inl h.1, h.2⟩)

theorem WatchInv.shutdown (hi : WatchInv s) : WatchInv (s.shutdownTask jobName w) := by
  unfold WatchState.shutdownTask
  refine WatchInv.setWatch ?_ (Or.inr (Or.inl rfl)) fun h => nomatch h
  split_ifs
  · exact hi.update (f := fun r => { r with lastAttempt := 0 }) (fun _ => ⟨rfl, rfl, rfl⟩)
      (fun _ => rfl) (fun _ => rfl) (fun _ => rfl) rfl
  · exact hi

end Steps

/-- **Every admitted step keeps the invariant.** -/
theorem watchStep_inv {jobName : String} {s : WatchState} {o : WatchOp}
    (ho : WatchOpOk jobName s o) (hi : WatchInv s) : WatchInv (watchStep jobName s o) := by
  cases o with
  | wait d => exact hi.wait d
  | credit gap type => exact hi.credit gap type
  | lock w a =>
    simp only [watchStep]
    split_ifs with h
    · exact hi.lock ho h
    · exact hi
  | proceed w =>
    simp only [watchStep]
    split_ifs with h
    · exact hi.proceed h
    · exact hi
  | reply w r =>
    simp only [watchStep]
    split_ifs with h
    · exact hi.reply h r
    · exact hi
  | shutdown w =>
    simp only [watchStep]
    split_ifs
    · exact hi
    · exact hi.shutdown

/-! ## Runs -/

/-- **Wirewatch imports completed shards in full** and stays inside its shards, in every run of
admitted steps. -/
theorem run_wirewatch {jobName : String} {ops : List WatchOp}
    (h : Admits (watchStep jobName) (WatchOpOk jobName) WatchState.empty ops) :
    WatchSound jobName ops := by
  have hi : WatchInv (watchRun jobName ops) :=
    run_invariant (fun _ _ ho hi => watchStep_inv ho hi) h watchInv_empty
  refine ⟨fun r hr hc => (hi.done r hr hc).1, fun w htask => ?_, fun w => ?_⟩
  · rcases hi.tasks w with h | h | h
    · exact absurd (htask.symm.trans h) (by decide)
    · exact absurd (htask.symm.trans h) (by decide)
    · have hv := hi.inside w h.2 (by rw [htask]; decide)
      exact ⟨hv.start_le.trans hv.batch_le, hv.lt_end⟩
  · rcases hi.tasks w with h | h | ⟨h | h, -⟩ <;> rw [h] <;> decide

/-! ## Sample runs -/

/-- A call of `begin_shard` for ten rows. -/
def lockTen (delay : ℕ) : LockArgs := ⟨delay, 10, 0, 0, false, false⟩

/-- A process imports a shard over two replies, with a soft error between them. -/
def importedShard : List WatchOp :=
  [.wait 1, .lock 0 (lockTen 9), .credit 2 .reserve, .credit 0 .kycauth, .credit 8 .reserve,
   .proceed 0, .reply 0 (.ok 1 .success), .proceed 0, .reply 0 (.ok 3 .completeSoftError),
   .proceed 0, .reply 0 (.ok 3 .success)]

theorem importedShard_imported :
    (watchRun "wirewatch" importedShard).shards.shards.rows.map WorkShard.completed = [true] ∧
      (watchRun "wirewatch" importedShard).imported = [3, 3] ∧ WatchSound "wirewatch" importedShard :=
  ⟨by decide +kernel, by decide +kernel, run_wirewatch (by decide +kernel)⟩

/-- Process 1 has shard `(10, 20]` and has imported it up to row 18. Its lease expires, and it calls
`begin_shard`, which finds shard `(0, 10]` and fails on the commit. The next call succeeds with
`(0, 10]`: the process takes it for the shard it had. -/
def staleOffset : List WatchOp :=
  [.wait 1, .lock 0 (lockTen 1), .lock 1 (lockTen 2), .credit 17 .reserve, .proceed 1,
   .reply 1 (.ok 5 .success), .proceed 1, .reply 1 .nothing, .wait 10,
   .lock 1 { lockTen 1 with rolledBack := 10, wrote := true }, .lock 1 (lockTen 1), .proceed 1]

theorem not_wirewatch_sound : ¬ WatchSound "wirewatch" staleOffset :=
  fun h => h.asserted 1 (by decide +kernel)

end TalerExchange
