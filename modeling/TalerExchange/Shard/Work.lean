import TalerExchange.Shard.Tiling
import TalerExchange.Sql.Integer
import TalerExchange.Sql.Table
import TalerExchange.Transition.Path
import Mathlib.Algebra.Order.Ring.Int

/-!
# Work shards

`TEH_PG_begin_shard`, `TEH_PG_complete_shard` and `TEH_PG_abort_shard` on `work_shards`. The
transactions are serializable: one that commits is one step on the table, and one that meets a
serialization failure or a crash leaves nothing. Next to the table the model has what the workers
believe, the leases that `begin_shard` gave them.

* `chooseShard`: an open shard whose lease has expired, or the next one;
* `ShardOp`, `shardStep`: the transactions of all workers, and time;
* **`run_shards`**: the shards tile the job, and no shard is handed out while it is completed or
  leased, as long as no worker aborts a shard that another one has taken over;
* `stolenShard`: a worker that is late aborts the shard of another.
-/

namespace TalerExchange

open Sql Transition Tiling

/-! ## The table -/

/-- A row of `work_shards`. -/
structure WorkShard where
  shardSerialId : ℕ
  lastAttempt : ℕ
  startRow : ℤ
  endRow : ℤ
  completed : Bool := false
  jobName : String
deriving DecidableEq, Repr

instance : Record WorkShard (String × ℤ) where
  key r := (r.jobName, r.startRow)
  serial := WorkShard.shardSerialId

/-- A shard as a worker knows it. -/
structure Shard where
  jobName : String
  startRow : ℕ
  endRow : ℕ
  start_lt : startRow < 2 ^ 64 := by decide
  end_lt : endRow < 2 ^ 64 := by decide
deriving DecidableEq, Repr

/-- The `WHERE` clause of the updates of one shard. -/
def WorkShard.is (r : WorkShard) (x : Shard) : Bool :=
  r.jobName = x.jobName ∧ r.startRow = stored 64 x.startRow ∧ r.endRow = stored 64 x.endRow

/-- What the selects of `TEH_PG_begin_shard` find. -/
inductive Choice
  | reclaim (x : Shard)
  | claim (x : Shard)
deriving DecidableEq, Repr

/-- The shard that a choice is about: what the call leaves in `start_row` and `end_row`. -/
def Choice.shard : Choice → Shard
  | .reclaim x => x
  | .claim x => x

/-- `get_open_shard`. -/
def openShard (t : Table WorkShard) (jobName : String) (past : ℕ) : Option WorkShard :=
  (t.rows.filter fun r => r.jobName = jobName ∧ !r.completed ∧ r.lastAttempt < past).minOn?
    WorkShard.lastAttempt

/-- `get_last_shard`: the row to start the next shard at. -/
def nextRow (t : Table WorkShard) (jobName : String) : ℕ :=
  match ((t.rows.filter fun r => r.jobName = jobName).map WorkShard.endRow).max? with
  | some e => loaded 64 e
  | none => 0

theorem nextRow_lt (t : Table WorkShard) (jobName : String) : nextRow t jobName < 2 ^ 64 := by
  unfold nextRow
  split
  · exact loaded_lt 64 _
  · decide

/-- The shard in a row. -/
def WorkShard.shard (r : WorkShard) : Shard where
  jobName := r.jobName
  startRow := loaded 64 r.startRow
  endRow := loaded 64 r.endRow
  start_lt := loaded_lt ..
  end_lt := loaded_lt ..

/-- The shard after the last one. -/
def nextShard (t : Table WorkShard) (jobName : String) (shardSize : ℕ) : Shard where
  jobName := jobName
  startRow := nextRow t jobName
  endRow := (nextRow t jobName + shardSize) % 2 ^ 64
  start_lt := nextRow_lt ..
  end_lt := Nat.mod_lt _ (by decide)

/-- `get_open_shard` and, if there is none, `get_last_shard`. -/
def chooseShard (t : Table WorkShard) (jobName : String) (past shardSize : ℕ) : Choice :=
  match openShard t jobName past with
  | some r => .reclaim r.shard
  | none => .claim (nextShard t jobName shardSize)

/-- `reclaim_shard` or `claim_next_shard`; `none` if the transaction is rolled back. -/
def writeShard (t : Table WorkShard) (lease : ℕ) : Choice → Option (Table WorkShard)
  | .reclaim x =>
    if t.rows.any (·.is x) then some (t.update (·.is x) fun r => { r with lastAttempt := lease })
    else none
  | .claim x => t.insert? fun i =>
    ⟨i, lease, stored 64 x.startRow, stored 64 x.endRow, false, x.jobName⟩

/-- `TEH_PG_complete_shard`. -/
def completeShard (t : Table WorkShard) (x : Shard) : Table WorkShard :=
  t.update (·.is x) fun r => { r with completed := true }

/-- `TEH_PG_abort_shard`. -/
def abortShard (t : Table WorkShard) (x : Shard) : Table WorkShard :=
  t.update (·.is x) fun r => { r with lastAttempt := 0 }

/-! ## Workers -/

/-- A shard that was handed to a worker until some time. -/
structure Lease where
  worker : ℕ
  shard : Shard
  expires : ℕ
deriving DecidableEq, Repr

/-- The table, the time, and the leases that the workers have been given and not returned. -/
structure ShardState where
  clock : ℕ
  shards : Table WorkShard
  leases : List Lease

/-- No shards at all. -/
def ShardState.empty : ShardState := ⟨0, Table.empty, []⟩

/-- The arguments of `TEH_PG_begin_shard`, and what happens to the call: how many of its attempts
meet a serialization failure, and how much time passes between its two readings of the clock. -/
structure BeginArgs where
  worker : ℕ
  jobName : String
  delay : ℕ
  shardSize : ℕ
  rolledBack : ℕ
  elapsed : ℕ
deriving DecidableEq, Repr

/-- The transactions of the workers. -/
inductive ShardOp
  | wait (d : ℕ)
  | begin (a : BeginArgs)
  | complete (worker : ℕ) (x : Shard)
  | abort (worker : ℕ) (x : Shard)
deriving DecidableEq, Repr

namespace ShardState

variable (s : ShardState)

/-- When the lease ends that a call of `TEH_PG_begin_shard` takes. -/
def leaseEnd (a : BeginArgs) : ℕ := s.clock + a.elapsed + a.delay

/-- `TEH_PG_begin_shard`: the table and the shard handed out. Attempts that are rolled back leave
nothing; after ten of them the call fails. -/
def beginShard (a : BeginArgs) : Option (Table WorkShard × Shard) :=
  if a.rolledBack < 10 then
    let c := chooseShard s.shards a.jobName s.clock a.shardSize
    (writeShard s.shards (s.leaseEnd a) c).map fun t => (t, c.shard)
  else none

/-- The leases of a worker on a shard are gone. -/
def returned (worker : ℕ) (x : Shard) : List Lease :=
  s.leases.filter fun l => ¬ (l.worker = worker ∧ l.shard = x)

end ShardState

/-- One transaction. -/
def shardStep (s : ShardState) : ShardOp → ShardState
  | .wait d => { s with clock := s.clock + d }
  | .begin a =>
    match s.beginShard a with
    | some (t, x) =>
      { clock := s.clock + a.elapsed, shards := t, leases := ⟨a.worker, x, s.leaseEnd a⟩ :: s.leases }
    | none => { s with clock := s.clock + a.elapsed }
  | .complete w x => { s with shards := completeShard s.shards x, leases := s.returned w x }
  | .abort w x => { s with shards := abortShard s.shards x, leases := s.returned w x }

section Begin

variable {s : ShardState} {a : BeginArgs} {t : Table WorkShard} {x : Shard}

theorem shardStep_begin_some (h : s.beginShard a = some (t, x)) :
    shardStep s (.begin a) = { clock := s.clock + a.elapsed, shards := t,
                               leases := ⟨a.worker, x, s.leaseEnd a⟩ :: s.leases } := by
  simp only [shardStep, h]

theorem shardStep_begin_none (h : s.beginShard a = none) :
    shardStep s (.begin a) = { s with clock := s.clock + a.elapsed } := by
  simp only [shardStep, h]

theorem beginShard_eq_some (h : s.beginShard a = some (t, x)) :
    writeShard s.shards (s.leaseEnd a) (chooseShard s.shards a.jobName s.clock a.shardSize) = some t ∧
      x = (chooseShard s.shards a.jobName s.clock a.shardSize).shard := by
  unfold ShardState.beginShard at h
  split_ifs at h
  obtain ⟨t', ht, e⟩ := Option.map_eq_some_iff.mp h
  cases e
  exact ⟨ht, rfl⟩

end Begin

/-! ## What is to hold -/

/-- The shards of a job as intervals, in the order they were created. -/
def spansOf (t : Table WorkShard) (jobName : String) : List (ℤ × ℤ) :=
  (t.rows.filter fun r => r.jobName = jobName).map fun r => (r.startRow, r.endRow)

namespace ShardState

variable (s : ShardState)

/-- The shard is there and has not been completed. -/
def isOpen (x : Shard) : Bool := s.shards.rows.any fun r => r.is x && !r.completed

/-- The shard has been completed. -/
def isCompleted (x : Shard) : Bool := s.shards.rows.any fun r => r.is x && r.completed

/-- The shard that a transaction hands out. -/
def granted : ShardOp → Option Shard
  | .begin a => (s.beginShard a).map Prod.snd
  | _ => none

end ShardState

/-- The state after some transactions. -/
def shardRun (ops : List ShardOp) : ShardState := run shardStep ShardState.empty ops

/-- A transaction that follows `before` hands out a shard rightly: the shard is open, it has not
been completed at any time, and every lease on it has expired. -/
structure GrantSound (before : List ShardOp) (o : ShardOp) (x : Shard) : Prop where
  isOpen : (shardStep (shardRun before) o).isOpen x = true
  fresh : ∀ early late, before = early ++ late → (shardRun early).isCompleted x = false
  expired : ∀ l ∈ (shardRun before).leases, l.shard = x → l.expires < (shardRun before).clock

/-- The shards of every job tile it from row zero on, and all shards are handed out rightly. -/
structure ShardsSound (ops : List ShardOp) : Prop where
  tiled : ∀ jobName, ∃ n, Tiles 0 (spansOf (shardRun ops).shards jobName) n
  granted : ∀ before o after x, ops = before ++ o :: after →
    (shardRun before).granted o = some x → GrantSound before o x

/-- The end of a new shard fits its column. -/
def ShardState.Fits (s : ShardState) (a : BeginArgs) : Prop :=
  openShard s.shards a.jobName s.clock = none → nextRow s.shards a.jobName + a.shardSize < 2 ^ 63

instance (s : ShardState) (a : BeginArgs) : Decidable (s.Fits a) :=
  inferInstanceAs (Decidable (_ → _))

/-- The condition on transactions: the rows fit into their columns, and nobody aborts a shard on
which another worker has a lease. -/
def ShardOpOk (s : ShardState) : ShardOp → Prop
  | .begin a => s.Fits a
  | .abort w x => ∀ l ∈ s.leases, l.shard = x → l.worker ≠ w → l.expires < s.clock
  | _ => True

instance (s : ShardState) : (o : ShardOp) → Decidable (ShardOpOk s o)
  | .begin _ => inferInstanceAs (Decidable (ShardState.Fits _ _))
  | .abort .. => inferInstanceAs (Decidable (∀ l ∈ _, _ → _ → _))
  | .wait _ | .complete .. => .isTrue trivial

/-! ## The table under the transactions -/

section Table

variable {t t' : Table WorkShard} {jobName : String} {n : ℕ} {x : Shard} {r : WorkShard}

theorem is_iff : r.is x = true ↔ r.jobName = x.jobName ∧ r.startRow = stored 64 x.startRow ∧
    r.endRow = stored 64 x.endRow := decide_eq_true_iff

/-- Updates of shards leave their intervals. -/
theorem spansOf_update {p : WorkShard → Bool} {f : WorkShard → WorkShard}
    (hf : ∀ r, (f r).jobName = r.jobName ∧ (f r).startRow = r.startRow ∧ (f r).endRow = r.endRow)
    (hk : ∀ r, Record.key (f r) = Record.key r) (hs : ∀ r, Record.serial (f r) = Record.serial r)
    (jobName : String) : spansOf (t.update p f hk hs) jobName = spansOf t jobName := by
  refine Table.select_update t p hk hs (fun r => ?_) fun r => ?_
  · rw [(hf r).1]
  · rw [(hf r).2.1, (hf r).2.2]

theorem spansOf_insert? {mk : ℕ → WorkShard} {hs : ∀ n, Record.serial (mk n) = n}
    (h : t.insert? mk hs = some t') (jobName : String) :
    spansOf t' jobName = spansOf t jobName ++ if (mk t.nextSerial).jobName = jobName then
      [((mk t.nextSerial).startRow, (mk t.nextSerial).endRow)] else [] := by
  refine (Table.select_insert? h _ _).trans ?_
  simp only [decide_eq_true_eq]
  rfl

theorem mem_spansOf (hr : r ∈ t.rows) (hj : r.jobName = jobName) :
    (r.startRow, r.endRow) ∈ spansOf t jobName :=
  List.mem_map.mpr ⟨r, List.mem_filter.mpr ⟨hr, decide_eq_true hj⟩, rfl⟩

/-- The next shard starts where the tiling ends. -/
theorem nextRow_eq (h : Tiles 0 (spansOf t jobName) n) (hn : n < 2 ^ 63) :
    nextRow t jobName = n := by
  have hends : (t.rows.filter fun r => r.jobName = jobName).map WorkShard.endRow =
      (spansOf t jobName).map Prod.snd := by
    unfold spansOf
    rw [List.map_map]
    rfl
  unfold nextRow
  rw [hends]
  by_cases hne : spansOf t jobName = []
  · rw [hne] at h ⊢
    cases n with
    | zero => rfl
    | succ n => cases h
  · rw [h.max?_ends hne]
    exact loaded_of_lt hn

/-- A row of a tiled job is the shard that is read from it. -/
theorem is_loaded (h : Tiles 0 (spansOf t jobName) n) (hn : n < 2 ^ 63) (hr : r ∈ t.rows)
    (hj : r.jobName = jobName) :
    r.is r.shard = true := by
  obtain ⟨h₀, h₁, h₂⟩ := h.bounds (mem_spansOf hr hj)
  have hcol : ∀ z : ℤ, 0 ≤ z → z ≤ n → z = stored 64 (loaded 64 z) := by
    intro z hz hzn
    obtain ⟨k, rfl⟩ := Int.eq_ofNat_of_zero_le hz
    have hk : k < 2 ^ 63 := by omega
    rw [loaded_of_lt hk, stored_of_lt hk]
  exact is_iff.mpr ⟨rfl, hcol _ h₀ (h₁.trans h₂), hcol _ (h₀.trans h₁) h₂⟩

theorem mem_openShard {past : ℕ} (h : openShard t jobName past = some r) :
    r ∈ t.rows ∧ r.jobName = jobName ∧ r.completed = false ∧ r.lastAttempt < past := by
  have hr := List.mem_filter.mp (List.minOn?_mem h)
  simpa using hr

/-- A row is for one shard only. -/
theorem shard_eq_of_is {y : Shard} (hx : r.is x = true) (hy : r.is y = true) : x = y := by
  rw [is_iff] at hx hy
  have h₁ := hx.1.symm.trans hy.1
  have h₂ := stored_injective x.start_lt y.start_lt (hx.2.1.symm.trans hy.2.1)
  have h₃ := stored_injective x.end_lt y.end_lt (hx.2.2.symm.trans hy.2.2)
  cases x
  cases y
  cases h₁
  cases h₂
  cases h₃
  rfl

/-- Two rows for one shard are one row. -/
theorem eq_of_is {r' : WorkShard} (hr : r ∈ t.rows) (hr' : r' ∈ t.rows) (h : r.is x = true)
    (h' : r'.is x = true) : r' = r := by
  rw [is_iff] at h h'
  exact Table.eq_of_key hr' hr (Prod.ext (h'.1.trans h.1.symm) (h'.2.1.trans h.2.1.symm))

end Table

/-! ## Steps -/

/-- The shards of every job tile it from row zero on, and their rows fit the columns. -/
def ShardsTiled (t : Table WorkShard) : Prop :=
  ∀ jobName, ∃ n : ℕ, n < 2 ^ 63 ∧ Tiles 0 (spansOf t jobName) n

/-- What holds between the table, the time and the leases. -/
structure ShardInv (s : ShardState) : Prop where
  tiled : ShardsTiled s.shards
  leased : ∀ l ∈ s.leases, ∃ r ∈ s.shards.rows, r.is l.shard = true ∧
    (s.clock ≤ l.expires → l.expires ≤ r.lastAttempt)

theorem shardInv_empty : ShardInv ShardState.empty :=
  ⟨fun _ => ⟨0, by decide, .nil _⟩, fun _ h => nomatch h⟩

section Steps

variable {s : ShardState} {a : BeginArgs} {t : Table WorkShard} {x : Shard}

/-- **What `TEH_PG_begin_shard` hands out**: an open shard whose lease has expired, or the next
shard of the job. -/
theorem beginShard_cases (hi : ShardsTiled s.shards) (ho : s.Fits a)
    (h : s.beginShard a = some (t, x)) :
    (∃ r ∈ s.shards.rows, r.is x = true ∧ r.completed = false ∧ r.lastAttempt < s.clock ∧
      t = s.shards.update (·.is x) fun r => { r with lastAttempt := s.leaseEnd a }) ∨
    ∃ n : ℕ, Tiles 0 (spansOf s.shards a.jobName) n ∧ n + a.shardSize < 2 ^ 63 ∧
      x.jobName = a.jobName ∧ x.startRow = n ∧ x.endRow = n + a.shardSize ∧
      s.shards.insert? (fun i => ⟨i, s.leaseEnd a, n, (n + a.shardSize : ℕ), false, a.jobName⟩) =
        some t := by
  obtain ⟨n, hn, htiles⟩ := hi a.jobName
  obtain ⟨ht, rfl⟩ := beginShard_eq_some h
  cases hopen : openShard s.shards a.jobName s.clock with
  | some r =>
    refine Or.inl ?_
    obtain ⟨hr, hj, hc, hl⟩ := mem_openShard hopen
    have his := is_loaded htiles hn hr hj
    simp only [chooseShard, hopen, writeShard] at ht ⊢
    rw [if_pos (List.any_eq_true.mpr ⟨r, hr, his⟩)] at ht
    exact ⟨r, hr, his, hc, hl, (Option.some.inj ht).symm⟩
  | none =>
    refine Or.inr ⟨n, htiles, ?_⟩
    have hlt := ho hopen
    rw [nextRow_eq htiles hn] at hlt
    have hmod : (n + a.shardSize) % 2 ^ 64 = n + a.shardSize := Nat.mod_eq_of_lt (by omega)
    have hs : stored 64 n = n := stored_of_lt hn
    have he : stored 64 (n + a.shardSize) = (n + a.shardSize : ℕ) := stored_of_lt hlt
    have hrow : (nextShard s.shards a.jobName a.shardSize).startRow = n := nextRow_eq htiles hn
    have hend : (nextShard s.shards a.jobName a.shardSize).endRow = n + a.shardSize := by
      simp only [nextShard, nextRow_eq htiles hn, hmod]
    simp only [chooseShard, hopen, writeShard, Choice.shard] at ht ⊢
    rw [hrow, hend, hs, he] at ht
    exact ⟨hlt, rfl, hrow, hend, ht⟩

/-- Shards of some size are not empty. -/
theorem beginShard_nonempty (hi : ShardsTiled s.shards)
    (hne : ∀ r ∈ s.shards.rows, r.startRow < r.endRow) (ho : s.Fits a) (hsize : 0 < a.shardSize)
    (h : s.beginShard a = some (t, x)) : x.startRow < x.endRow ∧ x.endRow < 2 ^ 63 := by
  obtain ⟨r, hr, hx, -, -, -⟩ | ⟨n, -, hlt, -, hs, he, -⟩ := beginShard_cases hi ho h
  · obtain ⟨hj, h₁, h₂⟩ := is_iff.mp hx
    obtain ⟨n, hn, htiles⟩ := hi r.jobName
    obtain ⟨h₀, -, hrn⟩ := htiles.bounds (mem_spansOf hr rfl)
    have hlt := hne r hr
    have hxs := x.start_lt
    have hxe := x.end_lt
    unfold stored at h₁ h₂
    split_ifs at h₁ h₂ <;> omega
  · omega

/-- A write to shards that leaves their intervals keeps the tilings. -/
theorem ShardsTiled.update (hi : ShardsTiled t) {p : WorkShard → Bool} {f : WorkShard → WorkShard}
    (hf : ∀ r, (f r).jobName = r.jobName ∧ (f r).startRow = r.startRow ∧ (f r).endRow = r.endRow)
    (hk : ∀ r, Record.key (f r) = Record.key r) (hs : ∀ r, Record.serial (f r) = Record.serial r) :
    ShardsTiled (t.update p f hk hs) := by
  intro jobName
  rw [spansOf_update hf]
  exact hi jobName

theorem ShardsTiled.begin (hi : ShardsTiled s.shards) (ho : s.Fits a)
    (h : s.beginShard a = some (t, x)) : ShardsTiled t := by
  obtain ⟨r, hr, hx, -, hl, rfl⟩ | ⟨n, htiles, hlt, -, -, -, ht⟩ := beginShard_cases hi ho h
  · exact hi.update (f := fun r => { r with lastAttempt := s.leaseEnd a })
      (fun _ => ⟨rfl, rfl, rfl⟩) (fun _ => rfl) fun _ => rfl
  · intro jobName
    obtain ⟨m, hm, htm⟩ := hi jobName
    simp only [spansOf_insert? ht]
    split_ifs with e
    · subst e
      exact ⟨n + a.shardSize, hlt, htiles.snoc (by omega)⟩
    · rw [List.append_nil]
      exact ⟨m, hm, htm⟩

theorem ShardsTiled.complete (hi : ShardsTiled t) (x : Shard) : ShardsTiled (completeShard t x) :=
  hi.update (f := fun r => { r with completed := true }) (fun _ => ⟨rfl, rfl, rfl⟩) (fun _ => rfl)
    fun _ => rfl

theorem ShardsTiled.abort (hi : ShardsTiled t) (x : Shard) : ShardsTiled (abortShard t x) :=
  hi.update (f := fun r => { r with lastAttempt := 0 }) (fun _ => ⟨rfl, rfl, rfl⟩) (fun _ => rfl)
    fun _ => rfl

/-- The row of a lease after an update of one shard. -/
theorem leased_update {f : WorkShard → WorkShard}
    (hf : ∀ r, (f r).jobName = r.jobName ∧ (f r).startRow = r.startRow ∧ (f r).endRow = r.endRow)
    (hk : ∀ r, Record.key (f r) = Record.key r) (hs : ∀ r, Record.serial (f r) = Record.serial r)
    {r : WorkShard} (hr : r ∈ s.shards.rows) {y : Shard} (hy : r.is y = true) :
    ∃ r' ∈ (s.shards.update (·.is x) f hk hs).rows, r'.is y = true ∧
      r' = if r.is x then f r else r := by
  refine ⟨_, List.mem_map_of_mem hr, ?_, rfl⟩
  split_ifs
  · rw [is_iff] at hy ⊢
    rw [(hf r).1, (hf r).2.1, (hf r).2.2]
    exact hy
  · exact hy

theorem ShardInv.begin (hi : ShardInv s) (ho : s.Fits a)
    (h : s.beginShard a = some (t, x)) : ShardInv
      { clock := s.clock + a.elapsed, shards := t, leases := ⟨a.worker, x, s.leaseEnd a⟩ :: s.leases } := by
  obtain ⟨r, hr, hx, -, hl, rfl⟩ | ⟨n, htiles, hlt, hj, hxs, hxe, ht⟩ :=
    beginShard_cases hi.tiled ho h
  · have hrow : ∀ {q y}, q ∈ s.shards.rows → q.is y = true → _ := fun hq hy =>
      leased_update (x := x) (f := fun r => { r with lastAttempt := s.leaseEnd a })
        (fun _ => ⟨rfl, rfl, rfl⟩) (fun _ => rfl) (fun _ => rfl) hq hy
    refine ⟨hi.tiled.begin ho h, fun l hmem => ?_⟩
    rcases List.mem_cons.mp hmem with rfl | hmem
    · obtain ⟨r', hr', hy, e⟩ := hrow hr hx
      rw [if_pos hx] at e
      exact ⟨r', hr', hy, fun _ => by rw [e]⟩
    · obtain ⟨q, hq, hqs, hqe⟩ := hi.leased l hmem
      obtain ⟨q', hq', hy, e⟩ := hrow hq hqs
      refine ⟨q', hq', hy, fun hle => ?_⟩
      simp only at hle
      have hqe := hqe (by omega)
      rw [e]
      split_ifs with hqx
      · have : q = r := eq_of_is hr hq hx hqx
        subst this
        simp only [ShardState.leaseEnd]
        omega
      · exact hqe
  · have hs : stored 64 n = n := stored_of_lt (show n < 2 ^ 63 by omega)
    have he : stored 64 (n + a.shardSize) = (n + a.shardSize : ℕ) := stored_of_lt hlt
    refine ⟨hi.tiled.begin ho h, fun l hmem => ?_⟩
    rcases List.mem_cons.mp hmem with rfl | hmem
    · exact ⟨_, (Table.mem_insert? ht).mpr (Or.inr rfl), is_iff.mpr
        ⟨hj.symm, by rw [hxs, hs], by rw [hxe, he]⟩, fun _ => le_rfl⟩
    · obtain ⟨q, hq, hqs, hqe⟩ := hi.leased l hmem
      refine ⟨q, (Table.mem_insert? ht).mpr (Or.inl hq), hqs, fun hle => hqe ?_⟩
      simp only at hle
      omega

/-- A worker that completes a shard leaves the leases of the others as they are. -/
theorem ShardInv.complete (hi : ShardInv s) (w : ℕ) : ShardInv (shardStep s (.complete w x)) := by
  refine ⟨hi.tiled.complete x, fun l hmem => ?_⟩
  obtain ⟨q, hq, hqs, hqe⟩ := hi.leased l (List.mem_filter.mp hmem).1
  obtain ⟨q', hq', hy, e⟩ := leased_update (x := x) (f := fun r => { r with completed := true })
    (fun _ => ⟨rfl, rfl, rfl⟩) (fun _ => rfl) (fun _ => rfl) hq hqs
  refine ⟨q', hq', hy, fun hle => ?_⟩
  rw [e]
  split_ifs
  · exact hqe hle
  · exact hqe hle

/-- A worker that aborts a shard on which nobody else has a lease does not free it for a second
worker. -/
theorem ShardInv.abort (hi : ShardInv s) {w : ℕ} (ho : ShardOpOk s (.abort w x)) :
    ShardInv (shardStep s (.abort w x)) := by
  refine ⟨hi.tiled.abort x, fun l hmem => ?_⟩
  obtain ⟨hl, hne⟩ := List.mem_filter.mp hmem
  obtain ⟨q, hq, hqs, hqe⟩ := hi.leased l hl
  obtain ⟨q', hq', hy, e⟩ := leased_update (x := x) (f := fun r => { r with lastAttempt := 0 })
    (fun _ => ⟨rfl, rfl, rfl⟩) (fun _ => rfl) (fun _ => rfl) hq hqs
  refine ⟨q', hq', hy, fun hle => ?_⟩
  rw [e]
  split_ifs with hqx
  · have hne : ¬ (l.worker = w ∧ l.shard = x) := of_decide_eq_true hne
    have e : l.shard = x := shard_eq_of_is hqs hqx
    have hexp : l.expires < s.clock := ho l hl e fun h => hne ⟨h, e⟩
    exact absurd hle (not_le.mpr hexp)
  · exact hqe hle

end Steps

/-- **Every admitted transaction keeps the tilings and the leases.** -/
theorem shardStep_inv {s : ShardState} {o : ShardOp} (ho : ShardOpOk s o) (hi : ShardInv s) :
    ShardInv (shardStep s o) := by
  -- time only lets leases expire
  have hwait : ∀ d, ShardInv { s with clock := s.clock + d } := fun d =>
    ⟨hi.tiled, fun l hl => by
      obtain ⟨r, hr, hs, he⟩ := hi.leased l hl
      exact ⟨r, hr, hs, fun hle => he ((Nat.le_add_right ..).trans hle)⟩⟩
  cases o with
  | wait d => exact hwait d
  | begin a =>
    cases h : s.beginShard a with
    | none =>
      rw [shardStep_begin_none h]
      exact hwait a.elapsed
    | some p =>
      rw [shardStep_begin_some h]
      exact hi.begin ho h
  | complete w x => exact hi.complete w
  | abort w x => exact hi.abort ho

theorem run_shardInv {ops : List ShardOp} (h : Admits shardStep ShardOpOk ShardState.empty ops) :
    ShardInv (shardRun ops) :=
  run_invariant (fun _ _ ho hi => shardStep_inv ho hi) h shardInv_empty

/-! ## Completed shards -/

theorem isCompleted_iff {s : ShardState} {x : Shard} :
    s.isCompleted x = true ↔ ∃ r ∈ s.shards.rows, r.is x = true ∧ r.completed = true := by
  simp [ShardState.isCompleted]

theorem isCompleted_update {t : Table WorkShard} {p : WorkShard → Bool} {f : WorkShard → WorkShard}
    {x : Shard} (hf : ∀ r, (f r).is x = r.is x ∧ (r.completed = true → (f r).completed = true))
    (hk : ∀ r, Record.key (f r) = Record.key r) (hs : ∀ r, Record.serial (f r) = Record.serial r)
    (h : ∃ r ∈ t.rows, r.is x = true ∧ r.completed = true) :
    ∃ r ∈ (t.update p f hk hs).rows, r.is x = true ∧ r.completed = true := by
  obtain ⟨r, hr, hx, hc⟩ := h
  refine ⟨_, List.mem_map_of_mem hr, ?_⟩
  split_ifs
  · exact ⟨(hf r).1.trans hx, (hf r).2 hc⟩
  · exact ⟨hx, hc⟩

/-- **A completed shard stays completed.** -/
theorem isCompleted_step {s : ShardState} {x : Shard} (o : ShardOp) (h : s.isCompleted x = true) :
    (shardStep s o).isCompleted x = true := by
  rw [isCompleted_iff] at h ⊢
  cases o with
  | wait => exact h
  | begin a =>
    cases hb : s.beginShard a with
    | none =>
      rw [shardStep_begin_none hb]
      exact h
    | some p =>
      rw [shardStep_begin_some hb]
      obtain ⟨ht, -⟩ := beginShard_eq_some hb
      generalize chooseShard s.shards a.jobName s.clock a.shardSize = c at ht
      cases c with
      | reclaim y =>
        simp only [writeShard] at ht
        split_ifs at ht
        rw [← Option.some.inj ht]
        exact isCompleted_update (f := fun r => { r with lastAttempt := s.leaseEnd a })
          (fun _ => ⟨rfl, fun h => h⟩) (fun _ => rfl) (fun _ => rfl) h
      | claim y =>
        simp only [writeShard] at ht
        obtain ⟨r, hr, hx⟩ := h
        exact ⟨r, (Table.mem_insert? ht).mpr (Or.inl hr), hx⟩
  | complete w y =>
    exact isCompleted_update (f := fun r => { r with completed := true }) (fun _ => ⟨rfl, fun _ => rfl⟩)
      (fun _ => rfl) (fun _ => rfl) h
  | abort w y =>
    exact isCompleted_update (f := fun r => { r with lastAttempt := 0 }) (fun _ => ⟨rfl, fun h => h⟩)
      (fun _ => rfl) (fun _ => rfl) h

theorem isCompleted_run {s : ShardState} {x : Shard} {ops : List ShardOp}
    (h : s.isCompleted x = true) : (run shardStep s ops).isCompleted x = true := by
  induction ops generalizing s with
  | nil => exact h
  | cons o ops ih => exact ih (isCompleted_step o h)

/-! ## Shards handed out -/

section Granted

variable {s : ShardState} {a : BeginArgs} {t : Table WorkShard} {x : Shard}

/-- **A shard that is handed out is neither completed nor leased**, and it is there afterwards. -/
theorem beginShard_sound (hi : ShardInv s) (ho : s.Fits a)
    (h : s.beginShard a = some (t, x)) :
    (t.rows.any fun r => r.is x && !r.completed) = true ∧ s.isCompleted x = false ∧
      ∀ l ∈ s.leases, l.shard = x → l.expires < s.clock := by
  obtain ⟨r, hr, hx, hc, hl, rfl⟩ | ⟨n, htiles, hlt, hj, hxs, hxe, ht⟩ :=
    beginShard_cases hi.tiled ho h
  · refine ⟨?_, ?_, fun l hmem e => ?_⟩
    · refine List.any_eq_true.mpr ⟨_, List.mem_map_of_mem hr, ?_⟩
      rw [if_pos hx]
      exact Bool.and_eq_true_iff.mpr ⟨hx, by simp [hc]⟩
    · by_contra hcomp
      obtain ⟨q, hq, hqx, hqc⟩ := isCompleted_iff.mp ((Bool.not_eq_false _).mp hcomp)
      rw [eq_of_is hr hq hx hqx, hc] at hqc
      cases hqc
    · obtain ⟨q, hq, hqs, hqe⟩ := hi.leased l hmem
      rw [e] at hqs
      rw [eq_of_is hr hq hx hqs] at hqe
      omega
  · have hs : stored 64 n = n := stored_of_lt (show n < 2 ^ 63 by omega)
    have he : stored 64 (n + a.shardSize) = (n + a.shardSize : ℕ) := stored_of_lt hlt
    -- the key is new, so no row of the table is for this shard
    have hnew : ∀ q ∈ s.shards.rows, q.is x = false := by
      intro q hq
      by_contra hqx
      obtain ⟨h₁, h₂, -⟩ := is_iff.mp ((Bool.not_eq_false _).mp hqx)
      rw [hxs, hs] at h₂
      exact Table.hasKey_eq_false.mp (Table.insert?_eq_some.mp ht).1 q hq (Prod.ext (h₁.trans hj) h₂)
    refine ⟨?_, ?_, fun l hmem e => ?_⟩
    · refine List.any_eq_true.mpr ⟨_, (Table.mem_insert? ht).mpr (Or.inr rfl), ?_⟩
      refine Bool.and_eq_true_iff.mpr ⟨is_iff.mpr ⟨hj.symm, ?_, ?_⟩, rfl⟩
      · rw [hxs, hs]
      · rw [hxe, he]
    · by_contra hcomp
      obtain ⟨q, hq, hqx, -⟩ := isCompleted_iff.mp ((Bool.not_eq_false _).mp hcomp)
      exact absurd (hqx.symm.trans (hnew q hq)) (by decide)
    · obtain ⟨q, hq, hqs, -⟩ := hi.leased l hmem
      exact absurd ((e ▸ hqs).symm.trans (hnew q hq)) (by decide)

end Granted

/-! ## Runs -/

/-- **Work shards tile the job** and are handed out rightly in every run of admitted
transactions. -/
theorem run_shards {ops : List ShardOp} (h : Admits shardStep ShardOpOk ShardState.empty ops) :
    ShardsSound ops where
  tiled jobName := by
    obtain ⟨n, -, hn⟩ := (run_shardInv h).tiled jobName
    exact ⟨n, hn⟩
  granted before o after x hops hx := by
    subst hops
    obtain ⟨ha, ho⟩ := h.split
    cases o with
    | begin a =>
      obtain ⟨⟨t, y⟩, hb, rfl⟩ := Option.map_eq_some_iff.mp hx
      obtain ⟨hopen, hcomp, hexp⟩ := beginShard_sound (run_shardInv ha) ho hb
      refine ⟨?_, fun early late hsplit => ?_, hexp⟩
      · rw [shardStep_begin_some hb]
        exact hopen
      · by_contra hearly
        have hlate : (run shardStep (shardRun early) late).isCompleted (t, y).2 = true :=
          isCompleted_run ((Bool.not_eq_false _).mp hearly)
        unfold shardRun at hlate hcomp
        rw [← run_append, ← hsplit] at hlate
        exact absurd (hcomp.symm.trans hlate) (by decide)
    | wait | complete | abort => cases hx

/-! ## Sample runs -/

/-- Worker `w` begins a shard of ten rows for ten time units. -/
def beginTen (w : ℕ) : ShardOp := .begin ⟨w, "wirewatch", 10, 10, 0, 0⟩

/-- Two workers, one of them late; the shard of the late one is taken over and completed. -/
def takenOver : List ShardOp :=
  [.wait 1, beginTen 1, .wait 11, beginTen 2, .complete 2 ⟨"wirewatch", 0, 10, by decide, by decide⟩,
   beginTen 3]

theorem takenOver_shards :
    (shardRun takenOver).leases.map Lease.shard =
      [⟨"wirewatch", 10, 20, by decide, by decide⟩, ⟨"wirewatch", 0, 10, by decide, by decide⟩] ∧
      ShardsSound takenOver :=
  ⟨by decide +kernel, run_shards (by decide +kernel)⟩

/-- Worker 1 is late and worker 2 has taken its shard over when worker 1 shuts down and aborts it;
worker 3 gets the shard at once. -/
def stolenShard : List ShardOp :=
  [.wait 1, beginTen 1, .wait 11, beginTen 2, .abort 1 ⟨"wirewatch", 0, 10, by decide, by decide⟩,
   beginTen 3]

theorem not_shards_sound : ¬ ShardsSound stolenShard := by
  intro h
  have hg := h.granted (stolenShard.take 5) (beginTen 3) []
    ⟨"wirewatch", 0, 10, by decide, by decide⟩ rfl (by decide +kernel)
  exact absurd hg.expired (by decide +kernel)

end TalerExchange
