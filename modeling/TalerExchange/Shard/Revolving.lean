import TalerExchange.Shard.Work

/-!
# Revolving shards

`TEH_PG_begin_revolving_shard` and `TEH_PG_release_revolving_shard` on `revolving_work_shards`.
The rows are closed intervals; the space is `[0, shard_limit - 1]` and the same rows are handed out
again and again.

* `nextStart`, `lastRow`: the interval of the next shard, with the arithmetic of `uint32_t`;
* `RevolvingState`: the table, and the shards that the workers hold;
* **`run_revolving`**: the shards partition the space, and no worker gets what another one holds, as
  long as every new shard fits below the limit and no `UPDATE` of a reclaimed shard fails for good;
* `clippedShard`, `handedTwice`: a shard that is clipped to the limit itself, and one that two workers
  hold.
-/

namespace TalerExchange

open Sql Transition Tiling

/-! ## The table -/

/-- A row of `revolving_work_shards`. -/
structure RevolvingShard where
  shardSerialId : ℕ
  lastAttempt : ℕ
  startRow : ℤ
  endRow : ℤ
  active : Bool := false
  jobName : String
deriving DecidableEq, Repr

instance : Record RevolvingShard (String × ℤ) where
  key r := (r.jobName, r.startRow)
  serial := RevolvingShard.shardSerialId

/-- A shard as a worker knows it. -/
@[ext] structure RevolvingRange where
  jobName : String
  startRow : ℕ
  endRow : ℕ
  start_lt : startRow < 2 ^ 32 := by decide
  end_lt : endRow < 2 ^ 32 := by decide
deriving Repr

instance instDecidableEqRevolvingRange : DecidableEq RevolvingRange := fun _ _ =>
  decidable_of_iff _ RevolvingRange.ext_iff.symm

/-- The `WHERE` clause of the updates of one shard. -/
def RevolvingShard.is (r : RevolvingShard) (x : RevolvingRange) : Bool :=
  r.jobName = x.jobName ∧ r.startRow = stored 32 x.startRow ∧ r.endRow = stored 32 x.endRow

/-- `get_last_revolving_shard`: where the next shard starts. -/
def nextStart (t : Table RevolvingShard) (jobName : String) : ℕ :=
  match ((t.rows.filter fun r => r.jobName = jobName).map RevolvingShard.endRow).max? with
  | some e => (1 + loaded 32 e) % 2 ^ 32
  | none => 0

theorem nextStart_lt (t : Table RevolvingShard) (jobName : String) : nextStart t jobName < 2 ^ 32 := by
  unfold nextStart
  split
  · exact Nat.mod_lt _ (by decide)
  · decide

/-- `GNUNET_MIN (shard_limit, *start_row + shard_size - 1)`. -/
def lastRow (startRow shardSize shardLimit : ℕ) : ℕ :=
  min shardLimit ((startRow + shardSize + (2 ^ 32 - 1)) % 2 ^ 32)

theorem lastRow_lt (startRow shardSize shardLimit : ℕ) :
    lastRow startRow shardSize shardLimit < 2 ^ 32 :=
  (min_le_right _ _).trans_lt (Nat.mod_lt _ (by decide))

/-- `get_open_revolving_shard`. -/
def oldestInactive (t : Table RevolvingShard) (jobName : String) : Option RevolvingShard :=
  (t.rows.filter fun r => r.jobName = jobName ∧ !r.active).minOn? RevolvingShard.lastAttempt

/-- The shard in a row. -/
def RevolvingShard.range (r : RevolvingShard) : RevolvingRange where
  jobName := r.jobName
  startRow := loaded 32 r.startRow
  endRow := loaded 32 r.endRow
  start_lt := loaded_lt ..
  end_lt := loaded_lt ..

/-- The arguments of `TEH_PG_begin_revolving_shard`, and what happens to the call: how many of its
attempts are rolled back for a serialization failure, and whether `reclaim_revolving_shard` ends with
a hard error in the next one. -/
structure RevolvingArgs where
  worker : ℕ
  jobName : String
  shardSize : ℕ
  shardLimit : ℕ
  now : ℕ
  rolledBack : ℕ
  reclaimFails : Bool
deriving DecidableEq, Repr

/-- `create_revolving_shard` for the shard after the last one. -/
def createRevolving (t : Table RevolvingShard) (a : RevolvingArgs) :
    Option (Table RevolvingShard × RevolvingRange) :=
  let x : RevolvingRange :=
    { jobName := a.jobName
      startRow := nextStart t a.jobName
      endRow := lastRow (nextStart t a.jobName) a.shardSize a.shardLimit
      start_lt := nextStart_lt ..
      end_lt := lastRow_lt .. }
  (t.insert? fun i =>
    ⟨i, a.now, stored 32 x.startRow, stored 32 x.endRow, true, a.jobName⟩).map fun t => (t, x)

/-- `reclaim_revolving_shard`. After a hard error the transaction is rolled back, but what is returned
is the status of the select before. -/
def reclaimRevolving (t : Table RevolvingShard) (a : RevolvingArgs) (x : RevolvingRange) :
    Option (Table RevolvingShard × RevolvingRange) :=
  if a.reclaimFails then some (t, x)
  else if t.rows.any (·.is x) then
    some (t.update (·.is x) fun r => { r with lastAttempt := a.now, active := true }, x)
  else none

/-- One attempt of `TEH_PG_begin_revolving_shard`: the table and the shard handed out; `none` if it
fails. -/
def beginRevolvingAttempt (t : Table RevolvingShard) (a : RevolvingArgs) :
    Option (Table RevolvingShard × RevolvingRange) :=
  if nextStart t a.jobName < a.shardLimit then createRevolving t a
  else
    match oldestInactive t a.jobName with
    | none => none
    | some r => reclaimRevolving t a r.range

/-- `TEH_PG_begin_revolving_shard`, with its assertions and its three attempts. -/
def beginRevolving (t : Table RevolvingShard) (a : RevolvingArgs) :
    Option (Table RevolvingShard × RevolvingRange) :=
  if a.shardLimit ≤ 2 ^ 31 ∧ 0 < a.shardLimit ∧ 0 < a.shardSize then
    if a.rolledBack < 3 then beginRevolvingAttempt t a else none
  else none

/-- `TEH_PG_release_revolving_shard`. -/
def releaseRevolving (t : Table RevolvingShard) (x : RevolvingRange) : Table RevolvingShard :=
  t.update (·.is x) fun r => { r with active := false }

/-! ## Runs -/

/-- A shard that was handed to a worker. -/
structure Holding where
  worker : ℕ
  shard : RevolvingRange
deriving DecidableEq, Repr

/-- The table, and the shards that the workers were given and have not released. -/
structure RevolvingState where
  shards : Table RevolvingShard
  held : List Holding

/-- No shards at all. -/
def RevolvingState.empty : RevolvingState := ⟨Table.empty, []⟩

/-- The transactions of the workers. -/
inductive RevolvingOp
  | begin (a : RevolvingArgs)
  | release (worker : ℕ) (x : RevolvingRange)
deriving DecidableEq, Repr

/-- A worker no longer holds a shard. -/
def RevolvingState.returned (s : RevolvingState) (worker : ℕ) (x : RevolvingRange) : List Holding :=
  s.held.filter fun l => ¬ (l.worker = worker ∧ l.shard = x)

/-- One transaction. -/
def revolvingStep (s : RevolvingState) : RevolvingOp → RevolvingState
  | .begin a =>
    match beginRevolving s.shards a with
    | some (t, x) => ⟨t, ⟨a.worker, x⟩ :: s.held⟩
    | none => s
  | .release w x => ⟨releaseRevolving s.shards x, s.returned w x⟩

/-- The state after some transactions. -/
def revolvingRun (ops : List RevolvingOp) : RevolvingState :=
  run revolvingStep RevolvingState.empty ops

/-- The closed intervals of the shards of a job, written half-open, in the order of creation. -/
def revolvingSpans (t : Table RevolvingShard) (jobName : String) : List (ℤ × ℤ) :=
  (t.rows.filter fun r => r.jobName = jobName).map fun r => (r.startRow, r.endRow + 1)

/-- The shard is there and some worker is at it. -/
def isActive (t : Table RevolvingShard) (x : RevolvingRange) : Bool :=
  t.rows.any fun r => r.is x && r.active

/-- The shards of a job partition its space: they are intervals in `[0, shardLimit - 1]` that fit
their columns, they are disjoint and without gaps, and when there is no room for another they cover
the space. No shard is handed out that is active or that a worker holds. -/
structure RevolvingSound (shardLimit : String → ℕ) (ops : List RevolvingOp) : Prop where
  within : ∀ r ∈ (revolvingRun ops).shards.rows,
    0 ≤ r.startRow ∧ r.startRow ≤ r.endRow ∧ r.endRow < shardLimit r.jobName ∧ r.endRow < 2 ^ 31
  disjoint : ∀ jobName,
    (revolvingSpans (revolvingRun ops).shards jobName).Pairwise fun i j => i.2 ≤ j.1
  tiled : ∀ jobName, ∃ n, Tiles 0 (revolvingSpans (revolvingRun ops).shards jobName) n
  covered : ∀ jobName, shardLimit jobName ≤ nextStart (revolvingRun ops).shards jobName →
    ∀ k : ℤ, 0 ≤ k → k < shardLimit jobName →
      ∃ r ∈ (revolvingRun ops).shards.rows, r.jobName = jobName ∧ r.startRow ≤ k ∧ k ≤ r.endRow
  exclusive : ∀ before a after t x, ops = before ++ .begin a :: after →
    beginRevolving (revolvingRun before).shards a = some (t, x) →
      isActive (revolvingRun before).shards x = false ∧
        ∀ l ∈ (revolvingRun before).held, l.shard ≠ x

/-- The condition on transactions: the limit of a job is always the same, a new shard ends below it,
no `reclaim_revolving_shard` ends with a hard error, and nobody releases the shard of another. -/
def RevolvingOpOk (shardLimit : String → ℕ) (s : RevolvingState) : RevolvingOp → Prop
  | .begin a => a.shardLimit = shardLimit a.jobName ∧
      (nextStart s.shards a.jobName < a.shardLimit →
        nextStart s.shards a.jobName + a.shardSize ≤ a.shardLimit) ∧ a.reclaimFails = false
  | .release w x => ∀ l ∈ s.held, l.shard = x → l.worker = w

instance (shardLimit : String → ℕ) (s : RevolvingState) :
    (o : RevolvingOp) → Decidable (RevolvingOpOk shardLimit s o)
  | .begin _ => inferInstanceAs (Decidable (_ ∧ (_ → _) ∧ _))
  | .release .. => inferInstanceAs (Decidable (∀ l ∈ _, _ → _))

/-! ## Steps -/

/-- What holds of the shards of every job. -/
structure RevolvingInv (shardLimit : String → ℕ) (t : Table RevolvingShard) : Prop where
  tiled : ∀ jobName, ∃ n : ℕ, n ≤ shardLimit jobName ∧ n ≤ 2 ^ 31 ∧
    Tiles 0 (revolvingSpans t jobName) n
  nonempty : ∀ r ∈ t.rows, r.startRow ≤ r.endRow

theorem revolvingInv_empty (shardLimit : String → ℕ) : RevolvingInv shardLimit Table.empty :=
  ⟨fun _ => ⟨0, Nat.zero_le _, Nat.zero_le _, .nil _⟩, fun _ h => nomatch h⟩

section Steps

variable {shardLimit : String → ℕ} {s : RevolvingState} {t t' : Table RevolvingShard}
  {a : RevolvingArgs} {x : RevolvingRange} {r : RevolvingShard} {jobName : String} {n : ℕ}

theorem RevolvingShard.is_iff : r.is x = true ↔ r.jobName = x.jobName ∧
    r.startRow = stored 32 x.startRow ∧ r.endRow = stored 32 x.endRow := decide_eq_true_iff

theorem mem_revolvingSpans (hr : r ∈ t.rows) (hj : r.jobName = jobName) :
    (r.startRow, r.endRow + 1) ∈ revolvingSpans t jobName :=
  List.mem_map.mpr ⟨r, List.mem_filter.mpr ⟨hr, decide_eq_true hj⟩, rfl⟩

/-- The next shard starts where the tiling ends. -/
theorem nextStart_eq (hi : RevolvingInv shardLimit t) (hn : n ≤ 2 ^ 31)
    (h : Tiles 0 (revolvingSpans t jobName) n) : nextStart t jobName = n := by
  unfold nextStart
  by_cases hne : revolvingSpans t jobName = []
  · have hrows : (t.rows.filter fun r => r.jobName = jobName) = [] := List.map_eq_nil_iff.mp hne
    rw [hne] at h
    rw [hrows]
    cases n with
    | zero => rfl
    | succ n => cases h
  · -- the last interval ends at `n - 1`
    obtain ⟨i, hmem, hend⟩ := List.mem_map.mp (h.end_mem hne)
    obtain ⟨r, hr, rfl⟩ := List.mem_map.mp hmem
    have hlast : r.endRow = (n : ℤ) - 1 := by
      simp only at hend
      omega
    have hstart := (h.bounds hmem).1
    have hle := hi.nonempty r (List.mem_filter.mp hr).1
    have hmax : ((t.rows.filter fun r => r.jobName = jobName).map RevolvingShard.endRow).max? =
        some ((n : ℤ) - 1) := by
      refine List.max?_eq_some_iff.mpr ⟨List.mem_map.mpr ⟨r, hr, hlast⟩, fun e he => ?_⟩
      obtain ⟨q, hq, rfl⟩ := List.mem_map.mp he
      have hb := (h.bounds (List.mem_map_of_mem hq)).2.2
      simp only at hb
      omega
    rw [hmax]
    simp only at hstart
    obtain ⟨m, rfl⟩ : ∃ m : ℕ, n = m + 1 := ⟨n - 1, by omega⟩
    have hload : loaded 32 (((m + 1 : ℕ) : ℤ) - 1) = m := by
      have e : ((m + 1 : ℕ) : ℤ) - 1 = m := by omega
      rw [e]
      exact loaded_of_lt (show m < 2 ^ 31 by omega)
    simp only [hload]
    omega

theorem mem_oldestInactive (h : oldestInactive t jobName = some r) :
    r ∈ t.rows ∧ r.jobName = jobName ∧ r.active = false := by
  have hr := List.mem_filter.mp (List.minOn?_mem h)
  simpa using hr

/-- A row of a partitioned job is the shard that is read from it. -/
theorem is_range (hi : RevolvingInv shardLimit t) (hr : r ∈ t.rows) : r.is r.range = true := by
  obtain ⟨n, -, hn, htiles⟩ := hi.tiled r.jobName
  obtain ⟨h₀, -, h₂⟩ := htiles.bounds (mem_revolvingSpans hr rfl)
  have hle := hi.nonempty r hr
  simp only at h₀ h₂
  have hcol : ∀ z : ℤ, 0 ≤ z → z < 2 ^ 31 → z = stored 32 (loaded 32 z) := by
    intro z hz hz'
    obtain ⟨k, rfl⟩ := Int.eq_ofNat_of_zero_le hz
    have hk : k < 2 ^ 31 := by exact_mod_cast hz'
    rw [loaded_of_lt hk, stored_of_lt hk]
  exact RevolvingShard.is_iff.mpr ⟨rfl, hcol _ h₀ (by omega), hcol _ (by omega) (by omega)⟩

/-- **What `TEH_PG_begin_revolving_shard` hands out**: the next shard, or an inactive one. -/
theorem beginRevolving_cases (hi : RevolvingInv shardLimit s.shards)
    (ho : RevolvingOpOk shardLimit s (.begin a)) (h : beginRevolving s.shards a = some (t', x)) :
    (∃ n : ℕ, Tiles 0 (revolvingSpans s.shards a.jobName) n ∧ 0 < a.shardSize ∧
      n + a.shardSize ≤ shardLimit a.jobName ∧ shardLimit a.jobName ≤ 2 ^ 31 ∧
      x.jobName = a.jobName ∧ x.startRow = n ∧ x.endRow = n + a.shardSize - 1 ∧
      s.shards.insert? (fun i => ⟨i, a.now, n, (n + a.shardSize - 1 : ℕ), true, a.jobName⟩) =
        some t') ∨
    ∃ r ∈ s.shards.rows, r.is x = true ∧ r.active = false ∧
      t' = s.shards.update (·.is x) fun r => { r with lastAttempt := a.now, active := true } := by
  obtain ⟨n, hlim, hn, htiles⟩ := hi.tiled a.jobName
  have hnext := nextStart_eq hi hn htiles
  obtain ⟨hl, hfit, hok⟩ := ho
  unfold beginRevolving at h
  split_ifs at h with hargs
  unfold beginRevolvingAttempt at h
  rw [hnext] at hfit h
  split_ifs at h with hlt
  · refine Or.inl ⟨n, htiles, hargs.2.2, hl ▸ hfit hlt, hl ▸ hargs.1, ?_⟩
    have hfit := hfit hlt
    have hlast : lastRow n a.shardSize a.shardLimit = n + a.shardSize - 1 := by
      unfold lastRow
      omega
    have hs : stored 32 n = n := stored_of_lt (show n < 2 ^ 31 by omega)
    have he : stored 32 (n + a.shardSize - 1) = (n + a.shardSize - 1 : ℕ) :=
      stored_of_lt (show n + a.shardSize - 1 < 2 ^ 31 by omega)
    simp only [createRevolving, hnext, hlast, hs, he] at h
    obtain ⟨t'', ht, e⟩ := Option.map_eq_some_iff.mp h
    cases e
    exact ⟨rfl, rfl, rfl, ht⟩
  · refine Or.inr ?_
    cases hopen : oldestInactive s.shards a.jobName with
    | none =>
      rw [hopen] at h
      cases h
    | some r =>
      obtain ⟨hmem, -, hact⟩ := mem_oldestInactive hopen
      have his := is_range hi hmem
      simp only [hopen, reclaimRevolving, hok] at h
      rw [if_neg Bool.false_ne_true, if_pos (List.any_eq_true.mpr ⟨r, hmem, his⟩)] at h
      cases h
      exact ⟨r, hmem, his, hact, rfl⟩

theorem RevolvingInv.update (hi : RevolvingInv shardLimit t) {p : RevolvingShard → Bool}
    {f : RevolvingShard → RevolvingShard}
    (hf : ∀ r, (f r).jobName = r.jobName ∧ (f r).startRow = r.startRow ∧ (f r).endRow = r.endRow)
    (hk : ∀ r, Record.key (f r) = Record.key r) (hs : ∀ r, Record.serial (f r) = Record.serial r) :
    RevolvingInv shardLimit (t.update p f hk hs) := by
  refine ⟨fun jobName => ?_, fun r hr => ?_⟩
  · have hspans : revolvingSpans (t.update p f hk hs) jobName = revolvingSpans t jobName := by
      refine Table.select_update t p hk hs (fun r => ?_) fun r => ?_
      · rw [(hf r).1]
      · rw [(hf r).2.1, (hf r).2.2]
    rw [hspans]
    exact hi.tiled jobName
  · obtain ⟨q, hq, rfl⟩ := List.mem_map.mp hr
    have hle := hi.nonempty q hq
    split_ifs
    · rw [(hf q).2.1, (hf q).2.2]
      exact hle
    · exact hle

theorem RevolvingInv.begin (hi : RevolvingInv shardLimit s.shards)
    (ho : RevolvingOpOk shardLimit s (.begin a)) (h : beginRevolving s.shards a = some (t', x)) :
    RevolvingInv shardLimit t' := by
  obtain ⟨n, htiles, hpos, hfit, hlim, -, -, -, ht⟩ | ⟨r, -, -, -, rfl⟩ :=
    beginRevolving_cases hi ho h
  · refine ⟨fun jobName => ?_, fun r hr => ?_⟩
    · obtain ⟨m, hm, hm', htm⟩ := hi.tiled jobName
      have hspans := Table.select_insert? ht (fun r => decide (r.jobName = jobName))
        fun r => (r.startRow, r.endRow + 1)
      unfold revolvingSpans at htiles htm ⊢
      rw [hspans]
      by_cases e : a.jobName = jobName
      · subst e
        rw [if_pos (decide_eq_true rfl)]
        have hend : ((n + a.shardSize - 1 : ℕ) : ℤ) + 1 = (n + a.shardSize : ℕ) := by omega
        refine ⟨n + a.shardSize, hfit, hfit.trans hlim, ?_⟩
        simp only [hend]
        exact htiles.snoc (by omega)
      · rw [if_neg (by simpa using e), List.append_nil]
        exact ⟨m, hm, hm', htm⟩
    · rcases (Table.mem_insert? ht).mp hr with hr | rfl
      · exact hi.nonempty r hr
      · simp only
        omega
  · exact hi.update (f := fun r => { r with lastAttempt := a.now, active := true })
      (fun _ => ⟨rfl, rfl, rfl⟩) (fun _ => rfl) fun _ => rfl

/-- The row of a shard is that shard's row, and no other's. -/
theorem range_eq_of_is {y : RevolvingRange} (hx : r.is x = true) (hy : r.is y = true) : x = y := by
  rw [RevolvingShard.is_iff] at hx hy
  have h₁ := hx.1.symm.trans hy.1
  have h₂ := stored_injective x.start_lt y.start_lt (hx.2.1.symm.trans hy.2.1)
  have h₃ := stored_injective x.end_lt y.end_lt (hx.2.2.symm.trans hy.2.2)
  cases x
  cases y
  cases h₁
  cases h₂
  cases h₃
  rfl

/-- What a worker holds is active. -/
def HeldActive (s : RevolvingState) : Prop := ∀ l ∈ s.held, isActive s.shards l.shard = true

/-- A shard stays active unless an update makes it inactive. -/
theorem isActive_update {y : RevolvingRange} {p : RevolvingShard → Bool}
    {f : RevolvingShard → RevolvingShard}
    (hf : ∀ r, (f r).jobName = r.jobName ∧ (f r).startRow = r.startRow ∧ (f r).endRow = r.endRow)
    (hk : ∀ r, Record.key (f r) = Record.key r) (hs : ∀ r, Record.serial (f r) = Record.serial r)
    (hact : ∀ r ∈ t.rows, r.is y = true → p r = true → r.active = true → (f r).active = true)
    (h : isActive t y = true) : isActive (t.update p f hk hs) y = true := by
  obtain ⟨r, hr, hry⟩ := List.any_eq_true.mp h
  obtain ⟨hy, ha⟩ := Bool.and_eq_true_iff.mp hry
  refine List.any_eq_true.mpr ⟨_, List.mem_map_of_mem hr, ?_⟩
  split_ifs with hp
  · refine Bool.and_eq_true_iff.mpr ⟨?_, hact r hr hy hp ha⟩
    rw [RevolvingShard.is_iff] at hy ⊢
    rw [(hf r).1, (hf r).2.1, (hf r).2.2]
    exact hy
  · exact hry

theorem HeldActive.begin (hi : RevolvingInv shardLimit s.shards) (hh : HeldActive s)
    (ho : RevolvingOpOk shardLimit s (.begin a)) (h : beginRevolving s.shards a = some (t', x)) :
    HeldActive ⟨t', ⟨a.worker, x⟩ :: s.held⟩ := by
  intro l hl
  obtain ⟨n, -, hpos, hfit, hlim, hj, hxs, hxe, ht⟩ | ⟨r, hr, hx, -, rfl⟩ :=
    beginRevolving_cases hi ho h
  · rcases List.mem_cons.mp hl with rfl | hl
    · -- the new row
      refine List.any_eq_true.mpr ⟨_, (Table.mem_insert? ht).mpr (Or.inr rfl), ?_⟩
      refine Bool.and_eq_true_iff.mpr ⟨RevolvingShard.is_iff.mpr ⟨hj.symm, ?_, ?_⟩, rfl⟩
      · rw [hxs]
        exact (stored_of_lt (show n < 2 ^ 31 by omega)).symm
      · rw [hxe]
        exact (stored_of_lt (show n + a.shardSize - 1 < 2 ^ 31 by omega)).symm
    · obtain ⟨q, hq, hql⟩ := List.any_eq_true.mp (hh l hl)
      exact List.any_eq_true.mpr ⟨q, (Table.mem_insert? ht).mpr (Or.inl hq), hql⟩
  · rcases List.mem_cons.mp hl with rfl | hl
    · -- the row that is reclaimed
      refine List.any_eq_true.mpr ⟨_, List.mem_map_of_mem hr, ?_⟩
      rw [if_pos hx]
      exact Bool.and_eq_true_iff.mpr ⟨hx, rfl⟩
    · exact isActive_update (f := fun r => { r with lastAttempt := a.now, active := true })
        (fun _ => ⟨rfl, rfl, rfl⟩) (fun _ => rfl) (fun _ => rfl) (fun _ _ _ _ _ => rfl) (hh l hl)

theorem HeldActive.release {w : ℕ} (hh : HeldActive s)
    (ho : RevolvingOpOk shardLimit s (.release w x)) :
    HeldActive ⟨releaseRevolving s.shards x, s.returned w x⟩ := by
  intro l hl
  obtain ⟨hl, hne⟩ := List.mem_filter.mp hl
  refine isActive_update (f := fun r => { r with active := false }) (fun _ => ⟨rfl, rfl, rfl⟩)
    (fun _ => rfl) (fun _ => rfl) (fun r _ hy hx _ => ?_) (hh l hl)
  -- a shard that is still held is not the one released
  have e : l.shard = x := range_eq_of_is hy hx
  exact absurd ⟨ho l hl e, e⟩ (of_decide_eq_true hne)

/-- What holds of the shards of every job, and of those that the workers hold. -/
structure RevolvingStateInv (shardLimit : String → ℕ) (s : RevolvingState) : Prop where
  shards : RevolvingInv shardLimit s.shards
  held : HeldActive s

theorem revolvingStateInv_empty (shardLimit : String → ℕ) :
    RevolvingStateInv shardLimit RevolvingState.empty :=
  ⟨revolvingInv_empty shardLimit, fun _ h => nomatch h⟩

/-- **Every admitted transaction keeps the partition and what the workers hold.** -/
theorem revolvingStep_inv {o : RevolvingOp} (ho : RevolvingOpOk shardLimit s o)
    (hi : RevolvingStateInv shardLimit s) : RevolvingStateInv shardLimit (revolvingStep s o) := by
  cases o with
  | begin a =>
    simp only [revolvingStep]
    cases h : beginRevolving s.shards a with
    | none => exact hi
    | some p => exact ⟨hi.shards.begin ho h, hi.held.begin hi.shards ho h⟩
  | release w x =>
    exact ⟨hi.shards.update (f := fun r => { r with active := false }) (fun _ => ⟨rfl, rfl, rfl⟩)
      (fun _ => rfl) fun _ => rfl, hi.held.release ho⟩

/-- **No active shard is handed out.** -/
theorem beginRevolving_inactive (hi : RevolvingInv shardLimit s.shards)
    (ho : RevolvingOpOk shardLimit s (.begin a)) (h : beginRevolving s.shards a = some (t', x)) :
    isActive s.shards x = false := by
  refine List.any_eq_false.mpr fun q hq hqx => ?_
  rw [Bool.and_eq_true, RevolvingShard.is_iff] at hqx
  obtain ⟨⟨h₁, h₂, -⟩, hact⟩ := hqx
  obtain ⟨n, -, hpos, hfit, hlim, hj, hxs, -, ht⟩ | ⟨r, hr, hx, hinact, -⟩ :=
    beginRevolving_cases hi ho h
  · have hs : stored 32 n = n := stored_of_lt (show n < 2 ^ 31 by omega)
    rw [hxs, hs] at h₂
    exact Table.hasKey_eq_false.mp (Table.insert?_eq_some.mp ht).1 q hq
      (Prod.ext (h₁.trans hj) h₂)
  · obtain ⟨h₁', h₂', -⟩ := RevolvingShard.is_iff.mp hx
    have e : q = r := Table.eq_of_key hq hr (Prod.ext (h₁.trans h₁'.symm) (h₂.trans h₂'.symm))
    rw [e, hinact] at hact
    cases hact

end Steps

/-- **Revolving shards partition the space, and no two workers hold one**, in every run in which new
shards fit below the limit and reclaims do not fail for good. -/
theorem run_revolving {shardLimit : String → ℕ} {ops : List RevolvingOp}
    (h : Admits revolvingStep (RevolvingOpOk shardLimit) RevolvingState.empty ops) :
    RevolvingSound shardLimit ops := by
  have hinv : ∀ {ops}, Admits revolvingStep (RevolvingOpOk shardLimit) RevolvingState.empty ops →
      RevolvingStateInv shardLimit (revolvingRun ops) := fun h =>
    run_invariant (fun _ _ ho hi => revolvingStep_inv ho hi) h (revolvingStateInv_empty shardLimit)
  have hi := (hinv h).shards
  refine ⟨fun r hr => ?_, fun jobName => ?_, fun jobName => ?_, fun jobName hfull k hk hlt => ?_,
    fun before a after t x hops hb => ?_⟩
  · obtain ⟨n, hlim, hn, htiles⟩ := hi.tiled r.jobName
    obtain ⟨h₀, -, h₂⟩ := htiles.bounds (mem_revolvingSpans hr rfl)
    have hle := hi.nonempty r hr
    simp only at h₀ h₂
    exact ⟨h₀, hle, by omega, by omega⟩
  · obtain ⟨n, -, -, htiles⟩ := hi.tiled jobName
    exact htiles.pairwise
  · obtain ⟨n, -, -, htiles⟩ := hi.tiled jobName
    exact ⟨n, htiles⟩
  · obtain ⟨n, hlim, hn, htiles⟩ := hi.tiled jobName
    rw [nextStart_eq hi hn htiles] at hfull
    obtain ⟨i, hmem, h₁, h₂⟩ := htiles.covers hk (by omega)
    obtain ⟨r, hr, rfl⟩ := List.mem_map.mp hmem
    obtain ⟨hr, hj⟩ := List.mem_filter.mp hr
    simp only at h₁ h₂
    exact ⟨r, hr, of_decide_eq_true hj, h₁, by omega⟩
  · subst hops
    obtain ⟨ha, ho⟩ := h.split
    have hfree := beginRevolving_inactive (hinv ha).shards ho hb
    refine ⟨hfree, fun l hl e => ?_⟩
    have hact := (hinv ha).held l hl
    rw [e, hfree] at hact
    cases hact

/-! ## Sample runs -/

/-- A worker begins a shard of the aggregator's job. -/
def beginAggregator (worker shardSize shardLimit : ℕ) : RevolvingOp :=
  .begin ⟨worker, "aggregator", shardSize, shardLimit, 0, 0, false⟩

/-- Two shards of five rows for two workers, one of them released and handed to a third worker. -/
def twoOfFive : List RevolvingOp :=
  [beginAggregator 1 5 10, beginAggregator 2 5 10,
    .release 1 { jobName := "aggregator", startRow := 0, endRow := 4 }, beginAggregator 3 5 10]

theorem twoOfFive_revolving :
    (revolvingRun twoOfFive).shards.rows.map (fun r => (r.startRow, r.endRow)) = [(0, 4), (5, 9)] ∧
      RevolvingSound (fun _ => 10) twoOfFive :=
  ⟨by decide +kernel, run_revolving (by decide +kernel)⟩

/-- The second shard of seven rows does not fit below the limit of ten and ends at ten. -/
def clippedShard : List RevolvingOp := [beginAggregator 1 7 10, beginAggregator 2 7 10]

/-- The only shard is released and reclaimed with a hard error, and handed to a second worker. -/
def handedTwice : List RevolvingOp :=
  [beginAggregator 1 10 10, .release 1 { jobName := "aggregator", startRow := 0, endRow := 9 },
    .begin ⟨1, "aggregator", 10, 10, 0, 0, true⟩, beginAggregator 2 10 10]

theorem not_revolving_sound : ¬ RevolvingSound (fun _ => 10) clippedShard ∧
    ¬ RevolvingSound (fun _ => 10) handedTwice := by
  refine ⟨fun h => absurd h.within (by decide +kernel), fun h => ?_⟩
  have hheld := (h.exclusive (handedTwice.take 3) ⟨2, "aggregator", 10, 10, 0, 0, false⟩ [] _
    { jobName := "aggregator", startRow := 0, endRow := 9 } rfl rfl).2
  exact absurd hheld (by decide +kernel)

end TalerExchange
