import TalerExchange.Audit.Booking

/-!
# A pass without a failing call

* `AuditRows.after`, `AuditRows.booked`, `AuditRows.advance`: the rows of a pass, what they book
  and where they leave the progress points;
* **`ends_tables`**: what the rows of a pass leave.
-/

namespace TalerExchange

/-! ## The rows -/

section Rows

variable (env : ReserveAuditEnv)

/-- The rows from the progress points on. -/
def AuditRows.after (p : ReserveProgress) (rows : AuditRows) : AuditRows where
  reservesIn := rowsFrom (fun r => r.rowid) p.reserveIn rows.reservesIn
  withdrawals := rowsFrom (fun r => r.rowid) p.reserveOut rows.withdrawals
  recoups := rowsFrom (fun r => r.rowid) p.reserveRecoup rows.recoups
  opens := rowsFrom (fun r => r.rowid) p.reserveOpen rows.opens
  closes := rowsFrom (fun r => r.rowid) p.reserveClose rows.closes
  decisions := rowsFrom (fun r => r.rowid) p.purseDecisions rows.decisions
  merges := rowsFrom (fun r => r.rowid) p.accountMerges rows.merges

/-- What the rows book. -/
def AuditRows.booked (rows : AuditRows) : List Booked :=
  rows.reservesIn.map (·.booked env) ++ rows.withdrawals.map (·.booked env) ++
    rows.recoups.map (·.booked env) ++ rows.opens.map (·.booked env) ++
    rows.closes.map (·.booked env) ++ rows.decisions.map (·.booked) ++ rows.merges.map (·.booked env)

/-- The progress point after the rows of a table. -/
def pointAfter {α : Type} (rowid : α → ℕ) (point : ℕ) (rows : List α) : ℕ :=
  rows.foldl (fun _ r => rowid r + 1) point

/-- The progress points after the rows. -/
def AuditRows.advance (rows : AuditRows) (p : ReserveProgress) : ReserveProgress where
  reserveIn := pointAfter (fun r => r.rowid) p.reserveIn rows.reservesIn
  reserveOut := pointAfter (fun r => r.rowid) p.reserveOut rows.withdrawals
  reserveRecoup := pointAfter (fun r => r.rowid) p.reserveRecoup rows.recoups
  reserveOpen := pointAfter (fun r => r.rowid) p.reserveOpen rows.opens
  reserveClose := pointAfter (fun r => r.rowid) p.reserveClose rows.closes
  purseDecisions := pointAfter (fun r => r.rowid) p.purseDecisions rows.decisions
  accountMerges := pointAfter (fun r => r.rowid) p.accountMerges rows.merges
  historyRequests := p.historyRequests

/-- No row on which the process dies: no close that was requested, no decision without a merge. -/
structure AuditRows.Processable (rows : AuditRows) : Prop where
  closes : ∀ row ∈ rows.closes, row.closeRequestRow = 0
  decisions : ∀ row ∈ rows.decisions, row.reservePub.isSome

end Rows

/-! ## The callbacks of a table -/

section Stream

variable {ρ : Type} {env : ReserveAuditEnv} {k : AuditCore} {xs : List Booked}

/-- Everything is booked. -/
def AuditCore.bookAll (k : AuditCore) (xs : List Booked) : AuditCore := xs.foldl AuditCore.book k

theorem AuditCore.bookAll_append (k : AuditCore) (xs ys : List Booked) :
    k.bookAll (xs ++ ys) = (k.bookAll xs).bookAll ys :=
  List.foldl_append ..

theorem AuditCore.Fine.bookAll (hk : k.Fine) (xs : List Booked) : (k.bookAll xs).Fine := by
  induction xs generalizing k with
  | nil => exact hk
  | cons x xs ih => exact ih (hk.book x)

theorem AuditCore.setup_progress (k : AuditCore) (r : ReservePub) (p : ReserveProgress) :
    AuditCore.setup { k with progress := p } r = { k.setup r with progress := p } := by
  unfold AuditCore.setup
  by_cases h : k.summaries.any (·.reservePub = r) = true
  · rw [if_pos h, if_pos h]
  · rw [if_neg h, if_neg h]
    rfl

theorem AuditCore.book_progress (k : AuditCore) (x : Booked) (p : ReserveProgress) :
    AuditCore.book { k with progress := p } x = { k.book x with progress := p } := by
  unfold AuditCore.book
  cases x.entry with
  | none => rfl
  | some e =>
    simp only [Option.elim_some, AuditCore.enter, AuditCore.setup_progress]
    rfl

@[simp] theorem AuditCore.progress_book (k : AuditCore) (x : Booked) :
    (k.book x).progress = k.progress := by
  have h := congrArg AuditCore.progress (AuditCore.book_progress k x k.progress)
  exact h

theorem AuditCore.bookAll_progress (k : AuditCore) (xs : List Booked) (p : ReserveProgress) :
    AuditCore.bookAll { k with progress := p } xs = { k.bookAll xs with progress := p } := by
  induction xs generalizing k with
  | nil => rfl
  | cons x xs ih =>
    rw [AuditCore.bookAll, List.foldl_cons, AuditCore.book_progress]
    exact ih _

@[simp] theorem AuditCore.progress_bookAll (k : AuditCore) (xs : List Booked) :
    (k.bookAll xs).progress = k.progress := by
  have h := congrArg AuditCore.progress (AuditCore.bookAll_progress k xs k.progress)
  exact h

/-- The callbacks of a table book its rows, and set its progress point. -/
theorem yields_iterate {f : ρ → Audit Bool} {booked : ρ → Booked} {rowid : ρ → ℕ}
    {set : ℕ → ReserveProgress → ReserveProgress} (hset : ∀ a b p, set b (set a p) = set b p)
    (rows : List ρ) (hf : ∀ row ∈ rows, ∀ k : AuditCore, k.Fine → Yields env (f row) k true
      ({ k with progress := set (rowid row + 1) k.progress }.book (booked row)))
    (point : ℕ) (k : AuditCore) (hk : k.Fine) (hp : set point k.progress = k.progress) :
    Yields env (iterate f rows) k () { k.bookAll (rows.map booked) with
      progress := set (pointAfter rowid point rows) k.progress } := by
  induction rows generalizing k point with
  | nil =>
    rw [pointAfter, List.foldl_nil, hp]
    exact yields_pure () k
  | cons row rows ih =>
    have hk' : AuditCore.Fine { k with progress := set (rowid row + 1) k.progress } :=
      ⟨hk.1, hk.2, hk.3⟩
    refine (hf row List.mem_cons_self k hk).bind ?_
    rw [if_pos rfl]
    have h := ih (fun r hr => hf r (List.mem_cons_of_mem _ hr)) (rowid row + 1) _
      (hk'.book (booked row)) (by rw [AuditCore.progress_book, hset])
    rw [AuditCore.progress_book, hset, AuditCore.book_progress, AuditCore.bookAll_progress] at h
    rw [AuditCore.book_progress]
    exact h

theorem yields_select {f : ρ → Audit Bool} {k l : AuditCore} {rows : List ρ}
    (h : Yields env (iterate f rows) k () l) :
    Yields env (select allOk rows f) k rows.length l := by
  refine (yields_call _ k).bind ?_
  rw [if_pos (Int.natCast_nonneg _)]
  exact h.bind (yields_pure _ _)

theorem yields_checkDb {qs : QueryCode} (hqs : 0 ≤ qs) (hk : k.Fine) :
    Yields env (checkDb qs) k none k := by
  refine ends_get_bind fun s _ hs => ?_
  subst hs
  rw [if_neg (not_lt.2 hqs), if_neg (show ¬ s.globalQs < 0 from not_lt.2 hk.global),
    if_neg (show ¬ s.rcQs < 0 from not_lt.2 hk.rc)]
  exact yields_pure _ _

theorem AuditCore.Fine.advance (hk : k.Fine) (xs : List Booked) (p : ReserveProgress) :
    AuditCore.Fine { k.bookAll xs with progress := p } :=
  ⟨(hk.bookAll xs).1, (hk.bookAll xs).2, (hk.bookAll xs).3⟩

/-- The callbacks of a table, and the check after them. -/
theorem ends_table {f : ρ → Audit Bool} {booked : ρ → Booked} {rowid : ρ → ℕ}
    (set : ℕ → ReserveProgress → ReserveProgress) (hset : ∀ a b p, set b (set a p) = set b p)
    {rows : List ρ} (hf : ∀ row ∈ rows, ∀ k : AuditCore, k.Fine → Yields env (f row) k true
      ({ k with progress := set (rowid row + 1) k.progress }.book (booked row)))
    {point : ℕ} (hk : k.Fine) (hp : set point k.progress = k.progress)
    {g : QueryCode → Option QueryCode → Audit QueryCode} {Q : QueryCode → AuditCore → Prop}
    (hg : Ends env (g rows.length none) { k.bookAll (rows.map booked) with
      progress := set (pointAfter rowid point rows) k.progress } Q) :
    Ends env (do
      let qs ← select allOk rows f
      let e ← checkDb qs
      g qs e) k Q := by
  refine (yields_select (yields_iterate hset rows hf point k hk hp)).bind ?_
  exact (yields_checkDb (Int.natCast_nonneg _) (hk.advance _ _)).bind hg

/-- The start of a pass. -/
def AuditCore.load (k : AuditCore) : AuditCore :=
  { k with
    globalQs := 0
    rcQs := 1
    progress := k.storedProgress.getD {}
    balances := k.storedBalances.getD {}
    summaries := [] }

theorem AuditCore.fine_load (hk : k.crashed = false) : k.load.Fine :=
  ⟨le_refl _, zero_le_one' ℤ, hk⟩

theorem audit_bind {α β : Type} (x : Audit α) (f : α → Audit β) (s : AuditRun) :
    (x >>= f) s = f (x s).1 (x s).2 := rfl

theorem loadProgress_ok (env : ReserveAuditEnv) (s : AuditRun) :
    (loadProgress allOk s).1 = none ∧ (loadProgress allOk s).2.RevokedBy env ∧
      (loadProgress allOk s).2.core = s.core.load := by
  refine ⟨rfl, fun h hh => ?_, rfl⟩
  have hf : (loadProgress allOk s).2.revoked h = false := rfl
  rw [hf] at hh
  exact nomatch hh

/-- The core after the rows of a pass. -/
def AuditCore.afterRows (env : ReserveAuditEnv) (rows : AuditRows) (k : AuditCore) : AuditCore :=
  { k.bookAll ((rows.after k.progress).booked env) with
    progress := (rows.after k.progress).advance k.progress }

/-- The end of an analysis. -/
def analyzeReserves.finish (env : ReserveAuditEnv) (qs : QueryCode) : Audit QueryCode := do
  verifyAll allOk env
  if let some e ← checkDb qs then return e
  storeProgress allOk

/-- A pass books its rows, and ends. -/
theorem ends_tables {rows : AuditRows} {s : AuditRun} (hk : s.core.load.Fine)
    (hrows : (rows.after s.core.load.progress).Processable) {Q : QueryCode → AuditCore → Prop}
    (hend : ∀ n : ℕ, Ends env (analyzeReserves.finish env n) (s.core.load.afterRows env rows) Q) :
    (analyzeReserves allOk env rows s).2.RevokedBy env ∧
      Q (analyzeReserves allOk env rows s).1 (analyzeReserves allOk env rows s).2.core := by
  obtain ⟨h1, h2, h3⟩ := loadProgress_ok env s
  unfold analyzeReserves
  rw [audit_bind, h1]
  generalize s.core.load = k at *
  refine (show Ends env _ k Q from ?_) _ h2 h3
  refine ends_get_bind fun t _ ht => ?_
  have hp : t.book.progress = k.progress := congrArg AuditCore.progress ht
  dsimp only
  rw [hp]
  refine ends_table (fun n p => { p with reserveIn := n }) (fun _ _ _ => rfl)
    (fun row _ k _ => yields_handleReserveIn env row k) hk rfl ?_
  refine ends_table (fun n p => { p with reserveOut := n }) (fun _ _ _ => rfl)
    (fun row _ k hk => yields_handleReserveOut env row hk) (hk.advance _ _) rfl ?_
  refine ends_table (fun n p => { p with reserveRecoup := n }) (fun _ _ _ => rfl)
    (fun row _ k hk => yields_handleRecoupByReserve env row hk)
    ((hk.advance _ _).advance _ _) rfl ?_
  refine ends_table (fun n p => { p with reserveOpen := n }) (fun _ _ _ => rfl)
    (fun row _ k _ => yields_handleReserveOpen env row k)
    (((hk.advance _ _).advance _ _).advance _ _) rfl ?_
  refine ends_table (fun n p => { p with reserveClose := n }) (fun _ _ _ => rfl)
    (fun row hr k hk => yields_handleReserveClosed env (hrows.closes row hr) hk)
    ((((hk.advance _ _).advance _ _).advance _ _).advance _ _) rfl ?_
  refine ends_table (fun n p => { p with purseDecisions := n }) (fun _ _ _ => rfl)
    (fun row hr k _ => yields_purseDecisionCb env (hrows.decisions row hr) k)
    (((((hk.advance _ _).advance _ _).advance _ _).advance _ _).advance _ _) rfl ?_
  refine ends_table (fun n p => { p with accountMerges := n }) (fun _ _ _ => rfl)
    (fun row _ k _ => yields_handleAccountMerged env row k)
    ((((((hk.advance _ _).advance _ _).advance _ _).advance _ _).advance _ _).advance _ _) rfl ?_
  have h := hend (rowsFrom (fun r => r.rowid) k.progress.accountMerges rows.merges).length
  simp only [AuditCore.afterRows, AuditRows.booked, AuditCore.bookAll_append] at h
  simp only [AuditCore.bookAll_progress]
  exact h

end Stream

end TalerExchange
