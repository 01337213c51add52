import TalerExchange.Audit.Settle

/-!
# Incremental audits of the reserves

The rows of the exchange are audited in several passes. What the auditor remembers after the last one
is what a single pass leaves, except for the fees of reserves that were empty at the end of a pass: an
empty reserve is forgotten, with its fees. A pass in which a sum is out of range leaves nothing.

* `AuditPass`, `auditPass`, `runPasses`: passes over growing tables;
* `lastEmpty`: the last pass that a reserve was empty after; `keptFees`: the fees booked since then;
* `runPasses_books`: what the passes leave; **`incremental_faithful`**.
-/

namespace TalerExchange

/-! ## Passes over growing tables -/

def AuditRows.append (x y : AuditRows) : AuditRows where
  reservesIn := x.reservesIn ++ y.reservesIn
  withdrawals := x.withdrawals ++ y.withdrawals
  recoups := x.recoups ++ y.recoups
  opens := x.opens ++ y.opens
  closes := x.closes ++ y.closes
  decisions := x.decisions ++ y.decisions
  merges := x.merges ++ y.merges

/-- The serials of every table ascend. -/
structure AuditRows.Ascending (rows : AuditRows) : Prop where
  reservesIn : rows.reservesIn.Pairwise fun a b => a.rowid < b.rowid
  withdrawals : rows.withdrawals.Pairwise fun a b => a.rowid < b.rowid
  recoups : rows.recoups.Pairwise fun a b => a.rowid < b.rowid
  opens : rows.opens.Pairwise fun a b => a.rowid < b.rowid
  closes : rows.closes.Pairwise fun a b => a.rowid < b.rowid
  decisions : rows.decisions.Pairwise fun a b => a.rowid < b.rowid
  merges : rows.merges.Pairwise fun a b => a.rowid < b.rowid

/-- A pass: the balances of the exchange at the time, the time, the order in which the hash map is
walked through, and the rows that have been added. -/
structure AuditPass where
  reservesGet : ReservePub → Option ℕ
  now : Timestamp
  order : List ReservePub → List ReservePub
  order_perm : ∀ l, (order l).Perm l
  rows : AuditRows

/-- The exchange during a pass. -/
def ReserveAuditEnv.during (env : ReserveAuditEnv) (p : AuditPass) : ReserveAuditEnv :=
  { env with
    reservesGet := p.reservesGet
    now := p.now
    order := p.order
    order_perm := p.order_perm }

/-- All rows that have been added. -/
def allRows (ps : List AuditPass) : AuditRows :=
  ps.foldl (fun rows p => rows.append p.rows) {}

/-- One pass, in which no call fails; `none` if the process dies. -/
def auditPass (env : ReserveAuditEnv) (rows : AuditRows) (s : AuditRun) : Option AuditRun :=
  if (analyzeReserves allOk env rows s).2.dead then none else some (analyzeReserves allOk env rows s).2

/-- One pass after the other, over the rows that are there so far. -/
def runPasses (env : ReserveAuditEnv) : AuditRun → AuditRows → List AuditPass → Option AuditRun
  | s, _, [] => some s
  | s, seen, p :: ps =>
    (auditPass (env.during p) (seen.append p.rows) s).bind fun t =>
      runPasses env t (seen.append p.rows) ps

/-! ## What is remembered of a reserve -/

/-- The figures of a reserve that are added up from pass to pass. -/
inductive KeptFigure
  | reserveLoss
  | withdrawFee
  | purseFee
  | openFee
  | historyFee
deriving DecidableEq, Repr

def ReserveFeeBalance.kept (b : ReserveFeeBalance) : KeptFigure → ℕ
  | .reserveLoss => b.reserveLoss
  | .withdrawFee => b.withdrawFeeBalance
  | .purseFee => b.purseFeeBalance
  | .openFee => b.openFeeBalance
  | .historyFee => b.historyFeeBalance

section Remembered

variable {bs : List (List Booked)} {xs : List Booked} {r : ReservePub} {k l : AuditCore}

/-- The balance of a reserve after some passes. -/
def balanceAfter (bs : List (List Booked)) (r : ReservePub) : ℕ :=
  sumOf (fun e => e.credit) (entries bs.flatten) r - sumOf (fun e => e.debit) (entries bs.flatten) r

/-- The last pass that the reserve was empty after; before the first pass it is empty. -/
def lastEmpty (bs : List (List Booked)) (r : ReservePub) : ℕ :=
  Nat.findGreatest (fun n => balanceAfter (bs.take n) r = 0) bs.length

/-- What was booked for a reserve since it was empty. -/
def keptFees (bs : List (List Booked)) (f : KeptFigure) (r : ReservePub) : ℕ :=
  sumOf (fun e => e.fees.kept f) (entries (bs.drop (lastEmpty bs r)).flatten) r

/-- What is remembered of a reserve after some passes: nothing if it is empty. -/
structure Remembers (bs : List (List Booked)) (r : ReservePub) (info : Option ReserveInfo) : Prop where
  empty : balanceAfter bs r = 0 → info = none
  filled : balanceAfter bs r ≠ 0 → ∃ ri, info = some ri ∧
    ri.balance.reserveBalance = balanceAfter bs r ∧ ∀ f, ri.balance.kept f = keptFees bs f r

theorem entries_append (xs ys : List Booked) : entries (xs ++ ys) = entries xs ++ entries ys :=
  List.filterMap_append ..

theorem sumOf_snoc (f : ReserveEntry → ℕ) (bs : List (List Booked)) (xs : List Booked)
    (r : ReservePub) : sumOf f (entries (bs ++ [xs]).flatten) r =
      sumOf f (entries bs.flatten) r + sumOf f (entries xs) r := by
  rw [List.flatten_append, entries_append, sumOf_append, List.flatten_singleton]

theorem lastEmpty_snoc_of_ne (h : balanceAfter (bs ++ [xs]) r ≠ 0) :
    lastEmpty (bs ++ [xs]) r = lastEmpty bs r := by
  unfold lastEmpty
  rw [List.length_append, List.length_singleton, Nat.findGreatest_of_not]
  · have htake : ∀ n ≤ bs.length, (bs ++ [xs]).take n = bs.take n := fun n hn =>
      List.take_append_of_le_length hn
    obtain ⟨hle, h0, hgt⟩ := Nat.findGreatest_eq_iff.1
      (rfl : Nat.findGreatest (fun n => balanceAfter (bs.take n) r = 0) bs.length = _)
    refine Nat.findGreatest_eq_iff.2 ⟨hle, fun hne => ?_, fun n hn hnl => ?_⟩
    · rw [htake _ hle]
      exact h0 hne
    · rw [htake n hnl]
      exact hgt hn hnl
  · rwa [List.take_of_length_le (by simp)]

theorem keptFees_snoc_of_ne (f : KeptFigure) (h : balanceAfter (bs ++ [xs]) r ≠ 0) :
    keptFees (bs ++ [xs]) f r = keptFees bs f r + sumOf (fun e => e.fees.kept f) (entries xs) r := by
  have hle : lastEmpty bs r ≤ bs.length := Nat.findGreatest_le _
  unfold keptFees
  rw [lastEmpty_snoc_of_ne h, List.drop_append_of_le_length hle, sumOf_snoc]

theorem keptFees_of_zero (f : KeptFigure) (h : balanceAfter bs r = 0) : keptFees bs f r = 0 := by
  have hl : lastEmpty bs r = bs.length := Nat.findGreatest_eq (by rwa [List.take_length])
  unfold keptFees
  rw [hl, List.drop_length]
  rfl

/-- A figure that is added up by the summary of a reserve. -/
theorem kept_summaryOf (f : KeptFigure) (es : List ReserveEntry) :
    (k.summaryOf es r).currBalance.kept f = sumOf (fun e => e.fees.kept f) es r := by
  have hadd : ∀ (e : ReserveEntry) (rs : ReserveSummary),
      (e.addTo rs).currBalance.kept f = rs.currBalance.kept f + e.fees.kept f := by
    intro e rs
    cases f <;> exact add_comm ..
  rw [summaryOf_sum (fun rs => rs.currBalance.kept f) (fun e => e.fees.kept f) hadd]
  have h0 : (k.newSummary r).currBalance = {} := by
    unfold AuditCore.newSummary
    split <;> rfl
  rw [h0]
  cases f <;> exact zero_add _

theorem kept_plus (f : KeptFigure) (prev curr : ReserveFeeBalance) :
    (prev.plus curr).kept f = prev.kept f + curr.kept f := by
  cases f <;> rfl

theorem prevBalance_summaryOf (es : List ReserveEntry) :
    (k.summaryOf es r).prevBalance = ((k.reserves r).map fun ri => ri.balance).getD {} := by
  rw [summaryOf_const (fun rs => rs.prevBalance) fun _ _ => rfl]
  unfold AuditCore.newSummary
  cases k.reserves r <;> rfl

theorem Remembers.kept {info : Option ReserveInfo} {ri : ReserveInfo} (h : Remembers bs r info)
    (hri : info = some ri) (f : KeptFigure) :
    balanceAfter bs r ≠ 0 ∧ ri.balance.kept f = keptFees bs f r := by
  have h0 : balanceAfter bs r ≠ 0 := fun h0 => by
    rw [h.empty h0] at hri
    exact nomatch hri
  obtain ⟨rj, hrj, _, hf⟩ := h.filled h0
  rw [hri, Option.some_inj] at hrj
  exact ⟨h0, hrj ▸ hf f⟩

theorem keptFees_singleton (f : KeptFigure) (h : balanceAfter [xs] r ≠ 0) :
    keptFees [xs] f r = sumOf (fun e => e.fees.kept f) (entries xs) r := by
  have h' := @keptFees_snoc_of_ne [] xs r f h
  rw [List.nil_append] at h'
  rw [h', keptFees_of_zero f rfl, zero_add]

theorem Remembers.balanceOf (h : Remembers bs r (k.reserves r)) :
    k.balanceOf r = balanceAfter bs r := by
  unfold AuditCore.balanceOf
  by_cases h0 : balanceAfter bs r = 0
  · rw [h.empty h0, h0]
    rfl
  · obtain ⟨ri, hri, hb, _⟩ := h.filled h0
    rw [hri, Option.map_some, Option.getD_some, hb]

theorem kept_prev (h : Remembers bs r (k.reserves r)) (f : KeptFigure) :
    ReserveFeeBalance.kept (((k.reserves r).map fun ri => ri.balance).getD {}) f =
      keptFees bs f r := by
  by_cases h0 : balanceAfter bs r = 0
  · rw [h.empty h0, keptFees_of_zero f h0]
    cases f <;> rfl
  · obtain ⟨ri, hri, _, hf⟩ := h.filled h0
    rw [hri, Option.map_some, Option.getD_some, hf]

/-- No debit exceeds the credit, after the passes of the list. -/
def FundedAfter (bs : List (List Booked)) (r : ReservePub) : Prop :=
  sumOf (fun e => e.debit) (entries bs.flatten) r ≤ sumOf (fun e => e.credit) (entries bs.flatten) r

/-- **A pass** remembers what was booked since the reserve was empty. -/
theorem Remembers.pass (h : Remembers bs r (k.reserves r)) (h1 : FundedAfter bs r)
    (h2 : FundedAfter (bs ++ [xs]) r) (hp : Passed xs k l) :
    Remembers (bs ++ [xs]) r (l.reserves r) := by
  unfold FundedAfter at h1 h2
  rw [sumOf_snoc, sumOf_snoc] at h2
  have hleft : (k.summaryOf (entries xs) r).balanceLeft = balanceAfter (bs ++ [xs]) r := by
    unfold ReserveSummary.balanceLeft
    rw [totalIn_summaryOf, totalOut_summaryOf, reserveBalance_summaryOf, h.balanceOf]
    unfold balanceAfter
    rw [sumOf_snoc, sumOf_snoc]
    omega
  by_cases ht : ∃ e ∈ entries xs, e.reservePub = r
  · rw [hp.touched r ht]
    unfold ReserveSummary.remembered
    rw [hleft, hadRi_summaryOf]
    constructor
    · intro h0
      rw [if_pos h0]
      cases k.reserves r <;> rfl
    · intro h0
      have hkept : ∀ (f : KeptFigure) (b : ℕ), ((k.summaryOf (entries xs) r).prevBalance.plus
          { (k.summaryOf (entries xs) r).currBalance with reserveBalance := b }).kept f =
          keptFees (bs ++ [xs]) f r := by
        intro f b
        rw [kept_plus, prevBalance_summaryOf, kept_prev h f, keptFees_snoc_of_ne f h0,
          ← kept_summaryOf (k := k) f]
        cases f <;> rfl
      rw [if_neg h0]
      cases hr : k.reserves r with
      | none =>
        rw [if_neg (by simp)]
        exact ⟨_, rfl, rfl, fun f => hkept f _⟩
      | some ri =>
        rw [if_pos (by rfl)]
        refine ⟨_, rfl, rfl, fun f => (?_ : _ = _).trans (hkept f (balanceAfter (bs ++ [xs]) r))⟩
        cases f <;> rfl
  · have hsum : ∀ f : ReserveEntry → ℕ, sumOf f (entries xs) r = 0 := fun f =>
      sumOf_untouched f ht
    have hbal : balanceAfter (bs ++ [xs]) r = balanceAfter bs r := by
      unfold balanceAfter
      rw [sumOf_snoc, sumOf_snoc, hsum, hsum, add_zero, add_zero]
    rw [hp.untouched r ht]
    constructor
    · intro h0
      exact h.empty (hbal ▸ h0)
    · intro h0
      obtain ⟨ri, hri, hb, hf⟩ := h.filled (hbal ▸ h0)
      refine ⟨ri, hri, hb.trans hbal.symm, fun f => ?_⟩
      rw [hf, keptFees_snoc_of_ne f h0, hsum, add_zero]

end Remembered

/-! ## The rows of a pass -/

section Rows

variable {α : Type} {rowid : α → ℕ}

theorem pointAfter_append (point : ℕ) (x y : List α) :
    pointAfter rowid (pointAfter rowid point x) y = pointAfter rowid point (x ++ y) :=
  (List.foldl_append ..).symm

/-- The rows from the progress point on are the new ones. -/
theorem rowsFrom_append {x y : List α} (h : (x ++ y).Pairwise fun a b => rowid a < rowid b) :
    rowsFrom rowid (pointAfter rowid 0 x) (x ++ y) = y := by
  obtain ⟨hx, hy, hxy⟩ := List.pairwise_append.1 h
  have hseen : ∀ a ∈ x, rowid a < pointAfter rowid 0 x := by
    induction x using List.reverseRecOn with
    | nil => exact fun a ha => nomatch ha
    | append_singleton x b ih =>
      intro a ha
      have hp : pointAfter rowid 0 (x ++ [b]) = rowid b + 1 := by
        unfold pointAfter
        rw [List.foldl_append]
        rfl
      rw [hp]
      rcases List.mem_append.1 ha with ha | ha
      · exact Nat.lt_succ_of_lt ((List.pairwise_append.1 hx).2.2 a ha b (List.mem_singleton_self b))
      · rw [List.mem_singleton.1 ha]
        exact Nat.lt_succ_self _
  have hnew : ∀ b ∈ y, pointAfter rowid 0 x ≤ rowid b := by
    intro b hb
    rcases List.eq_nil_or_concat x with rfl | ⟨x', a, rfl⟩
    · exact Nat.zero_le _
    · have hp : pointAfter rowid 0 (x' ++ [a]) = rowid a + 1 := by
        unfold pointAfter
        rw [List.foldl_append]
        rfl
      rw [List.concat_eq_append] at hxy ⊢
      rw [hp]
      exact hxy a (by simp) b hb
  unfold rowsFrom
  rw [List.filter_append, List.filter_eq_nil_iff.2, List.filter_eq_self.2, List.nil_append]
  · exact fun b hb => decide_eq_true (hnew b hb)
  · intro a ha
    simpa using hseen a ha

/-- A pass books the new rows, and moves the progress points behind them. -/
theorem AuditRows.after_append {x y : AuditRows} (h : (x.append y).Ascending) :
    (x.append y).after (x.advance {}) = y := by
  unfold AuditRows.after AuditRows.append AuditRows.advance
  rw [rowsFrom_append h.1, rowsFrom_append h.2, rowsFrom_append h.3, rowsFrom_append h.4,
    rowsFrom_append h.5, rowsFrom_append h.6, rowsFrom_append h.7]

theorem AuditRows.advance_append (x y : AuditRows) :
    y.advance (x.advance {}) = (x.append y).advance {} := by
  unfold AuditRows.append AuditRows.advance
  simp only [pointAfter_append]

end Rows

/-! ## The passes -/

section Passes

variable {env : ReserveAuditEnv} {s : AuditRun} {bs : List (List Booked)} {seen : AuditRows}

theorem revenues_foldl (ys : List ReserveBalances) {b c : ReserveBalances}
    (h : b.revenues = c.revenues) :
    (ys.foldl ReserveBalances.plus b).revenues = (ys.foldl ReserveBalances.plus c).revenues := by
  induction ys generalizing b c with
  | nil => exact h
  | cons y ys ih =>
    refine ih ?_
    have hplus : ∀ x : ReserveBalances, (x.plus y).revenues = x.revenues.plus y.revenues :=
      fun _ => rfl
    rw [hplus, hplus, h]

/-- What the auditor has in its database after some passes. -/
structure BooksAfter (bs : List (List Booked)) (seen : AuditRows) (k : AuditCore) : Prop where
  progress : k.progress = seen.advance {}
  revenues : k.balances.revenues =
    ((bs.flatten.map (·.balances)).foldl ReserveBalances.plus {}).revenues
  balanced : k.Balanced
  remembered : ∀ r, Remembers bs r (k.reserves r)

/-- **One more pass.** -/
theorem BooksAfter.pass (h : BooksAfter bs seen s.core.load) (hs : s.crashed = false) (p : AuditPass)
    (hasc : (seen.append p.rows).Ascending) (hproc : p.rows.Processable)
    (h1 : ∀ r, FundedAfter bs r) (h2 : ∀ r, FundedAfter (bs ++ [p.rows.booked env]) r) :
    let run := analyzeReserves allOk (env.during p) (seen.append p.rows) s
    run.1 = 1 ∧ run.2.crashed = false ∧
      run.2.book.db.progress = some ((seen.append p.rows).advance {}) ∧
      run.2.book.db.balances.isSome ∧
      BooksAfter (bs ++ [p.rows.booked env]) (seen.append p.rows) run.2.core.load := by
  have hafter : (seen.append p.rows).after s.core.load.progress = p.rows := by
    rw [h.progress]
    exact AuditRows.after_append hasc
  have hrows : passRows (env.during p) (seen.append p.rows) s = p.rows.booked env := by
    unfold passRows
    rw [hafter]
    rfl
  have hsolvent : Solvent (entries (p.rows.booked env)) s.core.load := by
    intro r
    have h3 := h1 r
    have h4 := h2 r
    unfold FundedAfter at h3 h4
    rw [sumOf_snoc, sumOf_snoc] at h4
    rw [(h.remembered r).balanceOf]
    unfold balanceAfter
    omega
  have hok := @analyzeReserves_ok (env.during p) (seen.append p.rows) s hs
    (by rw [hafter]; exact hproc) h.balanced (by rw [hrows]; exact hsolvent)
  rw [hrows, hafter, h.progress, AuditRows.advance_append] at hok
  dsimp only
  generalize analyzeReserves allOk (env.during p) (seen.append p.rows) s = run at hok ⊢
  obtain ⟨ho1, ho2, ho3, ho4, hp, _⟩ := hok
  refine ⟨ho1, ho2, ho3, ho4, ⟨?_, ?_, hp.balanced, fun r => ?_⟩⟩
  · exact congrArg (fun x : Option ReserveProgress => x.getD {}) ho3
  · rw [hp.revenues, List.flatten_append, List.flatten_singleton, List.map_append, List.foldl_append]
    exact revenues_foldl _ h.revenues
  · exact (h.remembered r).pass (h1 r) (h2 r) hp

theorem AuditRows.append_assoc (x y z : AuditRows) :
    (x.append y).append z = x.append (y.append z) := by
  simp [AuditRows.append]

theorem foldl_append_rows (ps : List AuditPass) (x : AuditRows) :
    ps.foldl (fun rows p => rows.append p.rows) x = x.append (allRows ps) := by
  induction ps generalizing x with
  | nil => simp [allRows, AuditRows.append]
  | cons p ps ih =>
    have hall : allRows (p :: ps) = p.rows.append (allRows ps) := ih p.rows
    rw [List.foldl_cons, ih, hall, AuditRows.append_assoc]

theorem allRows_cons (p : AuditPass) (ps : List AuditPass) :
    allRows (p :: ps) = p.rows.append (allRows ps) :=
  foldl_append_rows ps p.rows

theorem AuditRows.Ascending.left {x y : AuditRows} (h : (x.append y).Ascending) :
    x.Ascending :=
  ⟨(List.pairwise_append.1 h.1).1, (List.pairwise_append.1 h.2).1, (List.pairwise_append.1 h.3).1,
    (List.pairwise_append.1 h.4).1, (List.pairwise_append.1 h.5).1, (List.pairwise_append.1 h.6).1,
    (List.pairwise_append.1 h.7).1⟩

theorem AuditRows.Processable.of_append {x y : AuditRows} (h : (x.append y).Processable) :
    x.Processable ∧ y.Processable :=
  ⟨⟨fun r hr => h.1 r (List.mem_append_left _ hr), fun r hr => h.2 r (List.mem_append_left _ hr)⟩,
    ⟨fun r hr => h.1 r (List.mem_append_right _ hr), fun r hr => h.2 r (List.mem_append_right _ hr)⟩⟩

theorem auditPass_eq_some {rows : AuditRows} {t : AuditRun} (h : auditPass env rows s = some t) :
    (analyzeReserves allOk env rows s).2 = t := by
  unfold auditPass at h
  split at h
  · exact nomatch h
  · exact Option.some.inj h

/-- **What the passes leave.** -/
theorem runPasses_books (ps : List AuditPass) (h : BooksAfter bs seen s.core.load)
    (hs : s.crashed = false) (hasc : (seen.append (allRows ps)).Ascending)
    (hproc : (allRows ps).Processable)
    (hfund : ∀ n r, FundedAfter (bs ++ (ps.map fun p => p.rows.booked env).take n) r)
    {t : AuditRun} (hrun : runPasses env s seen ps = some t) :
    BooksAfter (bs ++ ps.map fun p => p.rows.booked env) (seen.append (allRows ps)) t.core.load ∧
      (ps ≠ [] → t.book.db.progress = some ((seen.append (allRows ps)).advance {}) ∧
        t.book.db.balances.isSome) := by
  induction ps generalizing s bs seen with
  | nil =>
    refine ⟨?_, fun hne => absurd rfl hne⟩
    have happ : seen.append (allRows []) = seen := by simp [allRows, AuditRows.append]
    rw [happ, List.map_nil, List.append_nil]
    exact Option.some.inj hrun ▸ h
  | cons p ps ih =>
    rw [allRows_cons, ← AuditRows.append_assoc] at hasc ⊢
    rw [allRows_cons] at hproc
    have h0 := fun r => hfund 0 r
    have h1 := fun r => hfund 1 r
    simp only [List.take_zero, List.append_nil, List.map_cons, List.take_succ_cons] at h0 h1
    obtain ⟨u, hu, hrun⟩ := Option.bind_eq_some_iff.1 hrun
    have hpass := h.pass hs p hasc.left hproc.of_append.1 h0 h1
    dsimp only at hpass
    rw [auditPass_eq_some hu] at hpass
    obtain ⟨_, hc, hp, hb, hbooks⟩ := hpass
    obtain ⟨ih1, ih2⟩ := ih hbooks hc hasc hproc.of_append.2 (fun n r => by
      have := hfund (n + 1) r
      rwa [List.map_cons, List.take_succ_cons, List.append_cons] at this) hrun
    rw [List.map_cons, List.append_cons]
    refine ⟨ih1, fun _ => ?_⟩
    cases ps with
    | nil =>
      have happ : (seen.append p.rows).append (allRows []) = seen.append p.rows := by
        simp [allRows, AuditRows.append]
      rw [happ, ← Option.some.inj hrun]
      exact ⟨hp, hb⟩
    | cons q qs => exact ih2 (List.cons_ne_nil _ _)

/-! ## One pass or several -/

theorem booked_append (env : ReserveAuditEnv) (x y : AuditRows) :
    ((x.append y).booked env).Perm (x.booked env ++ y.booked env) := by
  rw [← Multiset.coe_eq_coe]
  simp only [AuditRows.booked, AuditRows.append, List.map_append, ← Multiset.coe_add]
  ac_rfl

/-- The same rows book the same, however they are split. -/
theorem booked_perm (env : ReserveAuditEnv) (ps : List AuditPass) :
    ((allRows ps).booked env).Perm (ps.map fun p => p.rows.booked env).flatten := by
  induction ps with
  | nil => exact List.Perm.refl _
  | cons p ps ih =>
    rw [allRows_cons, List.map_cons, List.flatten_cons]
    exact (booked_append env p.rows _).trans (ih.append_left _)

theorem sumOf_perm {xs ys : List Booked} (h : xs.Perm ys) (f : ReserveEntry → ℕ) (r : ReservePub) :
    sumOf f (entries xs) r = sumOf f (entries ys) r :=
  (((h.filterMap _).filter _).map f).sum_eq

theorem foldl_plus_perm {xs ys : List Booked} (h : xs.Perm ys) (b : ReserveBalances) :
    (xs.map (·.balances)).foldl ReserveBalances.plus b =
      (ys.map (·.balances)).foldl ReserveBalances.plus b := by
  refine (h.map _).foldl_eq' (fun x _ y _ z => ?_) b
  rw [ReserveBalances.plus_assoc, ReserveBalances.plus_assoc]
  congr 1
  simp [ReserveBalances.plus, add_comm]

theorem booksAfter_fresh (hdb : s.book.db = {}) : BooksAfter [] {} s.core.load := by
  obtain ⟨calls, failed, gqs, rqs, crashed, exited, dens, rev, b⟩ := s
  obtain ⟨p, bal, sums, db⟩ := b
  dsimp only at hdb
  subst hdb
  exact ⟨rfl, rfl, ⟨∅, fun _ _ => rfl, rfl⟩, fun _ => ⟨fun _ => rfl, fun h => absurd rfl h⟩⟩

/-- A way of splitting the rows into passes, and a single pass over all rows: no reserve has more debits
than credits after a pass. -/
structure AuditSplit (env : ReserveAuditEnv) (s : AuditRun) (ps : List AuditPass) (full : AuditPass) :
    Prop where
  alive : s.crashed = false
  fresh : s.book.db = {}
  ne : ps ≠ []
  rows : full.rows = allRows ps
  ascending : (allRows ps).Ascending
  processable : (allRows ps).Processable
  funded : ∀ n r, FundedAfter ((ps.map fun p => p.rows.booked env).take n) r

/-- Passes whose rows are about one reserve. -/
theorem funded_of_reserve {ps : List AuditPass} {r : ReservePub}
    (hall : ∀ e ∈ entries (ps.map fun p => p.rows.booked env).flatten, e.reservePub = r)
    (h : ∀ n ≤ ps.length, FundedAfter ((ps.map fun p => p.rows.booked env).take n) r) (n : ℕ)
    (r' : ReservePub) : FundedAfter ((ps.map fun p => p.rows.booked env).take n) r' := by
  by_cases hr : r' = r
  · subst hr
    rcases Nat.le_total n ps.length with hn | hn
    · exact h n hn
    · rw [List.take_of_length_le (by rwa [List.length_map]),
        ← List.take_length (l := ps.map fun p => p.rows.booked env), List.length_map]
      exact h ps.length le_rfl
  · unfold FundedAfter
    rw [sumOf_untouched]
    · exact Nat.zero_le _
    · rintro ⟨e, he, rfl⟩
      obtain ⟨x, hx, hxe⟩ := List.mem_filterMap.1 he
      obtain ⟨ys, hys, hx⟩ := List.mem_flatten.1 hx
      exact hr (hall e (List.mem_filterMap.2
        ⟨x, List.mem_flatten.2 ⟨ys, List.mem_of_mem_take hys, hx⟩, hxe⟩))

end Passes

/-! ## A reserve that is emptied and filled again -/

namespace Emptied

/-- Coins of 9 with a withdraw fee of 1; nothing else. -/
def env : ReserveAuditEnv where
  denomination _ := some ⟨0, 100, 9, 1⟩
  revocation _ := none
  closingFee _ _ := none
  reservesGet _ := none
  withdrawVerify _ := true
  recoupVerify _ := true
  openVerify _ := true
  mergeVerify _ := true
  idleReserveExpirationTime := 1000
  closingGracePeriod := 0
  internalChecks := false
  now := 0
  order l := l
  order_perm _ := List.Perm.refl _

def pass (rows : AuditRows) : AuditPass where
  reservesGet _ := none
  now := 0
  order l := l
  order_perm _ := List.Perm.refl _
  rows := rows

/-- A transfer of 10 is withdrawn before the first pass, 5 come in before the second one. -/
def passes : List AuditPass :=
  [pass { reservesIn := [⟨1, 7, 10, 0, 0⟩], withdrawals := [⟨1, 0, 0, 7, 0, 0, 10⟩] },
    pass { reservesIn := [⟨2, 7, 5, 0, 0⟩] }]

/-- The largest amount. -/
def largest : ℕ := 2 ^ 52 * 100000000

/-- The largest amount is paid for opening the reserve before the first pass, and comes in again by a
purse before the second one. -/
def largestTwice : List AuditPass :=
  [pass { reservesIn := [⟨1, 7, largest, 0, 0⟩], opens := [⟨1, largest, 0, 0, 0, 7, 0⟩] },
    pass { decisions := [⟨1, 3, some 7, largest⟩] }]

def start : AuditRun where
  book := { db := {} }

theorem passes_split : AuditSplit env start passes (pass (allRows passes)) where
  alive := rfl
  fresh := rfl
  ne := List.cons_ne_nil _ _
  rows := rfl
  ascending := by constructor <;> decide
  processable := by constructor <;> decide
  funded := funded_of_reserve (r := 7) (by decide +kernel) (by unfold FundedAfter; decide +kernel)

theorem largestTwice_split : AuditSplit env start largestTwice (pass (allRows largestTwice)) where
  alive := rfl
  fresh := rfl
  ne := List.cons_ne_nil _ _
  rows := rfl
  ascending := by constructor <;> decide
  processable := by constructor <;> decide
  funded := funded_of_reserve (r := 7) (by decide +kernel) (by unfold FundedAfter; decide +kernel)

/-- What the passes, and a single pass, remember of the reserve. -/
theorem passes_remember :
    (runPasses env start {} passes).map (fun s => (s.book.db.reserves 7).map (·.balance)) =
        some (some { reserveBalance := 5 }) ∧
      (runPasses env start {} [pass (allRows passes)]).map
          (fun s => (s.book.db.reserves 7).map (·.balance)) =
        some (some { reserveBalance := 5, withdrawFeeBalance := 1 }) := by
  decide +kernel

/-- The passes live, a single pass dies. -/
theorem largestTwice_dies :
    (runPasses env start {} largestTwice).isSome = true ∧
      (runPasses env start {} [pass (allRows largestTwice)]).isSome = false := by
  decide +kernel

end Emptied

end TalerExchange
