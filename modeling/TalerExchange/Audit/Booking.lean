import TalerExchange.Audit.Reserves

/-!
# What the reserve auditor books

If no call fails, every callback of `analyze_reserves` books an entry for a reserve and adds to the
global balances.

* `ReserveEntry`, `Booked`: what a row books; `ReserveInRow.booked`, …;
* `AuditCore`: the process without its calls, its caches and the reports about single rows;
* `yields_handleReserveIn`, …: a callback books its row.
-/

namespace TalerExchange

/-- No call fails. -/
def allOk : CallKind → ℕ → Outcome := fun _ _ => .ok

/-! ## Entries -/

/-- What a row books for a reserve. -/
structure ReserveEntry where
  reservePub : ReservePub
  credit : ℕ := 0
  debit : ℕ := 0
  fees : ReserveFeeBalance := {}
  senderAccount : Option PaytoUri := none
  expiration : Option Timestamp := none

def ReserveBalances.plus (x y : ReserveBalances) : ReserveBalances where
  reserveTotalBalance := x.reserveTotalBalance + y.reserveTotalBalance
  reserveLoss := x.reserveLoss + y.reserveLoss
  withdrawFeeRevenue := x.withdrawFeeRevenue + y.withdrawFeeRevenue
  closeFeeRevenue := x.closeFeeRevenue + y.closeFeeRevenue
  purseFeeRevenue := x.purseFeeRevenue + y.purseFeeRevenue
  openFeeRevenue := x.openFeeRevenue + y.openFeeRevenue
  historyFeeRevenue := x.historyFeeRevenue + y.historyFeeRevenue
  totalBadSigLoss := x.totalBadSigLoss + y.totalBadSigLoss
  balanceReserveNotClosed := x.balanceReserveNotClosed + y.balanceReserveNotClosed
  arithmeticDeltaPlus := x.arithmeticDeltaPlus + y.arithmeticDeltaPlus
  arithmeticDeltaMinus := x.arithmeticDeltaMinus + y.arithmeticDeltaMinus
  summaryDeltaPlus := x.summaryDeltaPlus + y.summaryDeltaPlus
  summaryDeltaMinus := x.summaryDeltaMinus + y.summaryDeltaMinus

/-- What a row books: an entry, and what is added to the balances. -/
structure Booked where
  entry : Option ReserveEntry := none
  balances : ReserveBalances := {}

section Rows

variable (env : ReserveAuditEnv)

def ReserveInRow.booked (row : ReserveInRow) : Booked where
  entry := some
    { reservePub := row.reservePub
      credit := row.credit
      senderAccount := some row.senderAccount
      expiration := some (row.executionDate + env.idleReserveExpirationTime) }

def WithdrawalRow.booked (row : WithdrawalRow) : Booked :=
  match env.denomination row.hDenomPub with
  | none => {}
  | some issue =>
    if env.withdrawVerify row then
      { entry := some
          { reservePub := row.reservePub
            debit := issue.value + issue.feeWithdraw
            fees := { withdrawFeeBalance := issue.feeWithdraw } }
        balances := { withdrawFeeRevenue := issue.feeWithdraw } }
    else { balances := { totalBadSigLoss := row.amountWithFee } }

/-- The losses by a recoup of a denomination that is not revoked, or not by the master key. -/
def RecoupRow.notRevoked (row : RecoupRow) : ReserveBalances :=
  match env.revocation row.denomPubHash with
  | none => { reserveLoss := row.amount }
  | some (true, _) => {}
  | some (false, _) => { totalBadSigLoss := row.amount }

def RecoupRow.booked (row : RecoupRow) : Booked where
  entry := some
    { reservePub := row.reservePub
      credit := row.amount
      expiration := some (row.timestamp + env.idleReserveExpirationTime) }
  balances := ReserveBalances.plus
    { totalBadSigLoss := if env.recoupVerify row then 0 else row.amount } (row.notRevoked env)

def ReserveOpenRow.booked (row : ReserveOpenRow) : Booked :=
  if env.openVerify row then
    { entry := some
        { reservePub := row.reservePub
          debit := row.reservePayment
          fees := { openFeeBalance := row.reservePayment } }
      balances := { openFeeRevenue := row.reservePayment } }
  else
    { entry := some { reservePub := row.reservePub }
      balances := { totalBadSigLoss := row.reservePayment } }

/-- The differences by a closing fee that is not the one that applies. -/
def ReserveClosedRow.feeDelta (row : ReserveClosedRow) : ReserveBalances :=
  match env.closingFee row.receiverAccount row.executionDate with
  | none => {}
  | some fee =>
    { arithmeticDeltaPlus := row.closingFee - fee
      arithmeticDeltaMinus := fee - row.closingFee }

def ReserveClosedRow.booked (row : ReserveClosedRow) : Booked where
  entry := some
    { reservePub := row.reservePub
      debit := row.amountWithFee
      fees := { closeFeeBalance := row.closingFee } }
  balances := (row.feeDelta env).plus { closeFeeRevenue := row.closingFee }

def AccountMergeRow.booked (row : AccountMergeRow) : Booked :=
  if env.mergeVerify row then
    if mergeMode row.flags = modeCreateWithPurseFee then
      { entry := some
          { reservePub := row.reservePub
            debit := row.purseFee
            fees := { purseFeeBalance := row.purseFee } }
        balances := { purseFeeRevenue := row.purseFee } }
    else {}
  else { balances := { totalBadSigLoss := row.purseFee } }

def PurseDecisionRow.booked (row : PurseDecisionRow) : Booked where
  entry := row.reservePub.map fun r => { reservePub := r, credit := row.purseValue }

end Rows

/-! ## The process without its calls -/

/-- The reports about balances of reserves. -/
def ReserveReport.isBalance : ReserveReport → Bool
  | .balanceInsufficient .. | .balanceSummaryWrong .. => true
  | _ => false

/-- The process without its calls, its caches and the reports about single rows. -/
@[ext] structure AuditCore where
  globalQs : QueryCode
  rcQs : QueryCode
  crashed : Bool
  progress : ReserveProgress
  balances : ReserveBalances
  summaries : List ReserveSummary
  reserves : ReservePub → Option ReserveInfo
  storedBalances : Option ReserveBalances
  storedProgress : Option ReserveProgress
  balanceReports : List ReserveReport

def AuditRun.core (s : AuditRun) : AuditCore :=
  ⟨s.globalQs, s.rcQs, s.crashed, s.book.progress, s.book.balances, s.book.summaries,
    s.book.db.reserves, s.book.db.balances, s.book.db.progress,
    s.book.db.reports.filter ReserveReport.isBalance⟩

/-- No status variable has an error. -/
structure AuditCore.Fine (k : AuditCore) : Prop where
  global : 0 ≤ k.globalQs
  rc : 0 ≤ k.rcQs
  alive : k.crashed = false

namespace AuditCore

variable (k : AuditCore)

def newSummary (r : ReservePub) : ReserveSummary :=
  match k.reserves r with
  | none => { reservePub := r }
  | some ri =>
    { reservePub := r
      prevBalance := ri.balance
      aExpirationDate := ri.expirationDate
      senderAccount := ri.originAccount
      hadRi := true }

/-- The reserve has a summary. -/
def setup (r : ReservePub) : AuditCore :=
  if k.summaries.any (·.reservePub = r) then k
  else { k with summaries := k.summaries ++ [k.newSummary r] }

def onSummary (r : ReservePub) (f : ReserveSummary → ReserveSummary) : AuditCore :=
  { k with summaries := k.summaries.map fun rs => if rs.reservePub = r then f rs else rs }

end AuditCore

/-- An entry in the summary of its reserve. -/
def ReserveEntry.addTo (e : ReserveEntry) (rs : ReserveSummary) : ReserveSummary :=
  { rs with
    totalIn := rs.totalIn + e.credit
    totalOut := rs.totalOut + e.debit
    currBalance := { e.fees.plus rs.currBalance with
      reserveBalance := rs.currBalance.reserveBalance }
    senderAccount := rs.senderAccount <|> e.senderAccount
    aExpirationDate := (e.expiration.map (max rs.aExpirationDate)).getD rs.aExpirationDate }

/-- An entry is booked. -/
def AuditCore.enter (k : AuditCore) (e : ReserveEntry) : AuditCore :=
  (k.setup e.reservePub).onSummary e.reservePub e.addTo

/-- **What a row books** is booked. -/
def AuditCore.book (k : AuditCore) (x : Booked) : AuditCore :=
  { (x.entry.elim k k.enter) with balances := k.balances.plus x.balances }

/-! ## Steps without a failing call -/

/-- Only revoked denominations are cached as revoked. -/
def AuditRun.RevokedBy (env : ReserveAuditEnv) (s : AuditRun) : Prop :=
  ∀ h, s.revoked h = true → (env.revocation h).isSome

section Steps

variable {α β : Type} {env : ReserveAuditEnv} {x : Audit α} {f : α → Audit β} {k l : AuditCore}

/-- From a process with this core, what is returned and the core that is left. -/
def Ends (env : ReserveAuditEnv) (x : Audit α) (k : AuditCore) (P : α → AuditCore → Prop) : Prop :=
  ∀ s : AuditRun, s.RevokedBy env → s.core = k →
    (x s).2.RevokedBy env ∧ P (x s).1 (x s).2.core

/-- The same result and core from every process with this core. -/
abbrev Yields (env : ReserveAuditEnv) (x : Audit α) (k : AuditCore) (a : α) (l : AuditCore) : Prop :=
  Ends env x k fun b m => b = a ∧ m = l

theorem Ends.bind {P : α → AuditCore → Prop} {Q : β → AuditCore → Prop} (hx : Ends env x k P)
    (hf : ∀ a l, P a l → Ends env (f a) l Q) : Ends env (x >>= f) k Q :=
  fun s hr hs => hf _ _ (hx s hr hs).2 _ (hx s hr hs).1 rfl

theorem Yields.bind {a : α} {Q : β → AuditCore → Prop} (hx : Yields env x k a l)
    (hf : Ends env (f a) l Q) : Ends env (x >>= f) k Q :=
  Ends.bind hx fun _ _ h => h.1 ▸ h.2 ▸ hf

theorem ends_get_bind {f : AuditRun → Audit β} {Q : β → AuditCore → Prop}
    (h : ∀ s : AuditRun, s.RevokedBy env → s.core = k → Ends env (f s) k Q) :
    Ends env ((get : Audit AuditRun) >>= f) k Q :=
  fun s hr hs => h s hr hs s hr hs

theorem yields_pure (a : α) (k : AuditCore) : Yields env (pure a) k a k :=
  fun _ hr hs => ⟨hr, rfl, hs⟩

theorem yields_call (n : ℤ) (k : AuditCore) : Yields env (call allOk n) k n k :=
  fun _ hr hs => ⟨hr, rfl, hs⟩

theorem yields_callUnchecked (n : ℤ) (k : AuditCore) :
    Yields env (callUnchecked allOk n) k n k :=
  fun _ hr hs => ⟨hr, rfl, hs⟩

theorem yields_onBook {g : AuditBook → AuditBook}
    (h : ∀ s : AuditRun, s.core = k → AuditRun.core { s with book := g s.book } = l) :
    Yields env (onBook g) k () l :=
  fun s hr hs => ⟨hr, rfl, h s hs⟩

theorem yields_modify {g : AuditRun → AuditRun}
    (hg : ∀ s : AuditRun, s.RevokedBy env → (g s).RevokedBy env)
    (h : ∀ s : AuditRun, s.core = k → (g s).core = l) : Yields env (modify g : Audit PUnit) k () l :=
  fun s hr hs => ⟨hg s hr, rfl, h s hs⟩

theorem yields_amountSum (a b : ℕ) (k : AuditCore) : Yields env (amountSum a b) k (a + b) k :=
  fun _ hr hs => ⟨hr, rfl, hs⟩

theorem yields_addTotals (prev curr : ReserveFeeBalance) (k : AuditCore) :
    Yields env (addTotals prev curr) k (prev.plus curr) k :=
  fun _ hr hs => ⟨hr, rfl, hs⟩

theorem core_report {r : ReserveReport} (hr : r.isBalance = false) (s : AuditRun) :
    AuditRun.core { s with book := s.book.report r } = s.core := by
  simp [AuditRun.core, AuditBook.report, hr]

theorem yields_report {r : ReserveReport} (hr : r.isBalance = false) (k : AuditCore) :
    Yields env (onBook (·.report r)) k () k :=
  yields_onBook fun s hs => (core_report hr s).trans hs

theorem yields_reportRowInconsistency (table : String) (rowid : ℕ) (diagnostic : String)
    (k : AuditCore) : Yields env (reportRowInconsistency allOk table rowid diagnostic) k () k := by
  unfold reportRowInconsistency
  refine (yields_call 1 k).bind ?_
  rw [if_neg (by decide)]
  exact yields_report rfl k

theorem yields_globalOk (hk : k.Fine) : Yields env globalOk k true k := by
  refine ends_get_bind fun s hrev hs => ?_
  have h : ¬ s.globalQs < 0 := by
    have := hk.global
    rw [← hs] at this
    exact not_lt.2 this
  rw [decide_eq_false h]
  exact yields_pure true k

theorem yields_setupReserve (r : ReservePub) (k : AuditCore) :
    Yields env (setupReserve allOk r) k true (k.setup r) := by
  refine ends_get_bind fun s hrev hs => ?_
  subst hs
  unfold AuditCore.setup
  by_cases h : s.book.hasSummary r = true
  · rw [if_pos h, if_pos (show s.core.summaries.any (·.reservePub = r) = true from h)]
    exact yields_pure true s.core
  · rw [if_neg h, if_neg (show ¬ s.core.summaries.any (·.reservePub = r) = true from h)]
    refine ends_get_bind fun t _ ht => (yields_call _ _).bind ?_
    rw [if_neg (by split_ifs <;> decide)]
    refine (yields_onBook (l := { s.core with summaries := s.core.summaries ++ [s.core.newSummary r] })
      fun u hu => ?_).bind (yields_pure true _)
    rw [← hu]
    rfl

/-! ## The callbacks -/

theorem ReserveBalances.plus_zero (x : ReserveBalances) : x.plus {} = x := rfl

theorem ReserveFeeBalance.zero_plus (x : ReserveFeeBalance) :
    { ReserveFeeBalance.plus {} x with reserveBalance := x.reserveBalance } = x := by
  simp [ReserveFeeBalance.plus]

theorem ReserveBalances.plus_assoc (x y z : ReserveBalances) :
    (x.plus y).plus z = x.plus (y.plus z) := by
  simp [ReserveBalances.plus, add_assoc]

theorem AuditCore.onSummary_self (k : AuditCore) (r : ReservePub) :
    k.onSummary r (fun rs => rs) = k := by
  simp [AuditCore.onSummary]

theorem ReserveEntry.addTo_empty (r : ReservePub) (rs : ReserveSummary) :
    ReserveEntry.addTo { reservePub := r } rs = rs := by
  simp [ReserveEntry.addTo, ReserveFeeBalance.zero_plus]

theorem AuditCore.enter_empty (k : AuditCore) (r : ReservePub) :
    k.enter { reservePub := r } = k.setup r := by
  rw [AuditCore.enter, funext (ReserveEntry.addTo_empty r), AuditCore.onSummary_self]

theorem AuditCore.setup_balances (k : AuditCore) (r : ReservePub) (y : ReserveBalances) :
    AuditCore.setup { k with balances := y } r = { k.setup r with balances := y } := by
  unfold AuditCore.setup
  by_cases h : k.summaries.any (·.reservePub = r) = true
  · rw [if_pos h, if_pos h]
  · rw [if_neg h, if_neg h]
    rfl

@[simp] theorem AuditCore.balances_setup (k : AuditCore) (r : ReservePub) :
    (k.setup r).balances = k.balances := by
  unfold AuditCore.setup
  split <;> rfl

theorem AuditCore.setup_book (k : AuditCore) (r : ReservePub) (y : ReserveBalances) :
    (k.setup r).book ⟨none, y⟩ = k.book ⟨some { reservePub := r }, y⟩ := by
  simp [AuditCore.book, AuditCore.enter_empty]

theorem AuditCore.book_setup (k : AuditCore) (r : ReservePub) (y : ReserveBalances) :
    (k.setup r).book ⟨none, y⟩ = (k.book ⟨none, y⟩).setup r := by
  simp [AuditCore.book, AuditCore.setup_balances]

/-- Balances and an entry are booked in any order. -/
theorem AuditCore.book_book (k : AuditCore) (y z : ReserveBalances) (e : Option ReserveEntry) :
    (k.book ⟨none, y⟩).book ⟨e, z⟩ = k.book ⟨e, y.plus z⟩ := by
  cases e with
  | none => simp [AuditCore.book, ReserveBalances.plus_assoc]
  | some e =>
    simp only [AuditCore.book, Option.elim_none, Option.elim_some, AuditCore.enter,
      AuditCore.setup_balances, ReserveBalances.plus_assoc]
    rfl

theorem AuditCore.Fine.setup (hk : k.Fine) (r : ReservePub) : (k.setup r).Fine := by
  unfold AuditCore.setup
  split
  · exact hk
  · exact ⟨hk.1, hk.2, hk.3⟩

theorem AuditCore.Fine.book (hk : k.Fine) (x : Booked) : (k.book x).Fine := by
  unfold AuditCore.book
  cases x.entry with
  | none => exact ⟨hk.1, hk.2, hk.3⟩
  | some e =>
    have h := hk.setup e.reservePub
    exact ⟨h.1, h.2, h.3⟩

/-- A callback books an entry in the summary that it has set up. -/
theorem yields_book {r : ReservePub} {g : AuditBook → AuditBook} {h : ReserveSummary → ReserveSummary}
    {e : ReserveEntry} {y : ReserveBalances} (he : e.reservePub = r) (hh : ∀ rs, h rs = e.addTo rs)
    (hg : ∀ s : AuditRun, AuditRun.core { s with book := g s.book } =
      { s.core.onSummary r h with balances := s.core.balances.plus y }) :
    Yields env (onBook g) (k.setup r) () (k.book ⟨some e, y⟩) := by
  refine yields_onBook fun s hs => ?_
  rw [hg s, hs, AuditCore.balances_setup, funext hh]
  subst he
  rfl

theorem yields_badSigLoss (operation : String) (rowid loss : ℕ) (k : AuditCore) :
    Yields env (badSigLoss allOk operation rowid loss) k true
      (k.book ⟨none, { totalBadSigLoss := loss }⟩) := by
  refine (yields_call 1 k).bind ?_
  rw [if_neg (by decide)]
  refine (yields_onBook fun s hs => ?_).bind (yields_pure _ _)
  have h := core_report (r := .badSigLoss operation rowid loss) rfl s
  rw [hs] at h
  rw [← h]
  rfl

theorem yields_checkWithdrawTime (issue : DenominationIssue) (row : WithdrawalRow) (k : AuditCore) :
    Yields env (checkWithdrawTime allOk issue row) k true k := by
  unfold checkWithdrawTime
  split
  · refine (yields_call 1 k).bind ?_
    rw [if_neg (by decide)]
    exact (yields_report rfl k).bind (yields_pure _ _)
  · exact yields_pure _ _

variable (env)

theorem yields_handleReserveIn (row : ReserveInRow) (k : AuditCore) :
    Yields env (handleReserveIn allOk env row) k true
      ({ k with progress.reserveIn := row.rowid + 1 }.book (row.booked env)) := by
  refine (yields_onBook (l := { k with progress.reserveIn := row.rowid + 1 }) ?_).bind ?_
  · rintro s rfl
    rfl
  refine (yields_setupReserve _ _).bind ?_
  rw [if_neg (by decide)]
  refine Yields.bind (a := ()) ?_ (yields_pure true _)
  refine yields_book (y := {}) rfl (fun rs => ?_) fun s => rfl
  simp [ReserveEntry.addTo, ReserveFeeBalance.zero_plus]

/-- The answer about a denomination does not depend on the cache. -/
theorem ends_getDenominationInfo (h : HashCode) (k : AuditCore) :
    Ends env (getDenominationInfo allOk env h) k fun a l =>
      (0 ≤ a.1 ∧ a.2 = env.denomination h) ∧ l = k := by
  have key : ∀ s : AuditRun, s.RevokedBy env → s.core = k → Ends env (do
      if (s.denominations.getD fun _ => false) h then return (1, env.denomination h)
      let qs ← call allOk (if (env.denomination h).isSome then 1 else 0)
      if qs ≤ 0 then return (qs, none)
      modify fun s => { s with
        denominations := s.denominations.map fun d => Function.update d h true }
      return (1, env.denomination h)) k fun a l => (0 ≤ a.1 ∧ a.2 = env.denomination h) ∧ l = k := by
    intro s _ hs
    split
    · exact fun t hr ht => ⟨hr, ⟨zero_le_one' ℤ, rfl⟩, ht⟩
    · refine (yields_call _ k).bind ?_
      cases hd : env.denomination h with
      | none => exact fun t hr ht => ⟨hr, ⟨le_refl _, rfl⟩, ht⟩
      | some issue =>
        refine Yields.bind (a := ()) (l := k) (yields_modify (fun t ht => ht) fun t ht => ht) ?_
        exact fun t hr ht => ⟨hr, ⟨zero_le_one' ℤ, rfl⟩, ht⟩
  refine ends_get_bind fun s hrev hs => ?_
  dsimp only
  split
  · refine (yields_call 1 k).bind ?_
    rw [if_neg (by decide)]
    refine Yields.bind (a := ()) (l := k) (yields_modify (fun t ht => ht) fun t ht => ht) ?_
    exact ends_get_bind key
  · exact ends_get_bind key

theorem yields_handleReserveOut (row : WithdrawalRow) (hk : k.Fine) :
    Yields env (handleReserveOut allOk env row) k true
      ({ k with progress.reserveOut := row.rowid + 1 }.book (row.booked env)) := by
  refine (yields_onBook (l := { k with progress.reserveOut := row.rowid + 1 }) ?_).bind ?_
  · rintro s rfl
    rfl
  refine (ends_getDenominationInfo env _ _).bind ?_
  rintro ⟨qs, issue⟩ _ ⟨⟨hqs, hi⟩, rfl⟩
  dsimp only at hqs hi ⊢
  subst hi
  have hk' : AuditCore.Fine { k with progress.reserveOut := row.rowid + 1 } := ⟨hk.1, hk.2, hk.3⟩
  rw [if_neg (not_lt.2 hqs), WithdrawalRow.booked]
  cases env.denomination row.hDenomPub with
  | none =>
    exact (yields_reportRowInconsistency _ _ _ _).bind (yields_globalOk hk')
  | some issue =>
    refine (yields_checkWithdrawTime _ _ _).bind ?_
    rw [if_neg (by decide)]
    dsimp only
    cases env.withdrawVerify row with
    | false => exact yields_badSigLoss _ _ _ _
    | true =>
      have hrest : Yields env (do
          if !(← setupReserve allOk row.reservePub) then return false
          onBook fun b => { b.onSummary row.reservePub fun rs => { rs with
              currBalance.withdrawFeeBalance := rs.currBalance.withdrawFeeBalance + issue.feeWithdraw
              totalOut := rs.totalOut + (issue.value + issue.feeWithdraw) } with
            balances.withdrawFeeRevenue := b.balances.withdrawFeeRevenue + issue.feeWithdraw }
          return true) { k with progress.reserveOut := row.rowid + 1 } true
          (AuditCore.book { k with progress.reserveOut := row.rowid + 1 } ⟨some
            { reservePub := row.reservePub
              debit := issue.value + issue.feeWithdraw
              fees := { withdrawFeeBalance := issue.feeWithdraw } },
            { withdrawFeeRevenue := issue.feeWithdraw }⟩) := by
        refine (yields_setupReserve _ _).bind ?_
        rw [if_neg (by decide)]
        refine Yields.bind (a := ()) ?_ (yields_pure true _)
        refine yields_book rfl (fun rs => ?_) fun s => rfl
        simp [ReserveEntry.addTo, ReserveFeeBalance.plus, add_comm]
      rw [if_neg (by decide)]
      refine (yields_amountSum _ _ _).bind ?_
      split
      · refine (yields_reportRowInconsistency _ _ _ _).bind ((yields_globalOk hk').bind ?_)
        rw [if_neg (by decide)]
        exact hrest
      · exact hrest

theorem yields_checkRevoked (row : RecoupRow) (hk : k.Fine) :
    Yields env (checkRevoked allOk env row) k true (k.book ⟨none, row.notRevoked env⟩) := by
  refine ends_get_bind fun s hrev hs => ?_
  unfold RecoupRow.notRevoked
  cases hr : env.revocation row.denomPubHash with
  | none =>
    have hc : s.revoked row.denomPubHash = false := by
      by_contra h
      have := hrev _ (Bool.not_eq_false _ ▸ h)
      rw [hr] at this
      exact nomatch this
    rw [hc]
    refine (yields_call 0 k).bind ?_
    rw [if_neg (by decide), if_neg (by decide)]
    refine (yields_reportRowInconsistency _ _ _ _).bind ((yields_globalOk hk).bind ?_)
    rw [if_neg (by decide)]
    refine (yields_onBook (l := k.book ⟨none, { reserveLoss := row.amount }⟩) ?_).bind ?_
    · rintro t rfl
      rfl
    · exact yields_pure _ _
  | some rev =>
    obtain ⟨valid, revRowid⟩ := rev
    cases hc : s.revoked row.denomPubHash with
    | true =>
      cases valid with
      | true => exact yields_pure _ _
      | false => exact yields_badSigLoss _ _ _ _
    | false =>
      refine (yields_call 1 k).bind ?_
      rw [if_neg (by decide), if_pos (by rfl)]
      refine Yields.bind (a := ()) (l := k) (yields_modify (fun t ht h hh => ?_) fun t ht => ht) ?_
      · rcases eq_or_ne h row.denomPubHash with rfl | hne
        · rw [hr]
          rfl
        · change Function.update t.revoked _ true h = true at hh
          rw [Function.update_of_ne hne] at hh
          exact ht h hh
      cases valid with
      | true => exact yields_pure _ _
      | false => exact yields_badSigLoss _ _ _ _

theorem yields_handleRecoupByReserve (row : RecoupRow) (hk : k.Fine) :
    Yields env (handleRecoupByReserve allOk env row) k true
      ({ k with progress.reserveRecoup := row.rowid + 1 }.book (row.booked env)) := by
  refine (yields_onBook (l := { k with progress.reserveRecoup := row.rowid + 1 }) ?_).bind ?_
  · rintro s rfl
    rfl
  have hk' : AuditCore.Fine { k with progress.reserveRecoup := row.rowid + 1 } := ⟨hk.1, hk.2, hk.3⟩
  have hrest : ∀ y : ReserveBalances, Yields env (do
      if !(← checkRevoked allOk env row) then return false
      if !(← setupReserve allOk row.reservePub) then return false
      onBook (·.onSummary row.reservePub fun rs => { rs with
        totalIn := rs.totalIn + row.amount
        aExpirationDate := max rs.aExpirationDate
          (row.timestamp + env.idleReserveExpirationTime) })
      return true) (AuditCore.book { k with progress.reserveRecoup := row.rowid + 1 } ⟨none, y⟩) true
      (AuditCore.book { k with progress.reserveRecoup := row.rowid + 1 }
        ⟨(row.booked env).entry, y.plus (row.notRevoked env)⟩) := by
    intro y
    rw [← ReserveBalances.plus_zero (y.plus _), ← AuditCore.book_book]
    refine (yields_checkRevoked env row (hk'.book _)).bind ?_
    rw [if_neg (by decide)]
    refine (yields_setupReserve _ _).bind ?_
    rw [if_neg (by decide), AuditCore.book_book]
    refine Yields.bind (a := ()) ?_ (yields_pure true _)
    refine yields_book (y := {}) rfl (fun rs => ?_) fun s => rfl
    simp [ReserveEntry.addTo, ReserveFeeBalance.zero_plus]
  rw [RecoupRow.booked]
  cases env.recoupVerify row with
  | false =>
    refine (yields_badSigLoss _ _ _ _).bind ?_
    rw [if_neg (by decide)]
    exact hrest { totalBadSigLoss := row.amount }
  | true =>
    exact hrest {}

theorem yields_handleReserveOpen (row : ReserveOpenRow) (k : AuditCore) :
    Yields env (handleReserveOpen allOk env row) k true
      ({ k with progress.reserveOpen := row.rowid + 1 }.book (row.booked env)) := by
  refine (yields_onBook (l := { k with progress.reserveOpen := row.rowid + 1 }) ?_).bind ?_
  · rintro s rfl
    rfl
  refine (yields_setupReserve _ _).bind ?_
  rw [if_neg (by decide), ReserveOpenRow.booked]
  cases env.openVerify row with
  | false =>
    rw [if_pos (by decide), if_neg (by decide), ← AuditCore.setup_book]
    exact yields_badSigLoss _ _ _ _
  | true =>
    refine Yields.bind (a := ()) ?_ (yields_pure true _)
    refine yields_book rfl (fun rs => ?_) fun s => rfl
    simp [ReserveEntry.addTo, ReserveFeeBalance.plus, add_comm]

theorem yields_handleAccountMerged (row : AccountMergeRow) (k : AuditCore) :
    Yields env (handleAccountMerged allOk env row) k true
      ({ k with progress.accountMerges := row.rowid + 1 }.book (row.booked env)) := by
  refine (yields_onBook (l := { k with progress.accountMerges := row.rowid + 1 }) ?_).bind ?_
  · rintro s rfl
    rfl
  rw [AccountMergeRow.booked]
  cases env.mergeVerify row with
  | false => exact yields_badSigLoss _ _ _ _
  | true =>
    rw [if_neg (by decide), if_pos rfl]
    by_cases hm : mergeMode row.flags = modeCreateWithPurseFee
    · rw [if_neg (by simp [hm]), if_pos hm]
      refine (yields_setupReserve _ _).bind ?_
      rw [if_neg (by decide)]
      refine Yields.bind (a := ()) ?_ (yields_pure true _)
      refine yields_book rfl (fun rs => ?_) fun s => rfl
      simp [ReserveEntry.addTo, ReserveFeeBalance.plus, add_comm]
    · rw [if_pos hm, if_neg hm]
      exact yields_pure _ _

theorem yields_purseDecisionCb {row : PurseDecisionRow} (hr : row.reservePub.isSome)
    (k : AuditCore) :
    Yields env (purseDecisionCb allOk row) k true
      ({ k with progress.purseDecisions := row.rowid + 1 }.book row.booked) := by
  refine (yields_onBook (l := { k with progress.purseDecisions := row.rowid + 1 }) ?_).bind ?_
  · rintro s rfl
    rfl
  rw [PurseDecisionRow.booked]
  obtain ⟨r, hr⟩ := Option.isSome_iff_exists.1 hr
  rw [hr]
  refine (yields_setupReserve _ _).bind ?_
  rw [if_neg (by decide)]
  refine Yields.bind (a := ()) ?_ (yields_pure true _)
  refine yields_book (y := {}) rfl (fun rs => ?_) fun s => rfl
  simp [ReserveEntry.addTo, ReserveFeeBalance.zero_plus]

theorem yields_getClosingFee (account : PaytoUri) (atime : Timestamp) (k : AuditCore) :
    Yields env (getClosingFee allOk env account atime) k (env.closingFee account atime) k := by
  refine (yields_callUnchecked _ k).bind ?_
  cases env.closingFee account atime with
  | none => exact (yields_reportRowInconsistency _ _ _ _).bind (yields_pure _ _)
  | some fee => exact yields_pure _ _

theorem yields_reportAmountArithmeticInconsistency (operation : String)
    (rowid exchangeAmount auditorAmount : ℕ) (k : AuditCore) :
    Yields env (reportAmountArithmeticInconsistency allOk operation rowid exchangeAmount
      auditorAmount 1) k () (k.book ⟨none,
        { arithmeticDeltaPlus := exchangeAmount - auditorAmount
          arithmeticDeltaMinus := auditorAmount - exchangeAmount }⟩) := by
  refine (yields_call 1 k).bind ?_
  rw [if_neg (by decide)]
  refine (yields_report rfl k).bind ?_
  by_cases h : auditorAmount < exchangeAmount
  · rw [if_pos h, if_pos h, if_pos rfl]
    refine yields_onBook fun s hs => ?_
    subst hs
    rw [Nat.sub_eq_zero_of_le h.le]
    rfl
  · rw [if_neg h, if_neg h, if_neg (by decide), if_pos (by decide)]
    refine yields_onBook fun s hs => ?_
    subst hs
    rw [Nat.sub_eq_zero_of_le (not_lt.1 h)]
    rfl

theorem yields_checkClosingFee (row : ReserveClosedRow) (hk : k.Fine) {g : Audit Bool}
    {Q : Bool → AuditCore → Prop} (hg : Ends env g (k.book ⟨none, row.feeDelta env⟩) Q) :
    Ends env (do
      match ← getClosingFee allOk env row.receiverAccount row.executionDate with
      | none => pure ()
      | some expectedFee =>
        if expectedFee ≠ row.closingFee then
          reportAmountArithmeticInconsistency allOk "closing aggregation fee" row.rowid row.closingFee
            expectedFee 1
          if !(← globalOk) then return false
      g) k Q := by
  refine (yields_getClosingFee env _ _ k).bind ?_
  unfold ReserveClosedRow.feeDelta at hg
  cases hf : env.closingFee row.receiverAccount row.executionDate with
  | none =>
    rw [hf] at hg
    exact hg
  | some fee =>
    rw [hf] at hg
    dsimp only at hg ⊢
    split
    · refine Yields.bind (yields_reportAmountArithmeticInconsistency env _ _ _ _ _) ?_
      refine (yields_globalOk (hk.book _)).bind ?_
      rw [if_neg (by decide)]
      exact hg
    · rename_i h
      rw [not_not.1 h, Nat.sub_self] at hg
      exact hg

/-- The end of `handle_reserve_closed`. -/
theorem yields_checkReceiver (row : ReserveClosedRow) {l : AuditCore} (hl : l.Fine) (s : AuditRun) :
    Yields env (do
      match s.book.senderAccount row.reservePub with
      | none =>
        reportRowInconsistency allOk "reserves_close" row.rowid
          "target account not verified, auditor does not know reserve"
        globalOk
      | some account =>
        if account ≠ row.receiverAccount then
          reportRowInconsistency allOk "reserves_close" row.rowid
            "target account does not match origin account"
          return ← globalOk
        return true) l true l := by
  cases s.book.senderAccount row.reservePub with
  | none => exact (yields_reportRowInconsistency _ _ _ _).bind (yields_globalOk hl)
  | some account =>
    dsimp only
    split
    · exact (yields_reportRowInconsistency _ _ _ _).bind (yields_globalOk hl)
    · exact yields_pure _ _

/-- A close that was not requested is booked. -/
theorem yields_handleReserveClosed {row : ReserveClosedRow} (hr : row.closeRequestRow = 0)
    (hk : k.Fine) :
    Yields env (handleReserveClosed allOk env row) k true
      ({ k with progress.reserveClose := row.rowid + 1 }.book (row.booked env)) := by
  refine (yields_onBook (l := { k with progress.reserveClose := row.rowid + 1 }) ?_).bind ?_
  · rintro s rfl
    rfl
  have hk' : AuditCore.Fine { k with progress.reserveClose := row.rowid + 1 } := ⟨hk.1, hk.2, hk.3⟩
  refine (yields_setupReserve _ _).bind ?_
  rw [if_neg (by decide)]
  refine yields_checkClosingFee env row (hk'.setup _) ?_
  have hend := yields_checkReceiver env row (hk'.book (row.booked env))
  rw [AuditCore.book_setup]
  refine Yields.bind (a := ())
    (l := AuditCore.book { k with progress.reserveClose := row.rowid + 1 } (row.booked env)) ?_ ?_
  · rw [ReserveClosedRow.booked, ← AuditCore.book_book]
    refine yields_book rfl (fun rs => ?_) fun s => rfl
    simp [ReserveEntry.addTo, ReserveFeeBalance.plus, add_comm]
  · rw [if_neg (not_not.2 hr)]
    exact ends_get_bind fun s _ _ => hend s

end Steps

end TalerExchange
