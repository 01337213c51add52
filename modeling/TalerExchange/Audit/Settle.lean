import TalerExchange.Audit.Pass

/-!
# The balances at the end of a pass

* `AuditCore.summaryOf`: the summary of a reserve after the entries of a pass
  (`summaries_bookAll`); `ReserveSummary.Funded`: the debits do not exceed the credits;
* `AuditCore.audited`: the core without what depends on the exchange's own balances and on the time;
* `AuditCore.settle`: the comparison of a reserve remembers its balance and updates the total
  (`ends_verifyReserveBalance`);
* **`analyzeReserves_ok`**: what a pass leaves.
-/

namespace TalerExchange

/-! ## The summaries -/

section Summaries

variable {k : AuditCore} {es : List ReserveEntry} {r : ReservePub}

/-- The entries that are booked. -/
def entries (xs : List Booked) : List ReserveEntry := xs.filterMap (·.entry)

/-- The summary of a reserve after the entries of a pass. -/
def AuditCore.summaryOf (k : AuditCore) (es : List ReserveEntry) (r : ReservePub) : ReserveSummary :=
  (es.filter (·.reservePub = r)).foldl (fun rs e => e.addTo rs) (k.newSummary r)

@[simp] theorem ReserveEntry.reservePub_addTo (e : ReserveEntry) (rs : ReserveSummary) :
    (e.addTo rs).reservePub = rs.reservePub := rfl

@[simp] theorem AuditCore.reservePub_newSummary (k : AuditCore) (r : ReservePub) :
    (k.newSummary r).reservePub = r := by
  unfold AuditCore.newSummary
  split <;> rfl

@[simp] theorem AuditCore.reservePub_summaryOf (k : AuditCore) (es : List ReserveEntry)
    (r : ReservePub) : (k.summaryOf es r).reservePub = r := by
  unfold AuditCore.summaryOf
  induction es.filter (·.reservePub = r) using List.reverseRecOn with
  | nil => simp
  | append_singleton es e ih => rw [List.foldl_append]; exact ih

theorem AuditCore.summaryOf_append (k : AuditCore) (es : List ReserveEntry) (e : ReserveEntry)
    (r : ReservePub) : k.summaryOf (es ++ [e]) r =
      if e.reservePub = r then e.addTo (k.summaryOf es r) else k.summaryOf es r := by
  unfold AuditCore.summaryOf
  by_cases h : e.reservePub = r
  · simp [h]
  · simp [h]

/-- Rows change summaries and balances only. -/
theorem AuditCore.bookAll_frame (k : AuditCore) (xs : List Booked) :
    ∃ ss b, k.bookAll xs = { k with summaries := ss, balances := b } := by
  induction xs generalizing k with
  | nil => exact ⟨_, _, rfl⟩
  | cons x xs ih =>
    obtain ⟨ss, b, h⟩ := ih (k.book x)
    have hx : ∃ ss b, k.book x = { k with summaries := ss, balances := b } := by
      unfold AuditCore.book
      cases x.entry with
      | none => exact ⟨_, _, rfl⟩
      | some e =>
        rw [Option.elim_some, AuditCore.enter, AuditCore.setup]
        split <;> exact ⟨_, _, rfl⟩
    obtain ⟨ss', b', hx⟩ := hx
    exact ⟨ss, b, h.trans (by rw [hx])⟩

@[simp] theorem AuditCore.reserves_bookAll (k : AuditCore) (xs : List Booked) :
    (k.bookAll xs).reserves = k.reserves := by
  obtain ⟨ss, b, h⟩ := k.bookAll_frame xs
  rw [h]

theorem AuditCore.newSummary_congr {k l : AuditCore} (h : k.reserves = l.reserves) (r : ReservePub) :
    k.newSummary r = l.newSummary r := by
  unfold AuditCore.newSummary
  rw [h]

theorem summaries_enter {l : AuditCore} {ps : List ReservePub} (e : ReserveEntry)
    (hl : l.reserves = k.reserves) (hps : ∀ r, r ∈ ps ↔ ∃ e ∈ es, e.reservePub = r)
    (hs : l.summaries = ps.map (k.summaryOf es)) :
    (l.enter e).summaries =
      (if e.reservePub ∈ ps then ps else ps ++ [e.reservePub]).map (k.summaryOf (es ++ [e])) := by
  have hany : l.summaries.any (·.reservePub = e.reservePub) = true ↔ e.reservePub ∈ ps := by
    simp [hs]
  have hmap : ∀ qs : List ReservePub, (qs.map (k.summaryOf es)).map (fun rs =>
      if rs.reservePub = e.reservePub then e.addTo rs else rs) =
      qs.map (k.summaryOf (es ++ [e])) := by
    intro qs
    rw [List.map_map]
    refine List.map_congr_left fun r _ => ?_
    rw [AuditCore.summaryOf_append, Function.comp_apply, AuditCore.reservePub_summaryOf]
    simp only [eq_comm]
  unfold AuditCore.enter AuditCore.setup
  by_cases h : e.reservePub ∈ ps
  · rw [if_pos (hany.2 h), if_pos h, ← hmap, ← hs]
    rfl
  · rw [if_neg (fun h' => h (hany.1 h')), if_neg h, ← hmap, List.map_append, ← hs]
    have hnew : k.summaryOf es e.reservePub = l.newSummary e.reservePub := by
      unfold AuditCore.summaryOf
      rw [List.filter_eq_nil_iff.2, List.foldl_nil, AuditCore.newSummary_congr hl]
      intro e' he'
      simpa using fun h' => h ((hps _).2 ⟨e', he', h'⟩)
    rw [List.map_singleton, hnew]
    rfl

/-- **The summaries after the rows**: one for each reserve that has an entry. -/
theorem summaries_bookAll (hk : k.summaries = []) (xs : List Booked) :
    ∃ ps : List ReservePub, ps.Nodup ∧ (∀ r, r ∈ ps ↔ ∃ e ∈ entries xs, e.reservePub = r) ∧
      (k.bookAll xs).summaries = ps.map (k.summaryOf (entries xs)) := by
  induction xs using List.reverseRecOn with
  | nil => exact ⟨[], List.nodup_nil, by simp [entries], by simpa [AuditCore.bookAll] using hk⟩
  | append_singleton xs x ih =>
    obtain ⟨ps, hn, hm, hs⟩ := ih
    rw [AuditCore.bookAll_append]
    obtain ⟨_ | e, y⟩ := x
    · refine ⟨ps, hn, by simpa [entries] using hm, ?_⟩
      have he : entries (xs ++ [⟨none, y⟩]) = entries xs := by simp [entries]
      rw [he, ← hs]
      rfl
    · have he : entries (xs ++ [⟨some e, y⟩]) = entries xs ++ [e] := by simp [entries]
      rw [he]
      refine ⟨if e.reservePub ∈ ps then ps else ps ++ [e.reservePub], ?_, fun r => ?_,
        summaries_enter e (k.reserves_bookAll xs) hm hs⟩
      · split
        · exact hn
        · rename_i h
          exact List.nodup_append.2 ⟨hn, List.nodup_singleton _, fun a ha b hb hab =>
            h (List.mem_singleton.1 hb ▸ hab ▸ ha)⟩
      · have := hm r
        split
        · rename_i h
          constructor
          · rintro hr
            obtain ⟨e', he', hr'⟩ := this.1 hr
            exact ⟨e', List.mem_append_left _ he', hr'⟩
          · rintro ⟨e', he', rfl⟩
            rcases List.mem_append.1 he' with he' | he'
            · exact (hm _).2 ⟨e', he', rfl⟩
            · exact List.mem_singleton.1 he' ▸ h
        · simp only [List.mem_append, List.mem_singleton, this]
          constructor
          · rintro (⟨e', he', hr⟩ | rfl)
            · exact ⟨e', Or.inl he', hr⟩
            · exact ⟨e, Or.inr rfl, rfl⟩
          · rintro ⟨e', he' | rfl, hr⟩
            · exact Or.inl ⟨e', he', hr⟩
            · exact Or.inr hr.symm

/-- What is added up by the entries of a reserve. -/
def sumOf (f : ReserveEntry → ℕ) (es : List ReserveEntry) (r : ReservePub) : ℕ :=
  ((es.filter (·.reservePub = r)).map f).sum

@[simp] theorem sumOf_append (f : ReserveEntry → ℕ) (es fs : List ReserveEntry) (r : ReservePub) :
    sumOf f (es ++ fs) r = sumOf f es r + sumOf f fs r := by
  simp [sumOf]

theorem sumOf_untouched (f : ReserveEntry → ℕ) (h : ¬ ∃ e ∈ es, e.reservePub = r) :
    sumOf f es r = 0 := by
  unfold sumOf
  rw [List.filter_eq_nil_iff.2]
  · rfl
  · intro e he
    simpa using fun h' => h ⟨e, he, h'⟩

/-- A figure that every entry adds to. -/
theorem summaryOf_sum (φ : ReserveSummary → ℕ) (f : ReserveEntry → ℕ)
    (h : ∀ e rs, φ (ReserveEntry.addTo e rs) = φ rs + f e) :
    φ (k.summaryOf es r) = φ (k.newSummary r) + sumOf f es r := by
  unfold AuditCore.summaryOf sumOf
  induction es.filter (·.reservePub = r) using List.reverseRecOn with
  | nil => rfl
  | append_singleton es e ih =>
    rw [List.foldl_append, List.map_append, List.sum_append, ← add_assoc, ← ih]
    exact h e _

/-- A field that no entry changes. -/
theorem summaryOf_const {β : Type} (φ : ReserveSummary → β)
    (h : ∀ e rs, φ (ReserveEntry.addTo e rs) = φ rs) :
    φ (k.summaryOf es r) = φ (k.newSummary r) := by
  unfold AuditCore.summaryOf
  induction es.filter (·.reservePub = r) using List.reverseRecOn with
  | nil => rfl
  | append_singleton es e ih =>
    rw [List.foldl_append, ← ih]
    exact h e _

/-- The balance that is remembered of a reserve. -/
def AuditCore.balanceOf (k : AuditCore) (r : ReservePub) : ℕ :=
  ((k.reserves r).map (·.balance.reserveBalance)).getD 0

@[simp] theorem totalIn_summaryOf :
    (k.summaryOf es r).totalIn = sumOf (fun e => e.credit) es r := by
  rw [summaryOf_sum (fun rs => rs.totalIn) (fun e => e.credit) fun _ _ => rfl]
  unfold AuditCore.newSummary
  split <;> exact zero_add _

@[simp] theorem totalOut_summaryOf :
    (k.summaryOf es r).totalOut = sumOf (fun e => e.debit) es r := by
  rw [summaryOf_sum (fun rs => rs.totalOut) (fun e => e.debit) fun _ _ => rfl]
  unfold AuditCore.newSummary
  split <;> exact zero_add _

theorem reserveBalance_newSummary (k : AuditCore) (r : ReservePub) :
    (k.newSummary r).prevBalance.reserveBalance = k.balanceOf r := by
  unfold AuditCore.newSummary AuditCore.balanceOf
  cases k.reserves r <;> rfl

@[simp] theorem reserveBalance_summaryOf :
    (k.summaryOf es r).prevBalance.reserveBalance = k.balanceOf r := by
  rw [summaryOf_const (fun rs => rs.prevBalance.reserveBalance) fun _ _ => rfl]
  exact reserveBalance_newSummary k r

@[simp] theorem hadRi_summaryOf : (k.summaryOf es r).hadRi = (k.reserves r).isSome := by
  rw [summaryOf_const (fun rs => rs.hadRi) fun _ _ => rfl]
  unfold AuditCore.newSummary
  cases k.reserves r <;> rfl

end Summaries

/-! ## The comparison of a reserve -/

/-- The debits do not exceed the credits. -/
def ReserveSummary.Funded (rs : ReserveSummary) : Prop :=
  rs.totalOut ≤ rs.totalIn + rs.prevBalance.reserveBalance

/-- The balance that is left. -/
def ReserveSummary.balanceLeft (rs : ReserveSummary) : ℕ :=
  rs.totalIn + rs.prevBalance.reserveBalance - rs.totalOut

/-- What is remembered of a reserve after a pass. -/
def ReserveSummary.remembered (rs : ReserveSummary) (old : Option ReserveInfo) : Option ReserveInfo :=
  let balance := rs.prevBalance.plus { rs.currBalance with reserveBalance := rs.balanceLeft }
  if rs.balanceLeft = 0 then if rs.hadRi then none else old
  else if rs.hadRi then old.map (·.updated balance rs.aExpirationDate)
  else some ⟨balance, rs.aExpirationDate, rs.senderAccount⟩

namespace AuditCore

variable (k : AuditCore)

/-- The reserve is remembered, and the total balance is updated. -/
def settle (rs : ReserveSummary) : AuditCore :=
  { k with
    balances.reserveTotalBalance := k.balances.reserveTotalBalance + rs.totalIn - rs.totalOut
    summaries := k.summaries.filter (·.reservePub ≠ rs.reservePub)
    reserves := Function.update k.reserves rs.reservePub
      (rs.remembered (k.reserves rs.reservePub)) }

/-- The core without what depends on the exchange's own balances and on the time. -/
def audited : AuditCore :=
  { k with
    rcQs := 0
    balances.balanceReserveNotClosed := 0
    balances.summaryDeltaPlus := 0
    balances.summaryDeltaMinus := 0
    balanceReports := [] }

end AuditCore

section Verify

variable {env : ReserveAuditEnv} {k : AuditCore} {rs : ReserveSummary}

theorem newBalance_funded (h : rs.Funded) : rs.newBalance = some rs.balanceLeft := if_pos h

theorem yields_checkFunded (h : rs.Funded) :
    Yields env (checkFunded allOk rs) k
      (some { rs.currBalance with reserveBalance := rs.balanceLeft }) k := by
  unfold checkFunded
  rw [newBalance_funded h]
  exact yields_pure _ _

/-- The same is audited, without an error. -/
def AuditCore.Same (k l : AuditCore) : Prop := l.Fine ∧ l.audited = k.audited

theorem AuditCore.Fine.same (hk : k.Fine) : k.Same k := ⟨hk, rfl⟩

/-- A change of the book that is not audited. -/
theorem ends_onBook_same {g : AuditBook → AuditBook} (hk : k.Fine)
    (h : ∀ s : AuditRun, (AuditRun.core { s with book := g s.book }).audited = s.core.audited) :
    Ends env (onBook g) k fun _ l => k.Same l := by
  intro s hr hs
  subst hs
  exact ⟨hr, ⟨hk.1, hk.2, hk.3⟩, h s⟩

theorem AuditCore.Same.trans {k l m : AuditCore} (h : k.Same l) (h' : l.Same m) : k.Same m :=
  ⟨h'.1, h'.2.trans h.2⟩

theorem ends_pure {α : Type} {a : α} {P : α → AuditCore → Prop} (h : P a k) :
    Ends env (pure a) k P :=
  fun _ hr hs => ⟨hr, hs ▸ h⟩

/-- The exchange's own balance does not matter for what is audited; the same balance is no
inconsistency. -/
theorem ends_checkSummary (balance : ℕ) (hk : k.Fine) :
    Ends env (checkSummary allOk env rs balance) k fun ok l =>
      ok = true ∧ k.Same l ∧ (env.reservesGet rs.reservePub = some balance → l = k) := by
  refine (yields_callUnchecked _ k).bind ?_
  cases hg : env.reservesGet rs.reservePub with
  | none =>
    have hm : (if ((if (none : Option ℕ).isSome then 1 else 0 : ℤ)) = 1 then (none : Option ℕ)
        else none) = none := ite_self _
    rw [hm]
    refine (yields_call 1 k).bind ?_
    rw [if_neg (by decide)]
    refine (ends_onBook_same hk fun s => rfl).bind fun _ l hl => ?_
    refine Ends.bind (P := fun _ m => k.Same m) (fun s hr hs => ⟨hr, ?_⟩) fun _ m hm =>
      ends_pure ⟨rfl, hm, fun h => nomatch h⟩
    subst hs
    exact hl.trans ⟨⟨hl.1.1, zero_le_one' ℤ, hl.1.3⟩, rfl⟩
  | some exchangeBalance =>
    rw [if_pos (by rfl)]
    dsimp only
    by_cases hb : balance = exchangeBalance
    · rw [if_pos hb]
      exact ends_pure ⟨rfl, hk.same, fun _ => rfl⟩
    · rw [if_neg hb]
      have hend : ∀ l, k.Same l → Ends env (do
          let qs ← call allOk 1
          if qs < 0 then return ← stopWith qs
          onBook (·.report (.balanceInsufficient rs.reservePub (rs.newBalance.getD 0) true))
          let qs ← call allOk 1
          if qs < 0 then return ← stopWith qs
          onBook (·.report (.balanceSummaryWrong rs.reservePub exchangeBalance balance))
          return true) l fun ok m =>
          ok = true ∧ k.Same m ∧ (some exchangeBalance = some balance → m = k) := by
        intro l hl
        refine (yields_call 1 l).bind ?_
        rw [if_neg (by decide)]
        refine (ends_onBook_same hl.1 fun s => rfl).bind fun _ m hm => ?_
        refine (yields_call 1 m).bind ?_
        rw [if_neg (by decide)]
        refine (ends_onBook_same hm.1 fun s => rfl).bind fun _ n hn => ?_
        exact ends_pure ⟨rfl, (hl.trans hm).trans hn, fun h => absurd (Option.some.inj h).symm hb⟩
      split
      · exact (ends_onBook_same hk fun s => rfl).bind fun _ l hl => hend l hl
      · exact (ends_onBook_same hk fun s => rfl).bind fun _ l hl => hend l hl

theorem ends_checkClosed (h : rs.Funded) (hk : k.Fine) :
    Ends env (checkClosed allOk env rs) k fun ok l =>
      ok = true ∧ k.Same l ∧ l.balanceReports = k.balanceReports := by
  have hend : ∀ (n : ℕ) (l : AuditCore), k.Same l → l.balanceReports = k.balanceReports →
      Ends env (do
        let qs ← call allOk 1
        if qs < 0 then return ← stopWith qs
        onBook (·.report (.notClosed rs.reservePub n))
        return true) l fun ok l => ok = true ∧ k.Same l ∧ l.balanceReports = k.balanceReports := by
    intro n l hl hb
    refine (yields_call 1 l).bind ?_
    rw [if_neg (by decide)]
    exact (yields_report rfl l).bind (ends_pure ⟨rfl, hl, hb⟩)
  unfold checkClosed
  split
  · exact ends_pure ⟨rfl, hk.same, rfl⟩
  · rw [newBalance_funded h]
    have hnone := hend rs.balanceLeft k hk.same rfl
    split
    · exact (yields_pure none k).bind hnone
    · refine (yields_getClosingFee env _ _ k).bind ?_
      cases env.closingFee _ rs.aExpirationDate with
      | none => exact hnone
      | some cfee =>
        dsimp only
        split
        · exact ends_pure ⟨rfl, hk.same, rfl⟩
        · refine Ends.bind (P := fun _ l => k.Same l ∧ l.balanceReports = k.balanceReports)
            (fun s hr hs => ⟨hr, ?_⟩) fun _ l hl => hend _ l hl.1 hl.2
          subst hs
          exact ⟨⟨⟨hk.1, hk.2, hk.3⟩, rfl⟩, rfl⟩

theorem yields_updateTotal (h : rs.totalOut ≤ k.balances.reserveTotalBalance + rs.totalIn) :
    Yields env (updateTotal allOk rs) k true { k with
      balances.reserveTotalBalance := k.balances.reserveTotalBalance + rs.totalIn - rs.totalOut } := by
  refine (yields_onBook (l := { k with balances.reserveTotalBalance :=
    k.balances.reserveTotalBalance + rs.totalIn }) ?_).bind ?_
  · rintro s rfl
    rfl
  refine ends_get_bind fun s _ hs => ?_
  have ht : s.book.balances.reserveTotalBalance = k.balances.reserveTotalBalance + rs.totalIn :=
    congrArg (fun l => l.balances.reserveTotalBalance) hs
  dsimp only
  rw [ht, if_neg (not_lt.2 h)]
  refine (yields_onBook ?_).bind (yields_pure _ _)
  rintro t ht
  exact congrArg (fun l : AuditCore => { l with balances.reserveTotalBalance :=
    k.balances.reserveTotalBalance + rs.totalIn - rs.totalOut }) ht

theorem yields_rememberReserve (rs : ReserveSummary) (k : AuditCore) :
    Yields env (rememberReserve allOk rs
      (rs.prevBalance.plus { rs.currBalance with reserveBalance := rs.balanceLeft })) k true { k with
        reserves := Function.update k.reserves rs.reservePub
          (rs.remembered (k.reserves rs.reservePub)) } := by
  unfold rememberReserve ReserveSummary.remembered
  have hbal : (rs.prevBalance.plus
      { rs.currBalance with reserveBalance := rs.balanceLeft }).reserveBalance = rs.balanceLeft := rfl
  rw [hbal]
  by_cases hb : rs.balanceLeft = 0
  · simp only [if_pos hb]
    cases rs.hadRi with
    | false =>
      rw [if_pos ⟨hb, rfl⟩, if_neg (by decide), Function.update_eq_self]
      exact yields_pure _ _
    | true =>
      rw [if_neg (by simp), if_pos rfl]
      refine (yields_call 1 k).bind ?_
      rw [if_neg (by decide)]
      refine (yields_onBook ?_).bind (yields_pure _ _)
      rintro s rfl
      rfl
  · rw [if_neg (fun h => hb h.1)]
    simp only [if_neg hb]
    refine (yields_call 1 k).bind ?_
    rw [if_neg (by decide)]
    split
    · refine (yields_onBook ?_).bind (yields_pure _ _)
      rintro s rfl
      rfl
    · refine (yields_onBook ?_).bind (yields_pure _ _)
      rintro s rfl
      rfl

theorem AuditCore.audited_settle (k : AuditCore) (rs : ReserveSummary) :
    (k.settle rs).audited = k.audited.settle rs := rfl

theorem AuditCore.Same.settle {k l : AuditCore} (h : k.Same l) (rs : ReserveSummary) :
    (l.settle rs).audited = (k.settle rs).audited := by
  rw [AuditCore.audited_settle, h.2]
  rfl

theorem AuditCore.Same.total {k l : AuditCore} (h : k.Same l) :
    l.balances.reserveTotalBalance = k.balances.reserveTotalBalance := by
  have h' := congrArg (fun m : AuditCore => m.balances.reserveTotalBalance) h.2
  exact h'

/-- **The comparison of a reserve** settles it, and finds no inconsistency if the exchange has the same
balance. -/
theorem ends_verifyReserveBalance (h : rs.Funded) (hk : k.Fine)
    (ht : rs.totalOut ≤ k.balances.reserveTotalBalance + rs.totalIn) :
    Ends env (verifyReserveBalance allOk env rs) k fun ok l =>
      ok = true ∧ l.Fine ∧ l.audited = (k.settle rs).audited ∧
        ((env.internalChecks = true → env.reservesGet rs.reservePub = some rs.balanceLeft) →
          l.balanceReports = k.balanceReports) := by
  refine (yields_checkFunded h).bind ?_
  dsimp only
  -- after the check of the summary, if it is made
  have hrest : ∀ l, k.Same l →
      ((env.internalChecks = true → env.reservesGet rs.reservePub = some rs.balanceLeft) →
        l.balanceReports = k.balanceReports) → Ends env (do
      if !(← checkClosed allOk env rs) then return false
      let prev ← addTotals rs.prevBalance { rs.currBalance with reserveBalance := rs.balanceLeft }
      if !(← updateTotal allOk rs) then return false
      let ret ← rememberReserve allOk rs prev
      onBook fun b => { b with summaries := b.summaries.filter (·.reservePub ≠ rs.reservePub) }
      return ret) l fun ok l => ok = true ∧ l.Fine ∧ l.audited = (k.settle rs).audited ∧
        ((env.internalChecks = true → env.reservesGet rs.reservePub = some rs.balanceLeft) →
          l.balanceReports = k.balanceReports) := by
    intro l hl hrep
    refine (ends_checkClosed h hl.1).bind ?_
    rintro _ m ⟨rfl, hm, hmrep⟩
    have hkm := hl.trans hm
    rw [if_neg (by decide)]
    refine (yields_addTotals _ _ m).bind ?_
    refine (yields_updateTotal (by rw [hkm.total]; exact ht)).bind ?_
    rw [if_neg (by decide)]
    refine (yields_rememberReserve rs _).bind ?_
    refine Yields.bind (a := ()) (l := m.settle rs) (yields_onBook fun s hs => ?_) (ends_pure ?_)
    · exact congrArg (fun l : AuditCore =>
        { l with summaries := l.summaries.filter (·.reservePub ≠ rs.reservePub) }) hs
    · exact ⟨rfl, ⟨hm.1.1, hm.1.2, hm.1.3⟩, hkm.settle rs, fun hg => hmrep.trans (hrep hg)⟩
  split
  · rename_i hi
    refine (ends_checkSummary _ hk).bind ?_
    rintro _ l ⟨rfl, hl, hrep⟩
    rw [if_neg (by decide)]
    exact hrest l hl fun hg => by rw [hrep (hg hi)]
  · exact hrest k hk.same fun _ => rfl

end Verify

/-! ## The total balance -/

section Total

variable {env : ReserveAuditEnv} {k l : AuditCore} {rs : ReserveSummary} {r : ReservePub}

/-- The total balance is the sum of the remembered ones. -/
def AuditCore.Balanced (k : AuditCore) : Prop :=
  ∃ S : Finset ReservePub, (∀ r, r ∉ S → k.balanceOf r = 0) ∧
    k.balances.reserveTotalBalance = ∑ r ∈ S, k.balanceOf r

theorem AuditCore.Balanced.total_eq (hk : k.Balanced) (hl : l.Balanced)
    (h : ∀ r, k.balanceOf r = l.balanceOf r) :
    k.balances.reserveTotalBalance = l.balances.reserveTotalBalance := by
  obtain ⟨S, hS0, hS⟩ := hk
  obtain ⟨T, hT0, hT⟩ := hl
  rw [hS, hT, Finset.sum_subset (@Finset.subset_union_left _ _ S T) fun r _ hr => hS0 r hr,
    Finset.sum_subset (@Finset.subset_union_right _ _ S T) fun r _ hr => hT0 r hr]
  exact Finset.sum_congr rfl fun r _ => h r

/-- The summary goes on from what is remembered. -/
structure ReserveSummary.From (rs : ReserveSummary) (k : AuditCore) : Prop where
  funded : rs.Funded
  prev : rs.prevBalance.reserveBalance = k.balanceOf rs.reservePub
  had : rs.hadRi = (k.reserves rs.reservePub).isSome

theorem AuditCore.Balanced.enough (h : k.Balanced) (r : ReservePub) :
    k.balanceOf r ≤ k.balances.reserveTotalBalance := by
  obtain ⟨S, h0, hs⟩ := h
  by_cases hr : r ∈ S
  · rw [hs]
    exact Finset.single_le_sum (fun _ _ => Nat.zero_le _) hr
  · rw [h0 r hr]
    exact Nat.zero_le _

theorem reserves_settle (k : AuditCore) (rs : ReserveSummary) :
    (k.settle rs).reserves = Function.update k.reserves rs.reservePub
      (rs.remembered (k.reserves rs.reservePub)) := rfl

theorem audited_settleAll {k l : AuditCore} (h : k.audited = l.audited) (rss : List ReserveSummary) :
    (rss.foldl AuditCore.settle k).audited = (rss.foldl AuditCore.settle l).audited := by
  induction rss generalizing k l with
  | nil => exact h
  | cons rs rss ih => exact ih (by rw [AuditCore.audited_settle, AuditCore.audited_settle, h])

theorem balanceOf_settle_self (h : rs.From k) :
    (k.settle rs).balanceOf rs.reservePub = rs.balanceLeft := by
  unfold AuditCore.balanceOf AuditCore.settle ReserveSummary.remembered
  simp only [Function.update_self, h.had]
  by_cases hb : rs.balanceLeft = 0
  · cases k.reserves rs.reservePub with
    | none => simp [hb]
    | some ri => simp [hb]
  · cases k.reserves rs.reservePub with
    | none => simp [hb, ReserveFeeBalance.plus]
    | some ri => simp [hb, ReserveInfo.updated, ReserveFeeBalance.plus]

theorem balanceOf_settle_of_ne (h : r ≠ rs.reservePub) :
    (k.settle rs).balanceOf r = k.balanceOf r := by
  unfold AuditCore.balanceOf
  rw [reserves_settle, Function.update_of_ne h]

theorem AuditCore.Balanced.settle (hk : k.Balanced) (h : rs.From k) : (k.settle rs).Balanced := by
  obtain ⟨S, h0, hs⟩ := hk
  have hf : rs.totalOut ≤ rs.totalIn + k.balanceOf rs.reservePub := by
    have := h.funded
    unfold ReserveSummary.Funded at this
    rwa [h.prev] at this
  have hsum : ∀ l : AuditCore, ∑ r ∈ insert rs.reservePub S, l.balanceOf r =
      l.balanceOf rs.reservePub + ∑ r ∈ S.erase rs.reservePub, l.balanceOf r := by
    intro l
    rw [← Finset.sum_erase_add _ _ (Finset.mem_insert_self rs.reservePub S), add_comm,
      Finset.erase_insert_eq_erase]
  have hold : k.balances.reserveTotalBalance =
      k.balanceOf rs.reservePub + ∑ r ∈ S.erase rs.reservePub, k.balanceOf r := by
    rw [hs, ← hsum]
    by_cases hr : rs.reservePub ∈ S
    · rw [Finset.insert_eq_of_mem hr]
    · rw [Finset.sum_insert hr, h0 _ hr, zero_add]
  refine ⟨insert rs.reservePub S, fun r hr => ?_, ?_⟩
  · rw [Finset.mem_insert, not_or] at hr
    rw [balanceOf_settle_of_ne hr.1]
    exact h0 r hr.2
  · have hrest : ∑ r ∈ S.erase rs.reservePub, (k.settle rs).balanceOf r =
        ∑ r ∈ S.erase rs.reservePub, k.balanceOf r :=
      Finset.sum_congr rfl fun r hr => balanceOf_settle_of_ne (Finset.ne_of_mem_erase hr)
    rw [hsum, hrest, balanceOf_settle_self h]
    change k.balances.reserveTotalBalance + rs.totalIn - rs.totalOut = _
    unfold ReserveSummary.balanceLeft
    rw [h.prev]
    omega

theorem AuditCore.balanceOf_congr (h : k.reserves = l.reserves) (r : ReservePub) :
    k.balanceOf r = l.balanceOf r := by
  unfold AuditCore.balanceOf
  rw [h]

theorem AuditCore.Balanced.congr (hk : k.Balanced) (hr : l.reserves = k.reserves)
    (ht : l.balances.reserveTotalBalance = k.balances.reserveTotalBalance) : l.Balanced := by
  obtain ⟨S, h0, hs⟩ := hk
  have hb := AuditCore.balanceOf_congr hr
  refine ⟨S, fun r h => (hb r).trans (h0 r h), ?_⟩
  rw [ht, hs]
  exact Finset.sum_congr rfl fun r _ => (hb r).symm

theorem ReserveSummary.From.congr (h : rs.From k) (hr : l.reserves rs.reservePub =
    k.reserves rs.reservePub) : rs.From l := by
  refine ⟨h.funded, ?_, ?_⟩
  · rw [h.prev]
    unfold AuditCore.balanceOf
    rw [hr]
  · rw [hr, h.had]

/-- **The comparisons of all reserves** settle them. -/
theorem ends_verifyReserves (rss : List ReserveSummary) (hn : (rss.map (·.reservePub)).Nodup)
    (hk : k.Fine) (hb : k.Balanced) (hrs : ∀ rs ∈ rss, rs.From k) :
    Ends env (iterate (verifyReserveBalance allOk env) rss) k fun _ l =>
      l.Fine ∧ l.audited = (rss.foldl AuditCore.settle k).audited ∧ l.Balanced ∧
        ((∀ rs ∈ rss, env.internalChecks = true →
          env.reservesGet rs.reservePub = some rs.balanceLeft) →
            l.balanceReports = k.balanceReports) := by
  induction rss generalizing k with
  | nil => exact ends_pure ⟨hk, rfl, hb, fun _ => rfl⟩
  | cons rs rss ih =>
    have hfrom := hrs rs List.mem_cons_self
    have hne : ∀ rs' ∈ rss, rs'.reservePub ≠ rs.reservePub := by
      intro rs' h' heq
      rw [List.map_cons, List.nodup_cons] at hn
      exact hn.1 (heq ▸ List.mem_map_of_mem h')
    have ht : rs.totalOut ≤ k.balances.reserveTotalBalance + rs.totalIn := by
      have h1 := hfrom.funded
      have h2 := hb.enough rs.reservePub
      unfold ReserveSummary.Funded at h1
      rw [hfrom.prev] at h1
      omega
    refine (ends_verifyReserveBalance hfrom.funded hk ht).bind ?_
    rintro _ l ⟨rfl, hl, hal, hrep⟩
    rw [if_pos rfl]
    have hres : l.reserves = (k.settle rs).reserves := by
      have h' := congrArg (fun m : AuditCore => m.reserves) hal
      exact h'
    have htot : l.balances.reserveTotalBalance = (k.settle rs).balances.reserveTotalBalance := by
      have h' := congrArg (fun m : AuditCore => m.balances.reserveTotalBalance) hal
      exact h'
    refine fun s hr hs => ?_
    obtain ⟨h1, h2, h3, h4, h5⟩ := ih (List.nodup_cons.1 hn).2 hl
      ((hb.settle hfrom).congr hres htot) (fun rs' h' => (hrs rs' (List.mem_cons_of_mem _ h')).congr
        (by rw [hres]; exact Function.update_of_ne (hne rs' h') _ _)) s hr hs
    refine ⟨h1, h2, ?_, h4, fun hg => ?_⟩
    · rw [h3]
      exact audited_settleAll hal rss
    · rw [h5 fun rs' h' => hg rs' (List.mem_cons_of_mem _ h'), hrep (hg rs List.mem_cons_self)]

theorem reserves_settleAll (rss : List ReserveSummary) (hn : (rss.map (·.reservePub)).Nodup)
    (k : AuditCore) (r : ReservePub) :
    (r ∉ rss.map (·.reservePub) → (rss.foldl AuditCore.settle k).reserves r = k.reserves r) ∧
      ∀ rs ∈ rss, rs.reservePub = r →
        (rss.foldl AuditCore.settle k).reserves r = rs.remembered (k.reserves r) := by
  induction rss generalizing k with
  | nil => exact ⟨fun _ => rfl, fun rs h => nomatch h⟩
  | cons rs rss ih =>
    rw [List.map_cons, List.nodup_cons] at hn
    obtain ⟨ih1, ih2⟩ := ih hn.2 (k.settle rs)
    refine ⟨fun hr => ?_, fun rs' h' hr => ?_⟩
    · rw [List.map_cons, List.mem_cons, not_or] at hr
      rw [List.foldl_cons, ih1 hr.2, reserves_settle, Function.update_of_ne hr.1]
    · rw [List.foldl_cons]
      rcases List.mem_cons.1 h' with rfl | h'
      · rw [ih1 (hr ▸ hn.1), reserves_settle, hr, Function.update_self]
      · have hne : r ≠ rs.reservePub := fun heq =>
          hn.1 (heq ▸ hr ▸ List.mem_map_of_mem h')
        rw [ih2 rs' h' hr, reserves_settle, Function.update_of_ne hne]

/-- The balances without the total and without what depends on the exchange's own balances and on the
time. -/
def ReserveBalances.revenues (b : ReserveBalances) : ReserveBalances :=
  { b with
    reserveTotalBalance := 0
    balanceReserveNotClosed := 0
    summaryDeltaPlus := 0
    summaryDeltaMinus := 0 }

theorem settleAll_frame (rss : List ReserveSummary) (k : AuditCore) :
    (rss.foldl AuditCore.settle k).balances.revenues = k.balances.revenues ∧
      (rss.foldl AuditCore.settle k).progress = k.progress := by
  induction rss generalizing k with
  | nil => exact ⟨rfl, rfl⟩
  | cons rs rss ih => exact ih (k.settle rs)

theorem balances_bookAll (k : AuditCore) (xs : List Booked) :
    (k.bookAll xs).balances = (xs.map (·.balances)).foldl ReserveBalances.plus k.balances := by
  induction xs generalizing k with
  | nil => rfl
  | cons x xs ih => exact ih (k.book x)

end Total

/-! ## A pass -/

section Pass

variable {env : ReserveAuditEnv} {rows : AuditRows} {k l : AuditCore} {s : AuditRun}

/-- What a pass over rows that book `xs` leaves for the next one, from what it has loaded. -/
structure Passed (xs : List Booked) (k l : AuditCore) : Prop where
  revenues : l.balances.revenues =
    ((xs.map (·.balances)).foldl ReserveBalances.plus k.balances).revenues
  balanced : l.Balanced
  touched : ∀ r, (∃ e ∈ entries xs, e.reservePub = r) →
    l.reserves r = (k.summaryOf (entries xs) r).remembered (k.reserves r)
  untouched : ∀ r, (¬ ∃ e ∈ entries xs, e.reservePub = r) → l.reserves r = k.reserves r

/-- The entries of the pass leave no reserve in debt. -/
def Solvent (es : List ReserveEntry) (k : AuditCore) : Prop :=
  ∀ r, sumOf (fun e => e.debit) es r ≤ sumOf (fun e => e.credit) es r + k.balanceOf r

theorem summaryOf_from {es : List ReserveEntry} (h : Solvent es k) (r : ReservePub)
    (hl : l.reserves = k.reserves) : (k.summaryOf es r).From l := by
  refine ⟨?_, ?_, ?_⟩
  · unfold ReserveSummary.Funded
    rw [totalIn_summaryOf, totalOut_summaryOf, reserveBalance_summaryOf]
    exact h r
  · rw [reserveBalance_summaryOf, AuditCore.reservePub_summaryOf, AuditCore.balanceOf_congr hl]
  · rw [hadRi_summaryOf, AuditCore.reservePub_summaryOf, hl]

/-- The walk through the summaries, in some order. -/
theorem filterMap_summaries (env : ReserveAuditEnv) (es : List ReserveEntry) (ps : List ReservePub) :
    (env.order ((ps.map (k.summaryOf es)).map (·.reservePub))).filterMap (fun r =>
      (ps.map (k.summaryOf es)).find? (·.reservePub = r)) =
      (env.order ps).map (k.summaryOf es) := by
  have hpub : (ps.map (k.summaryOf es)).map (·.reservePub) = ps := by
    rw [List.map_map]
    exact (List.map_congr_left fun r _ => k.reservePub_summaryOf es r).trans (List.map_id ps)
  rw [hpub]
  have hfind : ∀ r ∈ env.order ps,
      (ps.map (k.summaryOf es)).find? (·.reservePub = r) = some (k.summaryOf es r) := by
    intro r hr
    have hps : r ∈ ps := (env.order_perm ps).mem_iff.1 hr
    obtain ⟨a, ha⟩ := Option.isSome_iff_exists.1 
      (List.find?_isSome (p := fun a => decide (a = r)) |>.2 ⟨r, hps, decide_eq_true rfl⟩)
    have har : a = r := by simpa using List.find?_some ha
    rw [List.find?_map, Function.comp_def]
    simp only [AuditCore.reservePub_summaryOf]
    rw [ha, har, Option.map_some]
  generalize env.order ps = qs at hfind ⊢
  induction qs with
  | nil => rfl
  | cons q qs ih =>
    rw [List.filterMap_cons, hfind q List.mem_cons_self, List.map_cons,
      ih fun r hr => hfind r (List.mem_cons_of_mem _ hr)]

/-- The walk through `rc.reserves` after the rows. -/
theorem ends_verifyAll {xs : List Booked} (hk : k.Fine) (hsum : k.summaries = [])
    (hb : (k.bookAll xs).Balanced) (hes : Solvent (entries xs) k) (p : ReserveProgress) :
    Ends env (verifyAll allOk env) { k.bookAll xs with progress := p } fun _ l =>
      l.Fine ∧ l.progress = p ∧ Passed xs k l ∧
        ((env.internalChecks = true → ∀ r, (∃ e ∈ entries xs, e.reservePub = r) →
          env.reservesGet r = some (k.balanceOf r + sumOf (fun e => e.credit) (entries xs) r -
            sumOf (fun e => e.debit) (entries xs) r)) →
          l.balanceReports = k.balanceReports) := by
  obtain ⟨ps, hn, hps, hs⟩ := summaries_bookAll hsum xs
  refine ends_get_bind fun s _ hcore => ?_
  have hsums : s.book.summaries = ps.map (k.summaryOf (entries xs)) := by
    have h := congrArg (fun m : AuditCore => m.summaries) hcore
    exact h.trans hs
  dsimp only
  rw [hsums, filterMap_summaries]
  have hperm := env.order_perm ps
  have hpubs : ((env.order ps).map (k.summaryOf (entries xs))).map (·.reservePub) = env.order ps := by
    rw [List.map_map]
    exact (List.map_congr_left fun r _ => k.reservePub_summaryOf _ r).trans (List.map_id _)
  have hnodup : (((env.order ps).map (k.summaryOf (entries xs))).map (·.reservePub)).Nodup := by
    rw [hpubs]
    exact hperm.nodup_iff.2 hn
  have hres := k.reserves_bookAll xs
  intro t hr ht
  obtain ⟨h1, h2, h3, h4, h5⟩ := @ends_verifyReserves env { k.bookAll xs with progress := p } _
    hnodup ⟨(hk.bookAll xs).1, (hk.bookAll xs).2, (hk.bookAll xs).3⟩ (hb.congr rfl rfl)
    (fun rs hrs => by
      obtain ⟨r, _, rfl⟩ := List.mem_map.1 hrs
      exact summaryOf_from hes r hres) t hr ht
  obtain ⟨hrev, hprog⟩ := settleAll_frame ((env.order ps).map (k.summaryOf (entries xs)))
    { k.bookAll xs with progress := p }
  have hmem : ∀ r, (∃ e ∈ entries xs, e.reservePub = r) ↔ r ∈ env.order ps := fun r =>
    (hps r).symm.trans hperm.mem_iff.symm
  have hfinal := fun r => reserves_settleAll _ hnodup { k.bookAll xs with progress := p } r
  refine ⟨h1, h2, ?_, ⟨?_, h4, fun r hr => ?_, fun r hr => ?_⟩, fun hg => ?_⟩
  · have h := congrArg (fun m : AuditCore => m.progress) h3
    exact h.trans hprog
  · have h := congrArg (fun m : AuditCore => m.balances.revenues) h3
    rw [← balances_bookAll]
    exact h.trans hrev
  · have h := congrArg (fun m : AuditCore => m.reserves r) h3
    refine h.trans (((hfinal r).2 _ (List.mem_map_of_mem ((hmem r).1 hr))
      (k.reservePub_summaryOf _ r)).trans ?_)
    change ReserveSummary.remembered _ ((k.bookAll xs).reserves r) = _
    rw [hres]
  · have h := congrArg (fun m : AuditCore => m.reserves r) h3
    refine h.trans (((hfinal r).1 ?_).trans (congrFun hres r))
    rw [hpubs]
    exact fun h' => hr ((hmem r).2 h')
  · refine (h5 fun rs hrs hi => ?_).trans ?_
    · obtain ⟨r, hr, rfl⟩ := List.mem_map.1 hrs
      rw [AuditCore.reservePub_summaryOf, hg hi r ((hmem r).2 hr)]
      unfold ReserveSummary.balanceLeft
      rw [totalIn_summaryOf, totalOut_summaryOf, reserveBalance_summaryOf, add_comm]
    · obtain ⟨ss, b, h⟩ := k.bookAll_frame xs
      rw [h]

theorem yields_storeProgress (k : AuditCore) : Yields env (storeProgress allOk) k 1
    { k with storedBalances := some k.balances, storedProgress := some k.progress } := by
  have hopt : ∀ {α : Type} (x : Option α) (a : α), (x <|> some a).map (fun _ => a) = some a := by
    intro α x a
    cases x <;> rfl
  have hcall : ∀ {f : QueryCode → Audit QueryCode} {k : AuditCore} {Q}, Ends env (f 1) k Q →
      Ends env (call allOk 1 >>= f) k Q := fun h => (yields_call 1 _).bind h
  unfold storeProgress
  refine hcall ?_
  rw [if_neg (by decide)]
  refine Yields.bind (a := ()) (l := { k with storedBalances := k.storedBalances <|> some k.balances })
    (yields_onBook ?_) (hcall ?_)
  · rintro s rfl
    rfl
  rw [if_neg (by decide)]
  refine Yields.bind (a := ()) (l := { k with storedBalances := some k.balances })
    (yields_onBook fun s hs => ?_) (hcall ?_)
  · have h := congrArg (fun m : AuditCore =>
      { m with storedBalances := m.storedBalances.map fun _ => m.balances }) hs
    refine h.trans ?_
    dsimp only
    rw [hopt]
  rw [if_neg (by decide)]
  refine Yields.bind (a := ()) (l := { k with
    storedBalances := some k.balances, storedProgress := k.storedProgress <|> some k.progress })
    (yields_onBook fun s hs => ?_) (hcall ?_)
  · exact congrArg (fun m : AuditCore =>
      { m with storedProgress := m.storedProgress <|> some m.progress }) hs
  rw [if_neg (by decide)]
  refine Yields.bind (a := ()) (yields_onBook fun s hs => ?_) (yields_pure _ _)
  have h := congrArg (fun m : AuditCore =>
    { m with storedProgress := m.storedProgress.map fun _ => m.progress }) hs
  refine h.trans ?_
  dsimp only
  rw [hopt]

theorem total_bookAll {xs : List Booked} (hx : ∀ x ∈ xs, x.balances.reserveTotalBalance = 0)
    (k : AuditCore) :
    (k.bookAll xs).balances.reserveTotalBalance = k.balances.reserveTotalBalance := by
  induction xs generalizing k with
  | nil => rfl
  | cons x xs ih =>
    refine (ih (fun y hy => hx y (List.mem_cons_of_mem _ hy)) (k.book x)).trans ?_
    have h := hx x List.mem_cons_self
    change k.balances.reserveTotalBalance + x.balances.reserveTotalBalance = _
    rw [h, add_zero]

/-- No row books in the total balance. -/
theorem total_booked (env : ReserveAuditEnv) (rows : AuditRows) :
    ∀ x ∈ rows.booked env, x.balances.reserveTotalBalance = 0 := by
  have hout : ∀ row : WithdrawalRow, (row.booked env).balances.reserveTotalBalance = 0 := by
    intro row
    unfold WithdrawalRow.booked
    cases env.denomination row.hDenomPub with
    | none => rfl
    | some issue => dsimp only; split <;> rfl
  have hrecoup : ∀ row : RecoupRow, (row.booked env).balances.reserveTotalBalance = 0 := by
    intro row
    unfold RecoupRow.booked RecoupRow.notRevoked
    rcases env.revocation row.denomPubHash with _ | ⟨_ | _, n⟩ <;> rfl
  have hopen : ∀ row : ReserveOpenRow, (row.booked env).balances.reserveTotalBalance = 0 := by
    intro row
    unfold ReserveOpenRow.booked
    split <;> rfl
  have hclose : ∀ row : ReserveClosedRow, (row.booked env).balances.reserveTotalBalance = 0 := by
    intro row
    unfold ReserveClosedRow.booked ReserveClosedRow.feeDelta
    cases env.closingFee row.receiverAccount row.executionDate <;> rfl
  have hmerge : ∀ row : AccountMergeRow, (row.booked env).balances.reserveTotalBalance = 0 := by
    intro row
    unfold AccountMergeRow.booked
    split
    · split <;> rfl
    · rfl
  intro x hx
  simp only [AuditRows.booked, List.mem_append, List.mem_map] at hx
  rcases hx with (((((⟨row, _, rfl⟩ | ⟨row, _, rfl⟩) | ⟨row, _, rfl⟩) | ⟨row, _, rfl⟩) |
    ⟨row, _, rfl⟩) | ⟨row, _, rfl⟩) | ⟨row, _, rfl⟩
  · rfl
  · exact hout row
  · exact hrecoup row
  · exact hopen row
  · exact hclose row
  · rfl
  · exact hmerge row

/-- What the rows of a pass book. -/
def passRows (env : ReserveAuditEnv) (rows : AuditRows) (s : AuditRun) : List Booked :=
  (rows.after s.core.load.progress).booked env

/-- **A pass without a failing call** ends well, and what it leaves. -/
theorem analyzeReserves_ok (hs : s.crashed = false)
    (hrows : (rows.after s.core.load.progress).Processable) (hb : s.core.load.Balanced)
    (hes : Solvent (entries (passRows env rows s)) s.core.load) :
    (analyzeReserves allOk env rows s).1 = 1 ∧ (analyzeReserves allOk env rows s).2.crashed = false ∧
      (analyzeReserves allOk env rows s).2.book.db.progress =
        some ((rows.after s.core.load.progress).advance s.core.load.progress) ∧
      (analyzeReserves allOk env rows s).2.book.db.balances.isSome ∧
      Passed (passRows env rows s) s.core.load (analyzeReserves allOk env rows s).2.core.load ∧
      ((env.internalChecks = true → ∀ r, (∃ e ∈ entries (passRows env rows s), e.reservePub = r) →
        env.reservesGet r = some (s.core.load.balanceOf r +
          sumOf (fun e => e.credit) (entries (passRows env rows s)) r -
          sumOf (fun e => e.debit) (entries (passRows env rows s)) r)) →
        (analyzeReserves allOk env rows s).2.core.balanceReports = s.core.balanceReports) := by
  have hfine := AuditCore.fine_load (k := s.core) hs
  have hb' : (s.core.load.bookAll (passRows env rows s)).Balanced :=
    hb.congr (AuditCore.reserves_bookAll _ _) (total_bookAll (total_booked env _) _)
  refine (ends_tables (Q := fun qs l => qs = 1 ∧ l.crashed = false ∧ l.storedProgress =
    some ((rows.after s.core.load.progress).advance s.core.load.progress) ∧
      l.storedBalances.isSome ∧ Passed (passRows env rows s) s.core.load l.load ∧ (_ →
        l.balanceReports = s.core.balanceReports)) hfine hrows fun n => ?_).2
  refine (ends_verifyAll hfine rfl hb' hes _).bind ?_
  rintro ⟨⟩ l ⟨hl, hp, hpassed, hrep⟩
  refine (yields_checkDb (Int.natCast_nonneg _) hl).bind ?_
  refine fun t hr ht => ⟨(yields_storeProgress l t hr ht).1, ?_⟩
  obtain ⟨_, h1, h2⟩ := @yields_storeProgress env l t hr ht
  refine ⟨h1, ?_⟩
  rw [h2]
  exact ⟨hl.alive, congrArg some hp, rfl, ⟨hpassed.1, hpassed.2.congr rfl rfl, hpassed.3, hpassed.4⟩, hrep⟩

end Pass

end TalerExchange
