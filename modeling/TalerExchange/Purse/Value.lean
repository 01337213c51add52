import TalerExchange.Coin.Ledger
import TalerExchange.Reserve.Figures

/-!
# The value of a purse

What a reserve gets for a purse was paid into it.

* `purseBalance`, `paidIn`: the balance of a purse and the deposits into it without their fees;
* `mergedFor`, `feeFor`: what a reserve was credited and what it paid for a purse, according to the
  records;
* `creditedFor`, `paidFor`: the same, taken from the balances along a run;
* **`run_purse_value`**: no order of operations mints value.
-/

namespace TalerExchange

open Sql Transition

namespace Database

variable (db : Database)

/-! ## Definitions -/

def purseBalance (p : PursePub) : ℤ := db.purseRequests.valueAt (fun q => q.balance.units) p

/-- The deposits into a purse without the deposit fees. -/
def paidIn (p : PursePub) : ℤ :=
  db.purseDeposits.total (onlyIf (fun d => d.pursePub = p)
    fun d => d.amountWithFee.units - db.figure (·.feeDeposit) d.coinPub)

/-- What a reserve got for a purse. -/
def mergedFor (p : PursePub) (r : ReservePub) : ℤ :=
  if db.isMerged p = true ∧ db.mergeTarget p = some r then
    (db.purseTerms p).elim 0 fun t => t.1.units
  else 0

/-- The fee of a purse for the reserve that it is to be merged into. -/
def feeFor (p : PursePub) (r : ReservePub) : ℤ :=
  if (db.purseMerges.lookup p).any (·.reservePub = r) then
    (db.purseTerms p).elim 0 fun t => t.2.units
  else 0

/-- The request handlers deposit into purses that exist, and subtract the deposit fee. -/
def Funded (a : PurseDepositArgs) : Prop :=
  a.amountWithoutFee.units + db.figure (·.feeDeposit) a.coinPub = a.amountWithFee.units

end Database

/-! ## Balances -/

section Balances

variable {db db' : Database} {p : Posting}

theorem PurseRequest.isFull_iff {q : PurseRequest} (h : q.balance.Normal) :
    q.isFull = true ↔ q.amountWithFee.units ≤ q.balance.units := by
  have ha := q.amountWithFee.normal_toTaler
  unfold TalerAmount.Normal at h ha
  simp only [PurseRequest.isFull, Amount.units, TalerAmount.units, decide_eq_true_eq]
  omega

theorem PurseRequest.isPaid_iff {q : PurseRequest} (h : q.balance.Normal) :
    q.isPaid = true ↔ q.amountWithFee.units ≤ q.balance.units := by
  have ha := q.amountWithFee.normal_toTaler
  unfold TalerAmount.Normal at h ha
  simp only [PurseRequest.isPaid, Amount.units, TalerAmount.units, decide_eq_true_eq]
  omega

/-- What a posting pays into a purse. -/
def paidInto : Posting → PursePub → ℤ
  | .purseDeposit a, q => if a.pursePub = q then a.amountWithoutFee.units else 0
  | _, _ => 0

section SetPurse

variable {q : PursePub} {f : PurseRequest → PurseRequest}

theorem purseBalance_setPurse {d : ℤ} (hq : db.purseRequests.hasKey q = true)
    (hd : ∀ x, (f x).balance.units = x.balance.units + d) (p : PursePub)
    (hk : ∀ x, Record.key (f x) = Record.key x := by intro; rfl)
    (hs : ∀ x, Record.serial (f x) = Record.serial x := by intro; rfl) :
    (db.setPurse q f hk hs).valueAt (fun x => x.balance.units) p =
      db.purseBalance p + if q = p then d else 0 := by
  have hp : ∀ x : PurseRequest, decide (x.pursePub = q) = true ↔ Record.key x = q := fun _ =>
    decide_eq_true_iff
  refine (Table.valueAt_update_add hp hq hd p).trans ?_
  simp only [eq_comm (a := q)]
  rfl

theorem purseBalance_setPurse_same (hf : ∀ x, (f x).balance = x.balance) (p : PursePub)
    (hk : ∀ x, Record.key (f x) = Record.key x := by intro; rfl)
    (hs : ∀ x, Record.serial (f x) = Record.serial x := by intro; rfl) :
    (db.setPurse q f hk hs).valueAt (fun x => x.balance.units) p = db.purseBalance p :=
  Table.valueAt_update_same (fun x => by rw [hf]) p

theorem purseBalance_markDecided (db : Database) (q p : PursePub) :
    (db.markDecided q).valueAt (fun x => x.balance.units) p = db.purseBalance p :=
  purseBalance_setPurse_same (f := fun x => { x with wasDecided := true }) (fun _ => rfl) p

theorem sound_setPurse (h : ∀ x ∈ db.purseRequests.rows, x.balance.Sound)
    (hf : ∀ x, x.balance.Sound → (f x).balance.Sound)
    (hk : ∀ x, Record.key (f x) = Record.key x := by intro; rfl)
    (hs : ∀ x, Record.serial (f x) = Record.serial x := by intro; rfl) :
    ∀ x ∈ (db.setPurse q f hk hs).rows, x.balance.Sound :=
  Table.forall_update h fun x _ _ => hf x

theorem sound_markDecided (h : ∀ x ∈ db.purseRequests.rows, x.balance.Sound) (q : PursePub) :
    ∀ x ∈ (db.markDecided q).rows, x.balance.Sound :=
  sound_setPurse (f := fun x => { x with wasDecided := true }) h fun _ hx => hx

end SetPurse

theorem purseBalance_insert? {a : PurseRequestArgs} {t : Table PurseRequest}
    (ht : db.purseRequests.insert? a.row = some t) (p : PursePub) :
    t.valueAt (fun r => r.balance.units) p = db.purseBalance p :=
  (Table.valueAt_insert? ht _ p).trans (by rw [PurseRequestArgs.row]; simp; rfl)

/-- Balances of purses change by deposits only. -/
theorem Posts.purseBalance (h : Posts db p db')
    (hp : ∀ a, p = .purseDeposit a → db.purseRequests.hasKey a.pursePub = true) (q : PursePub) :
    db'.purseBalance q = db.purseBalance q + paidInto p q := by
  cases h with
  | wireTarget =>
    rw [addWireTarget_frame]
    exact (add_zero _).symm
  | initReserve =>
    rw [initReserve_frame]
    exact (add_zero _).symm
  | purseRequest _ _ ht => exact (purseBalance_insert? ht q).trans (add_zero _).symm
  | reservePurse _ _ _ _ ht _ _ hpay =>
    rw [payForPurse_frame hpay]
    exact (purseBalance_insert? ht q).trans (add_zero _).symm
  | @purseDeposit a =>
    exact purseBalance_setPurse (hp a rfl) (fun _ => TalerAmount.units_plus ..) q
  | finishMerge => exact (purseBalance_markDecided ..).trans (add_zero _).symm
  | purseMerge => exact (purseBalance_markDecided ..).trans (add_zero _).symm
  | purseRefund => exact (purseBalance_markDecided ..).trans (add_zero _).symm
  | _ => exact (add_zero _).symm

/-- The balances of all purses are in range. -/
def PursesSound (db : Database) : Prop := ∀ q ∈ db.purseRequests.rows, q.balance.Sound

theorem Posts.pursesSound (h : Posts db p db') (hs : PursesSound db) : PursesSound db' := by
  cases h with
  | wireTarget =>
    rw [addWireTarget_frame]
    exact hs
  | initReserve =>
    rw [initReserve_frame]
    exact hs
  | purseRequest _ _ ht => exact Table.forall_insert? ht hs TalerAmount.sound_zero
  | reservePurse _ _ _ _ ht _ _ hpay =>
    rw [payForPurse_frame hpay]
    exact Table.forall_insert? ht hs TalerAmount.sound_zero
  | purseDeposit => exact sound_setPurse hs fun _ hq => hq.plus (Amount.sound_toTaler _)
  | finishMerge => exact sound_markDecided hs _
  | purseMerge => exact sound_markDecided hs _
  | purseRefund => exact sound_markDecided hs _
  | _ => exact hs

end Balances

/-! ## Conditions -/

/-- The arguments of the purse deposits are those that the request handlers compute: the purse
exists and the deposit fee is subtracted. -/
def PurseArgsOk (db : Database) : Posting → Prop
  | .purseDeposit a => db.purseRequests.hasKey a.pursePub = true ∧ db.Funded a
  | _ => True

/-- The same for operations. -/
def PurseCallerOk (db : Database) : Op → Prop
  | .purseDeposit a => db.purseRequests.hasKey a.pursePub = true ∧ db.Funded a
  | .createPurse _ ds => ∀ d ∈ ds, db.Funded d
  | _ => True

instance (db : Database) : (o : Op) → Decidable (PurseCallerOk db o)
  | .purseDeposit _ => inferInstanceAs (Decidable (_ = _ ∧ _ = _))
  | .createPurse .. => inferInstanceAs (Decidable (∀ d ∈ _, _ = _))
  | .denomination _ | .partner _ | .coin .. | .deposit _ | .refund _ | .melt _ | .reveal _
  | .reserveOpenDeposit _ | .recoupToReserve _ | .recoupToCoin _ | .purseMerge _ | .reservePurse ..
  | .purseDelete _ | .expirePurse _ | .reservesIn .. | .batchWithdraw .. | .ageWithdraw _
  | .reserveOpen _ | .reserveClosed _ | .closeRequest _ | .aggregate _ => .isTrue trivial

theorem SameTerms.funded {db s : Database} (hs : SameTerms db s) {a : PurseDepositArgs}
    (h : db.Funded a) : s.Funded a := by
  unfold Database.Funded CoinTables.figure at h ⊢
  rwa [hs.denomination]

theorem purseArgsOk_of_emits {db s : Database} {o : Op} {p : Posting} (ho : PurseCallerOk db o)
    (he : Emits db o s p) : PurseArgsOk s p := by
  cases p with
  | purseDeposit a =>
    obtain ⟨rfl, rfl⟩ | ⟨b, ds, rfl, ⟨d, hd, rfl⟩, hs, hk⟩ := emits_purseDeposit he
    · exact ho
    · exact ⟨hk, hs.funded (ho d hd)⟩
  | _ => trivial

/-! ## Deposits -/

section Deposits

variable {db db' : Database} {p : Posting}

theorem paidRow_of_grows (hr : KnownRows db.toCoinTables)
    (hg : Grows db.toCoinTables db'.toCoinTables) (q : PursePub) : ∀ d ∈ db.purseDeposits.rows,
    onlyIf (fun d => d.pursePub = q)
        (fun d => d.amountWithFee.units - db'.figure (·.feeDeposit) d.coinPub) d =
      onlyIf (fun d => d.pursePub = q)
        (fun d => d.amountWithFee.units - db.figure (·.feeDeposit) d.coinPub) d := by
  intro d hrow
  simp only [onlyIf, figure_of_known hr hg (hr.pursed d hrow)]

theorem paidIn_of_grows (hr : KnownRows db.toCoinTables)
    (hg : Grows db.toCoinTables db'.toCoinTables) (h : db'.purseDeposits = db.purseDeposits)
    (q : PursePub) : db'.paidIn q = db.paidIn q := by
  unfold Database.paidIn
  rw [h]
  exact Table.total_congr (paidRow_of_grows hr hg q)

/-- The records of deposits change by what is paid in. -/
theorem Posts.paidIn (h : Posts db p db') (hC : PurseArgsOk db p) (hr : KnownRows db.toCoinTables)
    (q : PursePub) : db'.paidIn q = db.paidIn q + paidInto p q := by
  have hg := h.grows
  have hsame : db'.purseDeposits = db.purseDeposits → _ := fun h => paidIn_of_grows hr hg h q
  cases h with
  | wireTarget =>
    rw [addWireTarget_frame] at hsame ⊢
    exact (hsame rfl).trans (add_zero _).symm
  | initReserve =>
    rw [initReserve_frame] at hsame ⊢
    exact (hsame rfl).trans (add_zero _).symm
  | reservePurse _ _ _ _ _ _ _ hpay =>
    rw [payForPurse_frame hpay] at hsame ⊢
    exact (hsame rfl).trans (add_zero _).symm
  | @purseDeposit a _ _ _ ht _ _ hl =>
    refine (Table.total_insert?_congr ht (paidRow_of_grows hr hg q)).trans ?_
    have hfee := figure_of_known hr hg (Table.hasKey_of_lookup hl) (·.feeDeposit)
    have hf : db.Funded a := hC.2
    unfold Database.Funded at hf
    refine congrArg₂ _ rfl ?_
    by_cases e : a.pursePub = q
    · rw [onlyIf_pos (by exact e), paidInto, if_pos e]
      simp only [PurseDepositArgs.row]
      rw [hfee]
      omega
    · rw [onlyIf_neg (by exact e), paidInto, if_neg e]
  | _ => exact (hsame rfl).trans (add_zero _).symm

end Deposits

/-! ## Merges -/

/-- A merged purse has a merge and was full. -/
def MergesPaid (db : Database) : Prop :=
  ∀ p, db.isMerged p = true → (∃ m, db.purseMerges.lookup p = some m) ∧
    ∃ t, db.purseTerms p = some t ∧ t.1.units ≤ db.purseBalance p

/-- The purse that a posting merges. -/
def Posting.mergedPurse : Posting → Option PursePub
  | .finishMerge a => some a.pursePub
  | .purseMerge a => some a.pursePub
  | _ => none

section Merges

variable {db db' : Database} {p : Posting}

theorem isMerged_of_eq (h : db'.purseDecision = db.purseDecision) (q : PursePub) :
    db'.isMerged q = db.isMerged q := by
  unfold Database.isMerged
  rw [h]

/-- A decision about a purse that had none. -/
theorem isMerged_insert? {mk : ℕ → PurseDecision} {hs : ∀ n, Record.serial (mk n) = n}
    (h : db.purseDecision.insert? mk hs = some db'.purseDecision) (q : PursePub) :
    db'.isMerged q = if (mk db.purseDecision.nextSerial).pursePub = q then
      !(mk db.purseDecision.nextSerial).refunded else db.isMerged q := by
  unfold Database.isMerged
  rw [Table.lookup_insert? h]
  by_cases e : (mk db.purseDecision.nextSerial).pursePub = q
  · rw [if_pos (by exact e), if_pos e]
    rfl
  · rw [if_neg (by exact e), if_neg e]

theorem not_isMerged_of_insert? {mk : ℕ → PurseDecision} {hs : ∀ n, Record.serial (mk n) = n}
    {t : Table PurseDecision} (h : db.purseDecision.insert? mk hs = some t) :
    db.isMerged (mk db.purseDecision.nextSerial).pursePub = false := by
  have hn : db.purseDecision.lookup (mk db.purseDecision.nextSerial).pursePub = none :=
    Table.lookup_eq_none_iff_hasKey.mpr (Table.insert?_eq_some.mp h).1
  rw [Database.isMerged, hn]
  rfl

theorem Posts.mergesPaid (h : Posts db p db') (hC : PurseArgsOk db p) (hs : PursesSound db)
    (hm : MergesPaid db) : MergesPaid db' := by
  have hg := h.purseGrows
  have hbal := h.purseBalance (by rintro a rfl; exact hC.1)
  have hle : ∀ q, db.purseBalance q ≤ db'.purseBalance q := by
    intro q
    rw [hbal]
    cases p with
    | purseDeposit a =>
      have := a.amountWithoutFee.units_nonneg
      simp only [paidInto]
      split_ifs <;> omega
    | _ => exact (add_zero _).ge
  have hold : ∀ q, db.isMerged q = true → (∃ m, db'.purseMerges.lookup q = some m) ∧
      ∃ t, db'.purseTerms q = some t ∧ t.1.units ≤ db'.purseBalance q := by
    intro q hq
    obtain ⟨⟨m, hm⟩, t, ht, hu⟩ := hm q hq
    exact ⟨⟨m, hg.merge hm⟩, t, hg.terms ht, hu.trans (hle q)⟩
  -- only the two postings that decide a purse as merged have something to show
  cases h with
  | wireTarget =>
    rw [addWireTarget_frame] at hold ⊢
    exact fun q hq => hold q hq
  | initReserve =>
    rw [initReserve_frame] at hold ⊢
    exact fun q hq => hold q hq
  | reservePurse _ _ _ _ _ _ _ hpay =>
    rw [payForPurse_frame hpay] at hold ⊢
    exact fun q hq => hold q hq
  | @finishMerge a m r _ _ _ _ hl hr hfull _ ht =>
    intro q hq
    rw [isMerged_insert? ht] at hq
    split_ifs at hq with e
    · rw [← e]
      have hu := (PurseRequest.isFull_iff (hs r (Table.mem_of_lookup hr)).1).mp hfull
      refine ⟨⟨m, hg.merge hl⟩, _, hg.terms (purseTerms_of_lookup hr), le_trans ?_ (hle _)⟩
      exact hu.trans (Table.valueAt_of_lookup hr).ge
    · exact hold q hq
  | @purseMerge a _ r _ _ _ _ _ _ _ hr hpaid _ hmi ht =>
    intro q hq
    rw [isMerged_insert? ht] at hq
    split_ifs at hq with e
    · rw [← e]
      have hu := (PurseRequest.isPaid_iff (hs r (Table.mem_of_lookup hr)).1).mp hpaid
      refine ⟨⟨_, Table.lookup_insert?_self hmi⟩, _, hg.terms (purseTerms_of_lookup hr),
        le_trans ?_ (hle _)⟩
      exact hu.trans (Table.valueAt_of_lookup hr).ge
    · exact hold q hq
  | purseRefund _ ht =>
    intro q hq
    rw [isMerged_insert? ht] at hq
    split_ifs at hq
    · cases hq
    · exact hold q hq
  | _ => exact fun q hq => hold q hq

theorem mergedFor_of_grows (hg : PurseGrows db db') (hm : MergesPaid db) {q : PursePub}
    (h : db'.isMerged q = db.isMerged q) (r : ReservePub) : db'.mergedFor q r = db.mergedFor q r := by
  unfold Database.mergedFor
  rw [h]
  by_cases hq : db.isMerged q = true
  · obtain ⟨⟨m, hl⟩, t, ht, -⟩ := hm q hq
    rw [mergeTarget_of_lookup hl, mergeTarget_of_lookup (hg.merge hl), ht, hg.terms ht]
  · simp only [hq, Bool.false_eq_true, false_and, if_false]

/-- The purse of a new decision to merge. -/
theorem mergedFor_decided (hg : PurseGrows db db') (hm : MergesPaid db) {mk : ℕ → PurseDecision}
    {hs : ∀ n, Record.serial (mk n) = n}
    (ht : db.purseDecision.insert? mk hs = some db'.purseDecision)
    (hnr : (mk db.purseDecision.nextSerial).refunded = false) {t : Amount × Amount}
    (hterms : db'.purseTerms (mk db.purseDecision.nextSerial).pursePub = some t) (q : PursePub)
    (r : ReservePub) : db'.mergedFor q r = db.mergedFor q r +
      if (mk db.purseDecision.nextSerial).pursePub = q then
        if db'.mergeTarget (mk db.purseDecision.nextSerial).pursePub = some r then t.1.units else 0
      else 0 := by
  have hi := isMerged_insert? ht q
  by_cases e : (mk db.purseDecision.nextSerial).pursePub = q
  · have hold : db.isMerged q = false := e ▸ not_isMerged_of_insert? ht
    rw [if_pos e, hnr] at hi
    rw [if_pos e, Database.mergedFor, Database.mergedFor, hi, hold, e, ← e, hterms]
    simp
  · rw [if_neg e] at hi ⊢
    rw [mergedFor_of_grows hg hm hi, add_zero]

/-- What is recorded for a purse changes when the purse is merged, by what the reserve gets. -/
theorem Posts.mergedFor (h : Posts db p db') (hm : MergesPaid db) (hf : FeesPaid db) (q : PursePub)
    (r : ReservePub) : db'.mergedFor q r = db.mergedFor q r +
      if p.mergedPurse = some q then balanceChange db db' p r else 0 := by
  have hg := h.purseGrows
  have hsame : db'.purseDecision = db.purseDecision → db'.mergedFor q r = db.mergedFor q r + 0 :=
    fun h => (mergedFor_of_grows hg hm (isMerged_of_eq h q) r).trans (add_zero _).symm
  cases h with
  | wireTarget =>
    rw [addWireTarget_frame] at hsame ⊢
    exact hsame rfl
  | initReserve =>
    rw [initReserve_frame] at hsame ⊢
    exact hsame rfl
  | reservePurse _ _ _ _ _ _ _ hpay =>
    rw [payForPurse_frame hpay] at hsame ⊢
    exact hsame rfl
  | finishMerge hl hr _ _ ht =>
    have hterms := purseTerms_of_lookup hr
    rw [mergedFor_decided hg hm (by exact ht) (by rfl) (by exact hg.terms hterms)]
    simp only [Posting.mergedPurse, Option.some.injEq, balanceChange, hterms, Option.elim_some,
      mergeTarget_of_lookup hl, mergeTarget_of_lookup (hg.merge hl)]
  | purseMerge _ hr _ _ hmi ht =>
    have hterms := purseTerms_of_lookup hr
    have hfee := congrArg Amount.units (hf (Table.insert?_eq_some.mp hmi).1 hterms)
    rw [mergedFor_decided hg hm (by exact ht) (by rfl) (by exact hg.terms hterms)]
    simp only [Posting.mergedPurse, Option.some.injEq, balanceChange, hterms, Option.elim_some] at hfee ⊢
    rw [hfee, Amount.units_zero, add_zero]
  | purseRefund _ ht =>
    refine (mergedFor_of_grows hg hm ?_ r).trans (add_zero _).symm
    rw [isMerged_insert? (by exact ht)]
    split_ifs with e
    · rw [← e]
      exact (not_isMerged_of_insert? ht).symm
    · rfl
  | _ => exact hsame rfl

/-- The purse that a posting makes a reserve pay for. -/
def Posting.paidPurse : Posting → Option PursePub
  | .reservePurse a _ => some a.pursePub
  | _ => none

theorem feeFor_of_grows (hg : PurseGrows db db') (hp : MergesHavePurse db) {q : PursePub}
    (h : db'.purseMerges.lookup q = db.purseMerges.lookup q) (r : ReservePub) :
    db'.feeFor q r = db.feeFor q r := by
  unfold Database.feeFor
  rw [h]
  cases hl : db.purseMerges.lookup q with
  | none => rfl
  | some m =>
    obtain ⟨x, hx⟩ := Table.exists_lookup (hp q (Table.hasKey_of_lookup hl))
    rw [purseTerms_of_lookup hx, hg.terms (purseTerms_of_lookup hx)]

/-- A new merge comes with the fee of its purse. -/
theorem feeFor_insert? (hg : PurseGrows db db') (hp : MergesHavePurse db) {mk : ℕ → PurseMerge}
    {hs : ∀ n, Record.serial (mk n) = n} (h : db.purseMerges.insert? mk hs = some db'.purseMerges)
    {t : Amount × Amount} (ht : db'.purseTerms (mk db.purseMerges.nextSerial).pursePub = some t)
    (q : PursePub) (r : ReservePub) : db'.feeFor q r = db.feeFor q r +
      if (mk db.purseMerges.nextSerial).pursePub = q then
        if (mk db.purseMerges.nextSerial).reservePub = r then t.2.units else 0
      else 0 := by
  have hl : db'.purseMerges.lookup q = if (mk db.purseMerges.nextSerial).pursePub = q then _ else _ :=
    Table.lookup_insert? h q
  by_cases e : (mk db.purseMerges.nextSerial).pursePub = q
  · have hn : db.purseMerges.lookup q = none := by
      rw [← e]
      exact Table.lookup_eq_none_iff_hasKey.mpr (Table.insert?_eq_some.mp h).1
    rw [if_pos e] at hl
    rw [e] at ht
    simp only [Database.feeFor, hl, hn, ht, e, if_true, Option.any_some, Option.any_none,
      decide_eq_true_eq, Bool.false_eq_true, if_false, zero_add, Option.elim_some]
  · rw [if_neg e] at hl
    rw [feeFor_of_grows hg hp hl, if_neg e, add_zero]

/-- The fee that is recorded for a purse is what the reserve pays when it creates the purse. -/
theorem Posts.feeFor (h : Posts db p db') (hp : MergesHavePurse db) (hf : FeesPaid db)
    (q : PursePub) (r : ReservePub) : db'.feeFor q r = db.feeFor q r -
      if p.paidPurse = some q then balanceChange db db' p r else 0 := by
  have hg := h.purseGrows
  have hsame : db'.purseMerges = db.purseMerges → db'.feeFor q r = db.feeFor q r - 0 :=
    fun h => (feeFor_of_grows hg hp (by rw [h]) r).trans (sub_zero _).symm
  cases h with
  | wireTarget =>
    rw [addWireTarget_frame] at hsame ⊢
    exact hsame rfl
  | initReserve =>
    rw [initReserve_frame] at hsame ⊢
    exact hsame rfl
  | @reservePurse _ a b _ _ _ _ hab hfee _ _ ht _ hmi hpay =>
    rw [payForPurse_frame hpay] at hg ⊢
    rw [feeFor_insert? hg hp (by exact hmi) (by
      exact purseTerms_of_lookup ((congrArg _ hab.symm).trans (Table.lookup_insert?_self ht)))]
    simp only [Posting.paidPurse, Option.some.injEq, balanceChange, hab, PurseRequestArgs.row, hfee]
    split_ifs <;> omega
  | purseMerge _ hr _ _ hmi =>
    have hterms := purseTerms_of_lookup hr
    have hfee := congrArg Amount.units (hf (Table.insert?_eq_some.mp hmi).1 hterms)
    rw [feeFor_insert? hg hp (by exact hmi) (by exact hg.terms hterms)]
    simp only [Amount.units_zero] at hfee
    simp only [hfee, ite_self, add_zero]
    exact (sub_zero _).symm
  | _ => exact hsame rfl

end Merges

/-! ## Runs -/

/-- The operation may complete the merge of the purse. -/
def Op.mayMerge (p : PursePub) : Op → Bool
  | .purseDeposit a => a.pursePub = p
  | .createPurse a _ => a.pursePub = p
  | .purseMerge a => a.pursePub = p
  | _ => false

/-- The operation makes a reserve create the purse. -/
def Op.mayPay (p : PursePub) : Op → Bool
  | .reservePurse a _ _ => a.pursePub = p
  | _ => false

/-- What the operations of a run that may merge the purse add to the balance of the reserve. -/
def creditedFor (ops : List Op) (p : PursePub) (r : ReservePub) : ℤ :=
  gain step (fun _ o => o.mayMerge p) (·.balanceOf r) Database.empty ops

/-- What the reserve pays in a run for the creation of the purse. -/
def paidFor (ops : List Op) (p : PursePub) (r : ReservePub) : ℤ :=
  -gain step (fun _ o => o.mayPay p) (·.balanceOf r) Database.empty ops

/-- What every posting with proper arguments keeps. -/
structure PurseBooks (db : Database) : Prop where
  coins : CoinsSound db.toCoinTables
  rows : KnownRows db.toCoinTables
  purses : MergesHavePurse db
  fees : FeesPaid db
  sound : PursesSound db
  merged : MergesPaid db
  balance : ∀ p, db.purseBalance p = db.paidIn p

theorem purseBooks_empty : PurseBooks Database.empty :=
  ⟨fun _ h => (nomatch h), knownRows_empty, fun _ h => (nomatch h), fun _ h => (nomatch h),
    fun _ h => (nomatch h), fun _ h => (nomatch h), fun _ => rfl⟩

theorem Posts.purseBooks {db db' : Database} {p : Posting} (h : Posts db p db')
    (hC : PurseArgsOk db p) (hb : PurseBooks db) : PurseBooks db' := by
  refine ⟨h.coinsSound hb.coins, h.knownRows hb.rows, h.mergesHavePurse hb.purses,
    h.feesPaid hb.fees, h.pursesSound hb.sound, h.mergesPaid hC hb.sound hb.merged, fun q => ?_⟩
  rw [h.purseBalance (by rintro a rfl; exact hC.1), h.paidIn hC hb.rows, hb.balance]

section Books

variable {db : Database} {p : PursePub} {r : ReservePub}

theorem feeFor_nonneg (db : Database) (p : PursePub) (r : ReservePub) : 0 ≤ db.feeFor p r := by
  unfold Database.feeFor
  split_ifs
  · cases db.purseTerms p with
    | none => exact le_rfl
    | some t => exact t.2.units_nonneg
  · exact le_rfl

theorem merged_of_mergedFor (h : db.mergedFor p r ≠ 0) :
    db.isMerged p = true ∧ db.mergeTarget p = some r := by
  by_contra hn
  exact h (if_neg hn)

theorem PurseBooks.balance_nonneg (hb : PurseBooks db) (p : PursePub) : 0 ≤ db.purseBalance p := by
  cases h : db.purseRequests.lookup p with
  | none => exact (Table.valueAt_of_not_hasKey (Table.lookup_eq_none_iff_hasKey.mp h)).ge
  | some q =>
    exact (hb.sound q (Table.mem_of_lookup h)).2.trans (Table.valueAt_of_lookup h).ge

theorem PurseBooks.full (hb : PurseBooks db) (h : db.isMerged p = true) :
    ∃ q, db.purseRequests.lookup p = some q ∧ q.amountWithFee.units ≤ db.purseBalance p := by
  obtain ⟨-, t, ht, hle⟩ := hb.merged p h
  obtain ⟨q, hq, rfl⟩ := Option.map_eq_some_iff.mp ht
  exact ⟨q, hq, hle⟩

theorem PurseBooks.mergedFor_le (hb : PurseBooks db) (p : PursePub) (r : ReservePub) :
    db.mergedFor p r ≤ db.purseBalance p := by
  unfold Database.mergedFor
  split_ifs with h
  · obtain ⟨-, t, ht, hle⟩ := hb.merged p h.1
    rw [ht]
    exact hle
  · exact hb.balance_nonneg p

end Books

section Gains

variable {db s t : Database} {o : Op} {q : Posting} {p : PursePub}

theorem mayMerge_of_emits (he : Emits db o s q) (hq : q.mergedPurse = some p) :
    o.mayMerge p = true := by
  cases q with
  | finishMerge a =>
    cases o with
    | createPurse b ds =>
      obtain ⟨-, h⟩ | ⟨d, -, ⟨h, -⟩ | h⟩ := he <;> cases h
      exact decide_eq_true (Option.some.inj hq)
    | purseDeposit b =>
      obtain ⟨-, h⟩ | h := he <;> cases h
      exact decide_eq_true (Option.some.inj hq)
    | _ => cases kind_of_emits he
  | purseMerge a =>
    cases o with
    | purseMerge b =>
      obtain h | h := he <;> cases h
      exact decide_eq_true (Option.some.inj hq)
    | _ => cases kind_of_emits he
  | _ => cases hq

/-- The other postings of such an operation leave the balances alone. -/
theorem mergedPurse_of_emits (he : Emits db o s q) (ho : o.mayMerge p = true) (r : ReservePub) :
    q.mergedPurse = some p ∨ balanceChange s t q r = 0 := by
  cases o with
  | createPurse b ds =>
    obtain ⟨-, rfl⟩ | ⟨d, -, ⟨rfl, -⟩ | rfl⟩ := he
    · exact Or.inr rfl
    · exact Or.inr rfl
    · exact Or.inl (congrArg some (of_decide_eq_true ho))
  | purseDeposit b =>
    obtain ⟨-, rfl⟩ | rfl := he
    · exact Or.inr rfl
    · exact Or.inl (congrArg some (of_decide_eq_true ho))
  | purseMerge b =>
    obtain rfl | rfl := he
    · exact Or.inr rfl
    · exact Or.inl (congrArg some (of_decide_eq_true ho))
  | _ => cases ho

theorem mayPay_of_emits (he : Emits db o s q) (hq : q.paidPurse = some p) : o.mayPay p = true := by
  cases q with
  | reservePurse a b =>
    cases o with
    | reservePurse a' fee b' =>
      obtain ⟨-, h⟩ := he
      cases h
      exact decide_eq_true (Option.some.inj hq)
    | _ => cases kind_of_emits he
  | _ => cases hq

theorem paidPurse_of_emits (he : Emits db o s q) (ho : o.mayPay p = true) : q.paidPurse = some p := by
  cases o with
  | reservePurse a fee b =>
    obtain ⟨-, rfl⟩ := he
    exact congrArg some (of_decide_eq_true ho)
  | _ => cases ho

end Gains

section Run

variable {ops : List Op} (h : Admits step PurseCallerOk Database.empty ops)
include h

theorem run_purseBooks : PurseBooks (run step Database.empty ops) :=
  run_posting_invariant (C := PurseArgsOk) (I := PurseBooks)
    (fun _ _ ho _ _ he => purseArgsOk_of_emits ho he) purseBooks_empty
    (fun _ _ _ hC hp hb => hp.purseBooks hC hb) h

/-- What a reserve gets for a purse is what is recorded. -/
theorem creditedFor_eq (p : PursePub) (r : ReservePub) :
    creditedFor ops p r = (run step Database.empty ops).mergedFor p r := by
  refine (run_gain (C := PurseArgsOk) (I := PurseBooks) (g := fun db => db.mergedFor p r)
    (fun _ _ ho _ _ he => purseArgsOk_of_emits ho he) purseBooks_empty
    (fun _ _ _ hC hp hb => hp.purseBooks hC hb) (fun db o s q t he _ hp hb => ?_) h).trans
      (sub_zero _)
  have hval : t.balanceOf r = s.balanceOf r + balanceChange s t q r := (hp.moves hb.coins).value r
  rw [hp.mergedFor hb.merged hb.fees, hval]
  refine congrArg₂ _ rfl ?_
  by_cases hq : q.mergedPurse = some p
  · rw [if_pos hq, if_pos (mayMerge_of_emits he hq)]
    omega
  · rw [if_neg hq]
    split_ifs with ho
    · have := (mergedPurse_of_emits (t := t) he ho r).resolve_left hq
      omega
    · rfl

/-- What a reserve pays for a purse is the fee that is recorded. -/
theorem paidFor_eq (p : PursePub) (r : ReservePub) :
    paidFor ops p r = (run step Database.empty ops).feeFor p r := by
  have hgain := run_gain (C := PurseArgsOk) (I := PurseBooks) (g := fun db => -db.feeFor p r)
    (S := fun _ o => o.mayPay p) (f := fun db => db.balanceOf r)
    (fun _ _ ho _ _ he => purseArgsOk_of_emits ho he) purseBooks_empty
    (fun _ _ _ hC hp hb => hp.purseBooks hC hb) (fun db o s q t he _ hp hb => ?_) h
  · unfold paidFor
    rw [hgain]
    exact (congrArg Neg.neg (sub_zero _)).trans (neg_neg _)
  · have hval : t.balanceOf r = s.balanceOf r + balanceChange s t q r := (hp.moves hb.coins).value r
    rw [hp.feeFor hb.purses hb.fees, hval]
    by_cases hq : q.paidPurse = some p
    · rw [if_pos hq, if_pos (mayPay_of_emits he hq)]
      omega
    · rw [if_neg hq, if_neg fun ho => hq (paidPurse_of_emits he ho)]
      omega

/-- **Purses are worth what was paid in**: the balance of a purse is the sum of its deposits
without their fees; a reserve is credited for a full purse only; it is not credited more than the
balance and the fee it paid; and only one reserve is. -/
theorem run_purse_value (p : PursePub) (r : ReservePub) :
    (run step Database.empty ops).purseBalance p = (run step Database.empty ops).paidIn p ∧
      creditedFor ops p r - paidFor ops p r ≤ (run step Database.empty ops).purseBalance p ∧
      (creditedFor ops p r ≠ 0 →
        (∃ q, (run step Database.empty ops).purseRequests.lookup p = some q ∧
          q.amountWithFee.units ≤ (run step Database.empty ops).purseBalance p) ∧
        ∀ r', r' ≠ r → creditedFor ops p r' = 0) := by
  have hb := run_purseBooks h
  simp only [creditedFor_eq h, paidFor_eq h]
  have hfee := feeFor_nonneg (run step Database.empty ops) p r
  have hle := hb.mergedFor_le p r
  refine ⟨hb.balance p, by omega, fun hc => ?_⟩
  obtain ⟨hm, ht⟩ := merged_of_mergedFor hc
  refine ⟨hb.full hm, fun r' hr' => if_neg fun h' => hr' ?_⟩
  exact Option.some.inj (h'.2.symm.trans ht)

end Run

/-! ## A sample run -/

/-- A reserve pays a fee of one for a purse of five, and a coin with a deposit fee of one fills it
with six. -/
def filledPurse : List Op :=
  [.denomination ⟨1, .whole 10, .zero, .whole 1, .zero, .zero⟩, .coin 7 1,
   .reservesIn 9 9 [{ reservePub := 4, balance := .whole 10, executionTime := 0, hFullPayto := 1,
                      hNormalizedPayto := 1, senderAccountDetails := "", exchangeAccountName := "",
                      wireReference := 1 }],
   .reservePurse { pursePub := 8, mergePub := 9, now := 0, purseExpiration := 5, hContractTerms := 3,
                   ageLimit := 0, flags := 0, inReserveQuota := false, purseFee := .zero,
                   amount := .whole 5, purseSig := 1 } (some (.whole 1))
     { pursePub := 8, mergeSig := 1, mergeTimestamp := 0, reserveExpiration := 9, reserveGc := 9,
       reserveSig := 1, reserveQuota := false, purseFee := .zero, reservePub := 4,
       walletHPayto := 1 },
   .purseDeposit { partnerId := none, pursePub := 8, amountWithFee := .whole 6, coinPub := 7,
                   coinSig := 1, amountWithoutFee := .whole 5, reserveExpiration := 20, now := 1 }]

theorem filledPurse_value : creditedFor filledPurse 8 4 = (Amount.whole 5).units ∧
    paidFor filledPurse 8 4 = (Amount.whole 1).units ∧
    creditedFor filledPurse 8 4 - paidFor filledPurse 8 4 ≤
      (run step Database.empty filledPurse).purseBalance 8 :=
  ⟨by decide +kernel, by decide +kernel, (run_purse_value (by decide +kernel) 8 4).2.1⟩

end TalerExchange
