import TalerExchange.Coin.Conservation
import TalerExchange.Purse.Value
import TalerExchange.Reserve.Ledger

/-!
# The purse quota of a reserve

A reserve may have some purses at a time without paying for each. `purses_active` counts them.

* `activeOf`, `quotaCount`: the counter, and the purses it is to count;
* `QuotaMoves`: what a write to `reserves` does to all counters at once;
* **`Posts.quotaBooks`**: every posting keeps counter and count together;
* `Database.failsMidway`: a procedure raises although its arguments break no constraint;
* **`run_quota`**: the counters are right and no procedure fails midway, as long as no in-quota
  purse is filled;
* `not_quota_kept`: a deposit that fills one reaches the undeclared variable `my_purse_pub`.
-/

namespace TalerExchange

open Sql Transition

namespace Database

variable (db : Database)

/-! ## Definitions -/

def activeOf (r : ReservePub) : ℤ := db.reserves.valueAt (fun x => x.pursesActive) r

/-- The purse counts against the quota of the reserve. -/
def inQuotaOf (r : ReservePub) (q : PurseRequest) : Bool :=
  q.inReserveQuota && (db.purseMerges.lookup q.pursePub).any (·.reservePub = r) &&
    !db.purseDecision.hasKey q.pursePub

/-- The number of undecided in-quota purses of the reserve. -/
def quotaCount (r : ReservePub) : ℤ :=
  db.purseRequests.total (onlyIf (fun q => db.inQuotaOf r q = true) fun _ => 1)

/-- What a deposit that is not recorded yet adds to the purse. -/
def incoming (p : PursePub) (d : PurseDepositArgs) : ℤ :=
  if db.purseDeposits.hasKey (p, d.coinPub) then 0 else d.amountWithoutFee.units

/-- New deposits leave an undecided in-quota purse short of its amount. -/
def KeepsRoom (p : PursePub) (ds : List PurseDepositArgs) : Prop :=
  ∀ r ∈ db.purseRequests.lookup p, r.inReserveQuota = true → db.purseDecision.hasKey p = false →
    ∀ d ∈ ds, db.purseDeposits.hasKey (p, d.coinPub) = false →
      r.balance.units + (ds.map (db.incoming p)).sum < r.amountWithFee.units

end Database

/-! ## Writes to `reserves` -/

/-- Every counter changes by `δ`, and stays within its limit. -/
structure QuotaMoves (t t' : Table Reserve) (δ : ReservePub → ℤ) : Prop where
  value : ∀ r, t'.valueAt (fun x => x.pursesActive) r = t.valueAt (fun x => x.pursesActive) r + δ r
  bound : (∀ x ∈ t.rows, x.pursesActive ≤ x.pursesAllowed) →
    ∀ x ∈ t'.rows, x.pursesActive ≤ x.pursesAllowed

section QuotaMoves

variable {t t' : Table Reserve} {δ : ReservePub → ℤ}

theorem QuotaMoves.refl (t : Table Reserve) (hδ : ∀ r, δ r = 0) : QuotaMoves t t δ :=
  ⟨fun r => by rw [hδ, add_zero], fun h => h⟩

/-- A new reserve has no purses. -/
theorem QuotaMoves.insert {mk : ℕ → Reserve} {hs : ∀ n, Record.serial (mk n) = n}
    (h : t.insert? mk hs = some t') (ha : (mk t.nextSerial).pursesActive = 0)
    (hl : (mk t.nextSerial).pursesAllowed = 0) (hδ : ∀ r, δ r = 0) : QuotaMoves t t' δ := by
  refine ⟨fun r => ?_, fun hall => Table.forall_insert? h hall (ha.trans hl.symm).le⟩
  rw [Table.valueAt_insert? h, ha, ite_self, hδ]

variable {db : Database} {r : ReservePub} {f : Reserve → Reserve} {x : Reserve}

/-- An update of one reserve whose row is `x`. -/
theorem QuotaMoves.set {d : ℤ} (hx : db.reserves.lookup r = some x)
    (hd : (f x).pursesActive = x.pursesActive + d)
    (hb : x.pursesActive ≤ x.pursesAllowed → (f x).pursesActive ≤ (f x).pursesAllowed)
    (hδ : ∀ y, δ y = if r = y then d else 0)
    (hk : ∀ x, Record.key (f x) = Record.key x := by intro; rfl)
    (hs : ∀ x, Record.serial (f x) = Record.serial x := by intro; rfl) :
    QuotaMoves db.reserves (db.setReserve r f hk hs) δ := by
  have hp : ∀ y : Reserve, decide (y.reservePub = r) = true ↔ Record.key y = r := fun _ =>
    decide_eq_true_iff
  refine ⟨fun y => ?_, fun hall => Table.forall_update hall fun y hy hyr hyb => ?_⟩
  · refine (Table.valueAt_update hp _ y).trans ?_
    rw [hδ]
    by_cases h : y = r
    · subst h
      rw [if_pos rfl, if_pos rfl, Table.valueAt_of_lookup hx, Table.valueAt_of_lookup hx]
      exact hd
    · rw [if_neg h, if_neg (Ne.symm h), add_zero]
  · have e : y = x := Table.eq_of_key hy (Table.mem_of_lookup hx)
      (((hp y).mp hyr).trans (Table.key_of_lookup hx).symm)
    exact e ▸ hb (e ▸ hyb)

/-- An update that leaves the quota alone. -/
theorem QuotaMoves.same (ha : ∀ x, (f x).pursesActive = x.pursesActive)
    (hl : ∀ x, (f x).pursesAllowed = x.pursesAllowed) (hδ : ∀ y, δ y = 0)
    (hk : ∀ x, Record.key (f x) = Record.key x := by intro; rfl)
    (hs : ∀ x, Record.serial (f x) = Record.serial x := by intro; rfl) :
    QuotaMoves db.reserves (db.setReserve r f hk hs) δ := by
  refine ⟨fun y => ?_, fun hall => Table.forall_update hall fun y _ _ hy => ?_⟩
  · rw [hδ, add_zero]
    exact Table.valueAt_update_same ha y
  · rwa [ha, hl]

end QuotaMoves

/-! ## Counters after a posting -/

/-- The condition on postings: a reserve that is opened again keeps room for its purses. -/
def QuotaPostingOk (db : Database) : Posting → Prop
  | .reserveOpen a => ∀ r t, db.reserves.lookup a.reservePub = some r → a.terms r = .ok t →
      r.pursesActive ≤ t.pursesAllowed
  | _ => True

/-- What a posting does to the counter of a reserve. -/
def activeChange (db : Database) : Posting → ReservePub → ℤ
  | .reservePurse _ b, r => if b.reserveQuota = true ∧ b.reservePub = r then 1 else 0
  | .purseRefund p, r => if (db.purseRequests.lookup p).any (·.inReserveQuota) = true ∧
      (db.purseMerges.lookup p).any (·.reservePub = r) = true then -1 else 0
  | _, _ => 0

section Postings

variable {db db' : Database} {p : Posting}

theorem Credits.quotaMoves {partner : ℕ} {q : PursePub} {r : ReservePub} {amount : TalerAmount}
    {rs : Table Reserve} {acts : Table PurseAction} (h : Credits db partner q r amount rs acts)
    {δ : ReservePub → ℤ} (hδ : ∀ y, δ y = 0) : QuotaMoves db.reserves rs δ := by
  cases h with
  | wad => exact QuotaMoves.refl _ hδ
  | reserve _ f hk hs hf => exact QuotaMoves.same (fun x => (hf x).2.1) (fun x => (hf x).2.2) hδ hk hs

/-- **What a posting does to the counters of all reserves.** -/
theorem Posts.quotaMoves (h : Posts db p db') (hC : QuotaPostingOk db p)
    (hm : ∀ m ∈ db.purseMerges.rows, db.reserves.hasKey m.reservePub = true) :
    QuotaMoves db.reserves db'.reserves (activeChange db p) := by
  cases h with
  | wireTarget =>
    rw [addWireTarget_frame]
    exact QuotaMoves.refl _ fun _ => rfl
  | initReserve r e =>
    unfold TalerExchange.initReserve
    split
    · next t ht => exact QuotaMoves.insert ht rfl rfl fun _ => rfl
    · exact QuotaMoves.refl _ fun _ => rfl
  | recoupToReserve =>
    exact QuotaMoves.same (fun _ => by rfl) (fun _ => by rfl) fun _ => by rfl
  | @reservePurse db₁ _ b _ _ _ _ _ _ _ _ _ _ _ hpay =>
    change QuotaMoves db.reserves db₁.reserves _
    obtain ⟨hq, -, ht⟩ | ⟨r, hl, hq, hlt, hset⟩ | ⟨r, hl, hq, -, hset⟩ := payForPurse_cases hpay
    · refine QuotaMoves.insert ht rfl rfl fun y => ?_
      simp [activeChange, hq]
    · rw [hset]
      refine QuotaMoves.set hl (d := 1) rfl (fun _ => Int.add_one_le_iff.mpr hlt) fun y => ?_
      simp [activeChange, hq]
    · rw [hset]
      refine QuotaMoves.same (fun _ => by rfl) (fun _ => by rfl) fun y => ?_
      simp [activeChange, hq]
  | finishMerge _ _ _ _ _ _ _ hcr => exact hcr.quotaMoves fun _ => rfl
  | purseMerge _ _ _ _ _ _ _ _ _ hcr => exact hcr.quotaMoves fun _ => rfl
  | @purseRefund x _ _ _ hx _ _ =>
    have hl : db.purseRequests.lookup x.pursePub = some x := Table.lookup_eq_some.mpr ⟨hx, rfl⟩
    split_ifs with hq
    · unfold Database.releaseQuota
      split
      · next m hlm =>
        obtain ⟨r, hr⟩ := Table.exists_lookup (hm m (Table.mem_of_lookup hlm))
        refine QuotaMoves.set hr (d := -1) rfl (fun h => ?_) fun y => ?_
        · simp only
          omega
        · simp [activeChange, hl, hq, hlm]
      · next hlm =>
        refine QuotaMoves.refl _ fun y => ?_
        simp [activeChange, hlm]
    · refine QuotaMoves.refl _ fun y => ?_
      simp [activeChange, hl, hq]
  | importNew ht => exact QuotaMoves.insert ht rfl rfl fun _ => rfl
  | importReserve ht => exact QuotaMoves.insert ht rfl rfl fun _ => rfl
  | withdraw => exact QuotaMoves.same (fun _ => by rfl) (fun _ => by rfl) fun _ => by rfl
  | ageWithdraw => exact QuotaMoves.same (fun _ => by rfl) (fun _ => by rfl) fun _ => by rfl
  | ageDebit => exact QuotaMoves.same (fun _ => by rfl) (fun _ => by rfl) fun _ => by rfl
  | reserveOpen hl ht =>
    refine QuotaMoves.set hl (d := 0) (add_zero _).symm (fun _ => hC _ _ hl ht) fun y => ?_
    exact (ite_self _).symm
  | reserveClosed => exact QuotaMoves.same (fun _ => by rfl) (fun _ => by rfl) fun _ => by rfl
  | _ => exact QuotaMoves.refl _ fun _ => rfl

/-! ## The count -/

/-- References between the rows about purses. -/
structure QuotaRows (db : Database) : Prop where
  decision : ∀ q, db.purseDecision.hasKey q = true → db.purseRequests.hasKey q = true
  merge : ∀ q ∈ db.purseRequests.rows, q.inReserveQuota = true →
    db.purseMerges.hasKey q.pursePub = true
  reserve : ∀ m ∈ db.purseMerges.rows, db.reserves.hasKey m.reservePub = true

theorem PurseGrows.hasPurse (hg : PurseGrows db db') {q : PursePub}
    (h : db.purseRequests.hasKey q = true) : db'.purseRequests.hasKey q = true := by
  obtain ⟨x, hx⟩ := Table.exists_lookup h
  obtain ⟨y, hy, -⟩ := Option.map_eq_some_iff.mp (hg.terms (purseTerms_of_lookup hx))
  exact Table.hasKey_of_lookup hy

theorem PurseGrows.hasMerge (hg : PurseGrows db db') {q : PursePub}
    (h : db.purseMerges.hasKey q = true) : db'.purseMerges.hasKey q = true := by
  obtain ⟨m, hm⟩ := Table.exists_lookup h
  exact Table.hasKey_of_lookup (hg.merge hm)

/-- Old rows keep their references; only the new ones are to be checked. -/
theorem QuotaRows.step (hr : QuotaRows db) (hg : PurseGrows db db')
    (hk : ∀ r, db.reserves.hasKey r = true → db'.reserves.hasKey r = true)
    (hd : ∀ q, db'.purseDecision.hasKey q = true → db.purseDecision.hasKey q = true ∨
      db.purseRequests.hasKey q = true)
    (hm : ∀ q ∈ db'.purseRequests.rows, q.inReserveQuota = true →
      db.purseMerges.hasKey q.pursePub = true ∨ db'.purseMerges.hasKey q.pursePub = true)
    (hv : ∀ m ∈ db'.purseMerges.rows, m ∈ db.purseMerges.rows ∨
      db'.reserves.hasKey m.reservePub = true) : QuotaRows db' where
  decision q hq := hg.hasPurse ((hd q hq).elim (hr.decision q) id)
  merge q hrow hq := (hm q hrow hq).elim hg.hasMerge id
  reserve m hrow := (hv m hrow).elim (fun h => hk _ (hr.reserve m h)) id

theorem merge_setPurse {q : PursePub} {f : PurseRequest → PurseRequest}
    {P : PursePub → Prop} (h : ∀ x ∈ db.purseRequests.rows, x.inReserveQuota = true → P x.pursePub)
    (hf : ∀ x, (f x).inReserveQuota = x.inReserveQuota)
    (hk : ∀ x, Record.key (f x) = Record.key x := by intro; rfl)
    (hs : ∀ x, Record.serial (f x) = Record.serial x := by intro; rfl) :
    ∀ x ∈ (db.setPurse q f hk hs).rows, x.inReserveQuota = true → P x.pursePub := by
  refine Table.forall_update h fun x _ _ hx hq => ?_
  rw [hf] at hq
  have e : (f x).pursePub = x.pursePub := hk x
  rw [e]
  exact hx hq

theorem Posts.quotaRows (h : Posts db p db') (hs : CoinsSound db.toCoinTables)
    (hr : QuotaRows db) : QuotaRows db' := by
  have hg := h.purseGrows
  have hk := (h.moves hs).known
  have hmark : ∀ x, ∀ q ∈ (db.markDecided x).rows, q.inReserveQuota = true →
      db.purseMerges.hasKey q.pursePub = true := fun x =>
    merge_setPurse (f := fun r => { r with wasDecided := true })
      (P := fun q => db.purseMerges.hasKey q = true) hr.merge fun _ => rfl
  cases h with
  | wireTarget =>
    rw [addWireTarget_frame] at hg hk ⊢
    exact hr.step hg hk (fun _ => .inl) (fun q h₁ h₂ => .inl (hr.merge q h₁ h₂)) fun _ => .inl
  | initReserve =>
    rw [initReserve_frame] at hg hk ⊢
    exact hr.step hg hk (fun _ => .inl) (fun q h₁ h₂ => .inl (hr.merge q h₁ h₂)) fun _ => .inl
  | purseRequest _ hq ht =>
    refine hr.step hg hk (fun _ => .inl) (fun q h₁ h₂ => ?_) fun _ => .inl
    rcases (Table.mem_insert? ht).mp h₁ with h | rfl
    · exact Or.inl (hr.merge q h h₂)
    · exact absurd (hq.symm.trans h₂) (by decide)
  | reservePurse hp _ _ _ ht _ hmi hpay _ hkey =>
    rw [payForPurse_frame hpay] at hg hk hkey ⊢
    refine hr.step hg hk (fun _ => .inl) (fun q h₁ h₂ => ?_) fun m hm => ?_
    · rcases (Table.mem_insert? ht).mp h₁ with h | rfl
      · exact Or.inl (hr.merge q h h₂)
      · refine Or.inr ?_
        rw [PurseRequestArgs.row, hp]
        exact Table.hasKey_insert?_self hmi
    · rcases (Table.mem_insert? hmi).mp hm with h | rfl
      · exact Or.inl h
      · exact Or.inr hkey
  | @purseDeposit a =>
    refine hr.step hg hk (fun _ => .inl) (fun q h₁ h₂ => .inl ?_) fun _ => .inl
    have hset := merge_setPurse (q := a.pursePub)
      (f := fun r => { r with balance := r.balance.plus a.amountWithoutFee })
      (P := fun q => db.purseMerges.hasKey q = true) hr.merge fun _ => rfl
    exact hset q h₁ h₂
  | finishMerge _ hq _ _ ht =>
    refine hr.step hg hk (fun q hd => ?_) (fun q h₁ h₂ => .inl (hmark _ q h₁ h₂)) fun _ => .inl
    rw [Table.hasKey_insert? ht, Bool.or_eq_true, decide_eq_true_eq] at hd
    exact hd.imp id fun (e : _ = q) => e ▸ Table.hasKey_of_lookup hq
  | purseMerge _ hq _ _ hmi ht _ hkey _ hcr =>
    refine hr.step hg hk (fun q hd => ?_) (fun q h₁ h₂ => .inl (hmark _ q h₁ h₂)) fun m hm => ?_
    · rw [Table.hasKey_insert? ht, Bool.or_eq_true, decide_eq_true_eq] at hd
      exact hd.imp id fun (e : _ = q) => e ▸ Table.hasKey_of_lookup hq
    · rcases (Table.mem_insert? hmi).mp hm with h | rfl
      · exact Or.inl h
      · exact Or.inr (hk _ hkey)
  | purseRefund hx ht =>
    refine hr.step hg hk (fun q hd => ?_) (fun q h₁ h₂ => .inl (hmark _ q h₁ h₂)) fun _ => .inl
    rw [Table.hasKey_insert? ht, Bool.or_eq_true, decide_eq_true_eq] at hd
    exact hd.imp id fun (e : _ = q) => e ▸ Table.hasKey_iff.mpr ⟨_, hx, rfl⟩
  | _ => exact hr.step hg hk (fun _ => .inl) (fun q h₁ h₂ => .inl (hr.merge q h₁ h₂)) fun _ => .inl

theorem inQuotaOf_congr {r : ReservePub} {q q' : PurseRequest} (hq : q'.inReserveQuota = q.inReserveQuota)
    (hk : q'.pursePub = q.pursePub)
    (hm : db'.purseMerges.lookup q.pursePub = db.purseMerges.lookup q.pursePub)
    (hd : db'.purseDecision.hasKey q.pursePub = db.purseDecision.hasKey q.pursePub) :
    db'.inQuotaOf r q' = db.inQuotaOf r q := by
  unfold Database.inQuotaOf
  rw [hq, hk, hm, hd]

theorem inQuotaOf_of_not {r : ReservePub} {q : PurseRequest} (h : q.inReserveQuota = false) :
    db.inQuotaOf r q = false := by
  simp [Database.inQuotaOf, h]

theorem quotaUnit_congr {r : ReservePub} {q q' : PurseRequest}
    (h : db'.inQuotaOf r q' = db.inQuotaOf r q) :
    onlyIf (fun q => db'.inQuotaOf r q = true) (fun _ => 1) q' =
      onlyIf (fun q => db.inQuotaOf r q = true) (fun _ => 1) q := by
  simp only [onlyIf, h]

/-- The count of `db'` taken over the purses of `db`. -/
def quotaCountIn (db db' : Database) (r : ReservePub) : ℤ :=
  db.purseRequests.total (onlyIf (fun q => db'.inQuotaOf r q = true) fun _ => 1)

theorem quotaCount_setPurse (db : Database) {p : PursePub} {f : PurseRequest → PurseRequest} (r : ReservePub)
    (hf : ∀ x, (f x).inReserveQuota = x.inReserveQuota)
    (hk : ∀ x, Record.key (f x) = Record.key x := by intro; rfl)
    (hs : ∀ x, Record.serial (f x) = Record.serial x := by intro; rfl)
    (e : db'.purseRequests = db.setPurse p f hk hs := by rfl) :
    db'.quotaCount r = quotaCountIn db db' r := by
  unfold Database.quotaCount quotaCountIn
  rw [e]
  refine Table.total_update _ _ _ _ _ fun x => ?_
  exact quotaUnit_congr (inQuotaOf_congr (hf x) (hk x) rfl rfl)

theorem quotaCountIn_congr {r : ReservePub}
    (h : ∀ q ∈ db.purseRequests.rows, db'.inQuotaOf r q = db.inQuotaOf r q) :
    quotaCountIn db db' r = db.quotaCount r :=
  Table.total_congr fun q hq => quotaUnit_congr (h q hq)

/-- A decision about a purse that does not count leaves the count. -/
theorem inQuotaOf_decide {x q : PurseRequest} {r : ReservePub} (hx : x ∈ db.purseRequests.rows)
    (hq : q ∈ db.purseRequests.rows) (hn : x.inReserveQuota = false)
    (hm : q.pursePub ≠ x.pursePub →
      db'.purseMerges.lookup q.pursePub = db.purseMerges.lookup q.pursePub)
    (hd : q.pursePub ≠ x.pursePub →
      db'.purseDecision.hasKey q.pursePub = db.purseDecision.hasKey q.pursePub) :
    db'.inQuotaOf r q = db.inQuotaOf r q := by
  by_cases e : q.pursePub = x.pursePub
  · have e : q = x := Table.eq_of_key hq hx e
    rw [e, inQuotaOf_of_not hn, inQuotaOf_of_not hn]
  · exact inQuotaOf_congr rfl rfl (hm e) (hd e)

theorem quotaCount_reservePurse {a : PurseRequestArgs} {b : ReservePurseArgs}
    (hp : a.pursePub = b.pursePub) (hq : a.inReserveQuota = b.reserveQuota)
    (ht : db.purseRequests.insert? a.row = some db'.purseRequests)
    (hmi : db.purseMerges.insert? (fun i =>
      ⟨i, none, b.reservePub, b.pursePub, b.mergeSig, b.mergeTimestamp⟩) = some db'.purseMerges)
    (hd : db'.purseDecision = db.purseDecision) (hr : QuotaRows db) (r : ReservePub) :
    db'.quotaCount r =
      db.quotaCount r + if b.reserveQuota = true ∧ b.reservePub = r then 1 else 0 := by
  have hfresh := (Table.insert?_eq_some.mp ht).1
  have hold : ∀ q ∈ db.purseRequests.rows, db'.inQuotaOf r q = db.inQuotaOf r q := by
    intro q hrow
    refine inQuotaOf_congr rfl rfl (Table.lookup_insert?_ne hmi fun e => ?_) (by rw [hd])
    exact Table.hasKey_eq_false.mp hfresh q hrow (e.trans hp.symm)
  have hnew : db'.inQuotaOf r (a.row db.purseRequests.nextSerial) =
      decide (b.reserveQuota = true ∧ b.reservePub = r) := by
    have hund : db.purseDecision.hasKey b.pursePub = false := by
      by_contra hk
      have hk' := hr.decision _ ((Bool.not_eq_false _).mp hk)
      rw [← hp] at hk'
      exact absurd (hfresh.symm.trans hk') (by decide)
    have hl : db'.purseMerges.lookup b.pursePub = some _ := Table.lookup_insert?_self hmi
    unfold Database.inQuotaOf
    simp only [PurseRequestArgs.row, hd, hund, hp, hl, hq]
    simp
  unfold Database.quotaCount
  rw [Table.total_insert?_congr ht (g := onlyIf (fun q => db.inQuotaOf r q = true) fun _ => 1)
    fun q hq => quotaUnit_congr (hold q hq)]
  simp only [onlyIf, hnew, decide_eq_true_eq]

theorem quotaCount_purseRefund {x : PurseRequest} {now : Timestamp}
    (hx : x ∈ db.purseRequests.rows)
    (ht : db.purseDecision.insert? (fun i => ⟨i, x.pursePub, now, true⟩) = some db'.purseDecision)
    (hm : db'.purseMerges = db.purseMerges)
    (hp : db'.purseRequests = db.markDecided x.pursePub) (r : ReservePub) :
    db'.quotaCount r = db.quotaCount r + activeChange db (.purseRefund x.pursePub) r := by
  have hl : db.purseRequests.lookup x.pursePub = some x := Table.lookup_eq_some.mpr ⟨hx, rfl⟩
  have hund : db.purseDecision.hasKey x.pursePub = false := (Table.insert?_eq_some.mp ht).1
  have hdec : db'.purseDecision.hasKey x.pursePub = true := Table.hasKey_insert?_self ht
  rw [quotaCount_setPurse db (f := fun r => { r with wasDecided := true }) r (fun _ => rfl)
    (e := by exact hp)]
  unfold quotaCountIn Database.quotaCount
  rw [Table.total_eq_add_of_ne (f := onlyIf (fun q => db.inQuotaOf r q = true) fun _ => 1) hx
    fun q hq hne => ?_]
  · congr 1
    simp only [onlyIf, Database.inQuotaOf, hdec, hund, hm, hl, activeChange, Bool.not_true,
      Bool.and_false, Bool.not_false, Bool.and_true, Bool.and_eq_true, Option.any_some,
      Bool.false_eq_true, if_false]
    split_ifs <;> rfl
  · have hk : q.pursePub ≠ x.pursePub := fun e => hne (Table.eq_of_key hq hx e)
    exact quotaUnit_congr (inQuotaOf_congr rfl rfl (by rw [hm]) (Table.hasKey_insert?_ne ht hk))

/-- **What a posting does to the counts of all reserves.** -/
theorem Posts.quotaCount (h : Posts db p db') (hr : QuotaRows db) (r : ReservePub) :
    db'.quotaCount r = db.quotaCount r + activeChange db p r := by
  cases h with
  | wireTarget =>
    rw [addWireTarget_frame]
    exact (add_zero _).symm
  | initReserve =>
    rw [initReserve_frame]
    exact (add_zero _).symm
  | purseRequest _ hq ht =>
    refine (Table.total_insert? ht _).trans ?_
    rw [onlyIf_neg (by rw [inQuotaOf_of_not hq]; decide)]
    rfl
  | reservePurse hp _ hq _ ht _ hmi hpay =>
    rw [payForPurse_frame hpay]
    exact quotaCount_reservePurse hp hq (by exact ht) (by exact hmi) (by rfl) hr r
  | @purseDeposit a =>
    refine (quotaCount_setPurse db
      (f := fun r => { r with balance := r.balance.plus a.amountWithoutFee }) r fun _ => rfl).trans ?_
    exact (add_zero _).symm
  | finishMerge _ hx _ hn ht =>
    refine (quotaCount_setPurse db (f := fun r => { r with wasDecided := true }) r
      fun _ => rfl).trans ?_
    refine (quotaCountIn_congr fun q hq => ?_).trans (add_zero _).symm
    have hk := Table.key_of_lookup hx
    refine inQuotaOf_decide (Table.mem_of_lookup hx) hq hn (fun _ => rfl) fun hne => ?_
    exact Table.hasKey_insert?_ne ht fun e => hne (e.trans hk.symm)
  | purseMerge _ hx _ hn hmi ht =>
    refine (quotaCount_setPurse db (f := fun r => { r with wasDecided := true }) r
      fun _ => rfl).trans ?_
    refine (quotaCountIn_congr fun q hq => ?_).trans (add_zero _).symm
    have hk := Table.key_of_lookup hx
    refine inQuotaOf_decide (Table.mem_of_lookup hx) hq hn (fun hne => ?_) fun hne => ?_
    · exact Table.lookup_insert?_ne hmi fun e => hne (e.trans hk.symm)
    · exact Table.hasKey_insert?_ne ht fun e => hne (e.trans hk.symm)
  | purseRefund hx ht => exact quotaCount_purseRefund hx (by exact ht) (by rfl) (by rfl) r
  | _ => exact (add_zero _).symm

end Postings

/-! ## Conditions -/

/-- The condition on operations: deposits do not fill in-quota purses, and a reserve that is opened
again keeps room for its purses. -/
def QuotaOpOk (db : Database) : Op → Prop
  | .purseDeposit a => db.KeepsRoom a.pursePub [a]
  | .createPurse a ds => db.KeepsRoom a.pursePub (ds.map (·.into a.pursePub))
  | .reserveOpen a => ∀ r ∈ db.reserves.lookup a.reservePub, ∀ t ∈ (a.terms r).toOption,
      r.pursesActive ≤ t.pursesAllowed
  | _ => True

instance (db : Database) (p : PursePub) (ds : List PurseDepositArgs) :
    Decidable (db.KeepsRoom p ds) :=
  inferInstanceAs (Decidable (∀ r ∈ _, _ → _ → ∀ d ∈ ds, _ → _))

instance (db : Database) : (o : Op) → Decidable (QuotaOpOk db o)
  | .purseDeposit _ => inferInstanceAs (Decidable (Database.KeepsRoom _ _ _))
  | .createPurse .. => inferInstanceAs (Decidable (Database.KeepsRoom _ _ _))
  | .reserveOpen _ => inferInstanceAs (Decidable (∀ r ∈ _, ∀ t ∈ _, _ ≤ _))
  | .denomination _ | .partner _ | .coin .. | .deposit _ | .refund _ | .melt _ | .reveal _
  | .reserveOpenDeposit _ | .recoupToReserve _ | .recoupToCoin _ | .purseMerge _ | .reservePurse ..
  | .purseDelete _ | .expirePurse _ | .reservesIn .. | .batchWithdraw .. | .ageWithdraw _
  | .reserveClosed _ | .closeRequest _ | .aggregate _ => .isTrue trivial

theorem quotaPostingOk_of_emits {db s : Database} {o : Op} {p : Posting} (ho : QuotaOpOk db o)
    (he : Emits db o s p) : QuotaPostingOk s p := by
  cases p with
  | reserveOpen a =>
    obtain ⟨rfl, rfl⟩ := emits_reserveOpen he
    intro r t hr ht
    exact ho r hr t (toOption_eq_some.mpr ht)
  | _ => trivial

/-! ## Procedures that fail midway -/

/-- An exception that is not the rejection of a key. -/
def SqlError.midway : SqlError → Bool
  | .foreignKeyViolation | .uniqueViolation => false
  | _ => true

/-- The computation raises such an exception. -/
def failsMidway {α : Type} : Exec α → Bool
  | .ok _ => false
  | .error e => e.midway

/-- One of the deposits of `create_transaction` fails midway. -/
def depositsFail (db : Database) : List PurseDepositArgs → Bool
  | [] => false
  | a :: as => failsMidway (exchangeDoPurseDeposit db a) ||
      (depositIntoPurse db a).any (depositsFail · as)

/-- A procedure about purses that the operation calls fails midway. -/
def Database.failsMidway (db : Database) : Op → Bool
  | .createPurse a ds =>
    match insertPurseRequest db a.byCoins with
    | .error e => e.midway
    | .ok (_, .conflict) => false
    | .ok (db, _) => depositsFail db (ds.map (·.into a.pursePub))
  | .purseDeposit a => TalerExchange.failsMidway (exchangeDoPurseDeposit db a)
  | .purseMerge a => TalerExchange.failsMidway (exchangeDoPurseMerge db a)
  | .reservePurse a fee b =>
    match insertPurseRequest db (a.byReserve fee) with
    | .error e => e.midway
    | .ok (db, .inserted) =>
      TalerExchange.failsMidway (exchangeDoReservePurse db (b.forRequest a.pursePub fee))
    | .ok _ => false
  | .purseDelete a => TalerExchange.failsMidway (exchangeDoPurseDelete db a)
  | .expirePurse a => TalerExchange.failsMidway (exchangeDoExpirePurse db a)
  | _ => false

section Midway

variable {α β : Type}

@[simp] theorem failsMidway_ok (a : α) : failsMidway (.ok a) = false := rfl

@[simp] theorem failsMidway_pure (a : α) : failsMidway (pure a) = false := rfl

@[simp] theorem failsMidway_orUnique (x : Option α) : failsMidway (orUnique x) = false := by
  cases x <;> rfl

@[simp] theorem failsMidway_require (b : Bool) : failsMidway (require b) = false := by
  cases b <;> rfl

theorem failsMidway_bind {x : Exec α} {f : α → Exec β} (hx : failsMidway x = false)
    (hf : ∀ a, x = .ok a → failsMidway (f a) = false) : failsMidway (x >>= f) = false := by
  rcases x with e | a
  · exact hx
  · exact hf a rfl

variable {db : Database}

theorem failsMidway_addCoinHistory (c : CoinPub) (t : HistoryTable) (n : ℕ) :
    failsMidway (db.addCoinHistory c t n) = false :=
  failsMidway_bind (by simp) fun _ _ => failsMidway_bind (by simp) fun _ _ => rfl

theorem failsMidway_addCoinHistories (t : HistoryTable) (n : ℕ) (cs : List CoinPub) :
    failsMidway (db.addCoinHistories t n cs) = false := by
  induction cs generalizing db with
  | nil => rfl
  | cons c cs ih => exact failsMidway_bind (failsMidway_addCoinHistory c t n) fun _ _ => ih

theorem failsMidway_addReserveHistory (r : ReservePub) (t : HistoryTable) (n : ℕ) :
    failsMidway (db.addReserveHistory r t n) = false :=
  failsMidway_bind (by simp) fun _ _ => failsMidway_bind (by simp) fun _ _ => rfl

theorem failsMidway_insertPurseDecision (p : PursePub) (now : Timestamp) (refunded : Bool) :
    failsMidway (db.insertPurseDecision p now refunded) = false := by
  unfold Database.insertPurseDecision
  split
  · rfl
  · simp only
    split_ifs
    · exact failsMidway_bind (failsMidway_addCoinHistories ..) fun _ _ => rfl
    · split
      · exact failsMidway_bind (failsMidway_addReserveHistory ..) fun _ _ => rfl
      · rfl

theorem failsMidway_insertPurseRequest (db : Database) (a : PurseRequestArgs) :
    failsMidway (insertPurseRequest db a) = false := by
  unfold insertPurseRequest
  split
  · exact failsMidway_bind (by simp) fun _ _ => rfl
  · next hn =>
    obtain ⟨r, hr⟩ := Table.exists_lookup (Table.insert?_eq_none.mp hn)
    have hr : db.purseRequests.lookup a.pursePub = some r := hr
    rw [hr]
    simp only
    split_ifs <;> rfl

theorem failsMidway_refundPurse (r : PurseRequest) (now : Timestamp) :
    failsMidway (refundPurse db r now) = false := by
  refine failsMidway_bind (failsMidway_insertPurseDecision ..) fun o _ => ?_
  cases o <;> rfl

theorem failsMidway_insertPurseMerge (partner : Option ℕ) (r : ReservePub) (p : PursePub)
    (sig : Signature) (ts : Timestamp) :
    failsMidway (insertPurseMerge db partner r p sig ts) = false := by
  unfold insertPurseMerge
  split
  · rfl
  · refine failsMidway_bind (by simp) fun _ _ => failsMidway_bind (by simp) fun _ _ => rfl

theorem failsMidway_insertAccountMerge (r : ReservePub) (sig : Signature) (p : PursePub)
    (h : HashCode) : failsMidway (insertAccountMerge db r sig p h) = false :=
  failsMidway_bind (by simp) fun _ _ => failsMidway_bind (by simp) fun _ _ =>
    failsMidway_bind (by simp) fun _ _ => rfl

end Midway

section Procedures

variable {db : Database}

/-- A deposit reaches the end of `exchange_do_purse_deposit` unless it fills an undecided in-quota
purse. -/
theorem failsMidway_finishMerge {a : PurseDepositArgs}
    (h : ∀ r ∈ db.purseRequests.lookup a.pursePub, r.inReserveQuota = true →
      db.purseDecision.hasKey a.pursePub = false → r.isFull = false) :
    failsMidway (finishMerge db a) = false := by
  unfold finishMerge
  split
  · rfl
  · split
    · rfl
    · next r hr =>
      split
      · next hfull =>
        refine failsMidway_bind (failsMidway_insertPurseDecision ..) fun o ho => ?_
        cases o with
        | none => rfl
        | some db₁ =>
          have hund : db.purseDecision.hasKey a.pursePub = false := by
            by_contra hk
            have hn : db.purseDecision.insert? (fun i => ⟨i, a.pursePub, a.now, false⟩) = none :=
              Table.insert?_eq_none.mpr ((Bool.not_eq_false _).mp hk)
            simp [Database.insertPurseDecision, hn] at ho
          simp only
          split
          · next hq => exact absurd ((h r hr hq hund).symm.trans hfull) (by decide)
          · split <;> rfl
      · rfl

theorem incoming_nonneg (db : Database) (p : PursePub) (d : PurseDepositArgs) :
    0 ≤ db.incoming p d := by
  unfold Database.incoming
  split_ifs
  · exact le_rfl
  · exact d.amountWithoutFee.units_nonneg

/-- Deposits that are recorded stay recorded. -/
theorem incoming_anti {db' : Database}
    (h : ∀ k, db.purseDeposits.hasKey k = true → db'.purseDeposits.hasKey k = true) (p : PursePub)
    (d : PurseDepositArgs) : db'.incoming p d ≤ db.incoming p d := by
  by_cases hk : db.purseDeposits.hasKey (p, d.coinPub) = true
  · rw [Database.incoming, if_pos (h _ hk), Database.incoming, if_pos hk]
  · rw [Database.incoming, Database.incoming, if_neg hk]
    split_ifs
    · exact d.amountWithoutFee.units_nonneg
    · exact le_rfl

theorem sum_incoming_nonneg (db : Database) (p : PursePub) (ds : List PurseDepositArgs) :
    0 ≤ (ds.map (db.incoming p)).sum := by
  refine List.sum_nonneg fun x hx => ?_
  obtain ⟨d, -, rfl⟩ := List.mem_map.mp hx
  exact incoming_nonneg db p d

variable {a : PurseDepositArgs} {ds : List PurseDepositArgs}

theorem lookup_creditPurse_some {p : PursePub} {x : TalerAmount} {r' : PurseRequest}
    (h : (db.setPurse p fun r => { r with balance := r.balance.plus x }).lookup p = some r') :
    ∃ r, db.purseRequests.lookup p = some r ∧ r' = { r with balance := r.balance.plus x } := by
  rw [db.lookup_setPurse] at h
  obtain ⟨r, hr, rfl⟩ := Option.map_eq_some_iff.mp h
  exact ⟨r, hr, if_pos (Table.key_of_lookup hr)⟩

/-- The first of the deposits alone does not fill the purse. -/
theorem Database.KeepsRoom.units_lt (h : db.KeepsRoom a.pursePub (a :: ds))
    (hnew : db.purseDeposits.hasKey (a.pursePub, a.coinPub) = false) {r : PurseRequest}
    (hr : db.purseRequests.lookup a.pursePub = some r) (hq : r.inReserveQuota = true)
    (hund : db.purseDecision.hasKey a.pursePub = false) :
    (r.balance.plus a.amountWithoutFee).units + (ds.map (db.incoming a.pursePub)).sum <
      r.amountWithFee.units := by
  have hlt := h r hr hq hund a List.mem_cons_self hnew
  have hinc : db.incoming a.pursePub a = a.amountWithoutFee.units := by
    unfold Database.incoming
    rw [hnew]
    rfl
  rw [List.map_cons, List.sum_cons, hinc] at hlt
  have hunits := TalerAmount.units_plus r.balance a.amountWithoutFee
  rw [Amount.units_toTaler] at hunits
  omega

theorem failsMidway_insertPurseDeposit (a : PurseDepositArgs) :
    failsMidway (insertPurseDeposit db a) = false := by
  unfold insertPurseDeposit
  split
  · rfl
  · exact failsMidway_bind (by simp) fun _ _ => failsMidway_bind (by simp) fun _ _ =>
      failsMidway_bind (failsMidway_addCoinHistory ..) fun _ _ => rfl

theorem failsMidway_purseDeposit (hs : PursesSound db) (hroom : db.KeepsRoom a.pursePub (a :: ds)) :
    failsMidway (exchangeDoPurseDeposit db a) = false := by
  refine failsMidway_bind (failsMidway_insertPurseDeposit a) fun o ho => ?_
  cases o with
  | none =>
    simp only
    split
    · split <;> rfl
    · rfl
  | some db₁ =>
    obtain ⟨t, ch, ht, hch, rfl⟩ := insertPurseDeposit_eq_some ho
    simp only
    split
    · rfl
    · split
      · rfl
      · next db₂ hd =>
        obtain ⟨kc, hkc, hcov, rfl⟩ := Database.debitCoin_eq_some.mp hd
        refine failsMidway_bind (failsMidway_finishMerge fun r' hr' hq hund => ?_) fun _ _ => rfl
        have hpr : (creditPurse _ a.pursePub a.amountWithoutFee).purseRequests.lookup a.pursePub =
          some r' := hr'
        obtain ⟨r, hr, rfl⟩ := lookup_creditPurse_some hpr
        have hlt := hroom.units_lt (Table.insert?_eq_some.mp ht).1 hr hq hund
        have hnonneg := sum_incoming_nonneg db a.pursePub ds
        have hnormal := TalerAmount.normal_plus (hs r (Table.mem_of_lookup hr)).1
          a.amountWithoutFee.normal_toTaler
        by_contra hfull
        have hle := (PurseRequest.isFull_iff hnormal).mp ((Bool.not_eq_false _).mp hfull)
        simp only at hle
        omega

/-- What is left of the deposits after the first still leaves room. -/
theorem Database.KeepsRoom.tail {db' : Database} (h : db.KeepsRoom a.pursePub (a :: ds))
    (hd : depositIntoPurse db a = some db') : db'.KeepsRoom a.pursePub ds := by
  obtain ⟨rfl, -⟩ | ⟨s, hs, hm⟩ := depositIntoPurse_cases hd
  · intro r hr hq hund d hd hnew
    have hlt := h r hr hq hund d (List.mem_cons_of_mem _ hd) hnew
    rw [List.map_cons, List.sum_cons] at hlt
    have hinc := incoming_nonneg db' a.pursePub a
    omega
  · have hroom : s.KeepsRoom a.pursePub ds := by
      cases hs with
      | purseDeposit ht =>
        intro r' hr' hq hund d hd hnew
        obtain ⟨r, hr, rfl⟩ := lookup_creditPurse_some hr'
        have hlt := h.units_lt (Table.insert?_eq_some.mp ht).1 hr hq hund
        refine lt_of_le_of_lt (Int.add_le_add_left (List.sum_le_sum fun x _ => ?_) _) hlt
        exact incoming_anti (fun _ => Table.hasKey_insert?_of_hasKey ht) _ x
    obtain rfl | hm := hm
    · exact hroom
    · cases hm with
      | finishMerge _ _ _ _ ht =>
        intro r _ _ hund
        exact absurd (hund.symm.trans (Table.hasKey_insert?_self ht)) (by decide)

theorem depositsFail_eq_false {p : PursePub} (hb : PursesSound db) (hp : ∀ d ∈ ds, d.pursePub = p)
    (hroom : db.KeepsRoom p ds) : depositsFail db ds = false := by
  induction ds generalizing db with
  | nil => rfl
  | cons d ds ih =>
    have hd : d.pursePub = p := hp d List.mem_cons_self
    rw [← hd] at hroom
    unfold depositsFail
    rw [failsMidway_purseDeposit hb hroom, Bool.false_or]
    cases h : depositIntoPurse db d with
    | none => rfl
    | some db' =>
      refine ih ?_ (fun x hx => hp x (List.mem_cons_of_mem _ hx)) (hd ▸ hroom.tail h)
      obtain ⟨rfl, -⟩ | ⟨s, hs, rfl | hm⟩ := depositIntoPurse_cases h
      · exact hb
      · exact hs.pursesSound hb
      · exact hm.pursesSound (hs.pursesSound hb)

theorem failsMidway_createPurse {a : PurseRequestArgs} (hb : PursesSound db)
    (hroom : db.KeepsRoom a.pursePub (ds.map (·.into a.pursePub))) :
    db.failsMidway (.createPurse a ds) = false := by
  have hp : ∀ d ∈ ds.map (·.into a.pursePub), d.pursePub = a.pursePub := by
    intro d hd
    obtain ⟨x, -, rfl⟩ := List.mem_map.mp hd
    rfl
  have hreq := failsMidway_insertPurseRequest db a.byCoins
  simp only [Database.failsMidway]
  cases h : insertPurseRequest db a.byCoins with
  | error e =>
    rw [h] at hreq
    exact hreq
  | ok o =>
    obtain ⟨db₁, st⟩ := o
    cases st with
    | conflict => rfl
    | identical =>
      obtain ⟨rfl, -⟩ := insertPurseRequest_identical h
      exact depositsFail_eq_false hb hp hroom
    | inserted =>
      obtain ⟨t, acts, ht, hacts, rfl⟩ := insertPurseRequest_inserted h
      refine depositsFail_eq_false (Table.forall_insert? ht hb TalerAmount.sound_zero) hp ?_
      intro r hr hq
      have e : t.lookup a.pursePub = some (a.byCoins.row db.purseRequests.nextSerial) :=
        Table.lookup_insert?_self ht
      cases Option.some.inj (e.symm.trans hr)
      exact nomatch hq

theorem failsMidway_reservePurse (a : PurseRequestArgs) (fee : Option Amount)
    (b : ReservePurseArgs) : db.failsMidway (.reservePurse a fee b) = false := by
  have hreq := failsMidway_insertPurseRequest db (a.byReserve fee)
  simp only [Database.failsMidway]
  cases h : insertPurseRequest db (a.byReserve fee) with
  | error e =>
    rw [h] at hreq
    exact hreq
  | ok o =>
    obtain ⟨db₁, st⟩ := o
    cases st with
    | conflict => rfl
    | identical => rfl
    | inserted =>
      refine failsMidway_bind (failsMidway_insertPurseMerge ..) fun o _ => ?_
      cases o with
      | none => rfl
      | some db₂ =>
        simp only
        split
        · rfl
        · exact failsMidway_bind (failsMidway_insertAccountMerge ..) fun _ _ => rfl

/-- An in-quota purse has its merge already, so `exchange_do_purse_merge` never gets to its
quota. -/
theorem failsMidway_purseMerge (hr : QuotaRows db) (a : PurseMergeArgs) :
    failsMidway (exchangeDoPurseMerge db a) = false := by
  unfold exchangeDoPurseMerge
  rw [initReserve_frame]
  simp only
  split
  · rfl
  · next partner _ =>
    split
    · rfl
    · next r hl =>
      split
      · refine failsMidway_bind (failsMidway_insertPurseMerge ..) fun o ho => ?_
        cases o with
        | none => rfl
        | some db₁ =>
          obtain ⟨m, hm, -, rfl⟩ := insertPurseMerge_eq_some ho
          refine failsMidway_bind (failsMidway_insertPurseDecision ..) fun o _ => ?_
          cases o with
          | none => rfl
          | some db₂ =>
            refine failsMidway_bind ?_ fun _ _ => rfl
            unfold creditMerge
            split
            · next hq =>
              have hk := hr.merge r (Table.mem_of_lookup hl) hq
              have e : r.pursePub = a.pursePub := Table.key_of_lookup hl
              rw [e] at hk
              exact absurd ((Table.insert?_eq_some.mp hm).1.symm.trans hk) (by decide)
            · refine failsMidway_bind (failsMidway_insertAccountMerge ..) fun _ _ => ?_
              split <;> rfl
      · rfl

/-- **No procedure fails midway** if no in-quota purse is filled. -/
theorem failsMidway_eq_false {o : Op} (hb : PursesSound db) (hr : QuotaRows db)
    (ho : QuotaOpOk db o) : db.failsMidway o = false := by
  cases o with
  | createPurse a ds => exact failsMidway_createPurse hb ho
  | purseDeposit a => exact failsMidway_purseDeposit hb ho
  | purseMerge a => exact failsMidway_purseMerge hr a
  | reservePurse a fee b => exact failsMidway_reservePurse a fee b
  | purseDelete a =>
    change failsMidway (exchangeDoPurseDelete db a) = false
    unfold exchangeDoPurseDelete
    split
    · rfl
    · split
      · rfl
      · split
        · rfl
        · exact failsMidway_bind (failsMidway_refundPurse ..) fun _ _ => rfl
  | expirePurse a =>
    change failsMidway (exchangeDoExpirePurse db a) = false
    unfold exchangeDoExpirePurse
    split
    · rfl
    · exact failsMidway_bind (failsMidway_refundPurse ..) fun _ _ => rfl
  | _ => rfl

end Procedures

/-! ## Runs -/

/-- What holds between the counters, the purses and the limits. -/
structure QuotaBooks (db : Database) : Prop where
  coins : CoinsSound db.toCoinTables
  purses : PursesSound db
  rows : QuotaRows db
  counted : ∀ r, db.activeOf r = db.quotaCount r
  limited : ∀ x ∈ db.reserves.rows, x.pursesActive ≤ x.pursesAllowed

theorem quotaBooks_empty : QuotaBooks Database.empty :=
  ⟨fun _ h => (nomatch h), fun _ h => (nomatch h),
    ⟨fun _ h => (nomatch h), fun _ h => (nomatch h), fun _ h => (nomatch h)⟩, fun _ => rfl,
    fun _ h => (nomatch h)⟩

/-- **Every posting keeps counters and counts together.** -/
theorem Posts.quotaBooks {db db' : Database} {p : Posting} (h : Posts db p db')
    (hC : QuotaPostingOk db p) (hb : QuotaBooks db) : QuotaBooks db' := by
  have hm := h.quotaMoves hC hb.rows.reserve
  refine ⟨h.coinsSound hb.coins, h.pursesSound hb.purses, h.quotaRows hb.coins hb.rows, fun r => ?_,
    hm.bound hb.limited⟩
  calc db'.activeOf r = db.activeOf r + activeChange db p r := hm.value r
    _ = db.quotaCount r + activeChange db p r := by rw [hb.counted]
    _ = db'.quotaCount r := (h.quotaCount hb.rows r).symm

theorem run_quotaBooks {ops : List Op} (h : Admits step QuotaOpOk Database.empty ops) :
    QuotaBooks (run step Database.empty ops) :=
  run_posting_invariant (fun _ _ ho _ _ he => quotaPostingOk_of_emits ho he) quotaBooks_empty
    (fun _ _ _ hC hp hb => hp.quotaBooks hC hb) h

/-- The purse quota is kept by a run: each counter is the number of purses that it is to count, it
is within its limits, and no procedure of the run has failed midway. -/
structure QuotaKept (ops : List Op) : Prop where
  counted : ∀ r, (run step Database.empty ops).activeOf r = (run step Database.empty ops).quotaCount r
  limited : ∀ x ∈ (run step Database.empty ops).reserves.rows,
    0 ≤ x.pursesActive ∧ x.pursesActive ≤ x.pursesAllowed
  completes : ∀ before o after, ops = before ++ o :: after →
    (run step Database.empty before).failsMidway o = false

theorem quotaCount_nonneg (db : Database) (r : ReservePub) : 0 ≤ db.quotaCount r :=
  Table.total_onlyIf_nonneg fun _ _ => (by decide)

/-- **The purse quota is kept** by a run that fills no in-quota purse. -/
theorem run_quota {ops : List Op} (h : Admits step QuotaOpOk Database.empty ops) :
    QuotaKept ops where
  counted := (run_quotaBooks h).counted
  limited x hx := by
    have hb := run_quotaBooks h
    have hl : (run step Database.empty ops).reserves.lookup x.reservePub = some x :=
      Table.lookup_eq_some.mpr ⟨hx, rfl⟩
    have hcount := hb.counted x.reservePub
    rw [Database.activeOf, Table.valueAt_of_lookup hl] at hcount
    exact ⟨hcount ▸ quotaCount_nonneg _ _, hb.limited x hx⟩
  completes before o after hops := by
    subst hops
    obtain ⟨ha, ho⟩ := h.split
    have hb := run_quotaBooks ha
    exact failsMidway_eq_false hb.purses hb.rows ho

/-! ## Sample runs -/

/-- A reserve is opened with room for one purse and uses it; a coin is there to pay. -/
def quotaPurse : List Op :=
  coinOfTen .zero .zero ++
  [.reservesIn 100 100 [transferOfTen 2 1],
   .reserveOpen { reservePub := 2, totalPaid := .zero, reservePayment := .zero, minPurseLimit := 1,
                  defaultPurseLimit := 1, reserveSig := 1, desiredExpiration := 200,
                  reserveGcDelay := 5, now := 0, openFee := .zero },
   .reservePurse { pursePub := 8, mergePub := 9, now := 0, purseExpiration := 5, hContractTerms := 3,
                   ageLimit := 0, flags := 0, inReserveQuota := true, purseFee := .zero,
                   amount := .whole 5, purseSig := 1 } none
     { pursePub := 8, mergeSig := 1, mergeTimestamp := 0, reserveExpiration := 100, reserveGc := 100,
       reserveSig := 2, reserveQuota := true, purseFee := .zero, reservePub := 2,
       walletHPayto := 4 }]

/-- The coin pays some of the amount of the purse. -/
def quotaDeposit (amount : Amount) : Op :=
  .purseDeposit { partnerId := none, pursePub := 8, amountWithFee := amount, coinPub := 7,
                  coinSig := 1, amountWithoutFee := amount, reserveExpiration := 20, now := 0 }

theorem partlyPaidPurse_quota :
    (run step Database.empty (quotaPurse ++ [quotaDeposit (.whole 4)])).activeOf 2 = 1 ∧
      QuotaKept (quotaPurse ++ [quotaDeposit (.whole 4), .expirePurse ⟨0, 10, 10⟩]) :=
  ⟨by decide +kernel, run_quota (by decide +kernel)⟩

/-- The deposit that fills the purse reaches the undeclared variable. -/
theorem not_quota_kept : ¬ QuotaKept (quotaPurse ++ [quotaDeposit (.whole 5)]) :=
  fun h => absurd (h.completes quotaPurse _ [] rfl) (by decide +kernel)

end TalerExchange
