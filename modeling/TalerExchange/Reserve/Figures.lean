import TalerExchange.Coin.Figures
import TalerExchange.Purse.Figures

/-!
# The figures of a reserve

What the tables say about a reserve, in units: its balance and the totals of everything that was
recorded as paid into it or taken from it.

* `wired`, `recoupedInto`, `mergedInto`: the credits;
* `withdrawn`, `ageWithdrawn`, `openPaid`, `closed`, `feesTaken`: the debits;
* **`bookBalance`**: the balance that follows from the records;
* `Moves`: what a write to `reserves` does to all balances at once;
* **`Posts.moves`**: what each posting does to them.
-/

namespace TalerExchange

open Sql

namespace Database

variable (db : Database)

/-! ## Definitions -/

/-- The balance of a reserve; `0` for an unknown one. -/
def balanceOf (r : ReservePub) : ℤ := db.reserves.valueAt (fun x => x.currentBalance.units) r

/-- The reserve with this `reserve_uuid`. -/
def uuidOwner (n : ℕ) : Option ReservePub := (db.reserves.lookupSerial n).map (·.reservePub)

def wired (r : ReservePub) : ℤ :=
  db.reservesIn.total (onlyIf (fun x => x.reservePub = r) fun x => x.credit.units)

def recoupedInto (r : ReservePub) : ℤ :=
  db.recoup.total (onlyIf (fun x => db.reserveOfOut x.reserveOutSerialId = some r)
    fun x => x.amount.units)

/-- The purses merged locally into the reserve. -/
def mergedInto (r : ReservePub) : ℤ :=
  db.purseDecision.total (onlyIf (fun d => d.refunded = false ∧ db.mergeTarget d.pursePub = some r)
    fun d => (db.purseTerms d.pursePub).elim 0 fun t => t.1.units)

def withdrawn (r : ReservePub) : ℤ :=
  db.reservesOut.total (onlyIf (fun x => db.uuidOwner x.reserveUuid = some r)
    fun x => x.amountWithFee.units)

def ageWithdrawn (r : ReservePub) : ℤ :=
  db.ageWithdraw.total (onlyIf (fun x => x.reservePub = r) fun x => x.amountWithFee.units)

def openPaid (r : ReservePub) : ℤ :=
  db.reservesOpenRequests.total (onlyIf (fun x => x.reservePub = r) fun x => x.reservePayment.units)

def closed (r : ReservePub) : ℤ :=
  db.reservesClose.total (onlyIf (fun x => x.reservePub = r) fun x => x.amount.units)

/-- The fees of the purses that are to be merged into the reserve. -/
def feesTaken (r : ReservePub) : ℤ :=
  db.purseMerges.total (onlyIf (fun m => m.reservePub = r)
    fun m => (db.purseTerms m.pursePub).elim 0 fun t => t.2.units)

/-- **The balance of a reserve according to the records.** -/
def bookBalance (r : ReservePub) : ℤ :=
  db.wired r + db.recoupedInto r + db.mergedInto r -
    (db.withdrawn r + db.ageWithdrawn r + db.openPaid r + db.closed r + db.feesTaken r)

end Database

/-! ## Writes to `reserves` -/

/-- Every balance changes by `δ`, stays in range, and no reserve is lost. -/
structure Moves (t t' : Table Reserve) (δ : ReservePub → ℤ) : Prop where
  value : ∀ r, t'.valueAt (fun x => x.currentBalance.units) r =
    t.valueAt (fun x => x.currentBalance.units) r + δ r
  sound : (∀ x ∈ t.rows, x.currentBalance.Sound) → ∀ x ∈ t'.rows, x.currentBalance.Sound
  known : ∀ r, t.hasKey r = true → t'.hasKey r = true
  owner : ∀ {n r}, (t.lookupSerial n).map (·.reservePub) = some r →
    (t'.lookupSerial n).map (·.reservePub) = some r

section Moves

variable {t t' : Table Reserve} {δ : ReservePub → ℤ}

theorem Moves.refl (t : Table Reserve) (hδ : ∀ r, δ r = 0) : Moves t t δ :=
  ⟨fun r => by rw [hδ, add_zero], fun h => h, fun _ h => h, fun h => h⟩

theorem Moves.insert {mk : ℕ → Reserve} {hs : ∀ n, Record.serial (mk n) = n}
    (h : t.insert? mk hs = some t') (hsound : (mk t.nextSerial).currentBalance.Sound)
    (hδ : ∀ r, δ r = if (mk t.nextSerial).reservePub = r then
      (mk t.nextSerial).currentBalance.units else 0) : Moves t t' δ := by
  refine ⟨fun r => (hδ r).symm ▸ Table.valueAt_insert? h _ r,
    fun hall => Table.forall_insert? h hall hsound, fun r => Table.hasKey_insert?_of_hasKey h,
    fun {n r} ho => ?_⟩
  obtain ⟨x, hx, rfl⟩ := Option.map_eq_some_iff.mp ho
  exact Option.map_eq_some_iff.mpr ⟨x, Table.lookupSerial_insert?_of_some h hx, rfl⟩

variable {db : Database} {r : ReservePub} {f : Reserve → Reserve} {x : Reserve}

/-- An update of one reserve whose row is `x`. -/
theorem Moves.set {d : ℤ} (hx : db.reserves.lookup r = some x)
    (hd : (f x).currentBalance.units = x.currentBalance.units + d)
    (hsound : x.currentBalance.Sound → (f x).currentBalance.Sound)
    (hδ : ∀ y, δ y = if r = y then d else 0)
    (hk : ∀ x, Record.key (f x) = Record.key x := by intro; rfl)
    (hs : ∀ x, Record.serial (f x) = Record.serial x := by intro; rfl) :
    Moves db.reserves (db.setReserve r f hk hs) δ := by
  have hp : ∀ y : Reserve, decide (y.reservePub = r) = true ↔ Record.key y = r := fun _ =>
    decide_eq_true_iff
  refine ⟨fun y => ?_, fun hall => Table.forall_update hall fun y hy hyr hys => ?_,
    fun y hy => (db.hasKey_setReserve ..).trans hy, fun {n y} ho => ?_⟩
  · refine (Table.valueAt_update hp _ y).trans ?_
    rw [hδ]
    by_cases h : y = r
    · subst h
      rw [if_pos rfl, if_pos rfl, Table.valueAt_of_lookup hx, Table.valueAt_of_lookup hx]
      exact hd
    · rw [if_neg h, if_neg (Ne.symm h), add_zero]
  · have e : y = x := Table.eq_of_key hy (Table.mem_of_lookup hx)
      (((hp y).mp hyr).trans (Table.key_of_lookup hx).symm)
    exact e ▸ hsound (e ▸ hys)
  · obtain ⟨z, hz, rfl⟩ := Option.map_eq_some_iff.mp ho
    rw [db.lookupSerial_setReserve, hz]
    simp only [Option.map_some, Option.some.injEq]
    split_ifs
    · exact hk z
    · rfl

/-- A payment from the reserve that its balance covers. -/
theorem Moves.debit {a : Amount} (hx : db.reserves.lookup r = some x)
    (hc : x.currentBalance.covers a = true) (hf : (f x).currentBalance = x.currentBalance.minus a)
    (hδ : ∀ y, δ y = if r = y then -a.units else 0)
    (hk : ∀ x, Record.key (f x) = Record.key x := by intro; rfl)
    (hs : ∀ x, Record.serial (f x) = Record.serial x := by intro; rfl) :
    Moves db.reserves (db.setReserve r f hk hs) δ := by
  refine Moves.set hx ?_ (fun hsx => hf ▸ hsx.minus a.normal_toTaler hc) hδ hk hs
  rw [hf, TalerAmount.units_minus, Amount.units_toTaler]
  omega

/-- A payment into the reserve. -/
theorem Moves.credit {a : TalerAmount} (hr : db.reserves.hasKey r = true) (ha : a.Sound)
    (hf : ∀ x, (f x).currentBalance = x.currentBalance.plus a)
    (hδ : ∀ y, δ y = if r = y then a.units else 0)
    (hk : ∀ x, Record.key (f x) = Record.key x := by intro; rfl)
    (hs : ∀ x, Record.serial (f x) = Record.serial x := by intro; rfl) :
    Moves db.reserves (db.setReserve r f hk hs) δ := by
  obtain ⟨x, hx⟩ := Table.exists_lookup hr
  exact Moves.set hx ((hf x).symm ▸ TalerAmount.units_plus ..) (fun hsx => hf x ▸ hsx.plus ha) hδ hk hs

/-- An update that leaves all balances alone. -/
theorem Moves.same (hf : ∀ x, (f x).currentBalance = x.currentBalance) (hδ : ∀ y, δ y = 0)
    (hk : ∀ x, Record.key (f x) = Record.key x := by intro; rfl)
    (hs : ∀ x, Record.serial (f x) = Record.serial x := by intro; rfl) :
    Moves db.reserves (db.setReserve r f hk hs) δ := by
  refine ⟨fun y => ?_, fun hall => Table.forall_update hall fun y _ _ hys => (hf y).symm ▸ hys,
    fun y hy => (db.hasKey_setReserve ..).trans hy, fun {n y} ho => ?_⟩
  · rw [hδ, add_zero]
    refine Table.valueAt_update_same (fun x => ?_) y
    rw [hf]
  · obtain ⟨z, hz, rfl⟩ := Option.map_eq_some_iff.mp ho
    rw [db.lookupSerial_setReserve, hz]
    simp only [Option.map_some, Option.some.injEq]
    split_ifs
    · exact hk z
    · rfl

end Moves

/-! ## Balances after a posting -/

/-- What a posting does to the balance of a reserve. -/
def balanceChange (db db' : Database) : Posting → ReservePub → ℤ
  | .recoupToReserve a, r => if a.reservePub = r then db.remainingOf a.coinPub else 0
  | .reservePurse _ b, r => if b.reservePub = r then -b.purseFee.units else 0
  | .finishMerge a, r => if db.mergeTarget a.pursePub = some r then
      (db.purseTerms a.pursePub).elim 0 fun t => t.1.units else 0
  | .purseMerge a, r => if db'.mergeTarget a.pursePub = some r then
      (db.purseTerms a.pursePub).elim 0 fun t => t.1.units + t.2.units else 0
  | .importNew x, r => if x.reservePub = r then x.balance.units else 0
  | .importReserve x, r => if x.reservePub = r then x.balance.units else 0
  | .withdraw a _, r => if a.reservePub = r then -a.amount.units else 0
  | .ageWithdraw a, r => if a.reservePub = r then -a.amountWithFee.units else 0
  | .ageDebit a, r => if a.reservePub = r then -a.amountWithFee.units else 0
  | .reserveOpen a, r => if a.reservePub = r then -a.reservePayment.units else 0
  | .reserveClosed a, r => if a.reservePub = r then -a.amountWithFee.units else 0
  | _, _ => 0

section Postings

variable {db db' : Database}

/-- A merge credits the reserve it is for, unless it goes to a partner. -/
theorem Credits.moves {partner : ℕ} {p : PursePub} {r : ReservePub} {amount : TalerAmount}
    {rs : Table Reserve} {acts : Table PurseAction} (h : Credits db partner p r amount rs acts)
    (hr : db.reserves.hasKey r = true) (ha : amount.Sound) {δ : ReservePub → ℤ}
    (hδ : ∀ y, δ y = if (if partner = 0 then some r else none) = some y then amount.units else 0) :
    Moves db.reserves rs δ := by
  cases h with
  | wad hp =>
    refine Moves.refl _ fun y => ?_
    simp [hδ, hp]
  | reserve hp f hk hs hf =>
    refine Moves.credit hr ha (fun x => (hf x).1) (fun y => ?_) hk hs
    simp [hδ, hp]

/-- What `exchange_do_purse_merge` credits. -/
theorem sound_mergeCredit (q : PurseRequest) :
    (q.amountWithFee.toTaler.addRaw q.purseFee).normalize.Sound ∧
      (q.amountWithFee.toTaler.addRaw q.purseFee).normalize.units =
        q.amountWithFee.units + q.purseFee.units := by
  have hu : (q.amountWithFee.toTaler.addRaw q.purseFee).normalize.units =
      q.amountWithFee.units + q.purseFee.units := by
    rw [TalerAmount.units_normalize, TalerAmount.units_addRaw]
    rfl
  refine ⟨⟨TalerAmount.normal_normalize ?_, ?_⟩, hu⟩
  · exact add_nonneg q.amountWithFee.normal_toTaler.1 q.purseFee.normal_toTaler.1
  · rw [hu]
    exact add_nonneg q.amountWithFee.units_nonneg q.purseFee.units_nonneg

theorem moves_releaseQuota (db : Database) (p : PursePub) {δ : ReservePub → ℤ}
    (hδ : ∀ r, δ r = 0) : Moves db.reserves (db.releaseQuota p) δ := by
  unfold Database.releaseQuota
  split
  · exact Moves.same (f := fun r => { r with pursesActive := r.pursesActive - 1 }) (fun _ => rfl) hδ
  · exact Moves.refl _ hδ

/-- **What a posting does to the balances of all reserves.** -/
theorem Posts.moves {p : Posting} (h : Posts db p db') (hs : CoinsSound db.toCoinTables) :
    Moves db.reserves db'.reserves (balanceChange db db' p) := by
  cases h with
  | wireTarget =>
    rw [addWireTarget_frame]
    exact Moves.refl _ fun _ => rfl
  | initReserve r e =>
    unfold TalerExchange.initReserve
    split
    · next t ht => exact Moves.insert ht TalerAmount.sound_zero fun y => (ite_self _).symm
    · exact Moves.refl _ fun _ => rfl
  | recoupToReserve hc _ _ hk _ =>
    refine Moves.credit hk (hs _ (Table.mem_of_lookup hc)) (fun _ => rfl) fun y => ?_
    simp only [balanceChange, CoinTables.remainingOf, Table.valueAt_of_lookup hc]
  | @reservePurse db₁ _ b _ _ _ _ _ _ _ hq _ _ _ hpay =>
    change Moves db.reserves db₁.reserves _
    obtain ⟨-, hfee, ht⟩ | ⟨r, hl, hquota, -, hset⟩ | ⟨r, hl, -, hc, hset⟩ := payForPurse_cases hpay
    · refine Moves.insert ht TalerAmount.sound_zero fun y => ?_
      simp [balanceChange, hfee]
    · rw [hset]
      refine Moves.set hl (d := 0) (add_zero _).symm id fun y => ?_
      simp [balanceChange, hq hquota]
    · rw [hset]
      exact Moves.debit hl hc rfl fun _ => rfl
  | finishMerge hm hr _ _ _ _ hk hcr =>
    refine hcr.moves hk (Amount.sound_toTaler _) fun y => ?_
    simp only [balanceChange, mergeTarget_of_lookup hm, purseTerms_of_lookup hr]
    rfl
  | purseMerge _ hr _ _ hm _ _ hk _ hcr =>
    refine hcr.moves hk (sound_mergeCredit _).1 fun y => ?_
    simp only [balanceChange, purseTerms_of_lookup hr, (sound_mergeCredit _).2]
    rw [mergeTarget_of_lookup (by exact Table.lookup_insert?_self hm)]
    rfl
  | purseRefund =>
    split_ifs
    · exact moves_releaseQuota db _ fun _ => rfl
    · exact Moves.refl _ fun _ => rfl
  | importNew ht => exact Moves.insert ht (Amount.sound_toTaler _) fun _ => rfl
  | importReserve ht => exact Moves.insert ht (Amount.sound_toTaler _) fun _ => rfl
  | withdraw hl hc => exact Moves.debit hl hc rfl fun _ => rfl
  | ageWithdraw hl hc => exact Moves.debit hl hc rfl fun _ => rfl
  | ageDebit hl hc => exact Moves.debit hl hc rfl fun _ => rfl
  | reserveOpen hl _ hc => exact Moves.debit hl hc rfl fun _ => rfl
  | reserveClosed _ _ hl hb =>
    refine Moves.set hl ?_ (fun _ => Amount.sound_toTaler _) fun _ => rfl
    exact hb.trans (sub_eq_add_neg _ _)
  | _ => exact Moves.refl _ fun _ => rfl

end Postings

end TalerExchange
