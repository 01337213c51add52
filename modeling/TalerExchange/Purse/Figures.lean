import TalerExchange.Posting.Simulation

/-!
# The terms of a purse

What the tables say about a purse that does not change any more once it is there.

* `purseTerms`, `mergeTarget`, `isMerged`: the amount and the fee of a purse, the reserve that it is
  merged into, and whether it was;
* **`Posts.purseGrows`**: none of this is ever forgotten;
* **`Posts.feesPaid`**: a purse with a fee has a merge, so `exchange_do_purse_merge` finds no fee
  to add.
-/

namespace TalerExchange

open Sql

namespace Database

variable (db : Database)

/-- The reserve that a merge of the purse credits; none if it goes to a partner. -/
def mergeTarget (p : PursePub) : Option ReservePub := do
  let m ← db.purseMerges.lookup p
  if m.partnerSerialId.getD 0 = 0 then some m.reservePub else none

/-- The amount and the fee of a purse. -/
def purseTerms (p : PursePub) : Option (Amount × Amount) :=
  (db.purseRequests.lookup p).map fun q => (q.amountWithFee, q.purseFee)

/-- The purse has been decided as merged. -/
def isMerged (p : PursePub) : Bool := (db.purseDecision.lookup p).any (!·.refunded)

end Database

section Terms

variable {db : Database}

theorem purseTerms_of_lookup {p : PursePub} {q : PurseRequest}
    (h : db.purseRequests.lookup p = some q) : db.purseTerms p = some (q.amountWithFee, q.purseFee) := by
  unfold Database.purseTerms
  rw [h]
  rfl

theorem mergeTarget_of_lookup {p : PursePub} {m : PurseMerge} (h : db.purseMerges.lookup p = some m) :
    db.mergeTarget p = if m.partnerSerialId.getD 0 = 0 then some m.reservePub else none := by
  unfold Database.mergeTarget
  rw [h]
  rfl

/-- Purses change their balance and status, not their terms. -/
theorem purseTerms_setPurse (db : Database) (p q : PursePub) {f : PurseRequest → PurseRequest}
    {hk : ∀ x, Record.key (f x) = Record.key x} {hs : ∀ x, Record.serial (f x) = Record.serial x}
    (hf : ∀ x, (f x).amountWithFee = x.amountWithFee ∧ (f x).purseFee = x.purseFee) :
    ((db.setPurse p f hk hs).lookup q).map (fun x => (x.amountWithFee, x.purseFee)) =
      db.purseTerms q := by
  rw [db.lookup_setPurse, Option.map_map]
  unfold Database.purseTerms
  congr 1
  funext x
  simp only [Function.comp_apply]
  split_ifs
  · rw [(hf x).1, (hf x).2]
  · rfl

theorem purseTerms_markDecided (db : Database) (p q : PursePub) :
    ((db.markDecided p).lookup q).map (fun x => (x.amountWithFee, x.purseFee)) = db.purseTerms q :=
  purseTerms_setPurse db p q fun _ => ⟨rfl, rfl⟩

theorem purseTerms_deposit (db : Database) (p q : PursePub) (a : TalerAmount) :
    ((db.setPurse p fun r => { r with balance := r.balance.plus a }).lookup q).map
      (fun x => (x.amountWithFee, x.purseFee)) = db.purseTerms q :=
  purseTerms_setPurse db p q fun _ => ⟨rfl, rfl⟩

theorem purseTerms_insert? {t : Table PurseRequest} {mk : ℕ → PurseRequest}
    {hs : ∀ n, Record.serial (mk n) = n} (ht : db.purseRequests.insert? mk hs = some t) {p : PursePub}
    {w : Amount × Amount} (h : db.purseTerms p = some w) :
    (t.lookup p).map (fun x => (x.amountWithFee, x.purseFee)) = some w := by
  obtain ⟨q, hq, rfl⟩ := Option.map_eq_some_iff.mp h
  exact Option.map_eq_some_iff.mpr ⟨q, Table.lookup_insert?_of_some ht hq, rfl⟩

theorem purseTerms_insert?_cases {t : Table PurseRequest} {mk : ℕ → PurseRequest}
    {hs : ∀ n, Record.serial (mk n) = n} (ht : db.purseRequests.insert? mk hs = some t) {p : PursePub}
    {w : Amount × Amount}
    (h : (t.lookup p).map (fun x => (x.amountWithFee, x.purseFee)) = some w) :
    db.purseTerms p = some w ∨ (Record.key (mk db.purseRequests.nextSerial) = p ∧
      w = ((mk db.purseRequests.nextSerial).amountWithFee, (mk db.purseRequests.nextSerial).purseFee)) := by
  rw [Table.lookup_insert? ht] at h
  split_ifs at h with e
  · exact Or.inr ⟨e, (Option.some.inj h).symm⟩
  · exact Or.inl h

end Terms

/-! ## What is known stays known -/

/-- The lookups that describe purses only gain results. -/
structure PurseGrows (db db' : Database) : Prop where
  merge : ∀ {p m}, db.purseMerges.lookup p = some m → db'.purseMerges.lookup p = some m
  terms : ∀ {p t}, db.purseTerms p = some t → db'.purseTerms p = some t
  decision : ∀ {p d}, db.purseDecision.lookup p = some d → db'.purseDecision.lookup p = some d

/-- **Nothing known about purses is forgotten.** -/
theorem Posts.purseGrows {db db' : Database} {p : Posting} (h : Posts db p db') :
    PurseGrows db db' := by
  cases h with
  | wireTarget =>
    rw [addWireTarget_frame]
    exact ⟨fun h => h, fun h => h, fun h => h⟩
  | initReserve =>
    rw [initReserve_frame]
    exact ⟨fun h => h, fun h => h, fun h => h⟩
  | reservePurse _ _ _ _ ht _ hmi hpay =>
    rw [payForPurse_frame hpay]
    exact ⟨Table.lookup_insert?_of_some hmi, purseTerms_insert? ht, fun h => h⟩
  | purseRequest _ _ ht => exact ⟨fun h => h, purseTerms_insert? ht, fun h => h⟩
  | purseDeposit => exact ⟨fun h => h, fun h => (purseTerms_deposit ..).trans h, fun h => h⟩
  | finishMerge _ _ _ _ ht =>
    exact ⟨fun h => h, fun h => (purseTerms_markDecided ..).trans h, Table.lookup_insert?_of_some ht⟩
  | purseMerge _ _ _ _ hmi ht =>
    exact ⟨Table.lookup_insert?_of_some hmi, fun h => (purseTerms_markDecided ..).trans h,
      Table.lookup_insert?_of_some ht⟩
  | purseRefund _ ht =>
    exact ⟨fun h => h, fun h => (purseTerms_markDecided ..).trans h, Table.lookup_insert?_of_some ht⟩
  | _ => exact ⟨fun h => h, fun h => h, fun h => h⟩

/-! ## Fees -/

/-- A purse that can still be merged by a merge request has no fee. -/
def FeesPaid (db : Database) : Prop :=
  ∀ {p t}, db.purseMerges.hasKey p = false → db.purseTerms p = some t → t.2 = Amount.zero

/-- **Only a reserve that creates a purse pays a fee**, and it creates the merge with it. -/
theorem Posts.feesPaid {db db' : Database} {p : Posting} (h : Posts db p db') (hf : FeesPaid db) :
    FeesPaid db' := by
  intro q t hm hq
  have terms : ∀ {p}, ((db.markDecided p).lookup q).map (fun x => (x.amountWithFee, x.purseFee)) =
      some t → db.purseTerms q = some t := fun h => (purseTerms_markDecided ..).symm.trans h
  cases h with
  | wireTarget =>
    rw [addWireTarget_frame] at hm hq
    exact hf hm hq
  | initReserve =>
    rw [initReserve_frame] at hm hq
    exact hf hm hq
  | purseRequest hfee _ ht =>
    rcases purseTerms_insert?_cases ht hq with h | ⟨-, rfl⟩
    · exact hf hm h
    · exact hfee
  | reservePurse hp _ _ _ ht _ hmi hpay =>
    rw [payForPurse_frame hpay] at hm hq
    rw [Table.hasKey_insert? hmi, Bool.or_eq_false_iff, decide_eq_false_iff_not] at hm
    rcases purseTerms_insert?_cases ht hq with h | ⟨h, -⟩
    · exact hf hm.1 h
    · exact absurd (hp.symm.trans h) hm.2
  | purseDeposit => exact hf hm ((purseTerms_deposit ..).symm.trans hq)
  | finishMerge => exact hf hm (terms hq)
  | purseMerge _ _ _ _ hmi =>
    rw [Table.hasKey_insert? hmi, Bool.or_eq_false_iff] at hm
    exact hf hm.1 (terms hq)
  | purseRefund => exact hf hm (terms hq)
  | _ => exact hf hm hq

end TalerExchange
