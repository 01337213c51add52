import TalerExchange.Coin.Conservation
import TalerExchange.Purse.Value

/-!
# The fate of a purse

Every coin that is debited into a purse is disposed of once: it gets its money back, or the money
counts for the reserve that the purse is merged into.

* `debitedInto`, `recreditedFrom`: what the operations of a run take from a coin for a purse and
  give back, taken from the balances of the coin;
* `PurseFate`: the two agree with the deposits and the decision that are recorded;
* `FateOpOk`: no deposit into an expired purse;
* **`run_purse_fate`**: in a run of such operations every purse has its fate;
* `strandedDeposit` is a run that breaks it.
-/

namespace TalerExchange

open Sql Transition

/-! ## Definitions -/

namespace CoinTables

variable (db : CoinTables)

/-- The deposits of a coin into a purse. There is at most one row. -/
def pursedIn (p : PursePub) (c : CoinPub) : ℤ :=
  db.purseDeposits.total (onlyIf (fun d => d.pursePub = p ∧ d.coinPub = c)
    fun d => d.amountWithFee.units)

/-- What a coin gets back from a purse according to the records. -/
def restoredFrom (p : PursePub) (c : CoinPub) : ℤ :=
  if db.isRefunded p = true then db.pursedIn p c else 0

end CoinTables

/-- The operation may deposit into the purse. -/
def Op.mayDeposit (p : PursePub) : Op → Bool
  | .purseDeposit a => a.pursePub = p
  | .createPurse a _ => a.pursePub = p
  | _ => false

/-- The operation may refund the purse. -/
def Op.mayRefund (db : Database) (p : PursePub) : Op → Bool
  | .purseDelete a => a.pursePub = p
  | .expirePurse a => (expiringPurse db a).any (·.pursePub = p)
  | _ => false

/-- What a run takes from a coin for a purse. -/
def debitedInto (ops : List Op) (p : PursePub) (c : CoinPub) : ℤ :=
  -gain step (fun _ o => o.mayDeposit p) (·.remainingOf c) Database.empty ops

/-- What a run gives a coin back from a purse. -/
def recreditedFrom (ops : List Op) (p : PursePub) (c : CoinPub) : ℤ :=
  gain step (fun db o => o.mayRefund db p) (·.remainingOf c) Database.empty ops

/-- **The fate of a purse in a run.** It is decided at most once; every deposit was debited once; if
the purse is refunded, the coins got their deposits back, and nothing otherwise; all deposits count
for the balance; if the purse is merged, the reserve got its amount, and nothing otherwise; and
nothing is deposited any more once it is decided. -/
structure PurseFate (ops : List Op) (p : PursePub) : Prop where
  once : ((run step Database.empty ops).purseDecision.rows.filter (·.pursePub = p)).length ≤ 1
  debited : ∀ c, debitedInto ops p c = (run step Database.empty ops).pursedIn p c
  recredited : ∀ c, recreditedFrom ops p c =
    if (run step Database.empty ops).isRefunded p then (run step Database.empty ops).pursedIn p c
    else 0
  counted : (run step Database.empty ops).purseBalance p = (run step Database.empty ops).paidIn p
  merged : ∀ r, creditedFor ops p r = (run step Database.empty ops).mergedFor p r
  undecided : ∀ before o after, ops = before ++ o :: after →
    ∀ d ∈ (run step Database.empty (before ++ [o])).purseDeposits.rows, d.pursePub = p →
      d ∈ (run step Database.empty before).purseDeposits.rows ∨
        (run step Database.empty before).purseDecision.hasKey p = false

/-! ## Conditions -/

/-- The condition on postings. -/
def FatePostingOk (db : Database) : Posting → Prop
  | .purseDeposit a => db.InTime a ∧ PurseArgsOk db (.purseDeposit a)
  | _ => True

/-- The condition on operations. -/
def FateOpOk (db : Database) : Op → Prop
  | .purseDeposit a => db.InTime a ∧ PurseCallerOk db (.purseDeposit a)
  | .createPurse a ds => (∀ d ∈ ds, db.InTime (d.into a.pursePub)) ∧
      PurseCallerOk db (.createPurse a ds)
  | _ => True

instance (db : Database) (a : PurseDepositArgs) : Decidable (db.InTime a) :=
  inferInstanceAs (Decidable (_ → _ ∨ _))

instance (db : Database) : (o : Op) → Decidable (FateOpOk db o)
  | .purseDeposit _ => inferInstanceAs (Decidable (_ ∧ _))
  | .createPurse .. => inferInstanceAs (Decidable ((∀ d ∈ _, Database.InTime _ _) ∧ _))
  | .denomination _ | .partner _ | .coin .. | .deposit _ | .refund _ | .melt _ | .reveal _
  | .reserveOpenDeposit _ | .recoupToReserve _ | .recoupToCoin _ | .purseMerge _ | .reservePurse ..
  | .purseDelete _ | .expirePurse _ | .reservesIn .. | .batchWithdraw .. | .ageWithdraw _
  | .reserveOpen _ | .reserveClosed _ | .closeRequest _ | .aggregate _ => .isTrue trivial

theorem FatePostingOk.args {db : Database} {p : Posting} (h : FatePostingOk db p) :
    PurseArgsOk db p := by
  cases p with
  | purseDeposit a => exact h.2
  | _ => trivial

theorem FateOpOk.caller {db : Database} {o : Op} (h : FateOpOk db o) : PurseCallerOk db o := by
  cases o with
  | purseDeposit a => exact h.2
  | createPurse a ds => exact h.2
  | _ => trivial

theorem fatePostingOk_of_emits {db s : Database} {o : Op} {p : Posting} (ho : FateOpOk db o)
    (he : Emits db o s p) : FatePostingOk s p := by
  have hargs := purseArgsOk_of_emits ho.caller he
  cases p with
  | purseDeposit a =>
    obtain ⟨rfl, rfl⟩ | ⟨b, ds, rfl, ⟨d, hd, rfl⟩, hs, -⟩ := emits_purseDeposit he
    · exact ho
    · exact ⟨hs.inTime (ho.1 d hd), hargs⟩
  | _ => trivial

/-! ## Postings -/

section Postings

variable {db db' : Database} {q : Posting}

/-- What a posting deposits from a coin into a purse. -/
def depositedInto : Posting → PursePub → CoinPub → ℤ
  | .purseDeposit a, p, c => if a.pursePub = p ∧ a.coinPub = c then a.amountWithFee.units else 0
  | _, _, _ => 0

theorem Posts.pursedIn (h : Posts db q db') (p : PursePub) (c : CoinPub) :
    db'.pursedIn p c = db.pursedIn p c + depositedInto q p c := by
  cases h with
  | wireTarget =>
    rw [addWireTarget_frame]
    exact (add_zero _).symm
  | initReserve =>
    rw [initReserve_frame]
    exact (add_zero _).symm
  | reservePurse _ _ _ _ _ _ _ hpay =>
    rw [payForPurse_frame hpay]
    exact (add_zero _).symm
  | purseDeposit ht => exact Table.total_insert? ht _
  | _ => exact (add_zero _).symm

/-- The postings of an operation that may deposit into a purse. -/
theorem emits_mayDeposit {s : Database} {o : Op} {p : PursePub} (he : Emits s o db q)
    (ho : o.mayDeposit p = true) :
    (∃ a, q = .purseRequest a) ∨ (∃ a, q = .purseDeposit a ∧ a.pursePub = p) ∨
      ∃ a, q = .finishMerge a := by
  cases o with
  | createPurse b ds =>
    obtain ⟨-, rfl⟩ | ⟨d, -, ⟨rfl, -⟩ | rfl⟩ := he
    · exact Or.inl ⟨_, rfl⟩
    · exact Or.inr (Or.inl ⟨_, rfl, of_decide_eq_true ho⟩)
    · exact Or.inr (Or.inr ⟨_, rfl⟩)
  | purseDeposit b =>
    obtain ⟨-, rfl⟩ | rfl := he
    · exact Or.inr (Or.inl ⟨_, rfl, of_decide_eq_true ho⟩)
    · exact Or.inr (Or.inr ⟨_, rfl⟩)
  | _ => cases ho

/-- They take the deposits from the coins. -/
theorem Posts.remainingOf_deposit {s : Database} {o : Op} {p : PursePub} (h : Posts db q db')
    (he : Emits s o db q) (ho : o.mayDeposit p = true) (c : CoinPub) :
    db'.remainingOf c = db.remainingOf c - depositedInto q p c := by
  obtain ⟨a, rfl⟩ | ⟨a, rfl, hp⟩ | ⟨a, rfl⟩ := emits_mayDeposit he ho
  · cases h
    exact (sub_zero _).symm
  · cases h with
    | purseDeposit _ _ _ hc =>
      refine (valueAt_debit (Table.hasKey_of_lookup hc) a.amountWithFee c).trans ?_
      simp only [depositedInto, hp, true_and, eq_comm (a := c), Amount.units_toTaler]
  · cases h
    exact (sub_zero _).symm

theorem mayDeposit_of_emits {s : Database} {o : Op} {p : PursePub} {c : CoinPub}
    (he : Emits s o db q) (hq : depositedInto q p c ≠ 0) : o.mayDeposit p = true := by
  cases q with
  | purseDeposit a =>
    have hp : a.pursePub = p := by
      by_contra hne
      exact hq (if_neg fun h => hne h.1)
    obtain ⟨-, rfl⟩ | ⟨b, ds, rfl, ⟨d, -, rfl⟩, -⟩ := emits_purseDeposit he <;>
      exact decide_eq_true hp
  | _ => exact absurd rfl hq

/-! ## Refunded purses -/

/-- What a posting gives a coin back from a purse. -/
def restoredBy (db : Database) : Posting → PursePub → CoinPub → ℤ
  | .purseRefund q, p, c => if q = p then db.pursedIn p c else 0
  | _, _, _ => 0

theorem restoredFrom_of_eq (hr : db'.isRefunded p = db.isRefunded p)
    (hd : db'.purseDeposits = db.purseDeposits) (c : CoinPub) :
    db'.restoredFrom p c = db.restoredFrom p c := by
  unfold CoinTables.restoredFrom CoinTables.pursedIn
  rw [hr, hd]

theorem restoredFrom_refund {x : PursePub} {now : Timestamp}
    (ht : db.purseDecision.insert? (fun i => ⟨i, x, now, true⟩) = some db'.purseDecision)
    (hd : db'.purseDeposits = db.purseDeposits) (c : CoinPub) :
    db'.restoredFrom p c = db.restoredFrom p c + if x = p then db.pursedIn p c else 0 := by
  have hrf := isRefunded_insert? ht p
  by_cases e : x = p
  · have hn : db.isRefunded p = false :=
      isRefunded_of_undecided (e ▸ (Table.insert?_eq_some.mp ht).1)
    rw [if_pos e] at hrf
    simp only [CoinTables.restoredFrom, CoinTables.pursedIn, hrf, hn, hd, e, if_true,
      Bool.false_eq_true, if_false, zero_add]
  · rw [if_neg e] at hrf
    rw [restoredFrom_of_eq hrf hd, if_neg e, add_zero]

/-- The coins of a refunded purse get their deposits back; nothing is deposited after that. -/
theorem Posts.restoredFrom (h : Posts db q db') (hC : FatePostingOk db q) (p : PursePub)
    (c : CoinPub) : db'.restoredFrom p c = db.restoredFrom p c + restoredBy db q p c := by
  have hp := h
  have hin := h.pursedIn p c
  have hsame : db'.isRefunded p = db.isRefunded p → db'.purseDeposits = db.purseDeposits →
      db'.restoredFrom p c = db.restoredFrom p c + 0 := fun hr hd =>
    (restoredFrom_of_eq hr hd c).trans (add_zero _).symm
  cases h with
  | wireTarget =>
    rw [addWireTarget_frame]
    exact (add_zero _).symm
  | initReserve =>
    rw [initReserve_frame]
    exact (add_zero _).symm
  | reservePurse _ _ _ _ _ _ _ hpay =>
    rw [payForPurse_frame hpay]
    exact (add_zero _).symm
  | @purseDeposit a =>
    have hnr := hp.not_refunded hC.1
    unfold CoinTables.restoredFrom
    rw [hin]
    by_cases hrf : db.isRefunded p = true
    · have hne : a.pursePub ≠ p := fun e => absurd (hrf.symm.trans (e ▸ hnr)) (by decide)
      simp only [depositedInto, restoredBy, hne, false_and, if_false, add_zero]
      rfl
    · rw [if_neg hrf, if_neg (by exact hrf)]
      rfl
  | finishMerge _ _ _ _ ht =>
    exact hsame (isRefunded_merge ht p) rfl
  | purseMerge _ _ _ _ _ ht =>
    exact hsame (isRefunded_merge ht p) rfl
  | purseRefund _ ht => exact restoredFrom_refund (by exact ht) (by rfl) c
  | _ => exact (add_zero _).symm

/-- The postings of an operation that may refund a purse. -/
theorem emits_mayRefund {s : Database} {o : Op} {p : PursePub} (he : Emits s o db q)
    (ho : o.mayRefund s p = true) : (∃ a, q = .purseDeletion a) ∨ q = .purseRefund p := by
  cases o with
  | purseDelete a =>
    obtain rfl | rfl := he
    · exact Or.inl ⟨_, rfl⟩
    · exact Or.inr (congrArg Posting.purseRefund (of_decide_eq_true ho))
  | expirePurse a =>
    obtain ⟨-, x, hx, rfl⟩ := he
    simp only [Op.mayRefund, hx, Option.any_some, decide_eq_true_eq] at ho
    exact Or.inr (congrArg Posting.purseRefund ho)
  | _ => cases ho

theorem mayRefund_of_emits {s : Database} {o : Op} {p : PursePub} (he : Emits s o db (.purseRefund p)) :
    o.mayRefund s p = true := by
  cases o with
  | purseDelete a =>
    obtain h | h := he <;> cases h
    exact decide_eq_true rfl
  | expirePurse a =>
    obtain ⟨-, x, hx, h⟩ := he
    cases h
    simp [Op.mayRefund, hx]
  | _ => cases kind_of_emits he

theorem restoredTo_depositsOf (db : Database) (p : PursePub) (c : CoinPub) :
    restoredTo (db.depositsOf p) c = db.pursedIn p c := by
  unfold restoredTo Database.depositsOf CoinTables.pursedIn
  rw [Table.sum_filter]
  refine Table.total_congr fun d _ => ?_
  by_cases h₁ : d.pursePub = p <;> by_cases h₂ : d.coinPub = c <;> simp [onlyIf, h₁, h₂]

/-- They give the deposits back to the coins. -/
theorem Posts.remainingOf_refund {s : Database} {o : Op} {p : PursePub} (h : Posts db q db')
    (he : Emits s o db q) (ho : o.mayRefund s p = true) (hr : KnownRows db.toCoinTables)
    (c : CoinPub) : db'.remainingOf c = db.remainingOf c + restoredBy db q p c := by
  obtain ⟨a, rfl⟩ | rfl := emits_mayRefund he ho
  · cases h
    exact (add_zero _).symm
  · cases h with
    | purseRefund =>
      refine (valueAt_restored (fun d hd => hr.pursed d (mem_depositsOf.mp hd).1) c).trans ?_
      rw [restoredTo_depositsOf, restoredBy, if_pos rfl]
      rfl

/-! ## Decided purses -/

theorem Posts.mem_purseDeposits (h : Posts db q db') {d : PurseDeposit}
    (hd : d ∈ db'.purseDeposits.rows) :
    d ∈ db.purseDeposits.rows ∨ ∃ a, q = .purseDeposit a ∧ a.pursePub = d.pursePub := by
  cases h with
  | wireTarget =>
    rw [addWireTarget_frame] at hd
    exact Or.inl hd
  | initReserve =>
    rw [initReserve_frame] at hd
    exact Or.inl hd
  | reservePurse _ _ _ _ _ _ _ hpay =>
    rw [payForPurse_frame hpay] at hd
    exact Or.inl hd
  | purseDeposit ht =>
    rcases (Table.mem_insert? ht).mp hd with hd | rfl
    · exact Or.inl hd
    · exact Or.inr ⟨_, rfl, rfl⟩
  | _ => exact Or.inl hd

/-- A deposit is posted before its purse is decided: a refunded purse was deleted or has expired,
and a merged one is full already. -/
theorem Posts.undecided {db db' : Database} {a : PurseDepositArgs}
    (hp : Posts db (.purseDeposit a) db') (hC : FatePostingOk db (.purseDeposit a))
    (hb : PurseBooks db) : db.purseDecision.hasKey a.pursePub = false := by
  have hnr := hp.not_refunded hC.1
  by_contra hk
  obtain ⟨d, hd⟩ := Table.exists_lookup (by simpa using hk)
  have hm : db.isMerged a.pursePub = true := by
    unfold CoinTables.isRefunded at hnr
    unfold Database.isMerged
    rw [hd] at hnr ⊢
    simpa using hnr
  obtain ⟨⟨m, hl⟩, -⟩ := hb.merged _ hm
  obtain ⟨x, hx, hle⟩ := hb.full hm
  have hs := hb.sound x (Table.mem_of_lookup hx)
  have hpos := a.amountWithoutFee.units_nonneg
  have hfull : a.fills db = true := by
    refine PurseDepositArgs.fills_iff.mpr ⟨m, x, hl, hx, ?_⟩
    refine (PurseRequest.isFull_iff (TalerAmount.normal_plus hs.1 (Amount.normal_toTaler _))).mpr ?_
    have hbal : db.purseBalance a.pursePub = x.balance.units := Table.valueAt_of_lookup hx
    have := TalerAmount.units_plus x.balance a.amountWithoutFee
    rw [Amount.units_toTaler] at this
    simp only
    omega
  cases hp with
  | purseDeposit _ _ _ _ _ hlate => exact hk (hlate hfull)

/-- An operation deposits into purses that were undecided when it started. -/
theorem step_undecided {o : Op} (hb : PurseBooks db) (ho : FateOpOk db o) {d : PurseDeposit}
    (hd : d ∈ (step db o).purseDeposits.rows) :
    d ∈ db.purseDeposits.rows ∨ db.purseDecision.hasKey d.pursePub = false := by
  have h := (step_path hb.purses fun _ _ he => fatePostingOk_of_emits ho he).invariant
    (I := fun s => PurseBooks s ∧
      (∀ p, s.purseDecision.hasKey p = false → db.purseDecision.hasKey p = false) ∧
      ∀ d ∈ s.purseDeposits.rows, d ∈ db.purseDeposits.rows ∨
        db.purseDecision.hasKey d.pursePub = false) (fun s p t hC hp hi => ?_)
    ⟨hb, fun _ h => h, fun _ => Or.inl⟩
  · exact h.2.2 d hd
  · obtain ⟨hs, hdec, hdep⟩ := hi
    refine ⟨hp.purseBooks hC.args hs, fun p hk => hdec p ?_, fun d hd => ?_⟩
    · by_contra hk'
      obtain ⟨x, hx⟩ := Table.exists_lookup (by simpa using hk')
      exact absurd (hk.symm.trans (Table.hasKey_of_lookup (hp.purseGrows.decision hx))) (by decide)
    · obtain hd | ⟨a, rfl, ha⟩ := hp.mem_purseDeposits hd
      · exact hdep d hd
      · exact Or.inr (hdec _ (ha ▸ hp.undecided hC hs))

end Postings

/-! ## Runs -/

section Run

variable {ops : List Op} (h : Admits step FateOpOk Database.empty ops) (p : PursePub)
include h

theorem debitedInto_eq (c : CoinPub) :
    debitedInto ops p c = (run step Database.empty ops).pursedIn p c := by
  have hgain := run_gain (C := FatePostingOk) (I := PurseBooks) (g := fun db => -db.pursedIn p c)
    (S := fun _ o => o.mayDeposit p) (f := fun db => db.remainingOf c)
    (fun _ _ ho _ _ he => fatePostingOk_of_emits ho he) purseBooks_empty
    (fun _ _ _ hC hp hb => hp.purseBooks hC.args hb) (fun db o s q t he _ hp _ => ?_) h
  · unfold debitedInto
    rw [hgain]
    exact (congrArg Neg.neg (sub_zero _)).trans (neg_neg _)
  · rw [hp.pursedIn]
    split_ifs with ho
    · rw [hp.remainingOf_deposit he ho]
      omega
    · have hz : depositedInto q p c = 0 := by
        by_contra hq
        exact ho (mayDeposit_of_emits he hq)
      omega

theorem recreditedFrom_eq (c : CoinPub) :
    recreditedFrom ops p c = (run step Database.empty ops).restoredFrom p c := by
  refine (run_gain (C := FatePostingOk) (I := PurseBooks) (g := fun db => db.restoredFrom p c)
    (fun _ _ ho _ _ he => fatePostingOk_of_emits ho he) purseBooks_empty
    (fun _ _ _ hC hp hb => hp.purseBooks hC.args hb) (fun db o s q t he hC hp hb => ?_) h).trans
      (sub_zero _)
  rw [hp.restoredFrom hC]
  split_ifs with ho
  · rw [hp.remainingOf_refund he ho hb.rows]
    omega
  · have hz : restoredBy s q p c = 0 := by
      cases q with
      | purseRefund x =>
        refine if_neg fun e => ho ?_
        rw [e] at he
        exact mayRefund_of_emits he
      | _ => rfl
    omega

/-- **Every purse has its fate** in a run of admitted operations. -/
theorem run_purse_fate : PurseFate ops p where
  once := Table.length_filter_key_le ..
  debited := debitedInto_eq h p
  recredited := recreditedFrom_eq h p
  counted := (run_purseBooks (h.mono fun _ _ => FateOpOk.caller)).balance p
  merged := creditedFor_eq (h.mono fun _ _ => FateOpOk.caller) p
  undecided before o after hops d hd hp := by
    subst hops
    obtain ⟨ha, ho⟩ := h.split
    rw [run_append] at hd
    rw [← hp]
    exact step_undecided (run_purseBooks (ha.mono fun _ _ => FateOpOk.caller)) ho hd

end Run

/-! ## Sample runs -/

/-- A coin pays for a purse of five, the purse expires, and a deposit into it is tried again. -/
def expiredPurse : List Op :=
  coinOfTen .zero .zero ++
  [.createPurse { pursePub := 8, mergePub := 9, now := 0, purseExpiration := 5, hContractTerms := 3,
                  ageLimit := 0, flags := 0, inReserveQuota := false, purseFee := .zero,
                  amount := .whole 5, purseSig := 1 }
     [{ partnerId := none, pursePub := 8, amountWithFee := .whole 5, coinPub := 7, coinSig := 1,
        amountWithoutFee := .whole 5, reserveExpiration := 20, now := 0 }],
   .expirePurse ⟨0, 10, 10⟩,
   .purseDeposit { partnerId := none, pursePub := 8, amountWithFee := .whole 5, coinPub := 7,
                   coinSig := 1, amountWithoutFee := .whole 5, reserveExpiration := 20, now := 11 }]

theorem expiredPurse_fate : recreditedFrom expiredPurse 8 7 = (Amount.whole 5).units ∧
    PurseFate expiredPurse 8 :=
  ⟨by decide +kernel, run_purse_fate (by decide +kernel) 8⟩

theorem not_purse_fate : ¬ PurseFate strandedDeposit 8 :=
  fun h => absurd (h.recredited 7) (by decide +kernel)

end TalerExchange
