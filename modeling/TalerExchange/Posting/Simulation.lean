import TalerExchange.Posting.Coins
import TalerExchange.Posting.Purses
import TalerExchange.Posting.Reserves

/-!
# Every operation is a path of postings

* `Emits db o s p`: operation `o`, started in `db`, may make posting `p` in the state `s`; each
  result derives its condition on postings from a condition on operations through it;
* **`step_path`**: one operation is a path of postings that it emits;
* **`run_path`**: a run from the empty database is a path, whatever the interleaving;
* **`run_posting_invariant`**, **`run_gain`**: what postings keep, and what they add up to.
-/

namespace TalerExchange

open Sql Transition

/-- The postings that an operation may make, and the states it may make them in. -/
def Emits (db : Database) : Op → Database → Posting → Prop
  | .denomination a, s, p => s = db ∧ p = .denomination a
  | .partner a, s, p => s = db ∧ p = .partner a
  | .coin c h, s, p => s = db ∧ ∃ d, db.denominations.lookup h = some d ∧ p = .coin c d
  | .deposit a, _, p =>
      p = .wireTarget a.wireTargetHPayto a.hNormalizedPayto a.receiverWireAccount ∨ p = .batch a ∨
        ∃ n, ∃ c ∈ a.coins, p = .coinDeposit n c
  | .refund a, s, p => s = db ∧ p = .refund a
  | .melt a, s, p => s = db ∧ p = .melt a
  | .reveal a, s, p => s = db ∧ p = .reveal a
  | .reserveOpenDeposit a, s, p => s = db ∧ p = .openDeposit a
  | .recoupToReserve a, s, p => s = db ∧ p = .recoupToReserve a
  | .recoupToCoin a, s, p => s = db ∧ p = .recoupToCoin a
  | .createPurse a ds, s, p =>
      (s = db ∧ p = .purseRequest a.byCoins) ∨
        ∃ d ∈ ds, (p = .purseDeposit (d.into a.pursePub) ∧ SameTerms db s ∧
          s.purseRequests.hasKey a.pursePub = true) ∨ p = .finishMerge (d.into a.pursePub)
  | .purseDeposit a, s, p => (s = db ∧ p = .purseDeposit a) ∨ p = .finishMerge a
  | .purseMerge a, _, p => p = .initReserve a.reservePub a.expirationDate ∨ p = .purseMerge a
  | .reservePurse a fee b, s, p =>
      s = db ∧ p = .reservePurse (a.byReserve fee) (b.forRequest a.pursePub fee)
  | .purseDelete a, _, p => p = .purseDeletion a ∨ p = .purseRefund a.pursePub
  | .expirePurse a, s, p => s = db ∧ ∃ r, expiringPurse db a = some r ∧ p = .purseRefund r.pursePub
  | .reservesIn _ _ xs, _, p => ∃ x ∈ xs,
      p = .wireTarget x.hFullPayto x.hNormalizedPayto x.senderAccountDetails ∨ p = .importNew x ∨
        p = .importReserve x ∨ (p = .importRow x ∧ db.reserves.hasKey x.reservePub = true ∧
          db.reservesIn.hasKey x.reservePub = false)
  | .batchWithdraw a xs, s, p => s = db ∧ p = .withdraw a xs
  | .ageWithdraw a, s, p => s = db ∧ (p = .ageWithdraw a ∨ p = .ageDebit a)
  | .reserveOpen a, s, p => s = db ∧ p = .reserveOpen a
  | .reserveClosed a, s, p => s = db ∧ p = .reserveClosed a
  | .closeRequest a, s, p => s = db ∧ p = .closeRequest a
  | .aggregate a, s, p => s = db ∧ p = .aggregate a

/-! ## Which operation makes a posting -/

/-- A posting without its arguments. -/
inductive PostingKind
  | denomination | partner | coin | wireTarget | batch | coinDeposit | refund | melt | reveal
  | openDeposit | recoupToReserve | recoupToCoin | purseRequest | reservePurse | purseDeposit
  | finishMerge | initReserve | purseMerge | purseDeletion | purseRefund | importNew | importRow
  | importReserve | withdraw | ageWithdraw | ageDebit | reserveOpen | reserveClosed | closeRequest
  | aggregate
  deriving DecidableEq

def Posting.kind : Posting → PostingKind
  | .denomination _ => .denomination
  | .partner _ => .partner
  | .coin .. => .coin
  | .wireTarget .. => .wireTarget
  | .batch _ => .batch
  | .coinDeposit .. => .coinDeposit
  | .refund _ => .refund
  | .melt _ => .melt
  | .reveal _ => .reveal
  | .openDeposit _ => .openDeposit
  | .recoupToReserve _ => .recoupToReserve
  | .recoupToCoin _ => .recoupToCoin
  | .purseRequest _ => .purseRequest
  | .reservePurse .. => .reservePurse
  | .purseDeposit _ => .purseDeposit
  | .finishMerge _ => .finishMerge
  | .initReserve .. => .initReserve
  | .purseMerge _ => .purseMerge
  | .purseDeletion _ => .purseDeletion
  | .purseRefund _ => .purseRefund
  | .importNew _ => .importNew
  | .importRow _ => .importRow
  | .importReserve _ => .importReserve
  | .withdraw .. => .withdraw
  | .ageWithdraw _ => .ageWithdraw
  | .ageDebit _ => .ageDebit
  | .reserveOpen _ => .reserveOpen
  | .reserveClosed _ => .reserveClosed
  | .closeRequest _ => .closeRequest
  | .aggregate _ => .aggregate

/-- The kinds of posting that an operation makes. -/
def Op.kinds : Op → List PostingKind
  | .denomination _ => [.denomination]
  | .partner _ => [.partner]
  | .coin .. => [.coin]
  | .deposit _ => [.wireTarget, .batch, .coinDeposit]
  | .refund _ => [.refund]
  | .melt _ => [.melt]
  | .reveal _ => [.reveal]
  | .reserveOpenDeposit _ => [.openDeposit]
  | .recoupToReserve _ => [.recoupToReserve]
  | .recoupToCoin _ => [.recoupToCoin]
  | .createPurse .. => [.purseRequest, .purseDeposit, .finishMerge]
  | .purseDeposit _ => [.purseDeposit, .finishMerge]
  | .purseMerge _ => [.initReserve, .purseMerge]
  | .reservePurse .. => [.reservePurse]
  | .purseDelete _ => [.purseDeletion, .purseRefund]
  | .expirePurse _ => [.purseRefund]
  | .reservesIn .. => [.wireTarget, .importNew, .importReserve, .importRow]
  | .batchWithdraw .. => [.withdraw]
  | .ageWithdraw _ => [.ageWithdraw, .ageDebit]
  | .reserveOpen _ => [.reserveOpen]
  | .reserveClosed _ => [.reserveClosed]
  | .closeRequest _ => [.closeRequest]
  | .aggregate _ => [.aggregate]

section Emits

variable {db s : Database} {o : Op} {p : Posting}

theorem kind_of_emits (h : Emits db o s p) : o.kinds.contains p.kind = true := by
  cases o with
  | coin =>
    obtain ⟨-, d, -, rfl⟩ := h
    rfl
  | deposit => obtain rfl | rfl | ⟨n, c, -, rfl⟩ := h <;> rfl
  | createPurse => obtain ⟨-, rfl⟩ | ⟨d, -, ⟨rfl, -⟩ | rfl⟩ := h <;> rfl
  | purseDeposit => obtain ⟨-, rfl⟩ | rfl := h <;> rfl
  | purseMerge => obtain rfl | rfl := h <;> rfl
  | purseDelete => obtain rfl | rfl := h <;> rfl
  | expirePurse =>
    obtain ⟨-, r, -, rfl⟩ := h
    rfl
  | reservesIn => obtain ⟨x, -, rfl | rfl | rfl | ⟨rfl, -⟩⟩ := h <;> rfl
  | ageWithdraw => obtain ⟨-, rfl | rfl⟩ := h <;> rfl
  | _ =>
    obtain ⟨-, rfl⟩ := h
    rfl

theorem emits_refund {a : RefundArgs} (h : Emits db o s (.refund a)) : s = db ∧ o = .refund a := by
  cases o with
  | refund b => exact ⟨h.1, congrArg Op.refund (Posting.refund.inj h.2).symm⟩
  | _ => cases kind_of_emits h

theorem emits_recoupToCoin {a : RecoupToCoinArgs} (h : Emits db o s (.recoupToCoin a)) :
    s = db ∧ o = .recoupToCoin a := by
  cases o with
  | recoupToCoin b => exact ⟨h.1, congrArg Op.recoupToCoin (Posting.recoupToCoin.inj h.2).symm⟩
  | _ => cases kind_of_emits h

/-- A deposit into a purse is a request of its own or comes with the request for the purse. -/
theorem emits_purseDeposit {a : PurseDepositArgs} (h : Emits db o s (.purseDeposit a)) :
    (s = db ∧ o = .purseDeposit a) ∨ ∃ b ds, o = .createPurse b ds ∧ (∃ d ∈ ds, a = d.into b.pursePub) ∧
      SameTerms db s ∧ s.purseRequests.hasKey b.pursePub = true := by
  cases o with
  | createPurse b ds =>
    obtain ⟨-, hp⟩ | ⟨d, hd, ⟨hp, hs, hk⟩ | hp⟩ := h
    · cases hp
    · exact Or.inr ⟨b, ds, rfl, ⟨d, hd, Posting.purseDeposit.inj hp⟩, hs, hk⟩
    · cases hp
  | purseDeposit b =>
    obtain ⟨hs, hp⟩ | hp := h
    · exact Or.inl ⟨hs, congrArg Op.purseDeposit (Posting.purseDeposit.inj hp).symm⟩
    · cases hp
  | _ => cases kind_of_emits h

theorem emits_recoupToReserve {a : RecoupToReserveArgs} (h : Emits db o s (.recoupToReserve a)) :
    s = db ∧ o = .recoupToReserve a := by
  cases o with
  | recoupToReserve b =>
    exact ⟨h.1, congrArg Op.recoupToReserve (Posting.recoupToReserve.inj h.2).symm⟩
  | _ => cases kind_of_emits h

theorem emits_withdraw {a : BatchWithdrawArgs} {xs : List PlanchetArgs}
    (h : Emits db o s (.withdraw a xs)) : s = db ∧ o = .batchWithdraw a xs := by
  cases o with
  | batchWithdraw b ys =>
    obtain ⟨hs, hp⟩ := h
    cases hp
    exact ⟨hs, rfl⟩
  | _ => cases kind_of_emits h

theorem emits_ageDebit {a : AgeWithdrawArgs} (h : Emits db o s (.ageDebit a)) :
    s = db ∧ o = .ageWithdraw a := by
  cases o with
  | ageWithdraw b =>
    obtain ⟨hs, hp | hp⟩ := h <;> cases hp
    exact ⟨hs, rfl⟩
  | _ => cases kind_of_emits h

theorem emits_reserveOpen {a : ReserveOpenArgs} (h : Emits db o s (.reserveOpen a)) :
    s = db ∧ o = .reserveOpen a := by
  cases o with
  | reserveOpen b => exact ⟨h.1, congrArg Op.reserveOpen (Posting.reserveOpen.inj h.2).symm⟩
  | _ => cases kind_of_emits h

/-- A transfer that is recorded without being credited is one to a reserve that has none. -/
theorem emits_importRow {x : ReserveInInfo} (h : Emits db o s (.importRow x)) :
    ∃ gc e xs, o = .reservesIn gc e xs ∧ x ∈ xs ∧ db.reserves.hasKey x.reservePub = true ∧
      db.reservesIn.hasKey x.reservePub = false := by
  cases o with
  | reservesIn gc e xs =>
    obtain ⟨y, hy, hp | hp | hp | ⟨hp, h₁, h₂⟩⟩ := h <;> cases hp
    exact ⟨gc, e, xs, rfl, hy, h₁, h₂⟩
  | _ => cases kind_of_emits h

end Emits

/-! ## The foreign key from merges to purses -/

/-- Every merge is of a purse that was requested. -/
def MergesHavePurse (db : Database) : Prop :=
  ∀ p, db.purseMerges.hasKey p = true → db.purseRequests.hasKey p = true

theorem initReserve_frame (db : Database) (r : ReservePub) (e g : Timestamp) :
    initReserve db r e g = { db with reserves := (initReserve db r e g).reserves } := by
  unfold initReserve
  split <;> rfl

theorem Posts.mergesHavePurse {db db' : Database} {p : Posting} (h : Posts db p db')
    (hi : MergesHavePurse db) : MergesHavePurse db' := by
  have hset : ∀ {q : PursePub} {x : PursePub}, db.purseMerges.hasKey x = true →
      (db.markDecided q).hasKey x = true := fun hx => (db.hasKey_markDecided ..).trans (hi _ hx)
  cases h with
  | wireTarget =>
    rw [addWireTarget_frame]
    exact hi
  | initReserve =>
    rw [initReserve_frame]
    exact hi
  | purseRequest _ _ ht _ => exact fun x hx => Table.hasKey_insert?_of_hasKey ht (hi x hx)
  | reservePurse hp _ _ _ ht _ hm hpay _ _ =>
    intro x hx
    rw [payForPurse_frame hpay] at hx ⊢
    rw [Table.hasKey_insert? hm, Bool.or_eq_true, decide_eq_true_eq] at hx
    rcases hx with hx | hx
    · exact Table.hasKey_insert?_of_hasKey ht (hi x hx)
    · rw [← hx]
      exact hp ▸ Table.hasKey_insert?_self ht
  | purseDeposit => exact fun x hx => by simpa using hi x hx
  | finishMerge => exact fun x hx => hset hx
  | purseMerge _ hr _ _ hm =>
    intro x hx
    rw [Table.hasKey_insert? hm, Bool.or_eq_true, decide_eq_true_eq] at hx
    rcases hx with hx | hx
    · exact hset hx
    · rw [← hx]
      refine (db.hasKey_markDecided ..).trans ?_
      exact Table.hasKey_of_lookup hr
  | purseRefund => exact fun x hx => hset hx
  | _ => exact hi

theorem toOption_eq_some {α : Type} {x : Exec α} {a : α} : x.toOption = some a ↔ x = .ok a := by
  cases x <;> simp [Except.toOption]

/-! ## The simulation -/

/-- **One operation is a path of the postings it emits.** -/
theorem step_path {C : Database → Posting → Prop} {db : Database} {o : Op}
    (hfk : MergesHavePurse db) (hC : ∀ s p, Emits db o s p → C s p) :
    Path Posts C db (step db o) := by
  rcases step_eq db o with h | h
  · rw [h]
    exact .refl _
  generalize step db o = db' at h
  cases o with
  | denomination a => exact insertDenominationInfo_path (hC _ _ ⟨rfl, rfl⟩) (toOption_eq_some.mp h)
  | partner a => exact insertPartner_path (hC _ _ ⟨rfl, rfl⟩) (toOption_eq_some.mp h)
  | coin c hh =>
    obtain ⟨out, h, -⟩ := commitIf_eq_some.mp h
    exact ensureCoinKnown_path (fun d hd => hC _ _ ⟨rfl, d, hd, rfl⟩) h
  | deposit a =>
    obtain ⟨out, h, ho⟩ := commitIf_eq_some.mp h
    simp only [Bool.and_eq_true, Bool.not_eq_true', Option.isNone_iff_eq_none] at ho
    exact exchangeDoDeposit_path (hC _ _ (Or.inl rfl)) (fun s => hC _ _ (Or.inr (Or.inl rfl)))
      (fun s n c hc => hC _ _ (Or.inr (Or.inr ⟨n, c, hc, rfl⟩))) h ho.1 ho.2
  | refund a =>
    obtain ⟨out, h, ho⟩ := commitIf_eq_some.mp h
    simp only [Bool.and_eq_true, Bool.not_eq_true'] at ho
    exact exchangeDoRefund_path (hC _ _ ⟨rfl, rfl⟩) h ho.1.1.1 ho.1.1.2 ho.1.2 ho.2
  | melt a =>
    obtain ⟨out, h, ho⟩ := commitIf_eq_some.mp h
    simp only [Bool.and_eq_true] at ho
    exact exchangeDoMelt_path (hC _ _ ⟨rfl, rfl⟩) h ho.1
  | reveal a => exact insertRefreshReveal_path (hC _ _ ⟨rfl, rfl⟩) (toOption_eq_some.mp h)
  | reserveOpenDeposit a =>
    obtain ⟨out, h, ho⟩ := commitIf_eq_some.mp h
    simp only [Bool.not_eq_true'] at ho
    subst ho
    exact exchangeDoReserveOpenDeposit_path (hC _ _ ⟨rfl, rfl⟩) h
  | recoupToReserve a =>
    obtain ⟨out, h, ho⟩ := commitIf_eq_some.mp h
    simp only [Bool.and_eq_true, Bool.not_eq_true'] at ho
    exact exchangeDoRecoupToReserve_path (hC _ _ ⟨rfl, rfl⟩) h ho.1 ho.2
  | recoupToCoin a =>
    obtain ⟨out, h, ho⟩ := commitIf_eq_some.mp h
    simp only [Bool.and_eq_true, Bool.not_eq_true'] at ho
    exact exchangeDoRecoupToCoin_path (hC _ _ ⟨rfl, rfl⟩) h ho.1 ho.2
  | createPurse a ds =>
    exact createPurse_path (hC _ _ (Or.inl ⟨rfl, rfl⟩))
      (fun s hs hk d hd => hC _ _ (Or.inr ⟨d, hd, Or.inl ⟨rfl, hs, hk⟩⟩))
      (fun s d hd => hC _ _ (Or.inr ⟨d, hd, Or.inr rfl⟩)) h
  | purseDeposit a =>
    exact depositIntoPurse_path (hC _ _ (Or.inl ⟨rfl, rfl⟩)) (fun s => hC _ _ (Or.inr rfl)) h
  | purseMerge a =>
    obtain ⟨out, h, ho⟩ := commitIf_eq_some.mp h
    simp only [Bool.and_eq_true, Bool.not_eq_true'] at ho
    exact exchangeDoPurseMerge_path (hC _ _ (Or.inl rfl)) (fun s => hC _ _ (Or.inr rfl)) h ho.1.1
      ho.1.2 ho.2
  | reservePurse a fee b =>
    refine reservePurse_path (hC _ _ ⟨rfl, rfl⟩) (fun hn => ?_) h
    by_contra hm
    rw [hfk _ (by simpa using hm)] at hn
    exact absurd hn (by decide)
  | purseDelete a =>
    obtain ⟨out, h, ho⟩ := commitIf_eq_some.mp h
    simp only [Bool.and_eq_true, Bool.not_eq_true'] at ho
    exact exchangeDoPurseDelete_path (hC _ _ (Or.inl rfl)) (fun s => hC _ _ (Or.inr rfl)) h ho.1 ho.2
  | expirePurse a =>
    obtain ⟨out, h, -⟩ := commitIf_eq_some.mp h
    exact exchangeDoExpirePurse_path (fun r hr => hC _ _ ⟨rfl, r, hr, rfl⟩) h
  | reservesIn gc e xs =>
    rw [← Option.some.inj h]
    exact reservesInInsert_path (fun s x hx => hC _ _ ⟨x, hx, Or.inl rfl⟩)
      (fun s x hx => hC _ _ ⟨x, hx, Or.inr (Or.inl rfl)⟩)
      (fun s x hx => hC _ _ ⟨x, hx, Or.inr (Or.inr (Or.inl rfl))⟩)
      (fun s x hx h₁ h₂ => hC _ _ ⟨x, hx, Or.inr (Or.inr (Or.inr ⟨rfl, h₁, h₂⟩))⟩)
  | batchWithdraw a xs => exact batchWithdraw_path (hC _ _ ⟨rfl, rfl⟩) h
  | ageWithdraw a =>
    exact ageWithdraw_path (hC _ _ ⟨rfl, Or.inl rfl⟩) (hC _ _ ⟨rfl, Or.inr rfl⟩) h
  | reserveOpen a =>
    obtain ⟨out, h, -⟩ := commitIf_eq_some.mp h
    exact exchangeDoReserveOpen_path (hC _ _ ⟨rfl, rfl⟩) h
  | reserveClosed a => exact insertReserveClosed_path (hC _ _ ⟨rfl, rfl⟩) (toOption_eq_some.mp h)
  | closeRequest a => exact insertCloseRequest_path (hC _ _ ⟨rfl, rfl⟩) (toOption_eq_some.mp h)
  | aggregate a =>
    obtain ⟨out, h, -⟩ := commitIf_eq_some.mp h
    exact aggregate_path (hC _ _ ⟨rfl, rfl⟩) h

theorem mergesHavePurse_of_path {C : Database → Posting → Prop} {db : Database}
    (h : Path Posts C Database.empty db) : MergesHavePurse db :=
  h.invariant (fun _ _ _ _ hp hi => hp.mergesHavePurse hi) fun _ hx => (nomatch hx)

/-- **A run is a path of postings.** -/
theorem run_path {C : Database → Posting → Prop} {ok : Database → Op → Prop}
    (hC : ∀ db o, ok db o → ∀ s p, Emits db o s p → C s p) {ops : List Op}
    (ha : Admits step ok Database.empty ops) :
    Path Posts C Database.empty (run step Database.empty ops) := by
  refine run_invariant (I := Path Posts C Database.empty) (fun db o ho hp => ?_) ha (.refl _)
  exact hp.trans (step_path (mergesHavePurse_of_path hp) (hC db o ho))

/-- A property that holds of the empty database and that every admitted posting keeps holds in
every state that a run reaches. -/
theorem run_posting_invariant {C : Database → Posting → Prop} {ok : Database → Op → Prop}
    {I : Database → Prop} (hC : ∀ db o, ok db o → ∀ s p, Emits db o s p → C s p)
    (h0 : I Database.empty) (hI : ∀ s p t, C s p → Posts s p t → I s → I t) {ops : List Op}
    (ha : Admits step ok Database.empty ops) : I (run step Database.empty ops) :=
  (run_path hC ha).invariant hI h0

/-- If `g` moves with `f` in the postings of the selected operations and stays in all others, it
holds what these operations have added to `f`. -/
theorem run_gain {C : Database → Posting → Prop} {ok : Database → Op → Prop} {I : Database → Prop}
    {S : Database → Op → Bool} {f g : Database → ℤ}
    (hC : ∀ db o, ok db o → ∀ s p, Emits db o s p → C s p) (h0 : I Database.empty)
    (hI : ∀ s p t, C s p → Posts s p t → I s → I t)
    (hg : ∀ db o s p t, Emits db o s p → C s p → Posts s p t → I s →
      g t = g s + if S db o then f t - f s else 0) {ops : List Op}
    (ha : Admits step ok Database.empty ops) :
    gain step S f Database.empty ops = g (run step Database.empty ops) - g Database.empty := by
  refine gain_eq (I := Path Posts C Database.empty)
    (fun db o ho hp => hp.trans (step_path (mergesHavePurse_of_path hp) (hC db o ho)))
    (fun db o ho hp => ?_) ha (.refl _)
  have hpath := step_path (C := fun s p => C s p ∧ Emits db o s p) (mergesHavePurse_of_path hp)
    fun s p he => ⟨hC db o ho s p he, he⟩
  have h := hpath.invariant
    (I := fun s => I s ∧ g s = g db + if S db o then f s - f db else 0)
    (fun s p t hc hp hi => ⟨hI s p t hc.1 hp hi.1, ?_⟩) ⟨hp.invariant hI h0, by simp⟩
  · exact h.2
  · rw [hg db o s p t hc.2 hc.1 hp hi.1, hi.2]
    split_ifs <;> omega

end TalerExchange
