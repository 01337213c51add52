import TalerExchange.Posting.Basic

/-!
# The purse procedures make postings

* `depositIntoPurse_path`: a deposit, and the merge it completes if any;
* `createPurse_path`: a request and deposits; the states in between have the decisions and the
  denominations of the first one (`SameTerms`);
* `exchangeDoPurseMerge_path`, `reservePurse_path`, `exchangeDoPurseDelete_path`,
  `exchangeDoExpirePurse_path`.
-/

namespace TalerExchange

open Sql Transition

/-! ## Frames -/

/-- The refunded and the deleted purses and the denominations of the coins are those of `db`, and its
purse deposits are still there. -/
structure SameTerms (db s : Database) : Prop where
  refunded : ∀ p, s.isRefunded p = db.isRefunded p
  deletion : s.purseDeletion = db.purseDeletion
  denomination : ∀ c, s.denominationOf c = db.denominationOf c
  deposits : ∀ k, db.purseDeposits.hasKey k = true → s.purseDeposits.hasKey k = true

theorem SameTerms.refl (db : Database) : SameTerms db db :=
  ⟨fun _ => rfl, rfl, fun _ => rfl, fun _ h => h⟩

theorem SameTerms.trans {db s s' : Database} (h : SameTerms db s) (h' : SameTerms s s') :
    SameTerms db s' :=
  ⟨fun p => (h'.refunded p).trans (h.refunded p), h'.deletion.trans h.deletion,
    fun c => (h'.denomination c).trans (h.denomination c),
    fun k hk => h'.deposits k (h.deposits k hk)⟩

theorem SameTerms.of_setRemaining {db s : Database} {c : CoinPub} {f : TalerAmount → TalerAmount}
    (hk : s.knownCoins = db.setRemaining c f) (hd : s.denominations = db.denominations)
    (hp : s.purseDecision = db.purseDecision) (hx : s.purseDeletion = db.purseDeletion)
    (hi : ∀ k, db.purseDeposits.hasKey k = true → s.purseDeposits.hasKey k = true) :
    SameTerms db s := by
  refine ⟨fun p => by unfold CoinTables.isRefunded; rw [hp], hx, fun x => ?_, hi⟩
  unfold CoinTables.denominationOf
  rw [hk, hd, CoinTables.lookup_setRemaining]
  cases db.knownCoins.lookup x with
  | none => rfl
  | some kc =>
    simp only [Option.map_some, Option.bind_eq_bind, Option.bind_some]
    split_ifs <;> rfl

theorem SameTerms.purseDeposit {db s : Database} {a : PurseDepositArgs}
    (h : Posts db (.purseDeposit a) s) : SameTerms db s := by
  cases h with
  | purseDeposit ht =>
    exact SameTerms.of_setRemaining (c := a.coinPub) (f := (·.minus a.amountWithFee)) rfl rfl rfl rfl
      fun _ => Table.hasKey_insert?_of_hasKey ht

/-- A merge decides a purse that was not decided, and not as refunded. -/
theorem SameTerms.finishMerge {db s : Database} {a : PurseDepositArgs}
    (h : Posts db (.finishMerge a) s) : SameTerms db s := by
  cases h with
  | finishMerge _ _ _ _ ht =>
    refine ⟨fun p => ?_, rfl, fun _ => rfl, fun _ h => h⟩
    simp only [CoinTables.isRefunded]
    rw [Table.lookup_insert? ht]
    split_ifs with e
    · have hn : db.purseDecision.lookup p = none := by
        rw [Table.lookup_eq_none_iff_hasKey, ← e]
        exact (Table.insert?_eq_some.mp ht).1
      rw [hn]
      rfl
    · rfl

/-! ## Deposits -/

variable {C : Database → Posting → Prop}

theorem insertPurseDeposit_eq_some {db db' : Database} {a : PurseDepositArgs}
    (h : insertPurseDeposit db a = .ok (some db')) :
    ∃ t ch, db.purseDeposits.insert? a.row = some t ∧
      db.coinHistory.insert? (fun i =>
        ⟨i, a.coinPub, .purseDeposits, db.purseDeposits.nextSerial⟩) = some ch ∧
      db' = { db with purseDeposits := t, coinHistory := ch } := by
  unfold insertPurseDeposit at h
  split at h
  · cases h
  · next t ht =>
    simp only [bind_eq_ok, pure_eq_ok, require_eq_ok, Option.some.injEq,
      Database.addCoinHistory_eq_ok] at h
    obtain ⟨-, -, -, -, -, ⟨ch, hch, -, rfl⟩, rfl⟩ := h
    exact ⟨t, ch, ht, hch, rfl⟩

/-- What the decision to merge a purse leaves. -/
theorem insertPurseDecision_merged {db db' : Database} {p : PursePub} {now : Timestamp}
    {m : PurseMerge} (hm : db.purseMerges.lookup p = some m)
    (h : db.insertPurseDecision p now false = .ok (some db')) :
    ∃ t rh, db.purseDecision.insert? (fun i => ⟨i, p, now, false⟩) = some t ∧
      db.reserveHistory.insert? (fun i =>
        ⟨i, m.reservePub, .purseDecision, db.purseDecision.nextSerial⟩) = some rh ∧
      db.reserves.hasKey m.reservePub = true ∧
      db' = { db with
        purseDecision := t, purseRequests := db.markDecided p, reserveHistory := rh } := by
  unfold Database.insertPurseDecision at h
  split at h
  · cases h
  · next t ht =>
    simp only [Bool.false_eq_true, if_false, hm] at h
    simp only [bind_eq_ok, pure_eq_ok, Option.some.injEq, Database.addReserveHistory_eq_ok] at h
    obtain ⟨_, ⟨rh, hrh, hr, rfl⟩, rfl⟩ := h
    exact ⟨t, rh, ht, hrh, hr, rfl⟩

theorem creditMergedReserve_eq {db : Database} {r : ReservePub} {a : TalerAmount} {e : Timestamp}
    (hr : db.reserves.hasKey r = true) :
    creditMergedReserve db r a e =
      { db with reserves := db.setReserve r fun x => x.merged a e } := by
  unfold creditMergedReserve
  split
  · next t ht => exact absurd (hr.symm.trans (Table.insert?_eq_some.mp ht).1) (by decide)
  · rfl

theorem finishMerge_cases {db db' : Database} {a : PurseDepositArgs}
    (h : finishMerge db a = .ok (db', false)) : db' = db ∨ Posts db (.finishMerge a) db' := by
  unfold finishMerge at h
  split at h
  · cases h
    exact Or.inl rfl
  · next m hm =>
    split at h
    · cases h
      exact Or.inl rfl
    · next r hr =>
      split at h
      · next hfull =>
        rw [bind_eq_ok] at h
        obtain ⟨o, ho, h⟩ := h
        cases o with
        | none => cases h
        | some db₁ =>
          obtain ⟨t, rh, ht, hrh, hkey, rfl⟩ := insertPurseDecision_merged hm ho
          simp only at h
          split at h
          · cases h
          · next hq =>
            have hq : r.inReserveQuota = false := by simpa using hq
            split at h
            · next hp =>
              cases pure_eq_ok.mp h
              exact Or.inr (Posts.finishMerge hm hr hfull hq ht hrh hkey (Credits.wad hp))
            · next hp =>
              have hp : m.partnerSerialId.getD 0 = 0 := by simpa using hp
              rw [creditMergedReserve_eq (by exact hkey)] at h
              cases pure_eq_ok.mp h
              exact Or.inr (Posts.finishMerge hm hr hfull hq ht hrh hkey
                (Credits.reserve hp _ _ _ fun _ => ⟨rfl, rfl, rfl⟩))
      · cases h
        exact Or.inl rfl

/-- A merge that is finished in time is the first decision about its purse. -/
theorem undecided_of_finishMerge {db db' : Database} {a : PurseDepositArgs}
    (h : finishMerge db a = .ok (db', false)) {m : PurseMerge} {r : PurseRequest}
    (hm : db.purseMerges.lookup a.pursePub = some m)
    (hr : db.purseRequests.lookup a.pursePub = some r) (hfull : r.isFull = true) :
    db.purseDecision.hasKey a.pursePub = false := by
  by_contra hdec
  have hn : db.purseDecision.insert? (fun i => ⟨i, a.pursePub, a.now, false⟩) = none :=
    Table.insert?_eq_none.mpr ((Bool.not_eq_false _).mp hdec)
  have hlate : finishMerge db a = .ok (db, true) := by
    simp only [finishMerge, hm, hr, hfull, if_true, Database.insertPurseDecision, hn]
    rfl
  rw [hlate] at h
  cases h

theorem lookup_creditPurse {db : Database} {p : PursePub} {r : PurseRequest} (a : TalerAmount)
    (h : db.purseRequests.lookup p = some r) :
    (creditPurse db p a).purseRequests.lookup p = some { r with balance := r.balance.plus a } := by
  unfold creditPurse
  simp only
  rw [db.lookup_setPurse, h, Option.map_some, if_pos (by exact Table.key_of_lookup h)]

theorem hasKey_of_insertPurseDeposit {db : Database} {a : PurseDepositArgs}
    (h : insertPurseDeposit db a = .ok none) :
    db.purseDeposits.hasKey (a.pursePub, a.coinPub) = true := by
  unfold insertPurseDeposit at h
  split at h
  · next ht => exact Table.insert?_eq_none.mp ht
  · simp only [bind_eq_ok, pure_eq_ok, reduceCtorEq, and_false, exists_false] at h

/-- A committed purse deposit is no change for a coin deposited before, a deposit, or a deposit and
a merge. -/
theorem depositIntoPurse_cases {db db' : Database} {a : PurseDepositArgs}
    (h : depositIntoPurse db a = some db') :
    (db' = db ∧ db.purseDeposits.hasKey (a.pursePub, a.coinPub) = true) ∨ ∃ s, Posts db (.purseDeposit a) s ∧ (db' = s ∨ Posts s (.finishMerge a) db') := by
  unfold depositIntoPurse at h
  obtain ⟨out, h, ho⟩ := commitIf_eq_some.mp h
  rw [exchangeDoPurseDeposit, bind_eq_ok] at h
  obtain ⟨o, hi, h⟩ := h
  cases o with
  | none =>
    refine Or.inl ⟨?_, hasKey_of_insertPurseDeposit hi⟩
    simp only at h
    split at h
    · split at h <;> cases pure_eq_ok.mp h
      · rfl
      · cases ho
    · cases pure_eq_ok.mp h
      cases ho
  | some db₁ =>
    obtain ⟨t, ch, ht, hch, rfl⟩ := insertPurseDeposit_eq_some hi
    simp only at h
    split at h
    · cases pure_eq_ok.mp h
      cases ho
    · next hdel =>
      split at h
      · cases pure_eq_ok.mp h
        cases ho
      · next db₂ hd =>
        obtain ⟨kc, hkc, hcov, rfl⟩ := Database.debitCoin_eq_some.mp hd
        simp only [bind_eq_ok, Prod.exists] at h
        obtain ⟨db₃, late, hf, h⟩ := h
        cases pure_eq_ok.mp h
        have hlate : late = false := by simpa using ho
        subst hlate
        refine Or.inr ⟨_, Posts.purseDeposit ht hch ?_ hkc hcov fun hfills => ?_,
          finishMerge_cases hf⟩
        · simpa [Database.isDeleted] using hdel
        · obtain ⟨m, r, hm, hr, hfull⟩ := PurseDepositArgs.fills_iff.mp hfills
          have h := undecided_of_finishMerge hf hm (lookup_creditPurse a.amountWithoutFee hr) hfull
          exact h

theorem depositIntoPurse_path {db db' : Database} {a : PurseDepositArgs}
    (hd : C db (.purseDeposit a)) (hf : ∀ s, C s (.finishMerge a))
    (h : depositIntoPurse db a = some db') : Path Posts C db db' := by
  obtain ⟨rfl, -⟩ | ⟨s, hs, rfl | hm⟩ := depositIntoPurse_cases h
  · exact .refl _
  · exact Path.single hd hs
  · exact (Path.single hd hs).tail (hf s) hm

/-- The purses that exist stay. -/
theorem hasPurse_purseDeposit {db s : Database} {a : PurseDepositArgs} {p : PursePub}
    (h : Posts db (.purseDeposit a) s) (hp : db.purseRequests.hasKey p = true) :
    s.purseRequests.hasKey p = true := by
  cases h
  simpa using hp

theorem hasPurse_finishMerge {db s : Database} {a : PurseDepositArgs} {p : PursePub}
    (h : Posts db (.finishMerge a) s) (hp : db.purseRequests.hasKey p = true) :
    s.purseRequests.hasKey p = true := by
  cases h
  simpa using hp

theorem depositAllIntoPurse_path {db db₀ db' : Database} {p : PursePub} {ds : List PurseDepositArgs}
    (hd : ∀ s, SameTerms db₀ s → s.purseRequests.hasKey p = true →
      ∀ d ∈ ds, C s (.purseDeposit d))
    (hf : ∀ s, ∀ d ∈ ds, C s (.finishMerge d)) (ht : SameTerms db₀ db)
    (hp : db.purseRequests.hasKey p = true) (h : depositAllIntoPurse db ds = some db') :
    Path Posts C db db' := by
  induction ds generalizing db with
  | nil =>
    cases h
    exact .refl _
  | cons d ds ih =>
    simp only [depositAllIntoPurse, Option.bind_eq_bind, Option.bind_eq_some_iff] at h
    obtain ⟨db₁, h₁, h⟩ := h
    have hpath := depositIntoPurse_path (hd db ht hp d (by simp)) (fun s => hf s d (by simp)) h₁
    have hd' : ∀ s, SameTerms db₀ s → s.purseRequests.hasKey p = true →
        ∀ d ∈ ds, C s (.purseDeposit d) := fun s hs hk d' hd' => hd s hs hk d' (by simp [hd'])
    have hf' : ∀ s, ∀ d ∈ ds, C s (.finishMerge d) := fun s d' hd' => hf s d' (by simp [hd'])
    obtain ⟨rfl, -⟩ | ⟨s, hs, rfl | hm⟩ := depositIntoPurse_cases h₁
    · exact ih hd' hf' ht hp h
    · exact hpath.trans
        (ih hd' hf' (ht.trans (.purseDeposit hs)) (hasPurse_purseDeposit hs hp) h)
    · exact hpath.trans (ih hd' hf' ((ht.trans (.purseDeposit hs)).trans (.finishMerge hm))
        (hasPurse_finishMerge hm (hasPurse_purseDeposit hs hp)) h)

/-! ## Purse requests -/

theorem insertPurseRequest_inserted {db db' : Database} {a : PurseRequestArgs}
    (h : insertPurseRequest db a = .ok (db', .inserted)) :
    ∃ t acts, db.purseRequests.insert? a.row = some t ∧
      db.purseActions.insert? (fun i => ⟨i, a.pursePub, a.purseExpiration, none⟩) = some acts ∧
      db' = { db with purseRequests := t, purseActions := acts } := by
  unfold insertPurseRequest at h
  split at h
  · next t ht =>
    simp only [bind_eq_ok, orUnique_eq_ok, pure_eq_ok, Prod.mk.injEq, and_true] at h
    obtain ⟨acts, hacts, rfl⟩ := h
    exact ⟨t, acts, ht, hacts, rfl⟩
  · split at h
    · split at h <;> cases h
    · cases h

theorem insertPurseRequest_identical {db db' : Database} {a : PurseRequestArgs}
    (h : insertPurseRequest db a = .ok (db', .identical)) :
    db' = db ∧ db.purseRequests.hasKey a.pursePub = true := by
  unfold insertPurseRequest at h
  split at h
  · simp only [bind_eq_ok, pure_eq_ok, Prod.mk.injEq, reduceCtorEq, and_false, exists_false] at h
  · next hn =>
    split at h
    · split at h
      · cases h
        exact ⟨rfl, Table.insert?_eq_none.mp hn⟩
      · cases h
    · cases h

theorem createPurse_path {db db' : Database} {a : PurseRequestArgs} {ds : List PurseDepositArgs}
    (hr : C db (.purseRequest a.byCoins))
    (hd : ∀ s, SameTerms db s → s.purseRequests.hasKey a.pursePub = true →
      ∀ d ∈ ds, C s (.purseDeposit (d.into a.pursePub)))
    (hf : ∀ s, ∀ d ∈ ds, C s (.finishMerge (d.into a.pursePub)))
    (h : createPurse db a ds = some db') : Path Posts C db db' := by
  have hd' : ∀ s, SameTerms db s → s.purseRequests.hasKey a.pursePub = true →
      ∀ d ∈ ds.map (·.into a.pursePub), C s (.purseDeposit d) := by
    intro s hs hk d hm
    obtain ⟨x, hx, rfl⟩ := List.mem_map.mp hm
    exact hd s hs hk x hx
  have hf' : ∀ s, ∀ d ∈ ds.map (·.into a.pursePub),
      C s (.finishMerge d) := by
    intro s d hm
    obtain ⟨x, hx, rfl⟩ := List.mem_map.mp hm
    exact hf s x hx
  unfold createPurse at h
  split at h
  · cases h
  · cases h
  · next db₁ st hne hi =>
    cases st with
    | conflict => exact absurd rfl hne
    | identical =>
      obtain ⟨rfl, hk⟩ := insertPurseRequest_identical hi
      exact depositAllIntoPurse_path hd' hf' (.refl _) hk h
    | inserted =>
      obtain ⟨t, acts, ht, hacts, rfl⟩ := insertPurseRequest_inserted hi
      refine (Path.single hr (Posts.purseRequest (a := a.byCoins) rfl rfl ht hacts)).trans
        (depositAllIntoPurse_path hd' hf' ⟨fun _ => rfl, rfl, fun _ => rfl, fun _ h => h⟩ ?_ h)
      exact Table.hasKey_insert?_self ht

/-! ## Purses paid for by a reserve -/

theorem insertPurseMerge_eq_some {db db' : Database} {partner : Option ℕ} {r : ReservePub}
    {p : PursePub} {sig : Signature} {ts : Timestamp}
    (h : insertPurseMerge db partner r p sig ts = .ok (some db')) :
    ∃ t, db.purseMerges.insert? (fun i => ⟨i, partner, r, p, sig, ts⟩) = some t ∧
      db' = { db with purseMerges := t } := by
  unfold insertPurseMerge at h
  split at h
  · cases h
  · next t ht =>
    simp only [bind_eq_ok, require_eq_ok, pure_eq_ok, Option.some.injEq] at h
    obtain ⟨-, -, -, -, rfl⟩ := h
    exact ⟨t, ht, rfl⟩

theorem insertAccountMerge_eq_ok {db db' : Database} {r : ReservePub} {sig : Signature}
    {p : PursePub} {hPayto : HashCode} (h : insertAccountMerge db r sig p hPayto = .ok db') :
    ∃ t, db.accountMerges.insert? (fun i => ⟨i, r, sig, p, hPayto⟩) = some t ∧
      db.reserves.hasKey r = true ∧ db' = { db with accountMerges := t } := by
  simp only [insertAccountMerge, bind_eq_ok, orUnique_eq_ok, require_eq_ok, pure_eq_ok] at h
  obtain ⟨t, ht, -, hr, -, -, rfl⟩ := h
  exact ⟨t, ht, hr, rfl⟩

/-- Paying for a purse only touches the reserves. -/
theorem payForPurse_frame {db db' : Database} {b : ReservePurseArgs}
    (h : payForPurse db b = some db') : db' = { db with reserves := db'.reserves } := by
  unfold payForPurse at h
  split at h
  · split_ifs at h
    rw [← Option.some.inj h]
    unfold initReserve
    split <;> rfl
  · split_ifs at h <;> rw [← Option.some.inj h]

/-- How a purse is paid for: a new reserve pays nothing, the quota is used, or the fee is taken. -/
theorem payForPurse_cases {db db' : Database} {b : ReservePurseArgs}
    (h : payForPurse db b = some db') :
    (b.reserveQuota = false ∧ b.purseFee.units = 0 ∧
      db.reserves.insert? (fun i => { reserveUuid := i, reservePub := b.reservePub,
                                      expirationDate := b.reserveExpiration,
                                      gcDate := b.reserveGc }) = some db'.reserves) ∨
    (∃ r, db.reserves.lookup b.reservePub = some r ∧ b.reserveQuota = true ∧
      r.pursesActive < r.pursesAllowed ∧ db'.reserves = db.setReserve b.reservePub fun x =>
        { x with pursesActive := x.pursesActive + 1 }) ∨
    ∃ r, db.reserves.lookup b.reservePub = some r ∧ b.reserveQuota = false ∧
      r.currentBalance.covers b.purseFee = true ∧ db'.reserves = db.setReserve b.reservePub fun x =>
        { x with currentBalance := x.currentBalance.minus b.purseFee } := by
  unfold payForPurse at h
  split at h
  · next hl =>
    split_ifs at h with hq hfee
    refine Or.inl ⟨by simpa using hq, ?_, ?_⟩
    · simp only [not_or, not_not] at hfee
      simp only [Amount.units, TalerAmount.units]
      omega
    · rw [← Option.some.inj h]
      unfold initReserve
      split
      · next t ht => exact ht
      · next ht =>
        rw [Table.insert?_eq_none] at ht
        exact absurd (ht.symm.trans (Table.lookup_eq_none_iff_hasKey.mp hl)) (by decide)
  · next r hl =>
    split_ifs at h with hq ha hc
    · exact Or.inr (Or.inl ⟨r, hl, hq, ha, by rw [← Option.some.inj h]⟩)
    · exact Or.inr (Or.inr ⟨r, hl, by simpa using hq, hc, by rw [← Option.some.inj h]⟩)

/-- A purse that was just requested has no merge yet, so the fee is always paid. -/
theorem reservePurse_path {db db' : Database} {a : PurseRequestArgs} {fee : Option Amount}
    {b : ReservePurseArgs}
    (hC : C db (.reservePurse (a.byReserve fee) (b.forRequest a.pursePub fee)))
    (hm : db.purseRequests.hasKey a.pursePub = false → db.purseMerges.hasKey a.pursePub = false)
    (h : reservePurse db a fee b = some db') : Path Posts C db db' := by
  unfold reservePurse at h
  split at h
  · cases h
  · cases h
  · cases h
  · next db₁ hi =>
    obtain ⟨t, acts, ht, hacts, rfl⟩ := insertPurseRequest_inserted hi
    have hnew : db.purseMerges.hasKey a.pursePub = false := hm (Table.insert?_eq_some.mp ht).1
    obtain ⟨out, h, ho⟩ := commitIf_eq_some.mp h
    rw [exchangeDoReservePurse, bind_eq_ok] at h
    obtain ⟨o, hmg, h⟩ := h
    cases o with
    | none =>
      unfold insertPurseMerge at hmg
      split at hmg
      · next hn => exact absurd (hnew.symm.trans (Table.insert?_eq_none.mp hn)) (by decide)
      · simp only [bind_eq_ok, pure_eq_ok, reduceCtorEq, and_false, exists_false] at hmg
    | some db₂ =>
      obtain ⟨m, hmi, rfl⟩ := insertPurseMerge_eq_some hmg
      simp only at h
      split at h
      · cases pure_eq_ok.mp h
        simp at ho
      · next db₃ hpay =>
        simp only [bind_eq_ok] at h
        obtain ⟨db₄, ham, h⟩ := h
        cases pure_eq_ok.mp h
        obtain ⟨am, hami, hkey, rfl⟩ := insertAccountMerge_eq_ok ham
        have hq : (b.forRequest a.pursePub fee).reserveQuota = true →
            (b.forRequest a.pursePub fee).purseFee = Amount.zero := by
          cases fee with
          | none => exact fun _ => rfl
          | some _ => rintro ⟨⟩
        refine Path.single hC (Posts.reservePurse rfl rfl rfl hq ht hacts hmi hpay ?_ hkey)
        rw [payForPurse_frame hpay] at hami
        exact hami

/-! ## Merges -/

theorem findPartner_ne_zero {db : Database} {a : PurseMergeArgs} {partner : Option ℕ}
    (h : findPartner db a = some partner) : partner = none ∨ ∃ i, partner = some i ∧ i ≠ 0 := by
  unfold findPartner at h
  split at h
  · exact Or.inl (Option.some.inj h).symm
  · obtain ⟨p, hp, rfl⟩ := Option.map_eq_some_iff.mp h
    exact Or.inr ⟨_, rfl, (Table.serial_pos (List.mem_of_find?_eq_some hp)).ne'⟩

theorem exchangeDoPurseMerge_path {db db' : Database} {a : PurseMergeArgs} {out : PurseMergeOut}
    (hi : C db (.initReserve a.reservePub a.expirationDate)) (hC : ∀ s, C s (.purseMerge a))
    (h : exchangeDoPurseMerge db a = .ok (db', out)) (hp : out.noPartner = false)
    (hb : out.noBalance = false) (hc : out.conflict = false) : Path Posts C db db' := by
  refine (Path.single hi (Posts.initReserve ..)).trans ?_
  unfold exchangeDoPurseMerge at h
  simp only at h
  generalize initReserve db _ _ _ = db₁ at h ⊢
  split at h
  · cases h
    cases hp
  · next partner hpt =>
    split at h
    · cases h
      cases hb
    · next r hr =>
      split at h
      · next hpaid =>
        rw [bind_eq_ok] at h
        obtain ⟨o, hmg, h⟩ := h
        cases o with
        | none =>
          cases pure_eq_ok.mp h
          exact .refl _
        | some db₂ =>
          obtain ⟨m, hmi, rfl⟩ := insertPurseMerge_eq_some hmg
          simp only [bind_eq_ok] at h
          obtain ⟨o, hdec, h⟩ := h
          cases o with
          | none =>
            cases pure_eq_ok.mp h
            cases hc
          | some db₃ =>
            have hself : m.lookup a.pursePub = some ⟨_, partner, a.reservePub, a.pursePub, a.mergeSig,
                a.mergeTimestamp⟩ := Table.lookup_insert?_self hmi
            obtain ⟨t, rh, ht, hrh, hkey, rfl⟩ := insertPurseDecision_merged hself hdec
            simp only [bind_eq_ok] at h
            obtain ⟨db₄, hcr, h⟩ := h
            cases pure_eq_ok.mp h
            unfold creditMerge at hcr
            split at hcr
            · cases hcr
            · next hq =>
              have hq : r.inReserveQuota = false := by simpa using hq
              rw [bind_eq_ok] at hcr
              obtain ⟨db₅, ham, hcr⟩ := hcr
              obtain ⟨am, hami, -, rfl⟩ := insertAccountMerge_eq_ok ham
              split at hcr
              · next hz =>
                cases pure_eq_ok.mp hcr
                exact Path.single (hC db₁) (Posts.purseMerge (findPartner_ne_zero hpt) hr hpaid hq hmi
                  ht hrh hkey hami (Credits.wad hz))
              · next hz =>
                cases pure_eq_ok.mp hcr
                exact Path.single (hC db₁) (Posts.purseMerge (findPartner_ne_zero hpt) hr hpaid hq hmi
                  ht hrh hkey hami
                  (Credits.reserve (by simpa using hz) _ _ _ fun _ => ⟨rfl, rfl, rfl⟩))
      · cases h
        cases hb

/-! ## Refunded purses -/

theorem addCoinHistories_eq_ok {db db' : Database} {t : HistoryTable} {n : ℕ} {cs : List CoinPub}
    (h : db.addCoinHistories t n cs = .ok db') :
    ∃ ch, CoinEntries t n db.coinHistory cs ch ∧ db' = { db with coinHistory := ch } := by
  induction cs generalizing db with
  | nil =>
    cases h
    exact ⟨_, .nil _, rfl⟩
  | cons c cs ih =>
    rw [Database.addCoinHistories, bind_eq_ok] at h
    obtain ⟨db₁, h₁, h⟩ := h
    obtain ⟨ch, hch, -, rfl⟩ := Database.addCoinHistory_eq_ok.mp h₁
    obtain ⟨ch', hch', rfl⟩ := ih h
    exact ⟨ch', .cons hch hch', rfl⟩

theorem restoreCoins_eq (db : Database) (ds : List PurseDeposit) :
    db.restoreCoins ds = { db with knownCoins := restored db.knownCoins ds } := by
  induction ds generalizing db with
  | nil => rfl
  | cons d ds ih => exact ih (db.creditCoin d.coinPub d.amountWithFee)

theorem refundPurse_posts {db db' : Database} {r : PurseRequest} {now : Timestamp}
    (hr : r ∈ db.purseRequests.rows) (h : refundPurse db r now = .ok db') :
    Posts db (.purseRefund r.pursePub) db' := by
  rw [refundPurse, bind_eq_ok] at h
  obtain ⟨o, hdec, h⟩ := h
  cases o with
  | none => cases h
  | some db₁ =>
    unfold Database.insertPurseDecision at hdec
    split at hdec
    · cases hdec
    · next t ht =>
      simp only [if_true, bind_eq_ok, pure_eq_ok, Option.some.injEq] at hdec
      obtain ⟨_, hch, rfl⟩ := hdec
      obtain ⟨ch, hce, rfl⟩ := addCoinHistories_eq_ok hch
      simp only [restoreCoins_eq, pure_eq_ok] at h
      rw [h]
      exact Posts.purseRefund hr ht hce

theorem exchangeDoPurseDelete_path {db db' : Database} {a : PurseDeleteArgs} {out : PurseDeleteOut}
    (hd : C db (.purseDeletion a)) (hC : ∀ s, C s (.purseRefund a.pursePub))
    (h : exchangeDoPurseDelete db a = .ok (db', out)) (hf : out.found = true)
    (ho : out.decided = false) : Path Posts C db db' := by
  unfold exchangeDoPurseDelete at h
  split at h
  · cases h
    cases ho
  · split at h
    · cases h
      cases hf
    · next r hr =>
      split at h
      · cases h
        exact .refl _
      · next t ht =>
        rw [bind_eq_ok] at h
        obtain ⟨db₁, hrf, h⟩ := h
        cases pure_eq_ok.mp h
        have hp : r.pursePub = a.pursePub := Table.key_of_lookup hr
        have hmem : r ∈ { db with purseDeletion := t }.purseRequests.rows := Table.mem_of_lookup hr
        have hposts := refundPurse_posts hmem hrf
        rw [hp] at hposts
        exact (Path.single hd (Posts.purseDeletion ht)).tail (hC _) hposts

theorem exchangeDoExpirePurse_path {db db' : Database} {a : ExpirePurseArgs} {found : Bool}
    (hC : ∀ r, expiringPurse db a = some r → C db (.purseRefund r.pursePub))
    (h : exchangeDoExpirePurse db a = .ok (db', found)) :
    Path Posts C db db' := by
  unfold exchangeDoExpirePurse at h
  split at h
  · cases h
    exact .refl _
  · next r hr =>
    rw [bind_eq_ok] at h
    obtain ⟨db₁, hrf, h⟩ := h
    cases pure_eq_ok.mp h
    have hmem : r ∈ db.purseRequests.rows := (List.mem_filter.mp (List.minOn?_mem hr)).1
    exact Path.single (hC r hr) (refundPurse_posts hmem hrf)

end TalerExchange
