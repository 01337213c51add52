import TalerExchange.Withdraw.Batch

/-!
# Age-restricted withdrawals

The phases of an age-withdraw request in a row, what a request leaves, and its replays.

* `ageAnswer`: the phases; **`handlerWithdraw_age`**: the handler runs them;
* `ageAnswer_left`, **`ageAnswer_stored`**: what is left of a request, and of one with success;
* `AgeReplayOk`; **`ageAnswer_replay`**: the index that a replay is answered with.
-/

namespace TalerExchange

open Sql Transition

section Age

variable (c : WithdrawCrypto) (env : WithdrawEnv)

/-! ## The phases in a row -/

/-- The context with the amount and the serials of its coins. -/
def AgeContext.priced (a : AgeContext) (amount : Amount) (serials : List ℕ) : AgeContext :=
  { a with commitment := { a.commitment with amountWithFee := amount, denomSerials := serials } }

/-- The context with the signatures on the coins of the index drawn. -/
def AgeContext.signed (a : AgeContext) (sigs : List Signature) : AgeContext :=
  { a with commitment := { a.commitment with
      noRevealIndex := env.noRevealIndex.val
      denomSigs := sigs
      hCoinEvs := (a.denomHs.zip a.planchets).map fun x =>
        c.coinEvHash (x.2.get env.noRevealIndex) x.1 } }

/-- The transaction of an age-restricted withdrawal and what follows. -/
def ageTransact (db : Database) (a : AgeContext) : Database × WithdrawReply :=
  let w := exchangeDoAgeWithdraw db (a.args env)
  if w.2.reserveFound = false then (db, .error .dbFetchFailed)
  else if w.2.ageOk = false then (db, .error .ageMaximumAgeTooLarge)
  else if w.2.balanceOk = false then
    (db, ageErrorReply env db a.commitment .ageInsufficientFunds)
  else if w.2.conflict = false then (w.1, ageSuccessReply env a.commitment.noRevealIndex)
  else
    match getAgeWithdraw env.order w.1 a.commitment.reservePub a.commitment.hCommitment with
    | .error _ => (db, .error .dbFetchFailed)
    | .ok none => (w.1, ageSuccessReply env a.commitment.noRevealIndex)
    | .ok (some _) => (db, ageSuccessReply env a.commitment.noRevealIndex)

/-- The phases of an age-restricted withdrawal after its keys were checked. -/
def ageChecked (db : Database) (a : AgeContext) : Database × WithdrawReply :=
  if db.hasOrigin a.commitment.reservePub ∧ env.legi = .response then
    (db, .error .legitimizationResult)
  else if db.hasOrigin a.commitment.reservePub ∧ env.legi = .kyc false then
    (db, ageErrorReply env db a.commitment .kycRequired)
  else
    match signCandidates env a with
    | none => (db, .error .denominationBatchSign)
    | some sigs => ageTransact env db (a.signed c env sigs)

/-- The phases of an age-restricted withdrawal in a row. -/
def ageAnswer (db : Database) (a : AgeContext) : Database × WithdrawReply :=
  match env.keys with
  | none => (db, ageErrorReply env db a.commitment .keysMissing)
  | some keys =>
    match ageCheckKeys env keys Amount.zero Amount.zero (a.denomHs.zip a.planchets) with
    | .error e => (db, ageErrorReply env db a.commitment e)
    | .ok (total, fee, serials) =>
      match total.add? fee with
      | none => (db, .noReply)
      | some amount =>
        if amount = Amount.zero then (db, .noReply)
        else if (a.priced amount serials).commitment.verify c env then
          ageChecked c env db (a.priced amount serials)
        else (db, .error .reserveSignatureInvalid)

/-- The hash that a request commits to. -/
def AgeRequest.hCommitment (r : AgeRequest) : Option HashCode :=
  (r.blindedPlanchets.mapM toKappa?).map fun ps => c.commitmentHash (candidateHashes c r.denomHs ps)

/-- The context that a request starts with. -/
structure AgeRequest.Starts (r : AgeRequest) (a : AgeContext) : Prop where
  accepted : ageWithdrawNewRequest c env r =
    some { reservePub := a.commitment.reservePub, typ := .age a }
  reservePub : a.commitment.reservePub = r.reservePub
  hCommitment : r.hCommitment c = some a.commitment.hCommitment
  noRevealIndex : a.commitment.noRevealIndex = 0

variable {c env} {db db' : Database} {wc : WithdrawContext} {r : AgeRequest} {a : AgeContext}

theorem ageWithdrawNewRequest_starts (h : ageWithdrawNewRequest c env r = some wc) :
    ∃ a, r.Starts c env a := by
  have hnew := h
  unfold ageWithdrawNewRequest at h
  split_ifs at h
  split at h
  · cases h
  · next ps hps =>
    split_ifs at h
    obtain rfl := Option.some.inj h
    exact ⟨⟨{ numCoins := r.denomHs.length
              maxAge := r.maxAge
              hCommitment := c.commitmentHash (candidateHashes c r.denomHs ps)
              reservePub := r.reservePub
              reserveSig := r.reserveSig }, ps, r.denomHs⟩,
      hnew, rfl, by rw [AgeRequest.hCommitment, hps]; rfl, rfl⟩

section Phases

variable {x : ReservePub} {k : Bool} {e : WithdrawError}

theorem answer_transact_age :
    answer c env (db, ⟨.runTransaction, x, k, e, .age a⟩) = ageTransact env db a := by
  have hok : ∀ db', answer c env (db', ⟨.generateReplySuccess, x, k, e, .age a⟩) =
      (db', ageSuccessReply env a.commitment.noRevealIndex) := fun db' =>
    @answer_success_age c env db' ⟨.generateReplySuccess, x, k, e, .age a⟩ a rfl rfl
  rw [answer_step]
  show answer c env (runAgeWithdraw env db ⟨.runTransaction, x, k, e, .age a⟩ a) = _
  unfold runAgeWithdraw ageTransact
  simp only
  split_ifs with h₁ h₂ h₃ h₄ h₅ h₅
  · exact answer_final rfl
  · exact answer_final rfl
  · exact @answer_error_age c env db ⟨.runTransaction, x, k, e, .age a⟩ a rfl _
  · simp [h₅] at h₄
  · obtain ⟨-, hi⟩ := h₄
    unfold checkIdempotency at hi ⊢
    cases hg : getAgeWithdraw env.order (exchangeDoAgeWithdraw db (a.args env)).1
        a.commitment.reservePub a.commitment.hCommitment with
    | error y =>
      simp only [hg]
      exact answer_final rfl
    | ok row =>
      cases row with
      | none => simp [hg] at hi
      | some y =>
        simp only [hg]
        exact hok db
  · exact hok _
  · have hi : (checkIdempotency env (exchangeDoAgeWithdraw db (a.args env)).1
        ⟨.runTransaction, x, k, e, .age a⟩).2 = false := by
      simpa [h₅] using h₄
    unfold checkIdempotency at hi
    cases hg : getAgeWithdraw env.order (exchangeDoAgeWithdraw db (a.args env)).1
        a.commitment.reservePub a.commitment.hCommitment with
    | error y => simp [hg] at hi
    | ok row =>
      cases row with
      | none => exact hok _
      | some y => simp [hg] at hi

theorem answer_prepare_age : answer c env (db, ⟨.prepareTransaction, x, k, e, .age a⟩) =
    match signCandidates env a with
      | none => (db, .error .denominationBatchSign)
      | some sigs => ageTransact env db (a.signed c env sigs) := by
  rw [answer_step]
  show answer c env (db, phasePrepareTransaction c env ⟨.prepareTransaction, x, k, e, .age a⟩) = _
  unfold phasePrepareTransaction
  simp only
  cases signCandidates env a with
  | none =>
    exact @answer_final c env db { phase := .prepareTransaction, reservePub := x, kycOk := k, error := e
                                   typ := _ } .denominationBatchSign rfl
  | some sigs => exact @answer_transact_age c env db (a.signed c env sigs) x k e

theorem answer_checked_age :
    answer c env (db, ⟨.runLegiCheck, a.commitment.reservePub, k, e, .age a⟩) =
      ageChecked c env db a := by
  rw [answer_legi rfl]
  unfold ageChecked
  simp only
  by_cases ho : db.hasOrigin a.commitment.reservePub
  · simp only [ho, if_true, true_and]
    cases env.legi with
    | response => rfl
    | kyc ok =>
      cases ok with
      | true => exact answer_prepare_age
      | false =>
        exact @answer_error_age c env db ⟨.runLegiCheck, a.commitment.reservePub, false, e, .age a⟩ a
          rfl _
  · simp only [ho, Bool.false_eq_true, false_and, if_false]
    exact answer_prepare_age

theorem answer_verify_age :
    answer c env (db, ⟨.checkReserveSignature, a.commitment.reservePub, k, e, .age a⟩) =
      if a.commitment.verify c env then ageChecked c env db a
      else (db, .error .reserveSignatureInvalid) := by
  rw [answer_step]
  simp only [withdrawStep, phaseCheckReserveSignature]
  split_ifs
  · exact answer_checked_age
  · exact answer_final rfl

theorem answer_keysChecked_age {total fee : Amount} {serials : List ℕ} :
    answer c env (db, ageKeysChecked c env ⟨.checkKeys, a.commitment.reservePub, k, e, .age a⟩ a total
      fee serials) =
      match total.add? fee with
      | none => (db, .noReply)
      | some amount =>
        if amount = Amount.zero then (db, .noReply)
        else if (a.priced amount serials).commitment.verify c env then
          ageChecked c env db (a.priced amount serials)
        else (db, .error .reserveSignatureInvalid) := by
  unfold ageKeysChecked
  cases total.add? fee with
  | none => rfl
  | some amount =>
    simp only
    by_cases hz : amount = Amount.zero
    · rw [if_pos hz, if_pos hz]
      rfl
    · rw [if_neg hz, if_neg hz]
      change answer c env (db, if (a.priced amount serials).commitment.verify c env then
        ⟨.checkReserveSignature, (a.priced amount serials).commitment.reservePub, k, e,
          .age (a.priced amount serials)⟩
        else WithdrawContext.setError _ _) = _
      by_cases hv : (a.priced amount serials).commitment.verify c env = true
      · rw [if_pos hv, if_pos hv, answer_verify_age, if_pos hv]
      · rw [if_neg hv, if_neg hv]
        exact answer_final rfl

end Phases

/-- **The phases of an age-restricted withdrawal in a row.** -/
theorem handlerWithdraw_age (h : r.Starts c env a) :
    handlerWithdraw c env db (.age r) = ageAnswer c env db a := by
  unfold handlerWithdraw
  rw [show (WithdrawRequest.age r).newContext c env = _ from h.accepted]
  show answer c env (db, _) = _
  rw [answer_step]
  show answer c env (db, phaseCheckKeys c env _) = _
  unfold phaseCheckKeys ageAnswer
  cases env.keys with
  | none => exact @answer_error_age c env db { reservePub := _, typ := .age a } a rfl _
  | some keys =>
    simp only
    cases ageCheckKeys env keys Amount.zero Amount.zero (a.denomHs.zip a.planchets) with
    | error e => exact @answer_error_age c env db { reservePub := _, typ := .age a } a rfl _
    | ok x =>
      obtain ⟨total, fee, serials⟩ := x
      exact answer_keysChecked_age

/-! ## What a request leaves -/

theorem ageSuccessReply_eq_ageOk {i j : ℕ} :
    ageSuccessReply env j = .ageOk i ↔ env.confirms = true ∧ i = j := by
  unfold ageSuccessReply
  split_ifs with h
  · simp [h, eq_comm]
  · simp [h]

/-- **An error is answered with an index** if it asks for the check and the commitment is found; the
index is the one of the request. -/
theorem ageErrorReply_eq_ageOk {com : AgeCommitment} {e : WithdrawError} {i : ℕ} :
    ageErrorReply env db com e = .ageOk i ↔ e.needsIdempotencyCheck = true ∧
      (∃ d, getAgeWithdraw env.order db com.reservePub com.hCommitment = .ok (some d)) ∧
        env.confirms = true ∧ i = com.noRevealIndex := by
  unfold ageErrorReply
  split_ifs with he
  · cases getAgeWithdraw env.order db com.reservePub com.hCommitment with
    | error x => simp [he]
    | ok o =>
      cases o with
      | none => simp [he]
      | some d => simp [he, ageSuccessReply_eq_ageOk]
  · simp [he]

theorem getAgeWithdraw_index {x : ReservePub} {ach : HashCode} {o : RowOrder} {d : AgeCommitment}
    (h : getAgeWithdraw o db x ach = .ok (some d)) :
    ∃ aw, db.ageWithdraw.lookup ach = some aw ∧ d.noRevealIndex = aw.noRevealIndex := by
  unfold getAgeWithdraw at h
  split at h
  · cases h
  · next aw haw =>
    split at h
    · cases h
    · split at h
      · cases h
      · cases h
        exact ⟨aw, haw, rfl⟩

theorem getAgeWithdraw_hasKey {x : ReservePub} {ach : HashCode} {o : RowOrder} {d : AgeCommitment}
    (h : getAgeWithdraw o db x ach = .ok (some d)) : db.ageWithdraw.hasKey ach = true := by
  obtain ⟨aw, haw, -⟩ := getAgeWithdraw_index h
  exact Table.hasKey_of_lookup haw

theorem getAgeWithdraw_congr {x : ReservePub} {ach : HashCode} {o : RowOrder}
    (ha : db'.ageWithdraw = db.ageWithdraw) (hd : db'.denominations = db.denominations) :
    getAgeWithdraw o db' x ach = getAgeWithdraw o db x ach := by
  unfold getAgeWithdraw
  rw [ha, hd]

theorem ageErrorReply_hasKey {com : AgeCommitment} {e : WithdrawError} {i : ℕ}
    (h : ageErrorReply env db com e = .ageOk i) :
    db.ageWithdraw.hasKey com.hCommitment = true := by
  obtain ⟨-, ⟨d, hd⟩, -⟩ := ageErrorReply_eq_ageOk.mp h
  exact getAgeWithdraw_hasKey hd

/-- The debit of a commitment that is stored already leaves the commitments as they are. -/
theorem exchangeDoAgeWithdraw_conflict {x : AgeWithdrawArgs}
    (h : db.ageWithdraw.hasKey x.hCommitment = true) :
    (exchangeDoAgeWithdraw db x).1 =
      { db with reserves := (exchangeDoAgeWithdraw db x).1.reserves } := by
  have hnone : db.ageWithdraw.insert? x.row = none := Table.insert?_eq_none.mpr h
  unfold exchangeDoAgeWithdraw
  split
  · rfl
  · split_ifs
    · rfl
    · split
      · rfl
      · simp only [hnone]

/-- A debit stores the commitment, or finds it stored. -/
theorem exchangeDoAgeWithdraw_stores {x : AgeWithdrawArgs}
    (hf : (exchangeDoAgeWithdraw db x).2.reserveFound ≠ false)
    (ha : (exchangeDoAgeWithdraw db x).2.ageOk ≠ false)
    (hb : (exchangeDoAgeWithdraw db x).2.balanceOk ≠ false) :
    (exchangeDoAgeWithdraw db x).1.ageWithdraw.hasKey x.hCommitment = true ∧
      ((exchangeDoAgeWithdraw db x).2.conflict = true ↔
        db.ageWithdraw.hasKey x.hCommitment = true) := by
  unfold exchangeDoAgeWithdraw at hf ha hb ⊢
  cases hr : db.reserves.lookup x.reservePub with
  | none =>
    rw [hr] at hf
    exact absurd rfl hf
  | some r =>
    simp only [hr] at ha hb ⊢
    split_ifs at ha hb ⊢
    · exact absurd rfl ha
    · cases hl : r.currentBalance.leftMinusRight x.amountWithFee with
      | none =>
        rw [hl] at hb
        exact absurd rfl hb
      | some balance =>
        simp only
        cases ht : db.ageWithdraw.insert? x.row with
        | none =>
          have hk := Table.insert?_eq_none.mp ht
          exact ⟨hk, by simp only [true_iff]; exact hk⟩
        | some t =>
          refine ⟨Table.hasKey_insert?_self ht, ?_⟩
          simp only [Bool.false_eq_true, false_iff]
          intro hk
          have hn : db.ageWithdraw.insert? x.row = none := Table.insert?_eq_none.mpr hk
          exact absurd (ht.symm.trans hn) (by simp)

theorem getAgeWithdraw_eq_none {x : ReservePub} {ach : HashCode} {o : RowOrder}
    (h : getAgeWithdraw o db x ach = .ok none) :
    (db.ageWithdraw.lookup ach).any (·.reservePub = x) = false := by
  unfold getAgeWithdraw at h
  split at h
  · next hn => simp [hn]
  · next aw haw =>
    split_ifs at h with hr
    · simp [haw, hr]
    · split at h <;> cases h

/-- What a transaction leaves: nothing, or a withdrawal. -/
theorem ageTransact_left : (ageTransact env db a).1 = db ∨
    ageWithdraw db (a.args env) = some (ageTransact env db a).1 := by
  unfold ageTransact
  simp only
  split_ifs with h₁ h₂ h₃ h₄
  · exact .inl rfl
  · exact .inl rfl
  · exact .inl rfl
  · refine .inr ?_
    simp only [Bool.not_eq_false] at h₁ h₂ h₃
    simp only [ageWithdraw, h₁, h₂, h₃, h₄, Bool.and_self, if_true, Bool.false_and, Bool.false_eq_true,
      if_false]
  · split
    · exact .inl rfl
    · next hg =>
      have hn : ((exchangeDoAgeWithdraw db (a.args env)).1.ageWithdraw.lookup
        (a.args env).hCommitment).any (·.reservePub = (a.args env).reservePub) = false :=
        getAgeWithdraw_eq_none hg
      refine .inr ?_
      simp only [Bool.not_eq_false] at h₁ h₂ h₃
      simp only [ageWithdraw, h₁, h₂, h₃, hn, Bool.and_self, if_true, Bool.and_false,
        Bool.false_eq_true, if_false]
    · exact .inl rfl

/-- A transaction with success stores the commitment. -/
theorem ageTransact_stored {i : ℕ} (h : (ageTransact env db a).2 = .ageOk i) :
    (ageTransact env db a).1.ageWithdraw.hasKey a.commitment.hCommitment = true := by
  unfold ageTransact at h ⊢
  simp only at h ⊢
  split_ifs at h ⊢ with h₁ h₂ h₃ h₄
  · dsimp only at h
    exact ageErrorReply_hasKey h
  · exact (exchangeDoAgeWithdraw_stores h₁ h₂ h₃).1
  · obtain ⟨hs, hc⟩ := exchangeDoAgeWithdraw_stores h₁ h₂ h₃
    split
    · next hg => simp [hg] at h
    · exact hs
    · exact hc.mp (by simpa using h₄)

theorem ageChecked_left : (ageChecked c env db a).1 = db ∨
    ∃ x, x.hCommitment = a.commitment.hCommitment ∧
      ageWithdraw db x = some (ageChecked c env db a).1 := by
  unfold ageChecked
  split_ifs
  · exact .inl rfl
  · exact .inl rfl
  · cases signCandidates env a with
    | none => exact .inl rfl
    | some sigs => exact ageTransact_left.imp_right fun h => ⟨_, rfl, h⟩

theorem ageChecked_stored {i : ℕ} (h : (ageChecked c env db a).2 = .ageOk i) :
    (ageChecked c env db a).1.ageWithdraw.hasKey a.commitment.hCommitment = true := by
  unfold ageChecked at h ⊢
  split_ifs at h ⊢
  · dsimp only at h
    exact ageErrorReply_hasKey h
  · cases hs : signCandidates env a with
    | none =>
      rw [hs] at h
      cases h
    | some sigs =>
      rw [hs] at h
      exact @ageTransact_stored env db (a.signed c env sigs) i h

/-- **What a request leaves**: nothing, or a withdrawal with its commitment. -/
theorem ageAnswer_left (db : Database) (a : AgeContext) : (ageAnswer c env db a).1 = db ∨
    ∃ x, x.hCommitment = a.commitment.hCommitment ∧
      ageWithdraw db x = some (ageAnswer c env db a).1 := by
  unfold ageAnswer
  split
  · exact .inl rfl
  · split
    · exact .inl rfl
    · split
      · exact .inl rfl
      · split_ifs
        · exact .inl rfl
        · exact @ageChecked_left c env db (a.priced _ _)
        · exact .inl rfl

/-- Once a commitment is stored, requests with it change nothing of what is stored for it. -/
theorem ageAnswer_getAgeWithdraw {o : RowOrder} {x : ReservePub}
    (hk : db.ageWithdraw.hasKey a.commitment.hCommitment = true) :
    getAgeWithdraw o (ageAnswer c env db a).1 x a.commitment.hCommitment =
      getAgeWithdraw o db x a.commitment.hCommitment := by
  rcases @ageAnswer_left c env db a with he | ⟨y, hy, hw⟩
  · rw [he]
  · unfold ageWithdraw at hw
    simp only at hw
    split_ifs at hw
    · obtain he := Option.some.inj hw
      rw [← he, exchangeDoAgeWithdraw_conflict (hy ▸ hk)]
      exact getAgeWithdraw_congr rfl rfl

/-- **A request with success leaves its commitment** in the database. -/
theorem ageAnswer_stored {i : ℕ} (h : (ageAnswer c env db a).2 = .ageOk i) :
    (ageAnswer c env db a).1.ageWithdraw.hasKey a.commitment.hCommitment = true := by
  unfold ageAnswer at h ⊢
  cases hkeys : env.keys with
  | none =>
    rw [hkeys] at h
    dsimp only at h
    exact ageErrorReply_hasKey h
  | some keys =>
    simp only [hkeys] at h ⊢
    cases hk : ageCheckKeys env keys Amount.zero Amount.zero (a.denomHs.zip a.planchets) with
    | error e =>
      rw [hk] at h
      dsimp only at h
      exact ageErrorReply_hasKey h
    | ok x =>
      obtain ⟨total, fee, serials⟩ := x
      simp only [hk] at h ⊢
      cases ha : total.add? fee with
      | none =>
        rw [ha] at h
        cases h
      | some amount =>
        simp only [ha] at h ⊢
        split_ifs at h ⊢
        exact @ageChecked_stored c env db (a.priced amount serials) i h

/-! ## Replays -/

/-- The reserve is known, and the maximum age of the request suits the birthday of its owner. -/
def AgeReserveOk (env : WithdrawEnv) (db : Database) (a : AgeContext) : Prop :=
  ∃ x, db.reserves.lookup a.commitment.reservePub = some x ∧
    ¬ (x.birthday ≠ 0 ∧ env.earliestDate a.commitment.maxAge < x.birthday)

/-- The phases after the keys come to an answer with the index: to the one of the request if KYC is
required, and to the one drawn if the coins can be signed and the reserve can be used. -/
def AgeCheckedOk (env : WithdrawEnv) (db : Database) (a : AgeContext) (i : ℕ) : Prop :=
  ¬ (db.hasOrigin a.commitment.reservePub = true ∧ env.legi = .response) ∧
  if db.hasOrigin a.commitment.reservePub = true ∧ env.legi = .kyc false then
    i = a.commitment.noRevealIndex
  else (signCandidates env a).isSome = true ∧ AgeReserveOk env db a ∧ i = env.noRevealIndex.val

/-- **When a replay is answered with an index**: an error among the keys has to ask for the check, and
the index is the one of the request then; otherwise the amount and its signature have to be valid. -/
def AgeReplayOk (c : WithdrawCrypto) (env : WithdrawEnv) (db : Database) (a : AgeContext) (i : ℕ) :
    Prop :=
  env.confirms = true ∧
  match env.keys with
  | none => i = a.commitment.noRevealIndex
  | some keys =>
    match ageCheckKeys env keys Amount.zero Amount.zero (a.denomHs.zip a.planchets) with
    | .error e => e.needsIdempotencyCheck = true ∧ i = a.commitment.noRevealIndex
    | .ok (total, fee, serials) => ∃ amount, total.add? fee = some amount ∧ amount ≠ Amount.zero ∧
        (a.priced amount serials).commitment.verify c env = true ∧
          AgeCheckedOk env db (a.priced amount serials) i

section Replay

variable {d : AgeCommitment}

theorem exchangeDoAgeWithdraw_ok (db : Database) (a : AgeContext) :
    (exchangeDoAgeWithdraw db (a.args env)).2.reserveFound = true ∧
      (exchangeDoAgeWithdraw db (a.args env)).2.ageOk = true ↔ AgeReserveOk env db a := by
  unfold exchangeDoAgeWithdraw AgeReserveOk AgeContext.args
  simp only
  cases hr : db.reserves.lookup a.commitment.reservePub with
  | none => simp
  | some x =>
    simp only [Option.some.injEq, exists_eq_left']
    split_ifs with hb
    · simp [hb]
    · simp only [hb, not_false_eq_true, iff_true]
      split
      · exact ⟨rfl, rfl⟩
      · split <;> exact ⟨rfl, rfl⟩

theorem ageErrorReply_replay {com : AgeCommitment} {e : WithdrawError} {i : ℕ}
    (hd : getAgeWithdraw env.order db com.reservePub com.hCommitment = .ok (some d)) :
    ageErrorReply env db com e = .ageOk i ↔
      env.confirms = true ∧ e.needsIdempotencyCheck = true ∧ i = com.noRevealIndex := by
  rw [ageErrorReply_eq_ageOk]
  constructor
  · rintro ⟨he, -, hc, hi⟩
    exact ⟨hc, he, hi⟩
  · rintro ⟨hc, he, hi⟩
    exact ⟨he, ⟨d, hd⟩, hc, hi⟩

/-- The transaction of a replay changes nothing, and the answer has the index drawn for it. -/
theorem ageTransact_replay
    (hd : getAgeWithdraw env.order db a.commitment.reservePub a.commitment.hCommitment =
      .ok (some d)) :
    (ageTransact env db a).1 = db ∧ ∀ i, (ageTransact env db a).2 = .ageOk i ↔
      env.confirms = true ∧ AgeReserveOk env db a ∧ i = a.commitment.noRevealIndex := by
  have hok := @exchangeDoAgeWithdraw_ok env db a
  have hkey : db.ageWithdraw.hasKey (a.args env).hCommitment = true := getAgeWithdraw_hasKey hd
  unfold ageTransact
  simp only
  split_ifs with h₁ h₂ h₃ h₄
  · refine ⟨rfl, fun i => ⟨fun h => (nomatch h), fun ⟨_, hr, _⟩ => ?_⟩⟩
    exact absurd (hok.mpr hr).1 (by simp [h₁])
  · refine ⟨rfl, fun i => ⟨fun h => (nomatch h), fun ⟨_, hr, _⟩ => ?_⟩⟩
    exact absurd (hok.mpr hr).2 (by simp [h₂])
  · have hr : AgeReserveOk env db a := hok.mp ⟨by simpa using h₁, by simpa using h₂⟩
    refine ⟨rfl, fun i => ?_⟩
    rw [ageErrorReply_replay hd]
    simp [hr, WithdrawError.needsIdempotencyCheck]
  · exact absurd ((exchangeDoAgeWithdraw_stores h₁ h₂ h₃).2.mpr hkey) (by simp [h₄])
  · have hr : AgeReserveOk env db a := hok.mp ⟨by simpa using h₁, by simpa using h₂⟩
    have hsame : getAgeWithdraw env.order (exchangeDoAgeWithdraw db (a.args env)).1
        a.commitment.reservePub a.commitment.hCommitment = .ok (some d) := by
      rw [exchangeDoAgeWithdraw_conflict hkey]
      exact hd
    rw [hsame]
    refine ⟨rfl, fun i => ?_⟩
    simp only
    rw [ageSuccessReply_eq_ageOk]
    simp [hr]

theorem ageChecked_replay
    (hd : getAgeWithdraw env.order db a.commitment.reservePub a.commitment.hCommitment =
      .ok (some d)) :
    (ageChecked c env db a).1 = db ∧ ∀ i, (ageChecked c env db a).2 = .ageOk i ↔
      env.confirms = true ∧ AgeCheckedOk env db a i := by
  unfold ageChecked AgeCheckedOk
  by_cases h₁ : db.hasOrigin a.commitment.reservePub = true ∧ env.legi = .response
  · rw [if_pos h₁]
    exact ⟨rfl, fun i => ⟨fun h => (nomatch h), fun h => absurd h₁ h.2.1⟩⟩
  · rw [if_neg h₁]
    simp only [h₁, not_false_eq_true, true_and]
    by_cases h₂ : db.hasOrigin a.commitment.reservePub = true ∧ env.legi = .kyc false
    · simp only [if_pos h₂]
      refine ⟨trivial, fun i => ?_⟩
      rw [ageErrorReply_replay hd]
      simp only [WithdrawError.needsIdempotencyCheck, true_and]
    · simp only [if_neg h₂]
      cases hs : signCandidates env a with
      | none => exact ⟨rfl, fun i => ⟨fun h => (nomatch h), fun h => (nomatch h.2.1)⟩⟩
      | some sigs =>
        obtain ⟨hsame, hi⟩ := @ageTransact_replay env db (a.signed c env sigs) d hd
        refine ⟨hsame, fun i => (hi i).trans ?_⟩
        simp only [Option.isSome_some, true_and]
        exact Iff.rfl

/-- **A replay changes nothing**, and this is its answer. -/
theorem ageAnswer_replay
    (hd : getAgeWithdraw env.order db a.commitment.reservePub a.commitment.hCommitment =
      .ok (some d)) :
    (ageAnswer c env db a).1 = db ∧
      ∀ i, (ageAnswer c env db a).2 = .ageOk i ↔ AgeReplayOk c env db a i := by
  unfold ageAnswer AgeReplayOk
  cases env.keys with
  | none =>
    refine ⟨rfl, fun i => ?_⟩
    dsimp only
    rw [ageErrorReply_replay hd]
    simp only [WithdrawError.needsIdempotencyCheck, true_and]
  | some keys =>
    dsimp only
    cases ageCheckKeys env keys Amount.zero Amount.zero (a.denomHs.zip a.planchets) with
    | error e => exact ⟨rfl, fun i => ageErrorReply_replay hd⟩
    | ok x =>
      obtain ⟨total, fee, serials⟩ := x
      dsimp only
      cases total.add? fee with
      | none => exact ⟨rfl, fun i => ⟨fun h => (nomatch h), fun ⟨_, _, h, _⟩ => (nomatch h)⟩⟩
      | some amount =>
        simp only [Option.some.injEq, exists_eq_left']
        by_cases hz : amount = Amount.zero
        · rw [if_pos hz]
          exact ⟨rfl, fun i => ⟨fun h => (nomatch h), fun ⟨_, h, _⟩ => absurd hz h⟩⟩
        · by_cases hv : (a.priced amount serials).commitment.verify c env = true
          · rw [if_neg hz, if_pos hv]
            obtain ⟨hsame, hi⟩ := @ageChecked_replay c env db (a.priced amount serials) d hd
            refine ⟨hsame, fun i => (hi i).trans ?_⟩
            simp only [hz, hv, ne_eq, not_false_eq_true, true_and]
          · rw [if_neg hz, if_neg hv]
            exact ⟨rfl, fun i => ⟨fun h => (nomatch h), fun ⟨_, _, h, _⟩ => absurd h hv⟩⟩

end Replay

end Age

end TalerExchange
