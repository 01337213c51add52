import TalerExchange.Withdraw.Kept

/-!
# Batch withdrawals

The phases of a batch-withdraw request in a row, what a batch leaves, and its replays.

* `answer`: the answer at the end of the loop, with lemmas for its last phases;
* `batchAnswer`: the phases of a batch; **`handlerWithdraw_batch`**: the handler runs them;
* `StoredBatch`: the coins of a batch are stored; **`batchAnswer_stored`**: a success stores them;
* `BatchReplayOk`; **`batchAnswer_replay`**: a replay is answered as before if it holds, and else with
  an error.
-/

namespace TalerExchange

open Sql Transition

/-! ## The phases in a row -/

section Answers

variable (c : WithdrawCrypto) (env : WithdrawEnv)

/-- The database and the answer at the end of the loop. -/
def answer (s : Database × WithdrawContext) : Database × WithdrawReply :=
  ((finishWithdraw c env s).1, (finishWithdraw c env s).2.reply)

/-- The answer to a batch that an error has ended. -/
def batchErrorReply (db : Database) (pcs : List PlanchetContext) (e : WithdrawError) :
    WithdrawReply :=
  if e.needsIdempotencyCheck ∧ (batchIdempotency db pcs).2 then
    .batchOk ((batchIdempotency db pcs).1.map fun pc => pc.collectable.sig)
  else e.reply

/-- The answer with an index. -/
def ageSuccessReply (env : WithdrawEnv) (i : ℕ) : WithdrawReply :=
  if env.confirms then .ageOk i else .error .ageConfirmationSign

/-- The answer to an age-restricted withdrawal that an error has ended. -/
def ageErrorReply (env : WithdrawEnv) (db : Database) (a : AgeCommitment) (e : WithdrawError) :
    WithdrawReply :=
  if e.needsIdempotencyCheck then
    match getAgeWithdraw env.order db a.reservePub a.hCommitment with
    | .error _ => .error .dbFetchFailed
    | .ok none => e.reply
    | .ok (some _) => ageSuccessReply env a.noRevealIndex
  else e.reply

variable {c env} {db : Database} {wc : WithdrawContext}

theorem answer_step (s : Database × WithdrawContext) :
    answer c env s = answer c env (withdrawStep c env s) := by
  unfold answer
  rw [← finishWithdraw_step]

theorem answer_finishLoop (r : WithdrawReply) : answer c env (db, wc.finishLoop r) = (db, r) := rfl

/-- The answer if no replay is found, or none is looked for. -/
theorem answer_replyError (e : WithdrawError) :
    answer c env (db, (wc.setError e).replyError) = (db, e.reply) := by
  by_cases he : e = .requestParameterMalformed
  · subst he
    rfl
  · rw [@replyError_eq (wc.setError e) he, answer_finishLoop]
    rfl

theorem answer_success_batch {b : BatchContext} (h : wc.typ = .batch b)
    (hp : wc.phase = .generateReplySuccess) : answer c env (db, wc) =
      (db, .batchOk (b.planchets.map fun pc => pc.collectable.sig)) := by
  rw [answer_step]
  simp only [withdrawStep, hp, phaseGenerateReplySuccess, h]
  rfl

theorem answer_final {e : WithdrawError} (he : e.needsIdempotencyCheck = false) :
    answer c env (db, wc.setError e) = (db, e.reply) := by
  rw [answer_step]
  show answer c env (db, phaseGenerateReplyError env db (wc.setError e)) = _
  unfold phaseGenerateReplyError WithdrawContext.generateReplyError
  rw [if_neg (by simp [WithdrawContext.setError, he])]
  exact answer_replyError e

theorem answer_success_age {a : AgeContext} (h : wc.typ = .age a)
    (hp : wc.phase = .generateReplySuccess) :
    answer c env (db, wc) = (db, ageSuccessReply env a.commitment.noRevealIndex) := by
  rw [answer_step]
  simp only [withdrawStep, hp, phaseGenerateReplySuccess, h, ageSuccessReply]
  split_ifs
  · rfl
  · exact answer_final rfl

/-- An error, with the check whether the batch is a replay. -/
theorem answer_error_batch {b : BatchContext} (h : wc.typ = .batch b) (e : WithdrawError) :
    answer c env (db, wc.setError e) = (db, batchErrorReply db b.planchets e) := by
  unfold batchErrorReply
  by_cases he : e.needsIdempotencyCheck
  · rw [answer_step]
    show answer c env (db, phaseGenerateReplyError env db (wc.setError e)) = _
    unfold phaseGenerateReplyError WithdrawContext.generateReplyError checkIdempotency
    by_cases hi : (batchIdempotency db b.planchets).2
    · simp only [WithdrawContext.setError, h, he, hi, if_true, and_self]
      exact @answer_success_batch c env db { wc with
        error := e
        phase := .generateReplySuccess
        typ := .batch { b with planchets := (batchIdempotency db b.planchets).1 } } _ rfl rfl
    · simp only [WithdrawContext.setError, h, he, hi, if_true]
      exact @answer_replyError c env db { wc with
        typ := .batch { b with planchets := (batchIdempotency db b.planchets).1 } } e
  · rw [answer_final (Bool.eq_false_of_not_eq_true he), if_neg (fun hh => he hh.1)]

/-- An error, with the check whether the age-restricted withdrawal is a replay. -/
theorem answer_error_age {a : AgeContext} (h : wc.typ = .age a) (e : WithdrawError) :
    answer c env (db, wc.setError e) = (db, ageErrorReply env db a.commitment e) := by
  unfold ageErrorReply
  by_cases he : e.needsIdempotencyCheck
  · rw [answer_step, if_pos he]
    show answer c env (db, phaseGenerateReplyError env db (wc.setError e)) = _
    unfold phaseGenerateReplyError WithdrawContext.generateReplyError checkIdempotency
    simp only [WithdrawContext.setError, h, he, if_true]
    cases hg : getAgeWithdraw env.order db a.commitment.reservePub a.commitment.hCommitment with
    | error x => exact @answer_final c env db { wc with error := e, typ := .age a } .dbFetchFailed rfl
    | ok o =>
      cases o with
      | none => exact @answer_replyError c env db { wc with typ := .age a } e
      | some d =>
        exact @answer_success_age c env db { wc with
          error := e
          phase := .generateReplySuccess
          typ := .age a } _ rfl rfl
  · rw [answer_final (Bool.eq_false_of_not_eq_true he), if_neg he]

/-- The legitimization check and its result. -/
theorem answer_legi (hp : wc.phase = .runLegiCheck) : answer c env (db, wc) =
    if db.hasOrigin wc.reservePub then
      match env.legi with
      | .response => (db, .error .legitimizationResult)
      | .kyc true => answer c env (db, { wc with kycOk := true, phase := .prepareTransaction })
      | .kyc false => answer c env (db, { wc with kycOk := false }.setError .kycRequired)
    else answer c env (db, { wc with phase := .prepareTransaction }) := by
  rw [answer_step]
  simp only [withdrawStep, hp, phaseRunLegiCheck]
  split_ifs
  · rw [answer_step]
    show answer c env (db, withdrawLegiCb env { wc with phase := .suspended }) = _
    unfold withdrawLegiCb
    cases env.legi with
    | response => exact answer_final rfl
    | kyc ok =>
      rw [answer_step]
      cases ok <;> rfl
  · rfl

end Answers

/-! ## Batches -/

section Batch

variable (c : WithdrawCrypto) (env : WithdrawEnv)

/-- The transaction of a batch and what follows. -/
def batchTransact (db : Database) (r : ReservePub) (b : BatchContext) : Database × WithdrawReply :=
  let w := exchangeDoBatchWithdraw db (b.args env r)
  if w.2.reserveFound = false then (db, .error .reserveUnknown)
  else if w.2.ageOk = false then (db, .error .ageRestrictionRequired)
  else if w.2.balanceOk = false then
    (db, batchErrorReply db b.planchets .batchInsufficientFunds)
  else
    match insertPlanchets w.2.ruuid env.now w.1 b.planchets with
    | .error e => (db, batchErrorReply db b.planchets e)
    | .ok db' => (db', .batchOk (b.planchets.map fun pc => pc.collectable.sig))

/-- The phases of a batch after its keys were checked. -/
def batchChecked (db : Database) (r : ReservePub) (b : BatchContext) : Database × WithdrawReply :=
  if db.hasOrigin r ∧ env.legi = .response then (db, .error .legitimizationResult)
  else if db.hasOrigin r ∧ env.legi = .kyc false then
    (db, batchErrorReply db b.planchets .kycRequired)
  else
    match signPlanchets env b.planchets with
    | none => (db, .error .denominationBatchSign)
    | some pcs => batchTransact env db r { b with planchets := pcs }

/-- The keys that are checked for a batch. -/
def BatchRequest.checkKeys (r : BatchRequest) (keys : KeyState) :
    List PlanchetContext × Except WithdrawError Amount :=
  batchCheckKeys c env keys Amount.zero (r.planchets.map (·.context r.reservePub))

/-- The phases of a batch in a row. -/
def batchAnswer (db : Database) (r : BatchRequest) : Database × WithdrawReply :=
  match env.keys with
  | none => (db, .error .keysMissing)
  | some keys =>
    match r.checkKeys c env keys with
    | (_, .error e) => (db, e.reply)
    | (pcs, .ok total) => batchChecked env db r.reservePub ⟨pcs, total⟩

/-- The planchet of a request with its hash. -/
structure Checked (p : BatchPlanchet) (pc : PlanchetContext) : Prop where
  planchet : pc.blindedPlanchet = p.coinEv
  denom : pc.collectable.denomPubHash = p.denomPubHash
  hash : pc.collectable.hCoinEnvelope = c.coinEvHash p.coinEv p.denomPubHash

/-- A coin is stored with a signature. -/
def Found (db : Database) (h : HashCode) (s : Signature) : Prop :=
  ∃ col, getWithdrawInfo db h = some col ∧ col.sig = s

/-- The coins of a batch are stored with these signatures. -/
def StoredBatch (db : Database) (r : BatchRequest) (sigs : List Signature) : Prop :=
  List.Forall₂ (fun p s => Found db (c.coinEvHash p.coinEv p.denomPubHash) s) r.planchets sigs

variable {c env} {db db' : Database} {wc : WithdrawContext} {keys : KeyState} {r : BatchRequest}

/-! ### Keys -/

theorem checkPlanchet_error {pc pc' : PlanchetContext} {total : Amount} {e : WithdrawError}
    (hc : checkPlanchet c env keys total pc = (pc', .error e)) (he : e.needsIdempotencyCheck = true) :
    pc' = pc := by
  unfold checkPlanchet at hc
  simp only at hc
  split at hc
  · exact (congrArg Prod.fst hc).symm
  · split at hc
    · exact (congrArg Prod.fst hc).symm
    · split at hc
      · exact (congrArg Prod.fst hc).symm
      · split at hc
        · cases hc
          cases he
        · split at hc
          · cases hc
          · cases hc
            cases he

theorem checkPlanchet_ok {p : BatchPlanchet} {x : ReservePub} {pc : PlanchetContext}
    {total total' : Amount}
    (hc : checkPlanchet c env keys total (p.context x) = (pc, .ok total')) : Checked c p pc := by
  unfold checkPlanchet at hc
  simp only at hc
  split at hc
  · cases hc
  · split at hc
    · cases hc
    · split at hc
      · cases hc
      · split at hc
        · cases hc
        · split at hc
          · cases hc
            exact ⟨rfl, rfl, rfl⟩
          · cases hc

/-- If the keys are fine, every planchet has its hash. -/
theorem batchCheckKeys_ok {ps : List BatchPlanchet} {x : ReservePub} {total total' : Amount}
    (h : (batchCheckKeys c env keys total (ps.map (·.context x))).2 = .ok total') :
    List.Forall₂ (Checked c) ps (batchCheckKeys c env keys total (ps.map (·.context x))).1 := by
  induction ps generalizing total with
  | nil => exact .nil
  | cons p ps ih =>
    rw [List.map_cons] at h ⊢
    unfold batchCheckKeys at h ⊢
    split at h
    · cases h
    · next pc t hc => exact .cons (checkPlanchet_ok hc) (ih h)

/-- If an error asks whether the request is a replay, some planchet has no hash yet. -/
theorem batchCheckKeys_error {ps : List BatchPlanchet} {x : ReservePub} {total : Amount}
    {e : WithdrawError}
    (h : (batchCheckKeys c env keys total (ps.map (·.context x))).2 = .error e)
    (he : e.needsIdempotencyCheck = true) :
    ∃ pc ∈ (batchCheckKeys c env keys total (ps.map (·.context x))).1,
      pc.collectable.hCoinEnvelope = 0 := by
  induction ps generalizing total with
  | nil => cases h
  | cons p ps ih =>
    rw [List.map_cons] at h ⊢
    unfold batchCheckKeys at h ⊢
    split at h
    · next pc e' hc =>
      cases h
      exact ⟨pc, List.mem_cons_self, by rw [checkPlanchet_error hc he]; rfl⟩
    · next pc t hc =>
      obtain ⟨pc', hm, h0⟩ := ih h
      exact ⟨pc', List.mem_cons_of_mem _ hm, h0⟩

/-! ### The check whether a batch is a replay -/

theorem batchIdempotency_missing {pcs : List PlanchetContext}
    (h : ∃ pc ∈ pcs, getWithdrawInfo db pc.collectable.hCoinEnvelope = none) :
    (batchIdempotency db pcs).2 = false := by
  induction pcs with
  | nil =>
    obtain ⟨pc, hpc, -⟩ := h
    cases hpc
  | cons pc pcs ih =>
    unfold batchIdempotency
    split
    · rfl
    · next col hcol =>
      obtain ⟨pc', hpc', hnone⟩ := h
      rcases List.mem_cons.mp hpc' with rfl | hm
      · exact absurd (hnone.symm.trans hcol) (by simp)
      · exact ih ⟨pc', hm, hnone⟩

theorem batchIdempotency_iff {pcs : List PlanchetContext} {sigs : List Signature} :
    (batchIdempotency db pcs).2 = true ∧
        ((batchIdempotency db pcs).1.map fun pc => pc.collectable.sig) = sigs ↔
      List.Forall₂ (fun pc s => Found db pc.collectable.hCoinEnvelope s) pcs sigs := by
  induction pcs generalizing sigs with
  | nil =>
    simp only [batchIdempotency, List.map_nil, true_and, List.forall₂_nil_left_iff]
    exact eq_comm
  | cons pc pcs ih =>
    unfold batchIdempotency
    cases hg : getWithdrawInfo db pc.collectable.hCoinEnvelope with
    | none =>
      constructor
      · rintro ⟨h, -⟩
        cases h
      · rintro (_ | ⟨⟨col, hcol, -⟩, -⟩)
        exact absurd (hg.symm.trans hcol) (by simp)
    | some col =>
      simp only [List.map_cons]
      constructor
      · rintro ⟨h, rfl⟩
        exact .cons ⟨col, hg, rfl⟩ (ih.mp ⟨h, rfl⟩)
      · rintro (_ | ⟨⟨col', hcol, rfl⟩, hrest⟩)
        obtain ⟨h, hs⟩ := ih.mpr hrest
        obtain rfl := Option.some.inj (hg.symm.trans hcol)
        exact ⟨h, by rw [hs]⟩

theorem checked_of_mem {ps : List BatchPlanchet} {pcs : List PlanchetContext}
    (h : List.Forall₂ (Checked c) ps pcs) {pc : PlanchetContext} (hpc : pc ∈ pcs) :
    ∃ p, Checked c p pc := by
  induction h with
  | nil => cases hpc
  | @cons p _ _ _ hp _ ih =>
    rcases List.mem_cons.mp hpc with rfl | hm
    · exact ⟨p, hp⟩
    · exact ih hm

theorem found_checked {ps : List BatchPlanchet} {pcs : List PlanchetContext} {sigs : List Signature}
    (h : List.Forall₂ (Checked c) ps pcs) :
    List.Forall₂ (fun pc s => Found db pc.collectable.hCoinEnvelope s) pcs sigs ↔
      List.Forall₂ (fun p s => Found db (c.coinEvHash p.coinEv p.denomPubHash) s) ps sigs := by
  induction h generalizing sigs with
  | nil => simp only [List.forall₂_nil_left_iff]
  | cons hc _ ih => simp only [List.forall₂_cons_left_iff, ih, hc.hash]

/-- **A batch that an error has ended is answered with signatures** if the error asks for the check
and the coins are stored with them. -/
theorem batchErrorReply_eq_batchOk {pcs : List PlanchetContext} {sigs : List Signature}
    {e : WithdrawError} (h : List.Forall₂ (Checked c) r.planchets pcs) :
    batchErrorReply db pcs e = .batchOk sigs ↔
      e.needsIdempotencyCheck = true ∧ StoredBatch c db r sigs := by
  unfold batchErrorReply StoredBatch
  rw [← found_checked h, ← batchIdempotency_iff]
  by_cases he : e.needsIdempotencyCheck
  · by_cases hi : (batchIdempotency db pcs).2
    · simp [he, hi]
    · simp [he, hi]
  · simp [he]

/-! ### The answer to a batch -/

theorem answer_transact_batch {b : BatchContext} (h : wc.typ = .batch b)
    (hp : wc.phase = .runTransaction) :
    answer c env (db, wc) = batchTransact env db wc.reservePub b := by
  rw [answer_step]
  simp only [withdrawStep, hp, phaseRunTransaction, h, runBatchWithdraw, batchTransact]
  split_ifs
  · exact answer_final rfl
  · exact answer_final rfl
  · exact answer_error_batch h _
  · cases insertPlanchets _ env.now _ b.planchets with
    | error e => exact answer_error_batch h e
    | ok db' =>
      exact @answer_success_batch c env db' { wc with
        phase := .generateReplySuccess
        typ := .batch b } b rfl rfl

theorem answer_prepare_batch {b : BatchContext} (h : wc.typ = .batch b)
    (hp : wc.phase = .prepareTransaction) :
    answer c env (db, wc) = match signPlanchets env b.planchets with
      | none => (db, .error .denominationBatchSign)
      | some pcs => batchTransact env db wc.reservePub { b with planchets := pcs } := by
  rw [answer_step]
  simp only [withdrawStep, hp, phasePrepareTransaction, h]
  cases signPlanchets env b.planchets with
  | none => exact answer_final rfl
  | some pcs =>
    exact @answer_transact_batch c env db { wc with
      typ := .batch { b with planchets := pcs }
      phase := .runTransaction } _ rfl rfl

theorem answer_checked_batch {b : BatchContext} (h : wc.typ = .batch b)
    (hp : wc.phase = .checkReserveSignature) :
    answer c env (db, wc) = batchChecked env db wc.reservePub b := by
  rw [answer_step]
  simp only [withdrawStep, hp, phaseCheckReserveSignature, h]
  rw [answer_legi rfl]
  unfold batchChecked
  by_cases ho : db.hasOrigin wc.reservePub
  · simp only [ho, if_true, true_and]
    cases hl : env.legi with
    | response => rfl
    | kyc ok =>
      cases ok with
      | true =>
        simp only [reduceCtorEq, LegiOutcome.kyc.injEq, Bool.true_eq_false, if_false]
        exact @answer_prepare_batch c env db { wc with
          kycOk := true
          typ := .batch b
          phase := .prepareTransaction } _ rfl rfl
      | false =>
        simp only [reduceCtorEq, if_false, if_true]
        exact @answer_error_batch c env db { wc with
          kycOk := false
          typ := .batch b
          phase := .runLegiCheck } _ rfl _
  · simp only [ho, Bool.false_eq_true, false_and, if_false]
    exact @answer_prepare_batch c env db { wc with
      typ := .batch b
      phase := .prepareTransaction } _ rfl rfl

theorem batchErrorReply_missing {pcs : List PlanchetContext} {e : WithdrawError}
    (h : e.needsIdempotencyCheck = true →
      ∃ pc ∈ pcs, getWithdrawInfo db pc.collectable.hCoinEnvelope = none) :
    batchErrorReply db pcs e = e.reply := by
  unfold batchErrorReply
  rw [if_neg]
  rintro ⟨he, hi⟩
  rw [batchIdempotency_missing (h he)] at hi
  cases hi

/-- A planchet without a hash is not found. -/
theorem getWithdrawInfo_zero (hi : OutRows c db) : getWithdrawInfo db 0 = none := by
  unfold getWithdrawInfo
  rw [hi.lookup_zero]
  rfl

/-- **The phases of a batch in a row.** An error among the keys is never found to be a replay. -/
theorem handlerWithdraw_batch (hi : OutRows c db) (h : batchWithdrawNewRequest r = some wc) :
    handlerWithdraw c env db (.batch r) = batchAnswer c env db r := by
  unfold batchWithdrawNewRequest at h
  split_ifs at h with hr
  obtain rfl := Option.some.inj h
  have hne : r.planchets ≠ [] := fun e => hr (.inl (by rw [e]; rfl))
  have hnew : (WithdrawRequest.batch r).newContext c env = some
      { reservePub := r.reservePub
        typ := .batch { planchets := r.planchets.map (·.context r.reservePub) } } := by
    simp only [WithdrawRequest.newContext, batchWithdrawNewRequest, if_neg hr]
  unfold handlerWithdraw
  rw [hnew]
  show answer c env (db, _) = _
  rw [answer_step]
  show answer c env (db, phaseCheckKeys c env _) = _
  unfold phaseCheckKeys batchAnswer
  cases env.keys with
  | none =>
    simp only
    rw [@answer_error_batch c env db { reservePub := r.reservePub, typ := _ } _ rfl,
      batchErrorReply_missing fun _ => ?_]
    · rfl
    · obtain ⟨p, hp⟩ := List.exists_mem_of_ne_nil _ hne
      exact ⟨p.context r.reservePub, List.mem_map_of_mem hp, getWithdrawInfo_zero hi⟩
  | some keys =>
    simp only [BatchRequest.checkKeys]
    cases hk : (batchCheckKeys c env keys Amount.zero
      (r.planchets.map (·.context r.reservePub))).2 with
    | error e =>
      rw [show batchCheckKeys c env keys Amount.zero (r.planchets.map (·.context r.reservePub)) =
        (_, .error e) from Prod.ext rfl hk]
      simp only
      rw [@answer_error_batch c env db { reservePub := r.reservePub, typ := _ } _ rfl,
        batchErrorReply_missing fun he => ?_]
      obtain ⟨pc, hpc, h0⟩ := batchCheckKeys_error hk he
      exact ⟨pc, hpc, by rw [h0]; exact getWithdrawInfo_zero hi⟩
    | ok total =>
      rw [show batchCheckKeys c env keys Amount.zero (r.planchets.map (·.context r.reservePub)) =
        (_, .ok total) from Prod.ext rfl hk]
      exact @answer_checked_batch c env db { reservePub := r.reservePub
                                             phase := .checkReserveSignature
                                             typ := _ } _ rfl rfl

/-! ### What a batch leaves -/

/-- What is found stays found. -/
theorem Keeps.found (h : Keeps db db') {k : HashCode} {s : Signature} (hf : Found db k s) :
    Found db' k s := by
  obtain ⟨col, hcol, rfl⟩ := hf
  unfold getWithdrawInfo at hcol
  simp only [Option.bind_eq_bind, Option.bind_eq_some_iff, Option.pure_def, Option.some.injEq] at hcol
  obtain ⟨o, ho, x, hx, d, hd, rfl⟩ := hcol
  obtain ⟨y, hy, -⟩ := Option.map_eq_some_iff.mp
    (h.owner (Option.map_eq_some_iff.mpr ⟨x, hx, rfl⟩ : db.uuidOwner o.reserveUuid = some x.reservePub))
  refine ⟨⟨d.denomPubHash, o.denomSig, o.reserveSig, y.reservePub, o.hBlindEv, o.amountWithFee⟩, ?_,
    rfl⟩
  simp [getWithdrawInfo, h.out ho, hy, h.serial hd]

theorem Found.hasKey {k : HashCode} {s : Signature} (hf : Found db k s) :
    db.reservesOut.hasKey k = true := by
  obtain ⟨col, hcol, -⟩ := hf
  unfold getWithdrawInfo at hcol
  simp only [Option.bind_eq_bind, Option.bind_eq_some_iff] at hcol
  obtain ⟨o, ho, -⟩ := hcol
  exact Table.hasKey_of_lookup ho

theorem StoredBatch.keeps {sigs : List Signature} (hs : StoredBatch c db r sigs) (h : Keeps db db') :
    StoredBatch c db' r sigs :=
  List.Forall₂.imp (fun _ _ hf => h.found hf) hs

/-- A planchet that was inserted is found, and nothing else changes for withdrawals. -/
theorem exchangeDoBatchWithdrawInsert_found {ruuid : ℕ} {now : Timestamp} {x : PlanchetArgs}
    (h : exchangeDoBatchWithdrawInsert db ruuid now x = .ok (db', false)) :
    Found db' x.hCoinEnvelope x.denomSig ∧ Keeps db db' := by
  unfold exchangeDoBatchWithdrawInsert at h
  split at h
  · cases h
  · next d hd =>
    split at h
    · cases h
    · next t ht =>
      split at h
      · cases h
      · next q hq =>
        simp only [bind_eq_ok, Database.addReserveHistory_eq_ok] at h
        obtain ⟨_, ⟨rh, -, -, rfl⟩, h⟩ := h
        cases pure_eq_ok.mp h
        have hserial : db.denominations.lookupSerial d.denominationsSerial = some d :=
          Table.lookupSerial_eq_some.mpr ⟨Table.mem_of_lookup hd, rfl⟩
        have hnew : t.lookup x.hCoinEnvelope = some _ := Table.lookup_insert?_self ht
        refine ⟨⟨⟨d.denomPubHash, x.denomSig, x.reserveSig, q.reservePub, x.hCoinEnvelope, x.amount⟩,
          ?_, rfl⟩, fun e => Table.lookup_insert?_of_some ht e, fun e => e, fun e => e, fun e => e,
          fun e => e⟩
        simp [getWithdrawInfo, hnew, hq, hserial]

/-- The insert fails for a planchet that is stored. -/
theorem insertPlanchets_stored {ruuid : ℕ} {now : Timestamp} {pc : PlanchetContext}
    {pcs : List PlanchetContext} (hd : db.denominations.hasKey pc.collectable.denomPubHash = true)
    (ho : db.reservesOut.hasKey pc.collectable.hCoinEnvelope = true) :
    insertPlanchets ruuid now db (pc :: pcs) = .error .batchIdempotentPlanchet := by
  obtain ⟨d, hd⟩ := Table.exists_lookup hd
  have hnone : db.reservesOut.insert? (fun i => ⟨i, pc.args.hCoinEnvelope, d.denominationsSerial,
      pc.args.denomSig, ruuid, pc.args.reserveSig, now, pc.args.amount⟩) = none :=
    Table.insert?_eq_none.mpr ho
  unfold insertPlanchets exchangeDoBatchWithdrawInsert
  rw [show pc.args.hDenomPub = pc.collectable.denomPubHash from rfl, hd]
  simp only [hnone]

/-- Planchets that were all inserted are found. -/
theorem insertPlanchets_found {ruuid : ℕ} {now : Timestamp} {pcs : List PlanchetContext}
    (h : insertPlanchets ruuid now db pcs = .ok db') :
    (∀ pc ∈ pcs, Found db' pc.collectable.hCoinEnvelope pc.collectable.sig) ∧ Keeps db db' := by
  induction pcs generalizing db with
  | nil =>
    cases h
    exact ⟨fun _ hpc => (nomatch hpc), .refl _⟩
  | cons pc pcs ih =>
    unfold insertPlanchets at h
    split at h
    · cases h
    · cases h
    · next db₁ h₁ =>
      obtain ⟨hf, hk⟩ := exchangeDoBatchWithdrawInsert_found h₁
      obtain ⟨hall, hk'⟩ := ih h
      refine ⟨fun pc' hpc' => ?_, hk.trans hk'⟩
      rcases List.mem_cons.mp hpc' with rfl | hm
      · exact hk'.found hf
      · exact hall pc' hm

theorem insertPlanchets_withdrawAll {ruuid : ℕ} {now : Timestamp} {pcs : List PlanchetContext}
    (h : insertPlanchets ruuid now db pcs = .ok db') :
    withdrawAll db ruuid now (pcs.map PlanchetContext.args) = some db' := by
  induction pcs generalizing db with
  | nil =>
    cases h
    rfl
  | cons pc pcs ih =>
    unfold insertPlanchets at h
    split at h
    · cases h
    · cases h
    · next db₁ h₁ =>
      simp only [List.map_cons, withdrawAll, h₁, commitIf]
      exact ih h

/-- A batch of hashed planchets that is inserted in one transaction. -/
def InsertsBatch (c : WithdrawCrypto) (db db' : Database) : Prop :=
  ∃ a xs, batchWithdraw db a xs = some db' ∧
    ∀ x ∈ xs, ∃ p, x.hCoinEnvelope = c.coinEvHash p x.hDenomPub

theorem forall₂_found {ps : List BatchPlanchet} {pcs : List PlanchetContext}
    (h : List.Forall₂ (Checked c) ps pcs)
    (hf : ∀ pc ∈ pcs, Found db pc.collectable.hCoinEnvelope pc.collectable.sig) :
    List.Forall₂ (fun p s => Found db (c.coinEvHash p.coinEv p.denomPubHash) s) ps
      (pcs.map fun pc => pc.collectable.sig) := by
  rw [← found_checked h]
  induction pcs generalizing ps with
  | nil => exact .nil
  | cons pc pcs ih =>
    cases h with
    | cons _ hrest =>
      exact .cons (hf pc List.mem_cons_self) (ih hrest fun pc' hm => hf pc' (List.mem_cons_of_mem _ hm))

/-- What a transaction leaves: nothing, or the coins of the batch with the signatures of the answer. -/
theorem batchTransact_stored {b : BatchContext} (h : List.Forall₂ (Checked c) r.planchets b.planchets) :
    ((batchTransact env db r.reservePub b).1 = db ∨
        InsertsBatch c db (batchTransact env db r.reservePub b).1) ∧
      ∀ sigs, (batchTransact env db r.reservePub b).2 = .batchOk sigs →
        StoredBatch c (batchTransact env db r.reservePub b).1 r sigs := by
  have hreply : ∀ e sigs, batchErrorReply db b.planchets e = .batchOk sigs → StoredBatch c db r sigs :=
    fun e sigs he => ((batchErrorReply_eq_batchOk h).mp he).2
  unfold batchTransact
  simp only
  split_ifs with h₁ h₂ h₃
  · exact ⟨.inl rfl, fun _ he => (nomatch he)⟩
  · exact ⟨.inl rfl, fun _ he => (nomatch he)⟩
  · exact ⟨.inl rfl, fun sigs he => hreply _ sigs he⟩
  · cases hins : insertPlanchets (exchangeDoBatchWithdraw db (b.args env r.reservePub)).2.ruuid env.now
      (exchangeDoBatchWithdraw db (b.args env r.reservePub)).1 b.planchets with
    | error e => exact ⟨.inl rfl, fun sigs he => hreply _ sigs he⟩
    | ok db' =>
      refine ⟨.inr ⟨b.args env r.reservePub, b.planchets.map PlanchetContext.args, ?_, ?_⟩, ?_⟩
      · unfold batchWithdraw
        simp only [Bool.not_eq_false] at h₁ h₂ h₃
        simp only [h₁, h₂, h₃, Bool.and_self, if_true]
        exact insertPlanchets_withdrawAll hins
      · intro x hx
        obtain ⟨pc, hpc, rfl⟩ := List.mem_map.mp hx
        obtain ⟨p, hp⟩ := checked_of_mem h hpc
        exact ⟨p.coinEv, hp.hash.trans (by rw [← hp.denom]; rfl)⟩
      · rintro sigs ⟨⟩
        exact forall₂_found h (insertPlanchets_found hins).1

/-- The signatures do not change the hashes. -/
theorem signPlanchets_checked {ps : List BatchPlanchet} {pcs pcs' : List PlanchetContext}
    (hs : signPlanchets env pcs = some pcs') (h : List.Forall₂ (Checked c) ps pcs) :
    List.Forall₂ (Checked c) ps pcs' := by
  induction h generalizing pcs' with
  | nil =>
    cases hs
    exact .nil
  | @cons p pc ps pcs hp _ ih =>
    simp only [signPlanchets, List.mapM_cons, Option.bind_eq_bind, Option.bind_eq_some_iff,
      Option.map_eq_some_iff, Option.pure_def, Option.some.injEq] at hs
    obtain ⟨_, ⟨s, -, rfl⟩, pcs'', hrest, rfl⟩ := hs
    exact .cons ⟨hp.planchet, hp.denom, hp.hash⟩ (ih hrest)

theorem signPlanchets_isSome {ps : List BatchPlanchet} {pcs : List PlanchetContext}
    (h : List.Forall₂ (Checked c) ps pcs) : (∃ pcs', signPlanchets env pcs = some pcs') ↔
      ∀ p ∈ ps, (env.sign p.denomPubHash p.coinEv).isSome = true := by
  induction h with
  | nil => exact ⟨fun _ _ hp => (nomatch hp), fun _ => ⟨[], rfl⟩⟩
  | @cons p pc ps pcs hp _ ih =>
    rw [List.forall_mem_cons, ← ih]
    unfold signPlanchets
    simp only [List.mapM_cons, Option.bind_eq_bind, Option.bind_eq_some_iff, Option.map_eq_some_iff,
      Option.pure_def, Option.some.injEq, hp.denom, hp.planchet, Option.isSome_iff_exists]
    constructor
    · rintro ⟨_, _, ⟨s, hs, rfl⟩, pcs'', hrest, rfl⟩
      exact ⟨⟨s, hs⟩, pcs'', hrest⟩
    · rintro ⟨⟨s, hs⟩, pcs'', hrest⟩
      exact ⟨_, _, ⟨s, hs, rfl⟩, pcs'', hrest, rfl⟩

/-- What the phases after the check of the keys leave. -/
theorem batchChecked_stored {b : BatchContext} (h : List.Forall₂ (Checked c) r.planchets b.planchets) :
    ((batchChecked env db r.reservePub b).1 = db ∨
        InsertsBatch c db (batchChecked env db r.reservePub b).1) ∧
      ∀ sigs, (batchChecked env db r.reservePub b).2 = .batchOk sigs →
        StoredBatch c (batchChecked env db r.reservePub b).1 r sigs := by
  unfold batchChecked
  split_ifs
  · exact ⟨.inl rfl, fun _ he => (nomatch he)⟩
  · exact ⟨.inl rfl, fun sigs he => ((batchErrorReply_eq_batchOk h).mp he).2⟩
  · cases hs : signPlanchets env b.planchets with
    | none => exact ⟨.inl rfl, fun _ he => (nomatch he)⟩
    | some pcs =>
      have hpcs : List.Forall₂ (Checked c) r.planchets pcs := signPlanchets_checked hs h
      exact @batchTransact_stored c env db r { b with planchets := pcs } hpcs

/-- **What a batch leaves**: nothing, or its coins; and they are stored with the signatures of the
answer. -/
theorem batchAnswer_stored (db : Database) (r : BatchRequest) :
    ((batchAnswer c env db r).1 = db ∨ InsertsBatch c db (batchAnswer c env db r).1) ∧
      ∀ sigs, (batchAnswer c env db r).2 = .batchOk sigs →
        StoredBatch c (batchAnswer c env db r).1 r sigs := by
  unfold batchAnswer
  cases env.keys with
  | none => exact ⟨.inl rfl, fun _ he => (nomatch he)⟩
  | some keys =>
    simp only
    cases hk : r.checkKeys c env keys with
    | mk pcs res =>
      cases res with
      | error e => exact ⟨.inl rfl, fun sigs he => absurd he (e.reply_ne_batchOk sigs)⟩
      | ok total =>
        have hc := @batchCheckKeys_ok c env keys r.planchets r.reservePub Amount.zero total
          (congrArg Prod.snd hk)
        rw [show (batchCheckKeys c env keys Amount.zero (r.planchets.map (·.context r.reservePub))).1 =
          pcs from congrArg Prod.fst hk] at hc
        exact @batchChecked_stored c env db r ⟨pcs, total⟩ hc

/-! ### Replays of a batch -/

/-- The reserve is known, and batches may be withdrawn from it whatever the age of its owner. -/
def BatchReserveOk (env : WithdrawEnv) (db : Database) (r : ReservePub) : Prop :=
  ∃ x, db.reserves.lookup r = some x ∧ (env.ageRestrictionEnabled = true → x.birthday = 0)

/-- The legitimization check has no response of its own; and it requires KYC, or the coins can be
signed and the reserve can be used. -/
def BatchCheckedOk (env : WithdrawEnv) (db : Database) (r : BatchRequest) : Prop :=
  (db.hasOrigin r.reservePub = true → env.legi ≠ .response) ∧
  (db.hasOrigin r.reservePub = true ∧ env.legi = .kyc false ∨
    (∀ p ∈ r.planchets, (env.sign p.denomPubHash p.coinEv).isSome = true) ∧
      BatchReserveOk env db r.reservePub)

variable (c env db r) in
/-- **When a replay of a batch is answered**: the exchange has keys, and the denominations are known,
valid, not revoked and of the ciphers of the planchets; and nothing ends it afterwards that is not
checked for replays. -/
def BatchReplayOk : Prop :=
  (∃ keys total, env.keys = some keys ∧ (r.checkKeys c env keys).2 = .ok total) ∧
    BatchCheckedOk env db r

/-- A debit changes nothing but the reserves. -/
theorem exchangeDoBatchWithdraw_frame (db : Database) (a : BatchWithdrawArgs) :
    (exchangeDoBatchWithdraw db a).1 =
      { db with reserves := (exchangeDoBatchWithdraw db a).1.reserves } := by
  unfold exchangeDoBatchWithdraw
  split
  · rfl
  · split
    · split <;> rfl
    · rfl

theorem exchangeDoBatchWithdraw_ok (db : Database) (b : BatchContext) (x : ReservePub) :
    (exchangeDoBatchWithdraw db (b.args env x)).2.reserveFound = true ∧
      (exchangeDoBatchWithdraw db (b.args env x)).2.ageOk = true ↔ BatchReserveOk env db x := by
  unfold exchangeDoBatchWithdraw BatchReserveOk BatchContext.args
  cases hx : db.reserves.lookup x with
  | none => simp
  | some y =>
    simp only [Option.some.injEq, exists_eq_left']
    by_cases ha : env.ageRestrictionEnabled = true
    · by_cases hb : y.birthday = 0
      · simp only [ha, hb, decide_true, Bool.not_true, Bool.false_or, if_true, forall_const, iff_true]
        split <;> exact ⟨rfl, rfl⟩
      · simp [ha, hb]
    · simp only [ha, Bool.not_false, Bool.true_or, if_true, false_implies, iff_true, Bool.false_eq_true]
      split <;> exact ⟨rfl, rfl⟩

/-- The first coin of a replay is stored already. -/
theorem insertPlanchets_replay {ruuid : ℕ} {now : Timestamp} {pcs : List PlanchetContext}
    {sigs : List Signature} {rs : Table Reserve} (hi : OutRows c db)
    (h : List.Forall₂ (Checked c) r.planchets pcs) (hne : r.planchets ≠ [])
    (hs : StoredBatch c db r sigs) :
    insertPlanchets ruuid now { db with reserves := rs } pcs = .error .batchIdempotentPlanchet := by
  unfold StoredBatch at hs
  generalize r.planchets = ps at h hne hs
  cases h with
  | nil => exact absurd rfl hne
  | cons hp _ =>
    cases hs with
    | cons hf _ =>
      have hkey := hf.hasKey
      refine insertPlanchets_stored ?_ (by rw [hp.hash]; exact hkey)
      rw [hp.denom]
      exact hi.hasKey hkey

/-- The transaction of a replay. -/
theorem batchTransact_replay {b : BatchContext} {sigs : List Signature} (hi : OutRows c db)
    (h : List.Forall₂ (Checked c) r.planchets b.planchets) (hne : r.planchets ≠ [])
    (hs : StoredBatch c db r sigs) :
    BatchReserveOk env db r.reservePub ∧ batchTransact env db r.reservePub b = (db, .batchOk sigs) ∨
      ¬ BatchReserveOk env db r.reservePub ∧
        ∃ e : WithdrawError, batchTransact env db r.reservePub b = (db, e.reply) := by
  have hok := @exchangeDoBatchWithdraw_ok env db b r.reservePub
  unfold batchTransact
  simp only
  split_ifs with h₁ h₂ h₃
  · exact .inr ⟨fun hr => absurd (hok.mpr hr).1 (by simp [h₁]), .reserveUnknown, rfl⟩
  · exact .inr ⟨fun hr => absurd (hok.mpr hr).2 (by simp [h₂]), .ageRestrictionRequired, rfl⟩
  · refine .inl ⟨hok.mp ⟨by simpa using h₁, by simpa using h₂⟩, ?_⟩
    rw [(batchErrorReply_eq_batchOk h).mpr ⟨rfl, hs⟩]
  · refine .inl ⟨hok.mp ⟨by simpa using h₁, by simpa using h₂⟩, ?_⟩
    have hins : insertPlanchets (exchangeDoBatchWithdraw db (b.args env r.reservePub)).2.ruuid env.now
        (exchangeDoBatchWithdraw db (b.args env r.reservePub)).1 b.planchets =
          .error .batchIdempotentPlanchet := by
      rw [exchangeDoBatchWithdraw_frame]
      exact insertPlanchets_replay hi h hne hs
    simp only [hins]
    rw [(batchErrorReply_eq_batchOk h).mpr ⟨rfl, hs⟩]

/-- The phases of a replay after its keys were checked. -/
theorem batchChecked_replay {b : BatchContext} {sigs : List Signature} (hi : OutRows c db)
    (h : List.Forall₂ (Checked c) r.planchets b.planchets) (hne : r.planchets ≠ [])
    (hs : StoredBatch c db r sigs) :
    BatchCheckedOk env db r ∧ batchChecked env db r.reservePub b = (db, .batchOk sigs) ∨
      ¬ BatchCheckedOk env db r ∧
        ∃ e : WithdrawError, batchChecked env db r.reservePub b = (db, e.reply) := by
  unfold batchChecked
  split_ifs with h₁ h₂
  · exact .inr ⟨fun hk => hk.1 h₁.1 h₁.2, .legitimizationResult, rfl⟩
  · refine .inl ⟨⟨fun _ hl => ?_, .inl h₂⟩, ?_⟩
    · rw [hl] at h₂
      cases h₂.2
    · rw [(batchErrorReply_eq_batchOk h).mpr ⟨rfl, hs⟩]
  · have hlegi : db.hasOrigin r.reservePub = true → env.legi ≠ .response := fun ho hl => h₁ ⟨ho, hl⟩
    cases hsign : signPlanchets env b.planchets with
    | none =>
      refine .inr ⟨?_, .denominationBatchSign, rfl⟩
      rintro ⟨-, hk | ⟨hall, -⟩⟩
      · exact h₂ hk
      · obtain ⟨pcs, hpcs⟩ := (signPlanchets_isSome h).mpr hall
        exact absurd (hsign.symm.trans hpcs) (by simp)
    | some pcs =>
      have hall := (signPlanchets_isSome h).mp ⟨pcs, hsign⟩
      rcases @batchTransact_replay c env db r { b with planchets := pcs } sigs hi
        (signPlanchets_checked hsign h) hne hs with ⟨hr, he⟩ | ⟨hr, he⟩
      · exact .inl ⟨⟨hlegi, .inr ⟨hall, hr⟩⟩, he⟩
      · exact .inr ⟨fun hk => hk.2.elim h₂ fun hk => hr hk.2, he⟩

/-- **A replay of a batch** is answered as before, or with an error; it changes nothing. -/
theorem batchAnswer_replay {sigs : List Signature} (hi : OutRows c db) (hne : r.planchets ≠ [])
    (hs : StoredBatch c db r sigs) :
    BatchReplayOk c env db r ∧ batchAnswer c env db r = (db, .batchOk sigs) ∨
      ¬ BatchReplayOk c env db r ∧ ∃ e : WithdrawError, batchAnswer c env db r = (db, e.reply) := by
  unfold batchAnswer BatchReplayOk
  cases hkeys : env.keys with
  | none => exact .inr ⟨fun ⟨⟨_, _, hk, _⟩, _⟩ => (nomatch hk), .keysMissing, rfl⟩
  | some keys =>
    simp only
    cases hk : r.checkKeys c env keys with
    | mk pcs res =>
      cases res with
      | error e =>
        refine .inr ⟨?_, e, rfl⟩
        rintro ⟨⟨keys', total, hk', ht⟩, -⟩
        obtain rfl := Option.some.inj hk'
        rw [hk] at ht
        cases ht
      | ok total =>
        have hc := @batchCheckKeys_ok c env keys r.planchets r.reservePub Amount.zero total
          (congrArg Prod.snd hk)
        rw [show (batchCheckKeys c env keys Amount.zero (r.planchets.map (·.context r.reservePub))).1 =
          pcs from congrArg Prod.fst hk] at hc
        rcases @batchChecked_replay c env db r ⟨pcs, total⟩ sigs hi hc hne hs with ⟨ho, he⟩ | ⟨ho, he⟩
        · exact .inl ⟨⟨⟨keys, total, rfl, by rw [hk]⟩, ho⟩, he⟩
        · exact .inr ⟨fun h => ho h.2, he⟩

end Batch

end TalerExchange
