import TalerExchange.History.Retry
import TalerExchange.Withdraw.Handler

/-!
# The loop of a withdrawal when queries fail

`withdrawStep` is a turn of `handler_withdraw` whose queries are answered. Here a query of the turn may
fail, with a hard or a soft error. Every error ends the request but one: the soft error of the look-up
of an age-restricted withdrawal leaves the phase as it is, and the loop repeats it without a bound.

* `TurnFault`: the queries of a turn that may fail; `withdrawTurn`: the turn;
* `Stalls`: a turn after which the request stands where it stood;
* **`withdrawTurn_rank`**: every other turn brings the loop closer to its end;
* **`withdrawLoop_ends`**: the loop ends unless it stalls for ever.
-/

namespace TalerExchange

open Sql

/-! ## Turns -/

/-- What fails in a turn: the query for the origin of the reserve, one in the transaction, the
transaction itself when it starts or commits, or after its last soft error, or a query of the check
for a replay, for a batch the one for a coin. -/
inductive TurnFault
  | origin
  | query
  | transaction
  | idempotency (e : QueryError) (coin : ℕ)
deriving DecidableEq, Repr

/-- The loop of `batch_withdraw_check_idempotency` if the query for a coin fails; `none` if it is not
made. -/
def batchIdempotencyFailed (db : Database) :
    ℕ → List PlanchetContext → Option (List PlanchetContext)
  | _, [] => none
  | 0, pc :: pcs => some (pc :: pcs)
  | i + 1, pc :: pcs =>
    match getWithdrawInfo db pc.collectable.hCoinEnvelope with
    | none => none
    | some col => (batchIdempotencyFailed db i pcs).map fun pcs =>
        { pc with collectable := col } :: pcs

section Turns

variable (c : WithdrawCrypto) (env : WithdrawEnv)

/-- `check_idempotency` if a query fails. For an age-restricted withdrawal a soft error sets none. -/
def checkIdempotencyFailed (e : QueryError) (coin : ℕ) (db : Database) (wc : WithdrawContext) :
    WithdrawContext × Bool :=
  match wc.typ with
  | .batch b =>
    match batchIdempotencyFailed db coin b.planchets with
    | none => checkIdempotency env db wc
    | some pcs => ({ wc with typ := .batch { b with planchets := pcs } }.setError .dbFetchFailed, true)
  | .age _ =>
    match e with
    | .hard => (wc.setError .dbFetchFailed, true)
    | .soft => (wc, true)

/-- `age_withdraw_transaction` if the look-up of the conflicting withdrawal fails. After a soft error
the phase is the same, and `phase_run_transaction` returns what no reply has set. -/
def runAgeWithdrawFailed (e : QueryError) (db : Database) (wc : WithdrawContext) (a : AgeContext) :
    Database × WithdrawContext :=
  let r := exchangeDoAgeWithdraw db (a.args env)
  if r.2.reserveFound ∧ r.2.ageOk ∧ r.2.balanceOk ∧ r.2.conflict then
    match e with
    | .hard => (db, wc.setError .dbFetchFailed)
    | .soft => (db, wc.finishLoop .noReply)
  else runAgeWithdraw env db wc a

/-- **One turn of the loop** in which a query may fail. -/
def withdrawTurn (f : Option TurnFault) (s : Database × WithdrawContext) :
    Database × WithdrawContext :=
  match f, s.2.phase, s.2.typ with
  | some .origin, .runLegiCheck, _ => (s.1, s.2.setError .dbFetchFailed)
  | some .query, .runTransaction, _ => (s.1, s.2.setError .dbFetchFailed)
  | some .transaction, .runTransaction, _ => (s.1, s.2.finishLoop .dbError)
  | some (.idempotency e _), .runTransaction, .age a => runAgeWithdrawFailed env e s.1 s.2 a
  | some (.idempotency e coin), .generateReplyError, _ =>
    (s.1, s.2.generateReplyError (checkIdempotencyFailed env e coin s.1 s.2))
  | _, _, _ => withdrawStep c env s

/-- The request after some turns. -/
def withdrawTurns (fs : ℕ → Option TurnFault) (s : Database × WithdrawContext) :
    ℕ → Database × WithdrawContext
  | 0 => s
  | n + 1 => withdrawTurn c env (fs n) (withdrawTurns fs s n)

/-- The loop stands where it stood: it replies to a malformed parameter, or the look-up of an
age-restricted withdrawal has failed with a soft error. -/
def WithdrawContext.Stalls (wc : WithdrawContext) (f : Option TurnFault) : Prop :=
  wc.phase = .generateReplyError ∧
    (wc.error = .requestParameterMalformed ∨
      wc.error.needsIdempotencyCheck = true ∧ (∃ a, wc.typ = .age a) ∧
        ∃ coin, f = some (.idempotency .soft coin))

end Turns

/-! ## The end of the loop -/

section Loop

variable {c : WithdrawCrypto} {env : WithdrawEnv} {f : Option TurnFault}
  {fs : ℕ → Option TurnFault} {s : Database × WithdrawContext} {wc : WithdrawContext}

/-- An answered turn does nothing only at the end, or for a malformed parameter. -/
theorem withdrawStep_progress (f : Option TurnFault) (s : Database × WithdrawContext) :
    (withdrawStep c env s).2.rank < s.2.rank ∨
      withdrawStep c env s = s ∧ ((∃ r, s.2.phase = .returned r) ∨ s.2.Stalls f) := by
  rcases @withdrawStep_rank c env s with hlt | ⟨he, hr | ⟨hp, hm⟩⟩
  · exact .inl hlt
  · exact .inr ⟨he, .inl hr⟩
  · exact .inr ⟨he, .inr ⟨hp, .inl hm⟩⟩

theorem rank_runAgeWithdrawFailed_le (e : QueryError) (db : Database) {a : AgeContext}
    (ha : wc.typ = .age a) : (runAgeWithdrawFailed env e db wc a).2.rank ≤ 3 := by
  unfold runAgeWithdrawFailed
  simp only
  split_ifs
  · cases e with
    | hard => exact rank_setError_le ..
    | soft => exact Nat.zero_le 3
  · have hle := @rank_phaseRunTransaction_le env wc db
    simp only [phaseRunTransaction, ha] at hle
    exact hle

/-- The failing check of a batch goes on to a reply or leaves the error as it is. -/
theorem checkIdempotencyFailed_batch {b : BatchContext} (hb : wc.typ = .batch b) (e : QueryError)
    (coin : ℕ) (db : Database) :
    ((checkIdempotencyFailed env e coin db wc).2 = true →
        (checkIdempotencyFailed env e coin db wc).1.rank < 3) ∧
      ((checkIdempotencyFailed env e coin db wc).2 = false →
        (checkIdempotencyFailed env e coin db wc).1.error = wc.error) := by
  unfold checkIdempotencyFailed
  simp only [hb]
  cases batchIdempotencyFailed db coin b.planchets with
  | none => exact ⟨rank_checkIdempotency db, checkIdempotency_error db⟩
  | some pcs => exact ⟨fun _ => Nat.lt_of_succ_lt (Nat.lt_succ_self 2), by rintro ⟨⟩⟩

/-- The reply to an error while the check for a replay fails. -/
theorem generateReplyError_progress (e : QueryError) (coin : ℕ) (db : Database)
    (hp : wc.phase = .generateReplyError) :
    (wc.generateReplyError (checkIdempotencyFailed env e coin db wc)).rank < wc.rank ∨
      wc.generateReplyError (checkIdempotencyFailed env e coin db wc) = wc ∧
        wc.Stalls (some (.idempotency e coin)) := by
  by_cases he : wc.error = .requestParameterMalformed
  · exact .inr ⟨generateReplyError_malformed _ he, hp, .inl he⟩
  · cases ht : wc.typ with
    | batch b =>
      obtain ⟨hgo, hstay⟩ := @checkIdempotencyFailed_batch env wc b ht e coin db
      exact .inl (rank_generateReplyError_lt hp he hgo hstay)
    | age a =>
      have hcheck : checkIdempotencyFailed env e coin db wc =
          match e with
          | .hard => (wc.setError .dbFetchFailed, true)
          | .soft => (wc, true) := by
        simp only [checkIdempotencyFailed, ht]
      rw [hcheck]
      cases e with
      | hard =>
        exact .inl (rank_generateReplyError_lt hp he
          (fun _ => Nat.lt_of_succ_lt (Nat.lt_succ_self 2)) (by rintro ⟨⟩))
      | soft =>
        by_cases hn : wc.error.needsIdempotencyCheck = true
        · exact .inr ⟨by simp only [WithdrawContext.generateReplyError, hn, if_true],
            hp, .inr ⟨hn, ⟨a, ht⟩, coin, rfl⟩⟩
        · refine .inl ?_
          have hr : wc.rank = 1 := by simp only [WithdrawContext.rank, hp, if_neg hn]
          rw [WithdrawContext.generateReplyError, if_neg hn, replyError_eq he, hr]
          exact Nat.succ_pos 0

/-- **Every turn that does not stall brings the loop closer to its end.** -/
theorem withdrawTurn_rank (f : Option TurnFault) (s : Database × WithdrawContext) :
    (withdrawTurn c env f s).2.rank < s.2.rank ∨
      withdrawTurn c env f s = s ∧ ((∃ r, s.2.phase = .returned r) ∨ s.2.Stalls f) := by
  have hserved := @withdrawStep_progress c env f s
  unfold withdrawTurn
  split
  · next hp =>
    have hr : s.2.rank = 8 := by simp only [WithdrawContext.rank, hp]
    rw [hr]
    exact .inl (Nat.lt_of_lt_of_le (Nat.lt_succ_self 1) (by omega))
  · next hp =>
    have hr : s.2.rank = 4 := by simp only [WithdrawContext.rank, hp]
    rw [hr]
    exact .inl (Nat.lt_of_lt_of_le (Nat.lt_succ_self 1) (by omega))
  · next hp =>
    have hr : s.2.rank = 4 := by simp only [WithdrawContext.rank, hp]
    rw [hr]
    exact .inl (Nat.succ_pos 3)
  · next e _ a hp ht =>
    have hr : s.2.rank = 4 := by simp only [WithdrawContext.rank, hp]
    rw [hr]
    exact .inl (Nat.lt_succ_of_le (rank_runAgeWithdrawFailed_le e s.1 ht))
  · next e coin hp =>
    rcases @generateReplyError_progress env s.2 e coin s.1 hp with hlt | ⟨he, hs⟩
    · exact .inl hlt
    · exact .inr ⟨Prod.ext rfl he, .inr hs⟩
  · exact hserved

theorem withdrawTurns_rank_le {m n : ℕ} (h : m ≤ n) :
    (withdrawTurns c env fs s n).2.rank ≤ (withdrawTurns c env fs s m).2.rank := by
  induction n, h using Nat.le_induction with
  | base => exact le_rfl
  | succ n _ ih =>
    rcases @withdrawTurn_rank c env (fs n) (withdrawTurns c env fs s n) with hlt | ⟨he, -⟩
    · exact hlt.le.trans ih
    · rw [withdrawTurns, he]
      exact ih

theorem withdrawTurns_returned {m n : ℕ} {r : WithdrawReply} (h : m ≤ n)
    (hr : (withdrawTurns c env fs s m).2.phase = .returned r) :
    (withdrawTurns c env fs s n).2.phase = .returned r := by
  induction n, h using Nat.le_induction with
  | base => exact hr
  | succ n _ ih =>
    have h0 : (withdrawTurns c env fs s n).2.rank = 0 := by simp only [WithdrawContext.rank, ih]
    rcases @withdrawTurn_rank c env (fs n) (withdrawTurns c env fs s n) with hlt | ⟨he, -⟩
    · rw [h0] at hlt
      cases hlt
    · rw [withdrawTurns, he]
      exact ih

/-- A loop that does not stall for ever ends, from every turn on. -/
theorem exists_returned (h : ∀ m, ∃ n, m ≤ n ∧ ¬ (withdrawTurns c env fs s n).2.Stalls (fs n)) (m : ℕ) :
    ∃ n r, (withdrawTurns c env fs s n).2.phase = .returned r := by
  induction hk : (withdrawTurns c env fs s m).2.rank using Nat.strong_induction_on generalizing m with
  | _ k ih =>
    obtain ⟨n, hmn, hn⟩ := h m
    rcases @withdrawTurn_rank c env (fs n) (withdrawTurns c env fs s n) with hlt | ⟨-, ⟨r, hr⟩ | hs⟩
    · have hle : (withdrawTurns c env fs s n).2.rank ≤ k := hk ▸ withdrawTurns_rank_le hmn
      exact ih _ (hlt.trans_le hle) (n + 1) rfl
    · exact ⟨n, r, hr⟩
    · exact absurd hs hn

theorem rank_eq_zero (h : wc.rank = 0) : ∃ r, wc.phase = .returned r := by
  cases hp : wc.phase with
  | returned r => exact ⟨r, rfl⟩
  | generateReplyError =>
    simp only [WithdrawContext.rank, hp] at h
    split_ifs at h
  | _ => simp [WithdrawContext.rank, hp] at h

/-- As long as it does not stall, the loop is closer to its end by every turn. -/
theorem withdrawTurns_rank {n : ℕ} (h : ∀ m < n, ¬ (withdrawTurns c env fs s m).2.Stalls (fs m)) :
    (withdrawTurns c env fs s n).2.rank ≤ s.2.rank - n := by
  induction n with
  | zero => exact le_rfl
  | succ n ih =>
    have hle := ih fun m hm => h m (Nat.lt_succ_of_lt hm)
    rcases @withdrawTurn_rank c env (fs n) (withdrawTurns c env fs s n) with hlt | ⟨he, ⟨r, hr⟩ | hs⟩
    · rw [withdrawTurns]
      omega
    · have h0 : (withdrawTurns c env fs s n).2.rank = 0 := by simp only [WithdrawContext.rank, hr]
      rw [withdrawTurns, he, h0]
      exact Nat.zero_le _
    · exact absurd hs (h n (Nat.lt_succ_self n))

/-- A turn that stalls leaves the request as it is, and the database. -/
theorem withdrawTurn_of_stalls (h : s.2.Stalls f) : withdrawTurn c env f s = s := by
  obtain ⟨hp, hm | ⟨hn, ⟨a, ha⟩, coin, rfl⟩⟩ := h
  · have hfix : withdrawStep c env s = s := by
      simp only [withdrawStep, hp, phaseGenerateReplyError, generateReplyError_malformed _ hm]
    unfold withdrawTurn
    split
    · next hp' => cases hp.symm.trans hp'
    · next hp' => cases hp.symm.trans hp'
    · next hp' => cases hp.symm.trans hp'
    · next hp' _ => cases hp.symm.trans hp'
    · exact Prod.ext rfl (generateReplyError_malformed _ hm)
    · exact hfix
  · simp only [withdrawTurn, hp]
    refine Prod.ext rfl ?_
    simp only [WithdrawContext.generateReplyError, checkIdempotencyFailed, hn, ha, if_true]

/-- **The loop ends with an answer if and only if it does not stall for ever**, from every phase and
state and whatever fails; a turn that stalls changes nothing, and without one the loop ends after as
many turns as the rank says. -/
theorem withdrawLoop_ends (c : WithdrawCrypto) (env : WithdrawEnv) (fs : ℕ → Option TurnFault)
    (s : Database × WithdrawContext) :
    ((∃ n r, (withdrawTurns c env fs s n).2.phase = .returned r) ↔
        ∀ m, ∃ n, m ≤ n ∧ ¬ (withdrawTurns c env fs s n).2.Stalls (fs n)) ∧
      (∀ f, s.2.Stalls f → withdrawTurn c env f s = s) ∧
      ((∀ n < s.2.rank, ¬ (withdrawTurns c env fs s n).2.Stalls (fs n)) →
        ∃ r, (withdrawTurns c env fs s s.2.rank).2.phase = .returned r) := by
  refine ⟨⟨?_, fun h => exists_returned h 0⟩, fun f => withdrawTurn_of_stalls, fun h => ?_⟩
  · rintro ⟨n, r, hr⟩ m
    refine ⟨max m n, le_max_left m n, fun hs => ?_⟩
    have hret := withdrawTurns_returned (le_max_right m n) hr
    rw [hs.1] at hret
    cases hret
  · have hle := withdrawTurns_rank h
    rw [Nat.sub_self] at hle
    exact rank_eq_zero (Nat.le_zero.mp hle)

end Loop

end TalerExchange
