import Mathlib.Logic.Equiv.List
import TalerExchange.Withdraw.Age

/-!
# Replays of withdraw requests

A request that was answered with success is to be answered with success again, whenever it is
repeated, without a debit and with the same result.

* `WithdrawInv`, **`withdrawServe_inv`**: what every event keeps; `run_withdraw` for runs;
* `ReplayFaithful`: what a replay is to be answered with; `ReplayOk`: the condition;
* **`replay_iff`**: a replay is faithful if and only if the condition holds when it arrives;
* sample runs: a batch whose denomination has expired, an age-restricted withdrawal with another index.
-/

namespace TalerExchange

open Sql Transition

/-! ## Runs of the server -/

/-- What every event keeps. -/
structure WithdrawInv (c : WithdrawCrypto) (db : Database) : Prop where
  merges : MergesHavePurse db
  coins : CoinsSound db.toCoinTables
  rows : OutRows c db

section Runs

variable {c : WithdrawCrypto} {env : WithdrawEnv} {db db' : Database}

theorem withdrawInv_empty : WithdrawInv c Database.empty :=
  ⟨fun _ h => (nomatch h), fun _ h => (nomatch h), fun _ h => (nomatch h)⟩

theorem WithdrawInv.path (hi : WithdrawInv c db)
    (h : Path Posts (fun _ p => WithdrawPostingOk c p) db db') :
    WithdrawInv c db' ∧ Keeps db db' :=
  h.invariant (I := fun s => WithdrawInv c s ∧ Keeps db s)
    (fun _ _ _ hC hp ⟨hi, hk⟩ =>
      ⟨⟨hp.mergesHavePurse hi.merges, hp.coinsSound hi.coins, hp.outRows hC hi.coins hi.rows⟩,
        hk.trans (hp.keeps hi.coins)⟩)
    ⟨hi, .refl db⟩

/-- Other operations record no batch. -/
theorem withdrawPostingOk_of_emits {o : Op} {s : Database} {p : Posting} (ho : o.isWithdrawal = false)
    (h : Emits db o s p) : WithdrawPostingOk c p := by
  cases p with
  | withdraw a xs =>
    obtain ⟨-, rfl⟩ := emits_withdraw h
    cases ho
  | _ => trivial

theorem handlerWithdraw_path (hi : WithdrawInv c db) (req : WithdrawRequest) :
    Path Posts (fun _ p => WithdrawPostingOk c p) db (handlerWithdraw c env db req).1 := by
  cases hn : req.newContext c env with
  | none =>
    unfold handlerWithdraw
    rw [hn]
    exact .refl db
  | some wc =>
    cases req with
    | batch r =>
      rw [handlerWithdraw_batch hi.rows hn]
      rcases (@batchAnswer_stored c env db r).1 with he | ⟨a, xs, hw, hx⟩
      · rw [he]
        exact .refl db
      · exact batchWithdraw_path hx hw
    | age r =>
      obtain ⟨a, ha⟩ := ageWithdrawNewRequest_starts hn
      rw [handlerWithdraw_age ha]
      rcases @ageAnswer_left c env db a with he | ⟨x, -, hw⟩
      · rw [he]
        exact .refl db
      · exact ageWithdraw_path trivial trivial hw

/-- **Every event keeps the invariant and what is stored for withdrawals.** -/
theorem withdrawServe_inv (hi : WithdrawInv c db) (e : WithdrawEvent) :
    WithdrawInv c (withdrawServe c db e) ∧ Keeps db (withdrawServe c db e) := by
  cases e with
  | op o =>
    simp only [withdrawServe]
    split_ifs with ho
    · exact ⟨hi, .refl db⟩
    · exact hi.path (step_path hi.merges fun s p he =>
        withdrawPostingOk_of_emits (Bool.eq_false_of_not_eq_true ho) he)
  | kycAttributes a => exact ⟨⟨hi.merges, hi.coins, hi.rows⟩, keeps_persistKycAttributes db a⟩
  | withdraw env req => exact hi.path (handlerWithdraw_path hi req)

/-- **A run keeps them.** -/
theorem run_withdraw (hi : WithdrawInv c db) (es : List WithdrawEvent) :
    WithdrawInv c (run (withdrawServe c) db es) ∧ Keeps db (run (withdrawServe c) db es) :=
  run_invariant (I := fun s => WithdrawInv c s ∧ Keeps db s)
    (fun _ e _ ⟨hi, hk⟩ => ⟨(withdrawServe_inv hi e).1, hk.trans (withdrawServe_inv hi e).2⟩)
    (admits_true es) ⟨hi, .refl db⟩

end Runs

/-! ## Faithful replays -/

/-- The answer is one of success. -/
def WithdrawReply.isOk : WithdrawReply → Bool
  | .batchOk _ | .ageOk _ => true
  | _ => false

/-- **A faithful replay**: the signatures of the first answer, or the index that is stored and that the
coins are revealed for; and no debit. -/
def ReplayFaithful (c : WithdrawCrypto) (env : WithdrawEnv) (db : Database) (first : WithdrawReply)
    (req : WithdrawRequest) : Prop :=
  (∀ x, (handlerWithdraw c env db req).1.balanceOf x = db.balanceOf x) ∧
  match req with
  | .batch _ => (handlerWithdraw c env db req).2 = first
  | .age r => ∃ h d, r.hCommitment c = some h ∧
      getAgeWithdraw env.order (handlerWithdraw c env db req).1 r.reservePub h = .ok (some d) ∧
        (handlerWithdraw c env db req).2 = .ageOk d.noRevealIndex

/-- **When a replay is faithful.** -/
def ReplayOk (c : WithdrawCrypto) (env : WithdrawEnv) (db : Database) : WithdrawRequest → Prop
  | .batch r => BatchReplayOk c env db r
  | .age r => ∃ a d, r.Starts c env a ∧
      getAgeWithdraw env.order db a.commitment.reservePub a.commitment.hCommitment = .ok (some d) ∧
        AgeReplayOk c env db a d.noRevealIndex

section Replay

variable {c : WithdrawCrypto} {env : WithdrawEnv} {db : Database}

/-- Batches are not answered with an index. -/
theorem batchAnswer_ne_ageOk (db : Database) (r : BatchRequest) (i : ℕ) :
    (batchAnswer c env db r).2 ≠ .ageOk i := by
  have herr : ∀ (db : Database) pcs e, batchErrorReply db pcs e ≠ .ageOk i := fun db pcs e => by
    unfold batchErrorReply
    split_ifs
    · exact fun h => (nomatch h)
    · exact e.reply_ne_ageOk i
  have htr : ∀ b, (batchTransact env db r.reservePub b).2 ≠ .ageOk i := fun b => by
    unfold batchTransact
    dsimp only
    split_ifs
    · exact fun h => (nomatch h)
    · exact fun h => (nomatch h)
    · exact herr _ _ _
    · split
      · exact herr _ _ _
      · exact fun h => (nomatch h)
  unfold batchAnswer
  split
  · exact fun h => (nomatch h)
  · split
    · next e _ => exact e.reply_ne_ageOk i
    · unfold batchChecked
      split_ifs
      · exact fun h => (nomatch h)
      · exact herr _ _ _
      · split
        · exact fun h => (nomatch h)
        · exact htr _

/-- Age-restricted withdrawals are not answered with signatures. -/
theorem ageAnswer_ne_batchOk (db : Database) (a : AgeContext) (sigs : List Signature) :
    (ageAnswer c env db a).2 ≠ .batchOk sigs := by
  have hsucc : ∀ i, ageSuccessReply env i ≠ .batchOk sigs := fun i => by
    unfold ageSuccessReply
    split_ifs
    · rintro ⟨⟩
    · rintro ⟨⟩
  have herr : ∀ (com : AgeCommitment) e, ageErrorReply env db com e ≠ .batchOk sigs := fun com e => by
    unfold ageErrorReply
    split_ifs
    · split
      · rintro ⟨⟩
      · exact e.reply_ne_batchOk sigs
      · exact hsucc _
    · exact e.reply_ne_batchOk sigs
  have htr : ∀ a, (ageTransact env db a).2 ≠ .batchOk sigs := fun a => by
    unfold ageTransact
    dsimp only
    split_ifs
    · rintro ⟨⟩
    · rintro ⟨⟩
    · exact herr a.commitment .ageInsufficientFunds
    · exact hsucc _
    · split
      · rintro ⟨⟩
      · exact hsucc _
      · exact hsucc _
  have hchk : ∀ a, (ageChecked c env db a).2 ≠ .batchOk sigs := fun a => by
    unfold ageChecked
    split_ifs
    · rintro ⟨⟩
    · exact herr a.commitment .kycRequired
    · split
      · rintro ⟨⟩
      · exact htr _
  unfold ageAnswer
  split
  · exact herr a.commitment .keysMissing
  · split
    · exact herr a.commitment _
    · split
      · rintro ⟨⟩
      · split_ifs
        · rintro ⟨⟩
        · exact hchk _
        · rintro ⟨⟩

theorem batch_replay_iff {r : BatchRequest} {wc : WithdrawContext} {sigs : List Signature}
    (hi : WithdrawInv c db) (hn : batchWithdrawNewRequest r = some wc)
    (hs : StoredBatch c db r sigs) :
    ReplayFaithful c env db (.batchOk sigs) (.batch r) ↔ ReplayOk c env db (.batch r) := by
  have hne : r.planchets ≠ [] := by
    intro he
    unfold batchWithdrawNewRequest at hn
    rw [if_pos (Or.inl (by rw [he]; rfl))] at hn
    cases hn
  unfold ReplayFaithful ReplayOk
  rw [handlerWithdraw_batch hi.rows hn]
  rcases @batchAnswer_replay c env db r sigs hi.rows hne hs with ⟨hok, he⟩ | ⟨hno, e, he⟩
  · rw [he]
    exact ⟨fun _ => hok, fun _ => ⟨fun _ => rfl, rfl⟩⟩
  · rw [he]
    exact ⟨fun h => absurd h.2 (e.reply_ne_batchOk sigs), fun h => absurd h hno⟩

theorem handlerWithdraw_age_none {r : AgeRequest} (h : ageWithdrawNewRequest c env r = none) :
    handlerWithdraw c env db (.age r) = (db, .noReply) := by
  unfold handlerWithdraw
  rw [show (WithdrawRequest.age r).newContext c env = none from h]

theorem age_replay_iff {r : AgeRequest} {first : WithdrawReply} {h : HashCode}
    (hr : r.hCommitment c = some h) (hk : db.ageWithdraw.hasKey h = true) :
    ReplayFaithful c env db first (.age r) ↔ ReplayOk c env db (.age r) := by
  unfold ReplayFaithful ReplayOk
  cases hn : ageWithdrawNewRequest c env r with
  | none =>
    rw [handlerWithdraw_age_none hn]
    constructor
    · rintro ⟨-, h, d, -, -, he⟩
      cases he
    · rintro ⟨a, d, ha, -⟩
      exact absurd (hn.symm.trans ha.accepted) (by simp)
  | some wc =>
    obtain ⟨a, ha⟩ := ageWithdrawNewRequest_starts hn
    obtain rfl := Option.some.inj (hr.symm.trans ha.hCommitment)
    have huniq : ∀ a', r.Starts c env a' → a' = a := fun a' ha' => by
      have := Option.some.inj (ha'.accepted.symm.trans ha.accepted)
      injection this with _ _ _ _ ht
      injection ht
    rw [handlerWithdraw_age ha]
    simp only [← ha.reservePub]
    constructor
    · rintro ⟨-, h, d, hh, hd, he⟩
      obtain rfl := Option.some.inj (hr.symm.trans hh)
      rw [ageAnswer_getAgeWithdraw hk] at hd
      exact ⟨a, d, ha, hd, ((ageAnswer_replay hd).2 _).mp he⟩
    · rintro ⟨a', d, ha', hd, hok⟩
      rw [huniq a' ha'] at hd hok
      obtain ⟨hsame, hi⟩ := @ageAnswer_replay c env db a d hd
      refine ⟨fun x => by rw [hsame], _, d, hr, ?_, (hi _).mpr hok⟩
      rw [hsame]
      exact hd

/-- **Replays**: a request that was answered with success is answered faithfully ever after, whatever
the events in between, if and only if the condition holds when it arrives. -/
theorem replay_iff (c : WithdrawCrypto) (before after : List WithdrawEvent) (env env' : WithdrawEnv)
    (req : WithdrawRequest)
    (hok : (handlerWithdraw c env (run (withdrawServe c) Database.empty before) req).2.isOk = true) :
    ReplayFaithful c env'
        (run (withdrawServe c) Database.empty (before ++ .withdraw env req :: after))
        (handlerWithdraw c env (run (withdrawServe c) Database.empty before) req).2 req ↔
      ReplayOk c env'
        (run (withdrawServe c) Database.empty (before ++ .withdraw env req :: after)) req := by
  rw [run_append, run_cons]
  have hi := (@run_withdraw c _ withdrawInv_empty before).1
  generalize run (withdrawServe c) Database.empty before = db at hi hok ⊢
  obtain ⟨hi', hkeep⟩ := run_withdraw (withdrawServe_inv hi (.withdraw env req)).1 after
  change WithdrawInv c (run (withdrawServe c) (handlerWithdraw c env db req).1 after) at hi'
  change Keeps (handlerWithdraw c env db req).1
    (run (withdrawServe c) (handlerWithdraw c env db req).1 after) at hkeep
  change ReplayFaithful c env' (run (withdrawServe c) (handlerWithdraw c env db req).1 after) _ _ ↔
    ReplayOk c env' (run (withdrawServe c) (handlerWithdraw c env db req).1 after) _
  cases hn : req.newContext c env with
  | none =>
    unfold handlerWithdraw at hok
    rw [hn] at hok
    cases hok
  | some wc =>
    cases req with
    | batch r =>
      rw [handlerWithdraw_batch hi.rows hn] at hok hi' hkeep ⊢
      cases hreply : (batchAnswer c env db r).2 with
      | batchOk sigs =>
        exact batch_replay_iff hi' hn ((batchAnswer_stored db r).2 sigs hreply |>.keeps hkeep)
      | ageOk i => exact absurd hreply (batchAnswer_ne_ageOk db r i)
      | error e =>
        rw [hreply] at hok
        cases hok
      | dbError =>
        rw [hreply] at hok
        cases hok
      | noReply =>
        rw [hreply] at hok
        cases hok
    | age r =>
      obtain ⟨a, ha⟩ := ageWithdrawNewRequest_starts hn
      rw [handlerWithdraw_age ha] at hok hi' hkeep ⊢
      refine age_replay_iff ha.hCommitment ?_
      cases hreply : (ageAnswer c env db a).2 with
      | ageOk i =>
        obtain ⟨row, hrow⟩ := Table.exists_lookup (ageAnswer_stored hreply)
        exact Table.hasKey_of_lookup (hkeep.age hrow)
      | batchOk sigs => exact absurd hreply (ageAnswer_ne_batchOk db a sigs)
      | error e =>
        rw [hreply] at hok
        cases hok
      | dbError =>
        rw [hreply] at hok
        cases hok
      | noReply =>
        rw [hreply] at hok
        cases hok

end Replay

/-! ## Sample runs -/

/-- A code of a planchet. -/
def BlindedPlanchet.code : BlindedPlanchet → List ℕ
  | .rsa m => 0 :: m.map UInt8.toNat
  | .cs c0 c1 n => 1 :: (c0.toList ++ c1.toList ++ n.toList).map UInt8.toNat

theorem BlindedPlanchet.code_injective : Function.Injective BlindedPlanchet.code := by
  have hmap : Function.Injective (List.map UInt8.toNat) :=
    List.map_injective_iff.mpr fun _ _ => UInt8.toNat_inj.mp
  intro p q h
  cases p with
  | rsa m =>
    cases q with
    | rsa m' => rw [hmap (List.cons.inj h).2]
    | cs => exact absurd (List.cons.inj h).1 (by decide)
  | cs c0 c1 n =>
    cases q with
    | rsa => exact absurd (List.cons.inj h).1 (by decide)
    | cs c0' c1' n' =>
      have hl := hmap (List.cons.inj h).2
      obtain ⟨h01, hn⟩ := List.append_inj hl (by simp)
      obtain ⟨h0, h1⟩ := List.append_inj h01 (by simp)
      rw [List.Vector.toList_injective h0, List.Vector.toList_injective h1,
        List.Vector.toList_injective hn]

/-- Hashes that are codes, and signatures that are always valid. -/
def codeCrypto : WithdrawCrypto where
  coinEvHash p d := Nat.pair (Encodable.encode p.code) d + 1
  commitmentHash := Encodable.encode
  withdrawVerify _ _ _ _ _ := true
  ageWithdrawVerify _ _ _ _ _ _ := true
  coinEvHash_inj h := by
    obtain ⟨hp, hd⟩ := Nat.pair_eq_pair.mp (Nat.succ.inj h)
    exact ⟨BlindedPlanchet.code_injective (Encodable.encode_injective hp), hd⟩
  commitmentHash_inj := Encodable.encode_injective
  coinEvHash_ne_zero _ _ := Nat.succ_ne_zero _

/-- A denomination of three for everybody from eight years on, until the fifth second. -/
def keyOfThree : WithdrawKey where
  serial := 1
  denomPub := { ageMask := 257, cipher := .rsa, bsignPubKey := 0 }
  start := 0
  expireWithdraw := 5
  recoupPossible := false
  value := .whole 3
  feeWithdraw := .zero

/-- A second of the exchange with a single denomination. -/
def second (now : Timestamp) (i : Fin 3) : WithdrawEnv where
  now := now
  minReserveGc := 0
  earliestDate _ := 0
  keys := some fun h => if h = 1 then some keyOfThree else none
  ageMask := 257
  ageRestrictionEnabled := false
  legi := .kyc true
  sign _ _ := some 7
  noRevealIndex := i
  confirms := true
  order := ⟨id, fun l => .refl l⟩

/-- A denomination of three and ten in a reserve. -/
def fundedReserve : List WithdrawEvent :=
  [.op (.denomination ⟨1, .whole 3, .zero, .zero, .zero, .zero⟩),
   .op (.reservesIn 9 9 [transferOfTen 4 1])]

/-- A batch of one coin. -/
def oneCoin : WithdrawRequest :=
  .batch { reservePub := 4, planchets := [⟨1, 1, .rsa []⟩] }

/-- An age-restricted withdrawal of one coin. -/
def oneCandidate : WithdrawRequest :=
  .age { reservePub := 4, denomHs := [1], blindedPlanchets := [[.rsa [], .rsa [1], .rsa [2]]]
         maxAge := 0, reserveSig := 1 }

/-- The state after a request in the first second. -/
def served (req : WithdrawRequest) : Database :=
  run (withdrawServe codeCrypto) Database.empty
    (fundedReserve ++ .withdraw (second 1 2) req :: [])

theorem oneCoin_faithful : ReplayFaithful codeCrypto (second 1 1) (served oneCoin)
    (handlerWithdraw codeCrypto (second 1 2)
      (run (withdrawServe codeCrypto) Database.empty fundedReserve) oneCoin).2 oneCoin :=
  (replay_iff codeCrypto fundedReserve [] (second 1 2) (second 1 1) oneCoin (by decide +kernel)).mpr
    ⟨⟨_, .whole 3, rfl, by decide +kernel⟩, fun _ h => (nomatch h), .inr ⟨by decide +kernel,
      (@exchangeDoBatchWithdraw_ok (second 1 1) _ ⟨[], .zero⟩ 4).mp (by decide +kernel)⟩⟩

/-- The denomination of a coin expires, and its replay is refused. Another index is drawn for a replay
of an age-restricted withdrawal, and answered. -/
theorem not_replay :
    (handlerWithdraw codeCrypto (second 1 2)
        (run (withdrawServe codeCrypto) Database.empty fundedReserve) oneCoin).2 = .batchOk [7] ∧
      ¬ ReplayFaithful codeCrypto (second 6 2) (served oneCoin) (.batchOk [7]) oneCoin ∧
    (handlerWithdraw codeCrypto (second 1 2)
        (run (withdrawServe codeCrypto) Database.empty fundedReserve) oneCandidate).2 = .ageOk 2 ∧
      ¬ ReplayFaithful codeCrypto (second 1 1) (served oneCandidate) (.ageOk 2) oneCandidate := by
  have hrefused : (handlerWithdraw codeCrypto (second 6 2) (served oneCoin) oneCoin).2 ≠
      .batchOk [7] := by decide +kernel
  refine ⟨by decide +kernel, fun h => hrefused h.2, by decide +kernel, ?_⟩
  rintro ⟨-, h, d, hh, hd, he⟩
  have hreply : (handlerWithdraw codeCrypto (second 1 1) (served oneCandidate) oneCandidate).2 =
      .ageOk 1 := by decide +kernel
  have hrow : ((served oneCandidate).ageWithdraw.rows.map fun aw => aw.noRevealIndex) = [2] := by
    decide +kernel
  have hsame : (handlerWithdraw codeCrypto (second 1 1) (served oneCandidate) oneCandidate).1.ageWithdraw
      = (served oneCandidate).ageWithdraw := Table.ext_rows (by decide +kernel)
  obtain ⟨aw, haw, hi⟩ := getAgeWithdraw_index hd
  rw [hsame] at haw
  have hmem := List.mem_map_of_mem (f := fun aw => aw.noRevealIndex) (Table.mem_of_lookup haw)
  rw [hrow, List.mem_singleton] at hmem
  injection hreply.symm.trans he with hne
  omega

end TalerExchange
