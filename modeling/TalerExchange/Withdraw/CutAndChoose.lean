import TalerExchange.Machine.MapM
import TalerExchange.Withdraw.Age
import TalerExchange.Withdraw.Reveal

/-!
# Cut and choose

The coins of an age-restricted withdrawal are handed out if the secrets that are disclosed derive the
candidates that were committed to.

* `Opens`: the secrets derive the candidates; `RevealReady`: what the exchange needs for the check;
* `candidateHash`, `revealCoin_eq`: the inner loop without its counter;
* `Commits`: what is stored for a request; **`Commits.verify_iff`**: when the check succeeds.
-/

namespace TalerExchange

open Sql Transition

/-! ## What is to hold -/

/-- The place of a candidate among the secrets of its coin that are disclosed. -/
def disclosedAt (n k : ℕ) : ℕ := if k < n then k else k - 1

/-- **The request opens the commitment**: for every coin and every candidate but the hidden one, the
secret derives the planchet of the request. -/
structure Opens (c : RevealCrypto) (D : Denominations) (r : AgeRequest) (n : ℕ)
    (req : RevealRequest) : Prop where
  reservePub : req.reservePub = r.reservePub
  numCoins : req.disclosedCoinSecrets.length = r.denomHs.length
  numSecrets : ∀ a ∈ req.disclosedCoinSecrets, a.length = cncKappa - 1
  derives : ∀ (i : ℕ) (h : HashCode) (ps : List BlindedPlanchet) (secrets : List PlanchetMasterSecret),
    r.denomHs[i]? = some h → r.blindedPlanchets[i]? = some ps →
    req.disclosedCoinSecrets[i]? = some secrets → ∀ k < cncKappa, k ≠ n →
      ∃ s p, secrets[disclosedAt n k]? = some s ∧ ps[k]? = some p ∧
        deriveCandidate c D h r.maxAge s = some p

/-- The exchange has the keys of the denominations, and their hashes come in the order of the coins. -/
structure RevealReady {D : Denominations} (env : RevealEnv D) (denomHs : List HashCode) : Prop where
  delivered : env.order.apply denomHs = denomHs
  known : ∃ keys, env.keys = some keys ∧ ∀ h ∈ denomHs, (keys h).isSome = true ∧
    ((D.pub h).cipher = .cs → env.csKnown h = true)

/-- What the handler of age-withdraw requests has stored for a request with these planchets. -/
structure Commits (c : RevealCrypto) (o : RowOrder) (r : AgeRequest) (ps : List KappaPlanchets)
    (n : Fin cncKappa) (com : AgeCommitment) : Prop where
  numCoins : com.numCoins = r.denomHs.length
  maxAge : com.maxAge = r.maxAge
  hCommitment : com.hCommitment = c.commitmentHash (candidateHashes c.toWithdrawCrypto r.denomHs ps)
  noRevealIndex : com.noRevealIndex = n.val
  hCoinEvs : com.hCoinEvs = (r.denomHs.zip ps).map fun x => c.coinEvHash (x.2.get n) x.1
  denomPubHashes : com.denomPubHashes = o.apply r.denomHs

/-- What a request has to satisfy to be accepted. -/
structure AgeRequest.Accepted (r : AgeRequest) (ps : List KappaPlanchets) : Prop where
  planchets : r.blindedPlanchets = ps.map List.Vector.toList
  length : ps.length = r.denomHs.length
  pos : r.denomHs.length ≠ 0
  le : r.denomHs.length ≤ maxFreshCoins
  maxAge : r.maxAge < 256

/-! ## A candidate -/

section Candidate

variable {c : RevealCrypto} {D : Denominations} {env : RevealEnv D}

/-- **A disclosed secret has the hash of a planchet** if it derives the planchet, with the
denomination of the planchet. -/
theorem calculateBlindedHash_eq_ok {keys : KeyState} (hkeys : env.keys = some keys)
    {secret : PlanchetMasterSecret} {h h' : HashCode} {maxAge : ℕ} (hage : maxAge < 256)
    {p : BlindedPlanchet} :
    calculateBlindedHash c env keys secret h maxAge = .ok (c.coinEvHash p h') ↔
      h = h' ∧ ((keys h).isSome = true ∧ ((D.pub h).cipher = .cs → env.csKnown h = true)) ∧
        deriveCandidate c D h maxAge secret = some p := by
  unfold calculateBlindedHash deriveCandidate
  rw [Nat.mod_eq_of_lt hage]
  cases hk : keys h with
  | none => simp
  | some dk =>
    dsimp only
    rw [env.keys_pub hkeys hk]
    cases ageRestrictionFromSecret c secret (D.pub h).ageMask maxAge with
    | none => simp
    | some ach =>
      simp only [Option.bind_some, Option.isSome_some, true_and]
      by_cases hcs : (D.pub h).cipher = .cs ∧ env.csKnown h = false
      · rw [if_pos hcs]
        simp [hcs.1, hcs.2]
      · rw [if_neg hcs]
        have hcs' : (D.pub h).cipher = .cs → env.csKnown h = true := by
          simpa using hcs
        cases prepareCandidate c (D.pub h) (D.csRPub h) secret ach with
        | none => simp
        | some q =>
          simp only [Except.ok.injEq, Option.some.injEq]
          constructor
          · intro he
            obtain ⟨rfl, rfl⟩ := c.coinEvHash_inj he
            exact ⟨rfl, hcs', rfl⟩
          · rintro ⟨rfl, -, rfl⟩
            rfl

variable (c env) in
/-- The hash of a candidate: the one that is stored, or the one of the secret disclosed for it. -/
def candidateHash (keys : KeyState) (com : AgeCommitment) (secrets : List PlanchetMasterSecret)
    (coinIdx k : ℕ) : Except RevealError HashCode :=
  if k = com.noRevealIndex then readAt com.hCoinEvs coinIdx
  else do
    let secret ← readAt secrets ((cncKappa - 1) * coinIdx + disclosedAt com.noRevealIndex k)
    let d ← readAt com.denomPubHashes coinIdx
    calculateBlindedHash c env keys secret d com.maxAge

/-- **The inner loop without its counter**: the counter is the place among the secrets disclosed. -/
theorem revealCoin_eq {keys : KeyState} {com : AgeCommitment} {secrets : List PlanchetMasterSecret}
    {coinIdx : ℕ} (hn : com.noRevealIndex < cncKappa) :
    revealCoin c env keys com secrets coinIdx 0 (List.range cncKappa) =
      (List.range cncKappa).mapM (candidateHash c env keys com secrets coinIdx) := by
  have hstep : ∀ i k ks, (k ≠ com.noRevealIndex → i = disclosedAt com.noRevealIndex k) →
      revealCoin c env keys com secrets coinIdx i (k :: ks) = do
        let h ← candidateHash c env keys com secrets coinIdx k
        let hs ← revealCoin c env keys com secrets coinIdx
          (if k = com.noRevealIndex then i else i + 1) ks
        return h :: hs := by
    intro i k ks hi
    rw [revealCoin, candidateHash]
    split_ifs with hk
    · rfl
    · rw [hi hk]
      simp only [bind_assoc]
  have hrange : List.range cncKappa = [0, 1, 2] := rfl
  have hcases : com.noRevealIndex = 0 ∨ com.noRevealIndex = 1 ∨ com.noRevealIndex = 2 := by
    unfold cncKappa at hn
    omega
  rw [hrange, hstep 0 0 _ fun h => by simp [disclosedAt, Nat.pos_of_ne_zero (Ne.symm h)]]
  rw [hstep _ 1 _ fun h => by rcases hcases with e | e | e <;> simp [disclosedAt, e] at h ⊢]
  rw [hstep _ 2 _ fun h => by rcases hcases with e | e | e <;> simp [disclosedAt, e] at h ⊢]
  rw [revealCoin]
  simp only [List.mapM_cons, List.mapM_nil]
  rfl

end Candidate

/-! ## The commitment -/

section Commitment

variable {c : RevealCrypto} {D : Denominations} {env : RevealEnv D} {keys : KeyState}
  {r : AgeRequest} {ps : List KappaPlanchets} {n : Fin cncKappa} {com : AgeCommitment}
  {secrets : List PlanchetMasterSecret}

/-- The hashes of the candidates of each coin. -/
def candidateBlocks (c : WithdrawCrypto) (denomHs : List HashCode) (ps : List KappaPlanchets) :
    List (List HashCode) :=
  (denomHs.zip ps).map fun x => x.2.toList.map fun p => c.coinEvHash p x.1

theorem flatten_candidateBlocks (c : WithdrawCrypto) (denomHs : List HashCode)
    (ps : List KappaPlanchets) :
    (candidateBlocks c denomHs ps).flatten = candidateHashes c denomHs ps := rfl

theorem length_candidateBlocks (hacc : r.Accepted ps) :
    (candidateBlocks c.toWithdrawCrypto r.denomHs ps).length = r.denomHs.length := by
  rw [candidateBlocks, List.length_map, List.length_zip, hacc.length, Nat.min_self]

theorem length_of_mem_candidateBlocks {b : List HashCode}
    (hb : b ∈ candidateBlocks c.toWithdrawCrypto r.denomHs ps) : b.length = cncKappa := by
  obtain ⟨x, -, rfl⟩ := List.mem_map.mp hb
  rw [List.length_map, x.2.toList_length]

theorem revealCoin_eq_ok (hn : com.noRevealIndex < cncKappa) {i : ℕ} {b : List HashCode} :
    revealCoin c env keys com secrets i 0 (List.range cncKappa) = .ok b ↔
      b.length = cncKappa ∧ ∀ k (h : k < b.length), candidateHash c env keys com secrets i k = .ok b[k] := by
  rw [revealCoin_eq hn, mapM_range_eq_ok]

/-- **The commitment is recomputed** if and only if every candidate has its hash. -/
theorem Commits.hashes_iff (hacc : r.Accepted ps) (hcom : Commits c env.order r ps n com) :
    (∃ hs, revealHashes c env keys com secrets r.denomHs.length = .ok hs ∧
        com.hCommitment = c.commitmentHash hs.flatten) ↔
      ∀ i (h : i < r.denomHs.length) (h' : i < ps.length) (k : Fin cncKappa),
        candidateHash c env keys com secrets i k =
          .ok (c.coinEvHash (ps[i].get k) r.denomHs[i]) := by
  have hn : com.noRevealIndex < cncKappa := hcom.noRevealIndex ▸ n.isLt
  have hlen := @length_candidateBlocks c r ps hacc
  have hblocks : (∃ hs, revealHashes c env keys com secrets r.denomHs.length = .ok hs ∧
      com.hCommitment = c.commitmentHash hs.flatten) ↔
      revealHashes c env keys com secrets r.denomHs.length =
        .ok (candidateBlocks c.toWithdrawCrypto r.denomHs ps) := by
    rw [hcom.hCommitment, ← flatten_candidateBlocks]
    constructor
    · rintro ⟨hs, hok, hh⟩
      obtain ⟨hl, hb⟩ := mapM_range_eq_ok.mp hok
      have hb3 : ∀ b ∈ hs, b.length = cncKappa := by
        intro b hmem
        obtain ⟨i, hi, rfl⟩ := List.mem_iff_getElem.mp hmem
        exact ((revealCoin_eq_ok hn).mp (hb i hi)).1
      have hsame : candidateBlocks c.toWithdrawCrypto r.denomHs ps = hs := by
        refine List.eq_iff_flatten_eq.mpr ⟨c.commitmentHash_inj hh, ?_⟩
        rw [List.map_congr_left fun b => length_of_mem_candidateBlocks, List.map_congr_left hb3,
          List.map_const', List.map_const', hlen, hl]
      rw [hsame]
      exact hok
    · exact fun hok => ⟨_, hok, rfl⟩
  rw [hblocks, revealHashes, mapM_range_eq_ok]
  have hget : ∀ i (h : i < r.denomHs.length) (h' : i < ps.length)
      (hi : i < (candidateBlocks c.toWithdrawCrypto r.denomHs ps).length),
      (candidateBlocks c.toWithdrawCrypto r.denomHs ps)[i] =
        ps[i].toList.map fun p => c.coinEvHash p r.denomHs[i] := by
    intro i h h' hi
    simp [candidateBlocks]
  have hval : ∀ i (h : i < r.denomHs.length) (h' : i < ps.length) (k : Fin cncKappa)
      (hk : k.val < (ps[i].toList.map fun p => c.coinEvHash p r.denomHs[i]).length),
      (ps[i].toList.map fun p => c.coinEvHash p r.denomHs[i])[k.val] =
        c.coinEvHash (ps[i].get k) r.denomHs[i] := by
    intro i h h' k hk
    rw [List.getElem_map, List.Vector.get_eq_get_toList]
    rfl
  constructor
  · rintro ⟨-, hb⟩ i h h' k
    have hi := hb i (hlen ▸ h)
    rw [hget i h h'] at hi
    have hk : k.val < (ps[i].toList.map fun p => c.coinEvHash p r.denomHs[i]).length := by
      rw [List.length_map, ps[i].toList_length]
      exact k.isLt
    rw [← hval i h h' k hk]
    exact ((revealCoin_eq_ok hn).mp hi).2 k hk
  · intro hall
    refine ⟨hlen, fun i hi => ?_⟩
    have h : i < r.denomHs.length := hlen ▸ hi
    have h' : i < ps.length := hacc.length ▸ h
    rw [hget i h h', revealCoin_eq_ok hn]
    refine ⟨by rw [List.length_map, ps[i].toList_length], fun k hk => ?_⟩
    have hk3 : k < cncKappa := by rwa [List.length_map, ps[i].toList_length] at hk
    rw [hval i h h' ⟨k, hk3⟩ hk]
    exact hall i h h' ⟨k, hk3⟩

theorem readAt_eq_ok {α : Type} {l : List α} {i : ℕ} {x : α} :
    readAt l i = .ok x ↔ l[i]? = some x := by
  unfold readAt
  cases l[i]? <;> simp

theorem disclosedAt_lt {k : ℕ} (hk : k < cncKappa) (_ : k ≠ n.val) :
    disclosedAt n.val k < cncKappa - 1 := by
  have hn := n.isLt
  unfold disclosedAt
  unfold cncKappa at hn hk ⊢
  split_ifs <;> omega

/-- Another candidate than the hidden one. -/
theorem exists_disclosed (n : Fin cncKappa) : ∃ k : Fin cncKappa, k.val ≠ n.val := by
  by_cases h : n.val = 0
  · exact ⟨⟨1, by decide⟩, by rw [h]; exact one_ne_zero⟩
  · exact ⟨⟨0, by decide⟩, Ne.symm h⟩

/-- The hidden candidate has the hash that is stored. -/
theorem Commits.candidateHash_hidden (hcom : Commits c env.order r ps n com) {i : ℕ}
    (h : i < r.denomHs.length) (h' : i < ps.length) :
    candidateHash c env keys com secrets i n = .ok (c.coinEvHash (ps[i].get n) r.denomHs[i]) := by
  rw [candidateHash, if_pos hcom.noRevealIndex.symm, readAt_eq_ok, hcom.hCoinEvs]
  simp [h, h']

/-- **A disclosed candidate has its hash** if the denomination is delivered in its place and known, and
the secret derives the planchet. -/
theorem Commits.candidateHash_disclosed (hkeys : env.keys = some keys) (hacc : r.Accepted ps)
    (hcom : Commits c env.order r ps n com) {disclosed : List (List PlanchetMasterSecret)}
    (hdis : ∀ a ∈ disclosed, a.length = cncKappa - 1) {i : ℕ} {p : BlindedPlanchet} {h : HashCode}
    {k : ℕ} (hk : k < cncKappa) (hkn : k ≠ n.val) :
    candidateHash c env keys com disclosed.flatten i k = .ok (c.coinEvHash p h) ↔
      (env.order.apply r.denomHs)[i]? = some h ∧
        ((keys h).isSome = true ∧ ((D.pub h).cipher = .cs → env.csKnown h = true)) ∧
          ∃ s, (disclosed[i]?.bind (·[disclosedAt n k]?)) = some s ∧
            deriveCandidate c D h r.maxAge s = some p := by
  have hplace := @getElem?_flatten _ (cncKappa - 1) i _ disclosed hdis (disclosedAt_lt hk hkn)
  rw [candidateHash, if_neg (hcom.noRevealIndex ▸ hkn), hcom.noRevealIndex, hcom.denomPubHashes,
    hcom.maxAge]
  simp only [readAt, hplace]
  cases hs : disclosed[i]?.bind (·[disclosedAt n k]?) with
  | none => simp [bind, Except.bind]
  | some s =>
    cases hd : (env.order.apply r.denomHs)[i]? with
    | none => simp [bind, Except.bind]
    | some d =>
      simp only [bind, Except.bind, calculateBlindedHash_eq_ok hkeys hacc.maxAge,
        Option.some.injEq, exists_eq_left']
      constructor
      · rintro ⟨rfl, hknown, hder⟩
        exact ⟨rfl, hknown, hder⟩
      · rintro ⟨rfl, hknown, hder⟩
        exact ⟨rfl, hknown, hder⟩

theorem Opens.derived {req : RevealRequest} (hacc : r.Accepted ps) (ho : Opens c D r n req) {i : ℕ}
    (h : i < r.denomHs.length) (h' : i < ps.length) {k : Fin cncKappa} (hkn : k.val ≠ n.val) :
    ∃ s, (req.disclosedCoinSecrets[i]?.bind (·[disclosedAt n k]?)) = some s ∧
      deriveCandidate c D r.denomHs[i] r.maxAge s = some (ps[i].get k) := by
  have hi : i < req.disclosedCoinSecrets.length := ho.numCoins ▸ h
  obtain ⟨s, p, hs, hp, hder⟩ := ho.derives i _ ps[i].toList _ (List.getElem?_eq_getElem h)
    (by rw [hacc.planchets, List.getElem?_map, List.getElem?_eq_getElem h']; rfl)
    (List.getElem?_eq_getElem hi) k k.isLt hkn
  refine ⟨s, by rw [List.getElem?_eq_getElem hi]; exact hs, ?_⟩
  have hget : ps[i].toList[k.val]? = some (ps[i].get k) := by
    rw [List.Vector.get_eq_get_toList]
    exact List.getElem?_eq_getElem _
  rw [hder, ← hp, hget]

/-- **The check succeeds** if and only if the exchange is ready and the secrets open the
commitment. -/
theorem Commits.verify_iff {req : RevealRequest} (hacc : r.Accepted ps)
    (hcom : Commits c env.order r ps n com) (hres : req.reservePub = r.reservePub)
    (hdis : ∀ a ∈ req.disclosedCoinSecrets, a.length = cncKappa - 1) :
    verifyCommitmentAndMaxAge c env com req.disclosedCoinSecrets.flatten
        req.disclosedCoinSecrets.length = .ok () ↔
      RevealReady env r.denomHs ∧ Opens c D r n req := by
  unfold verifyCommitmentAndMaxAge
  by_cases hnum : req.disclosedCoinSecrets.length = com.numCoins
  swap
  · rw [if_pos hnum]
    simp only [reduceCtorEq, false_iff, not_and]
    exact fun _ ho => hnum (ho.numCoins.trans hcom.numCoins.symm)
  rw [if_neg (not_not.mpr hnum), hnum, hcom.numCoins]
  cases hkeys : env.keys with
  | none =>
    simp only [reduceCtorEq, false_iff, not_and]
    rintro ⟨-, keys, hk, -⟩
    cases hkeys.symm.trans hk
  | some keys =>
    have hok : (do
        let hs ← revealHashes c env keys com req.disclosedCoinSecrets.flatten r.denomHs.length
        if com.hCommitment ≠ c.commitmentHash hs.flatten then .error .invalidHash
        else return ()) = (.ok () : Except RevealError Unit) ↔
        ∃ hs, revealHashes c env keys com req.disclosedCoinSecrets.flatten r.denomHs.length = .ok hs ∧
          com.hCommitment = c.commitmentHash hs.flatten := by
      cases revealHashes c env keys com req.disclosedCoinSecrets.flatten r.denomHs.length with
      | error e => simp [bind, Except.bind]
      | ok hs =>
        simp only [bind, Except.bind, Except.ok.injEq, exists_eq_left']
        split_ifs with hne
        · simpa using hne
        · simpa [pure, Except.pure] using hne
    dsimp only
    rw [hok, hcom.hashes_iff hacc]
    constructor
    · intro hall
      have hdisclosed : ∀ i (h : i < r.denomHs.length) (k : Fin cncKappa), k.val ≠ n.val →
          ∀ h' : i < ps.length, _ := fun i h k hkn h' =>
        (hcom.candidateHash_disclosed hkeys hacc hdis k.isLt hkn).mp (hall i h h' k)
      have hknown : ∀ i (h : i < r.denomHs.length),
          (env.order.apply r.denomHs)[i]? = some r.denomHs[i] ∧
            ((keys r.denomHs[i]).isSome = true ∧
              ((D.pub r.denomHs[i]).cipher = .cs → env.csKnown r.denomHs[i] = true)) := by
        intro i h
        obtain ⟨k, hkn⟩ := exists_disclosed n
        obtain ⟨hd, hk, -⟩ := hdisclosed i h k hkn (hacc.length ▸ h)
        exact ⟨hd, hk⟩
      refine ⟨⟨?_, keys, hkeys, ?_⟩, hres, hnum.trans hcom.numCoins, hdis, ?_⟩
      · refine List.ext_getElem (env.order.perm _).length_eq fun i h₁ h₂ => ?_
        exact Option.some.inj ((List.getElem?_eq_getElem h₁).symm.trans (hknown i h₂).1)
      · intro h hmem
        obtain ⟨i, hi, rfl⟩ := List.mem_iff_getElem.mp hmem
        exact (hknown i hi).2
      · intro i h qs secrets hh hqs hsec k hk hkn
        obtain ⟨hi, rfl⟩ := List.getElem?_eq_some_iff.mp hh
        have hi' : i < ps.length := hacc.length ▸ hi
        obtain ⟨-, -, s, hs, hder⟩ := hdisclosed i hi ⟨k, hk⟩ hkn hi'
        rw [hsec] at hs
        refine ⟨s, _, hs, ?_, hder⟩
        rw [hacc.planchets, List.getElem?_map, List.getElem?_eq_getElem hi'] at hqs
        obtain rfl := Option.some.inj hqs
        rw [List.Vector.get_eq_get_toList]
        exact List.getElem?_eq_getElem _
    · rintro ⟨⟨hord, keys', hk', hknown⟩, ho⟩ i h h' k
      obtain rfl := Option.some.inj (hkeys.symm.trans hk')
      by_cases hkn : k.val = n.val
      · obtain rfl := Fin.ext hkn
        exact hcom.candidateHash_hidden h h'
      · refine (hcom.candidateHash_disclosed hkeys hacc hdis k.isLt hkn).mpr
          ⟨?_, hknown _ (List.getElem_mem h), ho.derived hacc h h' hkn⟩
        rw [hord]
        exact List.getElem?_eq_getElem h

end Commitment

end TalerExchange
