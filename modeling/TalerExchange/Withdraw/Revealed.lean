import TalerExchange.Withdraw.CutAndChoose
import TalerExchange.Withdraw.Replay

/-!
# Reveals of stored commitments

What the handler stores for an age-withdraw request is what its reveal is checked against, whatever
happens in between.

* `KeysLoaded`: the keys in memory are those of the database;
* `ageAnswer_row`: the row that a request stores; `AgeRequest.Stored.commits`: what is read of it;
* `RevealFaithful`; **`reveal_iff`**: when a reveal is answered as it is to be;
* sample reveals: two denominations, delivered in their order and in the other one.
-/

namespace TalerExchange

open Sql Transition

/-- The denominations of the key state are those of the database. -/
def KeysLoaded (db : Database) (keys : Option KeyState) : Prop :=
  ∀ ks h dk, keys = some ks → ks h = some dk →
    ∃ d, db.denominations.lookupSerial dk.serial = some d ∧ d.denomPubHash = h

section Stored

variable {c : WithdrawCrypto} {env : WithdrawEnv} {db : Database} {r : AgeRequest} {a : AgeContext}

/-! ## The request -/

theorem lowestAgeLoop_le (n m g l : ℕ) : lowestAgeLoop n m g l ≤ l + n := by
  induction n generalizing m g l with
  | zero => exact Nat.le_refl _
  | succ n ih =>
    cases g with
    | zero => exact Nat.le_add_right _ _
    | succ g =>
      rw [lowestAgeLoop]
      refine (ih _ _ _).trans ?_
      omega

theorem toList_of_toKappa? {l : List BlindedPlanchet} {p : KappaPlanchets}
    (h : toKappa? l = some p) : l = p.toList := by
  unfold toKappa? at h
  split_ifs at h
  obtain rfl := Option.some.inj h
  rfl

/-- What an accepted request is, and the context that it starts with. -/
theorem AgeRequest.Starts.accepted_iff (h : r.Starts c env a) : r.Accepted a.planchets ∧
    a.denomHs = r.denomHs ∧ a.commitment.numCoins = r.denomHs.length ∧
      a.commitment.maxAge = r.maxAge ∧
        a.commitment.hCommitment = c.commitmentHash (candidateHashes c r.denomHs a.planchets) := by
  have hnew := h.accepted
  unfold ageWithdrawNewRequest at hnew
  split_ifs at hnew with hage hlen
  split at hnew
  · cases hnew
  · next ps hps =>
    split_ifs at hnew
    injection hnew with hnew
    injection hnew with _ _ _ _ ht
    injection ht with ht
    subst ht
    simp only [not_or, not_not, not_lt] at hlen
    have hmap := mapM_eq_some.mp hps
    have hpl : r.blindedPlanchets = ps.map List.Vector.toList := by
      refine List.ext_getElem (by simpa using congrArg List.length hmap) fun i h₁ h₂ => ?_
      have hi := List.getElem_of_eq hmap (i := i) (by simpa using h₁)
      simp only [List.getElem_map] at hi ⊢
      exact toList_of_toKappa? hi
    refine ⟨⟨hpl, ?_, hlen.1, hlen.2.2, ?_⟩, rfl, rfl, rfl, rfl⟩
    · rw [hlen.2.1, hpl, List.length_map]
    · rw [not_not.mp hage]
      exact (lowestAgeLoop_le _ _ _ _).trans_lt (by decide)

/-! ## The row -/

/-- The serials are those of the denominations of the coins. -/
theorem ageCheckKeys_serials {keys : KeyState} (hkeys : env.keys = some keys)
    (hload : KeysLoaded db env.keys) {l : List (HashCode × KappaPlanchets)}
    {total fee total' fee' : Amount} {serials : List ℕ}
    (h : ageCheckKeys env keys total fee l = .ok (total', fee', serials)) :
    serials.map (fun s => (db.denominations.lookupSerial s).map Denomination.denomPubHash) =
      l.map fun x => some x.1 := by
  induction l generalizing total fee serials with
  | nil =>
    obtain rfl : serials = [] := by
      simp only [ageCheckKeys, Except.ok.injEq, Prod.mk.injEq] at h
      exact h.2.2.symm
    rfl
  | cons x l ih =>
    obtain ⟨h', ps⟩ := x
    rw [ageCheckKeys] at h
    cases hf : findDenomination env.now keys true h' with
    | error e => simp [hf] at h
    | ok dk =>
      simp only [hf] at h
      split_ifs at h
      split at h
      · cases h
      · cases h
      · split at h
        · cases h
        · next total₁ fee₁ serials₁ hrest =>
          simp only [Except.ok.injEq, Prod.mk.injEq] at h
          obtain ⟨rfl, rfl, rfl⟩ := h
          have hdk : keys h' = some dk := by
            unfold findDenomination at hf
            split at hf
            · cases hf
            · next dk' hk' =>
              split_ifs at hf
              rw [hk', Except.ok.inj hf]
          obtain ⟨d, hd, hh⟩ := hload keys h' dk hkeys hdk
          rw [List.map_cons, List.map_cons, ih hrest, hd, Option.map_some, hh]

/-- **The row that a request stores** for a commitment that is new. -/
theorem exchangeDoAgeWithdraw_row {x : AgeWithdrawArgs}
    (hn : db.ageWithdraw.hasKey x.hCommitment = false)
    (hs : (exchangeDoAgeWithdraw db x).1.ageWithdraw.hasKey x.hCommitment = true) :
    ∃ i, (exchangeDoAgeWithdraw db x).1.ageWithdraw.lookup x.hCommitment = some (x.row i) := by
  have hno : db.ageWithdraw.hasKey x.hCommitment ≠ true := by rw [hn]; exact Bool.false_ne_true
  unfold exchangeDoAgeWithdraw at hs ⊢
  cases hr : db.reserves.lookup x.reservePub with
  | none =>
    rw [hr] at hs
    exact absurd hs hno
  | some y =>
    simp only [hr] at hs ⊢
    by_cases hb : y.birthday ≠ 0 ∧ x.earliestDate < y.birthday
    · rw [if_pos hb] at hs
      exact absurd hs hno
    rw [if_neg hb] at hs ⊢
    cases hl : y.currentBalance.leftMinusRight x.amountWithFee with
    | none =>
      rw [hl] at hs
      exact absurd hs hno
    | some balance =>
      simp only [hl] at hs ⊢
      cases ht : db.ageWithdraw.insert? x.row with
      | none => exact absurd (Table.insert?_eq_none.mp ht) hno
      | some t => exact ⟨db.ageWithdraw.nextSerial, Table.lookup_insert?_self ht⟩

theorem ageTransact_row {a : AgeContext}
    (hn : db.ageWithdraw.hasKey a.commitment.hCommitment = false)
    (hs : (ageTransact env db a).1.ageWithdraw.hasKey a.commitment.hCommitment = true) :
    ∃ i, (ageTransact env db a).1.ageWithdraw.lookup a.commitment.hCommitment =
      some ((a.args env).row i) := by
  have hno : db.ageWithdraw.hasKey a.commitment.hCommitment ≠ true := by
    rw [hn]
    exact Bool.false_ne_true
  unfold ageTransact at hs ⊢
  simp only at hs ⊢
  split_ifs at hs ⊢
  · exact absurd hs hno
  · exact absurd hs hno
  · exact absurd hs hno
  · exact exchangeDoAgeWithdraw_row hn hs
  · split at hs
    · exact absurd hs hno
    · exact exchangeDoAgeWithdraw_row hn hs
    · exact absurd hs hno

/-- **The row that a request stores**, with the serials of its denominations. -/
theorem ageAnswer_row (hn : db.ageWithdraw.hasKey a.commitment.hCommitment = false)
    (hs : (ageAnswer c env db a).1.ageWithdraw.hasKey a.commitment.hCommitment = true) :
    ∃ keys total fee serials amount sigs i, env.keys = some keys ∧
      ageCheckKeys env keys Amount.zero Amount.zero (a.denomHs.zip a.planchets) =
        .ok (total, fee, serials) ∧ signCandidates env a = some sigs ∧
      (ageAnswer c env db a).1.ageWithdraw.lookup a.commitment.hCommitment =
        some ((((a.priced amount serials).signed c env sigs).args env).row i) := by
  have hno : db.ageWithdraw.hasKey a.commitment.hCommitment ≠ true := by
    rw [hn]
    exact Bool.false_ne_true
  unfold ageAnswer at hs ⊢
  cases hkeys : env.keys with
  | none =>
    rw [hkeys] at hs
    exact absurd hs hno
  | some keys =>
    simp only [hkeys] at hs ⊢
    cases hk : ageCheckKeys env keys Amount.zero Amount.zero (a.denomHs.zip a.planchets) with
    | error e =>
      rw [hk] at hs
      exact absurd hs hno
    | ok x =>
      obtain ⟨total, fee, serials⟩ := x
      simp only [hk] at hs ⊢
      cases ha : total.add? fee with
      | none =>
        rw [ha] at hs
        exact absurd hs hno
      | some amount =>
        simp only [ha] at hs ⊢
        by_cases hz : amount = Amount.zero
        · rw [if_pos hz] at hs
          exact absurd hs hno
        rw [if_neg hz] at hs ⊢
        by_cases hv : (a.priced amount serials).commitment.verify c env = true
        swap
        · rw [if_neg hv] at hs
          exact absurd hs hno
        rw [if_pos hv] at hs ⊢
        unfold ageChecked at hs ⊢
        split_ifs at hs ⊢
        · exact absurd hs hno
        · exact absurd hs hno
        · have hpriced : signCandidates env (a.priced amount serials) = signCandidates env a := rfl
          rw [hpriced] at hs ⊢
          cases hsig : signCandidates env a with
          | none =>
            rw [hsig] at hs
            exact absurd hs hno
          | some sigs =>
            simp only [hsig] at hs ⊢
            obtain ⟨i, hi⟩ :=
              @ageTransact_row env db ((a.priced amount serials).signed c env sigs) hn hs
            exact ⟨keys, total, fee, serials, amount, sigs, i, rfl, hk, rfl, hi⟩

/-! ## What is read of it -/

/-- The commitment that is read for a row, with the denominations of its coins. -/
def AgeWithdraw.read (aw : AgeWithdraw) (o : RowOrder) (ds : List Denomination) : AgeCommitment where
  amountWithFee := aw.amountWithFee
  noRevealIndex := aw.noRevealIndex
  numCoins := aw.planchets.length
  maxAge := aw.maxAge
  hCommitment := aw.hCommitment
  reservePub := aw.reservePub
  reserveSig := aw.reserveSig
  hCoinEvs := aw.planchets.map Prod.fst
  denomSigs := aw.planchets.map fun x => x.2.2
  denomPubHashes := o.apply (ds.map Denomination.denomPubHash)

theorem getAgeWithdraw_of_lookup {o : RowOrder} {ach : HashCode} {aw : AgeWithdraw}
    {ds : List Denomination} (h : db.ageWithdraw.lookup ach = some aw)
    (hds : aw.planchets.mapM (fun x => db.denominations.lookupSerial x.2.1) = some ds) :
    getAgeWithdraw o db aw.reservePub ach = .ok (some (aw.read o ds)) := by
  unfold getAgeWithdraw
  simp only [h, ne_eq, not_true_eq_false, if_false, hds]
  rfl

theorem exists_map_some {α β γ : Type} {f : α → Option β} {g : β → γ} {l : List α} {ys : List γ}
    (h : l.map (fun x => (f x).map g) = ys.map some) :
    ∃ ds : List β, l.map f = ds.map some ∧ ds.map g = ys := by
  induction l generalizing ys with
  | nil =>
    obtain rfl : ys = [] := by simpa using h.symm
    exact ⟨[], rfl, rfl⟩
  | cons x l ih =>
    cases ys with
    | nil => simp at h
    | cons y ys =>
      rw [List.map_cons, List.map_cons, List.cons.injEq, Option.map_eq_some_iff] at h
      obtain ⟨⟨d, hd, hy⟩, hl⟩ := h
      obtain ⟨ds, hds, hys⟩ := ih hl
      exact ⟨d :: ds, by rw [List.map_cons, List.map_cons, hd, hds], by rw [List.map_cons, hy, hys]⟩

end Stored

section Commits

variable {c : RevealCrypto} {env : WithdrawEnv} {db db' : Database} {r : AgeRequest}
  {a : AgeContext} {o : RowOrder} {aw : AgeWithdraw}

/-- **What a reveal reads**: the commitment of the request, whatever happened in between. -/
theorem AgeRequest.Starts.commits (ha : r.Starts c.toWithdrawCrypto env a)
    (hload : KeysLoaded db env.keys)
    (hn : db.ageWithdraw.hasKey a.commitment.hCommitment = false)
    (hs : (ageAnswer c.toWithdrawCrypto env db a).1.ageWithdraw.lookup a.commitment.hCommitment =
      some aw)
    (hden : ∀ {n d}, db.denominations.lookupSerial n = some d →
      db'.denominations.lookupSerial n = some d)
    (hk : db'.ageWithdraw.lookup a.commitment.hCommitment = some aw) :
    aw.reservePub = r.reservePub ∧ aw.noRevealIndex = env.noRevealIndex ∧
    ∃ com, getAgeWithdraw o db' r.reservePub a.commitment.hCommitment = .ok (some com) ∧
      Commits c o r a.planchets env.noRevealIndex com ∧
        com.denomSigs = aw.planchets.map fun x => x.2.2 := by
  obtain ⟨hacc, hdenom, hnum, hage, hcommit⟩ := ha.accepted_iff
  obtain ⟨keys, total, fee, serials, amount, sigs, i, hkeys, hcheck, hsig, hrow⟩ :=
    ageAnswer_row hn (Table.hasKey_of_lookup hs)
  obtain rfl := Option.some.inj (hs.symm.trans hrow)
  have hserials := ageCheckKeys_serials hkeys hload hcheck
  have hzip : (a.denomHs.zip a.planchets).length = r.denomHs.length := by
    rw [List.length_zip, hdenom, hacc.length, Nat.min_self]
  have hls : serials.length = r.denomHs.length := by
    rw [← hzip]
    simpa using congrArg List.length hserials
  have hlsig : sigs.length = r.denomHs.length := by
    rw [← hzip]
    simpa using (congrArg List.length (mapM_eq_some.mp hsig)).symm
  have hfst : (a.denomHs.zip a.planchets).map (fun x => some x.1) = r.denomHs.map some := by
    rw [show (fun x : HashCode × KappaPlanchets => some x.1) = some ∘ Prod.fst from rfl,
      ← List.map_map, hdenom, List.map_fst_zip (by rw [hacc.length])]
  obtain ⟨ds, hds, hhs⟩ := @exists_map_some _ _ _ db.denominations.lookupSerial
    Denomination.denomPubHash serials _ (hserials.trans hfst)
  have hds' : serials.map db'.denominations.lookupSerial = ds.map some := by
    refine List.ext_getElem (by simpa using congrArg List.length hds) fun j h₁ h₂ => ?_
    have hj := List.getElem_of_eq hds (i := j) (by simpa using h₁)
    simp only [List.getElem_map] at hj ⊢
    exact hden hj
  set evs := (a.denomHs.zip a.planchets).map fun x => c.coinEvHash (x.2.get env.noRevealIndex) x.1
  have hlevs : evs.length = r.denomHs.length := by rw [List.length_map, hzip]
  set planchets := evs.zip (serials.zip sigs)
  have hlz : (serials.zip sigs).length = r.denomHs.length := by
    rw [List.length_zip, hls, hlsig, Nat.min_self]
  have hfst' : planchets.map Prod.fst = evs := List.map_fst_zip (by rw [hlevs, hlz])
  have hsnd : planchets.map Prod.snd = serials.zip sigs := List.map_snd_zip (by rw [hlevs, hlz])
  have hserials : (serials.zip sigs).map Prod.fst = serials :=
    List.map_fst_zip (by rw [hls, hlsig])
  have hlook : planchets.mapM (fun x => db'.denominations.lookupSerial x.2.1) = some ds := by
    rw [mapM_eq_some, ← hds', ← hserials, ← hsnd, List.map_map, List.map_map]
    rfl
  have hget := getAgeWithdraw_of_lookup (o := o) hk hlook
  change getAgeWithdraw o db' a.commitment.reservePub _ = _ at hget
  rw [ha.reservePub] at hget
  refine ⟨ha.reservePub, rfl, _, hget, ⟨?_, hage, hcommit, rfl, ?_, ?_⟩, rfl⟩
  · show planchets.length = _
    rw [List.length_zip, hlevs, hlz, Nat.min_self]
  · show planchets.map Prod.fst = _
    rw [hfst', ← hdenom]
  · show o.apply (ds.map Denomination.denomPubHash) = _
    rw [hhs]

/-! ## Reveals -/

/-- The signatures that are stored for a commitment. -/
def AgeWithdraw.evSigs (aw : AgeWithdraw) : List Signature := aw.planchets.map fun x => x.2.2

variable (c) in
/-- **A reveal is answered as it is to be**: with the signatures that are stored if and only if it
opens the commitment. -/
def RevealFaithful {D : Denominations} (env : RevealEnv D) (db : Database) (aw : AgeWithdraw)
    (r : AgeRequest) (req : RevealRequest) : Prop :=
  ageWithdrawReveal c env db aw.hCommitment req = .ok aw.evSigs ↔ Opens c D r aw.noRevealIndex req

theorem parseAgeWithdrawRevealJson_eq_some {req : RevealRequest} {secrets : List PlanchetMasterSecret} :
    parseAgeWithdrawRevealJson req = some secrets ↔
      (req.disclosedCoinSecrets.length ≠ 0 ∧ req.disclosedCoinSecrets.length ≤ maxFreshCoins ∧
        ∀ a ∈ req.disclosedCoinSecrets, a.length = cncKappa - 1) ∧
          req.disclosedCoinSecrets.flatten = secrets := by
  unfold parseAgeWithdrawRevealJson
  simp only [Option.ite_none_left_eq_some, not_or, not_lt, not_exists, not_and, not_not,
    Option.some.injEq, ne_eq]

/-- **A reveal is answered with the signatures** if and only if the exchange is ready and the reveal
opens the commitment. -/
theorem ageWithdrawReveal_iff {D : Denominations} {renv : RevealEnv D} {ps : List KappaPlanchets}
    {n : Fin cncKappa} {com : AgeCommitment} {req : RevealRequest} (hacc : r.Accepted ps)
    (hk : db.ageWithdraw.lookup aw.hCommitment = some aw) (haw : aw.reservePub = r.reservePub)
    (hget : getAgeWithdraw renv.order db r.reservePub aw.hCommitment = .ok (some com))
    (hcom : Commits c renv.order r ps n com) (hsigs : com.denomSigs = aw.evSigs) :
    ageWithdrawReveal c renv db aw.hCommitment req = .ok aw.evSigs ↔
      RevealReady renv r.denomHs ∧ Opens c D r n req := by
  unfold ageWithdrawReveal
  by_cases hparse : ∃ secrets, parseAgeWithdrawRevealJson req = some secrets
  swap
  · have hnone : parseAgeWithdrawRevealJson req = none :=
      Option.eq_none_iff_forall_ne_some.mpr fun s hs => hparse ⟨s, hs⟩
    rw [hnone]
    simp only [reduceCtorEq, false_iff, not_and]
    intro _ ho
    refine hparse ⟨_, parseAgeWithdrawRevealJson_eq_some.mpr ⟨⟨?_, ?_, ho.numSecrets⟩, rfl⟩⟩
    · rw [ho.numCoins]
      exact hacc.pos
    · rw [ho.numCoins]
      exact hacc.le
  obtain ⟨secrets, hparse⟩ := hparse
  obtain ⟨⟨-, -, hdis⟩, hflat⟩ := parseAgeWithdrawRevealJson_eq_some.mp hparse
  rw [hparse]
  by_cases hres : req.reservePub = r.reservePub
  swap
  · have hnone : getAgeWithdraw renv.order db req.reservePub aw.hCommitment = .ok none := by
      unfold getAgeWithdraw
      rw [hk]
      dsimp only
      rw [if_pos fun he => hres (he.symm.trans haw)]
    rw [hnone]
    simp only [reduceCtorEq, false_iff, not_and]
    exact fun _ ho => hres ho.reservePub
  have hv := @Commits.verify_iff c D renv r ps n com req hacc hcom hres hdis
  simp only [hres, hget, ← hv, ← hflat]
  cases verifyCommitmentAndMaxAge c renv com req.disclosedCoinSecrets.flatten
    req.disclosedCoinSecrets.length with
  | error e => simp
  | ok u => simp [hsigs]

end Commits

/-- **Reveals**: the request is answered as it is to be, whatever happened since the commitment was
stored, if and only if the exchange is ready or the request does not open the commitment. -/
theorem reveal_iff (c : RevealCrypto) (D : Denominations) (before after : List WithdrawEvent)
    (env : WithdrawEnv) (r : AgeRequest) (aw : AgeWithdraw)
    (hload : KeysLoaded (run (withdrawServe c.toWithdrawCrypto) Database.empty before) env.keys)
    (hcommit : r.hCommitment c.toWithdrawCrypto = some aw.hCommitment)
    (hnew : (run (withdrawServe c.toWithdrawCrypto) Database.empty before).ageWithdraw.hasKey
      aw.hCommitment = false)
    (hstored : (run (withdrawServe c.toWithdrawCrypto) Database.empty
      (before ++ [.withdraw env (.age r)])).ageWithdraw.lookup aw.hCommitment = some aw)
    (renv : RevealEnv D) (req : RevealRequest) :
    RevealFaithful c renv (run (withdrawServe c.toWithdrawCrypto) Database.empty
        (before ++ .withdraw env (.age r) :: after)) aw r req ↔
      (Opens c D r aw.noRevealIndex req → RevealReady renv r.denomHs) := by
  have hi := (@run_withdraw c.toWithdrawCrypto _ withdrawInv_empty before).1
  rw [run_append] at hstored ⊢
  rw [run_cons] at hstored ⊢
  generalize run (withdrawServe c.toWithdrawCrypto) Database.empty before = db at *
  have hserve := withdrawServe_inv hi (.withdraw env (.age r))
  have hkeep := (run_withdraw hserve.1 after).2
  have hden : Keeps db (run (withdrawServe c.toWithdrawCrypto)
      (withdrawServe c.toWithdrawCrypto db (.withdraw env (.age r))) after) := hserve.2.trans hkeep
  have hk := hkeep.age hstored
  change (handlerWithdraw c.toWithdrawCrypto env db (.age r)).1.ageWithdraw.lookup _ = _ at hstored
  cases hctx : ageWithdrawNewRequest c.toWithdrawCrypto env r with
  | none =>
    rw [handlerWithdraw_age_none hctx] at hstored
    rw [Table.hasKey_of_lookup hstored] at hnew
    cases hnew
  | some wc =>
    obtain ⟨a, ha⟩ := ageWithdrawNewRequest_starts hctx
    have hach : aw.hCommitment = a.commitment.hCommitment :=
      Option.some.inj (hcommit.symm.trans ha.hCommitment)
    rw [handlerWithdraw_age ha] at hstored
    rw [hach] at hnew hstored hk
    obtain ⟨haw, hn, com, hget, hcom, hsigs⟩ :=
      ha.commits (o := renv.order) hload hnew hstored hden.serial hk
    rw [← hach] at hget hk
    unfold RevealFaithful
    rw [ageWithdrawReveal_iff ha.accepted_iff.1 hk haw hget hcom hsigs, hn]
    constructor
    · intro h ho
      exact (h.mpr ho).1
    · intro h
      exact ⟨fun h' => h'.2, fun ho => ⟨h ho, ho⟩⟩

/-! ## Sample reveals -/

/-- Planchets that show their secrets. -/
def codeReveal : RevealCrypto :=
  { codeCrypto with
    blindingSecret := fun s _ => s
    coinPriv := fun s _ => s
    coinPub := fun k => k
    coinPubHash := fun p _ => p
    messageBlind := fun _ b _ _ _ => some (.rsa [UInt8.ofNat b])
    csNonce := fun _ => List.Vector.replicate 32 0
    ageSeed := fun s _ i => s + i
    agePublic := fun s => s
    ageBaseDerive := fun s => s
    ageCommitmentHash := Encodable.encode }

/-- Denominations for everybody from eight years on. -/
def denominationsOfThree : Denominations where
  pub _ := keyOfThree.denomPub
  csRPub _ _ := 0

/-- Two denominations of three and ten in a reserve. -/
def twoDenominations : List WithdrawEvent :=
  [.op (.denomination ⟨1, .whole 3, .zero, .zero, .zero, .zero⟩),
   .op (.denomination ⟨2, .whole 3, .zero, .zero, .zero, .zero⟩),
   .op (.reservesIn 9 9 [transferOfTen 4 1])]

/-- The keys of the two denominations. -/
def keysOfThree : KeyState := fun h =>
  if h = 1 then some keyOfThree else if h = 2 then some { keyOfThree with serial := 2 } else none

/-- The second in which the coins are withdrawn, with the last candidate hidden. -/
def secondOfTwo : WithdrawEnv := { second 1 (Fin.last 2) with keys := some keysOfThree }

/-- A coin of each denomination, with the candidates of an honest wallet. -/
def twoCandidates : AgeRequest where
  reservePub := 4
  denomHs := [1, 2]
  blindedPlanchets := [[.rsa [10], .rsa [11], .rsa [12]], [.rsa [20], .rsa [21], .rsa [22]]]
  maxAge := 0
  reserveSig := 1

/-- The row of its commitment. -/
def twoCommitted : AgeWithdraw where
  ageWithdrawId := 1
  hCommitment := codeCrypto.commitmentHash
    [codeCrypto.coinEvHash (.rsa [10]) 1, codeCrypto.coinEvHash (.rsa [11]) 1,
      codeCrypto.coinEvHash (.rsa [12]) 1, codeCrypto.coinEvHash (.rsa [20]) 2,
      codeCrypto.coinEvHash (.rsa [21]) 2, codeCrypto.coinEvHash (.rsa [22]) 2]
  maxAge := 0
  amountWithFee := .whole 6
  reservePub := 4
  reserveSig := 1
  noRevealIndex := 2
  planchets := [(codeCrypto.coinEvHash (.rsa [12]) 1, 1, 7),
    (codeCrypto.coinEvHash (.rsa [22]) 2, 2, 7)]

/-- The secrets of an honest wallet. -/
def twoSecrets : RevealRequest := ⟨4, [[10, 11], [20, 21]]⟩

theorem keysOfThree_pub {h : HashCode} {dk : WithdrawKey} (hk : keysOfThree h = some dk) :
    dk.denomPub = denominationsOfThree.pub h := by
  unfold keysOfThree at hk
  split_ifs at hk <;> obtain rfl := Option.some.inj hk <;> rfl

/-- The exchange at the reveal, with an order of the rows of the sub-select. -/
def revealInOrder (o : RowOrder) : RevealEnv denominationsOfThree where
  keys := some keysOfThree
  keys_pub he hk := keysOfThree_pub (Option.some.inj he ▸ hk)
  csKnown _ := false
  order := o

/-- The rows in their order, and in the other one. -/
def inOrder : RowOrder := ⟨id, fun l => .refl l⟩

def reversed : RowOrder := ⟨List.reverse, List.reverse_perm⟩

theorem keysLoaded_two : KeysLoaded
    (run (withdrawServe codeReveal.toWithdrawCrypto) Database.empty twoDenominations)
    secondOfTwo.keys := by
  intro ks h dk he hk
  obtain rfl := Option.some.inj he
  unfold keysOfThree at hk
  split_ifs at hk with h₁ h₂
  · obtain rfl := Option.some.inj hk
    subst h₁
    exact ⟨⟨1, 1, .whole 3, .zero, .zero, .zero, .zero⟩, by decide +kernel, rfl⟩
  · obtain rfl := Option.some.inj hk
    subst h₂
    exact ⟨⟨2, 2, .whole 3, .zero, .zero, .zero, .zero⟩, by decide +kernel, rfl⟩

theorem reveal_inOrder : RevealFaithful codeReveal (revealInOrder inOrder)
    (run (withdrawServe codeReveal.toWithdrawCrypto) Database.empty
      (twoDenominations ++ [.withdraw secondOfTwo (.age twoCandidates)]))
    twoCommitted twoCandidates twoSecrets :=
  (reveal_iff codeReveal denominationsOfThree twoDenominations [] secondOfTwo twoCandidates
    twoCommitted keysLoaded_two (by decide +kernel) (by decide +kernel) (by decide +kernel)
    (revealInOrder inOrder) twoSecrets).mpr fun _ =>
      ⟨rfl, keysOfThree, rfl, by decide⟩

theorem opens_two : Opens codeReveal denominationsOfThree twoCandidates 2 twoSecrets where
  reservePub := rfl
  numCoins := rfl
  numSecrets := by decide
  derives i h ps secrets hh hp hs k hk hkn := by
    have hi : i = 0 ∨ i = 1 := by
      have := (List.getElem?_eq_some_iff.mp hh).1
      simp only [twoCandidates, List.length_cons, List.length_nil] at this
      omega
    have hk' : k = 0 ∨ k = 1 := by
      unfold cncKappa at hk
      omega
    rcases hi with rfl | rfl <;> cases hh <;> cases hp <;> cases hs <;> rcases hk' with rfl | rfl <;>
      exact ⟨_, _, rfl, rfl, rfl⟩

/-- The hashes of two denominations are delivered in the other order, and an honest reveal is
refused. -/
theorem not_reveal : ¬ RevealFaithful codeReveal (revealInOrder reversed)
    (run (withdrawServe codeReveal.toWithdrawCrypto) Database.empty
      (twoDenominations ++ [.withdraw secondOfTwo (.age twoCandidates)]))
    twoCommitted twoCandidates twoSecrets := by
  intro h
  have hrefused : ageWithdrawReveal codeReveal (revealInOrder reversed)
      (run (withdrawServe codeReveal.toWithdrawCrypto) Database.empty
        (twoDenominations ++ [.withdraw secondOfTwo (.age twoCandidates)]))
      twoCommitted.hCommitment twoSecrets = .error .invalidHash := by decide +kernel
  cases hrefused.symm.trans (h.mpr opens_two)

end TalerExchange
