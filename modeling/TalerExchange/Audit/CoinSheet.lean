import TalerExchange.Audit.Coins
import TalerExchange.Machine.Satisfies
import TalerExchange.Machine.Total
import TalerExchange.Transition.Path

/-!
# The balance sheet of the coin auditor

The risk and the escrow of the sheet against the denominations that are stored.

* `CoinBooks`: the part of a pass they depend on, with `CoinCore.books`;
* `Circulating`: a table has what the auditor knows of each denomination;
* `Sound`: risk and escrow are the sums over this table;
* `sound_coinStep`, `sound_sync`: a row, and the end of a pass;
* **`run_riskInSync`**: the risk is that of the stored denominations after every pass, and can
  always be reduced;
* **`run_escrowAddsUp`**: the escrow is their balance and the revenue, as long as no refreshed coin
  is recouped.
-/

namespace TalerExchange

open Assoc Transition

/-! ## Books -/

/-- What the auditor has of a denomination during a pass. -/
def circulation (summaries : List (HashCode × DenominationSummary))
    (pending : List (HashCode × DenominationCirculation)) (h : HashCode) :
    Option DenominationCirculation :=
  match get summaries h with
  | some ds => some ds.dcd
  | none => get pending h

/-- Summaries, stored denominations, revenue, risk and escrow. -/
structure CoinBooks where
  summaries : List (HashCode × DenominationSummary)
  pending : List (HashCode × DenominationCirculation)
  revenue : List (HashCode × DenomRevenue)
  risk : ℕ
  escrow : ℕ

def CoinCore.books (k : CoinCore) : CoinBooks where
  summaries := k.summaries
  pending := k.db.denominationPending
  revenue := k.db.historicDenominationRevenue
  risk := k.sheet.coinBalanceRisk
  escrow := k.sheet.totalEscrowed

/-- The balance of a denomination. -/
def CoinBooks.balanceOf (b : CoinBooks) (h : HashCode) : ℕ :=
  (circulation b.summaries b.pending h).elim 0 fun dcd => dcd.denomBalance

/-- The table `M` has what the auditor knows of each denomination. -/
structure Circulating (summaries : List (HashCode × DenominationSummary))
    (pending M : List (HashCode × DenominationCirculation)) : Prop where
  keyedSummaries : Keyed summaries
  keyedPending : Keyed pending
  keyed : Keyed M
  lookup : ∀ h, get M h = circulation summaries pending h
  inDb : ∀ h ds, get summaries h = some ds → ds.inDb = (get pending h).isSome

/-- **The risk is the sum over all denominations, and, if `e`, the escrow with the revenue.** -/
def Sound (e : Prop) (b : CoinBooks) : Prop :=
  ∃ M, Circulating b.summaries b.pending M ∧ b.risk = total (fun dcd => dcd.denomRisk) M ∧
    (e → b.escrow = total (fun dcd => dcd.denomBalance) M +
      total (fun r => r.revenueBalance) b.revenue)

/-- The process does not end in a subtraction. -/
def NotNegative (a : CoinAbort) : Prop := a ≠ .negative

theorem notNegative_assertion : NotNegative .assertion := by simp [NotNegative]

theorem notNegative_constraint : NotNegative .constraint := by simp [NotNegative]

section Books

variable {summaries : List (HashCode × DenominationSummary)}
  {pending M : List (HashCode × DenominationCirculation)} {h x : HashCode}
  {ds ds' : DenominationSummary} {f : DenominationCirculation → ℕ} {e e' : Prop} {b : CoinBooks}

theorem circulation_set (h : HashCode) (ds : DenominationSummary) (x : HashCode) :
    circulation (set summaries h ds) pending x =
      if h = x then some ds.dcd else circulation summaries pending x := by
  unfold circulation
  rw [get_set]
  by_cases hx : h = x
  · rw [if_pos hx, if_pos hx]
  · rw [if_neg hx, if_neg hx]

theorem circulation_of_get (hds : get summaries h = some ds) :
    circulation summaries pending h = some ds.dcd := by
  unfold circulation
  rw [hds]

theorem Circulating.get_of_summary (hb : Circulating summaries pending M)
    (hds : get summaries h = some ds) : get M h = some ds.dcd := by
  rw [hb.lookup, circulation_of_get hds]

/-- Another summary of the same denomination. -/
theorem Circulating.set (hb : Circulating summaries pending M)
    (hin : ds.inDb = (get pending h).isSome) :
    Circulating (set summaries h ds) pending (set M h ds.dcd) where
  keyedSummaries := keyed_set hb.keyedSummaries h ds
  keyedPending := hb.keyedPending
  keyed := keyed_set hb.keyed h ds.dcd
  lookup x := by rw [get_set, circulation_set, hb.lookup]
  inDb x ds' hx := by
    rw [get_set] at hx
    split_ifs at hx with hh
    · cases hx
      rw [hin, hh]
    · exact hb.inDb x ds' hx

theorem Circulating.total_set (hb : Circulating summaries pending M)
    (hds : get summaries h = some ds)
    (ds' : DenominationSummary) (f : DenominationCirculation → ℕ) :
    total f (Assoc.set M h ds'.dcd) + f ds.dcd = total f M + f ds'.dcd := by
  have hset := Assoc.total_set (f := f) M h ds'.dcd
  rwa [hb.get_of_summary hds, Option.elim_some] at hset

/-- The order of the summaries does not matter. -/
theorem Circulating.perm {summaries' : List (HashCode × DenominationSummary)}
    (hb : Circulating summaries pending M) (hp : summaries'.Perm summaries) :
    Circulating summaries' pending M where
  keyedSummaries := (hp.map Prod.fst).nodup_iff.mpr hb.keyedSummaries
  keyedPending := hb.keyedPending
  keyed := hb.keyed
  lookup h := by rw [hb.lookup, circulation, circulation, get_perm hb.keyedSummaries hp]
  inDb h ds hds := hb.inDb h ds (by rwa [get_perm hb.keyedSummaries hp] at hds)

/-- A summary that is loaded changes nothing. -/
theorem Circulating.total_load (hb : Circulating summaries pending M)
    (hnone : get summaries h = none)
    (hdcd : ds.dcd = (get pending h).getD {}) (hf : f {} = 0) :
    total f (Assoc.set M h ds.dcd) = total f M := by
  have hset := Assoc.total_set (f := f) M h ds.dcd
  have hget : get M h = get pending h := by
    rw [hb.lookup, circulation, hnone]
  rw [hget, hdcd] at hset
  rw [hdcd]
  cases hp : get pending h with
  | none =>
    rw [hp, Option.elim_none, Option.getD_none, hf] at hset
    exact hset
  | some dcd =>
    rw [hp, Option.elim_some, Option.getD_some] at hset
    exact Nat.add_right_cancel hset

theorem Sound.mono (hs : Sound e b) (he : e' → e) : Sound e' b := by
  obtain ⟨M, hb, hr, hesc⟩ := hs
  exact ⟨M, hb, hr, fun h => hesc (he h)⟩

/-- The summary of a denomination, the risk and the escrow change by the same. -/
theorem Sound.update (hs : Sound e b) (hds : get b.summaries h = some ds)
    (ds' : DenominationSummary) (hin : ds'.inDb = ds.inDb) {risk escrow : ℕ}
    (hrisk : risk + ds.dcd.denomRisk = b.risk + ds'.dcd.denomRisk)
    (hescrow : e' → e ∧ escrow + ds.dcd.denomBalance = b.escrow + ds'.dcd.denomBalance) :
    Sound e'
      { b with summaries := Assoc.set b.summaries h ds', risk := risk, escrow := escrow } := by
  obtain ⟨M, hb, hr, hesc⟩ := hs
  refine ⟨_, hb.set (hin.trans (hb.inDb h ds hds)), ?_, fun he => ?_⟩
  · have htotal := hb.total_set hds ds' fun dcd => dcd.denomRisk
    show risk = _
    omega
  · obtain ⟨he, heq⟩ := hescrow he
    have htotal := hb.total_set hds ds' fun dcd => dcd.denomBalance
    have hescrow := hesc he
    show escrow = _ + total _ b.revenue
    omega

/-- No balance exceeds the escrow. -/
theorem Sound.balance_le (hs : Sound e b) (he : e) (hds : get b.summaries h = some ds) :
    ds.dcd.denomBalance ≤ b.escrow := by
  obtain ⟨M, hb, -, hesc⟩ := hs
  have hle := le_total_of_get (f := fun dcd : DenominationCirculation => dcd.denomBalance)
    (hb.get_of_summary hds)
  have hescrow := hesc he
  omega

theorem balanceOf_of_get (hds : get b.summaries h = some ds) :
    b.balanceOf h = ds.dcd.denomBalance := by
  unfold CoinBooks.balanceOf
  rw [circulation_of_get hds]
  rfl

theorem balanceOf_set (b : CoinBooks) (h : HashCode) (ds : DenominationSummary) (x : HashCode) :
    CoinBooks.balanceOf { b with summaries := set b.summaries h ds } x =
      if h = x then ds.dcd.denomBalance else b.balanceOf x := by
  unfold CoinBooks.balanceOf
  rw [circulation_set]
  split_ifs <;> rfl

end Books

/-! ## What does not touch the books -/

section Untouched

variable {k : CoinCore} {env : CoinAuditEnv}

theorem satisfies_amountAdd (a b : ℕ) :
    Satisfies (fun c => c = a + b) NotNegative (amountAdd a b) := by
  unfold amountAdd
  exact .ite (fun _ => rfl) fun _ => by simp [Satisfies, NotNegative]

/-- The books are those of before. -/
def SameBooks (k : CoinCore) (x : CoinAudit) : Prop :=
  Satisfies (fun k' => k'.books = k.books) NotNegative x

theorem SameBooks.bind {k : CoinCore} {x : CoinAudit} {f : CoinCore → CoinAudit}
    (hx : SameBooks k x) (hf : ∀ k', k'.books = k.books → SameBooks k' (f k')) :
    SameBooks k (x >>= f) :=
  Satisfies.bind hx fun k' hk' => (hf k' hk').mono (fun _ h => h.trans hk') fun _ h => h

/-- Something that does not touch the books is done first. -/
theorem SameBooks.andThen {P : CoinCore → Prop} {x : CoinAudit} {f : CoinCore → CoinAudit}
    (hx : SameBooks k x) (hf : ∀ k', k'.books = k.books → Satisfies P NotNegative (f k')) :
    Satisfies P NotNegative (x >>= f) := Satisfies.bind hx hf

/-- A sum that is computed on the way. -/
theorem SameBooks.amountAdd {a b : ℕ} {f : ℕ → CoinAudit} (hf : ∀ c, SameBooks k (f c)) :
    SameBooks k (TalerExchange.amountAdd a b >>= f) :=
  (satisfies_amountAdd a b).bind fun c _ => hf c

theorem SameBooks.ok {k' : CoinCore} (h : k'.books = k.books) : SameBooks k (.ok k') := h

theorem sameBooks_bookDelta (k : CoinCore) (delta : ℕ) (profitable : ℤ) :
    SameBooks k (k.bookDelta delta profitable) := by
  unfold CoinCore.bookDelta
  refine Satisfies.ite (fun _ => rfl) fun _ => Satisfies.ite (fun _ => ?_) fun _ => ?_
  · exact SameBooks.amountAdd fun _ => SameBooks.ok rfl
  · exact SameBooks.amountAdd fun _ => SameBooks.ok rfl

theorem sameBooks_amountArithmetic (k : CoinCore) (operation : String)
    (rowid exchangeAmount auditorAmount : ℕ) (profitable : ℤ) :
    SameBooks k (k.amountArithmeticInconsistency operation rowid exchangeAmount auditorAmount
      profitable) := by
  unfold CoinCore.amountArithmeticInconsistency
  exact sameBooks_bookDelta _ _ _

theorem sameBooks_badSigLoss (k : CoinCore) (operation : String) (rowid : ℕ) (coinPub : CoinPub)
    (loss : ℕ) : SameBooks k (k.badSigLoss operation rowid coinPub loss) := by
  unfold CoinCore.badSigLoss
  exact SameBooks.amountAdd fun _ => SameBooks.ok rfl

/-- Something that is done or not. -/
theorem SameBooks.ite {c : Prop} [Decidable c] {x y : CoinAudit} (hx : SameBooks k x)
    (hy : SameBooks k y) : SameBooks k (if c then x else y) :=
  Satisfies.ite (fun _ => hx) fun _ => hy

theorem satisfies_historyStep (s : HistorySums) (tx : AuditedTransaction) :
    Satisfies (fun _ => True) NotNegative (historyStep s tx) := by
  cases tx <;> unfold historyStep
  case refund | purseRefund =>
    exact (satisfies_amountAdd _ _).bind fun _ _ =>
      (satisfies_amountAdd _ _).bind fun _ _ => trivial
  all_goals exact (satisfies_amountAdd _ _).bind fun _ _ => trivial

theorem sameBooks_checkCoinHistory (k : CoinCore) (coinPub : CoinPub) (rowid : ℕ)
    (operation : String) (value : ℕ) :
    SameBooks k (checkCoinHistory env k coinPub rowid operation value) := by
  unfold checkCoinHistory
  refine (Satisfies.foldlM (fun tx _ s _ => satisfies_historyStep s tx) trivial).bind fun s _ => ?_
  refine SameBooks.amountAdd fun refunded => SameBooks.amountAdd fun total => ?_
  refine SameBooks.bind (SameBooks.ite (sameBooks_amountArithmetic _ _ _ _ _ _) (SameBooks.ok rfl))
    fun k' _ => ?_
  exact SameBooks.ok rfl

theorem sameBooks_checkKnownCoin (k : CoinCore) (operation : String) (issue : CoinDenomination)
    (rowid : ℕ) (coinPub : CoinPub) (hDenomPub : HashCode) (lossPotential : ℕ) :
    SameBooks k (checkKnownCoin env k operation issue rowid coinPub hDenomPub lossPotential) := by
  unfold checkKnownCoin
  refine SameBooks.bind (SameBooks.ite (SameBooks.ok rfl) (sameBooks_checkCoinHistory _ _ _ _ _))
    fun k' _ => ?_
  exact SameBooks.ite (SameBooks.ok rfl) (sameBooks_badSigLoss _ _ _ _ _)

end Untouched

/-! ## What does -/

section Touched

variable {k : CoinCore} {env : CoinAuditEnv} {issue : CoinDenomination} {h : HashCode}
  {ds : DenominationSummary} {e : Prop}

theorem Sound.of_books {k k' : CoinCore} (hs : Sound e k.books) (hk : k'.books = k.books) :
    Sound e k'.books := hk ▸ hs

theorem Sound.setSummary (hs : Sound e k.books) (hnone : get k.summaries h = none)
    (hdcd : ds.dcd = (get k.db.denominationPending h).getD {})
    (hin : ds.inDb = (get k.db.denominationPending h).isSome) :
    Sound e (k.setSummary h ds).books ∧
      (k.setSummary h ds).books.balanceOf = k.books.balanceOf := by
  obtain ⟨M, hb, hr, hesc⟩ := hs
  refine ⟨⟨_, hb.set hin, ?_, fun he => ?_⟩, ?_⟩
  · rw [hb.total_load hnone hdcd rfl]
    exact hr
  · rw [hb.total_load hnone hdcd rfl]
    exact hesc he
  · funext x
    show CoinBooks.balanceOf { k.books with summaries := Assoc.set k.books.summaries h ds } x = _
    rw [balanceOf_set]
    split_ifs with hx
    · rw [← hx, CoinBooks.balanceOf, circulation]
      show _ = (match get k.summaries h with
        | some ds => some ds.dcd
        | none => get k.db.denominationPending h).elim 0 _
      rw [hnone, hdcd]
      cases get k.db.denominationPending h <;> rfl
    · rfl

theorem loadDenomination_spec (db : AuditorCoinDb) (issue : CoinDenomination) (h : HashCode) :
    (db.loadDenomination issue h).dcd = (get db.denominationPending h).getD {} ∧
      (db.loadDenomination issue h).inDb = (get db.denominationPending h).isSome := by
  unfold AuditorCoinDb.loadDenomination
  cases get db.denominationPending h <;> exact ⟨rfl, rfl⟩

/-- What `get_denomination_summary` returns. -/
theorem getDenominationSummary_spec (hs : Sound e k.books) (issue : CoinDenomination)
    (h : HashCode) :
    ∃ k' ds, getDenominationSummary env k issue h = (k', ds) ∧ get k'.summaries h = some ds ∧
      Sound e k'.books ∧ k'.books.balanceOf = k.books.balanceOf := by
  unfold getDenominationSummary
  cases hget : get k.summaries h with
  | some ds => exact ⟨k, ds, rfl, hget, hs, rfl⟩
  | none =>
    obtain ⟨hdcd, hin⟩ := loadDenomination_spec k.db issue h
    cases env.revocation h with
    | none =>
      obtain ⟨hsound, hbal⟩ := hs.setSummary hget hdcd hin
      exact ⟨_, _, rfl, by simp [CoinCore.setSummary], hsound, hbal⟩
    | some r =>
      obtain ⟨valid, rowid⟩ := r
      cases valid with
      | true =>
        obtain ⟨hsound, hbal⟩ := @Sound.setSummary k h
          { k.db.loadDenomination issue h with wasRevoked := true } e hs hget hdcd hin
        exact ⟨_, _, rfl, by simp [CoinCore.setSummary], hsound, hbal⟩
      | false =>
        obtain ⟨hsound, hbal⟩ := hs.setSummary hget hdcd hin
        exact ⟨_, _, rfl, by simp [CoinCore.setSummary], hsound, hbal⟩

/-- A value that is put into circulation counts on both sides. -/
theorem sound_circulate {ds₀ : DenominationSummary} {value : ℕ} (hs : Sound e k.books)
    (hget : get k.summaries h = some ds₀) (hin : ds.inDb = ds₀.inDb)
    (hbal : ds.dcd.denomBalance = ds₀.dcd.denomBalance)
    (hrisk : ds.dcd.denomRisk = ds₀.dcd.denomRisk) :
    Satisfies (fun k' => Sound e k'.books ∧
      ∀ x, k'.books.balanceOf x = k.books.balanceOf x + if h = x then value else 0) NotNegative
      (k.circulate h ds value) := by
  unfold CoinCore.circulate
  refine (satisfies_amountAdd _ _).bind ?_
  rintro denomBalance hdb
  refine (satisfies_amountAdd _ _).bind ?_
  rintro denomRisk hdr
  refine (satisfies_amountAdd _ _).bind ?_
  rintro escrow hesc
  refine (satisfies_amountAdd _ _).bind ?_
  rintro risk hr
  let ds' := { ds with dcd.denomBalance := denomBalance, dcd.denomRisk := denomRisk }
  refine ⟨hs.update hget ds' hin ?_ fun he => ⟨he, ?_⟩, fun x => ?_⟩
  · show risk + _ = k.sheet.coinBalanceRisk + denomRisk
    omega
  · show escrow + _ = k.sheet.totalEscrowed + denomBalance
    omega
  · show CoinBooks.balanceOf { k.books with
      summaries := Assoc.set k.books.summaries h ds' } x = _
    rw [balanceOf_set]
    split_ifs with hx
    · rw [← hx, balanceOf_of_get hget]
      show denomBalance = _
      omega
    · rfl

/-- A coin that is issued. -/
theorem sound_issueCoin (hs : Sound e k.books) (h : HashCode) (issue : CoinDenomination) :
    Satisfies (fun k' => Sound e k'.books ∧
      ∀ x, k'.books.balanceOf x = k.books.balanceOf x + if h = x then issue.value else 0)
      NotNegative
      (issueCoin env k h issue) := by
  obtain ⟨k₁, ds, hds, hget, hs₁, hbal⟩ := getDenominationSummary_spec hs issue h
  unfold issueCoin
  rw [hds, ← hbal]
  exact sound_circulate hs₁ hget rfl rfl rfl

theorem sound_restoreCoin (hs : Sound e k.books) (h : HashCode) (issue : CoinDenomination)
    (amount : ℕ) :
    Satisfies (fun k' => Sound e k'.books) NotNegative (restoreCoin env k h issue amount) := by
  obtain ⟨k₁, ds, hds, hget, hs₁, -⟩ := getDenominationSummary_spec hs issue h
  unfold restoreCoin
  rw [hds]
  exact (sound_circulate hs₁ hget rfl rfl rfl).mono (fun _ h => h.1) fun _ h => h

/-- A value that is spent counts on both sides if the balance covers it. -/
theorem sound_reduceDenomBalance (hs : Sound e k.books) (issue : CoinDenomination) (h : HashCode)
    (rowid amount : ℕ) :
    Satisfies (fun k' => Sound (e ∧ amount ≤ k.books.balanceOf h) k'.books) NotNegative
      (reduceDenomBalance env k issue h rowid amount) := by
  obtain ⟨k₁, ds, hds, hget, hs₁, hbal⟩ := getDenominationSummary_spec hs issue h
  unfold reduceDenomBalance
  rw [hds, ← hbal, balanceOf_of_get hget]
  have hreduce : Satisfies (fun ds' => ds'.inDb = ds.inDb ∧ ds'.dcd.denomRisk = ds.dcd.denomRisk ∧
      (amount ≤ ds.dcd.denomBalance → ds'.dcd.denomBalance + amount = ds.dcd.denomBalance))
      NotNegative (ds.reduce amount) := by
    unfold DenominationSummary.reduce
    refine Satisfies.ite (fun hle => ⟨rfl, rfl, fun _ => Nat.sub_add_cancel hle⟩) fun hle => ?_
    exact (satisfies_amountAdd _ _).bind fun _ _ => ⟨rfl, rfl, fun h => absurd h hle⟩
  refine hreduce.bind ?_
  rintro ds' ⟨hin, hrisk, hbalance⟩
  refine Satisfies.ite (fun hlt => ?_) fun hle => ?_
  · refine (sameBooks_amountArithmetic _ _ _ _ _ _).mono (fun k' hk' => ?_) fun _ h => h
    rw [hk']
    refine hs₁.update hget ds' hin ?_ fun he => absurd (hs₁.balance_le he.1 hget) ?_
    · show k₁.sheet.coinBalanceRisk + _ = _
      rw [hrisk]
      rfl
    · have hlt : k₁.sheet.totalEscrowed < amount := hlt
      show ¬ ds.dcd.denomBalance ≤ k₁.sheet.totalEscrowed
      omega
  · refine hs₁.update hget ds' hin ?_ fun he => ⟨he.1, ?_⟩
    · show k₁.sheet.coinBalanceRisk + _ = _
      rw [hrisk]
      rfl
    · have hle : ¬ k₁.sheet.totalEscrowed < amount := hle
      have heq := hbalance he.2
      show k₁.sheet.totalEscrowed - amount + _ = k₁.sheet.totalEscrowed + _
      omega

/-- A sum on the way. -/
theorem Satisfies.amountAdd {P : CoinCore → Prop} {a b : ℕ} {f : ℕ → CoinAudit}
    (hf : ∀ c, Satisfies P NotNegative (f c)) :
    Satisfies P NotNegative (TalerExchange.amountAdd a b >>= f) :=
  (satisfies_amountAdd a b).bind fun c _ => hf c

theorem sound_bookRecoup (hs : Sound e k.books) (operation : String) (rowid amount : ℕ)
    (coinPub : CoinPub) (issue : CoinDenomination) (h : HashCode) :
    Satisfies (fun k' => Sound e k'.books) NotNegative
      (bookRecoup env k operation rowid amount coinPub issue h) := by
  obtain ⟨k₁, ds, hds, hget, hs₁, -⟩ := getDenominationSummary_spec hs issue h
  unfold bookRecoup
  rw [hds]
  refine SameBooks.andThen (SameBooks.ite (SameBooks.ok rfl) (sameBooks_badSigLoss _ _ _ _ _))
    fun k₂ hk₂ => ?_
  refine Satisfies.amountAdd fun recoupLoss => Satisfies.amountAdd fun total => ?_
  have hget₂ : get k₂.books.summaries h = some ds := by
    rw [hk₂]
    exact hget
  exact (hs₁.of_books hk₂).update hget₂ { ds with dcd.recoupLoss := recoupLoss } rfl rfl
    fun he => ⟨he, rfl⟩

theorem sound_checkRecoup (hs : Sound e k.books) (operation : String) (rowid amount : ℕ)
    (coinPub : CoinPub) (denomPubHash : HashCode) (coinSig : Signature) (coinBlind : ℕ) :
    Satisfies (fun k' => Sound e k'.books) NotNegative
      (checkRecoup env k operation rowid amount coinPub denomPubHash coinSig coinBlind) := by
  unfold checkRecoup
  have hk : (if env.recoupVerify denomPubHash coinBlind coinPub coinSig then k
      else k.report (.row operation rowid "recoup signature invalid")).books = k.books := by
    split_ifs <;> rfl
  refine SameBooks.andThen (SameBooks.ite (SameBooks.ok rfl) (sameBooks_badSigLoss _ _ _ _ _))
    fun k₁ hk₁ => ?_
  have hs₁ := (hs.of_books hk).of_books hk₁
  cases env.denomination denomPubHash with
  | none => exact hs₁
  | some issue =>
    refine SameBooks.andThen (sameBooks_checkKnownCoin _ _ _ _ _ _ _) fun k₂ hk₂ => ?_
    exact sound_bookRecoup (hs₁.of_books hk₂) _ _ _ _ _ _

end Touched

/-! ## Rows -/

section Rows

variable {k : CoinCore} {e : Prop} (env : CoinAuditEnv)

/-- The coins of a melt, as far as their denominations are known. -/
def freshCoins (row : MeltRow) : List (HashCode × CoinDenomination) :=
  (env.refreshReveal row.rc).filterMap fun h => (env.denomination h).map fun ni => (h, ni)

/-- The value of those of a denomination. -/
def freshValue (fresh : List (HashCode × CoinDenomination)) (h : HashCode) : ℕ :=
  (fresh.map fun ni => if ni.1 = h then ni.2.value else 0).sum

/-- A melt was revealed, and all denominations are known. -/
def Revealed (row : MeltRow) : Prop :=
  env.refreshReveal row.rc ≠ [] ∧ ∀ h ∈ env.refreshReveal row.rc, (env.denomination h).isSome

/-- **What a row spends is covered**: no more than what was issued of the denomination and is not
spent. -/
def Covered (b : CoinBooks) : CoinRow → Prop
  | .deposit row => (env.denomination row.hDenomPub).isSome → env.depositVerify row →
      row.amountWithFee ≤ b.balanceOf row.hDenomPub
  | .purseDeposit row => (env.denomination row.hDenomPub).isSome → env.purseDepositVerify row →
      row.amount ≤ b.balanceOf row.hDenomPub
  | .melt row => (env.denomination row.hDenomPub).isSome → Revealed env row →
      row.amountWithFee ≤ b.balanceOf row.hDenomPub + freshValue (freshCoins env row) row.hDenomPub
  | _ => True

/-- No value of a refreshed coin is recouped. -/
def NotRecoupRefresh : CoinRow → Prop
  | .recoupRefresh row => row.amount = 0
  | _ => True

variable {env}

theorem sound_recoupOldCoin (hs : Sound e k.books) (row : RecoupRefreshRow) :
    Satisfies (fun k' => Sound (e ∧ row.amount = 0) k'.books) NotNegative
      (recoupOldCoin env k row) := by
  unfold recoupOldCoin
  cases env.denomination row.oldDenomPubHash with
  | none => exact notNegative_assertion
  | some issue =>
    obtain ⟨k₁, ds, hds, hget, hs₁, -⟩ := getDenominationSummary_spec hs issue row.oldDenomPubHash
    dsimp only
    rw [hds]
    refine (satisfies_amountAdd _ _).bind fun balance hbalance => ?_
    refine hs₁.update hget { ds with dcd.denomBalance := balance } rfl rfl fun he => ⟨he.1, ?_⟩
    show k₁.books.escrow + _ = k₁.books.escrow + balance
    rw [hbalance, he.2, add_zero]

theorem sound_recoupRefreshCb (hs : Sound e k.books) (row : RecoupRefreshRow) :
    Satisfies (fun k' => Sound (e ∧ row.amount = 0) k'.books) NotNegative
      (recoupRefreshCb env k row) := by
  unfold recoupRefreshCb
  refine Satisfies.bind (sound_recoupOldCoin (by exact hs) row) fun k₁ hs₁ => ?_
  refine Satisfies.ite (fun _ => sound_checkRecoup hs₁ _ _ _ _ _ _ _) fun _ => ?_
  exact (sameBooks_badSigLoss _ _ _ _ _).mono (fun _ hk => hs₁.of_books hk) fun _ h => h

theorem sound_withdrawCb (hs : Sound e k.books) (row : WithdrawalRow) :
    Satisfies (fun k' => Sound e k'.books) NotNegative (withdrawCb env k row) := by
  unfold withdrawCb
  cases env.denomination row.hDenomPub with
  | none => exact hs
  | some issue =>
    exact (sound_issueCoin (by exact hs) _ _).mono (fun _ h => h.1) fun _ h => h

theorem sound_recoupCb (hs : Sound e k.books) (row : RecoupRow) :
    Satisfies (fun k' => Sound e k'.books) NotNegative (recoupCb env k row) := by
  unfold recoupCb
  refine Satisfies.ite (fun _ => sound_checkRecoup (by exact hs) _ _ _ _ _ _ _) fun _ => ?_
  exact (sameBooks_badSigLoss _ _ _ _ _).mono (fun _ hk => hs.of_books hk) fun _ h => h

/-- A spent value with its deposit fee. -/
theorem sound_spend (hs : Sound e k.books) (issue : CoinDenomination) (h : HashCode)
    (rowid amount : ℕ) :
    Satisfies (fun k' => Sound (e ∧ amount ≤ k.books.balanceOf h) k'.books) NotNegative
      (do
        let k ← reduceDenomBalance env k issue h rowid amount
        let revenue ← amountAdd k.sheet.coinDepositFeeRevenue issue.feeDeposit
        return { k with sheet.coinDepositFeeRevenue := revenue }) :=
  (sound_reduceDenomBalance hs issue h rowid amount).bind fun _ hs₁ =>
    Satisfies.amountAdd fun _ => hs₁

theorem sound_depositCb (hs : Sound e k.books) (row : CoinDepositRow) :
    Satisfies (fun k' => Sound (e ∧ Covered env k.books (.deposit row)) k'.books) NotNegative
      (depositCb env k row) := by
  unfold depositCb
  cases hd : env.denomination row.hDenomPub with
  | none => exact hs.mono And.left
  | some issue =>
    have hk : (if row.wireDeadline < row.refundDeadline then
        CoinCore.report { k with progress.deposit := row.rowid + 1 }
          (.row "deposits" row.rowid "refund deadline past wire deadline")
        else { k with progress.deposit := row.rowid + 1 }).books = k.books := by
      split_ifs <;> rfl
    refine SameBooks.andThen (sameBooks_checkKnownCoin _ _ _ _ _ _ _) fun k₁ hk₁ => ?_
    have hs₁ := (hs.of_books hk).of_books hk₁
    refine Satisfies.ite (fun hv => ?_) fun _ => ?_
    · refine (sound_spend hs₁ _ _ _ _).mono (fun _ hs₂ => hs₂.mono fun he => ⟨he.1, ?_⟩)
        fun _ h => h
      rw [hk₁, hk]
      exact he.2 (by rw [hd]; rfl) hv
    · exact (sameBooks_badSigLoss _ _ _ _ _).mono
        (fun _ hk₂ => (hs₁.of_books hk₂).mono And.left) fun _ h => h

theorem sound_purseDepositCb (hs : Sound e k.books) (row : PurseDepositRow) :
    Satisfies (fun k' => Sound (e ∧ Covered env k.books (.purseDeposit row)) k'.books) NotNegative
      (purseDepositCb env k row) := by
  unfold purseDepositCb
  cases hd : env.denomination row.hDenomPub with
  | none => exact hs.mono And.left
  | some issue =>
    refine SameBooks.andThen (sameBooks_checkKnownCoin _ _ _ _ _ _ _) fun k₁ hk₁ => ?_
    have hs₁ := hs.of_books hk₁
    refine Satisfies.ite (fun hv => ?_) fun _ => ?_
    · refine (sound_spend hs₁ _ _ _ _).mono (fun _ hs₂ => hs₂.mono fun he => ⟨he.1, ?_⟩)
        fun _ h => h
      rw [hk₁]
      exact he.2 (by rw [hd]; rfl) hv
    · exact (sameBooks_badSigLoss _ _ _ _ _).mono
        (fun _ hk₂ => (hs₁.of_books hk₂).mono And.left) fun _ h => h

theorem sound_refundCb (hs : Sound e k.books) (row : CoinRefundRow) :
    Satisfies (fun k' => Sound e k'.books) NotNegative (refundCb env k row) := by
  unfold refundCb
  cases env.denomination row.hDenomPub with
  | none => exact hs
  | some issue =>
    refine Satisfies.ite (fun _ => ?_) fun _ =>
      Satisfies.ite (fun _ => notNegative_assertion) fun _ => ?_
    · exact (sameBooks_badSigLoss _ _ _ _ _).mono (fun _ hk => hs.of_books hk) fun _ h => h
    · refine (sound_restoreCoin (by exact hs) _ _ _).bind fun k₁ hs₁ => ?_
      exact Satisfies.amountAdd fun _ => Satisfies.amountAdd fun _ => hs₁

theorem sound_purseRefundCoinCb (hs : Sound e k.books) (row : PurseDepositRow) :
    Satisfies (fun k' => Sound e k'.books) NotNegative (purseRefundCoinCb env k row) := by
  unfold purseRefundCoinCb
  cases env.denomination row.hDenomPub with
  | none => exact hs
  | some issue =>
    refine (sound_restoreCoin hs _ _ _).bind fun k₁ hs₁ => ?_
    exact Satisfies.amountAdd fun _ => hs₁

theorem sound_purseRefundCb (hs : Sound e k.books) (row : PurseRefundRow) :
    Satisfies (fun k' => Sound e k'.books) NotNegative (purseRefundCb env k row) := by
  unfold purseRefundCb
  exact Satisfies.foldlM (fun row _ k' hk' => sound_purseRefundCoinCb hk' row) (by exact hs)

/-- The fresh coins of a melt are issued one by one. -/
theorem sound_issueAll (hs : Sound e k.books) (fresh : List (HashCode × CoinDenomination)) :
    Satisfies (fun k' => Sound e k'.books ∧
      ∀ x, k'.books.balanceOf x = k.books.balanceOf x + freshValue fresh x) NotNegative
      (fresh.foldlM (fun k ni => issueCoin env k ni.1 ni.2) k) := by
  induction fresh generalizing k with
  | nil => exact ⟨hs, fun _ => rfl⟩
  | cons ni fresh ih =>
    rw [List.foldlM_cons]
    refine (sound_issueCoin hs ni.1 ni.2).bind ?_
    rintro k₁ ⟨hs₁, hbal₁⟩
    refine (ih hs₁).mono (fun k₂ hk₂ => ⟨hk₂.1, fun x => ?_⟩) fun _ h => h
    rw [hk₂.2, hbal₁, freshValue, freshValue, List.map_cons, List.sum_cons, add_assoc]

theorem sound_refreshRevealed (hs : Sound e k.books) (row : MeltRow) (issue : CoinDenomination)
    (fresh : List (HashCode × CoinDenomination)) :
    Satisfies (fun k' => Sound (e ∧ row.amountWithFee ≤
        k.books.balanceOf row.hDenomPub + freshValue fresh row.hDenomPub) k'.books) NotNegative
      (refreshRevealed env k row issue fresh) := by
  unfold refreshRevealed
  have hcost : Satisfies (fun _ : ℕ => True) NotNegative (fresh.foldlM (fun cost ni => do
      let cost ← amountAdd cost ni.2.feeWithdraw
      amountAdd cost ni.2.value) 0) :=
    Satisfies.foldlM (fun ni _ cost _ => (satisfies_amountAdd _ _).bind fun _ _ =>
      (satisfies_amountAdd _ _).mono (fun _ _ => trivial) fun _ h => h) trivial
  refine hcost.bind fun cost _ => ?_
  refine SameBooks.andThen
    (SameBooks.ite (sameBooks_amountArithmetic _ _ _ _ _ _) (SameBooks.ok rfl)) fun k₁ hk₁ => ?_
  refine SameBooks.andThen
    (SameBooks.ite (sameBooks_amountArithmetic _ _ _ _ _ _) (SameBooks.ok rfl)) fun k₂ hk₂ => ?_
  refine (sound_issueAll ((hs.of_books hk₁).of_books hk₂) fresh).bind ?_
  rintro k₃ ⟨hs₃, hbal₃⟩
  refine (sound_reduceDenomBalance hs₃ issue row.hDenomPub row.rowid row.amountWithFee).bind
    fun k₄ hs₄ => ?_
  rw [hbal₃, hk₂, hk₁] at hs₄
  exact Satisfies.amountAdd fun _ => hs₄

theorem sound_refreshSessionCb (hs : Sound e k.books) (row : MeltRow) :
    Satisfies (fun k' => Sound (e ∧ Covered env k.books (.melt row)) k'.books) NotNegative
      (refreshSessionCb env k row) := by
  unfold refreshSessionCb
  cases hd : env.denomination row.hDenomPub with
  | none => exact hs.mono And.left
  | some issue =>
    refine SameBooks.andThen (sameBooks_checkKnownCoin _ _ _ _ _ _ _) fun k₁ hk₁ => ?_
    refine SameBooks.andThen (SameBooks.ite (SameBooks.ok rfl) (sameBooks_badSigLoss _ _ _ _ _))
      fun k₂ hk₂ => ?_
    have hs₂ := (hs.of_books hk₁).of_books hk₂
    refine Satisfies.ite (fun _ => ?_) fun hne => Satisfies.ite (fun hall => ?_) fun _ => ?_
    · exact Satisfies.amountAdd fun _ => hs₂.mono And.left
    · refine (sound_refreshRevealed hs₂ row issue (freshCoins env row)).mono
        (fun _ hs₃ => hs₃.mono fun he => ⟨he.1, ?_⟩) fun _ h => h
      rw [hk₂, hk₁]
      refine he.2 (by rw [hd]; rfl) ⟨fun h => hne (by rw [h]; rfl), fun x hx => ?_⟩
      rw [List.isEmpty_iff, List.filter_eq_nil_iff] at hall
      simpa [Option.isSome_iff_ne_none] using hall x hx
    · refine Satisfies.ok ((hs₂.mono And.left).of_books ?_)
      generalize (env.refreshReveal row.rc).filter _ = unknown
      clear hs₂ hk₂
      induction unknown generalizing k₂ with
      | nil => rfl
      | cons x unknown ih =>
        rw [List.foldl_cons, ih]
        rfl

/-- **A row keeps risk and denominations in step; it does so with the escrow if what it spends is
covered and it does not recoup a refreshed coin.** -/
theorem sound_coinStep (hs : Sound e k.books) (row : CoinRow) :
    Satisfies (fun k' => Sound (e ∧ Covered env k.books row ∧ NotRecoupRefresh row) k'.books)
      NotNegative (coinStep env k row) := by
  cases row with
  | withdraw row =>
    exact (sound_withdrawCb hs row).mono (fun _ h => h.mono And.left) fun _ h => h
  | recoupRefresh row =>
    exact (sound_recoupRefreshCb hs row).mono (fun _ h => h.mono fun he => ⟨he.1, he.2.2⟩)
      fun _ h => h
  | deposit row =>
    exact (sound_depositCb hs row).mono (fun _ h => h.mono fun he => ⟨he.1, he.2.1⟩) fun _ h => h
  | purseDeposit row =>
    exact (sound_purseDepositCb hs row).mono (fun _ h => h.mono fun he => ⟨he.1, he.2.1⟩)
      fun _ h => h
  | refund row => exact (sound_refundCb hs row).mono (fun _ h => h.mono And.left) fun _ h => h
  | purseRefund row =>
    exact (sound_purseRefundCb hs row).mono (fun _ h => h.mono And.left) fun _ h => h
  | melt row =>
    exact (sound_refreshSessionCb hs row).mono (fun _ h => h.mono fun he => ⟨he.1, he.2.1⟩)
      fun _ h => h
  | recoup row => exact (sound_recoupCb hs row).mono (fun _ h => h.mono And.left) fun _ h => h

end Rows

/-! ## The end of a pass -/

section Sync

variable {k : CoinCore} {env : CoinAuditEnv} {h : HashCode} {ds : DenominationSummary} {e : Prop}
  {rest : List (HashCode × DenominationSummary)}

/-- The books with the summaries that have not been stored. -/
def CoinCore.booksWith (k : CoinCore) (rest : List (HashCode × DenominationSummary)) : CoinBooks :=
  { k.books with summaries := rest }

theorem SameBooks.with {k' : CoinCore} (hk : k'.books = k.books) :
    k'.booksWith rest = k.booksWith rest := by
  unfold CoinCore.booksWith
  rw [hk]

section Entry

variable {pending M : List (HashCode × DenominationCirculation)}

/-- The first summary is not among the others. -/
theorem Circulating.get_rest (hb : Circulating ((h, ds) :: rest) pending M) :
    get rest h = none :=
  (keyed_cons.1 hb.keyedSummaries).1

theorem Circulating.circulation_rest {x : HashCode} (hx : h ≠ x) :
    circulation ((h, ds) :: rest) pending x = circulation rest pending x := by
  unfold circulation
  rw [get_cons, if_neg hx]

/-- Other stored denominations, as long as the first one has what the table says. -/
theorem Circulating.tail {pending' M' : List (HashCode × DenominationCirculation)}
    (hb : Circulating ((h, ds) :: rest) pending M) (hp : Keyed pending') (hM : Keyed M')
    (hh : get M' h = get pending' h)
    (hother : ∀ x, h ≠ x → get pending' x = get pending x ∧ get M' x = get M x) :
    Circulating rest pending' M' where
  keyedSummaries := (keyed_cons.1 hb.keyedSummaries).2
  keyedPending := hp
  keyed := hM
  lookup x := by
    by_cases hx : h = x
    · rw [← hx, hh, circulation, hb.get_rest]
    · obtain ⟨hpx, hMx⟩ := hother x hx
      rw [hMx, hb.lookup, Circulating.circulation_rest hx, circulation, circulation, hpx]
  inDb x ds' hds' := by
    have hx : h ≠ x := by
      rintro rfl
      rw [hb.get_rest] at hds'
      cases hds'
    rw [(hother x hx).1]
    refine hb.inDb x ds' ?_
    rw [get_cons, if_neg hx, hds']

theorem Circulating.stored (hb : Circulating ((h, ds) :: rest) pending M) :
    Circulating rest (Assoc.set pending h ds.dcd) M := by
  refine hb.tail (keyed_set hb.keyedPending h ds.dcd) hb.keyed ?_ fun x hx => ⟨?_, rfl⟩
  · rw [get_set, if_pos rfl, hb.get_of_summary (by rw [get_cons, if_pos rfl])]
  · rw [get_set, if_neg hx]

theorem Circulating.expired (hb : Circulating ((h, ds) :: rest) pending M) :
    Circulating rest (if ds.inDb then del pending h else pending) (del M h) := by
  have hin := hb.inDb h ds (by rw [get_cons, if_pos rfl])
  refine hb.tail ?_ (keyed_del hb.keyed h) ?_ fun x hx => ⟨?_, by rw [get_del, if_neg hx]⟩
  · split_ifs
    · exact keyed_del hb.keyedPending h
    · exact hb.keyedPending
  · rw [get_del, if_pos rfl]
    split_ifs with hdb
    · rw [get_del, if_pos rfl]
    · rw [hin, Bool.not_eq_true, Option.isSome_eq_false_iff, Option.isNone_iff_eq_none] at hdb
      exact hdb.symm
  · split_ifs
    · rw [get_del, if_neg hx]
    · rfl

theorem Circulating.total_expired (hb : Circulating ((h, ds) :: rest) pending M)
    (f : DenominationCirculation → ℕ) : total f (del M h) + f ds.dcd = total f M := by
  have hdel := total_del (f := f) hb.keyed h
  rwa [hb.get_of_summary (by rw [get_cons, if_pos rfl]), Option.elim_some] at hdel

end Entry

/-- An expired denomination leaves the table: its risk is no risk any more, its balance is
revenue. -/
theorem sound_bookExpired (hs : Sound e (k.booksWith ((h, ds) :: rest))) :
    Satisfies (fun k' => Sound e (k'.booksWith rest)) NotNegative (bookExpired k h ds) := by
  obtain ⟨M, hb, hr, hesc⟩ := hs
  have hrisk := hb.total_expired fun dcd => dcd.denomRisk
  have hbalance := hb.total_expired fun dcd => dcd.denomBalance
  have hr : k.sheet.coinBalanceRisk = total (fun dcd => dcd.denomRisk) M := hr
  have hsub : Satisfies (fun risk => risk + ds.dcd.denomRisk = k.sheet.coinBalanceRisk) NotNegative
      (if ds.dcd.denomRisk = 0 then .ok k.sheet.coinBalanceRisk
        else amountSubtract k.sheet.coinBalanceRisk ds.dcd.denomRisk) := by
    refine Satisfies.ite (fun h0 => ?_) fun _ => Satisfies.ite (fun hle => ?_) fun hle => ?_
    · exact Satisfies.ok (by rw [h0, add_zero])
    · exact Nat.sub_add_cancel hle
    · omega
  unfold bookExpired
  refine Satisfies.bind hsub fun risk hrisk' => Satisfies.ite (fun h0 => ?_) fun h0 =>
    Satisfies.ite (fun _ => notNegative_constraint) fun hnew => ?_
  · refine ⟨_, hb.expired, ?_, fun he => ?_⟩
    · show risk = _
      omega
    · have hescrow := hesc he
      show k.sheet.totalEscrowed = _ + total _ k.db.historicDenominationRevenue
      rw [h0, add_zero] at hbalance
      rw [hbalance]
      exact hescrow
  · refine ⟨_, hb.expired, ?_, fun he => ?_⟩
    · show risk = _
      omega
    · have hescrow : k.sheet.totalEscrowed = total _ M +
        total (fun r : DenomRevenue => r.revenueBalance) k.db.historicDenominationRevenue := hesc he
      rw [Option.not_isSome_iff_eq_none] at hnew
      have hset := total_set (f := fun r : DenomRevenue => r.revenueBalance)
        k.db.historicDenominationRevenue h
        ⟨ds.issue.expireDeposit, ds.dcd.denomBalance, ds.dcd.recoupLoss⟩
      rw [hnew, Option.elim_none, add_zero] at hset
      dsimp only at hset
      show k.sheet.totalEscrowed = _ + total _ (Assoc.set k.db.historicDenominationRevenue h _)
      omega

theorem sameBooks_emergencyByCount (numKnown : ℕ) :
    SameBooks k (reportEmergencyByCount k h ds numKnown) := by
  unfold reportEmergencyByCount
  exact SameBooks.amountAdd fun _ => SameBooks.amountAdd fun _ => SameBooks.ok rfl

theorem sameBooks_emergencyByAmount : SameBooks k (reportEmergencyByAmount k h ds) := by
  unfold reportEmergencyByAmount
  exact SameBooks.amountAdd fun _ => SameBooks.amountAdd fun _ => SameBooks.ok rfl

theorem sound_storeDenomination (hs : Sound e (k.booksWith ((h, ds) :: rest))) :
    Satisfies (fun k' => Sound e (k'.booksWith rest)) NotNegative
      (storeDenomination env k h ds) := by
  unfold storeDenomination
  refine SameBooks.andThen (SameBooks.ite (sameBooks_emergencyByCount _) (SameBooks.ok rfl))
    fun k₁ hk₁ => ?_
  refine SameBooks.andThen (SameBooks.ite sameBooks_emergencyByAmount (SameBooks.ok rfl))
    fun k₂ hk₂ => ?_
  rw [← SameBooks.with hk₁, ← SameBooks.with hk₂] at hs
  obtain ⟨M, hb, hr, hesc⟩ := hs
  exact ⟨M, hb.stored, hr, hesc⟩

/-- All summaries are stored. -/
theorem sound_sync (hs : Sound e (k.booksWith rest)) :
    Satisfies (fun k' => Sound e (k'.booksWith [])) NotNegative
      (rest.foldlM (syncDenomination env) k) := by
  induction rest generalizing k with
  | nil => exact hs
  | cons s rest ih =>
    obtain ⟨h, ds⟩ := s
    rw [List.foldlM_cons]
    refine Satisfies.bind (P := fun k' : CoinCore => Sound e (k'.booksWith rest)) ?_ fun _ => ih
    exact Satisfies.ite (fun _ => sound_bookExpired hs) fun _ => sound_storeDenomination hs

end Sync

/-! ## Passes -/

/-- **The risk of the sheet is that of the stored denominations.** -/
def RiskInSync (db : AuditorCoinDb) : Prop :=
  (db.balances.getD {}).coinBalanceRisk =
    total (fun dcd => dcd.denomRisk) db.denominationPending

/-- **The escrow is the balance of the stored denominations with the revenue of the expired.** -/
def EscrowAddsUp (db : AuditorCoinDb) : Prop :=
  (db.balances.getD {}).totalEscrowed = total (fun dcd => dcd.denomBalance) db.denominationPending +
    total (fun r => r.revenueBalance) db.historicDenominationRevenue

/-- Every row meets a condition on the books before it. -/
def RowsAdmit (env : CoinAuditEnv) (C : CoinBooks → CoinRow → Prop) : CoinCore → List CoinRow → Prop
  | _, [] => True
  | k, row :: rows => C k.books row ∧ ∀ k', coinStep env k row = .ok k' → RowsAdmit env C k' rows

/-- The rows of a pass do. -/
def PassAdmits (C : CoinAuditEnv → CoinBooks → CoinRow → Prop) (a : CoinAuditor) :
    CoinAuditEvent → Prop
  | .pass env =>
    let k := loadCoins env a.db a.histories
    RowsAdmit env (C env) k (env.rows.after k.progress)
  | .rolledBack _ => True

/-- What is stored is sound. -/
def SoundDb (e : Prop) (db : AuditorCoinDb) : Prop :=
  Keyed db.denominationPending ∧ RiskInSync db ∧ (e → EscrowAddsUp db)

section Passes

variable {env : CoinAuditEnv} {k : CoinCore} {db : AuditorCoinDb} {histories : CoinHistories}
  {a : CoinAuditor} {e : Prop}

theorem sound_loadCoins (hs : SoundDb e db) : Sound e (loadCoins env db histories).books := by
  obtain ⟨hkeyed, hr, hesc⟩ := hs
  refine ⟨db.denominationPending, ⟨keyed_nil, hkeyed, hkeyed, fun h => rfl, ?_⟩, hr, hesc⟩
  intro h ds hds
  cases hds

/-- All rows of a pass. -/
theorem sound_rows {C : CoinBooks → CoinRow → Prop}
    (hC : ∀ b row, C b row → Covered env b row ∧ NotRecoupRefresh row) (rows : List CoinRow)
    (hs : Sound e k.books) :
    Satisfies (fun k' => Sound (e ∧ RowsAdmit env C k rows) k'.books) NotNegative
      (rows.foldlM (coinStep env) k) := by
  induction rows generalizing k e with
  | nil => exact hs.mono And.left
  | cons row rows ih =>
    rw [List.foldlM_cons]
    have hstep := @sound_coinStep k e env hs row
    cases hk : coinStep env k row with
    | error a => exact hstep.of_error hk
    | ok k' =>
      refine (ih (hstep.of_ok hk)).mono (fun _ h => h.mono fun he => ?_) fun _ h => h
      exact ⟨⟨he.1, hC _ _ he.2.1⟩, he.2.2 k' hk⟩

/-- What a pass leaves. -/
theorem sound_analyzeCoins {C : CoinBooks → CoinRow → Prop}
    (hC : ∀ b row, C b row → Covered env b row ∧ NotRecoupRefresh row) (hs : SoundDb e db) :
    Satisfies (fun k' => SoundDb (e ∧ RowsAdmit env C (loadCoins env db histories)
        (env.rows.after (loadCoins env db histories).progress)) k'.db) NotNegative
      (analyzeCoins env db histories) := by
  unfold analyzeCoins
  refine (sound_rows hC _ (sound_loadCoins hs)).bind fun k₁ hs₁ => ?_
  have hrest : Sound (e ∧ RowsAdmit env C (loadCoins env db histories)
      (env.rows.after (loadCoins env db histories).progress))
      (k₁.booksWith (env.order k₁.summaries)) := by
    obtain ⟨M, hb, hr, hesc⟩ := hs₁
    exact ⟨M, hb.perm (env.order_perm k₁.summaries), hr, hesc⟩
  refine (sound_sync hrest).bind fun k₂ hs₂ => ?_
  obtain ⟨M, hb, hr, hesc⟩ := hs₂
  have htotal (f : DenominationCirculation → ℕ) : total f M = total f k₂.db.denominationPending :=
    total_congr hb.keyed hb.keyedPending hb.lookup
  rw [htotal] at hr hesc
  exact ⟨hb.keyedPending, hr, hesc⟩

theorem sound_coinAuditStep {C : CoinAuditEnv → CoinBooks → CoinRow → Prop}
    (hC : ∀ env b row, C env b row → Covered env b row ∧ NotRecoupRefresh row)
    (event : CoinAuditEvent) (hs : SoundDb e a.db) :
    SoundDb (e ∧ PassAdmits C a event) (coinAuditStep a event).db := by
  have hweak : SoundDb (e ∧ PassAdmits C a event) a.db := ⟨hs.1, hs.2.1, fun he => hs.2.2 he.1⟩
  cases event with
  | rolledBack histories => exact hweak
  | pass env =>
    have hpass := @sound_analyzeCoins env a.db a.histories e (C env) (hC env) hs
    simp only [coinAuditStep]
    cases hk : analyzeCoins env a.db a.histories with
    | error err => exact hweak
    | ok k => exact hpass.of_ok hk

theorem sound_run {C : CoinAuditEnv → CoinBooks → CoinRow → Prop}
    (hC : ∀ env b row, C env b row → Covered env b row ∧ NotRecoupRefresh row)
    (events : List CoinAuditEvent) (hs : SoundDb e a.db) :
    SoundDb (e ∧ Admits coinAuditStep (PassAdmits C) a events) (run coinAuditStep a events).db := by
  induction events generalizing a e with
  | nil => exact ⟨hs.1, hs.2.1, fun he => hs.2.2 he.1⟩
  | cons event events ih =>
    obtain ⟨hkeyed, hr, hesc⟩ := ih (sound_coinAuditStep hC event hs)
    exact ⟨hkeyed, hr, fun he => hesc ⟨⟨he.1, he.2.1⟩, he.2.2⟩⟩

theorem soundDb_empty : SoundDb True {} := ⟨keyed_nil, rfl, fun _ => rfl⟩

/-- **After any passes the risk of the sheet is that of the stored denominations, and no pass ends
in a subtraction.** -/
theorem run_riskInSync (events : List CoinAuditEvent) :
    RiskInSync (run coinAuditStep {} events).db ∧ ∀ env,
      analyzeCoins env (run coinAuditStep {} events).db (run coinAuditStep {} events).histories ≠
        .error .negative := by
  have hs := @sound_run {} True (fun env b row => Covered env b row ∧ NotRecoupRefresh row)
    (fun _ _ _ h => h) events soundDb_empty
  refine ⟨hs.2.1, fun env herr => ?_⟩
  have hpass := @sound_analyzeCoins env _ (run coinAuditStep {} events).histories _
    (fun b row => Covered env b row ∧ NotRecoupRefresh row) (fun _ _ h => h) hs
  exact hpass.of_error herr rfl

/-- **The escrow adds up after any passes in which spent values are covered and no value of a
refreshed coin is recouped.** -/
theorem run_escrowAddsUp (events : List CoinAuditEvent)
    (h : Admits coinAuditStep
      (PassAdmits fun env b row => Covered env b row ∧ NotRecoupRefresh row) {} events) :
    EscrowAddsUp (run coinAuditStep {} events).db :=
  (sound_run (fun _ _ _ h => h) events soundDb_empty).2.2 ⟨trivial, h⟩

theorem rowsAdmit_cons {C : CoinBooks → CoinRow → Prop} {row : CoinRow} {rows : List CoinRow}
    {k' : CoinCore} (h : C k.books row) (hk : coinStep env k row = .ok k')
    (hrest : RowsAdmit env C k' rows) : RowsAdmit env C k (row :: rows) := by
  refine ⟨h, fun k'' hk'' => ?_⟩
  rw [hk] at hk''
  cases hk''
  exact hrest

end Passes

/-- A coin of denomination `1` is withdrawn and melted into one of denomination `2`, which is
revoked; the value of the second coin is recouped. -/
def recoupRefreshEnv : CoinAuditEnv where
  rows := {
    withdrawals := [⟨1, 11, 1, 5, 0, 0, 10⟩]
    recoupRefreshes := [⟨1, 9, 1, 200, 2, 0, 0⟩]
    melts := [⟨1, 1, 100, 0, 10, 7⟩] }
  denomination := fun h => if h = 1 then some ⟨1000, 10, 0, 0, 1, 0⟩
    else if h = 2 then some ⟨1000, 9, 0, 0, 1, 0⟩ else none
  revocation := fun h => if h = 2 then some (true, 1) else none
  coinTransactions := fun c => if c = 100 then [.melt 10, .oldCoinRecoup 9] else [.recoupRefresh 9]
  refreshReveal := fun rc => if rc = 7 then [2] else []

/-- A coin is withdrawn and deposited. -/
def depositEnv : CoinAuditEnv where
  rows := {
    withdrawals := [⟨1, 11, 1, 5, 0, 0, 10⟩]
    deposits := [⟨1, 100, 1, 4, 10, 20, 0⟩] }
  denomination := fun h => if h = 1 then some ⟨1000, 10, 0, 0, 1, 0⟩ else none
  coinTransactions := fun _ => [.deposit 4 0]

theorem admits_depositEnv : Admits coinAuditStep
    (PassAdmits fun env b row => Covered env b row ∧ NotRecoupRefresh row) {}
    [.pass depositEnv] := by
  refine ⟨?_, trivial⟩
  have hrows : depositEnv.rows.after {} =
      [.withdraw ⟨1, 11, 1, 5, 0, 0, 10⟩, .deposit ⟨1, 100, 1, 4, 10, 20, 0⟩] := rfl
  unfold PassAdmits
  show RowsAdmit _ _ _ (depositEnv.rows.after {})
  rw [hrows]
  refine rowsAdmit_cons ⟨trivial, trivial⟩ rfl ?_
  refine rowsAdmit_cons ⟨?_, trivial⟩ rfl trivial
  intro _ _
  decide

theorem run_escrowAddsUp_depositEnv : EscrowAddsUp (run coinAuditStep {} [.pass depositEnv]).db :=
  run_escrowAddsUp [.pass depositEnv] admits_depositEnv

theorem covered_recoupRefreshEnv :
    Admits coinAuditStep (PassAdmits Covered) {} [.pass recoupRefreshEnv] := by
  refine ⟨?_, trivial⟩
  have hrows : recoupRefreshEnv.rows.after {} = [.withdraw ⟨1, 11, 1, 5, 0, 0, 10⟩,
      .recoupRefresh ⟨1, 9, 1, 200, 2, 0, 0⟩, .melt ⟨1, 1, 100, 0, 10, 7⟩] := rfl
  unfold PassAdmits
  show RowsAdmit _ _ _ (recoupRefreshEnv.rows.after {})
  rw [hrows]
  refine rowsAdmit_cons trivial rfl (rowsAdmit_cons trivial rfl ?_)
  refine rowsAdmit_cons ?_ rfl trivial
  intro _ _
  decide

/-- The balance of the old denomination grows by the value, the escrow does not. -/
theorem not_escrowAddsUp : ¬ ∀ events, Admits coinAuditStep (PassAdmits Covered) {} events →
    EscrowAddsUp (run coinAuditStep {} events).db := by
  intro h
  have hrun := h _ covered_recoupRefreshEnv
  revert hrun
  unfold EscrowAddsUp
  decide +kernel

end TalerExchange
