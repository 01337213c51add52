import TalerExchange.Crypto.Planchet
import TalerExchange.Posting.Purses
import TalerExchange.Reserve.Open

/-!
# Deposits into a purse

`TEH_handler_purses_deposit` reads the balance of the purse, adds every coin of the request to it,
runs the transaction, and signs the sum. The transaction credits only coins that were not deposited
before.

* `parseCoin`, `depositTransaction`, `handlerPursesDeposit`: the handler;
* `firstSum`: a sum that counts every key once;
* `PurseCovered`: the balance is what was signed;
* **`purseCovered_iff`**: when it is;
* **`not_purseCovered`**: a coin listed twice is signed for twice.
-/

namespace TalerExchange

open Sql Transition

/-! ## Counting once -/

section FirstSum

variable {κ : Type} [DecidableEq κ]

/-- The sum of the values whose keys were not seen before. -/
def firstSum (seen : κ → Bool) : List (κ × ℤ) → ℤ
  | [] => 0
  | x :: l => (if seen x.1 then 0 else x.2) + firstSum (fun k => seen k || k = x.1) l

/-- What is not counted is zero. -/
def RepeatsZero (seen : κ → Bool) : List (κ × ℤ) → Prop
  | [] => True
  | x :: l => (seen x.1 = true → x.2 = 0) ∧ RepeatsZero (fun k => seen k || k = x.1) l

theorem firstSum_le {seen : κ → Bool} {l : List (κ × ℤ)} (h : ∀ x ∈ l, 0 ≤ x.2) :
    firstSum seen l ≤ (l.map Prod.snd).sum := by
  induction l generalizing seen with
  | nil => exact le_rfl
  | cons x l ih =>
    have hx := h x List.mem_cons_self
    have hl := @ih (fun k => seen k || k = x.1) fun y hy => h y (List.mem_cons_of_mem _ hy)
    simp only [firstSum, List.map_cons, List.sum_cons]
    split_ifs <;> omega

/-- **Every key is counted once** in the plain sum if what would be counted again is zero. -/
theorem firstSum_eq_sum_iff {seen : κ → Bool} {l : List (κ × ℤ)} (h : ∀ x ∈ l, 0 ≤ x.2) :
    firstSum seen l = (l.map Prod.snd).sum ↔ RepeatsZero seen l := by
  induction l generalizing seen with
  | nil => exact iff_of_true rfl trivial
  | cons x l ih =>
    have hx := h x List.mem_cons_self
    have hrest : ∀ y ∈ l, 0 ≤ y.2 := fun y hy => h y (List.mem_cons_of_mem _ hy)
    have hle := @firstSum_le _ _ (fun k => seen k || k = x.1) l hrest
    rw [RepeatsZero, ← ih hrest]
    simp only [firstSum, List.map_cons, List.sum_cons]
    by_cases hs : seen x.1 = true
    · rw [if_pos hs]
      simp only [hs, forall_const]
      omega
    · rw [if_neg hs, and_iff_right fun h => absurd h hs]
      omega

/-- The repeated elements are those seen before the list or earlier in it. -/
theorem repeatsZero_map_iff {α : Type} {seen : κ → Bool} {key : α → κ} {val : α → ℤ} {l : List α} :
    RepeatsZero seen (l.map fun a => (key a, val a)) ↔ ∀ pre a post, l = pre ++ a :: post →
      (seen (key a) = true ∨ ∃ b ∈ pre, key b = key a) → val a = 0 := by
  induction l generalizing seen with
  | nil => exact iff_of_true trivial fun pre a post h => absurd h (by simp)
  | cons z l ih =>
    rw [List.map_cons, RepeatsZero, ih]
    constructor
    · rintro ⟨hz, hl⟩ pre a post he hrep
      cases pre with
      | nil =>
        obtain ⟨rfl, -⟩ := List.cons.inj he
        exact hz (hrep.resolve_right (by simp))
      | cons w pre =>
        obtain ⟨rfl, hpost⟩ := List.cons.inj he
        refine hl pre a post hpost ?_
        rcases hrep with hs | ⟨b, hb, hk⟩
        · exact Or.inl (by simp [hs])
        · rcases List.mem_cons.mp hb with rfl | hb
          · exact Or.inl (by simp [hk])
          · exact Or.inr ⟨b, hb, hk⟩
    · intro h
      refine ⟨fun hs => h [] z l rfl (Or.inl hs), fun pre a post he hrep => ?_⟩
      refine h (z :: pre) a post (by rw [he]; rfl) ?_
      rcases hrep with hs | ⟨b, hb, hk⟩
      · rcases (Bool.or_eq_true _ _).mp hs with hs | hk
        · exact Or.inl hs
        · exact Or.inr ⟨z, List.mem_cons_self, (of_decide_eq_true hk).symm⟩
      · exact Or.inr ⟨b, List.mem_cons_of_mem _ hb, hk⟩

end FirstSum

/-! ## The handler -/

/-- The state of the server: what it shares with other handlers, and which signatures of coins on
deposits into a purse verify. The handler leaves the minimum age at zero, so that it checks none. -/
structure PurseDepositServer where
  common : OpenServer
  walletPurseDepositVerify : PursePub → OpenPayment → Bool
  legalReserveExpirationTime : ℤ

/-- What `TEH_PG_select_purse` reads. -/
structure SelectedPurse where
  purseExpiration : Timestamp
  amount : Amount
  deposited : Amount
  hContractTerms : HashCode
  wasDeleted : Bool
  wasRefunded : Bool
deriving DecidableEq, Repr

/-- `TEH_PG_select_purse`; `none` if there is no purse or an amount cannot be read. -/
def selectPurse (db : Database) (p : PursePub) : Option SelectedPurse := do
  let r ← db.purseRequests.lookup p
  let amount ← Amount.ofTaler? r.amountWithFee.toTaler
  let deposited ← Amount.ofTaler? r.balance
  return ⟨r.purseExpiration, amount, deposited, r.hContractTerms, db.isDeleted p, db.isRefunded p⟩

/-- What `TALER_exchange_online_purse_created_sign` signs. -/
structure PurseCreated where
  exchangeTimestamp : Timestamp
  purseExpiration : Timestamp
  purseValueAfterFees : Amount
  totalDeposited : Amount
  pursePub : PursePub
  hContractTerms : HashCode
deriving DecidableEq, Repr

/-- The answer: a signed confirmation, or an error. -/
inductive PurseDepositReply
  | confirmed (c : PurseCreated)
  | failed
deriving DecidableEq, Repr

namespace PurseDepositServer

variable (s : PurseDepositServer) (p : PursePub)

/-- `parse_coin` without the total: what the coin contributes. -/
def parseCoin (c : OpenPayment) : Option Amount := do
  let (m, _) ← s.common.parseCoin c
  if s.walletPurseDepositVerify p c then some m else none

/-- The loop over the deposits. When the total overflows, the error has been sent, but `parse_coin`
returns the result of sending it, which is `GNUNET_OK`: the loop ends only at the next coin. -/
def parseCoins : Amount → List OpenPayment → Option (List (OpenPayment × Amount) × Option Amount)
  | total, [] => some ([], some total)
  | total, c :: cs => do
    let m ← s.parseCoin p c
    match total.add? m with
    | none => if cs = [] then some ([(c, m)], none) else none
    | some total =>
      let (coins, total) ← parseCoins total cs
      return ((c, m) :: coins, total)

/-- The arguments of `exchange_do_purse_deposit` for a coin. -/
def depositArgs (c : OpenPayment × Amount) : PurseDepositArgs where
  partnerId := none
  pursePub := p
  amountWithFee := c.1.amount
  coinPub := c.1.coinPub
  coinSig := c.1.coinSig
  amountWithoutFee := c.2
  reserveExpiration := s.common.now + s.legalReserveExpirationTime
  now := s.common.now

/-- One round of the loop of `deposit_transaction`; `none` if the transaction fails. -/
def depositCoin (db : Database) (c : OpenPayment × Amount) : Option Database :=
  match ensureCoinKnown db c.1.coinPub c.1.denomPubHash with
  | .ok (db, true) => depositIntoPurse db (s.depositArgs p c)
  | _ => none

/-- `deposit_transaction`; `none` if it fails and is rolled back. -/
def depositTransaction (db : Database) (coins : List (OpenPayment × Amount)) : Option Database :=
  applyAll (s.depositCoin p) db coins

/-- `TEH_handler_purses_deposit`: the purse is read in the state `before`, and the transaction runs
in `db`. -/
def handlerPursesDeposit (before db : Database) (deposits : List OpenPayment) :
    Database × PurseDepositReply :=
  if deposits = [] ∨ maxFreshCoins < deposits.length then (db, .failed)
  else
    match selectPurse before p with
    | none => (db, .failed)
    | some x =>
      if x.wasRefunded || x.wasDeleted then (db, .failed)
      else
        match s.parseCoins p x.deposited deposits with
        | none => (db, .failed)
        | some (coins, total) =>
          match s.depositTransaction p db coins with
          | none => (db, .failed)
          | some db' =>
            match total with
            | none => (db', .failed)
            | some total => (db', .confirmed ⟨s.common.now, x.purseExpiration, x.amount, total, p,
                x.hContractTerms⟩)

end PurseDepositServer

/-! ## What is to hold -/

/-- The purse holds what the confirmation says. -/
def PurseCovered (db : Database) (c : PurseCreated) : Prop :=
  ∃ r, db.purseRequests.lookup c.pursePub = some r ∧ r.balance.units = c.totalDeposited.units

/-- A coin that is in the purse already, or that is listed before, contributes nothing: its amount
is the deposit fee. -/
def PurseDepositServer.NothingAgain (s : PurseDepositServer) (p : PursePub) (db : Database)
    (deposits : List OpenPayment) : Prop :=
  ∀ pre c post, deposits = pre ++ c :: post →
    (db.purseDeposits.hasKey (p, c.coinPub) = true ∨ ∃ b ∈ pre, b.coinPub = c.coinPub) →
    ∀ dk, s.common.keys c.denomPubHash = some dk → c.amount.units = dk.feeDeposit.units

/-! ## The transaction -/

section Deposit

variable {s : PurseDepositServer} {p : PursePub} {db db' : Database} {c : OpenPayment × Amount}
  {r : PurseRequest}

theorem ensureCoinKnown_purses {k : CoinPub} {h : HashCode} {b : Bool}
    (he : ensureCoinKnown db k h = .ok (db', b)) :
    db'.purseRequests = db.purseRequests ∧ db'.purseDeposits = db.purseDeposits := by
  unfold ensureCoinKnown at he
  split at he
  · cases he
  · split at he <;> cases he <;> exact ⟨rfl, rfl⟩

theorem balance_purseDeposit {a : PurseDepositArgs} (h : Posts db (.purseDeposit a) db')
    (hr : db.purseRequests.lookup a.pursePub = some r) :
    db.purseDeposits.hasKey (a.pursePub, a.coinPub) = false ∧
      (∀ k, db'.purseDeposits.hasKey k =
        (db.purseDeposits.hasKey k || decide ((a.pursePub, a.coinPub) = k))) ∧
      ∃ r', db'.purseRequests.lookup a.pursePub = some r' ∧
        r'.balance.units = r.balance.units + a.amountWithoutFee.units := by
  cases h with
  | purseDeposit ht =>
    refine ⟨(Table.insert?_eq_some.mp ht).1, Table.hasKey_insert? ht, _,
      lookup_creditPurse a.amountWithoutFee hr, ?_⟩
    exact TalerAmount.units_plus ..

theorem balance_finishMerge {a : PurseDepositArgs} (h : Posts db (.finishMerge a) db')
    (hr : db.purseRequests.lookup a.pursePub = some r) :
    db'.purseDeposits = db.purseDeposits ∧
      ∃ r', db'.purseRequests.lookup a.pursePub = some r' ∧ r'.balance = r.balance := by
  cases h with
  | finishMerge =>
    refine ⟨rfl, ?_⟩
    simp only [Database.markDecided]
    rw [Database.lookup_setPurse, hr, Option.map_some]
    refine ⟨_, rfl, ?_⟩
    split_ifs <;> rfl

/-- **What a coin leaves**: it is in the purse, which is credited unless it was there before. -/
theorem depositCoin_spec (h : s.depositCoin p db c = some db')
    (hr : db.purseRequests.lookup p = some r) :
    (∀ k, db'.purseDeposits.hasKey (p, k) =
      (db.purseDeposits.hasKey (p, k) || decide (k = c.1.coinPub))) ∧
    ∃ r', db'.purseRequests.lookup p = some r' ∧ r'.balance.units = r.balance.units +
      if db.purseDeposits.hasKey (p, c.1.coinPub) then 0 else c.2.units := by
  unfold PurseDepositServer.depositCoin at h
  split at h
  · next db₁ hk =>
    obtain ⟨hreq, hdep⟩ := ensureCoinKnown_purses hk
    rw [← hreq] at hr
    rw [← hdep]
    obtain ⟨rfl, hkey⟩ | ⟨db₂, hpost, hend⟩ := depositIntoPurse_cases h
    · -- a replay
      have hkey : db'.purseDeposits.hasKey (p, c.1.coinPub) = true := hkey
      refine ⟨fun k => ?_, r, hr, by rw [if_pos hkey, add_zero]⟩
      by_cases hc : k = c.1.coinPub
      · rw [hc, hkey, Bool.true_or]
      · rw [decide_eq_false hc, Bool.or_false]
    · obtain ⟨hnew, hkeys, r₂, hr₂, hbal⟩ := balance_purseDeposit hpost hr
      have hnew : db₁.purseDeposits.hasKey (p, c.1.coinPub) = false := hnew
      have hkeys' : ∀ k, db₂.purseDeposits.hasKey (p, k) =
          (db₁.purseDeposits.hasKey (p, k) || decide (k = c.1.coinPub)) := by
        intro k
        rw [hkeys]
        congr 1
        simp [PurseDepositServer.depositArgs, eq_comm]
      rw [hnew]
      rcases hend with rfl | hend
      · exact ⟨hkeys', r₂, hr₂, hbal⟩
      · obtain ⟨hsame, r₃, hr₃, hbal₃⟩ := balance_finishMerge hend hr₂
        rw [hsame]
        exact ⟨hkeys', r₃, hr₃, hbal₃ ▸ hbal⟩
  · cases h

/-- **What the transaction leaves**: the purse is credited with every coin once. -/
theorem depositTransaction_balance {coins : List (OpenPayment × Amount)}
    (h : s.depositTransaction p db coins = some db')
    (hr : db.purseRequests.lookup p = some r) :
    ∃ r', db'.purseRequests.lookup p = some r' ∧ r'.balance.units = r.balance.units +
      firstSum (fun k => db.purseDeposits.hasKey (p, k))
        (coins.map fun c => (c.1.coinPub, c.2.units)) := by
  induction coins generalizing db r with
  | nil =>
    cases h
    exact ⟨r, hr, (add_zero _).symm⟩
  | cons c cs ih =>
    obtain ⟨db₁, hc, h⟩ := applyAll_cons.mp h
    obtain ⟨hkeys, r₁, hr₁, hbal₁⟩ := depositCoin_spec hc hr
    obtain ⟨r', hr', hbal⟩ := ih h hr₁
    refine ⟨r', hr', ?_⟩
    rw [hbal, hbal₁, List.map_cons, firstSum, add_assoc]
    simp only [hkeys]

/-! ## The total -/

/-- What was parsed are the coins of the request, with what they contribute, and their total. -/
theorem parseCoins_spec {total t : Amount} {ds : List OpenPayment}
    {coins : List (OpenPayment × Amount)} (h : s.parseCoins p total ds = some (coins, some t)) :
    coins.map Prod.fst = ds ∧ (∀ c ∈ coins, s.parseCoin p c.1 = some c.2) ∧
      t.units = total.units + (coins.map fun c => c.2.units).sum := by
  induction ds generalizing total coins with
  | nil =>
    cases h
    exact ⟨rfl, fun _ h => (nomatch h), (add_zero _).symm⟩
  | cons d ds ih =>
    simp only [PurseDepositServer.parseCoins, Option.bind_eq_bind, Option.bind_eq_some_iff] at h
    obtain ⟨m, hm, h⟩ := h
    split at h
    · split_ifs at h
      cases h
    · next total' hadd =>
      simp only [Option.bind_eq_some_iff, Option.pure_def, Option.some.injEq, Prod.mk.injEq,
        Prod.exists] at h
      obtain ⟨cs, t', hrest, rfl, rfl⟩ := h
      obtain ⟨hmap, hparse, ht⟩ := ih hrest
      refine ⟨by rw [List.map_cons, hmap], fun c hc => ?_, ?_⟩
      · rcases List.mem_cons.mp hc with rfl | hc
        · exact hm
        · exact hparse c hc
      · rw [ht, Amount.add?_eq_some.mp hadd, List.map_cons, List.sum_cons, add_assoc]

/-- A coin contributes its amount without the deposit fee. -/
theorem parseCoin_units {d : OpenPayment} {m : Amount} (h : s.parseCoin p d = some m) :
    ∃ dk, s.common.keys d.denomPubHash = some dk ∧
      m.units = d.amount.units - dk.feeDeposit.units := by
  simp only [PurseDepositServer.parseCoin, Option.bind_eq_bind, Option.bind_eq_some_iff,
    Prod.exists] at h
  obtain ⟨m', check, hp, h⟩ := h
  split_ifs at h
  cases h
  simp only [OpenServer.parseCoin, Option.bind_eq_bind, Option.bind_eq_some_iff] at hp
  obtain ⟨dk, hdk, hp⟩ := hp
  split_ifs at hp <;> obtain ⟨v, hv, hp⟩ := Option.bind_eq_some_iff.mp hp <;> cases hp
  exact ⟨dk, hdk, Amount.subtract?_eq_some.mp hv⟩

/-- The coins that count again are those of the request that come again. -/
theorem repeatsZero_iff_nothingAgain {coins : List (OpenPayment × Amount)}
    (hparse : ∀ c ∈ coins, s.parseCoin p c.1 = some c.2) :
    RepeatsZero (fun k => db.purseDeposits.hasKey (p, k))
        (coins.map fun c => (c.1.coinPub, c.2.units)) ↔
      s.NothingAgain p db (coins.map Prod.fst) := by
  have hzero : ∀ c ∈ coins, c.2.units = 0 ↔ ∀ dk, s.common.keys c.1.denomPubHash = some dk →
      c.1.amount.units = dk.feeDeposit.units := by
    intro c hc
    obtain ⟨dk, hdk, hu⟩ := parseCoin_units (hparse c hc)
    constructor
    · intro h dk' hdk'
      cases hdk.symm.trans hdk'
      omega
    · intro h
      have := h dk hdk
      omega
  rw [repeatsZero_map_iff]
  constructor
  · intro h pre d post he hrep
    obtain ⟨pre', l, hl, rfl, hcons⟩ := List.map_eq_append_iff.mp he
    obtain ⟨c, post', rfl, rfl, rfl⟩ := List.map_eq_cons_iff.mp hcons
    refine (hzero c (by simp [hl])).mp (h pre' c post' hl ?_)
    refine hrep.imp_right ?_
    rintro ⟨b, hb, hk⟩
    obtain ⟨c', hc', rfl⟩ := List.mem_map.mp hb
    exact ⟨c', hc', hk⟩
  · intro h pre c post he hrep
    refine (hzero c (by simp [he])).mpr (h (pre.map Prod.fst) c.1 (post.map Prod.fst) ?_ ?_)
    · rw [he, List.map_append, List.map_cons]
    · refine hrep.imp_right ?_
      rintro ⟨b, hb, hk⟩
      exact ⟨b.1, List.mem_map_of_mem hb, hk⟩

/-- **What a confirmation rests on**: the purse that was read, the coins that were parsed, and the
transaction. -/
theorem confirmed_cases {before : Database} {ds : List OpenPayment} {x : PurseCreated}
    (h : s.handlerPursesDeposit p before db ds = (db', .confirmed x)) :
    ∃ q coins, selectPurse before p = some q ∧
      s.parseCoins p q.deposited ds = some (coins, some x.totalDeposited) ∧
      s.depositTransaction p db coins = some db' ∧ x.pursePub = p := by
  unfold PurseDepositServer.handlerPursesDeposit at h
  split_ifs at h
  · cases h
  split at h
  · cases h
  next q hq =>
  split_ifs at h
  · cases h
  split at h
  · cases h
  next coins total hparse =>
  split at h
  · cases h
  next db₁ htrans =>
  split at h
  · cases h
  next t =>
  cases h
  exact ⟨q, coins, hq, hparse, htrans, rfl⟩

end Deposit

/-- **When a confirmation is covered by the purse**, if nobody else touched it after it was read. -/
theorem purseCovered_iff {s : PurseDepositServer} {p : PursePub} {before db db' : Database}
    {ds : List OpenPayment} {x : PurseCreated}
    (hsame : db.purseRequests.lookup p = before.purseRequests.lookup p)
    (h : s.handlerPursesDeposit p before db ds = (db', .confirmed x)) :
    PurseCovered db' x ↔ s.NothingAgain p db ds := by
  obtain ⟨q, coins, hq, hparse, htrans, hp⟩ := confirmed_cases h
  obtain ⟨hmap, hcoins, htotal⟩ := parseCoins_spec hparse
  simp only [selectPurse, Option.bind_eq_bind, Option.bind_eq_some_iff, Option.pure_def,
    Option.some.injEq] at hq
  obtain ⟨r, hr, amount, -, deposited, hdep, rfl⟩ := hq
  obtain ⟨r', hr', hbal⟩ := depositTransaction_balance htrans (hsame.trans hr)
  have hcov : PurseCovered db' x ↔ r'.balance.units = x.totalDeposited.units := by
    unfold PurseCovered
    rw [hp, hr']
    constructor
    · rintro ⟨y, hy, hu⟩
      exact Option.some.inj hy ▸ hu
    · exact fun hu => ⟨r', rfl, hu⟩
  rw [hcov, hbal, htotal, Amount.units_ofTaler? hdep, ← hmap, ← repeatsZero_iff_nothingAgain hcoins,
    ← firstSum_eq_sum_iff, List.map_map, add_right_inj]
  · rfl
  · intro y hy
    obtain ⟨c, -, rfl⟩ := List.mem_map.mp hy
    exact c.2.units_nonneg

/-! ## A coin listed twice -/

/-- A server on which all signatures verify. -/
def trustingServer : PurseDepositServer where
  common := { sampleServer with valid := fun _ => true }
  walletPurseDepositVerify := fun _ _ => true
  legalReserveExpirationTime := 50

/-- An empty purse for four, and the denomination of the coin. -/
def emptyPurse : Database :=
  { Database.empty with
    denominations := ⟨[⟨1, 1, .whole 10, .zero, .zero, .zero, .zero⟩], rfl, by decide⟩
    purseRequests := ⟨[⟨1, 5, 0, 0, 9, 0, 0, 0, false, false, .whole 4, .zero, .zero, 0⟩], rfl,
      by decide⟩ }

/-- A coin that pays two. -/
def twoUnits : OpenPayment := ⟨7, 1, 0, 0, .whole 2⟩

/-- The confirmation for the coin listed twice. -/
def fourConfirmed : PurseCreated := ⟨0, 9, .whole 4, .whole 4, 5, 0⟩

theorem handled_twice : ∃ db', trustingServer.handlerPursesDeposit 5 emptyPurse emptyPurse
    [twoUnits, twoUnits] = (db', .confirmed fourConfirmed) ∧
      (db'.purseRequests.lookup 5).map (fun r => r.balance.units) = some 200000000 := by
  refine ⟨_, Prod.ext rfl ?_, ?_⟩
  · decide
  · decide

theorem purseCovered_iff_twice : ∃ db', trustingServer.handlerPursesDeposit 5 emptyPurse emptyPurse
    [twoUnits, twoUnits] = (db', .confirmed fourConfirmed) ∧
      (PurseCovered db' fourConfirmed ↔
        trustingServer.NothingAgain 5 emptyPurse [twoUnits, twoUnits]) := by
  obtain ⟨db', h, -⟩ := handled_twice
  exact ⟨db', h, purseCovered_iff rfl h⟩

/-- The exchange signs for four units and holds two. -/
theorem not_purseCovered : ¬ ∀ (s : PurseDepositServer) (p : PursePub) (before db db' : Database)
    (ds : List OpenPayment) (x : PurseCreated),
    db.purseRequests.lookup p = before.purseRequests.lookup p →
    s.handlerPursesDeposit p before db ds = (db', .confirmed x) → PurseCovered db' x := by
  intro h
  obtain ⟨db', hrun, hbal⟩ := handled_twice
  obtain ⟨r, hr, hu⟩ := h _ _ _ _ _ _ _ rfl hrun
  have hr' : db'.purseRequests.lookup 5 = some r := hr
  rw [hr', Option.map_some, Option.some.injEq, hu] at hbal
  exact absurd hbal (by decide)

end TalerExchange
