import TalerExchange.Reserve.Extend
import TalerExchange.Transition.Idempotent

/-!
# Opening a reserve

`TEH_handler_reserves_open` extends the lifetime and the purse limit of a reserve, paid with coins
and from the reserve. The payments are parsed and added up, each coin is debited by
`exchange_do_reserve_open_deposit`, and `exchange_do_reserve_open` decides whether the total
suffices. A purse limit is a `uint32_t` in the request and an `INT4` in the procedure. What the handler
does not check is part of the model: it returns the signatures that it has verified.

* `parsePayments`, `payCoin`, `reserveOpenTransaction`, `handlerReservesOpen`: the handler;
* **`openAtomic_iff`**: when a request that is not granted leaves everything as it was;
* **`openPaid_iff`**: when a request that is granted is paid for with verified coins.
-/

namespace TalerExchange

open Sql Transition

/-! ## The request -/

/-- A denomination as the exchange has it in memory; `usable` if it is valid now, not revoked, and
of the cipher of the coin. -/
structure DenominationKey where
  value : Amount
  feeDeposit : Amount
  usable : Bool
deriving DecidableEq, Repr

/-- `struct TEH_PurseDepositedCoin`: a coin that pays. -/
structure OpenPayment where
  coinPub : CoinPub
  denomPubHash : HashCode
  denomSig : Signature
  coinSig : Signature
  amount : Amount
deriving DecidableEq, Repr

/-- The body of a request. -/
@[ext] structure OpenRequest where
  reservePub : ReservePub
  requestTimestamp : Timestamp
  reserveExpiration : Timestamp
  reserveSig : Signature
  purseLimit : ℕ
  payments : List OpenPayment
  reservePayment : Amount
  purseLimit_lt : purseLimit < 2 ^ 32 := by decide
deriving Repr

instance instDecidableEqOpenRequest : DecidableEq OpenRequest := fun _ _ =>
  decidable_of_iff _ OpenRequest.ext_iff.symm

/-- The signatures that the exchange can verify: of the exchange on a coin, of the reserve on a
request, and of a coin on its payment. -/
inductive SignatureCheck
  | testCoinValid (c : CoinPub) (h : HashCode) (s : Signature)
  | walletReserveOpen (r : OpenRequest)
  | walletReserveOpenDeposit (c : CoinPub) (s reserveSig : Signature) (contribution : Amount)
deriving DecidableEq, Repr

/-- The state of the server: its keys, fees and limits, its clock, and which signatures verify. -/
structure OpenServer where
  keys : HashCode → Option DenominationKey
  accountFee : Option Amount
  defPurseLimit : ℕ
  legalReserveExpirationTime : ℤ
  now : Timestamp
  valid : SignatureCheck → Bool
  defPurseLimit_lt : defPurseLimit < 2 ^ 32 := by decide

/-- `TIMESTAMP_TOLERANCE`, fifteen minutes in microseconds. -/
def timestampTolerance : ℤ := 15 * 60 * 1000000

namespace OpenServer

variable (s : OpenServer)

/-- `TEH_common_purse_deposit_parse_coin`: the amount without the deposit fee. Only the signature of
the exchange on the coin is verified. -/
def parseCoin (p : OpenPayment) : Option (Amount × SignatureCheck) := do
  let dk ← s.keys p.denomPubHash
  if dk.value.units < p.amount.units then none
  else if dk.usable then do
    let m ← p.amount.subtract? dk.feeDeposit
    let check := .testCoinValid p.coinPub p.denomPubHash p.denomSig
    if s.valid check then some (m, check) else none
  else none

/-- The loop over the payments, with the total so far and the signatures verified. -/
def parsePayments : Amount → List OpenPayment → Option (Amount × List SignatureCheck)
  | total, [] => some (total, [])
  | total, p :: ps => do
    let (m, check) ← s.parseCoin p
    let total ← total.add? m
    let (total, checks) ← parsePayments total ps
    return (total, check :: checks)

/-- The arguments of `exchange_do_reserve_open` for a request. The purse limits are bound as
`uint32_t`. -/
def openArgs (r : OpenRequest) (total fee : Amount) : ReserveOpenArgs where
  reservePub := r.reservePub
  totalPaid := total
  reservePayment := r.reservePayment
  minPurseLimit := stored 32 r.purseLimit
  defaultPurseLimit := stored 32 s.defPurseLimit
  reserveSig := r.reserveSig
  desiredExpiration := r.reserveExpiration
  reserveGcDelay := s.legalReserveExpirationTime
  now := r.requestTimestamp
  openFee := fee

end OpenServer

/-! ## The transaction -/

/-- The key of a payment in `reserves_open_deposits`. -/
def OpenPayment.key (p : OpenPayment) : CoinPub × Signature := (p.coinPub, p.coinSig)

/-- The arguments of `exchange_do_reserve_open_deposit` for a payment. -/
def OpenRequest.depositArgs (r : OpenRequest) (p : OpenPayment) : ReserveOpenDepositArgs :=
  ⟨p.coinPub, p.coinSig, r.reserveSig, r.reservePub, p.amount⟩

/-- One round of the loop of `reserve_open_transaction`; `none` if the transaction fails. -/
def payCoin (r : OpenRequest) (db : Database) (p : OpenPayment) : Option Database :=
  match ensureCoinKnown db p.coinPub p.denomPubHash with
  | .ok (db, true) =>
    match exchangeDoReserveOpenDeposit db (r.depositArgs p) with
    | .ok (db, false) => some db
    | _ => none
  | _ => none

/-- The results of `TEH_PG_do_reserve_open` can be read. -/
def ReserveOpenOut.readable (o : ReserveOpenOut) : Bool :=
  (Amount.ofTaler? o.openCost).isSome && (Amount.ofTaler? o.reserveBalance).isSome

/-- `reserve_open_transaction`; `none` if it fails and is rolled back. -/
def reserveOpenTransaction (db : Database) (r : OpenRequest) (a : ReserveOpenArgs) :
    Option (Database × ReserveOpenOut) := do
  let db ← applyAll (payCoin r) db r.payments
  match Pg.exchangeDoReserveOpen db a with
  | .error _ => none
  | .ok (db, o) => if o.readable && !o.noReserve && !o.noFunds then some (db, o) else none

/-- The answer, with the new expiration and the cost. -/
inductive OpenReply
  | ok (reserveExpiration : Timestamp) (openCost : TalerAmount)
  | paymentRequired (reserveExpiration : Timestamp) (openCost : TalerAmount)
  | failed
deriving DecidableEq, Repr

/-- `reply_reserve_open_success`. -/
def replyReserveOpenSuccess (s : OpenServer) (r : OpenRequest) (o : ReserveOpenOut) : OpenReply :=
  let re := if o.finalExpiration < s.now then s.now else o.finalExpiration
  if o.finalExpiration < r.reserveExpiration then .paymentRequired re o.openCost
  else .ok re o.openCost

/-- What a request leaves: the database, the answer, and the signatures that were verified. -/
structure OpenHandled where
  db : Database
  reply : OpenReply
  checks : List SignatureCheck

/-- `TEH_handler_reserves_open`. -/
def handlerReservesOpen (s : OpenServer) (db : Database) (r : OpenRequest) : OpenHandled :=
  if timestampTolerance < |s.now - r.requestTimestamp| then ⟨db, .failed, []⟩
  else
    match s.parsePayments r.reservePayment r.payments with
    | none => ⟨db, .failed, []⟩
    | some (total, checks) =>
      match s.accountFee with
      | none => ⟨db, .failed, checks⟩
      | some fee =>
        if s.valid (.walletReserveOpen r) then
          match reserveOpenTransaction db r (s.openArgs r total fee) with
          | none => ⟨db, .failed, checks ++ [.walletReserveOpen r]⟩
          | some (db', o) =>
            ⟨db', replyReserveOpenSuccess s r o, checks ++ [.walletReserveOpen r]⟩
        else ⟨db, .failed, checks⟩

/-! ## What is to hold -/

/-- The reserve lives as long and has as many purses as the request asks for. -/
def OpenRequest.metBy (r : OpenRequest) (x : Reserve) : Prop :=
  r.reserveExpiration ≤ x.expirationDate ∧ r.purseLimit ≤ x.pursesAllowed

/-- The request was answered with success and the reserve is as requested. -/
def OpenHandled.Granted (h : OpenHandled) (r : OpenRequest) : Prop :=
  (∃ e cost, h.reply = .ok e cost) ∧ ∃ x, h.db.reserves.lookup r.reservePub = some x ∧ r.metBy x

/-- Coins, reserves and payments are as before. -/
structure Untouched (db db' : Database) : Prop where
  coins : ∀ kc ∈ db.knownCoins.rows, kc ∈ db'.knownCoins.rows
  reserves : db'.reserves = db.reserves
  payments : db'.reservesOpenDeposits = db.reservesOpenDeposits

/-- A request that is not granted leaves everything as it was. -/
def OpenAtomic (s : OpenServer) (db : Database) (r : OpenRequest) : Prop :=
  ¬ (handlerReservesOpen s db r).Granted r → Untouched db (handlerReservesOpen s db r).db

/-- One of the payments was not debited for the request before. -/
def OpenRequest.PaysAnew (r : OpenRequest) (db : Database) : Prop :=
  ∃ p ∈ r.payments, db.reservesOpenDeposits.hasKey p.key = false

namespace ReserveOpenArgs

variable (a : ReserveOpenArgs) (x : Reserve) (t : OpenTerms)

/-- The procedure updates nothing: there is nothing to pay for, or the total does not cover the
cost. -/
def Declines : Prop :=
  t.years ≤ 0 ∨ ∃ cost, a.pgCost t.years = .ok (some cost) ∧ a.pgShort cost = true ∧
    (Amount.ofTaler? cost).isSome = true

/-- The procedure updates the reserve, and its results can be read. -/
structure Opens : Prop where
  updates : a.Updates x t
  gcDate : ∃ n, int8 (x.expirationDate + a.reserveGcDelay) = .ok n
  readable : ∀ cost, a.pgCost t.years = .ok (some cost) → (Amount.ofTaler? cost).isSome = true

/-- The updated reserve. -/
def opened : Reserve :=
  { x with
    currentBalance := x.currentBalance.minus a.reservePayment
    gcDate := x.expirationDate + a.reserveGcDelay
    expirationDate := t.expirationDate
    pursesAllowed := t.pursesAllowed }

end ReserveOpenArgs

/-- The request passes all checks and every coin of it can be debited, and yet the reserve is not to
be as requested. Either the procedure declines and a coin is debited anew; or the reserve is updated
without getting the purses requested, as a limit from `2 ^ 31` on arrives as a negative number, and
the update or a debit changes something. -/
structure PaysInVain (s : OpenServer) (db : Database) (r : OpenRequest) : Prop where
  inTime : |s.now - r.requestTimestamp| ≤ timestampTolerance
  signed : s.valid (.walletReserveOpen r) = true
  payable : (applyAll (payCoin r) db r.payments).isSome = true
  vain : ∃ total checks fee x t, s.parsePayments r.reservePayment r.payments = some (total, checks) ∧
    s.accountFee = some fee ∧ db.reserves.lookup r.reservePub = some x ∧
    (s.openArgs r total fee).pgTerms x = .ok t ∧ (Amount.ofTaler? x.currentBalance).isSome = true ∧
    ((s.openArgs r total fee).Declines t ∧ ¬ r.metBy x ∧ r.PaysAnew db ∨
      (s.openArgs r total fee).Opens x t ∧ ¬ r.metBy ((s.openArgs r total fee).opened x t) ∧
        (r.PaysAnew db ∨ (s.openArgs r total fee).opened x t ≠ x))

/-! ## Debits of coins -/

section Pay

variable {db db' : Database} {r : OpenRequest} {p : OpenPayment}

/-- What making a coin known changes. -/
theorem ensureCoinKnown_frame {c : CoinPub} {h : HashCode} {b : Bool}
    (he : ensureCoinKnown db c h = .ok (db', b)) :
    db'.reserves = db.reserves ∧ db'.reservesOpenDeposits = db.reservesOpenDeposits ∧
      ∀ kc ∈ db.knownCoins.rows, kc ∈ db'.knownCoins.rows := by
  unfold ensureCoinKnown at he
  split at he
  · cases he
  · split at he
    · next t ht =>
      cases he
      exact ⟨rfl, rfl, fun kc hkc => (Table.mem_insert? ht).mpr (Or.inl hkc)⟩
    · cases he
      exact ⟨rfl, rfl, fun _ h => h⟩

/-- **What the debit of a coin leaves**: nothing new if the payment is recorded, else its row. -/
theorem payCoin_spec (h : payCoin r db p = some db') : db'.reserves = db.reserves ∧
    (db.reservesOpenDeposits.hasKey p.key = true ∧
      db'.reservesOpenDeposits = db.reservesOpenDeposits ∧
      (∀ kc ∈ db.knownCoins.rows, kc ∈ db'.knownCoins.rows) ∨
    db.reservesOpenDeposits.hasKey p.key = false ∧
      db.reservesOpenDeposits.insert? (r.depositArgs p).row = some db'.reservesOpenDeposits) := by
  unfold payCoin at h
  split at h
  · next db₁ hk =>
    obtain ⟨h₁, h₂, h₃⟩ := ensureCoinKnown_frame hk
    split at h
    · next db₂ hd =>
      cases h
      unfold exchangeDoReserveOpenDeposit at hd
      split at hd
      · next hins =>
        cases hd
        refine ⟨h₁, Or.inl ⟨?_, h₂, h₃⟩⟩
        rw [← h₂]
        exact Table.insert?_eq_none.mp hins
      · next t ht =>
        simp only [bind_eq_ok, Database.addCoinHistory_eq_ok] at hd
        obtain ⟨_, ⟨ch, -, -, rfl⟩, hd⟩ := hd
        split at hd
        · cases hd
        · next db₃ hdebit =>
          cases pure_eq_ok.mp hd
          obtain ⟨kc, -, -, rfl⟩ := Database.debitCoin_eq_some.mp hdebit
          rw [h₂] at ht
          exact ⟨h₁, Or.inr ⟨(Table.insert?_eq_some.mp ht).1, ht⟩⟩
    · cases h
  · cases h

theorem hasKey_payCoin (h : payCoin r db p = some db') {k : CoinPub × Signature}
    (hk : db.reservesOpenDeposits.hasKey k = true) : db'.reservesOpenDeposits.hasKey k = true := by
  rcases (payCoin_spec h).2 with ⟨-, e, -⟩ | ⟨-, hins⟩
  · rw [e]
    exact hk
  · exact Table.hasKey_insert?_of_hasKey hins hk

theorem hasKey_paid (h : payCoin r db p = some db') :
    db'.reservesOpenDeposits.hasKey p.key = true := by
  rcases (payCoin_spec h).2 with ⟨hk, e, -⟩ | ⟨-, hins⟩
  · rw [e]
    exact hk
  · exact Table.hasKey_insert?_self hins

theorem reserves_payCoins {ps : List OpenPayment} (h : applyAll (payCoin r) db ps = some db') :
    db'.reserves = db.reserves :=
  applyAll_invariant (I := fun s => s.reserves = db.reserves)
    (fun hp hs => (payCoin_spec hp).1.trans hs) h rfl

theorem hasKey_payCoins {ps : List OpenPayment} (h : applyAll (payCoin r) db ps = some db') :
    ∀ p ∈ ps, db'.reservesOpenDeposits.hasKey p.key = true :=
  applyAll_forall (P := fun s p => s.reservesOpenDeposits.hasKey p.key = true)
    (fun hp => hasKey_paid hp) (fun hp => hasKey_payCoin hp) h

/-- Payments that are all recorded touch nothing. -/
theorem untouched_payCoins {ps : List OpenPayment} (h : applyAll (payCoin r) db ps = some db')
    (hk : ∀ p ∈ ps, db.reservesOpenDeposits.hasKey p.key = true) : Untouched db db' := by
  induction ps generalizing db with
  | nil =>
    cases h
    exact ⟨fun _ h => h, rfl, rfl⟩
  | cons p ps ih =>
    obtain ⟨db₁, hp, h⟩ := applyAll_cons.mp h
    obtain ⟨hres, ⟨-, e, hcoins⟩ | ⟨hnew, -⟩⟩ := payCoin_spec hp
    · have hrest := ih h fun q hq => by
        rw [e]
        exact hk q (List.mem_cons_of_mem _ hq)
      exact ⟨fun kc hkc => hrest.coins kc (hcoins kc hkc), hrest.reserves.trans hres,
        hrest.payments.trans e⟩
    · rw [hk p List.mem_cons_self] at hnew
      cases hnew

end Pay

/-! ## The two ends of the procedure -/

section Ends

variable {db : Database} {a : ReserveOpenArgs} {x : Reserve} {t : OpenTerms}

/-- A request that is declined leaves the reserve as it is. -/
theorem Pg.open_declined (hx : db.reserves.lookup a.reservePub = some x) (ht : a.pgTerms x = .ok t)
    (hd : a.Declines t) : ∃ o, Pg.exchangeDoReserveOpen db a = .ok (db, o) ∧ o.noReserve = false ∧
      o.noFunds = false ∧ o.reserveBalance = x.currentBalance ∧
      (Amount.ofTaler? o.openCost).isSome = true := by
  by_cases hy : t.years ≤ 0
  · exact ⟨_, Pg.open_unchanged hx ht hy, rfl, rfl, rfl, rfl⟩
  · obtain ⟨cost, hc, hs, hread⟩ := hd.resolve_left hy
    have hrun := Pg.open_paid hx ht (not_le.mp hy) hc
    rw [if_pos hs] at hrun
    exact ⟨_, hrun, rfl, rfl, rfl, hread⟩

/-- A request that is granted updates the reserve. -/
theorem Pg.open_opened (hx : db.reserves.lookup a.reservePub = some x) (ho : a.Opens x t) :
    ∃ db' o, Pg.exchangeDoReserveOpen db a = .ok (db', o) ∧ o.noReserve = false ∧
      o.noFunds = false ∧ o.reserveBalance = x.currentBalance ∧
      (Amount.ofTaler? o.openCost).isSome = true ∧
      db'.reserves.lookup a.reservePub = some (a.opened x t) ∧
      db'.reservesOpenDeposits = db.reservesOpenDeposits := by
  obtain ⟨cost, hc, hs⟩ := ho.updates.paid
  obtain ⟨n, hn⟩ := ho.gcDate
  have hrun := Pg.open_paid hx ho.updates.terms ho.updates.years hc
  rw [if_neg (by rw [hs]; exact Bool.false_ne_true), if_pos ho.updates.funds, hn] at hrun
  exact ⟨_, _, hrun, rfl, rfl, rfl, ho.readable cost hc, lookup_updated hx ho.updates hrun, rfl⟩

/-- An update to what the reserve was leaves the table. -/
theorem setReserve_opened (hx : db.reserves.lookup a.reservePub = some x) (hsame : a.opened x t = x) :
    db.setReserve a.reservePub (fun y =>
      { y with
        currentBalance := x.currentBalance.minus a.reservePayment
        gcDate := x.expirationDate + a.reserveGcDelay
        expirationDate := t.expirationDate
        pursesAllowed := t.pursesAllowed }) = db.reserves := by
  refine Table.update_eq_self _ _ _ fun y hy hk => ?_
  have e : y = x := Table.eq_of_key hy (Table.mem_of_lookup hx)
    ((of_decide_eq_true hk).trans (Table.key_of_lookup hx).symm)
  rw [e]
  exact hsame

/-- A number is not smaller than what the column has of it. -/
theorem stored_le (w n : ℕ) : stored w n ≤ n := by
  have hpos : (0 : ℤ) < 2 ^ w := Int.pow_pos (by decide)
  unfold stored
  split_ifs <;> omega

end Ends

/-! ## The handler -/

section Handler

variable {s : OpenServer} {db db' : Database} {r : OpenRequest} {a : ReserveOpenArgs}
  {o : ReserveOpenOut}

theorem reserveOpenTransaction_eq_some : reserveOpenTransaction db r a = some (db', o) ↔
    ∃ db₁, applyAll (payCoin r) db r.payments = some db₁ ∧
      Pg.exchangeDoReserveOpen db₁ a = .ok (db', o) ∧ o.readable = true ∧ o.noReserve = false ∧
      o.noFunds = false := by
  unfold reserveOpenTransaction
  rw [Option.bind_eq_bind, Option.bind_eq_some_iff]
  refine exists_congr fun db₁ => and_congr_right fun _ => ?_
  cases he : Pg.exchangeDoReserveOpen db₁ a with
  | error e => simp
  | ok p =>
    obtain ⟨db₂, o₂⟩ := p
    simp only [Option.ite_none_right_eq_some, Bool.and_eq_true, Bool.not_eq_true', Option.some.injEq,
      Except.ok.injEq, Prod.mk.injEq, and_assoc]
    constructor
    · rintro ⟨h₁, h₂, h₃, rfl, rfl⟩
      exact ⟨rfl, rfl, h₁, h₂, h₃⟩
    · rintro ⟨rfl, rfl, h₁, h₂, h₃⟩
      exact ⟨h₁, h₂, h₃, rfl, rfl⟩

/-- A request that gets to its transaction. -/
structure Admitted (s : OpenServer) (r : OpenRequest) (total fee : Amount)
    (checks : List SignatureCheck) : Prop where
  inTime : |s.now - r.requestTimestamp| ≤ timestampTolerance
  parsed : s.parsePayments r.reservePayment r.payments = some (total, checks)
  fee : s.accountFee = some fee
  signed : s.valid (.walletReserveOpen r) = true

/-- A transaction that is committed decides the answer. -/
theorem handler_of_transaction {total fee : Amount} {checks : List SignatureCheck}
    (ha : Admitted s r total fee checks)
    (h : reserveOpenTransaction db r (s.openArgs r total fee) = some (db', o)) :
    handlerReservesOpen s db r =
      ⟨db', replyReserveOpenSuccess s r o, checks ++ [.walletReserveOpen r]⟩ := by
  simp only [handlerReservesOpen, not_lt.mpr ha.inTime, if_false, ha.parsed, ha.fee, ha.signed,
    if_true, h]

/-- **The two ways a request ends**: nothing happens, or its transaction is committed. -/
theorem handler_cases (s : OpenServer) (db : Database) (r : OpenRequest) :
    ((handlerReservesOpen s db r).db = db ∧ (handlerReservesOpen s db r).reply = .failed) ∨
    ∃ total fee checks db' o, Admitted s r total fee checks ∧
      reserveOpenTransaction db r (s.openArgs r total fee) = some (db', o) := by
  by_cases ht : timestampTolerance < |s.now - r.requestTimestamp|
  · exact Or.inl (by simp [handlerReservesOpen, ht])
  cases hp : s.parsePayments r.reservePayment r.payments with
  | none => exact Or.inl (by simp [handlerReservesOpen, ht, hp])
  | some q =>
    obtain ⟨total, checks⟩ := q
    cases hf : s.accountFee with
    | none => exact Or.inl (by simp [handlerReservesOpen, ht, hp, hf])
    | some fee =>
      by_cases hv : s.valid (.walletReserveOpen r) = true
      · cases hx : reserveOpenTransaction db r (s.openArgs r total fee) with
        | none => exact Or.inl (by simp [handlerReservesOpen, ht, hp, hf, hv, hx])
        | some q => exact Or.inr ⟨total, fee, checks, q.1, q.2, ⟨not_lt.mp ht, hp, hf, hv⟩, hx⟩
      · exact Or.inl (by simp [handlerReservesOpen, ht, hp, hf, hv])

/-- A request that pays in vain leaves a debit or an update. -/
theorem PaysInVain.not_atomic (h : PaysInVain s db r) : ¬ OpenAtomic s db r := by
  obtain ⟨hin, hsig, hpay, total, checks, fee, x, t, hparse, hfee, hx, ht, hbal, hend⟩ := h
  obtain ⟨db₁, hpay⟩ := Option.isSome_iff_exists.mp hpay
  have hres := reserves_payCoins hpay
  have hx₁ : db₁.reserves.lookup (s.openArgs r total fee).reservePub = some x := by
    rw [hres]
    exact hx
  -- where the transaction ends is where the handler ends
  have hdone : ∀ {db' o}, Pg.exchangeDoReserveOpen db₁ (s.openArgs r total fee) = .ok (db', o) →
      o.noReserve = false → o.noFunds = false → o.reserveBalance = x.currentBalance →
      (Amount.ofTaler? o.openCost).isSome = true → (handlerReservesOpen s db r).db = db' := by
    intro db' o ho hnr hnf hb hcost
    have hread : o.readable = true := by
      unfold ReserveOpenOut.readable
      rw [hb, hbal, hcost]
      rfl
    rw [handler_of_transaction ⟨hin, hparse, hfee, hsig⟩
      (reserveOpenTransaction_eq_some.mpr ⟨db₁, hpay, ho, hread, hnr, hnf⟩)]
  have hanew : ∀ {db' : Database}, db'.reservesOpenDeposits = db₁.reservesOpenDeposits →
      r.PaysAnew db → ¬ Untouched db db' := by
    rintro db' hsame ⟨p, hp, hnew⟩ hu
    have hrec := hasKey_payCoins hpay p hp
    rw [← hsame, hu.payments, hnew] at hrec
    cases hrec
  intro hatomic
  rcases hend with ⟨hd, hmet, hnew⟩ | ⟨ho, hmet, hchange⟩
  · obtain ⟨o, hrun, hnr, hnf, hb, hcost⟩ := Pg.open_declined hx₁ ht hd
    have hh := hdone hrun hnr hnf hb hcost
    refine hanew rfl hnew (hh ▸ hatomic ?_)
    rintro ⟨-, y, hy, hmet'⟩
    rw [hh] at hy
    cases hx₁.symm.trans hy
    exact hmet hmet'
  · obtain ⟨db', o, hrun, hnr, hnf, hb, hcost, hrow, hpayments⟩ := Pg.open_opened hx₁ ho
    have hh := hdone hrun hnr hnf hb hcost
    have hu : Untouched db db' := by
      refine hh ▸ hatomic ?_
      rintro ⟨-, y, hy, hmet'⟩
      rw [hh] at hy
      cases hrow.symm.trans hy
      exact hmet hmet'
    rcases hchange with hnew | hne
    · exact hanew hpayments hnew hu
    · rw [hu.reserves] at hrow
      exact hne (Option.some.inj (hrow.symm.trans hx))

theorem reply_ok (h : r.reserveExpiration ≤ o.finalExpiration) :
    ∃ e, replyReserveOpenSuccess s r o = .ok e o.openCost := by
  unfold replyReserveOpenSuccess
  rw [if_neg (not_lt.mpr h)]
  exact ⟨_, rfl⟩

/-- A request that does not pay in vain touches nothing unless it is granted. -/
theorem openAtomic_of_not_paysInVain (h : ¬ PaysInVain s db r) : OpenAtomic s db r := by
  intro hgranted
  rcases handler_cases s db r with ⟨hdb, -⟩ | ⟨total, fee, checks, db', o, ha, htrans⟩
  · rw [hdb]
    exact ⟨fun _ h => h, rfl, rfl⟩
  have hh := handler_of_transaction ha htrans
  rw [hh] at hgranted ⊢
  obtain ⟨db₁, hpay, ho, hread, hnr, hnf⟩ := reserveOpenTransaction_eq_some.mp htrans
  obtain ⟨x, t, hx, ht, hb, hcases⟩ := Pg.open_cases ho hnr hnf
  have hlookup : db₁.reserves.lookup r.reservePub = some x := hx
  have hx₀ : db.reserves.lookup r.reservePub = some x := by
    rw [← reserves_payCoins hpay]
    exact hx
  unfold ReserveOpenOut.readable at hread
  rw [hb, Bool.and_eq_true] at hread
  -- the reserve is not as requested, so this was not a request that pays in vain
  have hvain : ¬ ((s.openArgs r total fee).Declines t ∧ ¬ r.metBy x ∧ r.PaysAnew db ∨
      (s.openArgs r total fee).Opens x t ∧ ¬ r.metBy ((s.openArgs r total fee).opened x t) ∧
        (r.PaysAnew db ∨ (s.openArgs r total fee).opened x t ≠ x)) := fun hend =>
    h ⟨ha.inTime, ha.signed, by rw [hpay]; rfl,
      total, checks, fee, x, t, ha.parsed, ha.fee, hx₀, ht, hread.2, hend⟩
  have hrecorded : ¬ r.PaysAnew db → Untouched db db₁ := fun hnew =>
    untouched_payCoins hpay fun p hp => by
      by_contra hk
      exact hnew ⟨p, hp, by simpa using hk⟩
  rcases hcases with ⟨hy, rfl, -, hfin⟩ | ⟨hy, hcost, hs, rfl, -⟩ |
    ⟨hy, hcost, hs, hcov, hfin, hgc, rfl⟩
  · refine hrecorded fun hnew => hvain (Or.inl ⟨Or.inl hy, fun hmet => hgranted ?_, hnew⟩)
    obtain ⟨e, he⟩ := reply_ok (s := s) (r := r) (o := o) (by rw [hfin]; exact hmet.1)
    exact ⟨⟨e, _, he⟩, x, hlookup, hmet⟩
  · refine hrecorded fun hnew => hvain (Or.inl ⟨Or.inr ⟨_, hcost, hs, hread.1⟩, fun hmet => ?_, hnew⟩)
    have hyears := years_of_met (a := s.openArgs r total fee) hmet.1
      ((stored_le 32 r.purseLimit).trans hmet.2) (terms_of_pgTerms ht)
    omega
  · have hopens : (s.openArgs r total fee).Opens x t :=
      ⟨⟨ht, hy, ⟨_, hcost, hs⟩, hcov⟩, hgc, fun c hc => by
        rw [hcost] at hc
        cases hc
        exact hread.1⟩
    have hrow := lookup_updated hx hopens.updates ho
    have hnot : ¬ r.metBy ((s.openArgs r total fee).opened x t) := fun hmet => hgranted <| by
      obtain ⟨e, he⟩ := reply_ok (s := s) (r := r) (o := o) (by rw [hfin]; exact hmet.1)
      exact ⟨⟨e, _, he⟩, _, hrow, hmet⟩
    have hkept : ¬ (r.PaysAnew db ∨ (s.openArgs r total fee).opened x t ≠ x) := fun hc =>
      hvain (Or.inr ⟨hopens, hnot, hc⟩)
    rw [not_or, not_not] at hkept
    have hu := hrecorded hkept.1
    exact ⟨hu.coins, (setReserve_opened hx hkept.2).trans hu.reserves, hu.payments⟩

end Handler

/-- **When opening a reserve is atomic**: unless something is paid or changed in vain. -/
theorem openAtomic_iff (s : OpenServer) (db : Database) (r : OpenRequest) :
    OpenAtomic s db r ↔ ¬ PaysInVain s db r :=
  ⟨fun h hv => hv.not_atomic h, openAtomic_of_not_paysInVain⟩

/-! ## Samples -/

/-- A denomination of value ten, a coin of it and a reserve that expires at `100`. -/
def coinAndReserve : List Op :=
  [.denomination ⟨1, .whole 10, .zero, .zero, .zero, .zero⟩, .coin 7 1,
    .reservesIn 200 100 [⟨3, .whole 20, 0, 4, 4, "", "", 1⟩]]

/-- An exchange with an annual fee of ten. The signature of a coin on a payment never verifies. -/
def sampleServer : OpenServer where
  keys := fun h => if h = 1 then some ⟨.whole 10, .zero, true⟩ else none
  accountFee := some (.whole 10)
  defPurseLimit := 1
  legalReserveExpirationTime := 50
  now := 0
  valid := fun c => match c with
    | .walletReserveOpenDeposit .. => false
    | _ => true

/-- A request for one more year. -/
def sampleOpen (reservePayment : Amount) (payments : List OpenPayment) : OpenRequest where
  reservePub := 3
  requestTimestamp := 0
  reserveExpiration := 200
  reserveSig := 30
  purseLimit := 0
  payments := payments
  reservePayment := reservePayment
  purseLimit_lt := uint32_pos

/-- A request for one more year and more purses than an `INT4` has. -/
def sampleLimit : OpenRequest :=
  { sampleOpen (.whole 10) [] with purseLimit := 2 ^ 31, purseLimit_lt := by decide }

/-- Five of the ten are paid: the answer asks for more, and the coin stays debited. And a purse limit
of `2 ^ 31` is paid for and not granted. -/
theorem not_openAtomic : ¬ OpenAtomic sampleServer (run step Database.empty coinAndReserve)
      (sampleOpen .zero [⟨7, 1, 0, 70, .whole 5⟩]) ∧
    ¬ OpenAtomic sampleServer (run step Database.empty coinAndReserve) sampleLimit := by
  refine ⟨fun h => ?_, fun h => ?_⟩
  · have hreply : (handlerReservesOpen sampleServer (run step Database.empty coinAndReserve)
        (sampleOpen .zero [⟨7, 1, 0, 70, .whole 5⟩])).reply = .paymentRequired 100 ⟨10, 0⟩ := by
      decide +kernel
    have hsame := (h (by
      rintro ⟨⟨e, cost, he⟩, -⟩
      rw [hreply] at he
      cases he)).payments
    have hrows := congrArg (fun t => t.rows.length) hsame
    revert hrows
    decide +kernel
  · have hrow : ((handlerReservesOpen sampleServer (run step Database.empty coinAndReserve)
        sampleLimit).db.reserves.lookup 3).map Reserve.pursesAllowed = some 1 := by
      decide +kernel
    have hsame := (h (by
      rintro ⟨-, y, hy, hmet⟩
      have hlookup : ((handlerReservesOpen sampleServer (run step Database.empty coinAndReserve)
        sampleLimit).db.reserves.lookup 3) = some y := hy
      rw [hlookup] at hrow
      have hpurses : y.pursesAllowed = 1 := Option.some.inj hrow
      have hlimit : ((2 ^ 31 : ℕ) : ℤ) ≤ y.pursesAllowed := hmet.2
      rw [hpurses] at hlimit
      exact absurd hlimit (by decide))).reserves
    have hrows := congrArg (fun t => t.rows) hsame
    revert hrows
    decide +kernel

/-! ## What a request is paid with -/

/-- What the coins debited under a signature of the reserve contribute, without the fees. -/
def Database.paidBy (db : Database) (sig : Signature) : ℤ :=
  db.reservesOpenDeposits.total (onlyIf (fun d => d.reserveSig = sig) fun d =>
    d.contribution.units - db.figure (·.feeDeposit) d.coinPub)

/-- The reserve is extended for the cost. -/
def Extended (s : OpenServer) (db : Database) (r : OpenRequest) (cost : TalerAmount) : Prop :=
  (∃ e, (handlerReservesOpen s db r).reply = .ok e cost) ∧
    (handlerReservesOpen s db r).db.reserves ≠ db.reserves

/-- The cost is paid, and the signature of each coin that was debited for it was verified. -/
structure OpenPaid (s : OpenServer) (db : Database) (r : OpenRequest) (cost : TalerAmount) :
    Prop where
  covered : cost.units ≤ r.reservePayment.units + (handlerReservesOpen s db r).db.paidBy r.reserveSig
  verified : ∀ d ∈ (handlerReservesOpen s db r).db.reservesOpenDeposits.rows,
    d.reserveSig = r.reserveSig →
      .walletReserveOpenDeposit d.coinPub d.coinSig r.reserveSig d.contribution ∈
        (handlerReservesOpen s db r).checks

/-- The annual fees that the request is to pay. -/
def OpenServer.openCost (s : OpenServer) (db : Database) (r : OpenRequest) : Option TalerAmount := do
  let fee ← s.accountFee
  let x ← db.reserves.lookup r.reservePub
  let t ← ((s.openArgs r .zero fee).pgTerms x).toOption
  let cost ← ((s.openArgs r .zero fee).pgCost t.years).toOption
  cost

/-- The reserve alone pays: its payment covers the cost, no coin was debited under the signature
before, and the payments with coins are all recorded for other requests. -/
structure PaidFromReserve (s : OpenServer) (db : Database) (r : OpenRequest) : Prop where
  covered : ∀ cost, s.openCost db r = some cost → cost.units ≤ r.reservePayment.units
  unpaid : ∀ d ∈ db.reservesOpenDeposits.rows, d.reserveSig ≠ r.reserveSig
  recorded : ∀ p ∈ r.payments, db.reservesOpenDeposits.hasKey p.key = true

section Paid

variable {s : OpenServer} {db db' : Database} {r : OpenRequest}

theorem paidBy_eq_zero {sig : Signature}
    (h : ∀ d ∈ db.reservesOpenDeposits.rows, d.reserveSig ≠ sig) : db.paidBy sig = 0 := by
  refine Table.total_eq_zero fun d hd => ?_
  exact onlyIf_neg (h d hd)

/-- The loop over the payments verifies no signature of a coin on its payment. -/
theorem not_mem_parsePayments {total total' : Amount} {ps : List OpenPayment}
    {checks : List SignatureCheck} (h : s.parsePayments total ps = some (total', checks))
    (c : CoinPub) (sig rsig : Signature) (m : Amount) :
    .walletReserveOpenDeposit c sig rsig m ∉ checks := by
  induction ps generalizing total total' checks with
  | nil =>
    cases h
    exact List.not_mem_nil
  | cons p ps ih =>
    simp only [OpenServer.parsePayments, Option.bind_eq_bind, Option.bind_eq_some_iff, Option.pure_def,
      Option.some.injEq, Prod.mk.injEq, Prod.exists] at h
    obtain ⟨v, check, hp, t₁, -, t₂, rest, hrest, -, rfl⟩ := h
    rw [List.mem_cons, not_or]
    refine ⟨?_, ih hrest⟩
    rintro rfl
    simp only [OpenServer.parseCoin, Option.bind_eq_bind, Option.bind_eq_some_iff] at hp
    obtain ⟨dk, -, hp⟩ := hp
    split_ifs at hp
    all_goals
      rw [Option.bind_eq_some_iff] at hp
      obtain ⟨v', -, hp⟩ := hp
      cases hp

theorem mem_payCoin {p : OpenPayment} (h : payCoin r db p = some db') {d : ReserveOpenDeposit}
    (hd : d ∈ db.reservesOpenDeposits.rows) : d ∈ db'.reservesOpenDeposits.rows := by
  rcases (payCoin_spec h).2 with ⟨-, e, -⟩ | ⟨-, hins⟩
  · rw [e]
    exact hd
  · exact (Table.mem_insert? hins).mpr (Or.inl hd)

theorem mem_payCoins {ps : List OpenPayment} (h : applyAll (payCoin r) db ps = some db')
    {d : ReserveOpenDeposit} (hd : d ∈ db.reservesOpenDeposits.rows) :
    d ∈ db'.reservesOpenDeposits.rows :=
  applyAll_invariant (I := fun s => d ∈ s.reservesOpenDeposits.rows) (fun hp => mem_payCoin hp) h hd

/-- A row that the payments add carries the signature of the request. -/
theorem sig_payCoins {ps : List OpenPayment} (h : applyAll (payCoin r) db ps = some db') :
    ∀ d ∈ db'.reservesOpenDeposits.rows,
      d ∈ db.reservesOpenDeposits.rows ∨ d.reserveSig = r.reserveSig := by
  refine applyAll_invariant (I := fun s => ∀ d ∈ s.reservesOpenDeposits.rows,
    d ∈ db.reservesOpenDeposits.rows ∨ d.reserveSig = r.reserveSig) ?_ h fun _ hd => Or.inl hd
  intro db₁ p db₂ hp hi d hd
  rcases (payCoin_spec hp).2 with ⟨-, e, -⟩ | ⟨-, hins⟩
  · rw [e] at hd
    exact hi d hd
  · rcases (Table.mem_insert? hins).mp hd with hd | rfl
    · exact hi d hd
    · exact Or.inr rfl

/-- **A request that extends the reserve**: its cost, and what it leaves in
`reserves_open_deposits`. -/
theorem Extended.paid {cost : TalerAmount} (h : Extended s db r cost) :
    s.openCost db r = some cost ∧
    ∃ db₁, applyAll (payCoin r) db r.payments = some db₁ ∧
      (handlerReservesOpen s db r).db.reservesOpenDeposits = db₁.reservesOpenDeposits ∧
      ∀ c sig rsig m, .walletReserveOpenDeposit c sig rsig m ∉ (handlerReservesOpen s db r).checks := by
  obtain ⟨⟨e, he⟩, hne⟩ := h
  rcases handler_cases s db r with ⟨-, hreply⟩ | ⟨total, fee, checks, db', o, ha, htrans⟩
  · rw [hreply] at he
    cases he
  have hh := handler_of_transaction ha htrans
  rw [hh] at he hne ⊢
  obtain ⟨db₁, hpay, ho, -, hnr, hnf⟩ := reserveOpenTransaction_eq_some.mp htrans
  obtain ⟨x, t, hx, ht, -, hcases⟩ := Pg.open_cases ho hnr hnf
  have hsame := reserves_payCoins hpay
  have hx' : db.reserves.lookup r.reservePub = some x := by
    rw [← hsame]
    exact hx
  rcases hcases with ⟨-, rfl, -⟩ | ⟨-, -, -, rfl, -⟩ | ⟨-, hcost, -, -, -, -, rfl⟩
  · exact absurd hsame hne
  · exact absurd hsame hne
  · refine ⟨?_, db₁, hpay, rfl, fun c sig rsig m hmem => ?_⟩
    · have hcost' : o.openCost = cost := by
        unfold replyReserveOpenSuccess at he
        simp only at he
        split_ifs at he <;> cases he <;> rfl
      -- the terms and the cost do not depend on the total
      have ht' : (s.openArgs r .zero fee).pgTerms x = .ok t := ht
      have hc' : (s.openArgs r .zero fee).pgCost t.years = .ok (some o.openCost) := hcost
      simp only [OpenServer.openCost, ha.fee, hx', ht', hc', Option.bind_eq_bind, Option.bind_some,
        Except.toOption]
      rw [hcost']
    · rcases List.mem_append.mp hmem with hmem | hmem
      · exact not_mem_parsePayments ha.parsed c sig rsig m hmem
      · cases List.mem_singleton.mp hmem

end Paid

/-- **When a request is paid with coins whose signatures were verified**: when it is paid without
coins, as the handler verifies none of these signatures. -/
theorem openPaid_iff {s : OpenServer} {db : Database} {r : OpenRequest} {cost : TalerAmount}
    (h : Extended s db r cost) : OpenPaid s db r cost ↔ PaidFromReserve s db r := by
  obtain ⟨hcost, db₁, hpay, hrows, hchecks⟩ := h.paid
  constructor
  · intro hp
    have hnone : ∀ d ∈ (handlerReservesOpen s db r).db.reservesOpenDeposits.rows,
        d.reserveSig ≠ r.reserveSig :=
      fun d hd hs => hchecks _ _ _ _ (hp.verified d hd hs)
    refine ⟨fun c hc => ?_, fun d hd => ?_, fun p hmem => ?_⟩
    · rw [hcost] at hc
      cases hc
      have := hp.covered
      rw [paidBy_eq_zero hnone] at this
      omega
    · refine hnone d ?_
      rw [hrows]
      exact mem_payCoins hpay hd
    · -- a row for the payment is there in the end, and without the signature it is an old one
      obtain ⟨d, hd, hk⟩ := Table.hasKey_iff.mp (hasKey_payCoins hpay p hmem)
      rcases sig_payCoins hpay d hd with hold | hsig
      · exact Table.hasKey_iff.mpr ⟨d, hold, hk⟩
      · rw [← hrows] at hd
        exact absurd hsig (hnone d hd)
  · intro hp
    have hsame := (untouched_payCoins hpay hp.recorded).payments
    have hnone : ∀ d ∈ (handlerReservesOpen s db r).db.reservesOpenDeposits.rows,
        d.reserveSig ≠ r.reserveSig := by
      rw [hrows, hsame]
      exact hp.unpaid
    refine ⟨?_, fun d hd hs => absurd hs (hnone d hd)⟩
    rw [paidBy_eq_zero hnone, add_zero]
    exact hp.covered cost hcost

/-- A request that the reserve pays for. -/
theorem openPaid_reserve : Extended sampleServer (run step Database.empty coinAndReserve)
      (sampleOpen (.whole 10) []) ⟨10, 0⟩ ∧
    OpenPaid sampleServer (run step Database.empty coinAndReserve) (sampleOpen (.whole 10) [])
      ⟨10, 0⟩ := by
  have h : Extended sampleServer (run step Database.empty coinAndReserve)
      (sampleOpen (.whole 10) []) ⟨10, 0⟩ := by
    refine ⟨⟨31536000000100, by decide +kernel⟩, fun he => ?_⟩
    have := congrArg (fun t => t.rows) he
    revert this
    decide +kernel
  refine ⟨h, (openPaid_iff h).mpr ⟨fun c hc => ?_, ?_, ?_⟩⟩
  · have hcost : sampleServer.openCost (run step Database.empty coinAndReserve)
        (sampleOpen (.whole 10) []) = some ⟨10, 0⟩ := by decide +kernel
    rw [hcost] at hc
    cases hc
    decide +kernel
  · decide +kernel
  · decide +kernel

/-- One payment of five is listed twice and debited once, and pays for the ten. -/
theorem not_openPaid : ¬ ∀ (s : OpenServer) (ops : List Op) (r : OpenRequest) (cost : TalerAmount),
    Extended s (run step Database.empty ops) r cost →
      OpenPaid s (run step Database.empty ops) r cost := by
  intro h
  have hext : Extended sampleServer (run step Database.empty coinAndReserve)
      (sampleOpen .zero [⟨7, 1, 0, 70, .whole 5⟩, ⟨7, 1, 0, 70, .whole 5⟩]) ⟨10, 0⟩ := by
    refine ⟨⟨31536000000100, by decide +kernel⟩, fun he => ?_⟩
    have := congrArg (fun t => t.rows) he
    revert this
    decide +kernel
  have hcovered := (h _ _ _ _ hext).covered
  revert hcovered
  decide +kernel

end TalerExchange
