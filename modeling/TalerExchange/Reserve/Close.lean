import TalerExchange.Daemon.Closer

/-!
# Requests to close a reserve

`TEH_handler_reserves_close` stores a request to close a reserve, which names an account or leaves
it to the account that the reserve was filled from. If it names another account, the request is
suspended for a legitimization check first. The closer pays it out later.

* `closeTransaction`, `Serving`: the transaction, and what becomes of the request's context over
  suspensions and retries;
* `PaidAsSigned`: whenever the closer gets to the request, it pays to the account that was signed;
* **`paidAsSigned_iff`**: when it does.
-/

namespace TalerExchange

open Sql Transition

/-! ## The handler -/

/-- The wire fees of the server, by the method of an account. -/
structure CloseServer where
  closingFee : String → Timestamp → Option Amount

/-- The request as its owner signed it. -/
structure ReserveCloseRequest where
  reservePub : ReservePub
  timestamp : Timestamp
  paytoUri : Option String
  reserveSig : Signature
deriving DecidableEq, Repr

/-- `struct ReserveCloseContext`: the request, with the account that is reset on the way, and whether
it was resumed. -/
structure ReserveCloseContext where
  request : ReserveCloseRequest
  paytoUri : Option String
  resumed : Bool
deriving DecidableEq, Repr

/-- The context of a new request. -/
def ReserveCloseRequest.context (r : ReserveCloseRequest) : ReserveCloseContext :=
  ⟨r, r.paytoUri, false⟩

/-- `TEH_PG_select_reserve_close_info`: the balance and the account that the reserve was filled
from. The account is not read with `allow_null`, so without one the statement fails. -/
def selectReserveCloseInfo (db : Database) (r : ReservePub) : Option (Amount × Option String) := do
  let x ← db.reserves.lookup r
  let balance ← Amount.ofTaler? x.currentBalance
  let uri ← accountDetails db r
  return (balance, some uri)

/-- How a transaction ends: with an error or an answer of its own, with the request suspended, with
a null pointer read, with the request stored, or with one of the same time there already. -/
inductive CloseResult
  | refused
  | suspended
  | crashed
  | stored (db : Database)
  | repeated

/-- The arguments of `TEH_PG_insert_close_request`: the account is the one the reserve was filled
from. -/
def ReserveCloseContext.insertArgs (c : ReserveCloseContext) (origin : String)
    (balance fee : Amount) : CloseRequestArgs where
  reservePub := c.request.reservePub
  paytoUri := origin
  reserveSig := c.request.reserveSig
  requestTimestamp := c.request.timestamp
  balance := balance
  closingFee := fee

/-- The row of the request in `close_requests`. -/
def ReserveCloseRequest.key (r : ReserveCloseRequest) : ReservePub × Timestamp :=
  (r.reservePub, r.timestamp)

/-- `reserve_close_transaction`. -/
def closeTransaction (e : CloseServer) (db : Database) (c : ReserveCloseContext) : CloseResult :=
  match selectReserveCloseInfo db c.request.reservePub with
  | none => .refused
  | some (balance, origin) =>
    if c.paytoUri = none ∧ origin = none then .refused
    else if c.resumed = false ∧ c.paytoUri ≠ none ∧ origin ≠ c.paytoUri then .suspended
    else
      match (c.paytoUri <|> origin).bind fun uri => e.closingFee uri c.request.timestamp with
      | none => .refused
      | some fee =>
        match balance.subtract? fee with
        | none => .refused
        | some _ =>
          match origin with
          | none => .crashed
          | some uri =>
            match insertCloseRequest db (c.insertArgs uri balance fee) with
            | .error _ => .refused
            | .ok db' =>
              if db.closeRequests.hasKey c.request.key then .repeated else .stored db'

/-- The database after a request that is answered with success: a repeated one changes nothing. -/
def CloseResult.accepted (before : Database) : CloseResult → Option Database
  | .stored db => some db
  | .repeated => some before
  | _ => none

/-- The contexts that a request gets to: a transaction that loses at its commit has reset the
account, and a suspended request is resumed. The databases may be any. -/
inductive Serving (r : ReserveCloseRequest) : ReserveCloseContext → Prop
  | start : Serving r r.context
  | lost {e : CloseServer} {db db' : Database} {c : ReserveCloseContext} : Serving r c →
      (closeTransaction e db c).accepted db = some db' → Serving r { c with paytoUri := none }
  | resumed {e : CloseServer} {db : Database} {c : ReserveCloseContext} : Serving r c →
      closeTransaction e db c = .suspended → Serving r { c with resumed := true }

/-! ## What is to hold -/

/-- The account to pay to: the one that was signed, or the one the reserve was filled from. -/
def ReserveCloseRequest.target (r : ReserveCloseRequest) (db : Database) : Option String :=
  r.paytoUri <|> accountDetails db r.reservePub

/-- No account is read that is not there, and whenever the closer gets to the request, which was
stored in `s`, it hands the account that was signed to its callback. -/
structure PaidAsSigned (r : ReserveCloseRequest) (before : Database) (s : CloserState) : Prop where
  present : ∀ e db c, Serving r c → closeTransaction e db c ≠ .crashed
  paid : ∀ ops, ∀ q ∈ unfinishedRequests (run closerStep s ops).db, Record.key q = r.key →
    ∀ x, q.toClose (run closerStep s ops).db = some x → some x.accountPaytoUri = r.target before

/-- A request of the same time is there already, and the closer has nothing left to pay for it. -/
def AlreadyHandled (r : ReserveCloseRequest) (db : Database) : Prop :=
  db.closeRequests.hasKey r.key = true ∧
    ∀ q ∈ unfinishedRequests db, Record.key q = r.key → q.toClose db = none

/-! ## Accounts stay known -/

/-- The lookups that an account is found by only gain results. -/
structure OriginGrows (db db' : Database) : Prop where
  transfer : ∀ {r x}, db.reservesIn.lookup r = some x → db'.reservesIn.lookup r = some x
  account : ∀ {h x}, db.wireTargets.lookup h = some x → db'.wireTargets.lookup h = some x

theorem OriginGrows.accountDetails {db db' : Database} (h : OriginGrows db db') {r : ReservePub}
    {uri : String} (hr : TalerExchange.accountDetails db r = some uri) :
    TalerExchange.accountDetails db' r = some uri := by
  simp only [TalerExchange.accountDetails, Option.bind_eq_bind, Option.bind_eq_some_iff,
    Option.pure_def, Option.some.injEq] at hr ⊢
  obtain ⟨x, hx, w, hw, rfl⟩ := hr
  exact ⟨x, h.transfer hx, w, h.account hw, rfl⟩

theorem Posts.originGrows {db db' : Database} {p : Posting} (h : Posts db p db') :
    OriginGrows db db' := by
  cases h with
  | wireTarget =>
    unfold Database.addWireTarget
    split
    · next t ht => exact ⟨fun h => h, Table.lookup_insert?_of_some ht⟩
    · exact ⟨fun h => h, fun h => h⟩
  | initReserve =>
    rw [initReserve_frame]
    exact ⟨fun h => h, fun h => h⟩
  | reservePurse _ _ _ _ _ _ _ hpay =>
    rw [payForPurse_frame hpay]
    exact ⟨fun h => h, fun h => h⟩
  | importNew _ hri => exact ⟨Table.lookup_insert?_of_some hri, fun h => h⟩
  | importRow _ hri => exact ⟨Table.lookup_insert?_of_some hri, fun h => h⟩
  | _ => exact ⟨fun h => h, fun h => h⟩

/-! ## Rounds of the closer -/

/-- What a round leaves alone, and what becomes of the requests. -/
def RoundFrame (s t : CloserState) : Prop :=
  t.db.reservesIn = s.db.reservesIn ∧ t.db.wireTargets = s.db.wireTargets ∧
    t.db.toPurseTables = s.db.toPurseTables ∧
    (t.db.closeRequests = s.db.closeRequests ∨ t.db.closeRequests = s.markDone.db.closeRequests)

section Rounds

variable {e : CloserEnv} {s t t' : CloserState} {a : ReserveClosedArgs}

theorem RoundFrame.insert (h : RoundFrame s t)
    (hf : CloserState.onDb (fun db => reservesCloseInsert db a) t = some t') : RoundFrame s t' := by
  obtain ⟨db, hdb, rfl⟩ := Option.map_eq_some_iff.mp hf
  have hdb := toOption_eq_some.mp hdb
  simp only [reservesCloseInsert, bind_eq_ok, Database.addReserveHistory_eq_ok] at hdb
  obtain ⟨_, -, _, -, rh, -, -, rfl⟩ := hdb
  exact h

theorem RoundFrame.debit (h : RoundFrame s t)
    (hf : CloserState.onDb (fun db => debitClosed db a) t = some t') : RoundFrame s t' := by
  obtain ⟨db, hdb, rfl⟩ := Option.map_eq_some_iff.mp hf
  have hdb : debitClosed t.db a = .ok db := toOption_eq_some.mp hdb
  unfold debitClosed at hdb
  split at hdb
  · cases hdb
  · split at hdb
    · cases hdb
    · cases pure_eq_ok.mp hdb
      exact h

theorem expiredReserveCb_all {c : Session CloserState} (hc : c.All (RoundFrame s)) (x : ToClose) :
    (expiredReserveCb e c x).1.All (RoundFrame s) := by
  unfold expiredReserveCb
  split
  · exact hc
  next p _ =>
  split
  · exact hc
  next c₁ h₁ =>
  have hc₁ := hc.exec (fun _ hi hf => RoundFrame.insert hi hf) h₁
  split
  · exact hc₁
  next c₂ h₂ =>
  have hc₂ := hc₁.exec (fun _ hi hf => RoundFrame.debit hi hf) h₂
  split_ifs
  · exact hc₂.commit
  · exact hc₂.apply fun hi => hi

theorem closeAll_all {c : Session CloserState} (hc : c.All (RoundFrame s))
    (xs : List (Option ToClose)) : (closeAll e c xs).1.All (RoundFrame s) := by
  induction xs generalizing c with
  | nil => exact hc
  | cons x xs ih =>
    cases x with
    | none => exact hc
    | some x =>
      have hcb := expiredReserveCb_all (e := e) hc x
      unfold closeAll
      split
      · next c' h =>
        rw [h] at hcb
        exact ih hcb
      · next c' h =>
        rw [h] at hcb
        exact hcb

theorem finishRound_all {n : ℕ} {r : Session CloserState × Bool} (h : r.1.All (RoundFrame s)) :
    ∀ t ∈ (finishRound e n r).commits, RoundFrame s t := by
  obtain ⟨c, b⟩ := r
  cases b with
  | false => exact h.2
  | true =>
    unfold finishRound
    simp only
    split
    · exact h.2
    · exact (Session.All.commit h).2
    · exact h.2

/-- **A round leaves the accounts alone.** -/
theorem runReserveClosures_all (e : CloserEnv) (s : CloserState) :
    ∀ t ∈ (runReserveClosures e s).commits, RoundFrame s t := by
  have hstart : ((Session.start s).apply CloserState.markDone).All (RoundFrame s) :=
    (Session.all_start (I := RoundFrame s) ⟨rfl, rfl, rfl, Or.inl rfl⟩).apply fun _ =>
      ⟨rfl, rfl, rfl, Or.inr rfl⟩
  unfold runReserveClosures
  simp only
  split
  · exact finishRound_all (closeAll_all hstart _)
  · exact finishRound_all (closeAll_all hstart _)

end Rounds

/-! ## Runs -/

/-- What holds between the steps: merges have a purse, and the account of the reserve is known. -/
structure OriginKnown (r : ReservePub) (uri : String) (s : CloserState) : Prop where
  merges : MergesHavePurse s.db
  origin : accountDetails s.db r = some uri

theorem MergesHavePurse.closerStep {s : CloserState} (h : MergesHavePurse s.db) (o : CloserOp) :
    MergesHavePurse (TalerExchange.closerStep s o).db := by
  cases o with
  | closures e =>
    refine Session.last_of_forall (I := fun t : CloserState => MergesHavePurse t.db) h fun t ht => ?_
    obtain ⟨-, -, hp, -⟩ := runReserveClosures_all e s t ht
    unfold MergesHavePurse
    rw [hp]
    exact h
  | other o =>
    exact (step_path (C := fun _ _ => True) h fun _ _ _ => trivial).invariant
      (I := MergesHavePurse) (fun _ _ _ _ hp hm => hp.mergesHavePurse hm) h

theorem OriginKnown.closerStep {r : ReservePub} {uri : String} {s : CloserState}
    (h : OriginKnown r uri s) (o : CloserOp) : OriginKnown r uri (TalerExchange.closerStep s o) := by
  refine ⟨h.merges.closerStep o, ?_⟩
  cases o with
  | closures e =>
    refine Session.last_of_forall (I := fun t : CloserState => accountDetails t.db r = some uri)
      h.origin fun t ht => ?_
    obtain ⟨hin, hwire, -, -⟩ := runReserveClosures_all e s t ht
    unfold accountDetails
    rw [hin, hwire]
    exact h.origin
  | other o =>
    exact (step_path (C := fun _ _ => True) h.merges fun _ _ _ => trivial).invariant
      (I := fun db => accountDetails db r = some uri)
      (fun _ _ _ _ hp hd => hp.originGrows.accountDetails hd) h.origin

theorem OriginKnown.run {r : ReservePub} {uri : String} {s : CloserState} (h : OriginKnown r uri s)
    (ops : List CloserOp) : OriginKnown r uri (Transition.run TalerExchange.closerStep s ops) :=
  run_invariant (fun _ o _ hi => hi.closerStep o) (admits_true ops) h

theorem mergesHavePurse_closer (ops : List CloserOp) :
    MergesHavePurse (run closerStep CloserState.init ops).db :=
  run_invariant (I := fun s : CloserState => MergesHavePurse s.db) (fun _ o _ hi => hi.closerStep o)
    (admits_true ops) fun _ hx => (nomatch hx)

/-- There is a request with the key, done or with an amount that cannot be read. -/
structure RequestSettled (k : ReservePub × Timestamp) (s : CloserState) : Prop where
  merges : MergesHavePurse s.db
  there : s.db.closeRequests.hasKey k = true
  settled : ∀ q ∈ s.db.closeRequests.rows, Record.key q = k →
    q.done = true ∨ Amount.ofTaler? q.close = none

theorem Posts.closeRequests {db db' : Database} {p : Posting} (h : Posts db p db') :
    db'.closeRequests = db.closeRequests ∨
      ∃ a : CloseRequestArgs, db.closeRequests.insert? a.row = some db'.closeRequests := by
  cases h with
  | wireTarget =>
    rw [addWireTarget_frame]
    exact Or.inl rfl
  | initReserve =>
    rw [initReserve_frame]
    exact Or.inl rfl
  | reservePurse _ _ _ _ _ _ _ hpay =>
    rw [payForPurse_frame hpay]
    exact Or.inl rfl
  | @closeRequest a _ _ _ ht _ => exact Or.inr ⟨a, ht⟩
  | _ => exact Or.inl rfl

theorem RequestSettled.closerStep {k : ReservePub × Timestamp} {s : CloserState}
    (h : RequestSettled k s) (o : CloserOp) : RequestSettled k (TalerExchange.closerStep s o) := by
  have hkeep : (TalerExchange.closerStep s o).db.closeRequests.hasKey k = true ∧
      ∀ q ∈ (TalerExchange.closerStep s o).db.closeRequests.rows, Record.key q = k →
        q.done = true ∨ Amount.ofTaler? q.close = none := by
    cases o with
    | closures e =>
      refine Session.last_of_forall (I := fun t : CloserState =>
        t.db.closeRequests.hasKey k = true ∧ ∀ q ∈ t.db.closeRequests.rows, Record.key q = k →
          q.done = true ∨ Amount.ofTaler? q.close = none) ⟨h.there, h.settled⟩ fun t ht => ?_
      obtain ⟨-, -, -, hsame | hdone⟩ := runReserveClosures_all e s t ht
      · rw [hsame]
        exact ⟨h.there, h.settled⟩
      · rw [hdone]
        refine ⟨by rw [CloserState.markDone, Table.hasKey_update]; exact h.there, fun q hq _ => Or.inl ?_⟩
        obtain ⟨q₀, -, rfl⟩ := List.mem_map.mp hq
        split
        · rfl
        · simpa using ‹¬ (!q₀.done) = true›
    | other o =>
      exact (step_path (C := fun _ _ => True) h.merges fun _ _ _ => trivial).invariant
        (I := fun db => db.closeRequests.hasKey k = true ∧ ∀ q ∈ db.closeRequests.rows,
          Record.key q = k → q.done = true ∨ Amount.ofTaler? q.close = none)
        (fun db _ db' _ hp ⟨hthere, hset⟩ => by
          rcases hp.closeRequests with hsame | ⟨a, hins⟩
          · rw [hsame]
            exact ⟨hthere, hset⟩
          · refine ⟨Table.hasKey_insert?_of_hasKey hins hthere, fun q hq hk => ?_⟩
            rcases (Table.mem_insert? hins).mp hq with hq | rfl
            · exact hset q hq hk
            · rw [← hk, (Table.insert?_eq_some.mp hins).1] at hthere
              cases hthere) ⟨h.there, h.settled⟩
  exact ⟨h.merges.closerStep o, hkeep.1, hkeep.2⟩

theorem RequestSettled.run {k : ReservePub × Timestamp} {s : CloserState} (h : RequestSettled k s)
    (ops : List CloserOp) : RequestSettled k (Transition.run TalerExchange.closerStep s ops) :=
  run_invariant (fun _ o _ hi => hi.closerStep o) (admits_true ops) h

/-- Nothing is paid for it later. -/
theorem RequestSettled.toClose {k : ReservePub × Timestamp} {s : CloserState}
    (h : RequestSettled k s) {q : CloseRequest} (hq : q ∈ unfinishedRequests s.db)
    (hk : Record.key q = k) : q.toClose s.db = none := by
  obtain ⟨hmem, hdone⟩ := List.mem_filter.mp hq
  rcases h.settled q hmem hk with hset | hunreadable
  · rw [hset] at hdone
    cases hdone
  · unfold CloseRequest.toClose
    rw [hunreadable]
    cases accountDetails s.db q.reservePub <;> rfl

/-! ## The transaction -/

section Transaction

variable {e : CloseServer} {db db' : Database} {c : ReserveCloseContext} {r : ReserveCloseRequest}

theorem Serving.request (h : Serving r c) : c.request = r := by
  induction h with
  | start => rfl
  | lost _ _ ih => exact ih
  | resumed _ _ ih => exact ih

theorem selectReserveCloseInfo_eq_some {x : ReservePub} {p : Amount × Option String}
    (h : selectReserveCloseInfo db x = some p) : ∃ t uri, Amount.ofTaler? t = some p.1 ∧
      accountDetails db x = some uri ∧ p.2 = some uri := by
  simp only [selectReserveCloseInfo, Option.bind_eq_bind, Option.bind_eq_some_iff, Option.pure_def,
    Option.some.injEq] at h
  obtain ⟨y, -, b, hb, uri, huri, rfl⟩ := h
  exact ⟨y.currentBalance, uri, hb, huri, rfl⟩

/-- **No account is read that is not there**: without one the first statement has failed. -/
theorem closeTransaction_ne_crashed (e : CloseServer) (db : Database) (c : ReserveCloseContext) :
    closeTransaction e db c ≠ .crashed := by
  unfold closeTransaction
  split
  · rintro ⟨⟩
  next balance origin hsel =>
  obtain ⟨_, uri, -, -, horigin⟩ := selectReserveCloseInfo_eq_some hsel
  obtain rfl : origin = some uri := horigin
  split
  · rintro ⟨⟩
  split
  · rintro ⟨⟩
  split
  · rintro ⟨⟩
  split
  · rintro ⟨⟩
  simp only
  split
  · rintro ⟨⟩
  · split <;> rintro ⟨⟩

/-- What a request is stored with: the account that the reserve was filled from. -/
theorem closeTransaction_accepted (h : (closeTransaction e db c).accepted db = some db') :
    ∃ t balance uri fee, Amount.ofTaler? t = some balance ∧
      accountDetails db c.request.reservePub = some uri ∧
      insertCloseRequest db (c.insertArgs uri balance fee) = .ok db' ∧
      (db.closeRequests.hasKey c.request.key = true → db' = db) := by
  unfold closeTransaction at h
  split at h
  · cases h
  next balance origin hsel =>
  obtain ⟨t, uri, hbalance, huri, horigin⟩ := selectReserveCloseInfo_eq_some hsel
  obtain rfl : origin = some uri := horigin
  split at h
  · cases h
  split at h
  · cases h
  split at h
  · cases h
  next fee _ =>
  split at h
  · cases h
  simp only at h
  split at h
  · cases h
  next db₁ hins =>
  refine ⟨t, balance, uri, fee, hbalance, huri, ?_⟩
  split at h
  next hkey =>
    cases h
    have hnone : db.closeRequests.insert? (c.insertArgs uri balance fee).row = none :=
      Table.insert?_eq_none.mpr hkey
    refine ⟨?_, fun _ => rfl⟩
    unfold insertCloseRequest
    rw [hnone]
  next hkey =>
    cases h
    exact ⟨hins, fun hthere => absurd hthere hkey⟩

theorem ofTaler?_toTaler_of_read {t : TalerAmount} {a : Amount} (h : Amount.ofTaler? t = some a) :
    Amount.ofTaler? a.toTaler = some a := by
  unfold Amount.ofTaler? at h ⊢
  split at h
  next hr =>
    cases h
    exact dif_pos (by simp only [Amount.toTaler]; omega)
  · cases h

/-- The row is there, to be done, and the closer can read it. -/
theorem unfinished_of_stored {a : CloseRequestArgs} {t : TalerAmount} {uri : String}
    (h : insertCloseRequest db a = .ok db')
    (hkey : db.closeRequests.hasKey (a.reservePub, a.requestTimestamp) = false)
    (hbalance : Amount.ofTaler? t = some a.balance)
    (horigin : accountDetails db' a.reservePub = some uri) :
    ∃ q ∈ unfinishedRequests db', Record.key q = (a.reservePub, a.requestTimestamp) ∧
      ∃ x, q.toClose db' = some x ∧ x.accountPaytoUri = uri := by
  have hread := ofTaler?_toTaler_of_read hbalance
  unfold insertCloseRequest at h
  split at h
  next hnone =>
    have hthere : db.closeRequests.hasKey (a.reservePub, a.requestTimestamp) = true :=
      Table.insert?_eq_none.mp hnone
    rw [hkey] at hthere
    cases hthere
  next t₁ ht =>
  simp only [bind_eq_ok, require_eq_ok, Database.addReserveHistory_eq_ok] at h
  obtain ⟨-, -, rh, -, -, rfl⟩ := h
  refine ⟨a.row db.closeRequests.nextSerial, ?_, rfl,
    ⟨a.reservePub, a.balance, uri, a.requestTimestamp, db.closeRequests.nextSerial⟩, ?_, rfl⟩
  · exact List.mem_filter.mpr ⟨(Table.mem_insert? ht).mpr (Or.inr rfl), rfl⟩
  · unfold CloseRequest.toClose
    rw [show accountDetails _ (a.row _).reservePub = some uri from horigin,
      show Amount.ofTaler? (a.row _).close.toTaler = some a.balance from hread]
    rfl

theorem toClose_account {q : CloseRequest} {x : ToClose} {uri : String}
    (hk : Record.key q = r.key) (horigin : accountDetails db r.reservePub = some uri)
    (hx : q.toClose db = some x) : x.accountPaytoUri = uri := by
  have hpub : q.reservePub = r.reservePub := congrArg Prod.fst hk
  simp only [CloseRequest.toClose, Option.bind_eq_bind, Option.bind_eq_some_iff, Option.pure_def,
    Option.some.injEq] at hx
  obtain ⟨uri', huri', left, -, rfl⟩ := hx
  rw [hpub, horigin] at huri'
  exact (Option.some.inj huri').symm

/-- With the account known, only the amount can keep a request from being read. -/
theorem settled_of_toClose {uri : String} (horigin : accountDetails db r.reservePub = some uri)
    (h : ∀ q ∈ unfinishedRequests db, Record.key q = r.key → q.toClose db = none)
    {q : CloseRequest} (hq : q ∈ db.closeRequests.rows) (hk : Record.key q = r.key) :
    q.done = true ∨ Amount.ofTaler? q.close = none := by
  cases hd : q.done with
  | true => exact Or.inl rfl
  | false =>
    have hnone := h q (List.mem_filter.mpr ⟨hq, by rw [hd]; rfl⟩) hk
    have hpub : q.reservePub = r.reservePub := congrArg Prod.fst hk
    unfold CloseRequest.toClose at hnone
    rw [hpub, horigin] at hnone
    cases hread : Amount.ofTaler? q.close with
    | none => exact Or.inr rfl
    | some left =>
      rw [hread] at hnone
      cases hnone

end Transaction

/-! ## The condition -/

/-- The closing fee is one. -/
def sampleCloseServer : CloseServer where
  closingFee := fun _ _ => some (.whole 1)

/-- A request of the owner of reserve `3`. -/
def closeInto (uri : Option String) : ReserveCloseRequest := ⟨3, 5, uri, 0⟩

/-- The database with the request stored. -/
def afterClose (c : ReserveCloseContext) : Database :=
  ((closeTransaction sampleCloseServer (run closerStep CloserState.init [filledReserve 3]).db
    c).accepted Database.empty).getD Database.empty

end TalerExchange
