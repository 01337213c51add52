import TalerExchange.Posting.Basic

/-!
# The reserve procedures make postings

* `reservesInInsert_path`: the imports of a batch; the second transaction finds every transfer
  recorded by the first and changes nothing (`updateLoop_eq`);
* `batchWithdraw_path`: the debit and its planchets are one posting;
* `ageWithdraw_path`, `exchangeDoRecoupToReserve_path`, `exchangeDoReserveOpen_path`,
  `insertReserveClosed_path`, `insertCloseRequest_path`.
-/

namespace TalerExchange

open Sql Transition

variable {C : Database → Posting → Prop}

/-! ## Incoming wire transfers -/

theorem insertReserveIn_eq_some {db db' : Database} {x : ReserveInInfo} {ts : Timestamp}
    (h : insertReserveIn db x ts = .ok (some db')) :
    ∃ t rh, db.reservesIn.insert? (x.row ts) = some t ∧
      db.reserveHistory.insert? (fun i =>
        ⟨i, x.reservePub, .reservesIn, db.reservesIn.nextSerial⟩) = some rh ∧
      db' = { db with reservesIn := t, reserveHistory := rh } := by
  unfold insertReserveIn at h
  split at h
  · cases h
  · next t ht =>
    simp only [bind_eq_ok, pure_eq_ok, require_eq_ok, Option.some.injEq,
      Database.addReserveHistory_eq_ok] at h
    obtain ⟨-, -, -, -, -, ⟨rh, hrh, -, rfl⟩, rfl⟩ := h
    exact ⟨t, rh, ht, hrh, rfl⟩

theorem insertReserveIn_eq_none {db : Database} {x : ReserveInInfo} {ts : Timestamp} :
    insertReserveIn db x ts = .ok none ↔ db.reservesIn.hasKey x.reservePub = true := by
  unfold insertReserveIn
  split
  · next hn => exact ⟨fun _ => Table.insert?_eq_none.mp hn, fun _ => rfl⟩
  · next t ht =>
    simp only [bind_eq_ok, pure_eq_ok, reduceCtorEq, and_false, exists_false, false_iff]
    have := (Table.insert?_eq_some.mp ht).1
    exact fun h => absurd (h.symm.trans this) (by decide)

/-- The tables about accounts are the only ones that recording an account changes. -/
theorem addWireTarget_frame (db : Database) (p n : HashCode) (u : String) :
    db.addWireTarget p n u =
      { db with wireTargets := (db.addWireTarget p n u).wireTargets } := by
  unfold Database.addWireTarget
  split <;> rfl

/-- What one transfer of the array insert does. -/
theorem arrayInsertOne_cases {db db' : Database} {gc e : Timestamp} {x : ReserveInInfo}
    {r : ArrayInsertResult} (h : arrayInsertOne db gc e x = .ok (db', r)) :
    ∃ db₁, db₁ = db.addWireTarget x.hFullPayto x.hNormalizedPayto x.senderAccountDetails ∧
      db'.reservesIn.hasKey x.reservePub = true ∧
      ((Posts db₁ (.importNew x) db' ∧ r.transactionDuplicate = false ∧ r.ruuid.isSome = true) ∨
        (Posts db₁ (.importReserve x) db' ∧ r.transactionDuplicate = false ∧
          r.ruuid.isSome = true) ∨
        (Posts db₁ (.importRow x) db' ∧ db₁.reserves.hasKey x.reservePub = true ∧
          db₁.reservesIn.hasKey x.reservePub = false ∧ r = ⟨false, none⟩) ∨
        (db' = db₁ ∧ r = ⟨true, none⟩)) := by
  refine ⟨_, rfl, ?_⟩
  unfold arrayInsertOne at h
  simp only at h
  generalize db.addWireTarget _ _ _ = db₁ at h ⊢
  split at h
  · next t ht =>
    rw [bind_eq_ok] at h
    obtain ⟨o, ho, h⟩ := h
    cases o with
    | none =>
      cases pure_eq_ok.mp h
      have hk := insertReserveIn_eq_none.mp ho
      exact ⟨hk, Or.inr (Or.inl ⟨Posts.importReserve ht hk, rfl, rfl⟩)⟩
    | some db₂ =>
      obtain ⟨ri, rh, hri, hrh, rfl⟩ := insertReserveIn_eq_some ho
      cases pure_eq_ok.mp h
      exact ⟨Table.hasKey_insert?_self hri, Or.inl ⟨Posts.importNew ht hri hrh, rfl, rfl⟩⟩
  · next hn =>
    have hres : db₁.reserves.hasKey x.reservePub = true := Table.insert?_eq_none.mp hn
    rw [bind_eq_ok] at h
    obtain ⟨o, ho, h⟩ := h
    cases o with
    | none =>
      cases pure_eq_ok.mp h
      exact ⟨insertReserveIn_eq_none.mp ho, Or.inr (Or.inr (Or.inr ⟨rfl, rfl⟩))⟩
    | some db₂ =>
      obtain ⟨ri, rh, hri, hrh, rfl⟩ := insertReserveIn_eq_some ho
      cases pure_eq_ok.mp h
      exact ⟨Table.hasKey_insert?_self hri, Or.inr (Or.inr (Or.inl
        ⟨Posts.importRow hres hri hrh, hres, (Table.insert?_eq_some.mp hri).1, rfl⟩))⟩

/-- Reserves and recorded transfers stay, and a reserve that appears comes with its transfer. -/
structure Imported (db s : Database) : Prop where
  row : ∀ r, db.reservesIn.hasKey r = true → s.reservesIn.hasKey r = true
  reserve : ∀ r, s.reserves.hasKey r = true →
    db.reserves.hasKey r = true ∨ s.reservesIn.hasKey r = true

theorem Imported.refl (db : Database) : Imported db db := ⟨fun _ h => h, fun _ h => Or.inl h⟩

theorem Imported.trans {db s t : Database} (h : Imported db s) (h' : Imported s t) :
    Imported db t := by
  refine ⟨fun r hr => h'.row r (h.row r hr), fun r hr => ?_⟩
  rcases h'.reserve r hr with hs | ht
  · exact (h.reserve r hs).imp_right (h'.row r)
  · exact Or.inr ht

theorem imported_addWireTarget (db : Database) (p n : HashCode) (u : String) :
    Imported db (db.addWireTarget p n u) := by
  rw [addWireTarget_frame]
  exact ⟨fun _ h => h, fun _ h => Or.inl h⟩

theorem imported_arrayInsertOne {db db' : Database} {gc e : Timestamp} {x : ReserveInInfo}
    {r : ArrayInsertResult} (h : arrayInsertOne db gc e x = .ok (db', r)) : Imported db db' := by
  obtain ⟨db₁, hdb₁, hk, h⟩ := arrayInsertOne_cases h
  refine Imported.trans (hdb₁ ▸ imported_addWireTarget ..) ?_
  -- a new reserve has the key of the transfer, whose row is there
  have hnew : ∀ {t t' : Table Reserve} {mk : ℕ → Reserve} {hs : ∀ n, Record.serial (mk n) = n}
      {q : ReservePub}, t.insert? mk hs = some t' → Record.key (mk t.nextSerial) = x.reservePub →
      t'.hasKey q = true → t.hasKey q = true ∨ db'.reservesIn.hasKey q = true := by
    intro t t' mk hs q hi hkey hq
    rw [Table.hasKey_insert? hi, Bool.or_eq_true, decide_eq_true_eq, hkey] at hq
    refine hq.imp_right fun he => ?_
    rw [← he]
    exact hk
  rcases h with ⟨h, -⟩ | ⟨h, -⟩ | ⟨h, -⟩ | ⟨rfl, -⟩
  · cases h with
    | importNew ht hri _ =>
      exact ⟨fun q hq => Table.hasKey_insert?_of_hasKey hri hq, fun q hq => hnew ht rfl hq⟩
  · cases h with
    | importReserve ht _ => exact ⟨fun q hq => hq, fun q hq => hnew ht rfl hq⟩
  · cases h with
    | importRow _ hri _ => exact ⟨fun q hq => Table.hasKey_insert?_of_hasKey hri hq, fun q hq => Or.inl hq⟩
  · exact .refl _

theorem arrayInsertLoop_imported {db db' : Database} {gc e : Timestamp} {xs : List ReserveInInfo}
    {rs : List ArrayInsertResult} (h : arrayInsertLoop db gc e xs = .ok (db', rs)) :
    Imported db db' ∧ ∀ x ∈ xs, db'.reservesIn.hasKey x.reservePub = true := by
  induction xs generalizing db rs with
  | nil =>
    cases h
    exact ⟨.refl _, by simp⟩
  | cons x xs ih =>
    simp only [arrayInsertLoop, bind_eq_ok, Prod.exists] at h
    obtain ⟨db₁, r, h₁, db₂, rs', h₂, h⟩ := h
    cases pure_eq_ok.mp h
    obtain ⟨himp, hrows⟩ := ih h₂
    refine ⟨(imported_arrayInsertOne h₁).trans himp, fun y hy => ?_⟩
    rcases List.mem_cons.mp hy with rfl | hy
    · obtain ⟨_, _, hk, _⟩ := arrayInsertOne_cases h₁
      exact himp.row _ hk
    · exact hrows y hy

/-- **The second transaction changes nothing**: every transfer it looks at is recorded. -/
theorem updateLoop_eq {db : Database} {e : Timestamp} {l : List (ReserveInInfo × ArrayInsertResult)}
    (h : ∀ x ∈ l, db.reservesIn.hasKey x.1.reservePub = true) :
    updateLoop db e l = .ok (db, l.map fun x =>
      if x.2.transactionDuplicate || x.2.ruuid.isSome then x.2.status else .duplicate) := by
  induction l with
  | nil => rfl
  | cons y l ih =>
    obtain ⟨x, r⟩ := y
    have hl := ih fun y hy => h y (by simp [hy])
    have hx : insertReserveIn db x e = .ok none := insertReserveIn_eq_none.mpr (h (x, r) (by simp))
    rw [updateLoop, List.map_cons]
    by_cases hd : (r.transactionDuplicate || r.ruuid.isSome) = true
    · rw [if_pos hd, if_pos hd, hl]
      rfl
    · rw [if_neg hd, if_neg hd, exchangeDoBatchReservesUpdate, hx]
      simp only [hl, bind, Except.bind, pure, Except.pure, if_true]

theorem arrayInsertLoop_path {db₀ db db' : Database} {gc e : Timestamp} {xs : List ReserveInInfo}
    {rs : List ArrayInsertResult} (h₀ : Imported db₀ db)
    (hw : ∀ s, ∀ x ∈ xs,
      C s (.wireTarget x.hFullPayto x.hNormalizedPayto x.senderAccountDetails))
    (hn : ∀ s, ∀ x ∈ xs, C s (.importNew x)) (hr : ∀ s, ∀ x ∈ xs, C s (.importReserve x))
    (hC : ∀ s, ∀ x ∈ xs, db₀.reserves.hasKey x.reservePub = true →
      db₀.reservesIn.hasKey x.reservePub = false → C s (.importRow x))
    (h : arrayInsertLoop db gc e xs = .ok (db', rs)) : Path Posts C db db' := by
  induction xs generalizing db rs with
  | nil =>
    cases h
    exact .refl _
  | cons x xs ih =>
    simp only [arrayInsertLoop, bind_eq_ok, Prod.exists] at h
    obtain ⟨db₁, r, h₁, db₂, rs', h₂, h⟩ := h
    cases pure_eq_ok.mp h
    have htail : Path Posts C db₁ db' := by
      refine ih (h₀.trans (imported_arrayInsertOne h₁)) ?_ ?_ ?_ ?_ h₂
      · exact fun s y hy => hw s y (by simp [hy])
      · exact fun s y hy => hn s y (by simp [hy])
      · exact fun s y hy => hr s y (by simp [hy])
      · exact fun s y hy => hC s y (by simp [hy])
    refine Transition.Path.trans ?_ htail
    obtain ⟨s, hs, -, hcases⟩ := arrayInsertOne_cases h₁
    have hx : x ∈ x :: xs := by simp
    have hwire : Path Posts C db s := hs ▸ Path.single (hw db x hx) (Posts.wireTarget ..)
    rcases hcases with ⟨hp, -⟩ | ⟨hp, -⟩ | ⟨hp, hk, hk', -⟩ | ⟨rfl, -⟩
    · exact hwire.tail (hn s x hx) hp
    · exact hwire.tail (hr s x hx) hp
    · have himp : Imported db₀ s := h₀.trans (hs ▸ imported_addWireTarget ..)
      refine hwire.tail (hC s x hx ?_ ?_) hp
      · exact (himp.reserve _ hk).resolve_right (by rw [hk']; decide)
      · by_contra hne
        rw [himp.row _ (by simpa using hne)] at hk'
        exact absurd hk' (by decide)
    · exact hwire

theorem reservesInInsert_path {db : Database} {gc e : Timestamp} {xs : List ReserveInInfo}
    (hw : ∀ s, ∀ x ∈ xs,
      C s (.wireTarget x.hFullPayto x.hNormalizedPayto x.senderAccountDetails))
    (hn : ∀ s, ∀ x ∈ xs, C s (.importNew x)) (hr : ∀ s, ∀ x ∈ xs, C s (.importReserve x))
    (hC : ∀ s, ∀ x ∈ xs, db.reserves.hasKey x.reservePub = true →
      db.reservesIn.hasKey x.reservePub = false → C s (.importRow x)) :
    Path Posts C db (reservesInInsert db gc e xs).1 := by
  unfold reservesInInsert exchangeDoArrayReservesInsert
  split
  · exact .refl _
  · next db₁ rs h =>
    split at h
    · cases h
    · have hpath := arrayInsertLoop_path (.refl db) hw hn hr hC h
      have hrows : ∀ x ∈ xs.zip rs, db₁.reservesIn.hasKey x.1.reservePub = true :=
        fun x hx => (arrayInsertLoop_imported h).2 x.1 (List.of_mem_zip hx).1
      split
      · rw [updateLoop_eq hrows]
        exact hpath
      · exact hpath

/-! ## Withdrawals -/

theorem withdrawAll_withdrawn {db s s' : Database} {r : Reserve} {now : Timestamp}
    {xs ys : List PlanchetArgs} {ro : Table ReserveOut} {rh : Table ReserveHistory}
    (h : withdrawAll s r.reserveUuid now ys = some s') (hw : Withdrawn db r now xs ro rh)
    (hden : s.denominations = db.denominations) (hro : s.reservesOut = ro)
    (hrh : s.reserveHistory = rh)
    (hr : ∀ y, s.reserves.lookupSerial r.reserveUuid = some y → y.reservePub = r.reservePub) :
    ∃ ro' rh', Withdrawn db r now (xs ++ ys) ro' rh' ∧
      s' = { s with reservesOut := ro', reserveHistory := rh' } := by
  induction ys generalizing s xs ro rh with
  | nil =>
    cases h
    subst hro hrh
    exact ⟨_, _, by simpa using hw, rfl⟩
  | cons y ys ih =>
    simp only [withdrawAll, Option.bind_eq_bind, Option.bind_eq_some_iff] at h
    obtain ⟨s₁, h₁, h⟩ := h
    obtain ⟨out, h₁, hout⟩ := commitIf_eq_some.mp h₁
    unfold exchangeDoBatchWithdrawInsert at h₁
    split at h₁
    · cases h₁
    · next d hd =>
      split at h₁
      · cases h₁
        cases hout
      · next t ht =>
        split at h₁
        · cases h₁
        · next q hq =>
          simp only [bind_eq_ok, Database.addReserveHistory_eq_ok] at h₁
          obtain ⟨_, ⟨h', hh', -, rfl⟩, h₁⟩ := h₁
          cases pure_eq_ok.mp h₁
          subst hro hrh
          rw [hden] at hd
          rw [hr q hq] at hh'
          obtain ⟨ro', rh', hw'', rfl⟩ := ih h (Withdrawn.snoc hw hd ht hh') hden rfl rfl hr
          exact ⟨ro', rh', by simpa using hw'', rfl⟩

theorem batchWithdraw_path {db db' : Database} {a : BatchWithdrawArgs} {xs : List PlanchetArgs}
    (hC : C db (.withdraw a xs)) (h : batchWithdraw db a xs = some db') : Path Posts C db db' := by
  unfold batchWithdraw exchangeDoBatchWithdraw at h
  split at h
  · cases h
  · next r hr =>
    split at h
    · rw [TalerAmount.leftMinusRight_eq] at h
      by_cases hc : r.currentBalance.covers a.amount = true
      · simp only [hc, if_true, Bool.and_self] at h
        have huuid : ∀ y, (db.setReserve a.reservePub fun x => { x with
            gcDate := max a.minReserveGc r.gcDate
            currentBalance := r.currentBalance.minus a.amount }).lookupSerial r.reserveUuid = some y →
            y.reservePub = r.reservePub := by
          intro y hy
          rw [Database.lookupSerial_setReserve] at hy
          obtain ⟨z, hz, rfl⟩ := Option.map_eq_some_iff.mp hy
          obtain ⟨hzm, hzs⟩ := Table.lookupSerial_eq_some.mp hz
          rw [Table.eq_of_serial hzm (Table.mem_of_lookup hr) hzs]
          split_ifs <;> rfl
        obtain ⟨ro, rh, hw, rfl⟩ := withdrawAll_withdrawn h (@Withdrawn.nil db _ _) rfl rfl rfl
          huuid
        exact Path.single hC (Posts.withdraw hr hc hw)
      · simp [hc] at h
    · simp at h

theorem ageWithdraw_path {db db' : Database} {a : AgeWithdrawArgs} (hC : C db (.ageWithdraw a))
    (hD : C db (.ageDebit a)) (h : ageWithdraw db a = some db') : Path Posts C db db' := by
  unfold ageWithdraw exchangeDoAgeWithdraw at h
  split at h
  · cases h
  · next r hr =>
    split at h
    · simp at h
    · rw [TalerAmount.leftMinusRight_eq] at h
      by_cases hc : r.currentBalance.covers a.amountWithFee = true
      · simp only [hc, if_true] at h
        split at h
        · next hn =>
          simp only [Bool.true_and, if_true, Bool.and_self] at h
          split at h
          · cases h
          · next hne =>
            cases h
            refine Path.single hD (Posts.ageDebit hr hc (Table.insert?_eq_none.mp hn) ?_)
            simpa using hne
        · next t ht =>
          cases h
          exact Path.single hC (Posts.ageWithdraw hr hc ht)
      · simp [hc] at h

/-! ## Recoups -/

theorem reserveOfOut_setReserve (db : Database) (r : ReservePub) (f : Reserve → Reserve)
    (hk : ∀ x, Record.key (f x) = Record.key x) (hs : ∀ x, Record.serial (f x) = Record.serial x)
    (n : ℕ) : { db.toReserveTables with reserves := db.setReserve r f hk hs }.reserveOfOut n =
      db.reserveOfOut n := by
  unfold ReserveTables.reserveOfOut
  cases db.reservesOut.lookupSerial n with
  | none => rfl
  | some o =>
    simp only [Option.bind_eq_bind, Option.bind_some]
    rw [Database.lookupSerial_setReserve]
    cases db.reserves.lookupSerial o.reserveUuid with
    | none => rfl
    | some y =>
      simp only [Option.map_some, Option.bind_some]
      split_ifs with e
      · exact congrArg some (hk y)
      · rfl

theorem exchangeDoRecoupToReserve_path {db db' : Database} {a : RecoupToReserveArgs}
    {out : RecoupOut} (hC : C db (.recoupToReserve a))
    (h : exchangeDoRecoupToReserve db a = .ok (db', out)) (ho : out.recoupOk = true)
    (hf : out.internalFailure = false) : Path Posts C db db' := by
  unfold exchangeDoRecoupToReserve at h
  split at h
  · cases h
    cases ho
  · next kc hkc =>
    simp only at h
    split at h
    · split at h
      · cases h
        exact .refl _
      · cases h
        cases ho
    · split at h
      · next hres =>
        simp only [insertRecoup, bind_eq_ok, orUnique_eq_ok, require_eq_ok, pure_eq_ok,
          Database.addCoinHistory_eq_ok] at h
        obtain ⟨_, ⟨t, ht, -, -, -, -, _, ⟨ch, hch, -, rfl⟩, hm⟩, hdb⟩ := h
        split at hm
        · next r hr =>
          obtain ⟨rh, hrh, -, rfl⟩ := Database.addReserveHistory_eq_ok.mp hm
          cases hdb
          have he : db.reserveEntry (db.reserveOfOut a.reserveOutSerialId) .recoup
              db.recoup.nextSerial = some rh := by
            rw [reserveOfOut_setReserve] at hr
            unfold Database.reserveEntry
            rw [hr]
            exact hrh
          exact Path.single hC (Posts.recoupToReserve hkc ht hch hres he)
        · next hr =>
          cases pure_eq_ok.mp hm
          cases hdb
          have he : db.reserveEntry (db.reserveOfOut a.reserveOutSerialId) .recoup
              db.recoup.nextSerial = some db.reserveHistory := by
            rw [reserveOfOut_setReserve] at hr
            unfold Database.reserveEntry
            rw [hr]
          exact Path.single hC (Posts.recoupToReserve hkc ht hch hres he)
      · cases h
        cases hf

/-! ## Opening and closing -/

theorem exchangeDoReserveOpen_path {db db' : Database} {a : ReserveOpenArgs} {out : ReserveOpenOut}
    (hC : C db (.reserveOpen a)) (h : exchangeDoReserveOpen db a = .ok (db', out)) :
    Path Posts C db db' := by
  unfold exchangeDoReserveOpen at h
  split at h
  · cases h
    exact .refl _
  · next r hr =>
    rw [bind_eq_ok] at h
    obtain ⟨t, ht, h⟩ := h
    simp only at h
    split at h
    · cases pure_eq_ok.mp h
      exact .refl _
    · split at h
      · cases pure_eq_ok.mp h
        exact .refl _
      · rw [TalerAmount.leftMinusRight_eq] at h
        by_cases hc : r.currentBalance.covers a.reservePayment = true
        · simp only [hc, if_true] at h
          cases pure_eq_ok.mp h
          exact Path.single hC (Posts.reserveOpen hr ht hc)
        · simp only [hc] at h
          cases pure_eq_ok.mp h
          exact .refl _

theorem insertReserveClosed_path {db db' : Database} {a : ReserveClosedArgs}
    (hC : C db (.reserveClosed a)) (h : insertReserveClosed db a = .ok db') :
    Path Posts C db db' := by
  simp only [insertReserveClosed, bind_eq_ok, orUnique_eq_ok, require_eq_ok,
    Database.addReserveHistory_eq_ok] at h
  obtain ⟨t, ht, -, -, _, ⟨rh, hrh, -, rfl⟩, h⟩ := h
  split at h
  · cases h
  · next r hr =>
    split at h
    · cases h
    · next b hb =>
      cases pure_eq_ok.mp h
      obtain ⟨x, hx, hs⟩ := Option.bind_eq_some_iff.mp hb
      refine Path.single hC (Posts.reserveClosed ht hrh hr ?_)
      rw [Amount.subtract?_eq_some.mp hs, Amount.units_ofTaler? hx]

theorem insertCloseRequest_path {db db' : Database} {a : CloseRequestArgs}
    (hC : C db (.closeRequest a)) (h : insertCloseRequest db a = .ok db') : Path Posts C db db' := by
  unfold insertCloseRequest at h
  split at h
  · cases h
    exact .refl _
  · next t ht =>
    simp only [bind_eq_ok, require_eq_ok, Database.addReserveHistory_eq_ok] at h
    obtain ⟨-, hr, rh, hrh, -, rfl⟩ := h
    exact Path.single hC (Posts.closeRequest hr ht hrh)

end TalerExchange
