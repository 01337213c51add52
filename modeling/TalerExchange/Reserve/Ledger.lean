import TalerExchange.Reserve.Figures

/-!
# The reserve ledger

Every balance in `reserves` is what the records say.

* `ReserveGrows`, `ReserveRows`: what the tables say about withdrawals, merges and purses stays
  said, and the references between the rows resolve;
* `ReserveOpOk`: the operations that record what they do to a balance;
* **`run_reserves_conserved`**: in a run of such operations every reserve is conserved;
* `lostTransfer`, `unrecordedPayment`: runs outside the condition that break it.
-/

namespace TalerExchange

open Sql Transition

/-! ## What is known stays known -/

/-- The lookups that the figures go through only gain results. -/
structure ReserveGrows (db db' : Database) : Prop extends PurseGrows db db' where
  known : ∀ r, db.reserves.hasKey r = true → db'.reserves.hasKey r = true
  uuidOwner : ∀ {n r}, db.uuidOwner n = some r → db'.uuidOwner n = some r
  reserveOfOut : ∀ {n r}, db.reserveOfOut n = some r → db'.reserveOfOut n = some r

section Grows

variable {db db' : Database}

theorem reserveOfOut_eq (db : Database) (n : ℕ) : db.reserveOfOut n =
    (db.reservesOut.lookupSerial n).bind fun o => db.uuidOwner o.reserveUuid := by
  unfold ReserveTables.reserveOfOut Database.uuidOwner
  cases db.reservesOut.lookupSerial n with
  | none => rfl
  | some o => cases h : db.reserves.lookupSerial o.reserveUuid <;> simp [h]

theorem reserveOfOut_of_grows (ho : ∀ {n r}, db.uuidOwner n = some r → db'.uuidOwner n = some r)
    (hl : ∀ {n o}, db.reservesOut.lookupSerial n = some o → db'.reservesOut.lookupSerial n = some o)
    {n : ℕ} {r : ReservePub} (h : db.reserveOfOut n = some r) : db'.reserveOfOut n = some r := by
  rw [reserveOfOut_eq] at h ⊢
  obtain ⟨o, hn, hr⟩ := Option.bind_eq_some_iff.mp h
  exact Option.bind_eq_some_iff.mpr ⟨o, hl hn, ho hr⟩

theorem Withdrawn.lookupSerial {r : Reserve} {now : Timestamp} {xs : List PlanchetArgs}
    {ro : Table ReserveOut} {rh : Table ReserveHistory} (h : Withdrawn db r now xs ro rh) {n : ℕ}
    {o : ReserveOut} (ho : db.reservesOut.lookupSerial n = some o) : ro.lookupSerial n = some o := by
  induction h with
  | nil => exact ho
  | snoc _ _ ht _ ih => exact Table.lookupSerial_insert?_of_some ht ih

/-- **Nothing known is forgotten.** -/
theorem Posts.reserveGrows {p : Posting} (h : Posts db p db') (hs : CoinsSound db.toCoinTables) :
    ReserveGrows db db' := by
  have hm := h.moves hs
  have hp := h.purseGrows
  have howner : ∀ {n r}, db.uuidOwner n = some r → db'.uuidOwner n = some r := fun h => hm.owner h
  cases h with
  | wireTarget =>
    rw [addWireTarget_frame] at hm howner hp ⊢
    exact ⟨hp, hm.known, howner, fun h => h⟩
  | initReserve =>
    rw [initReserve_frame] at hm howner hp ⊢
    exact ⟨hp, hm.known, howner, reserveOfOut_of_grows howner fun h => h⟩
  | reservePurse _ _ _ _ _ _ _ hpay =>
    rw [payForPurse_frame hpay] at hm howner hp ⊢
    exact ⟨hp, hm.known, howner, reserveOfOut_of_grows howner fun h => h⟩
  | withdraw _ _ hw =>
    exact ⟨hp, hm.known, howner, reserveOfOut_of_grows howner hw.lookupSerial⟩
  | _ => exact ⟨hp, hm.known, howner, reserveOfOut_of_grows howner fun h => h⟩

end Grows

/-! ## References -/

/-- The references between the rows resolve. -/
structure ReserveRows (db : Database) : Prop where
  wired : ∀ x ∈ db.reservesIn.rows, db.reserves.hasKey x.reservePub = true
  out : ∀ o ∈ db.reservesOut.rows, ∃ r, db.uuidOwner o.reserveUuid = some r
  recoup : ∀ x ∈ db.recoup.rows, ∃ r, db.reserveOfOut x.reserveOutSerialId = some r
  merged : ∀ d ∈ db.purseDecision.rows, d.refunded = false →
    ∃ m, db.purseMerges.lookup d.pursePub = some m
  purse : ∀ p, db.purseMerges.hasKey p = true → ∃ t, db.purseTerms p = some t

section Rows

variable {db db' : Database} (hr : ReserveRows db) (hg : ReserveGrows db db')
include hr hg

theorem recoupedRow_of_grows (r : ReservePub) : ∀ x ∈ db.recoup.rows,
    onlyIf (fun x => db'.reserveOfOut x.reserveOutSerialId = some r) (fun x => x.amount.units) x =
      onlyIf (fun x => db.reserveOfOut x.reserveOutSerialId = some r) (fun x => x.amount.units) x := by
  intro x hrow
  obtain ⟨y, hy⟩ := hr.recoup x hrow
  simp only [onlyIf, hy, hg.reserveOfOut hy]

theorem recoupedInto_of_grows (h : db'.recoup = db.recoup) (r : ReservePub) :
    db'.recoupedInto r = db.recoupedInto r := by
  unfold Database.recoupedInto
  rw [h]
  exact Table.total_congr (recoupedRow_of_grows hr hg r)

theorem withdrawnRow_of_grows (r : ReservePub) : ∀ o ∈ db.reservesOut.rows,
    onlyIf (fun x => db'.uuidOwner x.reserveUuid = some r) (fun x => x.amountWithFee.units) o =
      onlyIf (fun x => db.uuidOwner x.reserveUuid = some r) (fun x => x.amountWithFee.units) o := by
  intro o hrow
  obtain ⟨y, hy⟩ := hr.out o hrow
  simp only [onlyIf, hy, hg.uuidOwner hy]

theorem withdrawn_of_grows (h : db'.reservesOut = db.reservesOut) (r : ReservePub) :
    db'.withdrawn r = db.withdrawn r := by
  unfold Database.withdrawn
  rw [h]
  exact Table.total_congr (withdrawnRow_of_grows hr hg r)

theorem mergedRow_of_grows (r : ReservePub) : ∀ d ∈ db.purseDecision.rows,
    onlyIf (fun d => d.refunded = false ∧ db'.mergeTarget d.pursePub = some r)
        (fun d => (db'.purseTerms d.pursePub).elim 0 fun t => t.1.units) d =
      onlyIf (fun d => d.refunded = false ∧ db.mergeTarget d.pursePub = some r)
        (fun d => (db.purseTerms d.pursePub).elim 0 fun t => t.1.units) d := by
  intro d hrow
  cases hd : d.refunded with
  | true => simp [onlyIf, hd]
  | false =>
    obtain ⟨m, hm⟩ := hr.merged d hrow hd
    obtain ⟨t, ht⟩ := hr.purse d.pursePub (Table.hasKey_of_lookup hm)
    simp only [onlyIf, mergeTarget_of_lookup hm, mergeTarget_of_lookup (hg.merge hm), ht, hg.terms ht]

theorem mergedInto_of_grows (h : db'.purseDecision = db.purseDecision) (r : ReservePub) :
    db'.mergedInto r = db.mergedInto r := by
  unfold Database.mergedInto
  rw [h]
  exact Table.total_congr (mergedRow_of_grows hr hg r)

theorem feeRow_of_grows (r : ReservePub) : ∀ m ∈ db.purseMerges.rows,
    onlyIf (fun m => m.reservePub = r)
        (fun m => (db'.purseTerms m.pursePub).elim 0 fun t => t.2.units) m =
      onlyIf (fun m => m.reservePub = r)
        (fun m => (db.purseTerms m.pursePub).elim 0 fun t => t.2.units) m := by
  intro m hrow
  obtain ⟨t, ht⟩ := hr.purse m.pursePub (Table.hasKey_iff.mpr ⟨m, hrow, rfl⟩)
  simp only [onlyIf, ht, hg.terms ht]

theorem feesTaken_of_grows (h : db'.purseMerges = db.purseMerges) (r : ReservePub) :
    db'.feesTaken r = db.feesTaken r := by
  unfold Database.feesTaken
  rw [h]
  exact Table.total_congr (feeRow_of_grows hr hg r)

theorem recoupedInto_insert? {mk : ℕ → Recoup} {hs : ∀ n, Record.serial (mk n) = n}
    (h : db.recoup.insert? mk hs = some db'.recoup) {r : ReservePub}
    (ho : db'.reserveOfOut (mk db.recoup.nextSerial).reserveOutSerialId = some r) (y : ReservePub) :
    db'.recoupedInto y =
      db.recoupedInto y + if r = y then (mk db.recoup.nextSerial).amount.units else 0 := by
  refine (Table.total_insert?_congr h (recoupedRow_of_grows hr hg y)).trans ?_
  simp only [onlyIf, ho, Option.some.injEq]
  rfl

theorem mergedInto_insert? {mk : ℕ → PurseDecision} {hs : ∀ n, Record.serial (mk n) = n}
    (h : db.purseDecision.insert? mk hs = some db'.purseDecision)
    (hm : (mk db.purseDecision.nextSerial).refunded = false) (y : ReservePub) :
    db'.mergedInto y = db.mergedInto y +
      if db'.mergeTarget (mk db.purseDecision.nextSerial).pursePub = some y then
        (db'.purseTerms (mk db.purseDecision.nextSerial).pursePub).elim 0 fun t => t.1.units else 0 := by
  refine (Table.total_insert?_congr h (mergedRow_of_grows hr hg y)).trans ?_
  simp only [onlyIf, hm, true_and]
  rfl

theorem mergedInto_insert?_refunded {mk : ℕ → PurseDecision} {hs : ∀ n, Record.serial (mk n) = n}
    (h : db.purseDecision.insert? mk hs = some db'.purseDecision)
    (hm : (mk db.purseDecision.nextSerial).refunded = true) (y : ReservePub) :
    db'.mergedInto y = db.mergedInto y := by
  refine (Table.total_insert?_congr h (mergedRow_of_grows hr hg y)).trans ?_
  simp only [onlyIf, hm, Bool.true_eq_false, false_and, if_false, add_zero]
  rfl

theorem feesTaken_insert? {mk : ℕ → PurseMerge} {hs : ∀ n, Record.serial (mk n) = n}
    (h : db.purseMerges.insert? mk hs = some db'.purseMerges) {t : Amount × Amount}
    (ht : db'.purseTerms (mk db.purseMerges.nextSerial).pursePub = some t) (y : ReservePub) :
    db'.feesTaken y = db.feesTaken y +
      if (mk db.purseMerges.nextSerial).reservePub = y then t.2.units else 0 := by
  refine (Table.total_insert?_congr h (feeRow_of_grows hr hg y)).trans ?_
  simp only [onlyIf, ht, Option.elim_some]
  rfl

/-- Old rows keep their references; only the new ones are to be checked. -/
theorem ReserveRows.step
    (hw : ∀ x ∈ db'.reservesIn.rows, x ∈ db.reservesIn.rows ∨ db'.reserves.hasKey x.reservePub = true)
    (ho : ∀ o ∈ db'.reservesOut.rows, o ∈ db.reservesOut.rows ∨
      ∃ r, db'.uuidOwner o.reserveUuid = some r)
    (hc : ∀ x ∈ db'.recoup.rows, x ∈ db.recoup.rows ∨
      ∃ r, db'.reserveOfOut x.reserveOutSerialId = some r)
    (hd : ∀ d ∈ db'.purseDecision.rows, d.refunded = false → d ∈ db.purseDecision.rows ∨
      ∃ m, db'.purseMerges.lookup d.pursePub = some m)
    (hp : ∀ p, db'.purseMerges.hasKey p = true → db.purseMerges.hasKey p = true ∨
      ∃ t, db'.purseTerms p = some t) :
    ReserveRows db' where
  wired x hrow := (hw x hrow).elim (fun h => hg.known _ (hr.wired x h)) id
  out o hrow := (ho o hrow).elim (fun h => (hr.out o h).imp fun _ hy => hg.uuidOwner hy) id
  recoup x hrow := (hc x hrow).elim (fun h => (hr.recoup x h).imp fun _ hy => hg.reserveOfOut hy) id
  merged d hrow hnr := (hd d hrow hnr).elim
    (fun h => (hr.merged d h hnr).imp fun _ hm => hg.merge hm) id
  purse p hk := (hp p hk).elim (fun h => (hr.purse p h).imp fun _ ht => hg.terms ht) id

end Rows

/-! ## Conditions -/

/-- The condition on postings: arguments as the request handlers compute them, and no posting that
changes a balance without recording it, or the other way round. -/
def ReservePostingOk (db : Database) : Posting → Prop
  | .recoupToReserve a => db.reserveOfOut a.reserveOutSerialId = some a.reservePub
  | .withdraw a xs => a.amount.units = (xs.map fun x => x.amount.units).sum
  | .importRow _ => False
  | .ageDebit a => (db.ageWithdraw.lookup a.hCommitment).all (·.reservePub = a.reservePub) = true
  | .reserveOpen a => a.reservePayment = Amount.zero
  | _ => True

/-- The condition on operations. -/
def ReserveOpOk (db : Database) : Op → Prop
  | .recoupToReserve a => ReservePostingOk db (.recoupToReserve a)
  | .batchWithdraw a xs => ReservePostingOk db (.withdraw a xs)
  | .reservesIn _ _ xs => ∀ x ∈ xs, db.reserves.hasKey x.reservePub = true →
      db.reservesIn.hasKey x.reservePub = true
  | .ageWithdraw a => ReservePostingOk db (.ageDebit a)
  | .reserveOpen a => ReservePostingOk db (.reserveOpen a)
  | _ => True

instance (db : Database) : (o : Op) → Decidable (ReserveOpOk db o)
  | .recoupToReserve _ => inferInstanceAs (Decidable (_ = _))
  | .batchWithdraw .. => inferInstanceAs (Decidable (_ = _))
  | .reservesIn .. => inferInstanceAs (Decidable (∀ x ∈ _, _ → _))
  | .ageWithdraw _ => inferInstanceAs (Decidable (_ = _))
  | .reserveOpen _ => inferInstanceAs (Decidable (_ = _))
  | .denomination _ | .partner _ | .coin .. | .deposit _ | .refund _ | .melt _ | .reveal _
  | .reserveOpenDeposit _ | .recoupToCoin _ | .createPurse .. | .purseDeposit _ | .purseMerge _
  | .reservePurse .. | .purseDelete _ | .expirePurse _ | .reserveClosed _ | .closeRequest _
  | .aggregate _ => .isTrue trivial

theorem reservePostingOk_of_emits {db s : Database} {o : Op} {p : Posting} (ho : ReserveOpOk db o)
    (he : Emits db o s p) : ReservePostingOk s p := by
  cases p with
  | recoupToReserve a =>
    obtain ⟨rfl, rfl⟩ := emits_recoupToReserve he
    exact ho
  | withdraw a xs =>
    obtain ⟨rfl, rfl⟩ := emits_withdraw he
    exact ho
  | importRow x =>
    obtain ⟨_, _, xs, rfl, hx, hk, hn⟩ := emits_importRow he
    exact absurd ((ho x hx hk).symm.trans hn) (by decide)
  | ageDebit a =>
    obtain ⟨rfl, rfl⟩ := emits_ageDebit he
    exact ho
  | reserveOpen a =>
    obtain ⟨rfl, rfl⟩ := emits_reserveOpen he
    exact ho
  | _ => trivial

section Postings

variable {db db' : Database} {p : Posting}

theorem Withdrawn.mem {r : Reserve} {now : Timestamp} {xs : List PlanchetArgs}
    {ro : Table ReserveOut} {rh : Table ReserveHistory} (h : Withdrawn db r now xs ro rh)
    {o : ReserveOut} (ho : o ∈ ro.rows) : o ∈ db.reservesOut.rows ∨ o.reserveUuid = r.reserveUuid := by
  induction h with
  | nil => exact Or.inl ho
  | snoc _ _ ht _ ih =>
    rcases (Table.mem_insert? ht).mp ho with ho | rfl
    · exact ih ho
    · exact Or.inr rfl

theorem uuidOwner_of_lookup {r : ReservePub} {x : Reserve} (h : db.reserves.lookup r = some x) :
    db.uuidOwner x.reserveUuid = some r :=
  Option.map_eq_some_iff.mpr ⟨x, Table.lookupSerial_eq_some.mpr ⟨Table.mem_of_lookup h, rfl⟩,
    Table.key_of_lookup h⟩

theorem Posts.reserveRows (h : Posts db p db') (hC : ReservePostingOk db p)
    (hs : CoinsSound db.toCoinTables) (hr : ReserveRows db) : ReserveRows db' := by
  have hg := h.reserveGrows hs
  cases h with
  | wireTarget =>
    rw [addWireTarget_frame] at hg ⊢
    exact hr.step hg (fun _ => .inl) (fun _ => .inl) (fun _ => .inl) (fun _ h _ => .inl h)
      (fun _ => .inl)
  | initReserve =>
    rw [initReserve_frame] at hg ⊢
    exact hr.step hg (fun _ => .inl) (fun _ => .inl) (fun _ => .inl) (fun _ h _ => .inl h)
      (fun _ => .inl)
  | recoupToReserve _ ht =>
    refine hr.step hg (fun _ => .inl) (fun _ => .inl) (fun x hrow => ?_) (fun _ h _ => .inl h)
      (fun _ => .inl)
    rcases (Table.mem_insert? ht).mp hrow with h | rfl
    · exact Or.inl h
    · exact Or.inr ⟨_, hg.reserveOfOut hC⟩
  | reservePurse hp _ _ _ ht _ hmi hpay =>
    rw [payForPurse_frame hpay] at hg ⊢
    refine hr.step hg (fun _ => .inl) (fun _ => .inl) (fun _ => .inl) (fun _ h _ => .inl h)
      (fun q hk => ?_)
    rw [Table.hasKey_insert? hmi, Bool.or_eq_true, decide_eq_true_eq] at hk
    refine hk.imp id fun hk => ?_
    rw [← hk]
    exact ⟨_, purseTerms_of_lookup ((congrArg _ hp.symm).trans (Table.lookup_insert?_self ht))⟩
  | finishMerge hm _ _ _ ht =>
    refine hr.step hg (fun _ => .inl) (fun _ => .inl) (fun _ => .inl) (fun d hrow _ => ?_)
      (fun _ => .inl)
    rcases (Table.mem_insert? ht).mp hrow with h | rfl
    · exact Or.inl h
    · exact Or.inr ⟨_, hm⟩
  | purseMerge _ hq _ _ hmi ht =>
    refine hr.step hg (fun _ => .inl) (fun _ => .inl) (fun _ => .inl) (fun d hrow _ => ?_)
      (fun q hk => ?_)
    · rcases (Table.mem_insert? ht).mp hrow with h | rfl
      · exact Or.inl h
      · exact Or.inr ⟨_, Table.lookup_insert?_self hmi⟩
    · rw [Table.hasKey_insert? hmi, Bool.or_eq_true, decide_eq_true_eq] at hk
      refine hk.imp id fun hk => ?_
      rw [← hk]
      exact ⟨_, hg.terms (purseTerms_of_lookup hq)⟩
  | purseRefund _ ht =>
    refine hr.step hg (fun _ => .inl) (fun _ => .inl) (fun _ => .inl) (fun d hrow hnr => ?_)
      (fun _ => .inl)
    rcases (Table.mem_insert? ht).mp hrow with h | rfl
    · exact Or.inl h
    · cases hnr
  | importNew hn ht =>
    refine hr.step hg (fun x hrow => ?_) (fun _ => .inl) (fun _ => .inl) (fun _ h _ => .inl h)
      (fun _ => .inl)
    rcases (Table.mem_insert? ht).mp hrow with h | rfl
    · exact Or.inl h
    · exact Or.inr (Table.hasKey_insert?_self hn)
  | importRow => cases hC
  | withdraw hl _ hw =>
    refine hr.step hg (fun _ => .inl) (fun o hrow => ?_) (fun _ => .inl) (fun _ h _ => .inl h)
      (fun _ => .inl)
    refine (hw.mem hrow).imp id fun ho => ?_
    rw [ho]
    exact ⟨_, hg.uuidOwner (uuidOwner_of_lookup hl)⟩
  | _ =>
    exact hr.step hg (fun _ => .inl) (fun _ => .inl) (fun _ => .inl) (fun _ h _ => .inl h)
      (fun _ => .inl)

theorem Withdrawn.total {r : Reserve} {now : Timestamp} {xs : List PlanchetArgs}
    {ro : Table ReserveOut} {rh : Table ReserveHistory} (h : Withdrawn db r now xs ro rh)
    {y : ReservePub} {f : ℕ → Option ReservePub} (hf : f r.reserveUuid = some y) (z : ReservePub) :
    ro.total (onlyIf (fun o => f o.reserveUuid = some z) fun o => o.amountWithFee.units) =
      db.reservesOut.total (onlyIf (fun o => f o.reserveUuid = some z) fun o => o.amountWithFee.units) +
        if y = z then (xs.map fun x => x.amount.units).sum else 0 := by
  induction h with
  | nil => simp
  | @snoc xs x _ _ _ _ _ _ _ ht _ ih =>
    have hi := Table.total_insert? ht (onlyIf (fun o => f o.reserveUuid = some z)
      fun o => o.amountWithFee.units)
    rw [hi, ih, List.map_append, List.sum_append]
    by_cases hy : y = z
    · simp only [onlyIf, hf, hy, if_true, List.map_cons, List.map_nil, List.sum_cons, List.sum_nil]
      omega
    · simp [onlyIf, hf, hy]

theorem Withdrawn.withdrawn {r : Reserve} {now : Timestamp} {xs : List PlanchetArgs}
    {rh : Table ReserveHistory} (h : Withdrawn db r now xs db'.reservesOut rh)
    (hr : ReserveRows db) (hg : ReserveGrows db db') {y : ReservePub}
    (ho : db.uuidOwner r.reserveUuid = some y) (z : ReservePub) :
    db'.withdrawn z = db.withdrawn z +
      if y = z then (xs.map fun x => x.amount.units).sum else 0 := by
  refine (h.total (hg.uuidOwner ho) z).trans ?_
  rw [Table.total_congr (withdrawnRow_of_grows hr hg z)]
  rfl

/-- **Every posting that meets the condition records what it does to the balances.** -/
theorem Posts.bookBalance (h : Posts db p db') (hC : ReservePostingOk db p)
    (hs : CoinsSound db.toCoinTables) (hr : ReserveRows db) (hf : FeesPaid db) (y : ReservePub) :
    db'.bookBalance y = db.bookBalance y + balanceChange db db' p y := by
  have hg := h.reserveGrows hs
  have hwir : db'.reservesIn = db.reservesIn → db'.wired y = db.wired y := fun h => by
    unfold Database.wired; rw [h]
  have hage : db'.ageWithdraw = db.ageWithdraw → db'.ageWithdrawn y = db.ageWithdrawn y := fun h => by
    unfold Database.ageWithdrawn; rw [h]
  have hope : db'.reservesOpenRequests = db.reservesOpenRequests → db'.openPaid y = db.openPaid y :=
    fun h => by unfold Database.openPaid; rw [h]
  have hclo : db'.reservesClose = db.reservesClose → db'.closed y = db.closed y := fun h => by
    unfold Database.closed; rw [h]
  have hrec : db'.recoup = db.recoup → _ := fun h => recoupedInto_of_grows hr hg h y
  have hmer : db'.purseDecision = db.purseDecision → _ := fun h => mergedInto_of_grows hr hg h y
  have hwit : db'.reservesOut = db.reservesOut → _ := fun h => withdrawn_of_grows hr hg h y
  have hfee : db'.purseMerges = db.purseMerges → _ := fun h => feesTaken_of_grows hr hg h y
  unfold Database.bookBalance
  cases h with
  | wireTarget =>
    rw [addWireTarget_frame] at hwir hage hope hclo hrec hmer hwit hfee ⊢
    rw [hwir rfl, hrec rfl, hmer rfl, hwit rfl, hage rfl, hope rfl, hclo rfl, hfee rfl]
    exact (add_zero _).symm
  | initReserve =>
    rw [initReserve_frame] at hwir hage hope hclo hrec hmer hwit hfee ⊢
    rw [hwir rfl, hrec rfl, hmer rfl, hwit rfl, hage rfl, hope rfl, hclo rfl, hfee rfl]
    exact (add_zero _).symm
  | @recoupToReserve a kc _ _ _ hc ht =>
    have hrem : db.remainingOf a.coinPub = kc.remaining.units := Table.valueAt_of_lookup hc
    rw [recoupedInto_insert? hr hg (by exact ht) (by exact hg.reserveOfOut hC), hwir rfl, hmer rfl,
      hwit rfl, hage rfl, hope rfl, hclo rfl, hfee rfl, balanceChange, hrem, RecoupToReserveArgs.row]
    ring
  | @reservePurse _ a b _ _ _ _ hp hfee' _ _ ht _ hmi hpay =>
    rw [payForPurse_frame hpay] at hg hwir hage hope hclo hrec hmer hwit hfee ⊢
    rw [feesTaken_insert? hr hg (by exact hmi) (by
        exact purseTerms_of_lookup ((congrArg _ hp.symm).trans (Table.lookup_insert?_self ht))),
      hwir rfl, hrec rfl, hmer rfl, hwit rfl, hage rfl, hope rfl, hclo rfl, balanceChange]
    simp only [PurseRequestArgs.row, hfee']
    split_ifs <;> omega
  | finishMerge hm hq _ _ ht =>
    rw [mergedInto_insert? hr hg (by exact ht) (by rfl), hwir rfl, hrec rfl, hwit rfl,
      hage rfl, hope rfl, hclo rfl, hfee rfl, balanceChange]
    have h₁ := hg.terms (purseTerms_of_lookup hq)
    rw [h₁, purseTerms_of_lookup hq, mergeTarget_of_lookup hm, mergeTarget_of_lookup (hg.merge hm)]
    ring
  | purseMerge _ hq _ _ hmi ht =>
    have h₁ := hg.terms (purseTerms_of_lookup hq)
    have h₂ := congrArg Amount.units (hf (Table.insert?_eq_some.mp hmi).1 (purseTerms_of_lookup hq))
    rw [mergedInto_insert? hr hg (by exact ht) (by rfl), hwir rfl, hrec rfl, hwit rfl,
      hage rfl, hope rfl, hclo rfl, feesTaken_insert? hr hg (by exact hmi) (by exact h₁), balanceChange]
    rw [h₁, purseTerms_of_lookup hq]
    simp only [Option.elim_some, Amount.units_zero] at h₂ ⊢
    rw [h₂]
    simp only [ite_self, add_zero]
    ring
  | purseRefund _ ht =>
    rw [mergedInto_insert?_refunded hr hg (by exact ht) (by rfl), hwir rfl, hrec rfl, hwit rfl,
      hage rfl, hope rfl, hclo rfl, hfee rfl]
    exact (add_zero _).symm
  | @importNew x _ _ _ ri _ _ ht =>
    have hi : ri.total (onlyIf (fun x => x.reservePub = y) fun x => x.credit.units) =
        db.wired y + if x.reservePub = y then x.balance.units else 0 := Table.total_insert? ht _
    rw [hrec rfl, hmer rfl, hwit rfl, hage rfl, hope rfl, hclo rfl, hfee rfl, Database.wired, hi]
    rw [balanceChange]
    split_ifs <;> omega
  | importRow => cases hC
  | importReserve hn hk =>
    obtain ⟨x, hrow, hx⟩ := Table.hasKey_iff.mp hk
    have hk := hr.wired x hrow
    exact absurd ((congrArg _ hx).symm.trans hk) (ne_true_of_eq_false (Table.insert?_eq_some.mp hn).1)
  | withdraw hl _ hw =>
    rw [hw.withdrawn (by exact hr) (by exact hg) (uuidOwner_of_lookup hl), hwir rfl, hrec rfl, hmer rfl,
      hage rfl, hope rfl, hclo rfl, hfee rfl, balanceChange, hC]
    split_ifs <;> omega
  | @ageWithdraw a _ t _ _ ht =>
    have hi : t.total (onlyIf (fun x => x.reservePub = y) fun x => x.amountWithFee.units) =
        db.ageWithdrawn y + if a.reservePub = y then a.amountWithFee.units else 0 :=
      Table.total_insert? ht _
    rw [hwir rfl, hrec rfl, hmer rfl, hwit rfl, hope rfl, hclo rfl, hfee rfl, balanceChange,
      Database.ageWithdrawn, hi]
    split_ifs <;> omega
  | ageDebit _ _ hk hn =>
    obtain ⟨w, hw⟩ := Table.exists_lookup hk
    have hC : (db.ageWithdraw.lookup _).all _ = true := hC
    rw [hw] at hC hn
    exact absurd (hn.symm.trans hC) (by decide)
  | reserveOpen =>
    rw [hwir rfl, hrec rfl, hmer rfl, hwit rfl, hage rfl, hope rfl, hclo rfl, hfee rfl, balanceChange, hC]
    simp
  | @reserveClosed a _ _ t _ ht =>
    have hi : t.total (onlyIf (fun x => x.reservePub = y) fun x => x.amount.units) =
        db.closed y + if a.reservePub = y then a.amountWithFee.units else 0 := Table.total_insert? ht _
    rw [hwir rfl, hrec rfl, hmer rfl, hwit rfl, hage rfl, hope rfl, hfee rfl, balanceChange,
      Database.closed, hi]
    split_ifs <;> omega
  | _ =>
    rw [hwir rfl, hrec rfl, hmer rfl, hwit rfl, hage rfl, hope rfl, hclo rfl, hfee rfl]
    exact (add_zero _).symm

end Postings

/-! ## Runs -/

/-- All balances are what the records say, and in range. The purse fee that
`exchange_do_purse_merge` adds to what it credits is zero: only a purse that was created by a
reserve has a fee, and such a purse has a row in `purse_merges`. -/
structure Database.ReservesConserved (db : Database) : Prop where
  balance : ∀ r ∈ db.reserves.rows, r.currentBalance.units = db.bookBalance r.reservePub
  nonneg : ∀ r ∈ db.reserves.rows, 0 ≤ r.currentBalance.units
  normal : ∀ r ∈ db.reserves.rows, r.currentBalance.Normal
  noFeeToAdd : ∀ q ∈ db.purseRequests.rows, db.purseMerges.hasKey q.pursePub = false →
    q.purseFee = Amount.zero

/-- What every posting that meets the condition keeps. -/
structure ReserveLedger (db : Database) : Prop where
  coins : CoinsSound db.toCoinTables
  rows : ReserveRows db
  fees : FeesPaid db
  sound : ∀ r ∈ db.reserves.rows, r.currentBalance.Sound
  balance : ∀ r, db.balanceOf r = db.bookBalance r

theorem reserveLedger_empty : ReserveLedger Database.empty :=
  ⟨fun _ h => (nomatch h), ⟨fun _ h => (nomatch h), fun _ h => (nomatch h), fun _ h => (nomatch h),
    fun _ h => (nomatch h), fun _ h => (nomatch h)⟩, fun _ h => (nomatch h),
    fun _ h => (nomatch h), fun _ => rfl⟩

theorem Posts.reserveLedger {db db' : Database} {p : Posting} (h : Posts db p db')
    (hC : ReservePostingOk db p) (hl : ReserveLedger db) : ReserveLedger db' := by
  have hm := h.moves hl.coins
  refine ⟨h.coinsSound hl.coins, h.reserveRows hC hl.coins hl.rows, h.feesPaid hl.fees,
    hm.sound hl.sound, fun r => ?_⟩
  rw [h.bookBalance hC hl.coins hl.rows hl.fees, ← hl.balance]
  exact hm.value r

theorem ReserveLedger.conserved {db : Database} (hl : ReserveLedger db) : db.ReservesConserved where
  balance r hrow := (Table.valueAt_of_mem hrow).symm.trans (hl.balance r.reservePub)
  nonneg r hrow := (hl.sound r hrow).2
  normal r hrow := (hl.sound r hrow).1
  noFeeToAdd _ hrow hk := hl.fees hk (purseTerms_of_lookup (Table.lookup_eq_some.mpr ⟨hrow, rfl⟩))

/-- **Reserves are conserved** in every state that a run of admitted operations reaches. -/
theorem run_reserves_conserved {ops : List Op} (h : Admits step ReserveOpOk Database.empty ops) :
    (run step Database.empty ops).ReservesConserved :=
  ReserveLedger.conserved (run_posting_invariant (C := ReservePostingOk) (I := ReserveLedger)
    (fun _ _ ho _ _ he => reservePostingOk_of_emits ho he) reserveLedger_empty
    (fun _ _ _ hC hp hl => hp.reserveLedger hC hl) h)

/-! ## Sample runs -/

/-- A transfer of ten to a reserve. -/
def transferOfTen (r : ReservePub) (wireReference : ℤ) : ReserveInInfo where
  reservePub := r
  balance := .whole 10
  executionTime := 0
  hFullPayto := 1
  hNormalizedPayto := 1
  senderAccountDetails := ""
  exchangeAccountName := ""
  wireReference := wireReference

/-- Money comes in, two withdrawals take seven and one. -/
def properWithdrawal : List Op :=
  [.denomination ⟨1, .whole 3, .zero, .zero, .zero, .zero⟩, .reservesIn 9 9 [transferOfTen 4 1],
   .batchWithdraw ⟨.whole 7, 4, 0, 0, false⟩ [⟨.whole 3, 1, 1, 1, 1⟩, ⟨.whole 4, 1, 2, 2, 2⟩],
   .batchWithdraw ⟨.whole 1, 4, 0, 0, false⟩ [⟨.whole 1, 1, 3, 3, 3⟩]]

theorem properWithdrawal_conserved :
    (run step Database.empty properWithdrawal).balanceOf 4 = (Amount.whole 2).units ∧
      (run step Database.empty properWithdrawal).ReservesConserved :=
  ⟨by decide +kernel, run_reserves_conserved (by decide +kernel)⟩

/-- A purse without fee creates its reserve; the transfer that arrives later is recorded and not
credited. -/
def lostTransfer : List Op :=
  [.reservePurse { pursePub := 8, mergePub := 9, now := 0, purseExpiration := 5, hContractTerms := 3,
                   ageLimit := 0, flags := 0, inReserveQuota := false, purseFee := .zero,
                   amount := .whole 5, purseSig := 1 } (some .zero)
     { pursePub := 8, mergeSig := 1, mergeTimestamp := 0, reserveExpiration := 9, reserveGc := 9,
       reserveSig := 1, reserveQuota := false, purseFee := .zero, reservePub := 4,
       walletHPayto := 1 },
   .reservesIn 9 9 [transferOfTen 4 1]]

/-- The reserve pays for staying open; the payment is not recorded. -/
def unrecordedPayment : List Op :=
  [.reservesIn 9 9 [transferOfTen 4 1],
   .reserveOpen { reservePub := 4, totalPaid := .whole 1, reservePayment := .whole 1,
                  minPurseLimit := 0, defaultPurseLimit := 0, reserveSig := 1,
                  desiredExpiration := 10, reserveGcDelay := 0, now := 0, openFee := .whole 1 }]

/-- Two reserves withdraw with the same commitment: the second one is debited, and the withdrawal
is recorded for the first only. -/
def sharedCommitment : List Op :=
  [.reservesIn 9 9 [transferOfTen 4 1, transferOfTen 5 2],
   .ageWithdraw ⟨.whole 3, 4, 1, 0, 6, 0, 0, 0, []⟩, .ageWithdraw ⟨.whole 3, 5, 1, 0, 6, 0, 0, 0, []⟩]

theorem not_reserves_conserved :
    ¬ (run step Database.empty lostTransfer).ReservesConserved ∧
      ¬ (run step Database.empty unrecordedPayment).ReservesConserved ∧
      ¬ (run step Database.empty sharedCommitment).ReservesConserved := by
  refine ⟨fun h => absurd h.balance ?_, fun h => absurd h.balance ?_, fun h => absurd h.balance ?_⟩
    <;> decide +kernel

end TalerExchange
