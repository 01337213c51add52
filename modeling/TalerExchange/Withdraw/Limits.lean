import Mathlib.Data.List.Sort
import TalerExchange.Reserve.Ledger

/-!
# Withdrawals that count towards KYC limits

For a withdrawal the amount of the request and those of the withdrawals before it are tested against the
KYC rules. The latter are found through the incoming transfers of the account, the history of their
reserves and `reserves_out`.

* `selectWithdrawAmountsForKycCheck`, `withdrawAmountCb`: what is delivered;
* `Database.withdrawals`: what is to be delivered;
* `OutPointers`: the history of a reserve points to the rows of `reserves_out` of this reserve;
  **`Posts.outPointers`**;
* **`withdrawEvents_perm`**: each batch withdrawal from a reserve of the account is delivered once;
* **`countedOnce_iff`**: all withdrawals are if and only if there are no others.
-/

namespace TalerExchange

open Sql Transition

/-! ## What is delivered -/

/-- The rows of an account. -/
def Database.accountTargets (db : Database) (h : HashCode) : List WireTarget :=
  db.wireTargets.rows.filter fun wt => wt.hNormalizedPayto = h

/-- `ri.wire_source_h_payto IN (SELECT wire_target_h_payto FROM wire_targets WHERE
h_normalized_payto=$1)`. -/
def Database.isSource (db : Database) (h : HashCode) (ri : ReserveIn) : Bool :=
  (db.accountTargets h).any fun wt => wt.wireTargetHPayto = ri.wireSourceHPayto

/-- The entries of the history of a reserve for `reserves_out`. -/
def Database.outEntries (db : Database) (r : ReservePub) : List ReserveHistory :=
  db.reserveHistory.rows.filter fun rh => rh.reservePub = r ∧ rh.tableName = .reservesOut

/-- The rows of `reserves_out` that an entry points to, since the limit. -/
def Database.outRows (db : Database) (limit : Timestamp) (rh : ReserveHistory) : List ReserveOut :=
  db.reservesOut.rows.filter fun ro =>
    ro.reserveOutSerialId = rh.serialId ∧ limit ≤ ro.executionDate

/-- The rows that `TEH_PG_select_withdraw_amounts_for_kyc_check` joins. -/
def Database.withdrawEvents (db : Database) (h : HashCode) (limit : Timestamp) :
    List (ReserveHistory × ReserveOut) :=
  (db.reservesIn.rows.filter (db.isSource h)).flatMap fun ri =>
    (db.outEntries ri.reservePub).flatMap fun rh => (db.outRows limit rh).map fun ro => (rh, ro)

/-- `TEH_PG_select_withdraw_amounts_for_kyc_check`: the latest entries first. -/
def selectWithdrawAmountsForKycCheck (db : Database) (h : HashCode) (limit : Timestamp) :
    List (Amount × Timestamp) :=
  (List.insertionSort (fun x y => y.1.reserveHistorySerialId ≤ x.1.reserveHistorySerialId)
    (db.withdrawEvents h limit)).map fun x => (x.2.amountWithFee, x.2.executionDate)

/-- `withdraw_amount_cb`, for a callback that does not end it: first the amount of the request. -/
def withdrawAmountCb (db : Database) (amountWithFee : Amount) (now : Timestamp) (h : HashCode)
    (limit : Timestamp) : List (Amount × Timestamp) :=
  (amountWithFee, now) :: selectWithdrawAmountsForKycCheck db h limit

/-! ## What is to be delivered -/

/-- The account has funded the reserve. -/
def Database.FundedBy (db : Database) (h : HashCode) (r : ReservePub) : Prop :=
  ∃ ri ∈ db.reservesIn.rows, ri.reservePub = r ∧ db.isSource h ri = true

instance Database.decidableFundedBy (db : Database) (h : HashCode) (r : ReservePub) :
    Decidable (db.FundedBy h r) :=
  inferInstanceAs (Decidable (∃ ri ∈ db.reservesIn.rows, _ ∧ _))

/-- The batch withdrawals since the limit from reserves that the account has funded. -/
def Database.batchWithdrawals (db : Database) (h : HashCode) (limit : Timestamp) :
    List ReserveOut :=
  db.reservesOut.rows.filter fun ro =>
    limit ≤ ro.executionDate ∧ ∃ r ∈ db.uuidOwner ro.reserveUuid, db.FundedBy h r

/-- The age withdrawals since the limit from reserves that the account has funded. No column says when
they were executed, `executed` does. -/
def Database.ageWithdrawals (db : Database) (executed : AgeWithdraw → Timestamp) (h : HashCode)
    (limit : Timestamp) : List AgeWithdraw :=
  db.ageWithdraw.rows.filter fun aw => limit ≤ executed aw ∧ db.FundedBy h aw.reservePub

/-- **All withdrawals** since the limit from reserves that the account has funded. -/
def Database.withdrawals (db : Database) (executed : AgeWithdraw → Timestamp) (h : HashCode)
    (limit : Timestamp) : List (Amount × Timestamp) :=
  (db.batchWithdrawals h limit).map (fun ro => (ro.amountWithFee, ro.executionDate)) ++
    (db.ageWithdrawals executed h limit).map fun aw => (aw.amountWithFee, executed aw)

/-- **Withdrawals count once**: after the amount of the request those of all withdrawals are delivered,
in some order. -/
def CountedOnce (db : Database) (executed : AgeWithdraw → Timestamp) (amountWithFee : Amount)
    (now : Timestamp) (h : HashCode) (limit : Timestamp) : Prop :=
  ∃ l, withdrawAmountCb db amountWithFee now h limit = (amountWithFee, now) :: l ∧
    l.Perm (db.withdrawals executed h limit)

/-! ## Pointers -/

/-- **The invariant**: every row of `reserves_out` is of a reserve, and the history of this reserve and
no other points to it. -/
structure OutPointers (db : Database) : Prop where
  coins : CoinsSound db.toCoinTables
  owned : ∀ o ∈ db.reservesOut.rows, ∃ r, db.uuidOwner o.reserveUuid = some r
  pointers : ∀ r n, db.reserveHistory.hasKey (r, .reservesOut, n) = true ↔
    db.reserveOfOut n = some r

section Pointers

variable {db db' : Database}

theorem outPointers_empty : OutPointers Database.empty :=
  ⟨fun _ h => (nomatch h), fun _ h => (nomatch h), fun r n => by
    constructor
    · intro h
      cases h
    · intro h
      cases h⟩

/-- The owners of rows that have one stay. -/
theorem owner_of_grows (hg : ∀ {n r}, db.uuidOwner n = some r → db'.uuidOwner n = some r)
    {ro : Table ReserveOut} (ho : ∀ o ∈ ro.rows, ∃ r, db.uuidOwner o.reserveUuid = some r) (n : ℕ) :
    ((ro.lookupSerial n).bind fun o => db'.uuidOwner o.reserveUuid) =
      (ro.lookupSerial n).bind fun o => db.uuidOwner o.reserveUuid := by
  cases hl : ro.lookupSerial n with
  | none => rfl
  | some o =>
    obtain ⟨r, hr⟩ := ho o (Table.lookupSerial_eq_some.mp hl).1
    rw [Option.bind_some, Option.bind_some, hr, hg hr]

/-- Nothing is withdrawn. -/
theorem OutPointers.keep (hi : OutPointers db) (hs : CoinsSound db'.toCoinTables)
    (hg : ∀ {n r}, db.uuidOwner n = some r → db'.uuidOwner n = some r)
    (ho : db'.reservesOut = db.reservesOut)
    (hh : ∀ r n, db'.reserveHistory.hasKey (r, .reservesOut, n) =
      db.reserveHistory.hasKey (r, .reservesOut, n)) : OutPointers db' := by
  refine ⟨hs, fun o hrow => ?_, fun r n => ?_⟩
  · rw [ho] at hrow
    exact (hi.owned o hrow).imp fun _ hr => hg hr
  · rw [hh, hi.pointers, reserveOfOut_eq, reserveOfOut_eq, ho, owner_of_grows hg hi.owned]

/-- An entry for another table. -/
theorem hasKey_entry {rh : Table ReserveHistory} {x : ReservePub} {t : HistoryTable} {m : ℕ}
    (h : db.reserveHistory.insert? (fun i => ⟨i, x, t, m⟩) = some rh) (ht : t ≠ .reservesOut)
    (r : ReservePub) (n : ℕ) : rh.hasKey (r, .reservesOut, n) =
      db.reserveHistory.hasKey (r, .reservesOut, n) :=
  Table.hasKey_insert?_ne h fun e => ht (Prod.mk.inj (Prod.mk.inj e).2).1.symm

/-- The planchets of a withdrawal are pointed to from the history of the reserve. -/
theorem Withdrawn.pointers {r : Reserve} {now : Timestamp} {xs : List PlanchetArgs}
    {ro : Table ReserveOut} {rh : Table ReserveHistory} (h : Withdrawn db r now xs ro rh)
    (hr : db.uuidOwner r.reserveUuid = some r.reservePub) (hi : OutPointers db) (x : ReservePub)
    (n : ℕ) : rh.hasKey (x, .reservesOut, n) = true ↔
      ((ro.lookupSerial n).bind fun o => db.uuidOwner o.reserveUuid) = some x := by
  induction h with
  | nil => rw [hi.pointers, reserveOfOut_eq]
  | @snoc _ _ _ ro _ _ _ _ _ ht hrh ih =>
    rw [Table.hasKey_insert? hrh, Table.lookupSerial_insert? ht, Bool.or_eq_true, ih,
      decide_eq_true_eq]
    split_ifs with hn
    · -- the new entry, no older one points to the new row
      rw [hn, Table.lookupSerial_nextSerial, Option.bind_none, Option.bind_some, hr]
      constructor
      · rintro (e | e)
        · cases e
        · exact congrArg some (Prod.mk.inj e).1
      · intro e
        exact .inr (Prod.ext (Option.some.inj e) rfl)
    · refine ⟨fun e => e.resolve_right fun e => hn ?_, .inl⟩
      exact (Prod.mk.inj (Prod.mk.inj e).2).2.symm

/-- **Postings keep the invariant.** -/
theorem Posts.outPointers {p : Posting} (h : Posts db p db') (hi : OutPointers db) :
    OutPointers db' := by
  have hs := h.coinsSound hi.coins
  have hg : ∀ {n r}, db.uuidOwner n = some r → db'.uuidOwner n = some r :=
    fun ho => (h.reserveGrows hi.coins).uuidOwner ho
  cases h with
  | wireTarget =>
    rw [addWireTarget_frame] at hs hg ⊢
    exact hi.keep hs hg rfl fun _ _ => rfl
  | initReserve =>
    rw [initReserve_frame] at hs hg ⊢
    exact hi.keep hs hg rfl fun _ _ => rfl
  | reservePurse _ _ _ _ _ _ _ hpay =>
    rw [payForPurse_frame hpay] at hs hg ⊢
    exact hi.keep hs hg rfl fun _ _ => rfl
  | recoupToReserve _ _ _ _ hrh =>
    unfold Database.reserveEntry at hrh
    split at hrh
    · exact hi.keep hs hg rfl (hasKey_entry hrh (by simp))
    · cases hrh
      exact hi.keep hs hg rfl fun _ _ => rfl
  | finishMerge _ _ _ _ _ hrh => exact hi.keep hs hg rfl (hasKey_entry hrh (by simp))
  | purseMerge _ _ _ _ _ _ hrh => exact hi.keep hs hg rfl (hasKey_entry hrh (by simp))
  | importNew _ _ hrh => exact hi.keep hs hg rfl (hasKey_entry hrh (by simp))
  | importRow _ _ hrh => exact hi.keep hs hg rfl (hasKey_entry hrh (by simp))
  | reserveClosed _ hrh => exact hi.keep hs hg rfl (hasKey_entry hrh (by simp))
  | closeRequest _ _ hrh => exact hi.keep hs hg rfl (hasKey_entry hrh (by simp))
  | @withdraw a _ r ro _ hl _ hw =>
    have hr : db.uuidOwner r.reserveUuid = some r.reservePub :=
      (uuidOwner_of_lookup hl).trans (congrArg some (Table.key_of_lookup hl).symm)
    have howned : ∀ o ∈ ro.rows, ∃ r, db.uuidOwner o.reserveUuid = some r := fun o ho =>
      (hw.mem ho).elim (hi.owned o) fun e => ⟨r.reservePub, e ▸ hr⟩
    refine ⟨hs, fun o hrow => (howned o hrow).imp fun _ hr => hg hr, fun x n => ?_⟩
    rw [reserveOfOut_eq, owner_of_grows hg howned]
    exact hw.pointers hr hi x n
  | _ => exact hi.keep hs hg rfl fun _ _ => rfl

/-- In every state that a run reaches the pointers are right. -/
theorem run_outPointers (ops : List Op) : OutPointers (run step Database.empty ops) :=
  @run_posting_invariant (fun _ _ => True) (fun _ _ => True) OutPointers
    (fun _ _ _ _ _ _ => trivial) outPointers_empty (fun _ _ _ _ hp hi => hp.outPointers hi) ops
    (admits_true ops)

end Pointers

/-! ## Each withdrawal once -/

section Once

variable {db : Database} {h : HashCode} {limit : Timestamp}

theorem nodup_rows {α κ : Type} [Record α κ] (t : Table α) : t.rows.Nodup :=
  List.Nodup.of_map _ t.keys

theorem mem_outEntries {r : ReservePub} {rh : ReserveHistory} : rh ∈ db.outEntries r ↔
    rh ∈ db.reserveHistory.rows ∧ rh.reservePub = r ∧ rh.tableName = .reservesOut := by
  unfold Database.outEntries
  rw [List.mem_filter, decide_eq_true_eq]

theorem mem_outRows {rh : ReserveHistory} {ro : ReserveOut} : ro ∈ db.outRows limit rh ↔
    ro ∈ db.reservesOut.rows ∧ ro.reserveOutSerialId = rh.serialId ∧ limit ≤ ro.executionDate := by
  unfold Database.outRows
  rw [List.mem_filter, decide_eq_true_eq]

/-- The row that an entry of a reserve points to belongs to the reserve. -/
theorem OutPointers.owner (hi : OutPointers db) {r : ReservePub} {rh : ReserveHistory}
    {ro : ReserveOut} (hrh : rh ∈ db.outEntries r) (hro : ro ∈ db.outRows limit rh) :
    db.uuidOwner ro.reserveUuid = some r := by
  obtain ⟨hm, hr, ht⟩ := mem_outEntries.mp hrh
  obtain ⟨hmo, hs, -⟩ := mem_outRows.mp hro
  have hk : db.reserveHistory.hasKey (r, .reservesOut, ro.reserveOutSerialId) = true :=
    Table.hasKey_iff.mpr ⟨rh, hm, Prod.ext hr (Prod.ext ht hs.symm)⟩
  have hl : db.reservesOut.lookupSerial ro.reserveOutSerialId = some ro :=
    Table.lookupSerial_eq_some.mpr ⟨hmo, rfl⟩
  rw [hi.pointers, reserveOfOut_eq, hl] at hk
  exact hk

theorem map_withdrawEvents : (db.withdrawEvents h limit).map Prod.snd =
    (db.reservesIn.rows.filter (db.isSource h)).flatMap fun ri =>
      (db.outEntries ri.reservePub).flatMap (db.outRows limit) := by
  unfold Database.withdrawEvents
  rw [List.map_flatMap]
  congr 1
  funext ri
  rw [List.map_flatMap]
  congr 1
  funext rh
  rw [List.map_map]
  exact List.map_id _

/-- No row is found twice: a reserve receives one transfer, and one entry points to the row. -/
theorem nodup_withdrawEvents (hi : OutPointers db) :
    ((db.withdrawEvents h limit).map Prod.snd).Nodup := by
  rw [map_withdrawEvents, List.nodup_flatMap]
  constructor
  · intro ri _
    rw [List.nodup_flatMap]
    refine ⟨fun rh _ => (nodup_rows _).filter _, ?_⟩
    refine ((nodup_rows db.reserveHistory).filter _).pairwise_of_forall_ne fun rh hrh rh' hrh' hne => ?_
    intro ro hro hro'
    obtain ⟨hm, hr, ht⟩ := mem_outEntries.mp hrh
    obtain ⟨hm', hr', ht'⟩ := mem_outEntries.mp hrh'
    have hs : rh.serialId = rh'.serialId :=
      (mem_outRows.mp hro).2.1.symm.trans (mem_outRows.mp hro').2.1
    exact hne (Table.eq_of_key hm hm'
      (Prod.ext (hr.trans hr'.symm) (Prod.ext (ht.trans ht'.symm) hs)))
  · refine ((nodup_rows db.reservesIn).filter _).pairwise_of_forall_ne fun ri hri ri' hri' hne => ?_
    intro ro hro hro'
    obtain ⟨rh, hrh, hro⟩ := List.mem_flatMap.mp hro
    obtain ⟨rh', hrh', hro'⟩ := List.mem_flatMap.mp hro'
    have hp : ri.reservePub = ri'.reservePub :=
      Option.some.inj ((hi.owner hrh hro).symm.trans (hi.owner hrh' hro'))
    exact hne (Table.eq_of_key (List.mem_filter.mp hri).1 (List.mem_filter.mp hri').1 hp)

/-- The rows that are found: those since the limit from reserves that the account has funded. -/
theorem mem_withdrawEvents (hi : OutPointers db) {ro : ReserveOut} :
    ro ∈ (db.withdrawEvents h limit).map Prod.snd ↔ ro ∈ db.batchWithdrawals h limit := by
  unfold Database.batchWithdrawals
  rw [map_withdrawEvents, List.mem_filter, decide_eq_true_eq]
  constructor
  · intro hro
    obtain ⟨ri, hri, hro⟩ := List.mem_flatMap.mp hro
    obtain ⟨rh, hrh, hro⟩ := List.mem_flatMap.mp hro
    obtain ⟨hm, hsrc⟩ := List.mem_filter.mp hri
    obtain ⟨hmo, -, hlim⟩ := mem_outRows.mp hro
    exact ⟨hmo, hlim, ri.reservePub, hi.owner hrh hro, ri, hm, rfl, hsrc⟩
  · rintro ⟨hmo, hlim, r, hr, ri, hm, rfl, hsrc⟩
    have hl : db.reservesOut.lookupSerial ro.reserveOutSerialId = some ro :=
      Table.lookupSerial_eq_some.mpr ⟨hmo, rfl⟩
    have hk : db.reserveHistory.hasKey (ri.reservePub, .reservesOut, ro.reserveOutSerialId) =
        true := by
      rw [hi.pointers, reserveOfOut_eq, hl]
      exact hr
    obtain ⟨rh, hrh, e⟩ := Table.hasKey_iff.mp hk
    obtain ⟨e₁, e⟩ := Prod.mk.inj e
    obtain ⟨e₂, e₃⟩ := Prod.mk.inj e
    exact List.mem_flatMap.mpr ⟨ri, List.mem_filter.mpr ⟨hm, hsrc⟩, List.mem_flatMap.mpr
      ⟨rh, mem_outEntries.mpr ⟨hrh, e₁, e₂⟩, mem_outRows.mpr ⟨hmo, e₃.symm, hlim⟩⟩⟩

/-- **Each batch withdrawal from a reserve of the account is found once.** -/
theorem withdrawEvents_perm (hi : OutPointers db) :
    ((db.withdrawEvents h limit).map Prod.snd).Perm (db.batchWithdrawals h limit) :=
  (List.perm_ext_iff_of_nodup (nodup_withdrawEvents hi) ((nodup_rows _).filter _)).mpr
    fun _ => mem_withdrawEvents hi

variable (h limit) in
theorem selectWithdrawAmounts_perm (hi : OutPointers db) :
    (selectWithdrawAmountsForKycCheck db h limit).Perm
      ((db.batchWithdrawals h limit).map fun ro => (ro.amountWithFee, ro.executionDate)) := by
  have hsort := ((List.perm_insertionSort (fun x y : ReserveHistory × ReserveOut =>
    y.1.reserveHistorySerialId ≤ x.1.reserveHistorySerialId) (db.withdrawEvents h limit)).map
      Prod.snd).trans (withdrawEvents_perm hi)
  have hmap := hsort.map fun ro => (ro.amountWithFee, ro.executionDate)
  rw [List.map_map] at hmap
  exact hmap

end Once

/-- **Withdrawals count once if and only if** there is no age withdrawal since the limit from a reserve
that the account has funded. -/
theorem countedOnce_iff (ops : List Op) (executed : AgeWithdraw → Timestamp) (amountWithFee : Amount)
    (now : Timestamp) (h : HashCode) (limit : Timestamp) :
    CountedOnce (run step Database.empty ops) executed amountWithFee now h limit ↔
      ∀ aw ∈ (run step Database.empty ops).ageWithdraw.rows, limit ≤ executed aw →
        ¬ (run step Database.empty ops).FundedBy h aw.reservePub := by
  have hbatch := selectWithdrawAmounts_perm h limit (run_outPointers ops)
  have hage : ((run step Database.empty ops).ageWithdrawals executed h limit = []) ↔
      ∀ aw ∈ (run step Database.empty ops).ageWithdraw.rows, limit ≤ executed aw →
        ¬ (run step Database.empty ops).FundedBy h aw.reservePub := by
    unfold Database.ageWithdrawals
    rw [List.filter_eq_nil_iff]
    simp only [decide_eq_true_eq, not_and]
  rw [← hage]
  constructor
  · rintro ⟨l, he, hperm⟩
    obtain rfl : selectWithdrawAmountsForKycCheck _ h limit = l := (List.cons.inj he).2
    have hlen := hbatch.length_eq.symm.trans hperm.length_eq
    unfold Database.withdrawals at hlen
    rw [List.length_append, List.length_map, List.length_map] at hlen
    exact List.eq_nil_of_length_eq_zero (by omega)
  · intro hnil
    refine ⟨_, rfl, ?_⟩
    unfold Database.withdrawals
    rw [hnil, List.map_nil, List.append_nil]
    exact hbatch

/-- A transfer and an age withdrawal. -/
def oneAgeWithdrawal : List Op :=
  [.reservesIn 9 9 [transferOfTen 4 1], .ageWithdraw ⟨.whole 3, 4, 1, 0, 6, 0, 0, 0, []⟩]

/-- **Age withdrawals do not count.** -/
theorem not_countedOnce : ¬ ∀ (ops : List Op) (executed : AgeWithdraw → Timestamp)
    (amountWithFee : Amount) (now : Timestamp) (h : HashCode) (limit : Timestamp),
    CountedOnce (run step Database.empty ops) executed amountWithFee now h limit := by
  intro hall
  obtain ⟨l, he, hperm⟩ := hall oneAgeWithdrawal (fun _ => 5) (.whole 1) 10 1 0
  have hlen := (congrArg (fun x => x.length - 1) he).trans hperm.length_eq
  revert hlen
  decide +kernel

end TalerExchange
