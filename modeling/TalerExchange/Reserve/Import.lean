import TalerExchange.Reserve.Ledger

/-!
# Incoming wire transfers

`TEH_PG_reserves_in_insert` records a transfer under the public key of its reserve, and credits it
only together with the reserve that it creates.

* `Recorded`: a transfer has a row of its own;
* `reported`: the transfers of a run that were reported as imported or as duplicates;
* `ImportsExact`: each of them is recorded, and the credits from transfers are the recorded amounts;
* `ImportOk`: a transfer goes to a reserve that does not exist, or it repeats the recorded one;
* **`run_imports`**: then the imports are exact;
* `secondTransfer`, `lostTransfer`: runs outside the condition that break it.
-/

namespace TalerExchange

open Sql Transition

/-- The row of the transfer, but for its identity. -/
def ReserveInInfo.content (x : ReserveInInfo) : ReserveIn := x.row x.executionTime 0

/-- A row but for its identity. -/
def ReserveIn.content (r : ReserveIn) : ReserveIn := { r with reserveInSerialId := 0 }

/-- The transfer has its row. -/
def Recorded (db : Database) (x : ReserveInInfo) : Prop :=
  ∃ r ∈ db.reservesIn.rows, r.content = x.content

instance (db : Database) (x : ReserveInInfo) : Decidable (Recorded db x) :=
  inferInstanceAs (Decidable (∃ r ∈ db.reservesIn.rows, r.content = x.content))

/-- The operation is an import of transfers. -/
def Op.isImport : Op → Bool
  | .reservesIn .. => true
  | _ => false

/-- What an operation reports about transfers. -/
def reportsOf (db : Database) : Op → List (ReserveInInfo × ImportStatus)
  | .reservesIn gc e xs =>
    match (reservesInInsert db gc e xs).2 with
    | none => []
    | some ss => xs.zip ss
  | _ => []

/-- What a run reports about transfers. -/
def reported : Database → List Op → List (ReserveInInfo × ImportStatus)
  | _, [] => []
  | db, o :: ops => reportsOf db o ++ reported (step db o) ops

/-- **Exact imports.** A reserve has at most one row, so the transfer that is recorded for it is
credited once, and nothing else is. -/
structure ImportsExact (ops : List Op) : Prop where
  recorded : ∀ x ∈ reported Database.empty ops, Recorded (run step Database.empty ops) x.1
  credited : ∀ r, gain step (fun _ o => o.isImport) (fun db => db.balanceOf r) Database.empty ops =
    (run step Database.empty ops).wired r

/-- Every transfer of a batch goes to a reserve that does not exist yet or repeats the one recorded
for it, and transfers of the batch to one reserve are the same. -/
def ImportOk (db : Database) : Op → Prop
  | .reservesIn _ _ xs =>
      (∀ x ∈ xs, db.reserves.hasKey x.reservePub = false ∨ Recorded db x) ∧
        ∀ x ∈ xs, ∀ y ∈ xs, x.reservePub = y.reservePub → x.content = y.content
  | _ => True

/-! ## Rows -/

section Rows

variable {db db' : Database} {x : ReserveInInfo}

theorem Recorded.hasKey (h : Recorded db x) : db.reservesIn.hasKey x.reservePub = true := by
  obtain ⟨r, hr, e⟩ := h
  exact Table.hasKey_iff.mpr ⟨r, hr, congrArg ReserveIn.reservePub e⟩

theorem Recorded.of_content {y : ReserveInInfo} (h : Recorded db x) (e : x.content = y.content) :
    Recorded db y := by
  obtain ⟨r, hr, he⟩ := h
  exact ⟨r, hr, he.trans e⟩

theorem Recorded.mono (h : Recorded db x)
    (hm : ∀ r ∈ db.reservesIn.rows, r ∈ db'.reservesIn.rows) : Recorded db' x := by
  obtain ⟨r, hr, e⟩ := h
  exact ⟨r, hm r hr, e⟩

theorem recorded_insert? {t : Table ReserveIn}
    (h : db.reservesIn.insert? (x.row x.executionTime) = some t) :
    Recorded { db with reservesIn := t } x :=
  ⟨_, (Table.mem_insert? h).mpr (Or.inr rfl), rfl⟩

/-- Recorded transfers stay recorded. -/
theorem Posts.reservesIn_mono {p : Posting} (h : Posts db p db') :
    ∀ r ∈ db.reservesIn.rows, r ∈ db'.reservesIn.rows := by
  cases h with
  | wireTarget =>
    rw [addWireTarget_frame]
    exact fun _ h => h
  | initReserve =>
    rw [initReserve_frame]
    exact fun _ h => h
  | reservePurse _ _ _ _ _ _ _ hpay =>
    rw [payForPurse_frame hpay]
    exact fun _ h => h
  | importNew _ ht => exact fun r hr => (Table.mem_insert? ht).mpr (Or.inl hr)
  | importRow _ ht => exact fun r hr => (Table.mem_insert? ht).mpr (Or.inl hr)
  | _ => exact fun _ h => h

/-- Every recorded transfer has its reserve. -/
def Wired (db : Database) : Prop :=
  ∀ r ∈ db.reservesIn.rows, db.reserves.hasKey r.reservePub = true

theorem Wired.of_hasKey (h : Wired db) {r : ReservePub} (hk : db.reservesIn.hasKey r = true) :
    db.reserves.hasKey r = true := by
  obtain ⟨y, hy, rfl⟩ := Table.hasKey_iff.mp hk
  exact h y hy

theorem Posts.wired {p : Posting} (h : Posts db p db') (hs : CoinsSound db.toCoinTables)
    (hw : Wired db) : Wired db' := by
  have hk := (h.moves hs).known
  suffices hrow : ∀ r ∈ db'.reservesIn.rows, r ∈ db.reservesIn.rows ∨
      db'.reserves.hasKey r.reservePub = true from
    fun r hr => (hrow r hr).elim (fun h => hk _ (hw r h)) id
  cases h with
  | wireTarget =>
    rw [addWireTarget_frame]
    exact fun _ h => Or.inl h
  | initReserve =>
    rw [initReserve_frame]
    exact fun _ h => Or.inl h
  | reservePurse _ _ _ _ _ _ _ hpay =>
    rw [payForPurse_frame hpay]
    exact fun _ h => Or.inl h
  | importNew hn ht =>
    intro r hr
    refine ((Table.mem_insert? ht).mp hr).imp_right fun e => ?_
    rw [e]
    exact Table.hasKey_insert?_self hn
  | importRow hres ht =>
    intro r hr
    refine ((Table.mem_insert? ht).mp hr).imp_right fun e => ?_
    rw [e]
    exact hres
  | _ => exact fun _ h => Or.inl h

/-- **A transfer leaves its row**, if it is to a new reserve or recorded before. -/
theorem recorded_arrayInsertOne {gc e : Timestamp} {r : ArrayInsertResult} (hw : Wired db)
    (hx : db.reserves.hasKey x.reservePub = false ∨ Recorded db x)
    (h : arrayInsertOne db gc e x = .ok (db', r)) : Recorded db' x ∧ Wired db' ∧
      (∀ q, q ≠ x.reservePub → db'.reserves.hasKey q = db.reserves.hasKey q) ∧
      ∀ q ∈ db.reservesIn.rows, q ∈ db'.reservesIn.rows := by
  obtain ⟨db₁, rfl, hk, hcases⟩ := arrayInsertOne_cases h
  have hw₁ : Wired (db.addWireTarget x.hFullPayto x.hNormalizedPayto x.senderAccountDetails) := by
    rw [addWireTarget_frame]
    exact hw
  have hx₁ : (db.addWireTarget x.hFullPayto x.hNormalizedPayto
      x.senderAccountDetails).reserves.hasKey x.reservePub = false ∨
      Recorded (db.addWireTarget x.hFullPayto x.hNormalizedPayto x.senderAccountDetails) x := by
    rw [addWireTarget_frame]
    exact hx
  have hsame : (db.addWireTarget x.hFullPayto x.hNormalizedPayto
      x.senderAccountDetails).reserves = db.reserves ∧ (db.addWireTarget x.hFullPayto
      x.hNormalizedPayto x.senderAccountDetails).reservesIn = db.reservesIn := by
    rw [addWireTarget_frame]
    exact ⟨rfl, rfl⟩
  rw [← hsame.1, ← hsame.2]
  generalize db.addWireTarget _ _ _ = db₁ at hw₁ hx₁ hcases
  rcases hcases with ⟨hp, -⟩ | ⟨hp, -⟩ | ⟨hp, hres, hno, -⟩ | ⟨rfl, -⟩
  · have hmono := hp.reservesIn_mono
    cases hp with
    | importNew hn ht =>
      refine ⟨recorded_insert? ht, fun q hq => ?_, fun q hq => Table.hasKey_insert?_ne hn hq, hmono⟩
      rcases (Table.mem_insert? ht).mp hq with hq | rfl
      · exact Table.hasKey_insert?_of_hasKey hn (hw₁ q hq)
      · exact Table.hasKey_insert?_self hn
  · cases hp with
    | importReserve hn hk =>
      have := (Table.insert?_eq_some.mp hn).1
      exact absurd ((hw₁.of_hasKey hk).symm.trans this) (by decide)
  · rcases hx₁ with hf | hrec
    · exact absurd (hres.symm.trans hf) (by decide)
    · exact absurd (hrec.hasKey.symm.trans hno) (by decide)
  · refine ⟨hx₁.resolve_left fun hf => ?_, hw₁, fun _ _ => rfl, fun _ h => h⟩
    exact absurd ((hw₁.of_hasKey hk).symm.trans hf) (by decide)

/-- The loop: each transfer to a reserve is followed by repetitions only. -/
theorem recorded_arrayInsertLoop {gc e : Timestamp} {xs : List ReserveInInfo}
    {rs : List ArrayInsertResult} (hw : Wired db)
    (hx : ∀ x ∈ xs, db.reserves.hasKey x.reservePub = false ∨ Recorded db x)
    (hsame : ∀ x ∈ xs, ∀ y ∈ xs, x.reservePub = y.reservePub → x.content = y.content)
    (h : arrayInsertLoop db gc e xs = .ok (db', rs)) :
    (∀ x ∈ xs, Recorded db' x) ∧ ∀ q ∈ db.reservesIn.rows, q ∈ db'.reservesIn.rows := by
  induction xs generalizing db rs with
  | nil =>
    cases h
    exact ⟨fun _ h => (nomatch h), fun _ h => h⟩
  | cons x xs ih =>
    simp only [arrayInsertLoop, bind_eq_ok, Prod.exists] at h
    obtain ⟨db₁, r, h₁, db₂, rs', h₂, h⟩ := h
    cases pure_eq_ok.mp h
    obtain ⟨hrec, hw₁, hother, hmono⟩ := recorded_arrayInsertOne hw (hx x (by simp)) h₁
    have hx₁ : ∀ y ∈ xs, db₁.reserves.hasKey y.reservePub = false ∨ Recorded db₁ y := by
      intro y hy
      by_cases e : x.reservePub = y.reservePub
      · exact Or.inr (hrec.of_content (hsame x (by simp) y (by simp [hy]) e))
      · rw [hother _ (Ne.symm e)]
        exact (hx y (by simp [hy])).imp_right fun h => h.mono hmono
    obtain ⟨hall, hmono'⟩ := ih hw₁ hx₁ (fun y hy z hz => hsame y (by simp [hy]) z (by simp [hz])) h₂
    refine ⟨fun y hy => ?_, fun q hq => hmono' q (hmono q hq)⟩
    rcases List.mem_cons.mp hy with rfl | hy
    · exact hrec.mono hmono'
    · exact hall y hy

/-- What an import reports is recorded. -/
theorem recorded_of_report {o : Op} (hw : Wired db) (ho : ImportOk db o) :
    ∀ x ∈ reportsOf db o, Recorded (step db o) x.1 := by
  cases o with
  | reservesIn gc e xs =>
    obtain ⟨hx, hsame⟩ := ho
    intro x hmem
    have hstep : step db (.reservesIn gc e xs) = (reservesInInsert db gc e xs).1 := rfl
    rw [hstep]
    simp only [reportsOf] at hmem
    unfold reservesInInsert exchangeDoArrayReservesInsert at hmem ⊢
    by_cases hne : xs = []
    · simp [hne] at hmem
    rw [if_neg hne] at hmem ⊢
    cases h : arrayInsertLoop db gc e xs with
    | error err =>
      rw [h] at hmem
      cases hmem
    | ok r =>
      obtain ⟨db₁, rs⟩ := r
      rw [h] at hmem
      obtain ⟨hall, -⟩ := recorded_arrayInsertLoop hw hx hsame h
      have hrows : ∀ x ∈ xs.zip rs, db₁.reservesIn.hasKey x.1.reservePub = true :=
        fun x hx => (hall x.1 (List.of_mem_zip hx).1).hasKey
      simp only [updateLoop_eq hrows] at hmem ⊢
      split_ifs at hmem ⊢
      · exact hall x.1 (List.of_mem_zip hmem).1
      · exact hall x.1 (List.of_mem_zip hmem).1
  | _ => exact fun _ h => (nomatch h)

end Rows

/-! ## Credits -/

/-- No transfer is recorded for a reserve that exists without one. -/
def NotRowOnly : Posting → Prop
  | .importRow _ => False
  | _ => True

section Credits

variable {db db' : Database} {p : Posting}

theorem notRowOnly_of_emits {s : Database} {o : Op} (ho : ImportOk db o) (he : Emits db o s p) :
    NotRowOnly p := by
  cases p with
  | importRow x =>
    obtain ⟨gc, e, xs, rfl, hx, hk, hno⟩ := emits_importRow he
    rcases ho.1 x hx with hf | hrec
    · exact absurd (hk.symm.trans hf) (by decide)
    · exact absurd (hrec.hasKey.symm.trans hno) (by decide)
  | _ => trivial

/-- Imports come from transfers, and transfers make nothing else. -/
theorem import_of_emits {s : Database} {o : Op} (he : Emits db o s p) :
    (o.isImport = true → (∃ x, p = .importNew x) ∨ (∃ x, p = .importReserve x) ∨
      (∃ x, p = .importRow x) ∨ ∃ h n u, p = .wireTarget h n u) ∧
    (o.isImport = false → (∀ x, p ≠ .importNew x) ∧ ∀ x, p ≠ .importRow x) := by
  cases o with
  | reservesIn gc e xs =>
    refine ⟨fun _ => ?_, fun h => absurd h.symm Bool.false_ne_true⟩
    obtain ⟨x, -, rfl | rfl | rfl | ⟨rfl, -⟩⟩ := he
    · exact Or.inr (Or.inr (Or.inr ⟨_, _, _, rfl⟩))
    · exact Or.inl ⟨x, rfl⟩
    · exact Or.inr (Or.inl ⟨x, rfl⟩)
    · exact Or.inr (Or.inr (Or.inl ⟨x, rfl⟩))
  | _ =>
    refine ⟨fun h => absurd h Bool.false_ne_true, fun _ => ⟨?_, ?_⟩⟩ <;> rintro x rfl <;>
      cases kind_of_emits he

/-- Other postings record no transfers. -/
theorem Posts.wired_eq (h : Posts db p db') (hn : ∀ x, p ≠ .importNew x) (hr : ∀ x, p ≠ .importRow x)
    (r : ReservePub) : db'.wired r = db.wired r := by
  cases h with
  | wireTarget =>
    rw [addWireTarget_frame]
    rfl
  | initReserve =>
    rw [initReserve_frame]
    rfl
  | reservePurse _ _ _ _ _ _ _ hpay =>
    rw [payForPurse_frame hpay]
    rfl
  | importNew => exact absurd rfl (hn _)
  | importRow => exact absurd rfl (hr _)
  | _ => rfl

/-- **Credits and records move together.** -/
theorem Posts.wired_credit (h : Posts db p db') (hC : NotRowOnly p)
    (hs : CoinsSound db.toCoinTables) (hw : Wired db) {s : Database} {o : Op} (he : Emits s o db p)
    (r : ReservePub) : db'.wired r = db.wired r +
      if o.isImport then db'.balanceOf r - db.balanceOf r else 0 := by
  have hm := (h.moves hs).value r
  obtain ⟨h₁, h₂⟩ := import_of_emits he
  cases ho : o.isImport with
  | false =>
    rw [h.wired_eq (h₂ ho).1 (h₂ ho).2]
    simp
  | true =>
    rw [if_pos rfl]
    obtain ⟨x, rfl⟩ | ⟨x, rfl⟩ | ⟨x, rfl⟩ | ⟨y, n, u, rfl⟩ := h₁ ho
    · have hb : db'.balanceOf r = db.balanceOf r + if x.reservePub = r then x.balance.units else 0 := hm
      have hi : ∀ {d : Database}, db.reservesIn.insert? (x.row x.executionTime) = some d.reservesIn →
          d.wired r = db.wired r + if x.reservePub = r then x.balance.units else 0 :=
        fun ht => Table.total_insert? ht _
      cases h with
      | importNew _ ht =>
        refine (hi ht).trans ?_
        omega
    · cases h with
      | importReserve hn hk =>
        have := (Table.insert?_eq_some.mp hn).1
        exact absurd ((hw.of_hasKey hk).symm.trans this) (by decide)
    · cases hC
    · have hb : db'.balanceOf r = db.balanceOf r + 0 := hm
      rw [h.wired_eq (fun _ e => (nomatch e)) fun _ e => (nomatch e)]
      omega

end Credits

/-- What is reported along a run stays recorded. -/
theorem recorded_of_reported {db : Database} {ops : List Op}
    (hi : CoinsSound db.toCoinTables ∧ Wired db ∧ MergesHavePurse db)
    (h : Admits step ImportOk db ops) :
    ∀ x ∈ reported db ops, Recorded (run step db ops) x.1 := by
  have hpath : ∀ {db o}, CoinsSound db.toCoinTables ∧ Wired db ∧ MergesHavePurse db →
      (CoinsSound (step db o).toCoinTables ∧ Wired (step db o) ∧ MergesHavePurse (step db o)) ∧
        ∀ r ∈ db.reservesIn.rows, r ∈ (step db o).reservesIn.rows := by
    intro db o hi
    have hp := step_path (C := fun _ _ => True) (o := o) hi.2.2 fun _ _ _ => trivial
    refine hp.invariant (I := fun s => (CoinsSound s.toCoinTables ∧ Wired s ∧ MergesHavePurse s) ∧
      ∀ r ∈ db.reservesIn.rows, r ∈ s.reservesIn.rows) ?_ ⟨hi, fun _ h => h⟩
    rintro s p t - hp ⟨⟨hs, hw, hm⟩, hsub⟩
    exact ⟨⟨hp.coinsSound hs, hp.wired hs hw, hp.mergesHavePurse hm⟩,
      fun r hr => hp.reservesIn_mono r (hsub r hr)⟩
  induction ops generalizing db with
  | nil => exact fun _ h => (nomatch h)
  | cons o ops ih =>
    intro x hx
    rcases List.mem_append.mp hx with hx | hx
    · have hrec := recorded_of_report hi.2.1 h.1 x hx
      refine (run_invariant
        (I := fun s => (CoinsSound s.toCoinTables ∧ Wired s ∧ MergesHavePurse s) ∧ Recorded s x.1)
        (fun s o _ hs => ⟨(hpath hs.1).1, hs.2.mono (hpath hs.1).2⟩)
        (admits_true ops : Admits step (fun _ _ => True) _ ops) ⟨(hpath hi).1, hrec⟩).2
    · exact ih (hpath hi).1 h.2 x hx

/-- **Incoming transfers.** In every run in which each transfer goes to a reserve that does not exist
yet or repeats the one recorded for it, every transfer that was reported has its row, and what
transfers have credited to a reserve is what its row says. -/
theorem run_imports {ops : List Op} (h : Admits step ImportOk Database.empty ops) :
    ImportsExact ops where
  recorded := recorded_of_reported
    ⟨fun _ h => (nomatch h), fun _ h => (nomatch h), fun _ h => (nomatch h)⟩ h
  credited r := by
    rw [run_gain (C := fun _ p => NotRowOnly p) (I := fun db => CoinsSound db.toCoinTables ∧ Wired db)
      (f := fun db => db.balanceOf r) (g := fun db => db.wired r)
      (S := fun _ o => o.isImport) (fun _ _ ho _ _ he => notRowOnly_of_emits ho he)
      ⟨fun _ h => (nomatch h), fun _ h => (nomatch h)⟩
      (fun _ _ _ _ hp hi => ⟨hp.coinsSound hi.1, hp.wired hi.1 hi.2⟩)
      (fun _ _ _ _ _ he hC hp hi => hp.wired_credit hC hi.1 hi.2 he r) h]
    exact sub_zero _

/-! ## Sample runs -/

instance (db : Database) (o : Op) : Decidable (ImportOk db o) :=
  match o with
  | .reservesIn _ _ xs => inferInstanceAs (Decidable
      ((∀ x ∈ xs, db.reserves.hasKey x.reservePub = false ∨ Recorded db x) ∧
        ∀ x ∈ xs, ∀ y ∈ xs, x.reservePub = y.reservePub → x.content = y.content))
  | .denomination _ | .partner _ | .coin .. | .deposit _ | .refund _ | .melt _ | .reveal _
  | .reserveOpenDeposit _ | .recoupToReserve _ | .recoupToCoin _ | .createPurse .. | .purseDeposit _
  | .purseMerge _ | .reservePurse .. | .purseDelete _ | .expirePurse _
  | .batchWithdraw .. | .ageWithdraw _ | .reserveOpen _ | .reserveClosed _ | .closeRequest _
  | .aggregate _ => .isTrue trivial

/-- Two reserves, one of the transfers twice in a batch and once more in the next. -/
def repeatedTransfers : List Op :=
  [.reservesIn 9 9 [transferOfTen 4 1, transferOfTen 5 2, transferOfTen 4 1],
   .reservesIn 9 9 [transferOfTen 5 2]]

theorem repeatedTransfers_exact :
    (run step Database.empty repeatedTransfers).balanceOf 4 = (Amount.whole 10).units ∧
      ImportsExact repeatedTransfers :=
  ⟨by decide +kernel, run_imports (by decide +kernel)⟩

/-- A second transfer to a reserve. -/
def secondTransfer : List Op :=
  [.reservesIn 9 9 [transferOfTen 4 1], .reservesIn 9 9 [transferOfTen 4 2]]

theorem not_imports : ¬ ImportsExact secondTransfer ∧ ¬ ImportsExact lostTransfer := by
  constructor
  · intro h
    have hrep : (transferOfTen 4 2, ImportStatus.duplicate) ∈
        reported Database.empty secondTransfer := by decide +kernel
    exact absurd (h.recorded _ hrep) (by decide +kernel)
  · intro h
    exact absurd (h.credited 4) (by decide +kernel)

end TalerExchange
