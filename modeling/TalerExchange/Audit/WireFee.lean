import TalerExchange.Amount.Arith
import TalerExchange.Schema
import TalerExchange.Transition.Path

/-!
# The cache of wire fees

The auditor of the aggregations looks up the wire fee of each wire transfer. Periods that it has
looked up stay in a list, which it searches first.

* `edbGetWireFee`: the period that the exchange has for a method and a time;
* `getWireFee`: the lookup through the list, with its reports;
* `Transparent`: it finds the fees of the exchange, keeps the list in order and reports overlaps;
* `FitsCache`: a cached period that covers the time has the fee of this method, and a new period
  starts no later than the first one and runs into it;
* **`transparent_iff`**: that is when a sequence of lookups is transparent;
* `twoMethods`: two methods at one time.
-/

namespace TalerExchange

open Transition

/-! ## The code -/

/-- `struct TALER_WireFeeSet`. -/
structure WireFeeSet where
  wire : Amount
  closing : Amount
deriving DecidableEq, Repr

/-- `struct WireFeeInfo`: a cached period. -/
structure WireFeeInfo where
  startDate : ℕ
  endDate : ℕ
  fees : WireFeeSet
deriving DecidableEq, Repr

/-- A row of `wire_fee`. -/
structure WireFeeRow extends WireFeeInfo where
  wireMethod : String
  masterSig : Signature
deriving DecidableEq, Repr

def WireFeeInfo.Covers (i : WireFeeInfo) (timestamp : ℕ) : Prop :=
  i.startDate ≤ timestamp ∧ timestamp < i.endDate

instance WireFeeInfo.Covers.decidable (i : WireFeeInfo) (timestamp : ℕ) :
    Decidable (i.Covers timestamp) :=
  inferInstanceAs (Decidable (_ ∧ _))

/-- `TEH_PG_get_wire_fee`; the query must have exactly one result. -/
def edbGetWireFee (table : List WireFeeRow) (method : String) (date : ℕ) : Option WireFeeRow :=
  match table.filter fun r => r.wireMethod = method ∧ r.Covers date with
  | [row] => some row
  | _ => none

/-- What the auditor reports. -/
inductive FeeReport
  | rowInconsistency (table : String) (rowid : ℕ) (diagnostic : String)
  | feeTimeInconsistency (diagnostic : String) (time : ℕ) (type : String)
deriving DecidableEq, Repr

def FeeReport.IsFeeTime : FeeReport → Prop
  | .rowInconsistency _ _ _ => False
  | .feeTimeInconsistency _ _ _ => True

/-- `struct AggregationContext`, with what was reported. -/
structure AggregationContext where
  feeHead : List WireFeeInfo := []
  reports : List FeeReport := []
deriving DecidableEq, Repr

/-- The search in the list: a period that covers the time, or the periods before `pos` and those
from `pos` on. -/
def lookupCache (timestamp : ℕ) :
    List WireFeeInfo → WireFeeInfo ⊕ List WireFeeInfo × List WireFeeInfo
  | [] => .inr ([], [])
  | pos :: rest =>
    if pos.Covers timestamp then .inl pos
    else if timestamp < pos.startDate then .inr ([], pos :: rest)
    else
      match lookupCache timestamp rest with
      | .inl hit => .inl hit
      | .inr (before, after) => .inr (pos :: before, after)

/-- Where the new period goes: at the head if there is no `pos` or nothing before it, after
`pos->prev` otherwise. -/
def insertPosition (before after : List WireFeeInfo) : List WireFeeInfo × List WireFeeInfo :=
  if after = [] ∨ before = [] then ([], before ++ after) else (before, after)

/-- The two checks against the neighbours of a new period. -/
def checkNeighbours (method : String) (prev next : Option WireFeeInfo) (wfi : WireFeeInfo) :
    List FeeReport :=
  (match prev with
    | some prev =>
      if wfi.startDate < prev.endDate then
        [.feeTimeInconsistency "start date before previous end date" wfi.startDate method]
      else []
    | none => []) ++
  (match next with
    | some next =>
      if wfi.endDate ≤ next.startDate then
        [.feeTimeInconsistency "end date date after next start date" wfi.endDate method]
      else []
    | none => [])

/-- `TALER_exchange_offline_wire_fee_verify` fails: this is reported, and the fee used anyway. -/
def checkSignature (verify : WireFeeRow → Bool) (timestamp : ℕ) (row : WireFeeRow) :
    List FeeReport :=
  if verify row then []
  else [.rowInconsistency "wire-fee" timestamp "wire fee signature invalid at given time"]

/-- The period is found in the database, but not in the list. -/
def loads (table : List WireFeeRow) (method : String) (timestamp : ℕ) (ac : AggregationContext) :
    Option WireFeeRow :=
  match lookupCache timestamp ac.feeHead with
  | .inl _ => none
  | .inr _ => edbGetWireFee table method timestamp

/-- `get_wire_fee`. -/
def getWireFee (verify : WireFeeRow → Bool) (table : List WireFeeRow) (method : String)
    (timestamp : ℕ) (ac : AggregationContext) : Option Amount × AggregationContext :=
  match lookupCache timestamp ac.feeHead with
  | .inl pos => (some pos.fees.wire, ac)
  | .inr (before, after) =>
    match edbGetWireFee table method timestamp with
    | none => (none, ac)
    | some row =>
      let (before, after) := insertPosition before after
      (some row.fees.wire,
        { feeHead := before ++ row.toWireFeeInfo :: after
          reports := ac.reports ++ checkSignature verify timestamp row ++
            checkNeighbours method before.getLast? after.head? row.toWireFeeInfo })

/-! ## Sequences of lookups -/

/-- A method and a time. -/
abbrev FeeLookup := String × ℕ

/-- The auditor, the periods that were looked up in the database, and the results. -/
structure FeeAudit where
  ac : AggregationContext := {}
  lookedUp : List WireFeeRow := []
  answers : List (FeeLookup × Option Amount) := []

def feeStep (verify : WireFeeRow → Bool) (table : List WireFeeRow) (s : FeeAudit) (l : FeeLookup) :
    FeeAudit where
  ac := (getWireFee verify table l.1 l.2 s.ac).2
  lookedUp := (loads table l.1 l.2 s.ac).toList ++ s.lookedUp
  answers := (l, (getWireFee verify table l.1 l.2 s.ac).1) :: s.answers

/-- The wire fee that the exchange has. -/
def exchangeFee (table : List WireFeeRow) (l : FeeLookup) : Option Amount :=
  (edbGetWireFee table l.1 l.2).map fun row => row.fees.wire

def WireFeeInfo.Overlaps (a b : WireFeeInfo) : Prop :=
  a.startDate < b.endDate ∧ b.startDate < a.endDate

/-- Two periods of one method that overlap. -/
def WireFeeRow.Conflicts (a b : WireFeeRow) : Prop :=
  a ≠ b ∧ a.wireMethod = b.wireMethod ∧ a.Overlaps b.toWireFeeInfo

/-- Each result is what the exchange has, the list is in order, and there is a report of a wrong
period if and only if two periods that were looked up conflict. -/
structure Transparent (table : List WireFeeRow) (s : FeeAudit) : Prop where
  answers : ∀ a ∈ s.answers, a.2 = exchangeFee table a.1
  sorted : s.ac.feeHead.Pairwise fun a b => a.startDate ≤ b.startDate
  reports : (∃ r ∈ s.ac.reports, r.IsFeeTime) ↔
    ∃ a ∈ s.lookedUp, ∃ b ∈ s.lookedUp, a.Conflicts b

/-- A cached period that covers the time has the fee of this method; a new period, unless it is the
only one, starts no later than the first one, ends within or after it, and ends before any other one
of its method starts. -/
def FitsCache (table : List WireFeeRow) (s : FeeAudit) (l : FeeLookup) : Prop :=
  match lookupCache l.2 s.ac.feeHead with
  | .inl pos => exchangeFee table l = some pos.fees.wire
  | .inr _ =>
    ∀ row, edbGetWireFee table l.1 l.2 = some row → ∀ first ∈ s.ac.feeHead.head?,
      row.startDate ≤ first.startDate ∧ first.startDate < row.endDate ∧
        ∀ other ∈ s.lookedUp, other.wireMethod = l.1 → row.endDate ≤ other.startDate

/-! ## The list -/

/-- Each period starts no later than the next one, which it runs into. -/
def Chained (l : List WireFeeInfo) : Prop :=
  l.IsChain fun a b => a.startDate ≤ b.startDate ∧ b.startDate < a.endDate

section Cache

variable {l before after : List WireFeeInfo} {t : ℕ} {pos : WireFeeInfo}

theorem Chained.tail {i : WireFeeInfo} (h : Chained (i :: l)) : Chained l :=
  List.IsChain.tail h

theorem Chained.sorted (h : Chained l) : l.Pairwise fun a b => a.startDate ≤ b.startDate := by
  have : Trans (fun a b : WireFeeInfo => a.startDate ≤ b.startDate)
      (fun a b : WireFeeInfo => a.startDate ≤ b.startDate)
      (fun a b : WireFeeInfo => a.startDate ≤ b.startDate) := ⟨fun h₁ h₂ => le_trans h₁ h₂⟩
  exact List.isChain_iff_pairwise.mp (h.imp fun _ _ hab => hab.1)

theorem Chained.first_le (h : Chained (pos :: l)) :
    ∀ i ∈ pos :: l, pos.startDate ≤ i.startDate := by
  intro i hi
  rcases List.mem_cons.mp hi with rfl | hi
  · exact le_refl _
  · exact (List.pairwise_cons.mp h.sorted).1 i hi

/-- The search of a list without gaps stops at its head or at its end. -/
theorem lookupCache_miss (h : Chained l) (hm : lookupCache t l = .inr (before, after)) :
    (before = [] ∨ after = []) ∧ before ++ after = l ∧ ∀ i ∈ l, ¬ i.Covers t := by
  induction l generalizing before after with
  | nil =>
    simp only [lookupCache, Sum.inr.injEq, Prod.mk.injEq] at hm
    obtain ⟨rfl, rfl⟩ := hm
    exact ⟨Or.inl rfl, rfl, fun i hi => absurd hi List.not_mem_nil⟩
  | cons pos rest ih =>
    unfold lookupCache at hm
    split_ifs at hm with hcov hlt
    · simp only [Sum.inr.injEq, Prod.mk.injEq] at hm
      obtain ⟨rfl, rfl⟩ := hm
      refine ⟨Or.inl rfl, rfl, fun i hi hc => ?_⟩
      have hfirst := h.first_le i hi
      have hc := hc.1
      omega
    · cases hrest : lookupCache t rest with
      | inl hit => simp [hrest] at hm
      | inr parts =>
        obtain ⟨before', after'⟩ := parts
        simp only [hrest, Sum.inr.injEq, Prod.mk.injEq] at hm
        obtain ⟨rfl, rfl⟩ := hm
        obtain ⟨hone, happ, hnone⟩ := ih h.tail hrest
        refine ⟨Or.inr ?_, by rw [List.cons_append, happ], ?_⟩
        · -- the time is not before the next period, which starts before this one ends
          rcases hone with rfl | hafter
          · cases rest with
            | nil => simpa using happ
            | cons next rest =>
              have hnext := (List.isChain_cons_cons.mp h).1
              unfold WireFeeInfo.Covers at hcov
              unfold lookupCache at hrest
              split_ifs at hrest with hcov' hlt'
              · omega
              · split at hrest <;> simp at hrest
          · exact hafter
        · intro i hi
          rcases List.mem_cons.mp hi with rfl | hi
          · exact hcov
          · exact hnone i hi

theorem insertPosition_of_miss (h : Chained l) (hm : lookupCache t l = .inr (before, after)) :
    insertPosition before after = ([], l) := by
  obtain ⟨hone, happ, -⟩ := lookupCache_miss h hm
  unfold insertPosition
  rw [if_pos hone.symm, happ]

end Cache

/-! ## The invariant -/

variable {verify : WireFeeRow → Bool} {table : List WireFeeRow} {s : FeeAudit} {l : FeeLookup}

/-- What the exchange returns covers the time. -/
theorem edbGetWireFee_some {method : String} {date : ℕ} {row : WireFeeRow}
    (h : edbGetWireFee table method date = some row) :
    row.wireMethod = method ∧ row.Covers date := by
  unfold edbGetWireFee at h
  split at h
  · next row' hrow =>
    obtain rfl : row' = row := Option.some.inj h
    have hmem : row' ∈ table.filter fun r => r.wireMethod = method ∧ r.Covers date := by
      rw [hrow]
      exact List.mem_singleton_self _
    simpa using (List.mem_filter.mp hmem).2
  · exact absurd h (by simp)

/-- All went well so far: the periods were put before one another, and none was reported. -/
structure FeeInv (table : List WireFeeRow) (s : FeeAudit) : Prop where
  answers : ∀ a ∈ s.answers, a.2 = exchangeFee table a.1
  cached : s.ac.feeHead = s.lookedUp.map WireFeeRow.toWireFeeInfo
  chained : Chained s.ac.feeHead
  quiet : ∀ r ∈ s.ac.reports, ¬ r.IsFeeTime
  apart : ∀ a ∈ s.lookedUp, ∀ b ∈ s.lookedUp, ¬ a.Conflicts b
  proper : ∀ a ∈ s.lookedUp, a.startDate < a.endDate

theorem FeeInv.transparent (h : FeeInv table s) : Transparent table s := by
  refine ⟨h.answers, h.chained.sorted, ?_⟩
  constructor
  · rintro ⟨r, hr, hfee⟩
    exact absurd hfee (h.quiet r hr)
  · rintro ⟨a, ha, b, hb, hab⟩
    exact absurd hab (h.apart a ha b hb)

/-! ## Steps -/

theorem feeStep_hit {pos : WireFeeInfo} (hm : lookupCache l.2 s.ac.feeHead = .inl pos) :
    feeStep verify table s l =
      { s with answers := (l, some pos.fees.wire) :: s.answers } := by
  simp only [feeStep, getWireFee, loads, hm, Option.toList_none, List.nil_append]

theorem feeStep_unknown {parts : List WireFeeInfo × List WireFeeInfo}
    (hm : lookupCache l.2 s.ac.feeHead = .inr parts) (hrow : edbGetWireFee table l.1 l.2 = none) :
    feeStep verify table s l = { s with answers := (l, none) :: s.answers } := by
  simp only [feeStep, getWireFee, loads, hm, hrow, Option.toList_none, List.nil_append]

/-- A new period goes to the head, whatever its start. -/
theorem feeStep_load {before after : List WireFeeInfo} {row : WireFeeRow}
    (hc : Chained s.ac.feeHead) (hm : lookupCache l.2 s.ac.feeHead = .inr (before, after))
    (hrow : edbGetWireFee table l.1 l.2 = some row) :
    feeStep verify table s l =
      { ac :=
          { feeHead := row.toWireFeeInfo :: s.ac.feeHead
            reports := s.ac.reports ++ checkSignature verify l.2 row ++
              checkNeighbours l.1 none s.ac.feeHead.head? row.toWireFeeInfo }
        lookedUp := row :: s.lookedUp
        answers := (l, some row.fees.wire) :: s.answers } := by
  simp only [feeStep, getWireFee, loads, hm, hrow, insertPosition_of_miss hc hm, List.getLast?_nil,
    List.nil_append, Option.toList_some, List.singleton_append]

theorem checkSignature_quiet (row : WireFeeRow) (t : ℕ) :
    ∀ r ∈ checkSignature verify t row, ¬ r.IsFeeTime := by
  intro r hr
  unfold checkSignature at hr
  split_ifs at hr
  · exact absurd hr List.not_mem_nil
  · rw [List.mem_singleton.mp hr]
    exact id

/-- Only the check against the next period is made; it reports a period that ends before. -/
theorem checkNeighbours_head (method : String) (next : Option WireFeeInfo) (wfi : WireFeeInfo) :
    (∃ r ∈ checkNeighbours method none next wfi, r.IsFeeTime) ↔
      ∃ first ∈ next, wfi.endDate ≤ first.startDate := by
  cases next with
  | none => simp [checkNeighbours]
  | some first =>
    by_cases hle : wfi.endDate ≤ first.startDate
    · simp [checkNeighbours, hle, FeeReport.IsFeeTime]
    · simp [checkNeighbours, hle]

section Load

variable {before after : List WireFeeInfo} {row : WireFeeRow}

/-- A period that is loaded was not looked up before. -/
theorem FeeInv.not_mem (h : FeeInv table s)
    (hm : lookupCache l.2 s.ac.feeHead = .inr (before, after))
    (hrow : edbGetWireFee table l.1 l.2 = some row) : row ∉ s.lookedUp := by
  intro hmem
  obtain ⟨-, -, hnone⟩ := lookupCache_miss h.chained hm
  refine hnone row.toWireFeeInfo ?_ (edbGetWireFee_some hrow).2
  rw [h.cached]
  exact List.mem_map_of_mem hmem

/-- After a new period was put at the head, there is a report if and only if it ends before the one
that was first. -/
theorem FeeInv.reports_load (h : FeeInv table s)
    (hm : lookupCache l.2 s.ac.feeHead = .inr (before, after))
    (hrow : edbGetWireFee table l.1 l.2 = some row) :
    (∃ r ∈ (feeStep verify table s l).ac.reports, r.IsFeeTime) ↔
      ∃ first ∈ s.ac.feeHead.head?, row.endDate ≤ first.startDate := by
  rw [feeStep_load h.chained hm hrow, ← checkNeighbours_head l.1]
  constructor
  · rintro ⟨r, hr, hfee⟩
    rcases List.mem_append.mp hr with hr | hr
    · rcases List.mem_append.mp hr with hr | hr
      · exact absurd hfee (h.quiet r hr)
      · exact absurd hfee (checkSignature_quiet row l.2 r hr)
    · exact ⟨r, hr, hfee⟩
  · rintro ⟨r, hr, hfee⟩
    exact ⟨r, List.mem_append_right _ hr, hfee⟩

/-- Only the new period can be in conflict. -/
theorem FeeInv.conflicts_load (h : FeeInv table s)
    (hm : lookupCache l.2 s.ac.feeHead = .inr (before, after))
    (hrow : edbGetWireFee table l.1 l.2 = some row) :
    (∃ a ∈ (feeStep verify table s l).lookedUp, ∃ b ∈ (feeStep verify table s l).lookedUp,
      a.Conflicts b) ↔
      ∃ other ∈ s.lookedUp, other.wireMethod = l.1 ∧ row.Overlaps other.toWireFeeInfo := by
  have hmethod := (edbGetWireFee_some hrow).1
  have hnew := h.not_mem hm hrow
  rw [feeStep_load h.chained hm hrow]
  dsimp only
  constructor
  · rintro ⟨a, ha, b, hb, hab⟩
    obtain ⟨hne, hmeth, hover⟩ := hab
    rcases List.mem_cons.mp ha with rfl | hold <;> rcases List.mem_cons.mp hb with rfl | hold'
    · exact absurd rfl hne
    · exact ⟨b, hold', hmeth.symm.trans hmethod, hover⟩
    · exact ⟨a, hold, hmeth.trans hmethod, hover.2, hover.1⟩
    · exact absurd ⟨hne, hmeth, hover⟩ (h.apart a hold b hold')
  · rintro ⟨b, hb, hmeth, hover⟩
    refine ⟨row, List.mem_cons_self, b, List.mem_cons_of_mem _ hb, ?_⟩
    exact ⟨fun heq => hnew (heq ▸ hb), hmethod.trans hmeth.symm, hover⟩

/-- A period that was looked up starts no earlier than the first one in the list. -/
theorem FeeInv.first_le (h : FeeInv table s) {first : WireFeeInfo}
    (hfirst : first ∈ s.ac.feeHead.head?) {other : WireFeeRow} (ho : other ∈ s.lookedUp) :
    first.startDate ≤ other.startDate := by
  obtain ⟨rest, hhead⟩ := List.head?_eq_some_iff.mp hfirst
  have hmem : other.toWireFeeInfo ∈ s.ac.feeHead := by
    rw [h.cached]
    exact List.mem_map_of_mem ho
  have hchain := h.chained
  rw [hhead] at hmem hchain
  exact hchain.first_le _ hmem

theorem FeeInv.load (h : FeeInv table s)
    (hm : lookupCache l.2 s.ac.feeHead = .inr (before, after))
    (hrow : edbGetWireFee table l.1 l.2 = some row)
    (hanswers : ∀ a ∈ (feeStep verify table s l).answers, a.2 = exchangeFee table a.1)
    (hfirst : ∀ first ∈ s.ac.feeHead.head?,
      row.startDate ≤ first.startDate ∧ first.startDate < row.endDate ∧
        ∀ other ∈ s.lookedUp, other.wireMethod = l.1 → row.endDate ≤ other.startDate) :
    FeeInv table (feeStep verify table s l) := by
  have hstep := @feeStep_load verify table s l before after row h.chained hm hrow
  have hquiet : ¬ ∃ r ∈ (feeStep verify table s l).ac.reports, r.IsFeeTime := by
    rw [h.reports_load hm hrow]
    rintro ⟨first, hf, hle⟩
    have hlt := (hfirst first hf).2.1
    omega
  have hapart : ¬ ∃ a ∈ (feeStep verify table s l).lookedUp,
      ∃ b ∈ (feeStep verify table s l).lookedUp, a.Conflicts b := by
    rw [h.conflicts_load hm hrow]
    rintro ⟨other, ho, hmeth, hover⟩
    cases hhead : s.ac.feeHead.head? with
    | none =>
      have hcached := h.cached
      rw [List.head?_eq_none_iff.mp hhead] at hcached
      rw [List.map_eq_nil_iff.mp hcached.symm] at ho
      exact absurd ho List.not_mem_nil
    | some first =>
      have hle := (hfirst first hhead).2.2 other ho hmeth
      have hlt := hover.2
      omega
  refine ⟨hanswers, ?_, ?_, ?_, ?_, ?_⟩
  · rw [hstep]
    dsimp only
    rw [h.cached, List.map_cons]
  · rw [hstep]
    dsimp only
    cases hhead : s.ac.feeHead with
    | nil => exact List.IsChain.singleton _
    | cons first rest =>
      have hpos := hfirst first (by rw [hhead, List.head?_cons]; rfl)
      refine List.isChain_cons_cons.mpr ⟨⟨hpos.1, hpos.2.1⟩, ?_⟩
      exact hhead ▸ h.chained
  · exact fun r hr hfee => hquiet ⟨r, hr, hfee⟩
  · exact fun a ha b hb hab => hapart ⟨a, ha, b, hb, hab⟩
  · rw [hstep]
    intro a ha
    rcases List.mem_cons.mp ha with rfl | ha
    · have hcov := (edbGetWireFee_some hrow).2
      exact hcov.1.trans_lt hcov.2
    · exact h.proper a ha

/-- A new period that does not fit is out of order, wrongly reported, or not reported. -/
theorem FeeInv.not_transparent_load (h : FeeInv table s)
    (hm : lookupCache l.2 s.ac.feeHead = .inr (before, after))
    (hrow : edbGetWireFee table l.1 l.2 = some row) {first : WireFeeInfo}
    (hfirst : first ∈ s.ac.feeHead.head?)
    (hbad : ¬ (row.startDate ≤ first.startDate ∧ first.startDate < row.endDate ∧
        ∀ other ∈ s.lookedUp, other.wireMethod = l.1 → row.endDate ≤ other.startDate)) :
    ¬ Transparent table (feeStep verify table s l) := by
  intro ht
  have hiff := ht.reports
  rw [h.reports_load hm hrow, h.conflicts_load hm hrow] at hiff
  have hsorted := ht.sorted
  rw [feeStep_load h.chained hm hrow] at hsorted
  have hstart := (List.pairwise_cons.mp hsorted).1 first (List.mem_of_mem_head? hfirst)
  rcases le_or_gt row.endDate first.startDate with hle | hlt
  · -- reported, though nothing of the method lies so early
    obtain ⟨other, ho, -, hover⟩ := hiff.mp ⟨first, hfirst, hle⟩
    have hother := h.first_le hfirst ho
    have hlt := hover.2
    omega
  · -- an overlap that is not reported
    refine hbad ⟨hstart, hlt, fun other ho hmeth => ?_⟩
    by_contra hover
    have hother := h.first_le hfirst ho
    have hproper := h.proper other ho
    have hconf : row.Overlaps other.toWireFeeInfo :=
      ⟨(hstart.trans hother).trans_lt hproper, not_le.mp hover⟩
    obtain ⟨first', hfirst', hle⟩ := hiff.mpr ⟨other, ho, hmeth, hconf⟩
    obtain rfl : first' = first := Option.mem_unique hfirst' hfirst
    omega

end Load

theorem FeeInv.answer (h : FeeInv table s) {fee : Option Amount}
    (hfee : fee = exchangeFee table l) :
    ∀ a ∈ (l, fee) :: s.answers, a.2 = exchangeFee table a.1 := by
  intro a ha
  rcases List.mem_cons.mp ha with rfl | ha
  · exact hfee
  · exact h.answers a ha

/-- **A lookup that fits keeps all well.** -/
theorem feeStep_inv (h : FeeInv table s) (hf : FitsCache table s l) :
    FeeInv table (feeStep verify table s l) := by
  unfold FitsCache at hf
  cases hm : lookupCache l.2 s.ac.feeHead with
  | inl pos =>
    rw [feeStep_hit hm]
    simp only [hm] at hf
    exact ⟨h.answer hf.symm, h.cached, h.chained, h.quiet, h.apart, h.proper⟩
  | inr parts =>
    obtain ⟨before, after⟩ := parts
    cases hrow : edbGetWireFee table l.1 l.2 with
    | none =>
      rw [feeStep_unknown hm hrow]
      have hfee : none = exchangeFee table l := by simp [exchangeFee, hrow]
      exact ⟨h.answer hfee, h.cached, h.chained, h.quiet, h.apart, h.proper⟩
    | some row =>
      simp only [hm] at hf
      have hfee : some row.fees.wire = exchangeFee table l := by simp [exchangeFee, hrow]
      refine h.load hm hrow ?_ (hf row hrow)
      rw [feeStep_load h.chained hm hrow]
      exact h.answer hfee

/-- A lookup that does not fit shows at once. -/
theorem feeStep_wrong (h : FeeInv table s) (hf : ¬ FitsCache table s l) :
    ¬ Transparent table (feeStep verify table s l) := by
  unfold FitsCache at hf
  cases hm : lookupCache l.2 s.ac.feeHead with
  | inl pos =>
    simp only [hm] at hf
    rw [feeStep_hit hm]
    exact fun ht => hf (ht.answers _ List.mem_cons_self).symm
  | inr parts =>
    obtain ⟨before, after⟩ := parts
    simp only [hm, not_forall] at hf
    obtain ⟨row, hrow, first, hfirst, hbad⟩ := hf
    exact h.not_transparent_load hm hrow hfirst hbad

/-! ## Runs -/

/-- **When the cache is transparent.** After every lookup of a sequence, what was returned is what
the exchange has, the list is in order and exactly the conflicts were reported, if and only if every
lookup fits the periods that were cached before. -/
theorem transparent_iff (verify : WireFeeRow → Bool) (table : List WireFeeRow)
    (lookups : List FeeLookup) :
    (∀ pre, pre <+: lookups → Transparent table (run (feeStep verify table) {} pre)) ↔
      Admits (feeStep verify table) (FitsCache table) {} lookups := by
  have hinit : FeeInv table {} := by
    refine ⟨?_, rfl, List.IsChain.nil, ?_, ?_, ?_⟩
    all_goals exact fun _ h => absurd h List.not_mem_nil
  exact throughout_iff (fun s l hf h => feeStep_inv h hf) (fun s h => h.transparent)
    (fun s l h hf => feeStep_wrong h hf) hinit lookups

/-- Two methods with different fees at the same time. -/
def twoMethods : List WireFeeRow :=
  [⟨⟨0, 10, ⟨.whole 1, .whole 0⟩⟩, "iban", 0⟩, ⟨⟨0, 10, ⟨.whole 2, .whole 0⟩⟩, "x-taler-bank", 0⟩]

/-- The fee of the first method is used for the second one. -/
theorem not_transparent :
    ¬ ∀ (verify : WireFeeRow → Bool) (table : List WireFeeRow) (lookups : List FeeLookup),
      Transparent table (run (feeStep verify table) {} lookups) := by
  intro h
  have hanswers := (h (fun _ => true) twoMethods [("iban", 5), ("x-taler-bank", 5)]).answers
    (("x-taler-bank", 5), some (.whole 1)) (by decide)
  exact absurd hanswers (by decide)

/-- Two periods of one method that follow each other: the list is out of order. -/
example : ((run (feeStep (fun _ => true)
      [⟨⟨0, 10, ⟨.whole 1, .whole 0⟩⟩, "iban", 0⟩, ⟨⟨10, 20, ⟨.whole 2, .whole 0⟩⟩, "iban", 0⟩]) {}
      [("iban", 5), ("iban", 15)]).ac.feeHead.map WireFeeInfo.startDate) = [10, 0] := by decide

end TalerExchange
