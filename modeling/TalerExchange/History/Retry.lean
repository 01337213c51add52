import Mathlib.Data.List.ReduceOption
import TalerExchange.Sql.Serial

/-!
# Reading a history again

`TEH_PG_get_coin_transactions` and `TEH_PG_get_reserve_history` read a history in a transaction of
their own, and try again if the database reports a serialization failure. The context with the list
lives outside the loop.

* `HistoryAttempt`: what the database answers in one attempt;
* `HistoryCode`, `historyLoop`: the loop, for a context with its own way to append and to free;
* `Retry.getCoinTransactions`, `Retry.getReserveHistory`: the two functions;
* `HistorySound`: the list is that of the last attempt, and no transaction is left open;
* **`historiesSurvive_iff`**: when it is.
-/

namespace TalerExchange

/-! ## What the database answers -/

/-- Why a query fails. -/
inductive QueryError
  | hard
  | soft
deriving DecidableEq, Repr

/-- What following an entry of the history leads to: the entry cannot be read, its table is not
supported, or a query for rows, of which some may not be readable. -/
inductive EntryRead (α : Type)
  | unreadable
  | unsupported
  | followed (rows : Except QueryError (List (Option α)))

/-- The answers in one attempt: to the start of the transaction, to the query for the latest entry,
to the query for the entries with the queries that follow them, and to the commit. -/
structure HistoryAttempt (α β : Type) where
  started : Bool
  latest : Except QueryError (Option (ℕ × β))
  entries : Except QueryError (List (EntryRead α))
  commit : Except QueryError Unit

/-! ## The loop -/

/-- How the context takes an entry, `none` if it writes to an element that was freed; how it is freed
after a commit that failed; the list it holds; and how the rows are visited. -/
structure HistoryCode (σ α : Type) where
  start : σ
  append : σ → α → Option σ
  free : σ → σ
  list : σ → List α
  backwards : Bool
  emptyFails : Bool

/-- `RETRIES`. -/
def retries : ℕ := 3

/-- What the functions return, with `rhp` or `tlp`, the latest entry, and whether the transaction
that they have started is open. -/
structure HistoryResult (α β : Type) where
  status : QueryStatus
  list : List α
  latest : Option (ℕ × β)
  transactionOpen : Bool

namespace HistoryCode

variable {σ α β τ : Type} (c : HistoryCode σ α)

/-- The rows of a result in the order in which they are visited. -/
def visit (l : List τ) : List τ := if c.backwards then l.reverse else l

/-- The functions over the rows that an entry leads to; the flag is `failed`. -/
def addRows : σ → List (Option α) → Option (σ × Bool)
  | s, [] => some (s, false)
  | s, none :: _ => some (s, true)
  | s, some x :: rows => (c.append s x).bind fun s => addRows s rows

/-- `handle_history_entry`. -/
def handleHistoryEntry : σ → List (EntryRead α) → Option (σ × Bool)
  | s, [] => some (s, false)
  | s, .unreadable :: _ => some (s, true)
  | s, .unsupported :: _ => some (s, true)
  | s, .followed (.error _) :: _ => some (s, true)
  | s, .followed (.ok rows) :: entries =>
    (c.addRows s (c.visit rows)).bind fun (s, failed) =>
      if failed || (c.emptyFails && rows.isEmpty) then some (s, true)
      else handleHistoryEntry s entries

end HistoryCode

/-- The loop over the attempts. -/
def historyLoop {σ α β : Type} (c : HistoryCode σ α) (beginTransaction : Bool) (etagIn : ℕ) :
    σ → Option (ℕ × β) → List (HistoryAttempt α β) → Option (HistoryResult α β)
  | _, out, [] => some ⟨.softError, [], out, false⟩
  | s, out, a :: attempts =>
    if beginTransaction && !a.started then some ⟨.hardError, [], out, false⟩
    else match a.latest with
      | .error .hard => some ⟨.hardError, [], out, false⟩
      | .error .soft => historyLoop c beginTransaction etagIn s out attempts
      | .ok none => some ⟨.noResults, [], out, false⟩
      | .ok (some latest) =>
        -- the one exit without a rollback
        if latest.1 = etagIn then some ⟨.oneResult, [], some latest, beginTransaction⟩
        else match a.entries with
          | .error .hard => some ⟨.hardError, [], some latest, false⟩
          | .error .soft => historyLoop c beginTransaction etagIn s (some latest) attempts
          | .ok rows =>
            (c.handleHistoryEntry s (c.visit rows)).bind fun (s, failed) =>
              if failed then some ⟨.softError, [], some latest, false⟩
              else if !beginTransaction then some ⟨.oneResult, c.list s, some latest, false⟩
              else match a.commit with
                | .error .hard => some ⟨.hardError, [], some latest, false⟩
                | .error .soft =>
                  historyLoop c beginTransaction etagIn (c.free s) (some latest) attempts
                | .ok () => some ⟨.oneResult, c.list s, some latest, false⟩

/-- What the database answers in the attempts that there are. -/
def attempts {α β : Type} (answers : ℕ → HistoryAttempt α β) : List (HistoryAttempt α β) :=
  (List.range retries).map answers

/-! ## The two functions -/

/-- `struct CoinHistoryContext`: new elements become the head, and the head is reset. -/
def coinHistory (α : Type) : HistoryCode (List α) α where
  start := []
  append head x := some (x :: head)
  free _ := []
  list head := head
  backwards := false
  emptyFails := false

/-- The tail pointer: null, the last element of the list, or an element that was freed. -/
inductive TailPointer
  | null
  | last
  | freed
deriving DecidableEq, Repr

/-- `struct ReserveHistoryContext`; the sums, which nothing reads, are left out. -/
structure ReserveHistoryContext (α : Type) where
  rh : List α
  rhTail : TailPointer

/-- `append_rh`. -/
def appendRh {α : Type} (s : ReserveHistoryContext α) (x : α) : Option (ReserveHistoryContext α) :=
  match s.rhTail with
  | .null => some ⟨[x], .last⟩
  | .last => some ⟨s.rh ++ [x], .last⟩
  | .freed => none

/-- The list is freed and its head reset, the tail is not. -/
def freeReserveHistory {α : Type} (s : ReserveHistoryContext α) : ReserveHistoryContext α :=
  ⟨[], if s.rhTail = .last then .freed else s.rhTail⟩

/-- The code of `TEH_PG_get_reserve_history`. -/
def reserveHistory (α : Type) : HistoryCode (ReserveHistoryContext α) α where
  start := ⟨[], .null⟩
  append := appendRh
  free := freeReserveHistory
  list s := s.rh
  backwards := true
  emptyFails := true

namespace Retry

variable {α β : Type}

/-- `TEH_PG_get_coin_transactions`. -/
def getCoinTransactions (beginTransaction : Bool) (etagIn : ℕ) (answers : ℕ → HistoryAttempt α β) :
    Option (HistoryResult α β) :=
  historyLoop (coinHistory α) beginTransaction etagIn (coinHistory α).start none (attempts answers)

/-- `TEH_PG_get_reserve_history`. -/
def getReserveHistory (etagIn : ℕ) (answers : ℕ → HistoryAttempt α β) :
    Option (HistoryResult α β) :=
  historyLoop (reserveHistory α) true etagIn (reserveHistory α).start none (attempts answers)

end Retry

/-! ## What is to hold -/

section Spec

variable {σ α β : Type} (c : HistoryCode σ α) (beginTransaction : Bool) (etagIn : ℕ)

/-- The rows that an entry leads to. -/
def EntryRead.rows : EntryRead α → List α
  | .followed (.ok rows) => rows.reduceOption
  | _ => []

/-- The entry is read completely. -/
def EntryRead.readable (emptyFails : Bool) : EntryRead α → Bool
  | .followed (.ok rows) => rows.all Option.isSome && !(emptyFails && rows.isEmpty)
  | _ => false

/-- The list for the entries of a query, which returns the latest first. -/
def historyOf (entries : List (EntryRead α)) : List α := (entries.flatMap EntryRead.rows).reverse

/-- The commit reports a serialization failure. -/
def commitLost : Except QueryError Unit → Bool
  | .error .soft => true
  | _ => false

namespace HistoryAttempt

variable (a : HistoryAttempt α β)

/-- The latest entry is the one that the client knows. -/
def unchanged : Bool :=
  (!beginTransaction || a.started) && match a.latest with
    | .ok (some latest) => latest.1 = etagIn
    | _ => false

/-- The entries, if the attempt gets to them. -/
def reads : Option (List (EntryRead α)) :=
  if beginTransaction && !a.started then none
  else match a.latest, a.entries with
    | .ok (some latest), .ok entries => if latest.1 = etagIn then none else some entries
    | _, _ => none

/-- A serialization failure calls for another attempt: of one of the two queries, or of the commit
after everything was read. -/
def goesOn (emptyFails : Bool) : Bool :=
  (!beginTransaction || a.started) && match a.latest with
    | .error .soft => true
    | .ok (some latest) => !decide (latest.1 = etagIn) && match a.entries with
      | .error .soft => true
      | .ok entries => entries.all (·.readable emptyFails) && beginTransaction && commitLost a.commit
      | _ => false
    | _ => false

end HistoryAttempt

/-- The attempt after which there is no other. -/
def lastAttempt : List (HistoryAttempt α β) → Option (HistoryAttempt α β)
  | [] => none
  | a :: attempts =>
    if a.goesOn beginTransaction etagIn c.emptyFails then lastAttempt attempts else some a

/-- The function returns with its transaction closed, and with the list of the last attempt unless
the history is unchanged. -/
def HistorySound (attempts : List (HistoryAttempt α β)) (o : Option (HistoryResult α β)) : Prop :=
  ∃ r, o = some r ∧ r.transactionOpen = false ∧
    (r.status = .oneResult → r.latest.map Prod.fst ≠ some etagIn →
      ∃ a entries, lastAttempt c beginTransaction etagIn attempts = some a ∧
        a.entries = .ok entries ∧ r.list = historyOf entries)

end Spec

/-! ## What is read -/

/-- The rows up to the first that cannot be read, and whether there is one. -/
def readUntil {α : Type} : List (Option α) → List α × Bool
  | [] => ([], false)
  | none :: _ => ([], true)
  | some x :: rows => (x :: (readUntil rows).1, (readUntil rows).2)

namespace HistoryCode

variable {σ α β : Type} (c : HistoryCode σ α)

/-- The rows that are appended, up to the first failure, and whether there is one. -/
def visited : List (EntryRead α) → List α × Bool
  | [] => ([], false)
  | .followed (.ok rows) :: entries =>
    if (readUntil (c.visit rows)).2 || (c.emptyFails && rows.isEmpty) then
      ((readUntil (c.visit rows)).1, true)
    else ((readUntil (c.visit rows)).1 ++ (visited entries).1, (visited entries).2)
  | _ :: _ => ([], true)

/-- Rows appended one after the other. -/
def appendAll : σ → List α → Option σ
  | s, [] => some s
  | s, x :: l => (c.append s x).bind fun s => appendAll s l

variable {c}

theorem appendAll_append (s : σ) (l l' : List α) :
    c.appendAll s (l ++ l') = (c.appendAll s l).bind fun s => c.appendAll s l' := by
  induction l generalizing s with
  | nil => rfl
  | cons x l ih =>
    simp only [List.cons_append, appendAll, ih, Option.bind_assoc]

theorem addRows_eq (s : σ) (rows : List (Option α)) :
    c.addRows s rows = (c.appendAll s (readUntil rows).1).map (·, (readUntil rows).2) := by
  induction rows generalizing s with
  | nil => rfl
  | cons x rows ih =>
    cases x with
    | none => rfl
    | some x =>
      simp only [addRows, readUntil, appendAll, ih, Option.map_bind]
      rfl

theorem handleHistoryEntry_eq (s : σ) (entries : List (EntryRead α)) :
    c.handleHistoryEntry s entries =
      (c.appendAll s (c.visited entries).1).map (·, (c.visited entries).2) := by
  induction entries generalizing s with
  | nil => rfl
  | cons e entries ih =>
    match e with
    | .unreadable => rfl
    | .unsupported => rfl
    | .followed (.error _) => rfl
    | .followed (.ok rows) =>
      rw [handleHistoryEntry, visited, addRows_eq]
      cases hfail : (readUntil (c.visit rows)).2 || (c.emptyFails && rows.isEmpty) with
      | true =>
        rw [if_pos rfl]
        cases c.appendAll s (readUntil (c.visit rows)).1 with
        | none => rfl
        | some t => simp only [Option.map_some, Option.bind_some, hfail, if_true]
      | false =>
        rw [if_neg (by simp), appendAll_append]
        cases c.appendAll s (readUntil (c.visit rows)).1 with
        | none => rfl
        | some t =>
          simp only [Option.map_some, Option.bind_some, hfail, Bool.false_eq_true, if_false, ih]

theorem readUntil_of_readable {rows : List (Option α)} (h : rows.all Option.isSome = true) :
    readUntil rows = (rows.reduceOption, false) := by
  induction rows with
  | nil => rfl
  | cons x rows ih =>
    rw [List.all_cons, Bool.and_eq_true] at h
    obtain ⟨hx, h⟩ := h
    obtain ⟨y, rfl⟩ := Option.isSome_iff_exists.mp hx
    rw [readUntil, ih h, List.reduceOption_cons_of_some]

theorem readUntil_snd (rows : List (Option α)) :
    (readUntil rows).2 = !rows.all Option.isSome := by
  induction rows with
  | nil => rfl
  | cons x rows ih => cases x <;> simp [readUntil, ih]

theorem all_visit (p : β → Bool) (l : List β) : (c.visit l).all p = l.all p := by
  unfold visit
  split
  · exact List.all_reverse
  · rfl

theorem reduceOption_visit (l : List (Option β)) :
    (c.visit l).reduceOption = c.visit l.reduceOption := by
  unfold visit
  split
  · exact List.filterMap_reverse
  · rfl

/-- A failure is an entry that is not read completely. -/
theorem visited_snd (entries : List (EntryRead α)) :
    (c.visited entries).2 = !entries.all (·.readable c.emptyFails) := by
  induction entries with
  | nil => rfl
  | cons e entries ih =>
    match e with
    | .unreadable => rfl
    | .unsupported => rfl
    | .followed (.error _) => rfl
    | .followed (.ok rows) =>
      rw [visited, List.all_cons, EntryRead.readable, readUntil_snd, all_visit]
      cases hrows : rows.all Option.isSome with
      | false => rfl
      | true =>
        cases hempty : c.emptyFails && rows.isEmpty with
        | true => rfl
        | false => exact ih

theorem visited_fst {entries : List (EntryRead α)}
    (h : entries.all (·.readable c.emptyFails) = true) :
    (c.visited entries).1 = entries.flatMap fun e => c.visit e.rows := by
  induction entries with
  | nil => rfl
  | cons e entries ih =>
    rw [List.all_cons, Bool.and_eq_true] at h
    obtain ⟨he, h⟩ := h
    match e, he with
    | .followed (.ok rows), he =>
      rw [EntryRead.readable, Bool.and_eq_true, Bool.not_eq_true'] at he
      rw [visited, readUntil_of_readable ((all_visit _ rows).trans he.1), he.2, List.flatMap_cons,
        ← ih h, EntryRead.rows, reduceOption_visit]
      rfl

/-- **What is appended** when all is read: the history, backwards for one that is built from its
head. -/
theorem visited_visit {entries : List (EntryRead α)}
    (h : entries.all (·.readable c.emptyFails) = true) :
    (c.visited (c.visit entries)).1 =
      if c.backwards then historyOf entries else (historyOf entries).reverse := by
  rw [visited_fst ((all_visit _ entries).trans h)]
  unfold visit historyOf
  split
  · rw [List.reverse_flatMap]
    rfl
  · rw [List.reverse_reverse]

/-! ## The condition -/

/-- What the two contexts have in common: `state false` is a fresh one, `state true` one whose tail
was freed, and only a code that keeps its tail gets there. -/
structure Lawful (c : HistoryCode σ α) (keepsTail : Bool) (state : Bool → σ) : Prop where
  start : state false = c.start
  fresh : ∀ l, ∃ s, c.appendAll (state false) l = some s ∧
    c.list s = (if c.backwards then l else l.reverse) ∧ c.free s = state (keepsTail && !l.isEmpty)
  freed : ∀ l, keepsTail = true → l ≠ [] → c.appendAll (state true) l = none
  freed_list : keepsTail = true → c.list (state true) = []
  freed_free : keepsTail = true → c.free (state true) = state true

end HistoryCode

section Condition

variable {σ α β : Type} (c : HistoryCode σ α) (keepsTail beginTransaction : Bool) (etagIn : ℕ)

/-- The attempt appends an entry. -/
def HistoryAttempt.appends (a : HistoryAttempt α β) : Bool :=
  match a.reads beginTransaction etagIn with
  | none => false
  | some entries => !(c.visited (c.visit entries)).1.isEmpty

/-- No attempt of the function's own transaction finds the history unchanged, and none appends after
one that has appended and lost at its commit, if the tail is kept. -/
def Survives : Bool → List (HistoryAttempt α β) → Prop
  | _, [] => True
  | freed, a :: attempts =>
    ¬ (beginTransaction = true ∧ a.unchanged beginTransaction etagIn = true) ∧
      ¬ (freed = true ∧ a.appends c beginTransaction etagIn = true) ∧
      (a.goesOn beginTransaction etagIn c.emptyFails = true →
        Survives (freed || (keepsTail && a.appends c beginTransaction etagIn)) attempts)

end Condition

section Loop

variable {σ α β : Type} {c : HistoryCode σ α} {keepsTail beginTransaction : Bool} {etagIn : ℕ}
  {state : Bool → σ} {freed : Bool}

/-- Reading the entries in a fresh context, or in one whose tail was freed. -/
theorem HistoryCode.Lawful.handle (hc : c.Lawful keepsTail state)
    (hf : freed = true → keepsTail = true) (entries : List (EntryRead α)) :
    (freed = true ∧ (c.visited (c.visit entries)).1 ≠ [] ∧
      c.handleHistoryEntry (state freed) (c.visit entries) = none) ∨
    ¬ (freed = true ∧ (c.visited (c.visit entries)).1 ≠ []) ∧ ∃ s,
      c.handleHistoryEntry (state freed) (c.visit entries) =
        some (s, !entries.all (·.readable c.emptyFails)) ∧
      (entries.all (·.readable c.emptyFails) = true → c.list s = historyOf entries) ∧
      c.free s = state (freed || (keepsTail && !(c.visited (c.visit entries)).1.isEmpty)) := by
  have hflag : (c.visited (c.visit entries)).2 = !entries.all (·.readable c.emptyFails) := by
    rw [HistoryCode.visited_snd, HistoryCode.all_visit]
  rw [HistoryCode.handleHistoryEntry_eq, hflag]
  cases freed with
  | false =>
    obtain ⟨s, happend, hlist, hfree⟩ := hc.fresh (c.visited (c.visit entries)).1
    refine Or.inr ⟨fun h => Bool.noConfusion h.1, s, by rw [happend]; rfl, fun hread => ?_, hfree⟩
    rw [hlist, HistoryCode.visited_visit hread]
    split
    · rfl
    · rw [List.reverse_reverse]
  | true =>
    rcases eq_or_ne (c.visited (c.visit entries)).1 [] with hnone | hsome
    · refine Or.inr ⟨fun h => h.2 hnone, state true, by rw [hnone]; rfl, fun hread => ?_,
        hc.freed_free (hf rfl)⟩
      have hhistory := HistoryCode.visited_visit hread
      rw [hnone] at hhistory
      rw [hc.freed_list (hf rfl)]
      split at hhistory
      · exact hhistory
      · exact (List.reverse_eq_nil_iff.mp hhistory.symm).symm
    · exact Or.inl ⟨rfl, hsome, by rw [hc.freed _ (hf rfl) hsome]; rfl⟩

/-- Any other status than success is sound once the transaction is closed. -/
theorem historySound_of_ne {attempts : List (HistoryAttempt α β)} {status : QueryStatus}
    {out : Option (ℕ × β)} (h : status ≠ .oneResult) :
    HistorySound c beginTransaction etagIn attempts (some ⟨status, [], out, false⟩) :=
  ⟨_, rfl, rfl, fun hone => absurd hone h⟩

theorem historySound_goesOn {a : HistoryAttempt α β} {attempts : List (HistoryAttempt α β)}
    (h : a.goesOn beginTransaction etagIn c.emptyFails = true) (o : Option (HistoryResult α β)) :
    HistorySound c beginTransaction etagIn (a :: attempts) o ↔
      HistorySound c beginTransaction etagIn attempts o := by
  unfold HistorySound
  rw [lastAttempt, if_pos h]

/-- An attempt that neither goes on nor appends, and does not find the history unchanged. -/
theorem survives_of_ends {a : HistoryAttempt α β} {attempts : List (HistoryAttempt α β)}
    (hunchanged : a.unchanged beginTransaction etagIn = false)
    (happends : a.appends c beginTransaction etagIn = false)
    (hends : a.goesOn beginTransaction etagIn c.emptyFails = false) :
    Survives c keepsTail beginTransaction etagIn freed (a :: attempts) := by
  refine ⟨fun h => ?_, fun h => ?_, fun h => ?_⟩
  · rw [hunchanged] at h
    exact Bool.noConfusion h.2
  · rw [happends] at h
    exact Bool.noConfusion h.2
  · rw [hends] at h
    exact Bool.noConfusion h

/-- An attempt that goes on without having appended anything. -/
theorem survives_goesOn {a : HistoryAttempt α β} {attempts : List (HistoryAttempt α β)}
    (hunchanged : a.unchanged beginTransaction etagIn = false)
    (happends : a.appends c beginTransaction etagIn = false)
    (hon : a.goesOn beginTransaction etagIn c.emptyFails = true) :
    Survives c keepsTail beginTransaction etagIn freed (a :: attempts) ↔
      Survives c keepsTail beginTransaction etagIn freed attempts := by
  rw [Survives, hunchanged, happends, hon, Bool.and_false, Bool.or_false]
  exact ⟨fun h => h.2.2 rfl, fun h => ⟨fun h => Bool.noConfusion h.2, fun h => Bool.noConfusion h.2,
    fun _ => h⟩⟩

/-- The attempt that gets to the entries. -/
theorem historyLoop_entries {attempts : List (HistoryAttempt α β)} {latest : ℕ × β}
    {started : Bool} {entries : List (EntryRead α)} (hc : c.Lawful keepsTail state)
    (hf : freed = true → keepsTail = true) (hstart : (beginTransaction && !started) = false)
    (hetag : ¬ latest.1 = etagIn)
    (ih : ∀ {freed : Bool}, (freed = true → keepsTail = true) → ∀ out : Option (ℕ × β),
      HistorySound c beginTransaction etagIn attempts
          (historyLoop c beginTransaction etagIn (state freed) out attempts) ↔
        Survives c keepsTail beginTransaction etagIn freed attempts)
    (commit : Except QueryError Unit) :
    HistorySound c beginTransaction etagIn
        (⟨started, .ok (some latest), .ok entries, commit⟩ :: attempts)
        ((c.handleHistoryEntry (state freed) (c.visit entries)).bind fun (s, failed) =>
          if failed then some ⟨.softError, [], some latest, false⟩
          else if !beginTransaction then some ⟨.oneResult, c.list s, some latest, false⟩
          else match commit with
            | .error .hard => some ⟨.hardError, [], some latest, false⟩
            | .error .soft =>
              historyLoop c beginTransaction etagIn (c.free s) (some latest) attempts
            | .ok () => some ⟨.oneResult, c.list s, some latest, false⟩) ↔
      Survives c keepsTail beginTransaction etagIn freed
        (⟨started, .ok (some latest), .ok entries, commit⟩ :: attempts) := by
  have hstarted : (!beginTransaction || started) = true := by
    rw [← Bool.not_not started, ← Bool.not_and, hstart]
    rfl
  have hunchanged : HistoryAttempt.unchanged beginTransaction etagIn
      (⟨started, .ok (some latest), .ok entries, commit⟩ : HistoryAttempt α β) = false := by
    simp [HistoryAttempt.unchanged, hetag]
  have happends : HistoryAttempt.appends c beginTransaction etagIn
      (⟨started, .ok (some latest), .ok entries, commit⟩ : HistoryAttempt α β) =
        !(c.visited (c.visit entries)).1.isEmpty := by
    simp [HistoryAttempt.appends, HistoryAttempt.reads, hstart, hetag]
  have hon : HistoryAttempt.goesOn beginTransaction etagIn
      (⟨started, .ok (some latest), .ok entries, commit⟩ : HistoryAttempt α β) c.emptyFails =
        (entries.all (·.readable c.emptyFails) && beginTransaction && commitLost commit) := by
    simp only [HistoryAttempt.goesOn, hstarted, hetag, Bool.true_and, decide_false, Bool.not_false]
  rcases hc.handle hf entries with ⟨hfreed, hsome, hnone⟩ | ⟨hok, s, hhandle, hlist, hfree⟩
  · rw [hnone]
    refine iff_of_false (fun ⟨r, hr, _⟩ => (nomatch hr)) fun h => h.2.1 ⟨hfreed, ?_⟩
    rw [happends]
    simpa using hsome
  have hkept : ¬ (freed = true ∧ HistoryAttempt.appends c beginTransaction etagIn
      (⟨started, .ok (some latest), .ok entries, commit⟩ : HistoryAttempt α β) = true) := by
    rw [happends]
    simpa using hok
  have hends : (entries.all (·.readable c.emptyFails) && beginTransaction && commitLost commit) =
      false → Survives c keepsTail beginTransaction etagIn freed
        (⟨started, .ok (some latest), .ok entries, commit⟩ :: attempts) := by
    intro hfalse
    refine ⟨fun h => ?_, hkept, fun h => ?_⟩
    · rw [hunchanged] at h
      exact Bool.noConfusion h.2
    · rw [hon, hfalse] at h
      exact Bool.noConfusion h
  rw [hhandle, Option.bind_some]
  cases hread : entries.all (·.readable c.emptyFails) with
  | false =>
    rw [hread] at hends
    exact iff_of_true (historySound_of_ne (by decide)) (hends rfl)
  | true =>
    rw [hread] at hends hon hlist
    have hlast : (HistoryAttempt.goesOn beginTransaction etagIn
        (⟨started, .ok (some latest), .ok entries, commit⟩ : HistoryAttempt α β) c.emptyFails =
          false) → HistorySound c beginTransaction etagIn
        (⟨started, .ok (some latest), .ok entries, commit⟩ :: attempts)
        (some ⟨.oneResult, c.list s, some latest, false⟩) := fun hfalse =>
      ⟨_, rfl, rfl, fun _ _ => ⟨_, entries, if_neg (by rw [hfalse]; exact Bool.noConfusion), rfl,
        hlist rfl⟩⟩
    cases beginTransaction with
    | false => exact iff_of_true (hlast hon) (hends rfl)
    | true =>
      match commit with
      | .error .hard => exact iff_of_true (historySound_of_ne (by decide)) (hends rfl)
      | .ok () => exact iff_of_true (hlast hon) (hends rfl)
      | .error .soft =>
        simp only [Bool.not_true, Bool.false_eq_true, if_false]
        have hfreed : (freed || (keepsTail && !(c.visited (c.visit entries)).1.isEmpty)) = true →
            keepsTail = true := by
          intro h
          rcases Bool.or_eq_true_iff.mp h with h | h
          · exact hf h
          · exact (Bool.and_eq_true_iff.mp h).1
        rw [hfree, historySound_goesOn hon, ih hfreed, Survives, happends]
        refine ⟨fun h => ⟨fun h => ?_, ?_, fun _ => h⟩, fun h => h.2.2 hon⟩
        · rw [hunchanged] at h
          exact Bool.noConfusion h.2
        · rw [← happends]
          exact hkept

/-- **The loop**, from a fresh context or one whose tail was freed. -/
theorem historyLoop_sound_iff (hc : c.Lawful keepsTail state) (hf : freed = true → keepsTail = true)
    (out : Option (ℕ × β)) (attempts : List (HistoryAttempt α β)) :
    HistorySound c beginTransaction etagIn attempts
        (historyLoop c beginTransaction etagIn (state freed) out attempts) ↔
      Survives c keepsTail beginTransaction etagIn freed attempts := by
  induction attempts generalizing freed out with
  | nil => exact iff_of_true (historySound_of_ne (by decide)) trivial
  | cons a attempts ih =>
    unfold historyLoop
    cases hstart : beginTransaction && !a.started with
    | true =>
      have hnot : (!beginTransaction || a.started) = false := by
        rw [← Bool.not_not a.started, ← Bool.not_and, hstart]
        rfl
      refine iff_of_true (historySound_of_ne (by decide)) (survives_of_ends ?_ ?_ ?_)
      · rw [HistoryAttempt.unchanged, hnot, Bool.false_and]
      · rw [HistoryAttempt.appends, HistoryAttempt.reads, hstart]
        rfl
      · rw [HistoryAttempt.goesOn, hnot, Bool.false_and]
    | false =>
      have hstarted : (!beginTransaction || a.started) = true := by
        rw [← Bool.not_not a.started, ← Bool.not_and, hstart]
        rfl
      rw [if_neg (by simp)]
      obtain ⟨started, latest, entries, commit⟩ := a
      simp only at hstart hstarted ⊢
      match latest with
      | .error .hard =>
        refine iff_of_true (historySound_of_ne (by decide)) (survives_of_ends ?_ ?_ ?_) <;>
          simp [HistoryAttempt.unchanged, HistoryAttempt.appends, HistoryAttempt.reads,
            HistoryAttempt.goesOn]
      | .error .soft =>
        rw [historySound_goesOn (by simp [HistoryAttempt.goesOn, hstarted]), ih hf out,
          survives_goesOn] <;>
          simp [HistoryAttempt.unchanged, HistoryAttempt.appends, HistoryAttempt.reads,
            HistoryAttempt.goesOn, hstarted]
      | .ok none =>
        refine iff_of_true (historySound_of_ne (by decide)) (survives_of_ends ?_ ?_ ?_) <;>
          simp [HistoryAttempt.unchanged, HistoryAttempt.appends, HistoryAttempt.reads,
            HistoryAttempt.goesOn]
      | .ok (some latest) =>
        by_cases hetag : latest.1 = etagIn
        · -- the exit without a rollback
          simp only [if_pos hetag]
          cases beginTransaction with
          | true =>
            refine iff_of_false (fun ⟨r, hr, hopen, _⟩ => ?_) fun h => h.1 ⟨rfl, ?_⟩
            · cases hr
              cases hopen
            · have hyes : started = true := by simpa using hstarted
              simp [HistoryAttempt.unchanged, hyes, hetag]
          | false =>
            refine iff_of_true ⟨_, rfl, rfl, fun _ h => absurd (congrArg some hetag) h⟩
              ⟨fun h => Bool.noConfusion h.1, fun h => ?_, fun h => ?_⟩
            · have hnone := h.2
              cases entries <;>
                simp [HistoryAttempt.appends, HistoryAttempt.reads, hetag] at hnone
            · simp [HistoryAttempt.goesOn, hetag] at h
        · simp only [if_neg hetag]
          match entries with
          | .error .hard =>
            refine iff_of_true (historySound_of_ne (by decide)) (survives_of_ends ?_ ?_ ?_) <;>
              simp [HistoryAttempt.unchanged, HistoryAttempt.appends, HistoryAttempt.reads,
                HistoryAttempt.goesOn, hetag]
          | .error .soft =>
            rw [historySound_goesOn (by simp [HistoryAttempt.goesOn, hstarted, hetag]),
              ih hf (some latest), survives_goesOn] <;>
              simp [HistoryAttempt.unchanged, HistoryAttempt.appends, HistoryAttempt.reads,
                HistoryAttempt.goesOn, hstarted, hetag]
          | .ok entries => exact historyLoop_entries hc hf hstart hetag ih commit

end Loop

/-! ## The two functions -/

theorem lawful_coinHistory (α : Type) : (coinHistory α).Lawful false fun _ => [] where
  start := rfl
  fresh l := by
    have happend : ∀ head : List α, (coinHistory α).appendAll head l = some (l.reverse ++ head) := by
      induction l with
      | nil => exact fun _ => rfl
      | cons x l ih =>
        intro head
        rw [HistoryCode.appendAll, List.reverse_cons, List.append_assoc]
        exact ih (x :: head)
    exact ⟨l.reverse, (happend []).trans (by rw [List.append_nil]), rfl, rfl⟩
  freed _ h := Bool.noConfusion h
  freed_list h := Bool.noConfusion h
  freed_free h := Bool.noConfusion h

theorem lawful_reserveHistory (α : Type) : (reserveHistory α).Lawful true
    fun freed => ⟨[], if freed then .freed else .null⟩ where
  start := rfl
  fresh l := by
    have happend : ∀ l rh : List α, (reserveHistory α).appendAll ⟨rh, .last⟩ l =
        some ⟨rh ++ l, .last⟩ := by
      intro l
      induction l with
      | nil =>
        intro rh
        rw [List.append_nil]
        rfl
      | cons x l ih =>
        intro rh
        have h := ih (rh ++ [x])
        rw [List.append_assoc] at h
        exact h
    cases l with
    | nil => exact ⟨_, rfl, rfl, rfl⟩
    | cons x l => exact ⟨_, happend l [x], rfl, rfl⟩
  freed l _ h := by
    cases l with
    | nil => exact absurd rfl h
    | cons x l => rfl
  freed_list _ := rfl
  freed_free _ := rfl

/-- **When histories survive retries.** Both functions leave their transaction open when the history
is unchanged; the reserve's also writes to the element that it freed when a commit failed. -/
theorem historiesSurvive_iff {α β γ δ : Type} (beginTransaction : Bool) (etagIn etagIn' : ℕ)
    (answers : ℕ → HistoryAttempt α β) (answers' : ℕ → HistoryAttempt γ δ) :
    (HistorySound (coinHistory α) beginTransaction etagIn (attempts answers)
        (Retry.getCoinTransactions beginTransaction etagIn answers) ↔
      Survives (coinHistory α) false beginTransaction etagIn false (attempts answers)) ∧
    (HistorySound (reserveHistory γ) true etagIn' (attempts answers')
        (Retry.getReserveHistory etagIn' answers') ↔
      Survives (reserveHistory γ) true true etagIn' false (attempts answers')) :=
  ⟨historyLoop_sound_iff (lawful_coinHistory α) (show false = true → false = true from id) none _,
    historyLoop_sound_iff (lawful_reserveHistory γ)
      (show false = true → true = true from fun _ => rfl) none _⟩

/-- An attempt that finds one entry, the latest of which is `7`. -/
def sampleAttempt (commit : Except QueryError Unit) : HistoryAttempt ℕ Unit :=
  ⟨true, .ok (some (7, ())), .ok [.followed (.ok [some 1])], commit⟩

/-- The client knows the latest entry; the first commit fails. -/
theorem not_historiesSurvive :
    ¬ HistorySound (coinHistory ℕ) true 7 (attempts fun _ => sampleAttempt (.ok ()))
        (Retry.getCoinTransactions true 7 fun _ => sampleAttempt (.ok ())) ∧
      ¬ HistorySound (reserveHistory ℕ) true 7 (attempts fun _ => sampleAttempt (.ok ()))
        (Retry.getReserveHistory 7 fun _ => sampleAttempt (.ok ())) ∧
      ¬ HistorySound (reserveHistory ℕ) true 0
        (attempts fun i => sampleAttempt (if i = 0 then .error .soft else .ok ()))
        (Retry.getReserveHistory 0 fun i =>
          sampleAttempt (if i = 0 then .error .soft else .ok ())) := by
  refine ⟨fun ⟨r, hr, hopen, _⟩ => ?_, fun ⟨r, hr, hopen, _⟩ => ?_, fun ⟨r, hr, _⟩ => ?_⟩
  · cases hr
    cases hopen
  · cases hr
    cases hopen
  · cases hr

end TalerExchange
