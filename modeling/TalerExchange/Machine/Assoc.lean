import Mathlib.Data.List.Sort
import Mathlib.Data.List.Nodup
import Mathlib.Tactic.SplitIfs

/-!
# Association lists

A hash table that remembers the order of insertion, as the list of its entries.

* `Assoc.get`, `Assoc.set`, `Assoc.del`, with the lookups afterwards;
* `Assoc.Keyed`: no key occurs twice; `keyed_set`, `keyed_del`;
* `mem_iff_get`, `perm_of_get`: a table is known by its lookups;
* **`sortKeys_congr`**: and so is the table in the order of its keys.
-/

namespace TalerExchange

namespace Assoc

variable {K α β : Type} [DecidableEq K]

/-- The value of a key. -/
def get : List (K × α) → K → Option α
  | [], _ => none
  | (k, v) :: l, x => if k = x then some v else get l x

/-- A new value for a key, at its place if it has one already. -/
def set : List (K × α) → K → α → List (K × α)
  | [], x, a => [(x, a)]
  | (k, v) :: l, x, a => if k = x then (x, a) :: l else (k, v) :: set l x a

/-- Without a key. -/
def del (l : List (K × α)) (x : K) : List (K × α) := l.filter (·.1 ≠ x)

@[simp] theorem get_nil (x : K) : get ([] : List (K × α)) x = none := rfl

@[simp] theorem get_cons (k x : K) (v : α) (l : List (K × α)) :
    get ((k, v) :: l) x = if k = x then some v else get l x := rfl

@[simp] theorem get_set (l : List (K × α)) (x y : K) (a : α) :
    get (set l x a) y = if x = y then some a else get l y := by
  induction l with
  | nil => rfl
  | cons e l ih =>
    obtain ⟨k, v⟩ := e
    unfold set
    by_cases hk : k = x
    · rw [if_pos hk, get_cons, get_cons, hk]
      split_ifs <;> rfl
    · rw [if_neg hk, get_cons, get_cons, ih]
      by_cases hx : x = y
      · rw [if_pos hx, if_neg (fun h => hk (h.trans hx.symm)), if_pos hx]
      · rw [if_neg hx, if_neg hx]

@[simp] theorem get_del (l : List (K × α)) (x y : K) :
    get (del l x) y = if x = y then none else get l y := by
  induction l with
  | nil =>
    change none = _
    split_ifs <;> rfl
  | cons e l ih =>
    obtain ⟨k, v⟩ := e
    by_cases hk : k = x
    · have hdel : del ((k, v) :: l) x = del l x := List.filter_cons_of_neg (by simp [hk])
      rw [hdel, ih, get_cons, hk]
      split_ifs <;> rfl
    · have hdel : del ((k, v) :: l) x = (k, v) :: del l x := List.filter_cons_of_pos (by simp [hk])
      rw [hdel, get_cons, get_cons, ih]
      by_cases hx : x = y
      · rw [if_pos hx, if_neg (fun h => hk (h.trans hx.symm)), if_pos hx]
      · rw [if_neg hx, if_neg hx]

/-- A new key goes to the end. -/
theorem set_of_get_eq_none {l : List (K × α)} {x : K} (h : get l x = none) (a : α) :
    set l x a = l ++ [(x, a)] := by
  induction l with
  | nil => rfl
  | cons e l ih =>
    obtain ⟨k, v⟩ := e
    rw [get_cons] at h
    split_ifs at h with hk
    unfold set
    rw [if_neg hk, ih h, List.cons_append]

theorem set_cons (k x : K) (v a : α) (l : List (K × α)) :
    set ((k, v) :: l) x a = if k = x then (x, a) :: l else (k, v) :: set l x a := rfl

theorem set_of_get {l : List (K × α)} {x : K} {a : α} (h : get l x = some a) : set l x a = l := by
  induction l with
  | nil => exact nomatch h
  | cons e l ih =>
    obtain ⟨k, v⟩ := e
    rw [get_cons] at h
    unfold set
    split_ifs at h ⊢ with hk
    · cases h
      rw [hk]
    · rw [ih h]

theorem set_set (l : List (K × α)) (x : K) (a b : α) : set (set l x a) x b = set l x b := by
  induction l with
  | nil => simp [set]
  | cons e l ih =>
    obtain ⟨k, v⟩ := e
    by_cases hk : k = x
    · simp [set, hk]
    · simp [set, hk, ih]

theorem set_comm {l : List (K × α)} {x y : K} (hne : x ≠ y) (hx : get l x ≠ none) (a b : α) :
    set (set l y b) x a = set (set l x a) y b := by
  induction l with
  | nil => exact absurd rfl hx
  | cons e l ih =>
    obtain ⟨k, v⟩ := e
    by_cases hk : k = x
    · simp [set, hk, hne]
    · rw [get_cons, if_neg hk] at hx
      by_cases hy : k = y
      · simp [set, hy, Ne.symm hne]
      · simp [set, hk, hy, ih hx]

theorem del_cons_self (x : K) (v : α) (l : List (K × α)) : del ((x, v) :: l) x = del l x :=
  List.filter_cons_of_neg (by simp)

theorem del_cons_of_ne {k x : K} (h : k ≠ x) (v : α) (l : List (K × α)) :
    del ((k, v) :: l) x = (k, v) :: del l x :=
  List.filter_cons_of_pos (by simp [h])

theorem del_set_self (l : List (K × α)) (x : K) (a : α) : del (set l x a) x = del l x := by
  induction l with
  | nil => exact del_cons_self x a []
  | cons e l ih =>
    obtain ⟨k, v⟩ := e
    unfold set
    by_cases hk : k = x
    · rw [if_pos hk, hk, del_cons_self, del_cons_self]
    · rw [if_neg hk, del_cons_of_ne hk, del_cons_of_ne hk, ih]

theorem del_set_of_ne (l : List (K × α)) {k x : K} (h : k ≠ x) (a : α) :
    del (set l k a) x = set (del l x) k a := by
  induction l with
  | nil => exact del_cons_of_ne h a []
  | cons e l ih =>
    obtain ⟨k', v⟩ := e
    rw [set_cons]
    by_cases hk : k' = k
    · rw [if_pos hk, hk, del_cons_of_ne h, del_cons_of_ne h, set_cons, if_pos rfl]
    · rw [if_neg hk]
      by_cases hx : k' = x
      · rw [hx, del_cons_self, del_cons_self, ih]
      · rw [del_cons_of_ne hx, del_cons_of_ne hx, set_cons, if_neg hk, ih]

/-- The value of every key is mapped. -/
theorem get_map (f : α → β) (l : List (K × α)) (x : K) :
    get (l.map fun e => (e.1, f e.2)) x = (get l x).map f := by
  induction l with
  | nil => rfl
  | cons e l ih =>
    obtain ⟨k, v⟩ := e
    rw [List.map_cons, get_cons, get_cons, ih]
    split_ifs <;> rfl

theorem get_eq_none {l : List (K × α)} {x : K} : get l x = none ↔ x ∉ l.map Prod.fst := by
  induction l with
  | nil => exact iff_of_true rfl List.not_mem_nil
  | cons e l ih =>
    obtain ⟨k, v⟩ := e
    rw [get_cons, List.map_cons, List.mem_cons, not_or, ← ih]
    by_cases hk : k = x
    · rw [if_pos hk]
      exact iff_of_false (fun h => nomatch h) (fun h => h.1 hk.symm)
    · rw [if_neg hk]
      exact ⟨fun h => ⟨Ne.symm hk, h⟩, fun h => h.2⟩

theorem mem_of_get {l : List (K × α)} {x : K} {a : α} (h : get l x = some a) : (x, a) ∈ l := by
  induction l with
  | nil => exact nomatch h
  | cons e l ih =>
    obtain ⟨k, v⟩ := e
    rw [get_cons] at h
    split_ifs at h with hk
    · cases h
      rw [hk]
      exact List.mem_cons_self
    · exact List.mem_cons_of_mem _ (ih h)

/-! ## Tables without duplicates -/

/-- No key occurs twice. -/
def Keyed (l : List (K × α)) : Prop := (l.map Prod.fst).Nodup

omit [DecidableEq K] in
theorem keyed_nil : Keyed ([] : List (K × α)) := List.nodup_nil

theorem keyed_cons {k : K} {v : α} {l : List (K × α)} :
    Keyed ((k, v) :: l) ↔ get l k = none ∧ Keyed l := by
  unfold Keyed
  rw [List.map_cons, List.nodup_cons, get_eq_none]

theorem keyed_set {l : List (K × α)} (h : Keyed l) (x : K) (a : α) : Keyed (set l x a) := by
  induction l with
  | nil => exact List.nodup_singleton x
  | cons e l ih =>
    obtain ⟨k, v⟩ := e
    obtain ⟨hk, hl⟩ := keyed_cons.1 h
    unfold set
    by_cases hx : k = x
    · rw [if_pos hx, keyed_cons, ← hx]
      exact ⟨hk, hl⟩
    · rw [if_neg hx, keyed_cons, get_set, if_neg (Ne.symm hx)]
      exact ⟨hk, ih hl⟩

theorem keyed_del {l : List (K × α)} (h : Keyed l) (x : K) : Keyed (del l x) :=
  (List.filter_sublist.map Prod.fst).nodup h

theorem mem_iff_get {l : List (K × α)} (h : Keyed l) {x : K} {a : α} :
    (x, a) ∈ l ↔ get l x = some a := by
  refine ⟨fun hm => ?_, mem_of_get⟩
  induction l with
  | nil => exact absurd hm List.not_mem_nil
  | cons e l ih =>
    obtain ⟨k, v⟩ := e
    obtain ⟨hk, hl⟩ := keyed_cons.1 h
    rw [get_cons]
    rcases List.mem_cons.1 hm with he | hm
    · cases he
      exact if_pos rfl
    · have hx := ih hl hm
      rw [if_neg, hx]
      rintro rfl
      rw [hk] at hx
      exact nomatch hx

/-- A table is known by its lookups. -/
theorem perm_of_get {l l' : List (K × α)} (h : Keyed l) (h' : Keyed l')
    (hget : ∀ x, get l x = get l' x) : l.Perm l' := by
  refine (List.perm_ext_iff_of_nodup h.of_map h'.of_map).2 ?_
  rintro ⟨x, a⟩
  rw [mem_iff_get h, mem_iff_get h', hget]

/-! ## The order of the keys -/

variable {L : Type} [LinearOrder L]

/-- The entries in the order of their keys. -/
def sortKeys (l : List (L × α)) : List (L × α) := l.insertionSort (·.1 ≤ ·.1)

instance total_key : Std.Total (fun a b : L × α => a.1 ≤ b.1) := ⟨fun a b => le_total a.1 b.1⟩

instance isTrans_key : IsTrans (L × α) (fun a b => a.1 ≤ b.1) := ⟨fun _ _ _ h h' => le_trans h h'⟩

theorem perm_sortKeys (l : List (L × α)) : (sortKeys l).Perm l := List.perm_insertionSort _ _

/-- **A table in the order of its keys is known by its lookups.** -/
theorem sortKeys_congr {l l' : List (L × α)} (h : Keyed l) (h' : Keyed l')
    (hget : ∀ x, get l x = get l' x) : sortKeys l = sortKeys l' := by
  have hperm := perm_of_get h h' hget
  refine List.Perm.eq_of_pairwise ?_
    (List.pairwise_insertionSort _ _) (List.pairwise_insertionSort _ _)
    (((perm_sortKeys l).trans hperm).trans (perm_sortKeys l').symm)
  rintro ⟨x, a⟩ ⟨y, b⟩ ha hb hxy hyx
  obtain rfl : x = y := le_antisymm hxy hyx
  have ha' := (mem_iff_get h').1 (hperm.mem_iff.1 ((perm_sortKeys l).mem_iff.1 ha))
  have hb' := (mem_iff_get h').1 ((perm_sortKeys l').mem_iff.1 hb)
  rw [ha', Option.some.injEq] at hb'
  rw [hb']

theorem filter_orderedInsert (p : L → Bool) (a : L × α) {l : List (L × α)}
    (h : l.Pairwise (·.1 ≤ ·.1)) :
    (l.orderedInsert (·.1 ≤ ·.1) a).filter (p ·.1) =
      if p a.1 then (l.filter (p ·.1)).orderedInsert (·.1 ≤ ·.1) a else l.filter (p ·.1) := by
  induction l with
  | nil => cases h : p a.1 <;> simp [h]
  | cons b l ih =>
    obtain ⟨hb, hl⟩ := List.pairwise_cons.1 h
    have hsplit := ih hl
    by_cases hab : a.1 ≤ b.1
    · have hfirst : ∀ c ∈ (b :: l).filter (p ·.1), a.1 ≤ c.1 := by
        intro c hc
        rcases List.mem_cons.1 (List.mem_of_mem_filter hc) with rfl | hc
        · exact hab
        · exact hab.trans (hb c hc)
      have hinsert : ((b :: l).filter (p ·.1)).orderedInsert (·.1 ≤ ·.1) a =
          a :: (b :: l).filter (p ·.1) := by
        generalize (b :: l).filter (p ·.1) = l' at hfirst
        cases l' with
        | nil => rfl
        | cons c l' => exact List.orderedInsert_cons_of_le _ l' (hfirst c List.mem_cons_self)
      rw [List.orderedInsert_cons_of_le _ l hab, hinsert, List.filter_cons]
    · rw [List.orderedInsert_of_not_le _ l hab, List.filter_cons, List.filter_cons, hsplit]
      cases p b.1 <;> cases p a.1 <;> simp [hab]

/-- Some of the keys, in order. -/
theorem filter_sortKeys (p : L → Bool) (l : List (L × α)) :
    (sortKeys l).filter (p ·.1) = sortKeys (l.filter (p ·.1)) := by
  unfold sortKeys
  induction l with
  | nil => rfl
  | cons a l ih =>
    rw [List.insertionSort_cons, filter_orderedInsert p a (List.pairwise_insertionSort _ _), ih,
      List.filter_cons]
    cases p a.1 <;> rfl

/-- Other values for the keys in order. -/
theorem map_sortKeys (f : α → β) (l : List (L × α)) :
    (sortKeys l).map (fun e => (e.1, f e.2)) = sortKeys (l.map fun e => (e.1, f e.2)) :=
  List.map_insertionSort _ _ _ l fun _ _ _ _ => Iff.rfl

end Assoc

end TalerExchange
