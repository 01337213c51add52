import Mathlib.Data.List.Basic

/-!
# Names of columns in sub-queries

A sub-query sees the current rows of the queries around it. A name stands for the column of the
innermost table that has one of that name, so a sub-query whose table has no such column tests the
row of the query around it against itself.

* `Scope`: the cells of the current row of a table, `none` for `NULL`;
* `resolve`: the cell that a name stands for, from the inside out;
* `sqlEq`: a comparison that is true;
* `selectIn`: `v IN (SELECT c FROM rows WHERE p)`;
* **`selectIn_inner`**, **`selectIn_outer`**: what it says if the rows have a column `c`, and if the
  name stands for the value `v` itself.
-/

namespace Sql

variable {ν : Type}

/-- The current row of a table: names with cells. -/
abbrev Scope (ν : Type) := List (String × Option ν)

/-- The cell that a name stands for; `none` where it is `NULL`. -/
def resolve (scopes : List (Scope ν)) (c : String) : Option ν :=
  (scopes.findSome? fun s => s.lookup c).join

theorem resolve_cons_of_some {s : Scope ν} {outer : List (Scope ν)} {c : String} {v : Option ν}
    (h : s.lookup c = some v) : resolve (s :: outer) c = v := by
  unfold resolve
  rw [List.findSome?_cons, h]
  rfl

theorem resolve_cons_of_none {s : Scope ν} {outer : List (Scope ν)} {c : String}
    (h : s.lookup c = none) : resolve (s :: outer) c = resolve outer c := by
  unfold resolve
  rw [List.findSome?_cons, h]

variable [DecidableEq ν]

/-- `x = y` is true: neither is `NULL`. -/
def sqlEq (x y : Option ν) : Bool := x.isSome && decide (x = y)

theorem sqlEq_iff {x y : Option ν} : sqlEq x y = true ↔ ∃ a, x = some a ∧ y = some a := by
  unfold sqlEq
  rw [Bool.and_eq_true, decide_eq_true_eq, Option.isSome_iff_exists]
  constructor
  · rintro ⟨⟨a, ha⟩, e⟩
    exact ⟨a, ha, e ▸ ha⟩
  · rintro ⟨a, ha, e⟩
    exact ⟨⟨a, ha⟩, ha.trans e.symm⟩

theorem sqlEq_some {a : ν} {x : Option ν} : sqlEq x (some a) = true ↔ x = some a := by
  rw [sqlEq_iff]
  constructor
  · rintro ⟨b, hb, e⟩
    exact hb.trans e.symm
  · intro h
    exact ⟨a, h, rfl⟩

theorem sqlEq_self {x : Option ν} : sqlEq x x = x.isSome := by
  unfold sqlEq
  rw [decide_eq_true rfl, Bool.and_true]

/-- `v IN (SELECT c FROM rows WHERE p)`, where `outer` are the rows of the queries around it. -/
def selectIn (outer : List (Scope ν)) (v : Option ν) (c : String) (rows : List (Scope ν))
    (p : List (Scope ν) → Bool) : Bool :=
  rows.any fun s => p (s :: outer) && sqlEq (resolve (s :: outer) c) v

section SubQuery

variable {outer : List (Scope ν)} {v : Option ν} {c : String} {rows : List (Scope ν)}
  {p : List (Scope ν) → Bool}

/-- **A column of the sub-query's own table**: the value is in one of the rows that are selected. -/
theorem selectIn_inner {f : Scope ν → Option ν} (hc : ∀ s ∈ rows, s.lookup c = some (f s)) :
    selectIn outer v c rows p = true ↔
      ∃ s ∈ rows, p (s :: outer) = true ∧ sqlEq (f s) v = true := by
  unfold selectIn
  rw [List.any_eq_true]
  constructor
  · rintro ⟨s, hs, hp⟩
    rw [Bool.and_eq_true, resolve_cons_of_some (hc s hs)] at hp
    exact ⟨s, hs, hp⟩
  · rintro ⟨s, hs, hp⟩
    refine ⟨s, hs, ?_⟩
    rw [Bool.and_eq_true, resolve_cons_of_some (hc s hs)]
    exact hp

/-- **A column of a query around it**: the value is compared with itself, all that counts is whether
any row is selected. -/
theorem selectIn_outer (hc : ∀ s ∈ rows, s.lookup c = none) :
    selectIn outer (resolve outer c) c rows p = true ↔
      (resolve outer c).isSome = true ∧ ∃ s ∈ rows, p (s :: outer) = true := by
  unfold selectIn
  rw [List.any_eq_true]
  constructor
  · rintro ⟨s, hs, hp⟩
    rw [Bool.and_eq_true, resolve_cons_of_none (hc s hs), sqlEq_self] at hp
    exact ⟨hp.2, s, hs, hp.1⟩
  · rintro ⟨hv, s, hs, hp⟩
    refine ⟨s, hs, ?_⟩
    rw [Bool.and_eq_true, resolve_cons_of_none (hc s hs), sqlEq_self]
    exact ⟨hp, hv⟩

end SubQuery

end Sql
