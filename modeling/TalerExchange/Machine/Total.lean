import TalerExchange.Machine.Assoc
import Mathlib.Algebra.BigOperators.Group.List.Basic
import Mathlib.Algebra.GroupWithZero.Nat
import Mathlib.Algebra.Order.BigOperators.Group.List
import Mathlib.Algebra.Order.Group.Nat

/-!
# Sums over tables

The sum of a quantity over the values of an association list.

* `Assoc.total`; `total_set`, `total_del`: what an update adds and takes away;
* `le_total_of_get`: no value exceeds it;
* `total_congr`, `get_perm`: it is known by the lookups, and these do not depend on the order.
-/

namespace TalerExchange

namespace Assoc

variable {K α : Type} [DecidableEq K] {f : α → ℕ} {l l' : List (K × α)} {x : K} {a : α}

/-- The quantities of all values together. -/
def total (f : α → ℕ) (l : List (K × α)) : ℕ := (l.map fun e => f e.2).sum

omit [DecidableEq K] in
@[simp] theorem total_nil : total f ([] : List (K × α)) = 0 := rfl

omit [DecidableEq K] in
@[simp] theorem total_cons (k : K) (v : α) : total f ((k, v) :: l) = f v + total f l := by
  simp [total]

/-- The new value counts, the old one does not. -/
theorem total_set (l : List (K × α)) (x : K) (a : α) :
    total f (set l x a) + (get l x).elim 0 f = total f l + f a := by
  induction l with
  | nil => simp [set]
  | cons e l ih =>
    obtain ⟨k, v⟩ := e
    unfold set
    by_cases hk : k = x
    · rw [if_pos hk, get_cons, if_pos hk, total_cons, total_cons, Option.elim_some]
      omega
    · rw [if_neg hk, get_cons, if_neg hk, total_cons, total_cons]
      omega

theorem total_del (h : Keyed l) (x : K) : total f (del l x) + (get l x).elim 0 f = total f l := by
  induction l with
  | nil => rfl
  | cons e l ih =>
    obtain ⟨k, v⟩ := e
    obtain ⟨hk, hl⟩ := keyed_cons.1 h
    by_cases hx : k = x
    · have hdel : del ((k, v) :: l) x = del l x := List.filter_cons_of_neg (by simp [hx])
      have hrest := ih hl
      rw [← hx] at hrest ⊢
      rw [hk, Option.elim_none, add_zero] at hrest
      rw [← hx] at hdel
      rw [hdel, get_cons, if_pos rfl, Option.elim_some, total_cons, hrest, add_comm]
    · have hdel : del ((k, v) :: l) x = (k, v) :: del l x := List.filter_cons_of_pos (by simp [hx])
      rw [hdel, get_cons, if_neg hx, total_cons, total_cons, ← ih hl, add_assoc]

theorem le_total_of_get (h : get l x = some a) : f a ≤ total f l :=
  List.le_sum_of_mem (List.mem_map.mpr ⟨(x, a), mem_of_get h, rfl⟩)

omit [DecidableEq K] in
theorem total_perm (h : l.Perm l') : total f l = total f l' := (h.map _).sum_eq

/-- **The total is known by the lookups.** -/
theorem total_congr (h : Keyed l) (h' : Keyed l') (hget : ∀ x, get l x = get l' x) :
    total f l = total f l' :=
  total_perm (perm_of_get h h' hget)

/-- Nor does the order matter to lookups. -/
theorem get_perm (h : Keyed l) (hp : l'.Perm l) (x : K) : get l' x = get l x := by
  have h' : Keyed l' := (hp.map Prod.fst).nodup_iff.mpr h
  refine Option.ext fun a => ?_
  rw [← mem_iff_get h', ← mem_iff_get h, hp.mem_iff]

end Assoc

end TalerExchange
