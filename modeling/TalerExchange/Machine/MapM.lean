import Mathlib.Data.List.Basic
import Mathlib.Tactic.Ring

/-!
# Loops that may fail

A loop that computes something from each element of a list, and ends at the first failure.

* `mapM_eq_some`, `mapM_eq_ok`: it succeeds if and only if each element does;
* `mapM_range_eq_ok`: a loop over indices;
* `getElem?_flatten`: rows of equal length in a single array.
-/

namespace TalerExchange

section MapM

variable {α β ε : Type}

theorem mapM_eq_some {f : α → Option β} {l : List α} {ys : List β} :
    l.mapM f = some ys ↔ l.map f = ys.map some := by
  induction l generalizing ys with
  | nil => cases ys <;> simp
  | cons x l ih =>
    rw [List.mapM_cons, List.map_cons]
    cases hx : f x with
    | none => cases ys <;> simp
    | some y =>
      cases ys with
      | nil => cases l.mapM f <;> simp
      | cons z ys =>
        rw [List.map_cons, List.cons.injEq, ← ih, Option.some.injEq]
        cases l.mapM f <;> simp

theorem mapM_eq_ok {f : α → Except ε β} {l : List α} {ys : List β} :
    l.mapM f = .ok ys ↔ l.map f = ys.map .ok := by
  induction l generalizing ys with
  | nil => cases ys <;> simp [pure, Except.pure]
  | cons x l ih =>
    rw [List.mapM_cons, List.map_cons]
    cases hx : f x with
    | error e => cases ys <;> simp [bind, Except.bind]
    | ok y =>
      cases ys with
      | nil => cases l.mapM f <;> simp [bind, Except.bind, pure, Except.pure]
      | cons z ys =>
        rw [List.map_cons, List.cons.injEq, ← ih, Except.ok.injEq]
        cases l.mapM f <;> simp [bind, Except.bind, pure, Except.pure]

theorem mapM_range_eq_ok {n : ℕ} {f : ℕ → Except ε β} {ys : List β} :
    (List.range n).mapM f = .ok ys ↔
      ys.length = n ∧ ∀ i (h : i < ys.length), f i = .ok ys[i] := by
  rw [mapM_eq_ok]
  constructor
  · intro h
    have hl : ys.length = n := by simpa using (congrArg List.length h).symm
    refine ⟨hl, fun i hi => ?_⟩
    have hi' := List.getElem_of_eq h (i := i) (by simpa [hl] using hi)
    simpa using hi'
  · rintro ⟨rfl, h⟩
    refine List.ext_getElem (by simp) fun i h₁ h₂ => ?_
    rw [List.getElem_map, List.getElem_range, List.getElem_map, h i (by simpa using h₂)]

end MapM

/-- **Rows of equal length** in a single array. -/
theorem getElem?_flatten {α : Type} {m i j : ℕ} {l : List (List α)} (hl : ∀ a ∈ l, a.length = m)
    (hj : j < m) : l.flatten[m * i + j]? = l[i]?.bind (·[j]?) := by
  induction l generalizing i with
  | nil => simp
  | cons a l ih =>
    have ha : a.length = m := hl a List.mem_cons_self
    rw [List.flatten_cons]
    cases i with
    | zero =>
      rw [Nat.mul_zero, Nat.zero_add, List.getElem?_append_left (ha ▸ hj)]
      rfl
    | succ i =>
      have he : m * (i + 1) + j = a.length + (m * i + j) := by rw [ha]; ring
      rw [he, List.getElem?_append_right (Nat.le_add_right _ _), Nat.add_sub_cancel_left,
        ih fun b hb => hl b (List.mem_cons_of_mem _ hb)]
      rfl

end TalerExchange
