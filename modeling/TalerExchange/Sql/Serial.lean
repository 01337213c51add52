import Mathlib.Data.List.Basic
import Mathlib.Order.MinMax
import Mathlib.Data.List.Pairwise

/-!
# Serial numbers

The serial numbers of a table whose rows are numbered from 1 in the order in which they appear.

* `QueryStatus`: what a statement returns;
* `highest`: the highest number, 0 for an empty table;
* `Numbered`: numbers in ascending order;
* **`Numbered.filter_above`**: what lies above a part that came first is the rest.
-/

namespace TalerExchange

/-- `enum GNUNET_DB_QueryStatus`. -/
inductive QueryStatus
  | hardError
  | softError
  | noResults
  | oneResult
deriving DecidableEq, Repr

end TalerExchange

namespace Sql

variable {l m : List ℕ} {k : ℕ}

/-- The highest number of a list, 0 if it is empty. -/
def highest (l : List ℕ) : ℕ := l.foldr max 0

@[simp] theorem highest_nil : highest [] = 0 := rfl

theorem highest_cons : highest (k :: l) = max k (highest l) := rfl

theorem le_highest (h : k ∈ l) : k ≤ highest l := by
  induction l with
  | nil => cases h
  | cons a l ih =>
    rw [highest_cons]
    rcases List.mem_cons.mp h with rfl | h
    · exact le_max_left _ _
    · exact (ih h).trans (le_max_right _ _)

theorem highest_le (h : ∀ x ∈ l, x ≤ k) : highest l ≤ k := by
  induction l with
  | nil => exact Nat.zero_le k
  | cons a l ih =>
    rw [highest_cons]
    exact max_le (h a List.mem_cons_self) (ih fun x hx => h x (List.mem_cons_of_mem _ hx))

theorem highest_mem (h : l ≠ []) : highest l ∈ l := by
  induction l with
  | nil => exact absurd rfl h
  | cons a l ih =>
    rw [highest_cons]
    rcases eq_or_ne l [] with rfl | hl
    · simp
    · rcases max_choice a (highest l) with hm | hm <;> rw [hm]
      · exact List.mem_cons_self
      · exact List.mem_cons_of_mem _ (ih hl)

theorem highest_mono (h : l ⊆ m) : highest l ≤ highest m :=
  highest_le fun _ hx => le_highest (h hx)

/-- Numbers from 1 on, each higher than those before it. -/
def Numbered (l : List ℕ) : Prop := (0 :: l).Pairwise (· < ·)

instance (l : List ℕ) : Decidable (Numbered l) :=
  inferInstanceAs (Decidable ((0 :: l).Pairwise (· < ·)))

namespace Numbered

theorem positive (h : Numbered l) (hk : k ∈ l) : 0 < k := (List.pairwise_cons.mp h).1 k hk

theorem ordered (h : Numbered l) : l.Pairwise (· < ·) := (List.pairwise_cons.mp h).2

theorem nodup (h : Numbered l) : l.Nodup := h.ordered.imp fun hlt => hlt.ne

theorem of_initial (h : Numbered l) (hm : m <+: l) : Numbered m :=
  h.sublist (hm.sublist.cons_cons 0)

/-- New numbers above all earlier ones keep the order. -/
theorem append (h : Numbered l) (hm : (highest l :: m).Pairwise (· < ·)) : Numbered (l ++ m) := by
  obtain ⟨habove, hm⟩ := List.pairwise_cons.mp hm
  unfold Numbered
  rw [← List.cons_append, List.pairwise_append]
  refine ⟨h, hm, ?_⟩
  intro a ha b hb
  have hb := habove b hb
  rcases List.mem_cons.mp ha with rfl | ha
  · omega
  · exact (le_highest ha).trans_lt hb

theorem lt_of_append (h : Numbered (l ++ m)) (hk : k ∈ m) : highest l < k := by
  rcases eq_or_ne l [] with rfl | hl
  · exact h.positive hk
  · exact (List.pairwise_append.mp h.ordered).2.2 _ (highest_mem hl) k hk

/-- **What lies above a part that came first is the rest.** -/
theorem filter_above (h : Numbered (l ++ m)) :
    (l ++ m).filter (fun x => highest l < x) = m := by
  rw [List.filter_append]
  have hl : l.filter (fun x => highest l < x) = [] := by
    rw [List.filter_eq_nil_iff]
    intro a ha
    simpa using le_highest ha
  have hm : m.filter (fun x => highest l < x) = m := by
    rw [List.filter_eq_self]
    intro a ha
    simpa using h.lt_of_append ha
  rw [hl, hm, List.nil_append]

/-- A part that came first has every number up to its highest one. -/
theorem mem_of_le (h : Numbered l) (hm : m <+: l) (hk : k ∈ l) (hle : k ≤ highest m) : k ∈ m := by
  obtain ⟨rest, rfl⟩ := hm
  rcases List.mem_append.mp hk with hk | hk
  · exact hk
  · have := h.lt_of_append hk
    omega

end Numbered

end Sql
