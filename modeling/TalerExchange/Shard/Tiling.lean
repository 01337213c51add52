import Mathlib.Order.Lattice
import Mathlib.Data.List.Basic

/-!
# Tilings by half-open intervals

A list of intervals `[lo, hi)`, in order, each starting where the one before ends.

* `Tiles a l b`: the intervals of `l` tile `[a, b)`;
* **`Tiles.covers`**, **`Tiles.pairwise`**: every point below `b` is in some interval, and later
  intervals start after earlier ones have ended.
-/

namespace Tiling

variable {α : Type} [LinearOrder α]

/-- The intervals of a list tile `[a, b)` in order. -/
inductive Tiles : α → List (α × α) → α → Prop
  | nil (a : α) : Tiles a [] a
  | cons {a b c : α} {l : List (α × α)} : a ≤ b → Tiles b l c → Tiles a ((a, b) :: l) c

namespace Tiles

variable {a b c : α} {l : List (α × α)}

theorem le (h : Tiles a l b) : a ≤ b := by
  induction h with
  | nil => exact le_rfl
  | cons hab _ ih => exact hab.trans ih

/-- One more interval at the end. -/
theorem snoc (h : Tiles a l b) (hbc : b ≤ c) : Tiles a (l ++ [(b, c)]) c := by
  induction h with
  | nil => exact .cons hbc (.nil c)
  | cons hab _ ih => exact .cons hab (ih hbc)

theorem bounds (h : Tiles a l b) {i : α × α} (hi : i ∈ l) : a ≤ i.1 ∧ i.1 ≤ i.2 ∧ i.2 ≤ b := by
  induction h with
  | nil => cases hi
  | cons hab ht ih =>
    rcases List.mem_cons.mp hi with rfl | hi
    · exact ⟨le_rfl, hab, ht.le⟩
    · obtain ⟨h₁, h₂, h₃⟩ := ih hi
      exact ⟨hab.trans h₁, h₂, h₃⟩

/-- **Every point between the ends is in an interval.** -/
theorem covers (h : Tiles a l b) {x : α} (ha : a ≤ x) (hb : x < b) : ∃ i ∈ l, i.1 ≤ x ∧ x < i.2 := by
  induction h with
  | nil => exact absurd hb ha.not_gt
  | @cons a m b l hab _ ih =>
    by_cases hx : x < m
    · exact ⟨(a, m), List.mem_cons_self, ha, hx⟩
    · obtain ⟨i, hi, h⟩ := ih (not_lt.mp hx) hb
      exact ⟨i, List.mem_cons_of_mem _ hi, h⟩

/-- **The intervals do not overlap.** -/
theorem pairwise (h : Tiles a l b) : l.Pairwise fun i j => i.2 ≤ j.1 := by
  induction h with
  | nil => exact List.Pairwise.nil
  | cons _ ht ih => exact List.pairwise_cons.mpr ⟨fun j hj => (ht.bounds hj).1, ih⟩

theorem end_mem (h : Tiles a l b) (hne : l ≠ []) : b ∈ l.map Prod.snd := by
  induction h with
  | nil => exact absurd rfl hne
  | @cons a m b l _ ht ih =>
    by_cases hl : l = []
    · subst hl
      cases ht
      exact List.mem_cons_self
    · exact List.mem_cons_of_mem _ (ih hl)

/-- The greatest end is where the tiling ends. -/
theorem max?_ends [Std.LawfulOrderMax α] (h : Tiles a l b) (hne : l ≠ []) :
    (l.map Prod.snd).max? = some b := by
  refine List.max?_eq_some_iff.mpr ⟨h.end_mem hne, fun e he => ?_⟩
  obtain ⟨i, hi, rfl⟩ := List.mem_map.mp he
  exact (h.bounds hi).2.2

end Tiles

end Tiling
